import Sage040.Fs.Journal.Log

/-!
# What a recovery does

`journalRecover_run` says, for a disk whose log is laid out as `LogAt` says, everything
`journal_recover` does: the list of blocks it writes, in order, and the state it leaves. It is
put together from the two passes (`journalPass_scan`, `journalPass_replay`), and these from what
each does at one block of the log.
-/

namespace Sage040.Ext2

open List State

variable {v : Volume} {d : Disk} {s : State}

/-- The journal's own blocks are the same on both disks. -/
def SameJournal (v : Volume) (d e : Disk) : Prop := ∀ i < v.jMaxlen, d (v.jmap i) = e (v.jmap i)

lemma SameJournal.wroteAll {ws : List (Nat × Block)} (h : SameJournal v s.disk d)
    (hw : ∀ w ∈ ws, ¬v.InJournal w.1) : SameJournal v (s.wroteAll ws).disk d := by
  intro i hi
  rw [← h i hi]
  refine applyWrites_of_notMem (fun w hmem he => hw w hmem ?_) s.disk
  exact ⟨i, hi, he.symm⟩

lemma tagNext_ge (jbuf : Block) (t : Nat) : t + 8 ≤ tagNext jbuf t := by
  unfold tagNext jbdTagBytes
  split <;> omega

/-- What pass 1 writes home for a descriptor of transaction `seq` with these copies. -/
def homeWrites (v : Volume) (tbl : RevokeTable) (seq : Nat) (cs : List (Nat × Block)) :
    List (Nat × Block) :=
  cs.filter fun c => !revoked tbl c.1 seq && decide (c.1 < v.blocksCount)

variable {tbl : RevokeTable} {grant : Nat → Bool} {rs : List Rec} {cs : List (Nat × Block)}
  {pos seq : Nat}

lemma homeWrites_notInJournal {seq} (hh : ∀ c ∈ cs, c.1 < v.blocksCount → ¬v.InJournal c.1) :
    ∀ w ∈ homeWrites v tbl seq cs, ¬v.InJournal w.1 := by
  intro w hw
  obtain ⟨hmem, hlt⟩ := mem_filter.mp hw
  exact hh w hmem (of_decide_eq_true (Bool.and_eq_true_iff.mp hlt).2)

lemma replayTag_run {seq pos blk fl : Nat} (ht : s.revoke = tbl)
    (hj : SameJournal v s.disk d) (hp : pos < v.jMaxlen) : (replayTag v seq blk fl pos).run s =
      .ok () (s.wroteAll (homeWrites v tbl seq [(blk, unescaped fl (d (v.jmap pos)))])) := by
  subst ht
  rw [replayTag, run_bind_of_ok get_run, homeWrites, filter_singleton]
  by_cases hc : (!revoked s.revoke blk seq && decide (blk < v.blocksCount)) = true
  · rw [if_pos hc, run_bind_of_ok (jread_run hp), bwriteRaw_run, hj pos hp, wrote_eq, hc]
    rfl
  rw [if_neg hc, Bool.eq_false_iff.mpr hc]
  simp only [cond_false, wroteAll_nil]
  rfl

variable {jbuf : Block} {t pos' fuel q k n : Nat}

lemma descriptorTags_scan {pos} (h : CopiesAt v d jbuf t pos cs pos') {seq}
    (hf : v.blockSize < t + 8 * fuel) :
    (descriptorTags v false seq jbuf fuel t pos).run s = .ok pos' s := by
  induction h generalizing fuel with
  | full h =>
    cases fuel with
    | zero => rfl
    | succ n => rw [descriptorTags, if_pos h]; rfl
  | last h hl =>
    obtain ⟨fuel, rfl⟩ : ∃ n, fuel = n + 1 := ⟨fuel - 1, by unfold jbdTagBytes at h; omega⟩
    rw [descriptorTags, if_neg h]
    simp only [Bool.false_eq_true, if_false, if_pos hl]
    rfl
  | @more t pos _ _ h hl _ ih =>
    obtain ⟨fuel, rfl⟩ : ∃ n, fuel = n + 1 := ⟨fuel - 1, by unfold jbdTagBytes at h; omega⟩
    rw [descriptorTags, if_neg h]
    have hn := tagNext_ge jbuf t
    simp only [Bool.false_eq_true, if_false, hl, ne_eq, not_true]
    exact ih (by omega)

lemma descriptorTags_replay {pos} (h : CopiesAt v d jbuf t pos cs pos') {seq}
    (hf : v.blockSize < t + 8 * fuel) (hp : pos < v.jMaxlen) (ht : s.revoke = tbl)
    (hj : SameJournal v s.disk d) (hh : ∀ c ∈ cs, c.1 < v.blocksCount → ¬v.InJournal c.1) :
    (descriptorTags v true seq jbuf fuel t pos).run s =
    .ok pos' (s.wroteAll (homeWrites v tbl seq cs)) := by
  induction h generalizing fuel s with
  | full h =>
    cases fuel with
    | zero => simp [homeWrites]; rfl
    | succ n => rw [descriptorTags, if_pos h]; simp [homeWrites]
  | last h hl =>
    obtain ⟨fuel, rfl⟩ : ∃ n, fuel = n + 1 := ⟨fuel - 1, by unfold jbdTagBytes at h; omega⟩
    rw [descriptorTags, if_neg h]
    simp only [if_true, if_pos hl]
    rw [run_bind_of_ok (replayTag_run ht hj hp)]
    rfl
  | @more t pos _ cs h hl _ ih =>
    obtain ⟨fuel, rfl⟩ : ∃ n, fuel = n + 1 := ⟨fuel - 1, by unfold jbdTagBytes at h; omega⟩
    rw [descriptorTags, if_neg h]
    have hn := tagNext_ge jbuf t
    simp only [if_true, hl, ne_eq, not_true, if_false]
    rw [run_bind_of_ok (replayTag_run ht hj hp)]
    refine (ih ?_ (v.jnext_lt _) ?_ ?_ ?_).trans ?_
    · omega
    · exact ht
    · refine hj.wroteAll (homeWrites_notInJournal ?_)
      exact forall_mem_singleton.mpr (hh _ mem_cons_self)
    · exact fun c hc => hh c (mem_cons_of_mem _ hc)
    · rw [← wroteAll_append, homeWrites, homeWrites, ← filter_append, singleton_append, homeWrites]

/-! ### One block of a pass -/

section Block

variable {grant : Nat → Bool} {replay : Bool} {end_ fuel pos seq : Nat}

abbrev GoesOn (replay : Bool) (seq end_ : Nat) : Prop := (replay && !s32Neg seq end_) = false

lemma goesOn_true {q k n} (hq : seq = (q + k) % 2 ^ 32) (hk : k < n) (hlt : n < 2 ^ 31) :
    GoesOn true seq ((q + n) % 2 ^ 32) := by
  rw [GoesOn, hq, s32Neg_add (hk.trans hlt) hlt]
  simp [hk]

variable (hg : GoesOn replay seq end_) (hp : pos < v.jMaxlen) (hj : SameJournal v s.disk d)

include hg hp hj

lemma journalPass_stop (hd : ¬HeaderAt v d pos seq jbdDescriptor)
    (hc : ¬HeaderAt v d pos seq jbdCommit) (hr : ¬HeaderAt v d pos seq jbdRevoke) :
    (journalPass v grant replay end_ (fuel + 1) pos seq).run s = .ok seq s := by
  rw [journalPass, hg, if_neg Bool.false_ne_true, run_bind_of_ok (jread_run hp), hj pos hp]
  split
  · rfl
  rename_i hh
  obtain ⟨hm, hs⟩ := not_or.mp hh
  rw [if_neg fun h => hd ⟨not_not.mp hm, not_not.mp hs, h⟩,
    if_neg fun h => hc ⟨not_not.mp hm, not_not.mp hs, h⟩,
    if_neg fun h => hr ⟨not_not.mp hm, not_not.mp hs, h⟩]
  rfl

lemma journalPass_descriptor (h : HeaderAt v d pos seq jbdDescriptor) :
    (journalPass v grant replay end_ (fuel + 1) pos seq).run s =
      (descriptorTags v replay seq (d (v.jmap pos)) v.blockSize jbdHeader (v.jnext pos) >>=
        fun pos => journalPass v grant replay end_ fuel pos seq).run s := by
  rw [journalPass, hg, if_neg Bool.false_ne_true, run_bind_of_ok (jread_run hp), hj pos hp,
    if_neg (by simp [h.magic, h.seq]), if_pos h.type]

lemma journalPass_commit (h : HeaderAt v d pos seq jbdCommit) :
    (journalPass v grant replay end_ (fuel + 1) pos seq).run s =
      (journalPass v grant replay end_ fuel (v.jnext pos) ((seq + 1) % 2 ^ 32)).run s := by
  rw [journalPass, hg, if_neg Bool.false_ne_true, run_bind_of_ok (jread_run hp), hj pos hp,
    if_neg (by simp [h.magic, h.seq]), h.type, if_neg (by decide), if_pos rfl]

lemma journalPass_revoke (h : HeaderAt v d pos seq jbdRevoke) :
    (journalPass v grant replay end_ (fuel + 1) pos seq).run s =
      (journalPass v grant replay end_ fuel (v.jnext pos) seq).run (if replay then s else { s with
          revoke := (revokeRecords (d (v.jmap pos)) v.blockSize).foldl
            (fun t blk => revokeAdd grant blk seq t) s.revoke }) := by
  rw [journalPass, hg, if_neg Bool.false_ne_true, run_bind_of_ok (jread_run hp), hj pos hp,
    if_neg (by simp [h.magic, h.seq]), h.type, if_neg (by decide), if_neg (by decide), if_pos rfl]
  cases replay with
  | true => rfl
  | false =>
    rw [Bool.not_false, if_pos rfl, run_bind_of_ok (modify_run _), if_neg Bool.false_ne_true]

end Block

/-! ### Pass 0 -/

/-- The revoke table when the records of the transactions counted from `q` have been added. -/
def gather (grant : Nat → Bool) (q : Nat) (revs : List (Nat × Nat)) (t : RevokeTable) :
    RevokeTable :=
  revs.foldl (fun t r => revokeAdd grant r.2 ((q + r.1) % 2 ^ 32) t) t

/-- **Pass 0** changes nothing but the table, and finds the end of the committed transactions. -/
lemma journalPass_scan (h : LogAt v d pos seq rs) (hq : seq = (q + k) % 2 ^ 32)
    (hp : pos < v.jMaxlen) (hj : SameJournal v s.disk d) (hf : rs.length < fuel) :
    (journalPass v grant false 0 fuel pos seq).run s = .ok ((q + (k + commits rs)) % 2 ^ 32)
        { s with revoke := gather grant q (revokesFrom k rs) s.revoke } := by
  obtain ⟨m, rfl⟩ : ∃ m, fuel = m + rs.length + 1 := ⟨fuel - rs.length - 1, by omega⟩
  clear hf
  induction h generalizing k s with
  | stop hd hc hr =>
    rw [journalPass_stop rfl hp hj hd hc hr, hq]
    rfl
  | descriptor hh hs hrs ih =>
    rw [journalPass_descriptor rfl hp hj hh, run_bind_of_ok
      (descriptorTags_scan hs (by unfold jbdHeader; omega))]
    exact ih hq (hs.pos_lt (v.jnext_lt _)) hj
  | commit hh hrs ih =>
    rw [journalPass_commit rfl hp hj hh]
    refine (ih (k := k + 1) (by omega) (v.jnext_lt _) hj).trans ?_
    rw [revokesFrom, commits, Nat.add_right_comm, Nat.add_assoc k]
  | revoke hh hrs ih =>
    rw [journalPass_revoke rfl hp hj hh, if_neg Bool.false_ne_true]
    refine (ih hq (v.jnext_lt _) ?_).trans ?_
    · exact hj
    simp only [gather, revokesFrom, foldl_append, foldl_map, hq]
    rfl

/-! ### Pass 1 -/

/-- What pass 1 writes home when the first `n` transactions, counted from `q`, are committed. -/
def replayWrites (v : Volume) (tbl : RevokeTable) (q n : Nat) (cs : List LogCopy) :
    List (Nat × Block) :=
  (cs.filter fun c => decide (c.1 < n) && (!revoked tbl c.2.1 ((q + c.1) % 2 ^ 32) &&
    decide (c.2.1 < v.blocksCount))).map Prod.snd

lemma replayWrites_append (tbl q n) (as bs : List LogCopy) :
    replayWrites v tbl q n (as ++ bs) = replayWrites v tbl q n as ++ replayWrites v tbl q n bs := by
  simp only [replayWrites, filter_append, map_append]

lemma replayWrites_map (hk : k < n) (cs) :
    replayWrites v tbl q n (cs.map fun c => (k, c)) = homeWrites v tbl ((q + k) % 2 ^ 32) cs := by
  simp only [replayWrites, homeWrites, filter_map, map_map]
  simp [Function.comp_def, hk]

lemma replayWrites_of_le {cs : List LogCopy} (h : ∀ c ∈ cs, n ≤ c.1) :
    replayWrites v tbl q n cs = [] := by
  rw [replayWrites, map_eq_nil_iff, filter_eq_nil_iff]
  intro c hc
  simp [Nat.not_lt.mpr (h c hc)]

lemma journalPass_end {end_ pos seq} (h : s32Neg seq end_ = false) :
    (journalPass v grant true end_ (fuel + 1) pos seq).run s = .ok seq s := by
  rw [journalPass, h, Bool.not_false, Bool.and_true, if_pos rfl]
  rfl

lemma journalPass_done (hq : seq = (q + n) % 2 ^ 32) (hlt : n < 2 ^ 31) :
    (journalPass v grant true ((q + n) % 2 ^ 32) (fuel + 1) pos seq).run s =
      .ok ((q + n) % 2 ^ 32) (s.wroteAll (replayWrites v tbl q n (copiesFrom n rs))) := by
  rw [replayWrites_of_le fun c hc => (copiesFrom_numbered.bounds hc).1, wroteAll_nil, hq]
  exact journalPass_end (by rw [s32Neg_add hlt hlt]; simp)

/-- **Pass 1** writes home the copies of the committed transactions that the table lets through. -/
lemma journalPass_replay (h : LogAt v d pos seq rs)
    (hq : seq = (q + k) % 2 ^ 32) (hn : k + commits rs = n) (hlt : n < 2 ^ 31)
    (hp : pos < v.jMaxlen) (hj : SameJournal v s.disk d) (hf : rs.length < fuel)
    (ht : s.revoke = tbl)
    (hh : ∀ c ∈ copiesFrom k rs, c.1 < n → c.2.1 < v.blocksCount → ¬v.InJournal c.2.1) :
    (journalPass v grant true ((q + n) % 2 ^ 32) fuel pos seq).run s =
      .ok ((q + n) % 2 ^ 32) (s.wroteAll (replayWrites v tbl q n (copiesFrom k rs))) := by
  obtain ⟨m, rfl⟩ : ∃ m, fuel = m + rs.length + 1 := ⟨fuel - rs.length - 1, by omega⟩
  clear hf
  induction h generalizing k s with
  | stop hd hc hr =>
    obtain rfl : k = n := hn
    exact journalPass_done hq hlt
  | @descriptor pos seq pos' cs rs hd hs hrs ih =>
    by_cases hk : k = n
    · subst hk
      exact journalPass_done hq hlt
    have hk : k < n := by omega
    have hg := goesOn_true hq hk hlt
    have hcs : ∀ c ∈ cs, c.1 < v.blocksCount → ¬v.InJournal c.1 := fun c hc =>
      hh (k, c) (mem_append_left _ (mem_map_of_mem hc)) hk
    rw [journalPass_descriptor hg hp hj hd, run_bind_of_ok
      (descriptorTags_replay hs (by unfold jbdHeader; omega) (v.jnext_lt _) ht hj hcs)]
    refine (ih hq hn (hs.pos_lt (v.jnext_lt _)) ?_ ?_ ?_).trans ?_
    · exact hj.wroteAll (homeWrites_notInJournal hcs)
    · exact ht
    · exact fun c hc => hh c (mem_append_right _ hc)
    · rw [← wroteAll_append, copiesFrom, replayWrites_append, replayWrites_map hk, hq]
  | @commit pos seq rs hd hrs ih =>
    simp only [commits] at hn
    have hk : k < n := by omega
    have hg := goesOn_true hq hk hlt
    rw [journalPass_commit hg hp hj hd]
    exact ih (by omega) (by omega) (v.jnext_lt _) hj ht hh
  | @revoke pos seq rs hd hrs ih =>
    by_cases hk : k = n
    · subst hk
      exact journalPass_done hq hlt
    have hk : k < n := by omega
    have hg := goesOn_true hq hk hlt
    rw [journalPass_revoke hg hp hj hd, if_pos rfl]
    exact ih hq hn (v.jnext_lt _) hj ht hh

/-! ## The whole recovery -/

/-- The disk's journal superblock points at a log with these records, whose committed copies are of
home blocks. -/
structure HoldsLog (v : Volume) (d : Disk) (rs : List Rec) : Prop where
  start_ne_zero : (d (v.jmap 0)).be32 jsStart ≠ 0
  start_lt : (d (v.jmap 0)).be32 jsStart < v.jMaxlen
  log : LogAt v d ((d (v.jmap 0)).be32 jsStart) ((d (v.jmap 0)).be32 jsSequence) rs
  home : ∀ c ∈ copiesFrom 0 rs, c.1 < commits rs → c.2.1 < v.blocksCount → ¬v.InJournal c.2.1

def fullTable (grant : Nat → Bool) (q : Nat) (rs : List Rec) : RevokeTable :=
  gather grant q (revokesFrom 0 rs) .empty

def recoveredWrites (v : Volume) (grant : Nat → Bool) (q : Nat) (rs : List Rec) :
    List (Nat × Block) :=
  replayWrites v (fullTable grant q rs) q (commits rs) (copiesFrom 0 rs)

lemma replayWrites_notInJournal {cs : List LogCopy}
    (hh : ∀ c ∈ cs, c.1 < n → c.2.1 < v.blocksCount → ¬v.InJournal c.2.1) :
    ∀ w ∈ replayWrites v tbl q n cs, ¬v.InJournal w.1 := by
  intro w hw
  obtain ⟨c, hc, rfl⟩ := mem_map.mp hw
  obtain ⟨hmem, hcond⟩ := mem_filter.mp hc
  simp only [Bool.and_eq_true, decide_eq_true_eq] at hcond
  exact hh c hmem hcond.1 hcond.2.2

lemma revokeFree_run : revokeFree.run s = .ok () { s with revoke := .empty } := rfl

lemma journalReplay_run (grant) {start : Nat} (hq : q < 2 ^ 32)
    (h : LogAt v s.disk start q rs) (hp : start < v.jMaxlen) (hr : s.revoke = .empty)
    (hh : ∀ c ∈ copiesFrom 0 rs, c.1 < commits rs → c.2.1 < v.blocksCount → ¬v.InJournal c.2.1) :
    (journalReplay v grant start q).run s = .ok ((q + commits rs) % 2 ^ 32)
        ({ s with revoke := fullTable grant q rs }.wroteAll (recoveredWrites v grant q rs)) := by
  have hlt := h.commits_lt hp
  have hlen := h.length_le hp
  have hq0 : q = (q + 0) % 2 ^ 32 := by omega
  have hj : SameJournal v s.disk s.disk := fun _ _ => rfl
  have scan : (journalPass v grant false 0 (v.jMaxlen + 1) start q).run s = _ :=
    journalPass_scan h hq0 hp hj (Nat.lt_succ_of_le hlen)
  rw [journalReplay, run_bind_of_ok scan, Nat.zero_add, hr]
  by_cases hc : commits rs = 0
  · -- nothing is committed: there is no second pass
    rw [hc, ← hq0, if_neg (by simp)]
    rw [recoveredWrites, hc, replayWrites_of_le fun c _ => Nat.zero_le _, wroteAll_nil]
    rfl
  have replay : (journalPass v grant true ((q + commits rs) % 2 ^ 32) (v.jMaxlen + 1) start q).run
      { s with revoke := fullTable grant q rs } = _ :=
    journalPass_replay h hq0 (Nat.zero_add _) hlt hp hj (Nat.lt_succ_of_le hlen) rfl hh
  rw [if_pos (by omega)]
  exact run_bind_of_ok replay _

/-- **A recovery**, when the log holds something: it writes home what pass 1 lets through, marks the
log empty, and expects the transaction after the last committed one. -/
lemma journalRecover_run (grant) (h : HoldsLog v s.disk rs)
    (hseq : (s.disk (v.jmap 0)).be32 jsSequence = q) :
    (journalRecover v grant).run s = .ok (commits rs) { s.wroteAll (recoveredWrites v grant q rs ++
          [(v.jmap 0, jsbWith (s.disk (v.jmap 0)) 0 ((q + commits rs) % 2 ^ 32))]) with
        jSeq := (q + commits rs) % 2 ^ 32, revoke := .empty } := by
  have hq : q < 2 ^ 32 := hseq ▸ Bytes.be32_lt _ _
  have replay := journalReplay_run (s := { s with revoke := .empty }) grant hq (hseq ▸ h.log)
    h.start_lt rfl h.home
  have hjsb : applyWrites (recoveredWrites v grant q rs) s.disk (v.jmap 0) = s.disk (v.jmap 0) := by
    refine applyWrites_of_notMem (fun w hw he => ?_) _
    exact replayWrites_notInJournal h.home w hw (he ▸ v.inJournal_jmap v.jMaxlen_pos)
  have hsub : sub32 ((q + commits rs) % 2 ^ 32) q = commits rs := by
    have := h.log.commits_lt h.start_lt
    rw [sub32]
    omega
  rw [journalRecover, run_bind_of_ok (jread_run v.jMaxlen_pos)]
  simp only [if_neg h.start_ne_zero, hseq]
  rw [run_bind_of_ok revokeFree_run, run_bind_of_ok (run_tryFinally_of_ok replay revokeFree_run),
    run_bind_of_ok (modify_run _), run_bind_of_ok (jsbSet_run _ _), hsub, wrote_eq]
  simp only [wroteAll, applyWrites_append, append_assoc, hjsb]
  rfl

/-- **A recovery of an empty log** writes nothing. -/
lemma journalRecover_run_empty (grant) (h : (s.disk (v.jmap 0)).be32 jsStart = 0) :
    (journalRecover v grant).run s =
      .ok 0 { s with jSeq := (s.disk (v.jmap 0)).be32 jsSequence } := by
  rw [journalRecover, run_bind_of_ok (jread_run v.jMaxlen_pos)]
  simp only [h, if_true]
  rfl

end Sage040.Ext2
