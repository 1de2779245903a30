import Sage040.Fs.Journal.CommitRun

/-!
# What the filesystem does between two commits

A call of the filesystem reaches the cache and the journal through a handful of functions: it gets
a buffer (`bget`, `bget_zero`), dirties it as metadata or as file contents, drops a freed block,
changes the superblock, or commits. `Op` is one such use.

An operation writes to the device in two ways only. If it has to make room in a cache of which
every buffer is pinned, it commits; otherwise it writes back at most one buffer of file contents.
`Op.writes` is the list of its writes, and `Op.run_after` that it makes those and keeps what the
journal relies on.
-/

namespace Sage040.Ext2

open List Bool State

/-- One use of the cache and the journal by a call. -/
inductive Op
  /-- Look at a block. -/
  | read (blk : Nat)
  /-- Get a block (zeroed, or as it is), give it new contents, and dirty it as metadata or as file
  contents. -/
  | dirty (zero metadata : Bool) (blk : Nat) (data : Block)
  /-- Drop a freed block. -/
  | forget (blk : Nat)
  /-- Change the superblock in memory. -/
  | super (sbuf : Bytes)
  /-- Change it and write it at once: the mark that the volume is in use. -/
  | setClean (sbuf : Bytes)
  | commit

variable {v : Volume} {s s' s'' : State} {now : Nat}

namespace Op

/-- The buffer to dirty: a zeroed one for a fresh block, else the block's own. -/
def buffer (v : Volume) (now : Nat) (zero : Bool) (blk : Nat) : M (Option (Fin nbuf)) :=
  if zero then bgetZero v now blk else bget v now blk

def run (v : Volume) (now jiffies : Nat) : Op → M Unit
  | read blk => do
    let _ ← bget v now blk
  | dirty zero metadata blk data => do
    match ← buffer v now zero blk with
    | none => return
    | some i =>
      modify fun s => s.setBuf i { s.bcache i with data := data }
      if metadata then bdirty jiffies i else bdirtyData i
  | forget blk => bforget blk
  | super sbuf => modify fun s => { s with sbuf := sbuf, sbDirty := true }
  | setClean sbuf => do
    modify fun s => { s with sbuf := sbuf, sbDirty := true }
    sbWrite v
  | commit => journalCommit v now

/-- The filesystem does not dirty the superblock's block, nor the journal's own, as buffers. -/
def Sound (v : Volume) : Op → Prop
  | dirty _ _ blk _ => blk ≠ v.sbBlock ∧ ¬v.InJournal blk
  | _ => True

end Op

/-! ## Making room -/

/-- The buffer `pick_victim` settles on at its first look, if there is one. -/
def victim (s : State) : Option (Fin nbuf) := victimScan s (List.finRange nbuf) none

/-- What `pick_victim` writes. -/
def victimWrites (v : Volume) (now : Nat) (s : State) : List (Nat × Block) :=
  match victim s with
  | some i => if (s.bcache i).valid && (s.bcache i).dirty then [(s.bcache i).home] else []
  | none => commitWrites v now s

def nextSeq (v : Volume) (s : State) : Nat :=
  if (txnOf v s).isEmpty then s.jSeq else (s.jSeq + 1) % 2 ^ 32

/-- From `s` to `s'` the device took the writes `ws`, and what the journal relies on still holds. -/
structure After (v : Volume) (s s' : State) (ws : List (Nat × Block)) (seq : Nat) : Prop where
  written : s'.written = s.written ++ ws
  disk : s'.disk = applyWrites ws s.disk
  dirtyHome : DirtyHome v s'
  journalOn : s'.journalOn = true
  jSeq : s'.jSeq = seq

variable {ws : List (Nat × Block)} {seq : Nat} {blk : Nat}

lemma After.then_memory (h : After v s s' ws seq)
    (hw : s''.written = s'.written) (hd : s''.disk = s'.disk) (hh : DirtyHome v s'')
    (ho : s''.journalOn = s'.journalOn) (hq : s''.jSeq = s'.jSeq) : After v s s'' ws seq :=
  ⟨hw.trans h.written, hd.trans h.disk, hh, ho.trans h.journalOn, hq.trans h.jSeq⟩

lemma Committed.after (h : Committed v now s s') : After v s s' (commitWrites v now s)
    (nextSeq v s) :=
  ⟨h.written, h.disk, fun i hv hd => absurd hd (by simp [h.clean i hv]), h.journalOn, h.jSeq⟩

lemma victimScan_ne_none (s) (l : List (Fin nbuf)) (j : Fin nbuf) :
    victimScan s l (some j) ≠ none := by
  induction l generalizing j with
  | nil => simp [victimScan]
  | cons i l ih =>
    rw [victimScan]
    split
    · simp
    split
    · exact ih j
    split
    · exact ih i
    · exact ih j

/-- When nothing is pinned there is a buffer to reuse. -/
lemma victim_of_clean (h : ∀ i, (s.bcache i).valid = true → (s.bcache i).dirty = false) : ∃ i,
    victim s = some i := by
  have hp : ∀ i, (s.bcache i).pinned = false := by
    intro i
    unfold Bbuf.pinned
    cases hv : (s.bcache i).valid with
    | false => rfl
    | true => rw [h i hv]; rfl
  obtain ⟨i, l, hl⟩ : ∃ i l, finRange nbuf = i :: l := ⟨_, _, rfl⟩
  have hne : victim s ≠ none := by
    rw [victim, hl, victimScan]
    split
    · simp
    rw [hp i, if_neg Bool.false_ne_true]
    exact victimScan_ne_none s l i
  exact Option.ne_none_iff_exists'.mp hne

variable {i : Fin nbuf}

lemma DirtyHome.setBuf (h : DirtyHome v s) (i) {b : Bbuf}
    (hb : b.valid = true → b.dirty = true → v.Home b.blk) : DirtyHome v (s.setBuf i b) := by
  intro j
  by_cases hj : j = i
  · subst hj
    simpa [State.setBuf] using hb
  · simpa [State.setBuf, hj] using h j

lemma bflush_after (hon : s.journalOn = true) (h : DirtyHome v s) (i) : ∃ s',
    (bflush i).run s = .ok () s' ∧
      After v s s' (if (s.bcache i).valid && (s.bcache i).dirty then [(s.bcache i).home] else
      []) s.jSeq := by
  refine ⟨_, bflush_run i, rfl, rfl, ?_, hon, rfl⟩
  refine DirtyHome.setBuf (s := s.wroteAll _) h i ?_
  unfold Bbuf.flushed
  split
  · exact fun _ hd => absurd hd false_ne_true
  · exact h i

lemma pickVictim_after (hon : s.journalOn = true) (h : DirtyHome v s) (now) :
    ∃ i s', (pickVictim v now).run s = .ok (some i) s' ∧
      After v s s' (victimWrites v now s) (if (victim s).isNone then nextSeq v s else s.jSeq) := by
  rw [pickVictim, run_bind_of_ok get_run]
  cases hv : victim s with
  | some i =>
    obtain ⟨s', hrun, hafter⟩ := bflush_after hon h i
    refine ⟨i, s', ?_, ?_⟩
    · rw [show victimScan s (finRange nbuf) none = some i from hv]
      exact run_bind_of_ok hrun _
    · simpa [victimWrites, hv] using hafter
  | none =>
    -- every buffer is pinned: commit, after which none is
    obtain ⟨s1, hrun1, hc⟩ := journalCommit_run
      (s := { s with journalForced := s.journalForced + 1 }) hon h now
    obtain ⟨i, hi⟩ := victim_of_clean hc.clean
    obtain ⟨s2, hrun2, hafter⟩ := bflush_after hc.journalOn hc.after.dirtyHome i
    have hclean : ((s1.bcache i).valid && (s1.bcache i).dirty) = false := by
      cases hvalid : (s1.bcache i).valid with
      | false => rfl
      | true => rw [hc.clean i hvalid]; rfl
    refine ⟨i, s2, ?_, ?_⟩
    · rw [show victimScan s (finRange nbuf) none = none from hv]
      rw [run_bind_of_ok (modify_run _), run_bind_of_ok hrun1, run_bind_of_ok get_run,
        show victimScan s1 (finRange nbuf) none = some i from hi]
      exact run_bind_of_ok hrun2 _
    rw [hclean, if_neg Bool.false_ne_true] at hafter
    simp only [victimWrites, hv, Option.isNone_none, if_true]
    refine ⟨?_, ?_, hafter.dirtyHome, hafter.journalOn, hafter.jSeq.trans hc.jSeq⟩
    · rw [hafter.written, append_nil]
      exact hc.written
    · rw [hafter.disk, applyWrites_nil]
      exact hc.disk

/-! ## Getting a buffer -/

/-- What getting a buffer for `blk` writes, and the sequence number after it. -/
def roomWrites (v : Volume) (now : Nat) (s : State) (blk : Nat) : List (Nat × Block) :=
  if decide (blk < v.blocksCount) && (cached s blk).isNone then victimWrites v now s else []

def roomSeq (v : Volume) (s : State) (blk : Nat) : Nat :=
  if decide (blk < v.blocksCount) && (cached s blk).isNone && (victim s).isNone then nextSeq v s
  else s.jSeq

lemma touch_after (h : After v s s' ws seq) (i) : ∃ s'', (touch i).run s' = .ok () s'' ∧
    After v s s'' ws seq ∧
      (s''.bcache i).blk = (s'.bcache i).blk := by
  refine ⟨_, modify_run _, h.then_memory rfl rfl ?_ rfl rfl, by simp [setBuf]⟩
  exact DirtyHome.setBuf h.dirtyHome i (h.dirtyHome i)

lemma cached_blk (h : cached s blk = some i) : (s.bcache i).blk = blk := by
  have := find?_some h
  simp only [and_eq_true, beq_iff_eq] at this
  exact this.2

lemma After.refl (hon : s.journalOn = true) (h : DirtyHome v s) : After v s s [] s.jSeq :=
  ⟨by simp, rfl, h, hon, rfl⟩

/-- `f` leaves a buffer for `blk` and changes nothing but the cache. -/
structure FillsBuffer (v : Volume) (blk : Nat) (f : Fin nbuf → State → State) (i : Fin nbuf)
    (s : State) : Prop where
  written : (f i s).written = s.written
  disk : (f i s).disk = s.disk
  dirtyHome : DirtyHome v (f i s)
  journalOn : (f i s).journalOn = s.journalOn
  jSeq : (f i s).jSeq = s.jSeq
  blk_eq : ((f i s).bcache i).blk = blk

lemma fill_run {f : Fin nbuf → State → State} (h : After v s s' ws seq)
    (hf : FillsBuffer v blk f i s') :
    ∃ s'', (do modify (f i); touch i; return some i : M (Option (Fin nbuf))).run s' =
        .ok (some i) s'' ∧ After v s s'' ws seq ∧ (s''.bcache i).blk = blk := by
  have h' : After v s (f i s') ws seq :=
    h.then_memory hf.written hf.disk hf.dirtyHome hf.journalOn hf.jSeq
  obtain ⟨s'', hrun, hafter, hblk⟩ := touch_after h' i
  refine ⟨s'', ?_, hafter, hblk.trans hf.blk_eq⟩
  rw [run_bind_of_ok (modify_run _), run_bind_of_ok hrun]
  rfl

lemma getBuffer_after {found fresh : Fin nbuf → State → State} (hon : s.journalOn = true)
    (h : DirtyHome v s) (now)
    (hfound : ∀ i s, DirtyHome v s → blk < v.blocksCount → (s.bcache i).blk = blk →
    FillsBuffer v blk found i s)
    (hfresh : ∀ i s, DirtyHome v s → blk < v.blocksCount → FillsBuffer v blk fresh i s) :
    ∃ r s', (getBuffer v now blk found fresh).run s = .ok r s' ∧
      After v s s' (roomWrites v now s blk) (roomSeq v s blk) ∧
      ∀ i, r = some i → (s'.bcache i).blk = blk ∧ blk < v.blocksCount := by
  rw [getBuffer]
  by_cases hblk : blk ≥ v.blocksCount
  · refine ⟨none, s, by rw [if_pos hblk]; rfl, ?_, by simp⟩
    simpa [roomWrites, roomSeq, Nat.not_lt.mpr hblk] using After.refl hon h
  have hlt : blk < v.blocksCount := Nat.not_le.mp hblk
  rw [if_neg hblk]
  cases hc : cached s blk with
  | some i =>
    obtain ⟨s', hrun, hafter, hb⟩ := fill_run (After.refl hon h) (hfound i s h hlt (cached_blk hc))
    refine ⟨some i, s', ?_, ?_, ?_⟩
    · refine (run_bind_of_ok get_run _).trans ?_
      rw [hc]
      exact hrun
    · simpa [roomWrites, roomSeq, hc] using hafter
    · rintro j hj
      obtain rfl := Option.some.inj hj
      exact ⟨hb, hlt⟩
  | none =>
    obtain ⟨i, s1, hrun1, hafter1⟩ := pickVictim_after hon h now
    obtain ⟨s', hrun, hafter, hb⟩ := fill_run hafter1 (hfresh i s1 hafter1.dirtyHome hlt)
    refine ⟨some i, s', ?_, ?_, ?_⟩
    · refine (run_bind_of_ok get_run _).trans ?_
      rw [hc]
      rw [run_bind_of_ok hrun1]
      exact hrun
    · simpa [roomWrites, roomSeq, hc, hlt] using hafter
    · rintro j hj
      obtain rfl := Option.some.inj hj
      exact ⟨hb, hlt⟩

lemma bget_after (hon : s.journalOn = true) (h : DirtyHome v s) (now blk) : ∃ r s',
    (bget v now blk).run s = .ok r s' ∧
      After v s s' (roomWrites v now s blk) (roomSeq v s blk) ∧
      ∀ i, r = some i → (s'.bcache i).blk = blk ∧ blk < v.blocksCount := by
  refine getBuffer_after hon h now (fun i s hh _ hb => ⟨rfl, rfl, hh, rfl, rfl, hb⟩)
    fun i s hh _ => ?_
  refine ⟨rfl, rfl, hh.setBuf i fun _ hd => absurd hd false_ne_true, rfl, rfl, ?_⟩
  simp [setBuf]

lemma bgetZero_after (hon : s.journalOn = true) (h : DirtyHome v s) (now)
    (hs : blk ≠ v.sbBlock ∧ ¬v.InJournal blk) : ∃ r s', (bgetZero v now blk).run s = .ok r s' ∧
      After v s s' (roomWrites v now s blk) (roomSeq v s blk) ∧
      ∀ i, r = some i → (s'.bcache i).blk = blk ∧ blk < v.blocksCount := by
  refine getBuffer_after hon h now (fun i s hh hlt _ => ?_) fun i s hh hlt => ?_
  iterate 2 · exact ⟨rfl, rfl, hh.setBuf i fun _ _ => ⟨hlt, hs.1, hs.2⟩, rfl, rfl, by simp [setBuf]⟩

/-! ## One operation -/

namespace Op

def writes (v : Volume) (now : Nat) (s : State) : Op → List (Nat × Block)
  | read blk | dirty _ _ blk _ => roomWrites v now s blk
  | setClean sbuf => [(v.sbBlock, v.overlay (s.disk v.sbBlock) sbuf)]
  | commit => commitWrites v now s
  | forget _ | super _ => []

/-- The sequence number of the next transaction after an operation. -/
def seqAfter (v : Volume) (s : State) : Op → Nat
  | read blk | dirty _ _ blk _ => roomSeq v s blk
  | commit => nextSeq v s
  | _ => s.jSeq

end Op

/-- Giving a buffer new contents and dirtying it, as metadata or as file contents. -/
lemma dirty_after (h : After v s s' ws seq)
    (hb : v.Home (s'.bcache i).blk) (metadata : Bool) (data : Block) (jiffies : Nat) : ∃ s'', (do
        modify fun s => s.setBuf i { s.bcache i with data := data }
        if metadata then bdirty jiffies i else bdirtyData i : M Unit).run s' = .ok () s'' ∧
      After v s s'' ws seq := by
  have hhome : v.Home ((s'.setBuf i { s'.bcache i with data := data }).bcache i).blk := by
    simpa [setBuf] using hb
  have h' : After v s (s'.setBuf i { s'.bcache i with data := data }) ws seq :=
    h.then_memory rfl rfl (h.dirtyHome.setBuf i (h.dirtyHome i)) rfl rfl
  rw [run_bind_of_ok (modify_run _)]
  cases metadata with
  | false =>
    exact ⟨_, modify_run _, h'.then_memory rfl rfl (h'.dirtyHome.setBuf i fun _ _ => hhome) rfl rfl⟩
  | true =>
    refine ⟨_, modify_run _, ?_⟩
    rw [if_pos h'.journalOn]
    refine h'.then_memory rfl rfl ?_ rfl rfl
    exact DirtyHome.setBuf (s := s'.setBuf i { s'.bcache i with data := data }) h'.dirtyHome i
      fun _ _ => hhome

lemma bforget_after (hon : s.journalOn = true) (h : DirtyHome v s) (blk) :
    ∃ s', (bforget blk).run s = .ok () s' ∧ After v s s' [] s.jSeq := by
  let f : Bbuf → Bbuf := fun b =>
    if b.valid && b.blk == blk then { b with valid := false, dirty := false, meta_ := false } else b
  have hrun : (bforget blk).run s =
      .ok () ((finRange nbuf).foldl (sweep (fun _ => false) f) s) := by
    refine forM_run (fun i s => ?_) _ _
    rw [run_bind_of_ok get_run]
    by_cases hc : ((s.bcache i).valid && (s.bcache i).blk == blk) = true
    · simp only [hc, false_eq_true, if_true, if_false, sweep, f, wroteAll_nil]
      rfl
    · simp only [hc, false_eq_true, if_false, sweep, f, wroteAll_nil, setBuf_self]
      rfl
  rw [sweep_finRange, filter_false, map_nil, wroteAll_nil] at hrun
  refine ⟨_, hrun, (After.refl hon h).then_memory rfl rfl (fun i hv hd => ?_) rfl rfl⟩
  dsimp only [f] at hv hd ⊢
  split at hv
  · exact absurd hv false_ne_true
  rename_i hc
  rw [if_neg hc] at hd ⊢
  exact h i hv hd

/-- **One operation** makes the writes it is said to and keeps what the journal relies on. -/
lemma Op.run_after (op : Op) (hon : s.journalOn = true) (h : DirtyHome v s) (hs : op.Sound v)
    (now jiffies : Nat) : ∃ s', (op.run v now jiffies).run s = .ok () s' ∧
      After v s s' (op.writes v now s) (op.seqAfter v s) := by
  cases op with
  | read blk =>
    obtain ⟨r, s', hrun, hafter, -⟩ := bget_after hon h now blk
    exact ⟨s', run_bind_of_ok hrun _, hafter⟩
  | dirty zero metadata blk data =>
    have hget : ∃ r s', (buffer v now zero blk).run s = .ok r s' ∧
        After v s s' (roomWrites v now s blk) (roomSeq v s blk) ∧
        ∀ i, r = some i → (s'.bcache i).blk = blk ∧ blk < v.blocksCount := by
      cases zero with
      | false => exact bget_after hon h now blk
      | true => exact bgetZero_after hon h now hs
    obtain ⟨r, s', hrun, hafter, hblk⟩ := hget
    cases r with
    | none => exact ⟨s', run_bind_of_ok hrun _, hafter⟩
    | some i =>
      obtain ⟨hb, hlt⟩ := hblk i rfl
      have hhome : v.Home (s'.bcache i).blk := by
        rw [hb]
        exact ⟨hlt, hs.1, hs.2⟩
      obtain ⟨s'', hrun', hafter'⟩ := dirty_after hafter hhome metadata data jiffies
      exact ⟨s'', (run_bind_of_ok hrun _).trans hrun', hafter'⟩
  | forget blk => exact bforget_after hon h blk
  | super sbuf => exact ⟨_, modify_run _, (After.refl hon h).then_memory rfl rfl h rfl rfl⟩
  | setClean sbuf =>
    refine ⟨_, (run_bind_of_ok (modify_run _) _).trans (sbWrite_run rfl), ?_⟩
    exact ⟨rfl, rfl, h, hon, rfl⟩
  | commit =>
    obtain ⟨s', hrun, hc⟩ := journalCommit_run hon h now
    exact ⟨s', hrun, hc.after⟩

end Sage040.Ext2
