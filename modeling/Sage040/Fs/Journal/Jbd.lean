import Sage040.Fs.Journal.Recover

/-!
# When replay is JBD's

JBD replays, for every home block, the last committed copy that no revoke record of the same or of
a later committed transaction names (`jbdCopy`). `journal_recover` differs from it in two ways,
both in what pass 0 puts into the revoke table: it adds the revoke records of the uncommitted tail
as well, and the table has a bounded number of places. The theorem of this file says that these
are all the differences there are: replay does what JBD does exactly when, for every block, the
table's answer at the block's last committed copy is the right one.
-/

namespace Sage040.Ext2

open List

variable {v : Volume} {d : Disk} {s : State} {grant : Nat → Bool} {q : Nat}

/-! ## What the table holds -/

def RevokeTable.keys (t : RevokeTable) : List Nat := t.entries.map Prod.fst

/-- The blocks that get a place when these are revoked in this order: `revoke_add` gives one to a
block it has not seen as long as there is room on a page it can get. -/
def tabled (grant : Nat → Bool) (blks : List Nat) : List Nat :=
  (blks.foldl (fun t b => revokeAdd grant b 0 t) .empty).keys

/-- `pmm_alloc`, with `n` pages to give. -/
def supply (n : Nat) : Nat → Bool := fun asked => decide (asked < n)

/-- The places of a table for which there are `n` pages. -/
def places (n : Nat) : Nat := revokePerPage * min n revokePages

/-- `b` is revoked, and fewer other blocks are revoked before it than there are places. -/
def HasPlace (n : Nat) (blks : List Nat) (b : Nat) : Prop :=
  b ∈ blks ∧ (blks.take (blks.idxOf b)).toFinset.card < places n

instance (n : Nat) (blks : List Nat) (b : Nat) : Decidable (HasPlace n blks b) := by
  unfold HasPlace
  infer_instance

variable {es : List (Nat × Nat)} {b : Nat}

lemma raiseEntry_keys (b seq : Nat) (es) : (raiseEntry b seq es).map Prod.fst = es.map Prod.fst :=
    by
  induction es with
  | nil => rfl
  | cons e es ih =>
    rw [raiseEntry]
    split
    · rename_i he
      split <;> simp [he]
    · simp [ih]

lemma any_key_iff (t : RevokeTable) (b) : (t.entries.any fun e => e.1 = b) = true ↔ b ∈ t.keys := by
  simp [RevokeTable.keys]

section Places

variable {n c : Nat} {blks : List Nat} {t : RevokeTable}

lemma hasPlace_concat_of_ne (hc : c ≠ b) : HasPlace n (blks ++ [b]) c ↔ HasPlace n blks c := by
  rw [HasPlace, HasPlace, mem_append, mem_singleton, or_iff_left hc]
  refine and_congr_right fun hmem => ?_
  rw [idxOf_append_of_mem hmem, take_append_of_le_length (idxOf_lt_length_iff.2 hmem).le]

lemma hasPlace_concat_of_mem (hb : b ∈ blks) (c) : HasPlace n (blks ++ [b]) c ↔
    HasPlace n blks c := by
  by_cases hc : c = b
  · subst hc
    rw [HasPlace, HasPlace, idxOf_append_of_mem hb,
      take_append_of_le_length (idxOf_lt_length_iff.2 hb).le]
    simp [hb]
  · exact hasPlace_concat_of_ne hc

lemma hasPlace_concat_self (hb : b ∉ blks) : HasPlace n (blks ++ [b]) b ↔
    blks.toFinset.card < places n := by
  rw [HasPlace, idxOf_append_of_notMem hb]
  simp

/-- What the table is once the blocks `blks` were revoked, with `n` pages to be had: each distinct
block is given the next place, until the places run out. -/
structure Filled (n : Nat) (blks : List Nat) (t : RevokeTable) : Prop where
  keys : ∀ c, c ∈ t.keys ↔ HasPlace n blks c
  length : t.entries.length = min (places n) blks.toFinset.card
  pages : t.pages = (t.entries.length + 511) / 512
  asked : t.asked = t.pages ∨ n ≤ t.asked ∧ t.entries.length = 512 * n

/-- A full table is left as it is. -/
lemma Filled.revokeAdd_full (h : Filled n blks t) (hb : b ∉ t.keys)
    (hfull : places n ≤ blks.toFinset.card) (seq) :
    ∃ asked, revokeAdd (supply n) b seq t = { t with asked := asked } ∧
      (asked = t.pages ∨ n ≤ asked ∧ t.entries.length = 512 * n) := by
  have hlen := h.length
  have hpages := h.pages
  have hasked := h.asked
  rw [min_eq_left hfull, places, revokePerPage, revokePages] at hlen
  rw [revokeAdd, if_neg (mt (any_key_iff t b).1 hb), revokePerPage, revokePages]
  dsimp only
  split_ifs with h16 hp hg
  · exact ⟨t.asked, rfl, hasked⟩
  · rw [supply, decide_eq_true_eq] at hg
    omega
  · rw [supply, decide_eq_true_eq] at hg
    exact ⟨t.asked + 1, rfl, by omega⟩
  · omega

lemma Filled.revokeAdd_room (h : Filled n blks t) (hb : b ∉ t.keys)
    (hroom : blks.toFinset.card < places n) (seq) :
    ∃ p a, revokeAdd (supply n) b seq t = ⟨t.entries ++ [(b, seq)], p, a⟩ ∧
      p = (t.entries.length + 1 + 511) / 512 ∧ a = p := by
  have hlen := h.length
  have hpages := h.pages
  have hasked := h.asked
  rw [min_eq_right hroom.le] at hlen
  rw [places, revokePerPage, revokePages] at hroom
  rw [revokeAdd, if_neg (mt (any_key_iff t b).1 hb), revokePerPage, revokePages]
  dsimp only
  split_ifs with h16 hp hg
  · omega
  · exact ⟨_, _, rfl, by omega, by omega⟩
  · rw [supply, decide_eq_true_eq] at hg
    omega
  · exact ⟨_, _, rfl, by omega, by omega⟩

lemma Filled.revokeAdd (h : Filled n blks t) (b seq) : Filled n (blks ++ [b])
    (revokeAdd (supply n) b seq t) := by
  have hset : (blks ++ [b]).toFinset = insert b blks.toFinset := by
    ext c
    simp
  by_cases hkey : b ∈ t.keys
  · have hmem := ((h.keys b).1 hkey).1
    have hlen : (raiseEntry b seq t.entries).length = t.entries.length := by
      simpa using congrArg List.length (raiseEntry_keys b seq t.entries)
    rw [Ext2.revokeAdd, if_pos ((any_key_iff t b).2 hkey)]
    refine ⟨fun c => ?_, ?_, ?_, ?_⟩
    · rw [hasPlace_concat_of_mem hmem, ← h.keys, RevokeTable.keys, raiseEntry_keys,
        RevokeTable.keys]
    · rw [hset, Finset.insert_eq_of_mem (mem_toFinset.2 hmem), hlen, h.length]
    · rw [hlen, h.pages]
    · rw [hlen]
      exact h.asked
  by_cases hroom : blks.toFinset.card < places n
  · -- with places left every block revoked so far has one, so this one is new
    have hnew : b ∉ blks := fun hmem => hkey ((h.keys b).2 ⟨hmem, by
      refine (Finset.card_le_card fun c hc => ?_).trans_lt hroom
      exact mem_toFinset.2 (mem_of_mem_take (mem_toFinset.1 hc))⟩)
    have hlen := h.length
    obtain ⟨p, a, heq, hp, ha⟩ := h.revokeAdd_room hkey hroom seq
    rw [heq]
    refine ⟨fun c => ?_, ?_, ?_, .inl ha⟩
    · by_cases hc : c = b
      · subst hc
        simp [RevokeTable.keys, hasPlace_concat_self hnew, hroom]
      · rw [hasPlace_concat_of_ne hc, ← h.keys]
        simp [RevokeTable.keys, hc]
    · rw [hset, Finset.card_insert_of_notMem (mt mem_toFinset.1 hnew), length_append,
        length_singleton]
      omega
    · rw [length_append, length_singleton, hp]
  · rw [Nat.not_lt] at hroom
    obtain ⟨a, heq, ha⟩ := h.revokeAdd_full hkey hroom seq
    rw [heq]
    refine ⟨fun c => ?_, ?_, h.pages, ha⟩
    · refine (h.keys c).trans ?_
      by_cases hmem : b ∈ blks
      · exact (hasPlace_concat_of_mem hmem c).symm
      by_cases hc : c = b
      · subst hc
        rw [hasPlace_concat_self hmem]
        exact iff_of_false (fun hp => hmem hp.1) (Nat.not_lt.2 hroom)
      · exact (hasPlace_concat_of_ne hc).symm
    · have hle : blks.toFinset.card ≤ (blks ++ [b]).toFinset.card :=
        Finset.card_le_card (hset ▸ Finset.subset_insert _ _)
      exact h.length.trans (by omega)

/-- **Who has a place**, as the log and the number of pages have it. -/
lemma mem_tabled_iff (n : Nat) (blks : List Nat) (b) : b ∈ tabled (supply n) blks ↔
    HasPlace n blks b := by
  refine Filled.keys ?_ b
  induction blks using List.reverseRecOn with
  | nil =>
    exact ⟨fun c => by simp [RevokeTable.empty, RevokeTable.keys, HasPlace], by simp [RevokeTable.empty],
      (by decide : 0 = (0 + 511) / 512), .inl rfl⟩
  | append_singleton blks b ih =>
    rw [foldl_concat]
    exact ih.revokeAdd b 0

end Places

/-- Two tables that differ in sequence numbers only. -/
structure SamePlaces (t u : RevokeTable) : Prop where
  keys : t.keys = u.keys
  pages : t.pages = u.pages
  asked : t.asked = u.asked

variable {t u : RevokeTable} {seq : Nat} {revs : List (Nat × Nat)} {tail : Block}

lemma SamePlaces.revokeAdd (h : SamePlaces t u) (b seq seq' : Nat) :
    SamePlaces (revokeAdd grant b seq t) (revokeAdd grant b seq' u) := by
  have hlen : t.entries.length = u.entries.length := by
    simpa [RevokeTable.keys] using congrArg length h.keys
  have hk := h.keys
  simp only [RevokeTable.keys] at hk
  unfold Ext2.revokeAdd
  by_cases hb : b ∈ t.keys
  · rw [if_pos ((any_key_iff t b).mpr hb), if_pos ((any_key_iff u b).mpr (h.keys ▸ hb))]
    exact ⟨by simp [RevokeTable.keys, raiseEntry_keys, hk], h.pages, h.asked⟩
  rw [if_neg (fun hc => hb ((any_key_iff t b).mp hc)),
    if_neg (fun hc => hb (h.keys ▸ (any_key_iff u b).mp hc))]
  simp only [hlen, h.pages, h.asked]
  split
  · exact h
  split
  · split
    · exact ⟨by simp [RevokeTable.keys, hk], rfl, rfl⟩
    · exact ⟨h.keys, rfl, rfl⟩
  · exact ⟨by simp [RevokeTable.keys, hk], rfl, rfl⟩

lemma gather_samePlaces (revs) (h : SamePlaces t u) : SamePlaces (gather grant q revs t)
      ((revs.map Prod.snd).foldl (fun t b => revokeAdd grant b 0 t) u) := by
  induction revs generalizing t u with
  | nil => exact h
  | cons r revs ih => exact ih (h.revokeAdd _ _ _)

lemma fullTable_keys (rs : List Rec) : (fullTable grant q rs).keys =
    tabled grant ((revokesFrom 0 rs).map Prod.snd) :=
  (gather_samePlaces _ ⟨rfl, rfl, rfl⟩).keys

/-- What the table knows after the revoke records `revs`: a block has one entry at most, and it
carries the last transaction of `revs` that revokes the block. -/
structure TableOf (q : Nat) (revs : List (Nat × Nat)) (t : RevokeTable) : Prop where
  nodup : t.keys.Nodup
  last : ∀ e ∈ t.entries, ∃ k, e.2 = (q + k) % 2 ^ 32 ∧ (k, e.1) ∈ revs ∧ ∀ r ∈ revs,
    r.2 = e.1 → r.1 ≤ k

lemma mem_raiseEntry (hnd : (es.map Prod.fst).Nodup)
    {e : Nat × Nat} (h : e ∈ raiseEntry b seq es) : (e.1 ≠ b ∧ e ∈ es) ∨
      ∃ old, (b, old) ∈ es ∧ e = if s32Pos seq old then (b, seq) else (b, old) := by
  induction es with
  | nil => simp [raiseEntry] at h
  | cons x es ih =>
    obtain ⟨hx, hnd⟩ := nodup_cons.mp hnd
    rw [raiseEntry] at h
    split at h
    · rename_i hb
      subst hb
      rcases mem_cons.mp h with rfl | h
      · refine .inr ⟨x.2, mem_cons_self, ?_⟩
        split <;> rfl
      · refine .inl ⟨fun he => hx ?_, mem_cons_of_mem _ h⟩
        exact he ▸ mem_map_of_mem h
    · rename_i hb
      rcases mem_cons.mp h with rfl | h
      · exact .inl ⟨hb, mem_cons_self⟩
      rcases ih hnd h with ⟨he, hmem⟩ | ⟨old, hmem, he⟩
      · exact .inl ⟨he, mem_cons_of_mem _ hmem⟩
      · exact .inr ⟨old, mem_cons_of_mem _ hmem, he⟩

/-- `b` has no entry: it gets one, or there is no place for it. -/
lemma revokeAdd_of_notMem (grant) (seq) (h : b ∉ t.keys) :
    (revokeAdd grant b seq t).entries = t.entries ++ [(b, seq)] ∨
      (revokeAdd grant b seq t).entries = t.entries := by
  rw [revokeAdd, if_neg (fun hc => h ((any_key_iff t b).mp hc))]
  dsimp only
  split
  · exact .inr rfl
  split
  · split
    · exact .inl rfl
    · exact .inr rfl
  · exact .inl rfl

/-- One more revoke record, of a transaction no earlier than those before it. -/
lemma TableOf.revokeAdd (h : TableOf q revs t) {k b : Nat} (hk : k < 2 ^ 31)
    (hle : ∀ r ∈ revs, r.1 ≤ k) :
    TableOf q (revs ++ [(k, b)]) (revokeAdd grant b ((q + k) % 2 ^ 32) t) := by
  -- what a record adds to the entries it does not concern
  have old : ∀ e ∈ t.entries, e.1 ≠ b → ∃ j, e.2 = (q + j) % 2 ^ 32 ∧
      (j, e.1) ∈ revs ++ [(k, b)] ∧ ∀ r ∈ revs ++ [(k, b)], r.2 = e.1 → r.1 ≤ j := by
    intro e he hne
    obtain ⟨j, hj, hmem, hlast⟩ := h.last e he
    refine ⟨j, hj, mem_append_left _ hmem, fun r hr hb => ?_⟩
    rcases mem_append.mp hr with hr | hr
    · exact hlast r hr hb
    obtain rfl := mem_singleton.mp hr
    exact absurd hb.symm hne
  have new : (k, b) ∈ revs ++ [(k, b)] ∧ ∀ r ∈ revs ++ [(k, b)], r.2 = b → r.1 ≤ k := by
    refine ⟨mem_append_right _ (mem_singleton_self _), fun r hr _ => ?_⟩
    rcases mem_append.mp hr with hr | hr
    · exact hle r hr
    obtain rfl := mem_singleton.mp hr
    exact le_rfl
  by_cases hb : b ∈ t.keys
  · rw [Ext2.revokeAdd, if_pos ((any_key_iff t b).mpr hb)]
    refine ⟨by simpa only [RevokeTable.keys, raiseEntry_keys] using h.nodup, fun e he => ?_⟩
    rcases mem_raiseEntry h.nodup he with ⟨hne, hmem⟩ | ⟨x, hmem, he⟩
    · exact old e hmem hne
    obtain ⟨j, hj, hjmem, -⟩ := h.last _ hmem
    have hjk : j ≤ k := hle _ hjmem
    have he2 : e = (b, (q + k) % 2 ^ 32) := by
      rw [he, show x = (q + j) % 2 ^ 32 from hj, s32Pos_add hk (by omega)]
      by_cases hlt : j < k
      · simp [hlt]
      obtain rfl : j = k := by omega
      simp
    rw [he2]
    exact ⟨k, rfl, new⟩
  have ne : ∀ e ∈ t.entries, e.1 ≠ b := fun e he heq => hb (heq ▸ mem_map_of_mem he)
  rcases revokeAdd_of_notMem grant ((q + k) % 2 ^ 32) hb with he | he
  · refine ⟨?_, ?_⟩ <;> simp only [RevokeTable.keys, he]
    · rw [map_append, map_singleton]
      exact nodup_append.mpr ⟨h.nodup, nodup_singleton _, by
        simpa [RevokeTable.keys] using fun a c hac heq => ne _ hac heq⟩
    intro e hmem
    rcases mem_append.mp hmem with hmem | hmem
    · exact old e hmem (ne e hmem)
    obtain rfl := mem_singleton.mp hmem
    exact ⟨k, rfl, new⟩
  · refine ⟨?_, ?_⟩ <;> simp only [RevokeTable.keys, he]
    · exact h.nodup
    · exact fun e hmem => old e hmem (ne e hmem)

lemma TableOf.gather (hs : revs.Pairwise fun a b => a.1 ≤ b.1)
    (hlt : ∀ r ∈ revs, r.1 < 2 ^ 31) : TableOf q revs (gather grant q revs .empty) := by
  induction revs using reverseRecOn with
  | nil => exact ⟨nodup_nil, by simp [Ext2.gather, RevokeTable.empty]⟩
  | append_singleton revs r ih =>
    obtain ⟨hs, -, hle⟩ := pairwise_append.mp hs
    rw [Ext2.gather, foldl_append]
    exact (ih hs fun r' hr => hlt r' (mem_append_left _ hr)).revokeAdd
      (hlt r (mem_append_right _ (mem_singleton_self _)))
      fun r' hr => hle r' hr r (mem_singleton_self _)

variable {rs : List Rec} {b k : Nat}

/-- **The table's answer**: a block is revoked for transaction `k` if it has a place and *any*
transaction of the log from `k` on, committed or not, revokes it. -/
lemma revoked_fullTable_iff (hlt : commits rs < 2 ^ 31) (hk : k < 2 ^ 31) :
    revoked (fullTable grant q rs) b ((q + k) % 2 ^ 32) = true ↔
    b ∈ tabled grant ((revokesFrom 0 rs).map Prod.snd) ∧
        ∃ r ∈ revokesFrom 0 rs, r.2 = b ∧ k ≤ r.1 := by
  have hbound : ∀ r ∈ revokesFrom 0 rs, r.1 < 2 ^ 31 := fun r hr => by
    have := (revokesFrom_numbered.bounds hr).2
    omega
  have ht : TableOf q (revokesFrom 0 rs) (fullTable grant q rs) :=
    TableOf.gather (revokesFrom_numbered.sorted 0 rs) hbound
  rw [← fullTable_keys (q := q), revoked, any_eq_true]
  constructor
  · rintro ⟨e, he, hcond⟩
    rw [Bool.and_eq_true, decide_eq_true_eq] at hcond
    obtain ⟨rfl, hseq⟩ := hcond
    obtain ⟨j, hj, hmem, -⟩ := ht.last e he
    rw [hj, s32NonNeg_add (hbound _ hmem) hk, decide_eq_true_eq] at hseq
    exact ⟨mem_map_of_mem he, _, hmem, rfl, hseq⟩
  rintro ⟨hkey, r, hr, rfl, hle⟩
  obtain ⟨e, he, hr2⟩ := mem_map.mp hkey
  obtain ⟨j, hj, hmem, hlast⟩ := ht.last e he
  have hrj := hlast r hr hr2.symm
  refine ⟨e, he, ?_⟩
  rw [Bool.and_eq_true, decide_eq_true_eq, hj, s32NonNeg_add (hbound _ hmem) hk, decide_eq_true_eq]
  exact ⟨hr2, hle.trans hrj⟩

/-! ## Replay and JBD, block by block -/

/-- `k` is the last committed transaction that logs `b`. -/
structure LastLogged (rs : List Rec) (b k : Nat) : Prop where
  logged : ∃ data, (k, b, data) ∈ copiesFrom 0 rs
  committed : k < commits rs
  last : ∀ c ∈ copiesFrom 0 rs, c.2.1 = b → c.1 < commits rs → c.1 ≤ k

/-- The uncommitted tail of the log revokes `b`. -/
def TailRevokes (rs : List Rec) (b : Nat) : Prop := (commits rs, b) ∈ revokesFrom 0 rs

/-- The writes a recovery makes are JBD's: every home block gets its copy or is left alone, and
nothing else is written but the journal superblock. -/
structure ReplaysAsJbd (v : Volume) (rs : List Rec) (ws : List (Nat × Block)) : Prop where
  home : ∀ b < v.blocksCount, b ≠ v.jmap 0 → lastWrite ws b = jbdCopy rs b
  only : ∀ w ∈ ws, w.1 < v.blocksCount ∨ w.1 = v.jmap 0

/-- With `n` pages for it the table says of every block's last committed copy what the committed
revoke records say: a block they revoke has a place in it, and one they do not is not in it on
account of the tail. -/
def TableFits (v : Volume) (n : Nat) (rs : List Rec) : Prop :=
  ∀ b < v.blocksCount, ∀ k, LastLogged rs b k →
    (RevokedSince rs b k → HasPlace n ((revokesFrom 0 rs).map Prod.snd) b) ∧
    (¬RevokedSince rs b k → HasPlace n ((revokesFrom 0 rs).map Prod.snd) b → ¬TailRevokes rs b)

def committedCopies (rs : List Rec) : List LogCopy :=
  (copiesFrom 0 rs).filter fun c => decide (c.1 < commits rs)

lemma committedCopies_sorted (rs) : (committedCopies rs).Pairwise fun a b => a.1 ≤ b.1 :=
  (copiesFrom_numbered.sorted 0 rs).filter _

lemma mem_committedCopies {c : LogCopy} : c ∈ committedCopies rs ↔ c ∈ copiesFrom 0 rs ∧
    c.1 < commits rs := by
  simp [committedCopies]

lemma jbdCopy_eq (rs b) : jbdCopy rs b = lastWrite (((committedCopies rs).filter fun c =>
      decide ¬RevokedSince rs c.2.1 c.1).map Prod.snd) b := by
  rw [jbdCopy, committedCopies, filter_filter]
  congr 3
  funext c
  simp [and_comm]

lemma recoveredWrites_eq (rs) : recoveredWrites v grant q rs = ((committedCopies rs).filter fun c =>
      !revoked (fullTable grant q rs) c.2.1 ((q + c.1) % 2 ^ 32) &&
      decide (c.2.1 < v.blocksCount)).map Prod.snd := by
  rw [recoveredWrites, replayWrites, committedCopies, filter_filter]
  congr 2
  funext c
  rw [Bool.and_comm]

/-- A block no committed transaction logs, or the last one that does. -/
lemma lastLogged_or (rs b) : (∀ c ∈ committedCopies rs, c.2.1 ≠ b) ∨ ∃ k, LastLogged rs b k := by
  classical
  by_cases h : ∃ k, ∃ data, (k, b, data) ∈ committedCopies rs
  · right
    obtain ⟨k0, hk0⟩ := h
    let P : Nat → Prop := fun k => ∃ data, (k, b, data) ∈ committedCopies rs
    have bound : ∀ {k}, P k → k < commits rs := fun ⟨_, hc⟩ => (mem_committedCopies.mp hc).2
    have hP : P (Nat.findGreatest P (commits rs)) := Nat.findGreatest_spec (bound hk0).le hk0
    refine ⟨Nat.findGreatest P (commits rs), ?_, bound hP, ?_⟩
    · obtain ⟨data, hc⟩ := hP
      exact ⟨data, (mem_committedCopies.mp hc).1⟩
    · rintro ⟨k, b', data⟩ hc rfl hlt
      exact Nat.le_findGreatest hlt.le ⟨data, mem_committedCopies.mpr ⟨hc, hlt⟩⟩
  · left
    rintro ⟨k, b', data⟩ hc rfl
    exact h ⟨k, data, hc⟩

/-- A filter on the committed copies that goes by block and transaction, and passes a later copy of
a block when it passes an earlier one, is decided for a block at its last copy. -/
lemma lastWrite_committed (p : LogCopy → Bool) (pb : Nat → Bool)
    (hk : LastLogged rs b k) (hp : ∀ c ∈ committedCopies rs, c.2.1 = b → p c = pb c.1)
    (hup : ∀ i j, i ≤ j → j < commits rs → pb i = true → pb j = true) :
    lastWrite (((committedCopies rs).filter p).map Prod.snd) b =
      if pb k = true then lastWrite ((committedCopies rs).map Prod.snd) b else none := by
  obtain ⟨data, hmem⟩ := hk.logged
  have hmem := mem_committedCopies.mpr ⟨hmem, hk.committed⟩
  split
  · rename_i hpk
    refine lastWrite_filter_eq Prod.snd p ?_ ⟨_, hmem, rfl, (hp _ hmem rfl).trans hpk⟩
    refine (committedCopies_sorted rs).imp_of_mem ?_
    intro c c' hc hc' hle hb hb' hpc
    rw [hp c hc hb] at hpc
    rw [hp c' hc' hb']
    exact hup _ _ hle (mem_committedCopies.mp hc').2 hpc
  · rename_i hpk
    refine lastWrite_filter_eq_none Prod.snd p fun c hc hb => ?_
    obtain ⟨hc', hlt⟩ := mem_committedCopies.mp hc
    rw [hp c hc hb, Bool.eq_false_iff]
    exact fun hpc => hpk (hup _ _ (hk.last c hc' hb hlt) hk.committed hpc)

lemma lastWrite_committed_ne_none (hk : LastLogged rs b k) :
    lastWrite ((committedCopies rs).map Prod.snd) b ≠ none := by
  obtain ⟨data, hmem⟩ := hk.logged
  intro hn
  exact (lastWrite_eq_none_iff _ _).mp hn _
    (mem_map_of_mem (mem_committedCopies.mpr ⟨hmem, hk.committed⟩)) rfl

/-- What JBD owes to a block some committed transaction logs. -/
lemma jbdCopy_of_lastLogged (hk : LastLogged rs b k) :
    jbdCopy rs b = if RevokedSince rs b k then none
      else lastWrite ((committedCopies rs).map Prod.snd) b := by
  rw [jbdCopy_eq, lastWrite_committed _ (fun j => decide ¬RevokedSince rs b j) hk]
  · by_cases hr : RevokedSince rs b k <;> simp [hr]
  · rintro c hc rfl
    rfl
  intro i j hij _ hi
  rw [decide_eq_true_eq] at hi ⊢
  rintro ⟨r, hr, hb, hle, hlt⟩
  exact hi ⟨r, hr, hb, hij.trans hle, hlt⟩

lemma recovered_of_lastLogged (hlt : commits rs < 2 ^ 31)
    (hb : b < v.blocksCount) (hk : LastLogged rs b k) : lastWrite (recoveredWrites v grant q rs) b =
      if revoked (fullTable grant q rs) b ((q + k) % 2 ^ 32) then none
      else lastWrite ((committedCopies rs).map Prod.snd) b := by
  rw [recoveredWrites_eq, lastWrite_committed _
    (fun j => !revoked (fullTable grant q rs) b ((q + j) % 2 ^ 32)) hk]
  · cases revoked (fullTable grant q rs) b ((q + k) % 2 ^ 32) <;> simp
  · rintro c hc rfl
    simp [hb]
  intro i j hij hj hi
  rw [Bool.not_eq_true', Bool.eq_false_iff, ne_eq, revoked_fullTable_iff hlt (by omega)] at hi ⊢
  rintro ⟨hkey, r, hr, hb, hle⟩
  exact hi ⟨hkey, r, hr, hb, hij.trans hle⟩

/-- The table and the committed revoke records agree at a block's last copy just when the two ways
the table can be wrong are absent. -/
lemma revoked_iff_revokedSince (hlt : commits rs < 2 ^ 31) (hk : k < commits rs) :
    (revoked (fullTable grant q rs) b ((q + k) % 2 ^ 32) = true ↔ RevokedSince rs b k) ↔
      (RevokedSince rs b k → b ∈ tabled grant ((revokesFrom 0 rs).map Prod.snd)) ∧
      (¬RevokedSince rs b k → b ∈ tabled grant ((revokesFrom 0 rs).map Prod.snd) →
      ¬TailRevokes rs b) := by
  rw [revoked_fullTable_iff hlt (by omega)]
  constructor
  · intro h
    refine ⟨fun hr => (h.mpr hr).1, fun hr htab htail => hr (h.mp ⟨htab, _, htail, rfl, hk.le⟩)⟩
  rintro ⟨hplace, htail⟩
  refine ⟨fun ⟨htab, r, hr, hb, hle⟩ => ?_, fun hr => ?_⟩
  · by_contra hno
    refine htail hno htab ?_
    -- a record that is not of a committed transaction is of the tail
    have hr1 : r.1 = commits rs := by
      have hle' := (revokesFrom_numbered.bounds hr).2
      by_contra hne
      exact hno ⟨r, hr, hb, hle, by omega⟩
    rw [TailRevokes, ← hr1, ← hb]
    exact hr
  · have htab := hplace hr
    obtain ⟨r, hmem, hb, hle, -⟩ := hr
    exact ⟨htab, r, hmem, hb, hle⟩

/-- At one block: replay and JBD agree just when the table and the committed records do. -/
lemma recovered_eq_jbdCopy_iff (hlt : commits rs < 2 ^ 31) (hb : b < v.blocksCount)
    (hk : LastLogged rs b k) :
    lastWrite (recoveredWrites v grant q rs) b = jbdCopy rs b ↔
      (revoked (fullTable grant q rs) b ((q + k) % 2 ^ 32) = true ↔ RevokedSince rs b k) := by
  have hne := lastWrite_committed_ne_none hk
  rw [recovered_of_lastLogged hlt hb hk, jbdCopy_of_lastLogged hk]
  by_cases hr : RevokedSince rs b k <;>
    by_cases ht : revoked (fullTable grant q rs) b ((q + k) % 2 ^ 32) = true <;>
    simp [hr, hne, hne.symm]

lemma recoveredWrites_of_not_logged {b} (h : ∀ c ∈ committedCopies rs, c.2.1 ≠ b) :
    lastWrite (recoveredWrites v grant q rs) b = none ∧ jbdCopy rs b = none := by
  rw [recoveredWrites_eq, jbdCopy_eq]
  exact ⟨lastWrite_filter_eq_none _ _ fun c hc hb => absurd hb (h c hc),
    lastWrite_filter_eq_none _ _ fun c hc hb => absurd hb (h c hc)⟩

lemma recoveredWrites_lt : ∀ w ∈ recoveredWrites v grant q rs, w.1 < v.blocksCount := by
  intro w hw
  rw [recoveredWrites_eq] at hw
  obtain ⟨c, hc, rfl⟩ := mem_map.mp hw
  exact of_decide_eq_true (Bool.and_eq_true_iff.mp (mem_filter.mp hc).2).2

lemma replaysAsJbd_iff (n q : Nat) (h : HoldsLog v d rs) (jsb : Block) :
    ReplaysAsJbd v rs (recoveredWrites v (supply n) q rs ++ [(v.jmap 0, jsb)]) ↔
    TableFits v n rs := by
  simp only [TableFits, ← mem_tabled_iff]
  have hlt := h.log.commits_lt h.start_lt
  -- the journal superblock's own write is not seen at another block
  have hend : ∀ b, b ≠ v.jmap 0 → lastWrite (recoveredWrites v (supply n) q rs ++
    [(v.jmap 0, jsb)]) b =
      lastWrite (recoveredWrites v (supply n) q rs) b := fun b hb => by
    rw [lastWrite_append, lastWrite_singleton, if_neg (Ne.symm hb), Option.none_or]
  constructor
  · intro hr b hb k hk
    have hne : b ≠ v.jmap 0 := by
      rintro rfl
      obtain ⟨data, hmem⟩ := hk.logged
      exact h.home _ hmem hk.committed hb (v.inJournal_jmap v.jMaxlen_pos)
    rw [← revoked_iff_revokedSince (q := q) hlt hk.committed, ← recovered_eq_jbdCopy_iff hlt hb hk,
      ← hend b hne]
    exact hr.home b hb hne
  intro hfit
  refine ⟨fun b hb hne => ?_, fun w hw => ?_⟩
  · rw [hend b hne]
    rcases lastLogged_or rs b with hno | ⟨k, hk⟩
    · obtain ⟨h1, h2⟩ := recoveredWrites_of_not_logged (v := v) (q := q) hno
      rw [h2]
      exact h1
    · rw [recovered_eq_jbdCopy_iff hlt hb hk, revoked_iff_revokedSince hlt hk.committed]
      exact hfit b hb k hk
  · rcases mem_append.mp hw with hw | hw
    · exact .inl (recoveredWrites_lt w hw)
    · exact .inr (congrArg Prod.fst (mem_singleton.mp hw))

/-- The writes of a recovery satisfy `P` just when those `journalRecover_run` lists do. -/
lemma journalRecover_writes_iff (grant) (h : HoldsLog v s.disk rs) (P : List (Nat × Block) → Prop) :
    (∃ n s' ws, (journalRecover v grant).run s = .ok n s' ∧ s'.written = s.written ++ ws ∧ P ws) ↔
      P (recoveredWrites v grant ((s.disk (v.jmap 0)).be32 jsSequence) rs ++
      [(v.jmap 0, jsbWith (s.disk (v.jmap 0)) 0
          (((s.disk (v.jmap 0)).be32 jsSequence + commits rs) % 2 ^ 32))]) := by
  have hrun := journalRecover_run grant h rfl
  constructor
  · rintro ⟨n, s', ws, hok, hws, hr⟩
    rw [hrun] at hok
    obtain ⟨rfl, rfl⟩ := EStateM.Result.ok.inj hok
    obtain rfl := append_cancel_left hws
    exact hr
  · intro hr
    exact ⟨_, _, _, hrun, rfl, hr⟩

/-- **`journal_recover` replays a log as JBD does exactly when its revoke table fits the log**, with
`pages` pages to be had for it: it then writes to each home block the last committed copy that no
committed transaction from then on revokes, and to no other block. -/
theorem journalRecover_replaysAsJbd_iff (v : Volume) (pages : Nat) (s : State)
    (rs : List Rec) (h : HoldsLog v s.disk rs) :
    (∃ n s' ws, (journalRecover v (supply pages)).run s = .ok n s' ∧ s'.written = s.written ++ ws ∧
      ReplaysAsJbd v rs ws) ↔ TableFits v pages rs := by
  rw [journalRecover_writes_iff (supply pages) h (ReplaysAsJbd v rs)]
  exact replaysAsJbd_iff pages _ h _

/-! ## A log with a revoke record in its tail -/

lemma smallVolume_blockSize : 1024 = 1024 ∨ 1024 = 2048 ∨ 1024 = 4096 := .inl rfl

/-- A volume of a thousand 1 KB blocks with an 80-block journal at block 100. -/
def smallVolume : Volume where
  blockSize := 1024
  blocksCount := 1000
  jMaxlen := 80
  jFirst := 1
  jmap := fun i => 100 + i
  jUuid := Bytes.zero
  blockSize_eq := smallVolume_blockSize
  jFirst_ne_zero := by decide
  room := by decide
  jMaxlen_mul_lt := by decide
  jmap_inj := by omega
  jmap_ne_sbBlock := by intro i _; rw [sbBlockOf, if_pos rfl]; omega
  sbBlock_lt := by decide
  blocksCount_le := by decide

/-- Transaction 1 logs block 5 and commits; transaction 2 revokes block 5, and `tail` is where its
commit block would be. -/
def revokingDisk (tail : Block) : Disk := fun b =>
  if b = 100 then jsbWith (freshJsb 1024 80 Bytes.zero) 1 1
  else if b = 101 then ((jheader jbdDescriptor 1).putBe32 12 5).putBe16 18 jbdFlagLastTag
  else if b = 102 then fun _ => 7
  else if b = 103 then jheader jbdCommit 1
  else if b = 104 then ((jheader jbdRevoke 2).putBe32 12 20).putBe32 16 5
  else if b = 105 then tail
  else Bytes.zero

def revokingLog : List Rec := [.descriptor [(5, fun _ => 7)], .commit, .revoke [5]]

lemma LogAt.stop_of_zero {pos : Nat} (h : d (v.jmap pos) = Bytes.zero) : LogAt v d pos seq [] := by
  have hm : ∀ t, ¬HeaderAt v d pos seq t := fun t ht => absurd (h ▸ ht.magic) (by decide)
  exact .stop (hm _) (hm _) (hm _)

lemma revokingDisk_log (h : LogAt smallVolume (revokingDisk tail) 5 2 rs) :
    LogAt smallVolume (revokingDisk tail) 1 1 (revokingLog ++ rs) := by
  have h1 : revokingDisk tail (smallVolume.jmap 1) =
    ((jheader jbdDescriptor 1).putBe32 12 5).putBe16 18 jbdFlagLastTag := rfl
  have h3 : revokingDisk tail (smallVolume.jmap 3) = jheader jbdCommit 1 := rfl
  have h4 : revokingDisk tail (smallVolume.jmap 4) =
    ((jheader jbdRevoke 2).putBe32 12 20).putBe32 16 5 := rfl
  have hr : revokeRecords (revokingDisk tail (smallVolume.jmap 4)) 1024 = [5] := by
    rw [h4]
    decide
  have l4 : LogAt smallVolume (revokingDisk tail) 4 2 (.revoke [5] :: rs) := by
    rw [← hr]
    refine .revoke ⟨?_, ?_, ?_⟩ h <;> rw [h4] <;> decide
  have l3 : LogAt smallVolume (revokingDisk tail) 3 1 (.commit :: .revoke [5] :: rs) := by
    refine .commit ⟨?_, ?_, ?_⟩ l4 <;> rw [h3] <;> decide
  have hb : tagBlk (revokingDisk tail (smallVolume.jmap 1)) jbdHeader = 5 := by
    rw [h1]
    decide
  have hf : tagFlags (revokingDisk tail (smallVolume.jmap 1)) jbdHeader = jbdFlagLastTag := by
    rw [h1]
    decide
  have hs : CopiesAt smallVolume (revokingDisk tail) (revokingDisk tail (smallVolume.jmap 1))
      jbdHeader 2 [(_, _)] 3 := .last (by decide) (by rw [hf]; decide)
  rw [hb, hf] at hs
  refine .descriptor ⟨?_, ?_, ?_⟩ hs l3 <;> rw [h1] <;> decide

lemma revokingDisk_holdsLog (h : LogAt smallVolume (revokingDisk tail) 5 2 rs)
    (hrs : copiesFrom 1 rs = []) :
    HoldsLog smallVolume (revokingDisk tail) (revokingLog ++ rs) := by
  have h0 : revokingDisk tail (smallVolume.jmap 0) = jsbWith (freshJsb 1024 80 Bytes.zero) 1 1 :=
    rfl
  have hstart : (revokingDisk tail (smallVolume.jmap 0)).be32 jsStart = 1 := by
    rw [h0]
    decide
  have hseq : (revokingDisk tail (smallVolume.jmap 0)).be32 jsSequence = 1 := by
    rw [h0]
    decide
  refine ⟨by rw [hstart]; decide, by rw [hstart]; decide, ?_, ?_⟩
  · rw [hstart, hseq]
    exact revokingDisk_log h
  intro c hc _ _
  simp only [revokingLog, cons_append, nil_append, copiesFrom, map_cons, map_nil, hrs,
    mem_singleton] at hc
  rintro ⟨i, -, hi⟩
  rw [hc] at hi
  simp only [smallVolume] at hi
  omega

/-- **The revoke record of an uncommitted transaction takes effect**: transaction 1 is committed and
logs block 5, transaction 2 is not and revokes it, and the copy is not replayed. -/
theorem journalRecover_uncommitted_revoke :
    HoldsLog smallVolume (State.boot (revokingDisk Bytes.zero)).disk revokingLog ∧
    ¬∃ n s' ws, (journalRecover smallVolume (supply 16)).run
    (State.boot (revokingDisk Bytes.zero)) = .ok n s' ∧
      s'.written = (State.boot (revokingDisk Bytes.zero)).written ++ ws ∧
      ReplaysAsJbd smallVolume revokingLog ws := by
  have h : HoldsLog smallVolume (State.boot (revokingDisk Bytes.zero)).disk revokingLog :=
    revokingDisk_holdsLog (LogAt.stop_of_zero rfl) rfl
  refine ⟨h, ?_⟩
  rw [journalRecover_writes_iff _ h, replaysAsJbd_iff _ _ h]
  intro hfit
  have hlast : LastLogged revokingLog 5 0 := by
    refine ⟨⟨_, mem_singleton_self _⟩, by decide, ?_⟩
    intro c hc _ _
    rw [mem_singleton.mp hc]
  exact (hfit 5 (by decide) 0 hlast).2 (by decide) (by decide)
    (show (commits revokingLog, 5) ∈ revokesFrom 0 revokingLog by decide)

/-- With its commit block the same revoke record is one to honour, and it is. -/
theorem journalRecover_committed_revoke : HoldsLog smallVolume
    (State.boot (revokingDisk (jheader jbdCommit 2))).disk
      (revokingLog ++ [.commit]) ∧ ∃ n s' ws, (journalRecover smallVolume (supply 16)).run
        (State.boot (revokingDisk (jheader jbdCommit 2))) = .ok n s' ∧
      s'.written = (State.boot (revokingDisk (jheader jbdCommit 2))).written ++ ws ∧
      ReplaysAsJbd smallVolume (revokingLog ++ [.commit]) ws := by
  have hlog : LogAt smallVolume (revokingDisk (jheader jbdCommit 2)) 5 2 [.commit] := by
    have h₅ : revokingDisk (jheader jbdCommit 2) (smallVolume.jmap 5) = jheader jbdCommit 2 := rfl
    refine .commit ⟨?_, ?_, ?_⟩ (LogAt.stop_of_zero rfl) <;> rw [h₅] <;> decide
  have h : HoldsLog smallVolume (State.boot (revokingDisk (jheader jbdCommit 2))).disk
      (revokingLog ++ [.commit]) := revokingDisk_holdsLog hlog rfl
  refine ⟨h, (journalRecover_replaysAsJbd_iff smallVolume 16 _ _ h).mpr ?_⟩
  intro b _ k hk
  obtain ⟨data, hmem⟩ := hk.logged
  have hc : (k, b, data) = (0, 5, fun _ => 7) := mem_singleton.mp hmem
  obtain ⟨rfl, hb⟩ := Prod.mk.inj hc
  obtain ⟨rfl, -⟩ := Prod.mk.inj hb
  exact ⟨fun _ => by decide, fun hno => absurd (by decide) hno⟩

end Sage040.Ext2
