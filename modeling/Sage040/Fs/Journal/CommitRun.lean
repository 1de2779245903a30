import Sage040.Fs.Journal.Descriptor

/-!
# What a commit writes

`journalCommit_run` gives the whole list of device writes of a commit, `commitWrites`: the dirty
file data, then — if there is a transaction — the copies, the descriptor, the journal superblock
that points at it, the commit block, the transaction's own blocks, and the journal superblock that
marks the log empty. Everything said later about stopping in the middle of a commit is about the
prefixes of this list.

Both sweeps through the cache, of file data and of the checkpoint, are instances of `sweep`.
-/

namespace Sage040.Ext2

open List State Bbuf

variable {v : Volume} {s : State}

/-! ## Sweeping the cache -/

/-- `forM` over code that cannot fail is a fold of what it does. -/
lemma forM_run {α : Type} {f : α → M Unit} {g : State → α → State}
    (h : ∀ a s, (f a).run s = .ok () (g s a)) (l : List α) (s) : (l.forM f).run s = .ok ()
    (l.foldl g s) := by
  induction l generalizing s with
  | nil => rfl
  | cons a l ih => exact (run_bind_of_ok (h a s) _).trans (ih _)

def Bbuf.home (b : Bbuf) : Nat × Block := (b.blk, b.data)

/-- What a sweep does at one buffer: those that pass `p` go home, and all are changed by `f`. -/
def sweep (p : Bbuf → Bool) (f : Bbuf → Bbuf) (s : State) (i : Fin nbuf) : State :=
  (s.wroteAll (if p (s.bcache i) then [(s.bcache i).home] else [])).setBuf i
    (f (s.bcache i))

variable {p : Bbuf → Bool} {f : Bbuf → Bbuf} {l idx : List (Fin nbuf)} {i : Fin nbuf}
  {e : Option (Fin nbuf)}

lemma sweep_foldl (p) (f) (hl : l.Nodup)
    (s) : l.foldl (sweep p f) s =
      { s.wroteAll ((l.filter fun i => p (s.bcache i)).map fun i => (s.bcache i).home) with
        bcache := fun i => if i ∈ l then f (s.bcache i) else s.bcache i } := by
  induction l generalizing s with
  | nil => simp
  | cons i l ih =>
    obtain ⟨hi, hl⟩ := nodup_cons.mp hl
    have hother : ∀ j ∈ l, (sweep p f s i).bcache j = s.bcache j := by
      intro j hj
      have hji : j ≠ i := fun h => hi (h ▸ hj)
      exact Function.update_of_ne hji _ _
    have hws : ((l.filter fun j => p ((sweep p f s i).bcache j)).map fun j =>
        ((sweep p f s i).bcache j).home) =
        (l.filter fun j => p (s.bcache j)).map fun j => (s.bcache j).home := by
      rw [filter_congr fun j hj => by rw [hother j hj]]
      exact map_congr_left fun j hj => by rw [hother j (mem_of_mem_filter hj)]
    have hcache : (fun j => if j ∈ l then f ((sweep p f s i).bcache j)
        else (sweep p f s i).bcache j) =
        fun j => if j ∈ i :: l then f (s.bcache j) else s.bcache j := by
      funext j
      by_cases hj : j ∈ l
      · simp [hj, hother j hj]
      by_cases hji : j = i
      · subst hji
        simp [hj, sweep, setBuf]
      · simp [hj, hji, sweep, setBuf, wroteAll]
    rw [foldl_cons, ih hl, hws, hcache, filter_cons]
    by_cases hp : p (s.bcache i) = true
    · simp [hp, sweep, setBuf, wroteAll, applyWrites_cons, home]
    · simp [hp, sweep, setBuf, wroteAll]

lemma sweep_finRange (p) (f) (s) : (List.finRange nbuf).foldl (sweep p f) s =
      { s.wroteAll (((List.finRange nbuf).filter fun i => p (s.bcache i)).map fun i =>
          (s.bcache i).home) with bcache := fun i => f (s.bcache i) } := by
  rw [sweep_foldl p f (nodup_finRange nbuf)]
  simp

lemma State.setBuf_self (s : State) (i) : s.setBuf i (s.bcache i) = s := by
  simp [setBuf]

def Bbuf.flushed (b : Bbuf) : Bbuf := if b.valid && b.dirty then { b with dirty := false } else b

lemma bflush_run (i) : (bflush i).run s = .ok ()
    (sweep (fun b => b.valid && b.dirty) Bbuf.flushed s i) := by
  rw [bflush, run_bind_of_ok get_run]
  by_cases h : ((s.bcache i).valid && (s.bcache i).dirty) = true
  · simp only [h, if_true, sweep, flushed]
    rw [run_bind_of_ok (bwriteRaw_run _ _), modify_run, wrote_eq]
    rfl
  simp only [h, Bool.false_eq_true, if_false, sweep, flushed, wroteAll_nil, setBuf_self]
  rfl

/-- The file data that is dirty, in the order of the cache. -/
def dataWrites (s : State) : List (Nat × Block) :=
  ((List.finRange nbuf).filter fun i => (s.bcache i).dirtyData).map fun i => (s.bcache i).home

def Bbuf.dataFlushed (b : Bbuf) : Bbuf := if b.dirtyData then { b with dirty := false } else b

lemma dataFlush_run : ((List.finRange nbuf).forM fun i => do
      if ((← get).bcache i).dirtyData then bflush i : M Unit).run s =
      .ok () { s.wroteAll (dataWrites s) with bcache := fun i => (s.bcache i).dataFlushed } := by
  rw [forM_run (g := sweep dirtyData dataFlushed) ?_, sweep_finRange]
  · rfl
  intro i s
  rw [run_bind_of_ok get_run]
  by_cases h : (s.bcache i).dirtyData = true
  · rw [if_pos h, bflush_run]
    have h' : ((s.bcache i).valid && (s.bcache i).dirty) = true := by
      simp only [dirtyData, Bool.and_eq_true] at h ⊢
      exact h.1
    simp only [sweep, h, h', if_true, flushed, dataFlushed]
  · rw [if_neg h]
    simp only [sweep, h, Bool.false_eq_true, dataFlushed, if_false, wroteAll_nil, setBuf_self]
    rfl

def Bbuf.checkpointed (b : Bbuf) : Bbuf := { b.flushed with meta_ := false }

lemma bcacheFlushRaw_run : bcacheFlushRaw.run s = .ok ()
    { s.wroteAll (((List.finRange nbuf).filter fun i =>
          (s.bcache i).valid && (s.bcache i).dirty).map fun i => (s.bcache i).home) with
        bcache := fun i => (s.bcache i).checkpointed } := by
  rw [bcacheFlushRaw, forM_run (g := sweep (fun b => b.valid && b.dirty) checkpointed) ?_,
    sweep_finRange]
  intro i s
  rw [run_bind_of_ok (bflush_run i), modify_run]
  simp [sweep, setBuf, checkpointed]

/-! ## The log -/

/-- The block a log entry is a copy of, and its contents. -/
def entryOf (v : Volume) (s : State) : Option (Fin nbuf) → Nat × Block
  | some j => (s.bcache j).home
  | none => (v.sbBlock, v.overlay (s.disk v.sbBlock) s.sbuf)

lemma logEntry_run (e) : (logEntry v e).run s = .ok (entryOf v s e) s := by
  cases e <;> rfl

variable {pos i now seq : Nat} {w : Nat × Block} {jsb : Block} {withSb : Bool}

lemma jlogBlock_run (h : pos < v.jMaxlen) (data : Block) (flags : Nat) :
    (jlogBlock v pos data flags).run s =
      .ok (if data.be32 0 = jbdMagic then flags ||| jbdFlagEscape else flags)
        (s.wroteAll [(v.jmap pos, escaped data)]) := by
  rw [jlogBlock, run_bind_of_ok (jwrite_run h _), wrote_eq]
  rfl

variable {ws : List (Nat × Block)}

/-- Writing to the journal does not change what there is to log. -/
lemma entryOf_wroteAll (hw : ∀ w ∈ ws, w.1 ≠ v.sbBlock) (e) :
    entryOf v (s.wroteAll ws) e = entryOf v s e := by
  cases e with
  | some j => rfl
  | none =>
    have : (s.wroteAll ws).disk v.sbBlock = s.disk v.sbBlock := applyWrites_of_notMem hw _
    simp only [entryOf, this]
    rfl

variable {es : List (Option (Fin nbuf))}

lemma logEntries_run {tag : Nat} (jbuf : Block)
    (hpos : pos + es.length < v.jMaxlen) : (logEntries v es i tag pos jbuf).run s =
      .ok (descriptorFrom v (es.map (entryOf v s)) i tag jbuf, pos + es.length)
        (s.wroteAll (copyWrites v pos (es.map (entryOf v s)))) := by
  induction es generalizing i tag pos jbuf s with
  | nil => simp [logEntries, copyWrites, descriptorFrom]
  | cons e es ih =>
    rw [length_cons] at hpos ⊢
    rw [logEntries, run_bind_of_ok (logEntry_run e)]
    dsimp only
    rw [run_bind_of_ok (jlogBlock_run (by omega) _ _), Volume.jnext_of_lt (by omega),
      ih _ (by omega)]
    have hne : ∀ w ∈ [(v.jmap pos, escaped (entryOf v s e).2)], w.1 ≠ v.sbBlock := by
      intro w hw
      rw [mem_singleton.mp hw]
      exact v.jmap_ne_sbBlock pos (by omega)
    have hmap : es.map (entryOf v (s.wroteAll [(v.jmap pos, escaped (entryOf v s e).2)])) =
        es.map (entryOf v s) := map_congr_left fun e _ => entryOf_wroteAll hne e
    rw [hmap, ← wroteAll_append, map_cons, descriptorFrom, copyWrites]
    simp only [tagFlagsOf, isEmpty_map, Nat.add_right_comm, Nat.add_assoc, singleton_append]

lemma mem_copyWrites (h : w ∈ copyWrites v pos ws) :
    ∃ p data, pos ≤ p ∧ p < pos + ws.length ∧ w = (v.jmap p, escaped data) := by
  induction ws generalizing pos with
  | nil => simp [copyWrites] at h
  | cons x ws ih =>
    rcases mem_cons.mp h with rfl | h
    · exact ⟨pos, x.2, le_rfl, by simp, rfl⟩
    obtain ⟨p, data, h1, h2, h3⟩ := ih h
    exact ⟨p, data, by omega, by rw [length_cons]; omega, h3⟩

/-! ## The transaction -/

/-- The log of a transaction of these blocks: copies, descriptor, where it starts, commit block. -/
def logWrites (v : Volume) (now seq : Nat) (jsb : Block) (ws : List (Nat × Block)) :
    List (Nat × Block) :=
  copyWrites v (v.jFirst + 1) ws ++ [(v.jmap v.jFirst, descriptorOf v seq ws),
    (v.jmap 0, jsbWith jsb v.jFirst seq),
      (v.jmap (v.jFirst + 1 + ws.length), commitBlock seq now)]

/-- The journal superblock that marks the log empty again. -/
def emptiedJsb (v : Volume) (seq : Nat) (jsb : Block) : Block :=
  jsbWith (jsbWith jsb v.jFirst seq) 0 ((seq + 1) % 2 ^ 32)

/-- Everything a commit writes for a transaction of these blocks. -/
def txnWrites (v : Volume) (now seq : Nat) (jsb : Block) (ws : List (Nat × Block)) :
    List (Nat × Block) :=
  logWrites v now seq jsb ws ++ ws ++ [(v.jmap 0, emptiedJsb v seq jsb)]

/-- A transaction fits the log: it has no more blocks than the cache and the superblock, and they
are none of the journal's own. -/
structure FitsLog (v : Volume) (ws : List (Nat × Block)) : Prop where
  length_le : ws.length ≤ nbuf + 1
  home : ∀ w ∈ ws, ¬v.InJournal w.1

lemma FitsLog.pos_lt (h : FitsLog v ws) : v.jFirst + 1 + ws.length < v.jMaxlen := by
  have h1 := v.room
  have h2 := h.length_le
  omega

lemma jmap_ne {j : Nat} (hi : i < v.jMaxlen) (hj : j < v.jMaxlen) (h : i ≠ j) :
    v.jmap i ≠ v.jmap j := fun he => h (v.jmap_inj i hi j hj he)

/-- The copies go into the log proper, not over the journal superblock. -/
lemma copyWrites_ne_jsb (h : FitsLog v ws) : ∀ w ∈ copyWrites v (v.jFirst + 1) ws,
    w.1 ≠ v.jmap 0 := by
  intro w hw
  have hlt := h.pos_lt
  obtain ⟨p, data, h1, h2, rfl⟩ := mem_copyWrites hw
  exact jmap_ne (by omega) v.jMaxlen_pos (by omega)

/-- The entries of the transaction `journal_commit` has collected. -/
def entriesOf (v : Volume) (s : State) (idx : List (Fin nbuf)) (withSb : Bool) :
    List (Nat × Block) :=
  (idx.map some ++ (if withSb then [none] else [])).map (entryOf v s)

lemma writeLog_run (now seq) (hfit : FitsLog v (es.map (entryOf v s))) :
    (writeLog v now seq es).run s = .ok ()
      (s.wroteAll (logWrites v now seq (s.disk (v.jmap 0)) (es.map (entryOf v s)))) := by
  have hlt := hfit.pos_lt
  rw [length_map] at hlt
  rw [writeLog, Volume.jnext_of_lt (by omega), run_bind_of_ok (logEntries_run _ (by omega))]
  dsimp only
  rw [run_bind_of_ok (jwrite_run (by omega) _), run_bind_of_ok (jsbSet_run _ _),
    jwrite_run (by omega)]
  simp only [wrote_eq, ← wroteAll_append]
  -- neither the copies nor the descriptor are written over the journal superblock
  have hjsb : (s.wroteAll (copyWrites v (v.jFirst + 1) (es.map (entryOf v s)) ++
      [(v.jmap v.jFirst, descriptorOf v seq (es.map (entryOf v s)))])).disk (v.jmap 0) =
      s.disk (v.jmap 0) := by
    refine applyWrites_of_notMem (fun w hw => ?_) _
    rcases mem_append.mp hw with hw | hw
    · exact copyWrites_ne_jsb hfit w hw
    rw [mem_singleton.mp hw]
    exact jmap_ne (by omega) v.jMaxlen_pos v.jFirst_ne_zero
  rw [← descriptorOf, hjsb, logWrites, length_map]
  simp

lemma logWrites_inJournal (h : FitsLog v ws) : ∀ w ∈ logWrites v now seq jsb ws,
    v.InJournal w.1 := by
  intro w hw
  have hlt := h.pos_lt
  rcases mem_append.mp hw with hw | hw
  · obtain ⟨p, data, h1, h2, rfl⟩ := mem_copyWrites hw
    exact v.inJournal_jmap (by omega)
  simp only [mem_cons, not_mem_nil, or_false] at hw
  rcases hw with rfl | rfl | rfl
  · exact v.inJournal_jmap (by omega)
  · exact v.inJournal_jmap v.jMaxlen_pos
  · exact v.inJournal_jmap hlt

/-- After the log, the journal superblock on the disk is the one that points at it. -/
lemma applyWrites_logWrites_jsb (h : FitsLog v ws) (d : Disk) :
    applyWrites (logWrites v now seq jsb ws) d (v.jmap 0) = jsbWith jsb v.jFirst seq := by
  have hne : v.jmap (v.jFirst + 1 + ws.length) ≠ v.jmap 0 :=
    jmap_ne h.pos_lt v.jMaxlen_pos (by omega)
  simp [logWrites, applyWrites, lastWrite_append, lastWrite_cons, hne]

lemma not_inJournal_sbBlock : ¬v.InJournal v.sbBlock := by
  rintro ⟨i, hi, he⟩
  exact v.jmap_ne_sbBlock i hi he

lemma sbWrite_run (h : s.sbDirty = true) : (sbWrite v).run s =
      .ok () { s.wroteAll [(v.sbBlock, v.overlay (s.disk v.sbBlock) s.sbuf)] with sbDirty :=
      false } := by
  rw [sbWrite, run_bind_of_ok get_run, if_pos h, run_bind_of_ok (bwriteRaw_run _ _),
    modify_run, wrote_eq]

lemma checkpoint_run (hidx : ((List.finRange nbuf).filter fun i => (s.bcache i).valid &&
    (s.bcache i).dirty) = idx)
    (hsb : withSb = s.sbDirty) (hne : ∀ i ∈ idx, (s.bcache i).blk ≠ v.sbBlock) :
    (checkpoint v withSb).run s = .ok () { s.wroteAll (entriesOf v s idx withSb) with
        bcache := fun i => (s.bcache i).checkpointed, sbDirty := false } := by
  rw [checkpoint, run_bind_of_ok bcacheFlushRaw_run, hidx, entriesOf, map_append, map_map]
  have hmap : idx.map (entryOf v s ∘ some) = idx.map fun i => (s.bcache i).home := rfl
  cases withSb with
  | false =>
    have hclean : s.sbDirty = false := hsb.symm
    simp only [Bool.false_eq_true, if_false, map_nil, append_nil, hmap, wroteAll, hclean]
    rfl
  | true =>
    rw [if_pos rfl, hmap]
    refine (sbWrite_run ?_).trans ?_
    · exact hsb.symm
    -- no buffer of the transaction is the superblock's block
    have hdisk : applyWrites (idx.map fun i => (s.bcache i).home) s.disk v.sbBlock =
        s.disk v.sbBlock := by
      refine applyWrites_of_notMem (fun w hw => ?_) _
      obtain ⟨i, hi, rfl⟩ := mem_map.mp hw
      exact hne i hi
    simp only [wroteAll, hdisk, if_true, map_cons, map_nil, entryOf, applyWrites_append,
      append_assoc]

/-- Steps 2 to 4, when the buffers to write home are those of the transaction. -/
lemma commitTxn_run {idx}
    (hidx : ((List.finRange nbuf).filter fun i => (s.bcache i).valid && (s.bcache i).dirty) = idx)
    (hsb : withSb = s.sbDirty) (hne : ∀ i ∈ idx, (s.bcache i).blk ≠ v.sbBlock)
    (hfit : FitsLog v (entriesOf v s idx withSb)) : (commitTxn v now idx withSb).run s = .ok ()
      { s.wroteAll (txnWrites v now s.jSeq (s.disk (v.jmap 0)) (entriesOf v s idx withSb)) with
        bcache := fun i => (s.bcache i).checkpointed, sbDirty := false, jSeq :=
        (s.jSeq + 1) % 2 ^ 32, txnOpen := false,
        journalCommits := s.journalCommits + 1 } := by
  rw [commitTxn, run_bind_of_ok get_run, run_bind_of_ok (writeLog_run now s.jSeq hfit)]
  have hlog : entriesOf v (s.wroteAll (logWrites v now s.jSeq (s.disk (v.jmap 0))
      (entriesOf v s idx withSb))) idx withSb = entriesOf v s idx withSb := by
    refine map_congr_left fun e _ => entryOf_wroteAll (fun w hw he => ?_) e
    exact not_inJournal_sbBlock (he ▸ logWrites_inJournal hfit w hw)
  have hjsb : applyWrites (entriesOf v s idx withSb) (applyWrites (logWrites v now s.jSeq
      (s.disk (v.jmap 0)) (entriesOf v s idx withSb)) s.disk) (v.jmap 0) =
      jsbWith (s.disk (v.jmap 0)) v.jFirst s.jSeq := by
    rw [applyWrites_of_notMem, applyWrites_logWrites_jsb hfit]
    exact fun w hw he => hfit.home w hw (he ▸ v.inJournal_jmap v.jMaxlen_pos)
  have hcheck : (checkpoint v withSb).run (s.wroteAll (logWrites v now s.jSeq
      (s.disk (v.jmap 0)) (entriesOf v s idx withSb))) = _ := checkpoint_run hidx hsb hne
  rw [hlog] at hcheck
  refine (run_bind_of_ok hcheck _).trans ?_
  rw [run_bind_of_ok (modify_run _), run_bind_of_ok (jsbSet_run _ _), modify_run, wrote_eq]
  simp only [wroteAll, txnWrites, emptiedJsb, hjsb, applyWrites_append, append_assoc]

/-! ## The whole commit -/

/-- A block calls may dirty through the cache: one of the volume's, and neither the superblock's nor
one of the journal's own. -/
structure Volume.Home (v : Volume) (b : Nat) : Prop where
  lt : b < v.blocksCount
  ne_sbBlock : b ≠ v.sbBlock
  notInJournal : ¬v.InJournal b

/-- What is dirty in the cache may be. -/
def DirtyHome (v : Volume) (s : State) : Prop :=
  ∀ i, (s.bcache i).valid = true → (s.bcache i).dirty = true → v.Home (s.bcache i).blk

/-- The running transaction, as blocks and contents in the order they are logged. -/
def txnOf (v : Volume) (s : State) : List (Nat × Block) := entriesOf v s (pinnedIdx s) s.sbDirty

def commitWrites (v : Volume) (now : Nat) (s : State) : List (Nat × Block) :=
  dataWrites s ++ if (txnOf v s).isEmpty then []
    else txnWrites v now s.jSeq (s.disk (v.jmap 0)) (txnOf v s)

lemma mem_pinnedIdx {i} (h : i ∈ pinnedIdx s) : (s.bcache i).pinned = true :=
  (mem_filter.mp h).2

lemma DirtyHome.pinned (h : DirtyHome v s) {i} (hi : i ∈ pinnedIdx s) :
    v.Home (s.bcache i).blk := by
  have hp := mem_pinnedIdx hi
  simp only [Bbuf.pinned, Bool.and_eq_true] at hp
  exact h i hp.1.1 hp.1.2

lemma DirtyHome.dataWrites (h : DirtyHome v s) : ∀ w ∈ dataWrites s, v.Home w.1 := by
  intro w hw
  obtain ⟨i, hi, rfl⟩ := mem_map.mp hw
  have hd := (mem_filter.mp hi).2
  simp only [dirtyData, Bool.and_eq_true] at hd
  exact h i hd.1.1 hd.1.2

lemma mem_txnOf (h : w ∈ txnOf v s) : (∃ i ∈ pinnedIdx s, w = (s.bcache i).home) ∨
    w.1 = v.sbBlock := by
  obtain ⟨e, he, rfl⟩ := mem_map.mp h
  rcases mem_append.mp he with he | he
  · obtain ⟨i, hi, rfl⟩ := mem_map.mp he
    exact .inl ⟨i, hi, rfl⟩
  split at he
  · rw [mem_singleton.mp he]
    exact .inr rfl
  · simp at he

lemma DirtyHome.fitsLog (h : DirtyHome v s) : FitsLog v (txnOf v s) := by
  refine ⟨?_, fun w hw => ?_⟩
  · have h1 : (pinnedIdx s).length ≤ nbuf := by
      simpa [pinnedIdx] using length_filter_le (fun i => (s.bcache i).pinned)
        (finRange nbuf)
    rw [txnOf, entriesOf]
    cases s.sbDirty <;> simp <;> omega
  · rcases mem_txnOf hw with ⟨i, hi, rfl⟩ | hsb
    · exact (h.pinned hi).notInJournal
    rw [hsb]
    exact not_inJournal_sbBlock

lemma DirtyHome.txnOf_lt (h : DirtyHome v s) : ∀ w ∈ txnOf v s, w.1 < v.blocksCount := by
  intro w hw
  rcases mem_txnOf hw with ⟨i, hi, rfl⟩ | hsb
  · exact (h.pinned hi).lt
  rw [hsb]
  exact v.sbBlock_lt

def dataFlushedState (s : State) : State :=
  { s.wroteAll (dataWrites s) with
    bcache := fun i => (s.bcache i).dataFlushed
    commitDue := false }

lemma dataFlushed_dirty (b : Bbuf) : (b.dataFlushed.valid && b.dataFlushed.dirty) = b.pinned := by
  obtain ⟨data, blk, stamp, valid, dirty, meta_⟩ := b
  cases valid <;> cases dirty <;> cases meta_ <;> rfl

lemma dataFlushed_home (b : Bbuf) : b.dataFlushed.home = b.home := by
  unfold dataFlushed
  split <;> rfl

lemma DirtyHome.entriesOf_dataFlushed (h : DirtyHome v s) (idx) (sb : Bool) :
    entriesOf v (dataFlushedState s) idx sb = entriesOf v s idx sb := by
  refine map_congr_left fun e _ => ?_
  cases e with
  | some j => exact dataFlushed_home _
  | none =>
    have : (dataFlushedState s).disk v.sbBlock = s.disk v.sbBlock :=
      applyWrites_of_notMem (fun w hw => (h.dataWrites w hw).ne_sbBlock) _
    simp only [entryOf, this]
    rfl

structure Committed (v : Volume) (now : Nat) (s s' : State) : Prop where
  written : s'.written = s.written ++ commitWrites v now s
  disk : s'.disk = applyWrites (commitWrites v now s) s.disk
  clean : ∀ i, (s'.bcache i).valid = true → (s'.bcache i).dirty = false
  journalOn : s'.journalOn = true
  jSeq : s'.jSeq = if (txnOf v s).isEmpty then s.jSeq else (s.jSeq + 1) % 2 ^ 32

lemma pinnedIdx_dataFlushed :
    ((List.finRange nbuf).filter fun i => ((dataFlushedState s).bcache i).valid &&
      ((dataFlushedState s).bcache i).dirty) = pinnedIdx s :=
  filter_congr fun i _ => dataFlushed_dirty (s.bcache i)

lemma txnOf_isEmpty : (txnOf v s).isEmpty = ((pinnedIdx s).isEmpty && !s.sbDirty) := by
  rw [txnOf, entriesOf]
  cases pinnedIdx s <;> cases s.sbDirty <;> rfl

lemma checkpointed_clean {b : Bbuf} (h : b.checkpointed.valid = true) :
    b.checkpointed.dirty = false := by
  obtain ⟨data, blk, stamp, valid, dirty, meta_⟩ := b
  cases valid <;> cases dirty <;> cases meta_ <;> first | rfl | exact absurd h Bool.false_ne_true

/-- **A commit** runs to its end, writes `commitWrites`, and leaves nothing dirty. -/
lemma journalCommit_run (hon : s.journalOn = true) (h : DirtyHome v s) (now) :
    ∃ s', (journalCommit v now).run s = .ok () s' ∧ Committed v now s s' := by
  have hdisk : (dataFlushedState s).disk (v.jmap 0) = s.disk (v.jmap 0) :=
    applyWrites_of_notMem (fun w hw he => (h.dataWrites w hw).notInJournal
      (he ▸ v.inJournal_jmap v.jMaxlen_pos)) _
  have hflush : (journalCommit v now).run s = (if (txnOf v s).isEmpty then
    modify fun s => { s with txnOpen := false }
        else commitTxn v now (pinnedIdx s) s.sbDirty : M Unit).run (dataFlushedState s) := by
    rw [journalCommit, run_bind_of_ok get_run, hon, Bool.not_true, if_neg Bool.false_ne_true,
      run_bind_of_ok get_run, run_bind_of_ok get_run, run_bind_of_ok dataFlush_run,
      run_bind_of_ok (modify_run _), ← txnOf_isEmpty (v := v)]
    rfl
  rw [hflush]
  by_cases hempty : (txnOf v s).isEmpty = true
  · refine ⟨_, by rw [if_pos hempty]; rfl, ?_⟩
    have hnil : (pinnedIdx s).isEmpty = true := by
      rw [txnOf_isEmpty, Bool.and_eq_true] at hempty
      exact hempty.1
    constructor
    iterate 2 · simp [commitWrites, hempty, dataFlushedState, wroteAll]
    · intro i hv
      have hd := dataFlushed_dirty (s.bcache i)
      have hp : (s.bcache i).pinned = false := by
        rw [Bool.eq_false_iff]
        intro hp
        have hi : i ∈ pinnedIdx s := mem_filter.mpr ⟨mem_finRange i, hp⟩
        rw [isEmpty_iff.mp hnil] at hi
        exact absurd hi (by simp)
      rw [hp, show (s.bcache i).dataFlushed.valid = true from hv, Bool.true_and] at hd
      exact hd
    · exact hon
    · simp [hempty, dataFlushedState, wroteAll]
  · have hfit : FitsLog v (entriesOf v (dataFlushedState s) (pinnedIdx s) s.sbDirty) := by
      rw [h.entriesOf_dataFlushed]
      exact h.fitsLog
    have hne : ∀ i ∈ pinnedIdx s, ((dataFlushedState s).bcache i).blk ≠ v.sbBlock := by
      intro i hi
      have hb : ((dataFlushedState s).bcache i).blk = (s.bcache i).blk :=
        congrArg Prod.fst (dataFlushed_home (s.bcache i))
      rw [hb]
      exact (h.pinned hi).ne_sbBlock
    refine ⟨_, by rw [if_neg hempty]; exact commitTxn_run pinnedIdx_dataFlushed rfl hne hfit, ?_⟩
    rw [h.entriesOf_dataFlushed, hdisk, ← txnOf]
    constructor
    · simp [commitWrites, hempty, dataFlushedState, wroteAll]
    · simp [commitWrites, hempty, dataFlushedState, wroteAll, applyWrites_append]
    · exact fun i hv => checkpointed_clean hv
    · exact hon
    · simp [hempty, dataFlushedState, wroteAll]

end Sage040.Ext2
