import Sage040.Fs.Ext2.Volume

/-!
# What the allocators do

`Took` and `Gave` say what allocating and freeing a block change, which is all that the rest of the
development knows of the two. `blockAlloc_took` and `blockFree_gave` are the allocators' contracts.

`Noted` is about the running transaction: every block that it freed is noted, unless no page could
be had for it, and none was handed out again. It takes a volume of at most `txnFreedGroups` groups,
since `note_freed` leaves the blocks of the others out.
-/

namespace Sage040.Fs

open Function List Geometry

namespace Vol

variable {g : Geometry} {v v' : Vol} {b i k : Nat}

/-! ## The cache leaves the volume as it is -/

@[simp] lemma commit_toImage (v : Vol) : v.commit.toImage = v.toImage := rfl

@[simp] lemma dirty_toImage (v : Vol) : v.dirty.toImage = v.toImage := rfl

@[simp] lemma touch_toImage (v : Vol) : v.touch.toImage = v.toImage := by
  rw [touch]
  split <;> rfl

@[simp] lemma noteFreed_toImage (v : Vol) (b i k) : (v.noteFreed b i k).toImage = v.toImage := by
  rw [noteFreed]
  split
  · rfl
  split
  · rfl
  split
  · rfl
  · split <;> rfl

@[simp] lemma setData_toImage (v : Vol) (b) (c : Bytes) :
    (v.setData b c).toImage = { v.toImage with data := Function.update v.data b c } := rfl

@[simp] lemma iwrite_toImage (v : Vol) (ino : Nat) (ei : Einode) :
    (v.iwrite ino ei).toImage = { v.toImage with inode := Function.update v.inode ino ei } := by
  rw [iwrite, dirty_toImage, ← touch_toImage v]

/-! ## Looking for a free number -/

section FirstFree

variable {taken : Nat → Bool} {start limit : Nat}

lemma firstFree_spec (h : firstFree taken start limit < limit) :
    start ≤ firstFree taken start limit ∧ taken (firstFree taken start limit) = false := by
  rw [firstFree] at h ⊢
  cases hf : (range' start (limit - start)).find? fun k => !taken k with
  | none => rw [hf] at h; exact absurd h (Nat.lt_irrefl limit)
  | some k =>
    have hk := mem_of_find?_eq_some hf
    have ht := find?_some hf
    rw [mem_range'_1] at hk
    exact ⟨hk.1, by simpa using ht⟩

lemma taken_of_lt_firstFree {k} (hk : start ≤ k) (hlt : k < firstFree taken start limit) :
    taken k = true := by
  rw [firstFree] at hlt
  cases hf : (range' start (limit - start)).find? fun k => !taken k with
  | none =>
    rw [hf, Option.getD_none] at hlt
    have := find?_eq_none.1 hf k (mem_range'_1.2 ⟨hk, by omega⟩)
    simpa using this
  | some j =>
    rw [hf, Option.getD_some] at hlt
    have := (find?_range'_eq_some.1 hf).2.2 k hk hlt
    simpa using this

lemma firstFree_le (h : start ≤ limit) : firstFree taken start limit ≤ limit := by
  rw [firstFree]
  cases hf : (range' start (limit - start)).find? fun k => !taken k with
  | none => exact Nat.le_refl limit
  | some j =>
    have := mem_range'_1.1 (mem_of_find?_eq_some hf)
    rw [Option.getD_some]
    omega

end FirstFree

lemma allocIn_some (h : v.allocIn g i k = some b) :
    b < g.groupBlocks i ∧ v.bit (g.base i + b) = false ∧ v.freedInTxn i b = false := by
  have key : ∀ s l, v.allocFirstFree g i s l < l →
    v.bit (g.base i + v.allocFirstFree g i s l) = false ∧
        v.freedInTxn i (v.allocFirstFree g i s l) = false := fun s l hlt =>
    Bool.or_eq_false_iff.1 (firstFree_spec hlt).2
  simp only [allocIn] at h
  split at h
  · split at h
    · cases h
    cases h
    exact ⟨by omega, key 0 k (by omega)⟩
  split at h
  · cases h
  cases h
  exact ⟨by omega, key k (g.groupBlocks i) (by omega)⟩

lemma allocIn_none (h : v.allocIn g i k = none) (hk : k < g.groupBlocks i) {j : Nat}
    (hj : j < g.groupBlocks i) : v.bit (g.base i + j) = true ∨ v.freedInTxn i j = true := by
  have key : ∀ s l, s ≤ j → j < v.allocFirstFree g i s l →
      v.bit (g.base i + j) = true ∨ v.freedInTxn i j = true := fun s l hs hl =>
    Bool.or_eq_true_iff.1 (taken_of_lt_firstFree hs hl)
  have hle : v.allocFirstFree g i k (g.groupBlocks i) ≤ g.groupBlocks i := firstFree_le hk.le
  simp only [allocIn] at h
  split at h
  · split at h
    · by_cases hjk : j < k
      · exact key 0 k (Nat.zero_le j) (by omega)
      · exact key k (g.groupBlocks i) (by omega) (by omega)
    · cases h
  · split at h
    · exact key k (g.groupBlocks i) (by omega) (by omega)
    · cases h

/-! ## What the two leave alone -/

/-- Inodes and counts that the block allocators have nothing to do with. -/
structure Beside (v v' : Vol) : Prop where
  inode : v'.inode = v.inode
  ibit : v'.ibit = v.ibit
  freeInodes : v'.freeInodes = v.freeInodes
  lastOrphan : v'.lastOrphan = v.lastOrphan
  opened : v'.opened = v.opened
  journalOn : v'.journalOn = v.journalOn

lemma Beside.of_image (h : v'.toImage = v.toImage) : Beside v v' := by
  constructor <;> rw [h]

variable {w : Vol} {goal : Nat}

lemma Beside.trans (h : Beside v v') (h' : Beside v' w) : Beside v w :=
  ⟨h'.inode.trans h.inode, h'.ibit.trans h.ibit, h'.freeInodes.trans h.freeInodes,
    h'.lastOrphan.trans h.lastOrphan, h'.opened.trans h.opened, h'.journalOn.trans h.journalOn⟩

variable (g) in
/-- Block `b` was free and is taken. -/
structure Took (v v' : Vol) (b : Nat) : Prop where
  inside : g.Inside b
  free : v.bit b = false
  bit : v'.bit = update v.bit b true
  data : v'.data = v.data
  count : v'.freeBlocks = v.freeBlocks - 1
  dry : v'.dry = v.dry
  beside : Beside v v'

/-- Block `b` is given back, if it was taken. -/
structure Gave (v v' : Vol) (b : Nat) : Prop where
  bit : v'.bit = update v.bit b false
  data : ∀ c, c ≠ b → v'.data c = v.data c
  count : v'.freeBlocks = if v.bit b then v.freeBlocks + 1 else v.freeBlocks
  dry : v'.dry = v.dry
  beside : Beside v v'

lemma Took.of_image (h : Took g v v' b) (hw : w.toImage = v.toImage) : Took g w v' b := by
  refine ⟨h.inside, ?_, ?_, ?_, ?_, ?_, (Beside.of_image hw.symm).trans h.beside⟩ <;> rw [hw]
  · exact h.free
  · exact h.bit
  · exact h.data
  · exact h.count
  · exact h.dry

lemma take_took (hin : g.Inside b) (hf : v.bit b = false) : Took g v (v.take i b) b := by
  refine ⟨hin, hf, ?_, ?_, ?_, ?_, ⟨?_, ?_, ?_, ?_, ?_, ?_⟩⟩ <;> simp [take]

lemma inside_of_lt_groupBlocks (hi : i < g.groupCount) (hk : k < g.groupBlocks i) :
    g.Inside (g.base i + k) := by
  have h1 := g.lt_blocksCount i hi
  refine ⟨by rw [base]; omega, ?_⟩
  rw [groupBlocks] at hk
  split at hk <;> omega

lemma groupBlocks_le (g : Geometry) (i) : g.groupBlocks i ≤ g.blocksPerGroup := by
  rw [groupBlocks]
  split <;> omega

variable (g) in
/-- Block `b`, which was free, is taken, after buffers may have been fetched. -/
def Takes (v v' : Vol) (b : Nat) : Prop :=
  ∃ (w : Vol) (i k : Nat), w.toImage = v.toImage ∧ i < g.groupCount ∧ k < g.groupBlocks i ∧
    b = g.base i + k ∧
    w.bit b = false ∧ v' = w.take i b

lemma Takes.of_image (h : Takes g v v' b) (hw : v.toImage = w.toImage) : Takes g w v' b := by
  obtain ⟨u, i, k, hu, hmore⟩ := h
  exact ⟨u, i, k, hu.trans hw, hmore⟩

lemma Takes.took (h : Takes g v v' b) : Took g v v' b := by
  obtain ⟨w, i, k, hw, hi, hk, rfl, hf, rfl⟩ := h
  exact (take_took (inside_of_lt_groupBlocks hi hk) hf).of_image hw.symm

lemma allocLoop_takes {start : Nat} {ns : List Nat} (h : v.allocLoop g start k ns = (v', b)) :
    (b = 0 ∧ v'.toImage = v.toImage) ∨ Takes g v v' b := by
  induction ns generalizing v with
  | nil =>
    cases h
    exact .inl ⟨rfl, rfl⟩
  | cons n ns ih =>
    simp only [allocLoop] at h
    split at h
    · rename_i bit hbit
      cases h
      obtain ⟨hlt, hf, -⟩ := allocIn_some hbit
      exact .inr ⟨_, _, bit, touch_toImage v, Nat.mod_lt _ g.groupCount_pos, hlt, rfl, hf, rfl⟩
    · rcases ih h with ⟨hb, himg⟩ | htakes
      · exact .inl ⟨hb, himg.trans (touch_toImage v)⟩
      · exact .inr (htakes.of_image (touch_toImage v))

lemma blockAllocOnce_takes (h : v.blockAllocOnce g goal = (v', b)) :
    (b = 0 ∧ v'.toImage = v.toImage) ∨ Takes g v v' b := by
  rw [blockAllocOnce] at h
  split at h
  · cases h
    exact .inl ⟨rfl, rfl⟩
  · exact allocLoop_takes h

/-- Block 0 is taken from the start, or lies before the first. -/
def ZeroTaken (g : Geometry) (v : Vol) : Prop := g.Inside 0 → v.bit 0 = true

lemma Takes.ne_zero (h : Takes g v v' b) (h0 : ZeroTaken g v) : b ≠ 0 := by
  rintro rfl
  have hzero := h0 h.took.inside
  rw [h.took.free] at hzero
  cases hzero

lemma blockAllocTwice_takes (h0 : ZeroTaken g v) (h : v.blockAllocTwice g goal = (v', b)) :
    (b = 0 ∧ v'.toImage = v.toImage) ∨ Takes g v v' b := by
  have h1 : _ ∨ _ := blockAllocOnce_takes (Prod.mk.eta (p := v.blockAllocOnce g goal)).symm
  simp only [blockAllocTwice] at h
  split at h
  · rename_i hc
    rcases h1 with ⟨-, himg⟩ | htakes
    · exact (blockAllocOnce_takes h).imp (And.imp_right fun h => h.trans himg)
        fun h => h.of_image himg
    · exact absurd hc.1 (htakes.ne_zero h0)
  · rw [h] at h1
    exact h1

/-- **What `block_alloc` does**: it takes a free block, or it leaves everything as it was. -/
lemma blockAlloc_takes (h0 : ZeroTaken g v) (h : v.blockAlloc g goal = (v', b)) :
    (b = 0 ∧ v'.toImage = { v.toImage with dry := true }) ∨ (b ≠ 0 ∧ Takes g v v' b) := by
  have h1 : _ ∨ _ := blockAllocTwice_takes h0 (Prod.mk.eta (p := v.blockAllocTwice g goal)).symm
  simp only [blockAlloc] at h
  split at h
  · rename_i hc
    cases h
    rcases h1 with ⟨-, himg⟩ | htakes
    · exact .inl ⟨rfl, by rw [himg]⟩
    · exact absurd hc (htakes.ne_zero h0)
  rename_i hc
  rw [h] at h1 hc
  exact .inr ⟨hc, h1.resolve_left fun hb => hc hb.1⟩

lemma blockAlloc_took (h0 : ZeroTaken g v) (h : v.blockAlloc g goal = (v', b)) :
    (b = 0 ∧ v'.toImage = { v.toImage with dry := true }) ∨ (b ≠ 0 ∧ Took g v v' b) :=
  (blockAlloc_takes h0 h).imp_right (And.imp_right Takes.took)

lemma untake_gave (hb : v.bit b = true) : Gave v (v.untake i k b) b := by
  refine ⟨?_, fun c _ => ?_, ?_, ?_, ⟨?_, ?_, ?_, ?_, ?_, ?_⟩⟩ <;> simp [untake, hb]

/-- **What `block_free` does**: the block's mark goes, and its contents with it. -/
lemma blockFree_gave (hin : g.Inside b) : Gave v (v.blockFree g b) b := by
  simp only [blockFree, if_pos hin]
  have hforget : ∀ c, c ≠ b → (v.forget b).touch.data c = v.data c := by
    intro c hc
    rw [touch_toImage]
    exact update_of_ne hc _ _
  have hbit : (v.forget b).touch.bit = v.bit := by rw [touch_toImage]; rfl
  have hbeside : Beside v (v.forget b).touch := by
    constructor <;> rw [touch_toImage] <;> rfl
  have hcount : (v.forget b).touch.freeBlocks = v.freeBlocks := by rw [touch_toImage]; rfl
  have hdry : (v.forget b).touch.dry = v.dry := by rw [touch_toImage]; rfl
  split
  · rename_i hb
    have h := untake_gave (i := (b - g.firstDataBlock) / g.blocksPerGroup)
      (k := (b - g.firstDataBlock) % g.blocksPerGroup) hb
    refine ⟨by rw [h.bit, hbit], fun c hc => (h.data c hc).trans (hforget c hc), ?_,
      h.dry.trans hdry, hbeside.trans h.beside⟩
    rw [h.count, hcount, hbit]
  rename_i hb
  rw [hbit, Bool.not_eq_true] at hb
  refine ⟨?_, hforget, ?_, hdry, hbeside⟩
  · rw [hbit, ← hb, update_eq_self]
  rw [hcount, hb]
  rfl

/-! ## The blocks that the transaction freed -/

variable (g) in
/-- The group of a block and its bit there. -/
def groupOf (b : Nat) : Nat := (b - g.firstDataBlock) / g.blocksPerGroup

variable (g) in
def bitOf (b : Nat) : Nat := (b - g.firstDataBlock) % g.blocksPerGroup

variable (g) in
/-- Every block that the running transaction freed is noted, unless no page could be had for it, and
none was handed out again. -/
structure Noted (v : Vol) : Prop where
  noted : ∀ b, v.freed b = true → g.Inside b ∧ (v.missed b = true ∨
    v.freedInTxn (groupOf g b) (bitOf g b) = true)
  open_ : ∀ b, v.freed b = true → v.journalOn = true ∧ v.txnOpen = true
  reused : v.reused = []
  table : v.txnFreed.isSome = true

lemma groupOf_base (hk : k < g.groupBlocks i) : groupOf g (g.base i + k) = i := by
  have hlt : k < g.blocksPerGroup := Nat.lt_of_lt_of_le hk (groupBlocks_le g i)
  rw [groupOf, base, Nat.add_assoc, Nat.add_sub_cancel_left, Nat.mul_comm,
    Nat.mul_add_div g.blocksPerGroup_pos, Nat.div_eq_of_lt hlt, Nat.add_zero]

lemma bitOf_base (hk : k < g.groupBlocks i) : bitOf g (g.base i + k) = k := by
  have hlt : k < g.blocksPerGroup := Nat.lt_of_lt_of_le hk (groupBlocks_le g i)
  rw [bitOf, base, Nat.add_assoc, Nat.add_sub_cancel_left, Nat.mul_comm, Nat.mul_add_mod,
    Nat.mod_eq_of_lt hlt]

lemma groupOf_lt (hin : g.Inside b) : groupOf g b < g.groupCount := by
  have := g.blocksCount_le
  have := hin.1
  have := hin.2
  rw [groupOf, Nat.div_lt_iff_lt_mul g.blocksPerGroup_pos]
  omega

namespace Noted

lemma commit (h : Noted g v) : Noted g v.commit :=
  ⟨nofun, nofun, h.reused, by simpa [Vol.commit] using h.table⟩

lemma touch (h : Noted g v) : Noted g v.touch := by
  rw [Vol.touch]
  split
  · exact ⟨nofun, nofun, h.reused, h.commit.table⟩
  · exact ⟨h.noted, h.open_, h.reused, h.table⟩

end Noted

end Vol

end Sage040.Fs
