import Sage040.Fs.Ext2.Alloc
import Sage040.Lib.Runs
import Sage040.Lib.Tally

/-!
# The free counts and the bitmaps

Each free block is counted four times: by its bit, in its group's descriptor, in `free_blocks` and
in the superblock. `Books` is a volume together with the inodes that were allocated as directories,
and `Books.Balanced` says that all the counts agree. `run_balanced` is for runs of any length of the
four allocator calls and of commits.

The calls keep the counts whatever they are given, as long as a freed block is no bitmap and no
descriptor (`bforget` would drop the buffer with the counts in it) and a freed inode is what the
caller says it was. What they return is less certain. A search that a commit interrupts has passed
over blocks that the commit made anybody's, and does not look again; and past a reserved inode
number the search goes on at `(first_ino - 1) % inodes_per_group`, which is a reserved number again
where a group has fewer inodes than are reserved (`scan_outrun` has both).
-/

namespace Sage040.Fs

open Function Tally Grid Vol Prod Geometry List

/-- What the mount checks: a bitmap is one block. -/
structure Geometry.Mountable (g : Geometry) : Prop where
  blocks : g.blocksPerGroup ≤ g.blockSize * 8
  inodes : g.inodesPerGroup ≤ g.blockSize * 8

lemma Geometry.Mountable.lt {g : Geometry} (h : g.Mountable) : g.blocksPerGroup < 65536 ∧
    g.inodesPerGroup < 65536 := by
  have := h.blocks
  have := h.inodes
  rcases g.blockSize_eq with hb | hb | hb <;> omega

namespace Vol

variable (g : Geometry) (v : Vol)

def clearBit (b : Bool) : Nat := if b then 0 else 1

def setBit (b : Bool) : Nat := if b then 1 else 0

/-- The bits of the block bitmaps, a row for each group. -/
def blockGrid : Grid where
  rows := g.groupCount
  len := g.groupBlocks
  addr i k := g.base i + k
  inj i _ j _ k hk l hl h := by
    have hi := groupOf_base hk
    have hj := groupOf_base hl
    have hki := bitOf_base hk
    have hlj := bitOf_base hl
    rw [h] at hi hki
    exact ⟨hi.symm.trans hj, hki.symm.trans hlj⟩

def inodeGrid : Grid where
  rows := g.groupCount
  len _ := g.inodesPerGroup
  addr i k := i * g.inodesPerGroup + k + 1
  inj i _ j _ k hk l hl h := by
    have hdiv : ∀ {a b}, b < g.inodesPerGroup → (a * g.inodesPerGroup + b) / g.inodesPerGroup = a :=
      fun hb => by rw [Nat.mul_comm, Nat.mul_add_div g.inodesPerGroup_pos, Nat.div_eq_of_lt hb, Nat.add_zero]
    have hij : i = j := by rw [← hdiv (a := i) hk, ← hdiv (a := j) hl, Nat.succ.inj h]
    subst hij
    exact ⟨rfl, by omega⟩

/-- The clear bits of group `i`'s block bitmap. -/
def blocksFreeIn (i : Nat) : Nat := (blockGrid g).row clearBit v.bit i

/-- The clear bits of group `i`'s inode bitmap. -/
def inodesFreeIn (i : Nat) : Nat := (inodeGrid g).row clearBit v.ibit i

end Vol

/-- A volume, and which of its inodes are live directories. -/
structure Books where
  vol : Vol
  isDir : Nat → Bool

/-- The four allocators' calls, and a commit from elsewhere. -/
inductive BookOp
  | blockAlloc (goal : Nat)
  | blockFree (b : Nat)
  | inodeAlloc (isDir : Bool) (parentGroup : Nat)
  | inodeFree (ino : Nat) (wasDir : Bool)
  | commit
  deriving DecidableEq, Repr

namespace Books

variable (g : Geometry) (s : Books)

/-- The live directories of group `i`. -/
def dirsIn (i : Nat) : Nat := (Vol.inodeGrid g).row Vol.setBit s.isDir i

def step (s : Books) : BookOp → Books
  | .blockAlloc goal => { s with vol := (s.vol.blockAlloc g goal).1 }
  | .blockFree b => { s with vol := s.vol.blockFree g b }
  | .inodeAlloc isDir parent =>
    let r := s.vol.inodeAlloc g isDir parent
    ⟨r.1, if r.2 = 0 then s.isDir else update s.isDir r.2 isDir⟩
  | .inodeFree ino wasDir =>
    let v := s.vol.inodeFree g ino wasDir
    -- an inode that is still in use was not freed
    ⟨v, if v.ibit ino then s.isDir else update s.isDir ino false⟩
  | .commit => { s with vol := s.vol.commit }

/-- Every count is the count of the bitmaps. -/
structure Balanced : Prop where
  gdBlocks : ∀ i < g.groupCount, s.vol.gdFreeBlocks i = s.vol.blocksFreeIn g i
  gdInodes : ∀ i < g.groupCount, s.vol.gdFreeInodes i = s.vol.inodesFreeIn g i
  gdDirs : ∀ i < g.groupCount, s.vol.gdUsedDirs i = s.dirsIn g i
  blocks : s.vol.freeBlocks = tally g.groupCount id (s.vol.blocksFreeIn g)
  inodes : s.vol.freeInodes = tally g.groupCount id (s.vol.inodesFreeIn g)
  sbBlocks : s.vol.sbFreeBlocks = s.vol.freeBlocks
  sbInodes : s.vol.sbFreeInodes = s.vol.freeInodes
  live : ∀ ino, s.isDir ino = true → s.vol.ibit ino = true

/-- Every count is below what its field holds. -/
structure Fits : Prop where
  blocks : s.vol.freeBlocks < 2 ^ 32
  inodes : s.vol.freeInodes < 2 ^ 32
  gdBlocks : ∀ i < g.groupCount, s.vol.gdFreeBlocks i < 2 ^ 16
  gdInodes : ∀ i < g.groupCount, s.vol.gdFreeInodes i < 2 ^ 16
  gdDirs : ∀ i < g.groupCount, s.vol.gdUsedDirs i < 2 ^ 16

/-- What is said of one call: `block_alloc` finds a block while there is one that the running
transaction did not free, `inode_alloc` finds no reserved inode, and what is counted down is not 0.
-/
def Honest (s : Books) : BookOp → Prop
  | .blockAlloc goal =>
    let r := s.vol.blockAlloc g goal
    (r.2 = 0 → ∀ b, g.Inside b → r.1.bit b = false →
      r.1.freedInTxn (Vol.groupOf g b) (Vol.bitOf g b) = true) ∧
    (r.2 ≠ 0 → 0 < s.vol.freeBlocks ∧ 0 < s.vol.gdFreeBlocks (Vol.groupOf g r.2))
  | .inodeAlloc isDir parent =>
    let r := s.vol.inodeAlloc g isDir parent
    r.2 ≠ 0 → g.firstIno ≤ r.2 ∧ 0 < s.vol.freeInodes ∧
      0 < s.vol.gdFreeInodes ((r.2 - 1) / g.inodesPerGroup)
  | _ => True

/-- No buffer that a search fetches after its first one forces a commit, or there is nothing that
the commit would make anybody's. -/
def Unhurried (v : Vol) : Prop :=
  (∀ n < g.groupCount, 0 < n → v.turns (v.turn + n) = false) ∨ ∀ i k, v.freedInTxn i k = false

def Proper (s : Books) : BookOp → Prop
  | .blockAlloc _ => Vol.ZeroTaken g s.vol ∧ Unhurried g s.vol
  | .blockFree b => ¬ g.Meta b
  | .inodeAlloc _ _ => g.firstIno ≤ g.inodesPerGroup ∧ s.vol.ibit 2 = true
  | .inodeFree ino wasDir =>
    ino ≤ g.groupCount * g.inodesPerGroup ∧ (s.vol.ibit ino = true → wasDir = s.isDir ino)
  | .commit => True

variable {g : Geometry} {s : Books} {v v' w : Vol} {i k b : Nat} {x : Bool}

/-! ## One bit is flipped -/

lemma clearBit_le (b : Bool) : Vol.clearBit b ≤ 1 := by cases b <;> decide

lemma setBit_le (b : Bool) : Vol.setBit b ≤ 1 := by cases b <;> decide

variable (g) in
/-- Bit `k` of group `i` becomes `x`, which it was not, and is counted everywhere. -/
structure BlockFlip (v v' : Vol) (i k : Nat) (x : Bool) : Prop where
  group : i < g.groupCount
  place : k < g.groupBlocks i
  old : v.bit (g.base i + k) = !x
  bit : v'.bit = update v.bit (g.base i + k) x
  gd : v'.gdFreeBlocks = update v.gdFreeBlocks i
    ((v.gdFreeBlocks i + if x then 65535 else 1) % 65536)
  count : v'.freeBlocks = if x then v.freeBlocks - 1 else v.freeBlocks + 1
  sbBlocks : v'.sbFreeBlocks = v'.freeBlocks
  sbInodes : v'.sbFreeInodes = v'.freeInodes
  ibit : v'.ibit = v.ibit
  gdInodes : v'.gdFreeInodes = v.gdFreeInodes
  gdDirs : v'.gdUsedDirs = v.gdUsedDirs
  inodes : v'.freeInodes = v.freeInodes

lemma BlockFlip.of_image (h : BlockFlip g v v' i k x) (hw : w.toImage = v.toImage) :
    BlockFlip g w v' i k x := by
  refine ⟨h.group, h.place, ?_, ?_, ?_, ?_, h.sbBlocks, h.sbInodes, ?_, ?_, ?_, ?_⟩ <;> rw [hw]
  · exact h.old
  · exact h.bit
  · exact h.gd
  · exact h.count
  · exact h.ibit
  · exact h.gdInodes
  · exact h.gdDirs
  · exact h.inodes

lemma free_flip {G : Grid} {u : Nat → Bool} {gd : Nat → Nat} {count : Nat} (hi : i < G.rows)
    (hk : k < G.len i) (hold : u (G.addr i k) = !x) (hlen : G.len i < 65536)
    (hgd : ∀ j < G.rows, gd j = G.row Vol.clearBit u j) (hcount : count = G.total Vol.clearBit u) :
    (∀ j < G.rows, update gd i ((gd i + if x then 65535 else 1) % 65536) j =
        G.row Vol.clearBit (update u (G.addr i k) x) j) ∧
      (if x then count - 1 else count + 1) = G.total Vol.clearBit (update u (G.addr i k) x) := by
  have htotal := total_update (G := G) (f := clearBit) (u := u) (x := x) hi hk
  rw [hold] at htotal
  refine ⟨fun j hj => ?_, ?_⟩
  · by_cases hji : j = i
    · subst hji
      have hself := row_update_self (G := G) (f := clearBit) (u := u) (x := x) hj hk
      have hle' := row_le (G := G) (u := update u (G.addr j k) x) (i := j) clearBit_le
      rw [hold] at hself
      rw [update_self, hgd j hj]
      cases x <;> simp [clearBit] at hself ⊢ <;> omega
    · rw [update_of_ne hji, hgd j hj, row_update_of_ne hi hk hj hji]
  · cases x <;> simp [clearBit] at htotal ⊢ <;> omega

lemma dirsIn_lt (hm : g.Mountable) (s : Books) (i) : s.dirsIn g i < 65536 :=
  Nat.lt_of_le_of_lt (row_le setBit_le) hm.lt.2

lemma Balanced.blockFlip (h : Balanced g s) (hm : g.Mountable) (hf : BlockFlip g s.vol v' i k x) :
    Balanced g { s with vol := v' } := by
  obtain ⟨hgd, hcount⟩ := free_flip (G := blockGrid g) hf.group hf.place hf.old
    (Nat.lt_of_le_of_lt (groupBlocks_le g i) hm.lt.1) h.gdBlocks h.blocks
  rw [show update s.vol.bit ((blockGrid g).addr i k) x = v'.bit from hf.bit.symm] at hgd hcount
  have hinodes : v'.inodesFreeIn g = s.vol.inodesFreeIn g := by
    funext j
    rw [inodesFreeIn, inodesFreeIn, hf.ibit]
  refine ⟨fun j hj => ?_, fun j hj => ?_, fun j hj => ?_, ?_, ?_, hf.sbBlocks, hf.sbInodes, ?_⟩
  · simp only [hf.gd]
    exact hgd j hj
  · simp only [hf.gdInodes, hinodes]
    exact h.gdInodes j hj
  · simp only [hf.gdDirs]
    exact h.gdDirs j hj
  · simp only [hf.count]
    exact hcount
  · simp only [hf.inodes, hinodes]
    exact h.inodes
  · simp only [hf.ibit]
    exact h.live

variable (g) in
/-- The bit of inode `ino`, which is bit `k` of group `i`, becomes `x`, and is counted everywhere;
`dir` says whether a directory comes or goes with it. -/
structure InodeFlip (v v' : Vol) (i k : Nat) (x dir : Bool) : Prop where
  group : i < g.groupCount
  place : k < g.inodesPerGroup
  old : v.ibit (i * g.inodesPerGroup + k + 1) = !x
  ibit : v'.ibit = update v.ibit (i * g.inodesPerGroup + k + 1) x
  gd : v'.gdFreeInodes = update v.gdFreeInodes i
    ((v.gdFreeInodes i + if x then 65535 else 1) % 65536)
  dirs : v'.gdUsedDirs = if dir then update v.gdUsedDirs i
    ((v.gdUsedDirs i + if x then 1 else 65535) % 65536) else v.gdUsedDirs
  count : v'.freeInodes = if x then v.freeInodes - 1 else v.freeInodes + 1
  sbBlocks : v'.sbFreeBlocks = v'.freeBlocks
  sbInodes : v'.sbFreeInodes = v'.freeInodes
  bit : v'.bit = v.bit
  gdBlocks : v'.gdFreeBlocks = v.gdFreeBlocks
  blocks : v'.freeBlocks = v.freeBlocks

variable {dir : Bool} {goal : Nat} {ns : List Nat} {ino : Nat}

lemma InodeFlip.of_image (h : InodeFlip g v v' i k x dir)
    (hw : w.toImage = v.toImage) : InodeFlip g w v' i k x dir := by
  refine ⟨h.group, h.place, ?_, ?_, ?_, ?_, ?_, h.sbBlocks, h.sbInodes, ?_, ?_, ?_⟩ <;> rw [hw]
  · exact h.old
  · exact h.ibit
  · exact h.gd
  · exact h.dirs
  · exact h.count
  · exact h.bit
  · exact h.gdBlocks
  · exact h.blocks

/-- The number of live directories follows the mark of one of them. -/
lemma Balanced.dirs_update (h : Balanced g s) (hm : g.Mountable)
    (hf : InodeFlip g s.vol v' i k x dir)
    (hdir : x = false → dir = s.isDir (i * g.inodesPerGroup + k + 1)) {j : Nat}
    (hj : j < g.groupCount) :
    v'.gdUsedDirs j = dirsIn g ⟨v', update s.isDir (i * g.inodesPerGroup + k + 1) (x && dir)⟩ j :=
    by
  have hself := row_update_self (G := inodeGrid g) (f := setBit) (u := s.isDir)
    (x := x && dir) hf.group hf.place
  -- an inode that is in no use is no directory
  have hfree : x = true → s.isDir (i * g.inodesPerGroup + k + 1) = false := by
    rintro rfl
    have hold : s.vol.ibit (i * g.inodesPerGroup + k + 1) = false := hf.old
    cases hd : s.isDir (i * g.inodesPerGroup + k + 1) with
    | false => rfl
    | true => rw [h.live _ hd] at hold; cases hold
  have hold := h.gdDirs j hj
  have hlt := dirsIn_lt hm s j
  have hlt' := dirsIn_lt hm ⟨v', update s.isDir (i * g.inodesPerGroup + k + 1) (x && dir)⟩ j
  simp only [dirsIn] at hold hlt hlt' ⊢
  rw [hf.dirs]
  by_cases hji : j = i
  · subst hji
    simp only [inodeGrid] at hself hold hlt hlt' ⊢
    cases x with
    | true =>
      rw [hfree rfl] at hself
      cases dir <;> simp [setBit] at hself hlt hlt' ⊢ <;> omega
    | false =>
      rw [← hdir rfl] at hself
      cases dir <;> simp [setBit] at hself hlt hlt' ⊢ <;> omega
  have hrow := row_update_of_ne (G := inodeGrid g) (f := setBit) (u := s.isDir)
    (x := x && dir) hf.group hf.place hj hji
  have hgd : (if dir then update s.vol.gdUsedDirs i
      ((s.vol.gdUsedDirs i + if x then 1 else 65535) % 65536) else s.vol.gdUsedDirs) j =
      s.vol.gdUsedDirs j := by
    split
    · exact update_of_ne hji _ _
    · rfl
  rw [hgd, hold]
  exact hrow.symm

lemma Balanced.inodeFlip (h : Balanced g s) (hm : g.Mountable) (hf : InodeFlip g s.vol v' i k x dir)
    (hdir : x = false → dir = s.isDir (i * g.inodesPerGroup + k + 1)) :
    Balanced g ⟨v', update s.isDir (i * g.inodesPerGroup + k + 1) (x && dir)⟩ := by
  obtain ⟨hgd, hcount⟩ := free_flip (G := inodeGrid g) hf.group hf.place hf.old hm.lt.2
    h.gdInodes h.inodes
  rw [show update s.vol.ibit ((inodeGrid g).addr i k) x = v'.ibit from hf.ibit.symm] at hgd hcount
  have hblocks : v'.blocksFreeIn g = s.vol.blocksFreeIn g := by
    funext j
    rw [blocksFreeIn, blocksFreeIn, hf.bit]
  refine ⟨fun j hj => ?_, fun j hj => ?_, fun j hj => h.dirs_update hm hf hdir hj, ?_,
    ?_, hf.sbBlocks,
    hf.sbInodes, fun ino hino => ?_⟩
  · simp only [hf.gdBlocks, hblocks]
    exact h.gdBlocks j hj
  · simp only [hf.gd]
    exact hgd j hj
  · simp only [hf.blocks, hblocks]
    exact h.blocks
  · simp only [hf.count]
    exact hcount
  · simp only [hf.ibit, update_apply] at hino ⊢
    split
    · rename_i hino'
      rw [if_pos hino', Bool.and_eq_true] at hino
      exact hino.1
    rename_i hino'
    rw [if_neg hino'] at hino
    exact h.live ino hino

/-! ## What the calls flip -/

lemma Balanced.of_image (h : Balanced g s) (hv : v'.toImage = s.vol.toImage) :
    Balanced g { s with vol := v' } := by
  have hblocks : v'.blocksFreeIn g = s.vol.blocksFreeIn g := by
    funext j
    rw [blocksFreeIn, blocksFreeIn, hv]
  have hinodes : v'.inodesFreeIn g = s.vol.inodesFreeIn g := by
    funext j
    rw [inodesFreeIn, inodesFreeIn, hv]
  refine ⟨?_, ?_, ?_, ?_, ?_, ?_, ?_, ?_⟩ <;> dsimp only <;> rw [hv]
  · rw [hblocks]
    exact h.gdBlocks
  · rw [hinodes]
    exact h.gdInodes
  · exact h.gdDirs
  · rw [hblocks]
    exact h.blocks
  · rw [hinodes]
    exact h.inodes
  · exact h.sbBlocks
  · exact h.sbInodes
  · exact h.live

lemma take_flip (hi : i < g.groupCount) (hk : k < g.groupBlocks i)
    (hf : v.bit (g.base i + k) = false) : BlockFlip g v (v.take i (g.base i + k)) i k true := by
  refine ⟨hi, hk, hf, ?_, ?_, ?_, ?_, ?_, ?_, ?_, ?_, ?_⟩ <;> simp [Vol.take]

variable {start parent n : Nat}

lemma flip_of_takes (h : Vol.Takes g v v' b) : ∃ i l, b = g.base i + l ∧
    BlockFlip g v v' i l true := by
  obtain ⟨w, i, k, hw, hi, hk, rfl, hf, rfl⟩ := h
  exact ⟨i, k, rfl, (take_flip hi hk hf).of_image hw.symm⟩

/-- **What `block_alloc` counts**: nothing, or the block that it gives. -/
lemma blockAlloc_flip (h0 : Vol.ZeroTaken g v) (h : v.blockAlloc g goal = (v', b)) :
    (b = 0 ∧ v'.toImage = { v.toImage with dry := true }) ∨
      ∃ i l, b = g.base i + l ∧ b ≠ 0 ∧ BlockFlip g v v' i l true := by
  refine (blockAlloc_takes h0 h).imp_right fun ⟨hne, htakes⟩ => ?_
  obtain ⟨i, l, hb, hflip⟩ := flip_of_takes htakes
  exact ⟨i, l, hb, hne, hflip⟩

lemma Balanced.blockAlloc (h : Balanced g s) (hm : g.Mountable)
    (h0 : Vol.ZeroTaken g s.vol) : Balanced g { s with vol := (s.vol.blockAlloc g goal).1 } := by
  rcases blockAlloc_flip h0 (mk.eta (p := s.vol.blockAlloc g goal)).symm with
    ⟨-, himg⟩ | ⟨i, l, -, -, hflip⟩
  · have hdry : Balanced g { s with vol := { s.vol with dry := true } } :=
      ⟨h.gdBlocks, h.gdInodes, h.gdDirs, h.blocks, h.inodes, h.sbBlocks, h.sbInodes, h.live⟩
    exact hdry.of_image himg
  · exact h.blockFlip hm hflip

lemma base_groupOf_add_bitOf (hin : g.Inside b) : g.base (Vol.groupOf g b) + Vol.bitOf g b = b := by
  have := Nat.div_add_mod' (b - g.firstDataBlock) g.blocksPerGroup
  have := hin.1
  rw [base, groupOf, bitOf]
  omega

lemma bitOf_lt (hin : g.Inside b) : Vol.bitOf g b < g.groupBlocks (Vol.groupOf g b) := by
  have hb := base_groupOf_add_bitOf hin
  have hlt : bitOf g b < g.blocksPerGroup := Nat.mod_lt _ g.blocksPerGroup_pos
  have := hin.2
  rw [groupBlocks]
  split <;> omega

lemma untake_flip (hin : g.Inside b) (hb : v.bit b = true) :
    BlockFlip g v (v.untake (Vol.groupOf g b) (Vol.bitOf g b) b) (Vol.groupOf g b)
    (Vol.bitOf g b) false := by
  refine ⟨groupOf_lt hin, bitOf_lt hin, ?_, ?_, ?_, ?_, ?_, ?_, ?_, ?_, ?_, ?_⟩ <;>
    simp [untake, base_groupOf_add_bitOf hin, hb]

lemma Balanced.blockFree (h : Balanced g s) (hm : g.Mountable) :
    Balanced g { s with vol := s.vol.blockFree g b } := by
  rw [Vol.blockFree]
  split
  · rename_i hin
    have hforget : Balanced g { s with vol := s.vol.forget b } :=
      ⟨h.gdBlocks, h.gdInodes, h.gdDirs, h.blocks, h.inodes, h.sbBlocks, h.sbInodes, h.live⟩
    have htouch : Balanced g { s with vol := (s.vol.forget b).touch } :=
      hforget.of_image (Vol.touch_toImage _)
    dsimp only
    split
    · rename_i hbit
      exact htouch.blockFlip hm (untake_flip hin hbit)
    · exact htouch
  · exact h

lemma inodeIn_some (h : v.inodeIn g i = some ino) :
    ∃ l < g.inodesPerGroup, ino = i * g.inodesPerGroup + l + 1 ∧ v.ibit ino = false := by
  simp only [inodeIn] at h
  split at h
  · cases h
  rename_i hlt
  split at h
  · split at h
    · cases h
    rename_i hlt'
    cases h
    exact ⟨_, Nat.not_le.1 hlt', rfl, (firstFree_spec (Nat.not_le.1 hlt')).2⟩
  · cases h
    exact ⟨_, Nat.not_le.1 hlt, rfl, (firstFree_spec (Nat.not_le.1 hlt)).2⟩

/-- With the reserved inodes all in the first group, and the root in use, no reserved one is given.
-/
lemma inodeIn_unreserved (h : v.inodeIn g i = some ino)
    (hfirst : g.firstIno ≤ g.inodesPerGroup) (hroot : v.ibit 2 = true) : g.firstIno ≤ ino := by
  obtain ⟨-, -, -, hfree⟩ := inodeIn_some h
  simp only [inodeIn] at h
  split at h
  · cases h
  split at h
  · split at h
    · cases h
    rename_i hlt'
    cases h
    have hstart := (firstFree_spec (Nat.not_le.1 hlt')).1
    rw [Nat.mod_eq_of_lt (by omega)] at hstart hlt' ⊢
    omega
  · rename_i hres
    cases h
    rcases Decidable.not_and_iff_or_not.1 hres with hge | htwo
    · exact Nat.not_lt.1 hge
    rw [Decidable.not_not.1 htwo, hroot] at hfree
    cases hfree

lemma takeInode_flip (hi : i < g.groupCount) (hk : k < g.inodesPerGroup)
    (hf : v.ibit (i * g.inodesPerGroup + k + 1) = false) :
    InodeFlip g v (v.takeInode i (i * g.inodesPerGroup + k + 1) dir) i k true dir := by
  refine ⟨hi, hk, hf, ?_, ?_, ?_, ?_, ?_, ?_, ?_, ?_, ?_⟩ <;> simp [takeInode]

variable (g) in
/-- What `inode_alloc` does: nothing, or it takes inode `ino`, which is free. -/
def TookInode (v v' : Vol) (dir : Bool) (ino : Nat) : Prop :=
  ∃ i l, ino = i * g.inodesPerGroup + l + 1 ∧ InodeFlip g v v' i l true dir ∧
    (g.firstIno ≤ g.inodesPerGroup → v.ibit 2 = true → g.firstIno ≤ ino)

lemma TookInode.of_touch {ino} (h : TookInode g v.touch v' dir ino) : TookInode g v v' dir ino := by
  obtain ⟨i, l, rfl, hflip, hres⟩ := h
  refine ⟨i, l, rfl, hflip.of_image (touch_toImage v).symm, fun hfirst hroot => ?_⟩
  exact hres hfirst (by rw [touch_toImage]; exact hroot)

lemma inodeLoop_flip {ino} (h : v.inodeLoop g start dir ns = (v', ino)) :
    (ino = 0 ∧ v'.toImage = v.toImage) ∨ TookInode g v v' dir ino := by
  induction ns generalizing v with
  | nil =>
    cases h
    exact .inl ⟨rfl, rfl⟩
  | cons n ns ih =>
    simp only [inodeLoop] at h
    split at h
    · rename_i hino
      cases h
      obtain ⟨l, hl, rfl, hf⟩ := inodeIn_some hino
      have hi : (start + n) % g.groupCount < g.groupCount := Nat.mod_lt _ g.groupCount_pos
      exact .inr (.of_touch ⟨_, l, rfl, takeInode_flip hi hl hf, inodeIn_unreserved hino⟩)
    · rcases ih h with ⟨hino, himg⟩ | htook
      · exact .inl ⟨hino, himg.trans (touch_toImage v)⟩
      · exact .inr htook.of_touch

/-- **What `inode_alloc` counts**: nothing, or the inode that it gives. -/
lemma inodeAlloc_flip {ino} (h : v.inodeAlloc g dir parent = (v', ino)) :
    (ino = 0 ∧ v'.toImage = v.toImage) ∨ TookInode g v v' dir ino := by
  rw [inodeAlloc] at h
  split at h
  · cases h
    exact .inl ⟨rfl, rfl⟩
  rcases inodeLoop_flip h with ⟨hino, himg⟩ | htook
  · exact .inl ⟨hino, himg.trans (touch_toImage v)⟩
  · exact .inr htook.of_touch

lemma Balanced.inodeAlloc (h : Balanced g s) (hm : g.Mountable) :
    Balanced g (s.step g (.inodeAlloc dir parent)) := by
  simp only [step]
  rcases inodeAlloc_flip (mk.eta (p := s.vol.inodeAlloc g dir parent)).symm with
    ⟨hino, himg⟩ | ⟨i, l, hino, hflip, -⟩
  · rw [if_pos hino]
    exact h.of_image himg
  · rw [if_neg (by omega), hino]
    exact h.inodeFlip hm hflip nofun

lemma inode_place (hpos : ino ≠ 0) :
    (ino - 1) / g.inodesPerGroup * g.inodesPerGroup + (ino - 1) % g.inodesPerGroup + 1 = ino := by
  rw [Nat.div_add_mod']
  omega

lemma Balanced.inodeFree (h : Balanced g s) (hm : g.Mountable)
    (hino : ino ≤ g.groupCount * g.inodesPerGroup)
    (hdir : s.vol.ibit ino = true → dir = s.isDir ino) :
    Balanced g (s.step g (.inodeFree ino dir)) := by
  -- where the inode is not freed, its mark among the directories stays what it was
  have unfreed : ∀ v : Vol, v.toImage = s.vol.toImage →
      Balanced g ⟨v, if v.ibit ino then s.isDir else update s.isDir ino false⟩ := by
    intro v hv
    have hmark : (if v.ibit ino then s.isDir else update s.isDir ino false) = s.isDir := by
      split
      · rfl
      rename_i hfree
      rw [hv] at hfree
      have hd : s.isDir ino = false := Bool.eq_false_iff.2 (mt (h.live ino) hfree)
      rw [← hd, update_eq_self]
    rw [hmark]
    exact h.of_image hv
  simp only [step, Vol.inodeFree]
  split
  · exact unfreed s.vol rfl
  rename_i hbad
  have hpos : ino ≠ 0 := fun h0 => hbad (.inr (.inl h0))
  split
  · rename_i hbit
    rw [Vol.touch_toImage] at hbit
    have hflip : InodeFlip g s.vol (s.vol.inodeFree g ino dir) ((ino - 1) / g.inodesPerGroup)
        ((ino - 1) % g.inodesPerGroup) false dir := by
      have hgroup : (ino - 1) / g.inodesPerGroup < g.groupCount := by
        rw [Nat.div_lt_iff_lt_mul g.inodesPerGroup_pos]
        omega
      refine ⟨hgroup, Nat.mod_lt _ g.inodesPerGroup_pos, ?_, ?_, ?_, ?_, ?_, ?_, ?_, ?_, ?_, ?_⟩ <;>
        simp [Vol.inodeFree, hbad, inode_place hpos, hbit]
    have hres := h.inodeFlip hm hflip fun _ => by rw [inode_place hpos]; exact hdir hbit
    rw [inode_place hpos] at hres
    simpa [Vol.inodeFree, hbad, hbit] using hres
  · rename_i hbit
    have hres := unfreed _ (Vol.touch_toImage s.vol)
    rwa [if_neg hbit] at hres

/-! ## A search that finds nothing -/

/-- The next `m` buffers force no commit, or there is nothing that a commit would forget. -/
def Quiet (v : Vol) (m : Nat) : Prop :=
  (∀ n < m, v.turns (v.turn + n) = false) ∨ ∀ i k, v.freedInTxn i k = false

lemma freedInTxn_commit (v : Vol) (i k) : v.commit.freedInTxn i k = false := by
  simp only [freedInTxn, commit]
  cases v.txnFreed <;> simp

lemma freedInTxn_touch_of_false (h : ∀ i k, v.freedInTxn i k = false) (i k : Nat) :
    v.touch.freedInTxn i k = false := by
  rw [touch]
  split
  · exact freedInTxn_commit v i k
  · exact h i k

lemma Quiet.touch {m : Nat} (h : Quiet v (m + 1)) :
    (∀ i k, v.touch.freedInTxn i k = v.freedInTxn i k) ∧ Quiet v.touch m := by
  rcases h with hturns | hnone
  · have htouch : v.touch = { v with turn := v.turn + 1 } := by
      rw [Vol.touch, if_neg (by simpa using hturns 0 (Nat.succ_pos m))]
    rw [htouch]
    refine ⟨fun _ _ => rfl, .inl fun n hn => ?_⟩
    have := hturns (n + 1) (Nat.succ_lt_succ hn)
    rwa [Nat.add_comm n 1, ← Nat.add_assoc] at this
  · have hnone' := freedInTxn_touch_of_false hnone
    exact ⟨fun i k => (hnone' i k).trans (hnone i k).symm, .inr hnone'⟩

lemma allocLoop_cons_zero (h0 : Vol.ZeroTaken g v) (h : v.allocLoop g start k (n :: ns) = (v', 0)) :
    v.touch.allocIn g ((start + n) % g.groupCount) (if n = 0 then k else 0) = none ∧
      v.touch.allocLoop g start k ns = (v', 0) := by
  simp only [Vol.allocLoop] at h
  split at h
  · rename_i hbit
    obtain ⟨-, hzero⟩ := Prod.mk.inj h
    obtain ⟨hlt, hf, -⟩ := Vol.allocIn_some hbit
    have hi : (start + n) % g.groupCount < g.groupCount := Nat.mod_lt _ g.groupCount_pos
    exact absurd hzero (Vol.Takes.ne_zero ⟨_, _, _, Vol.touch_toImage v, hi, hlt, rfl, hf, rfl⟩ h0)
  · rename_i hnone
    exact ⟨hnone, h⟩

lemma allocLoop_zero (h0 : Vol.ZeroTaken g v) (hq : Quiet v.touch ns.length)
    (hk : ∀ m ∈ n :: ns, (if m = 0 then k else 0) < g.groupBlocks ((start + m) % g.groupCount))
    (h : v.allocLoop g start k (n :: ns) = (v', 0)) :
    (∀ i l, v'.freedInTxn i l = v.touch.freedInTxn i l) ∧
      ∀ m ∈ n :: ns, ∀ l < g.groupBlocks ((start + m) % g.groupCount),
        v.bit (g.base ((start + m) % g.groupCount) + l) = true ∨
          v'.freedInTxn ((start + m) % g.groupCount) l = true := by
  induction ns generalizing v n with
  | nil =>
    obtain ⟨hnone, hrest⟩ := allocLoop_cons_zero h0 h
    obtain ⟨rfl, -⟩ := Prod.mk.inj hrest
    refine ⟨fun _ _ => rfl, fun m hm l hl => ?_⟩
    obtain rfl := mem_singleton.1 hm
    have := Vol.allocIn_none hnone (hk m hm) hl
    rwa [Vol.touch_toImage] at this
  | cons n' ns ih =>
    obtain ⟨hnone, hrest⟩ := allocLoop_cons_zero h0 h
    obtain ⟨hsame, hq'⟩ := hq.touch
    have h0' : Vol.ZeroTaken g v.touch := fun hin => by rw [Vol.touch_toImage]; exact h0 hin
    obtain ⟨hfreed, hall⟩ := ih h0' hq' (fun m hm => hk m (mem_cons_of_mem n hm)) hrest
    have hfreed' : ∀ i l, v'.freedInTxn i l = v.touch.freedInTxn i l := fun i l =>
      (hfreed i l).trans (hsame i l)
    refine ⟨hfreed', fun m hm l hl => ?_⟩
    rcases mem_cons.1 hm with rfl | hm'
    · have := Vol.allocIn_none hnone (hk m hm) hl
      rwa [Vol.touch_toImage, ← hfreed'] at this
    · have := hall m hm' l hl
      rwa [Vol.touch_toImage] at this

/-- The groups from any one on, in turn, are all the groups. -/
lemma exists_turn {i} (hstart : start < n) (hi : i < n) : ∃ m < n, (start + m) % n = i := by
  by_cases h : start ≤ i
  · exact ⟨i - start, by omega, by rw [Nat.add_sub_cancel' h, Nat.mod_eq_of_lt hi]⟩
  refine ⟨n + i - start, by omega, ?_⟩
  rw [Nat.add_sub_cancel' (by omega), Nat.add_mod_left, Nat.mod_eq_of_lt hi]

lemma blockAllocOnce_zero (h : Balanced g s) (h0 : Vol.ZeroTaken g s.vol)
    (hv : v.toImage = s.vol.toImage) (hq : Quiet v.touch (g.groupCount - 1))
    (hres : v.blockAllocOnce g goal = (v', 0)) (hin : g.Inside b) :
    v.bit b = true ∨ v'.freedInTxn (Vol.groupOf g b) (Vol.bitOf g b) = true := by
  have hgroup := groupOf_lt hin
  have hbit := bitOf_lt hin
  have hb := base_groupOf_add_bitOf hin
  rw [blockAllocOnce] at hres
  split at hres
  · rename_i hzero
    -- a clear bit would have been counted
    have hle := le_total (G := blockGrid g) (f := clearBit) (u := s.vol.bit) hgroup hbit
    have hsum : s.vol.freeBlocks = (blockGrid g).total clearBit s.vol.bit := h.blocks
    have haddr : (blockGrid g).addr (groupOf g b) (bitOf g b) = b := hb
    rw [haddr, ← hsum, ← hv, hzero] at hle
    cases hv' : v.bit b with
    | true => exact .inl rfl
    | false =>
      rw [hv'] at hle
      cases hle
  generalize hgoal : (if goal < g.firstDataBlock ∨ g.blocksCount ≤ goal then g.firstDataBlock
    else goal) = goal' at hres
  have hin' : g.Inside goal' := by
    have := g.lt_blocksCount 0 g.groupCount_pos
    rw [← hgoal]
    split
    · exact ⟨Nat.le_refl _, by omega⟩
    · exact ⟨by omega, by omega⟩
  have hstart : groupOf g goal' < g.groupCount := groupOf_lt hin'
  obtain ⟨n, hn⟩ : ∃ n, g.groupCount = n + 1 := Nat.exists_eq_succ_of_ne_zero g.groupCount_pos.ne'
  have hrange : range g.groupCount = 0 :: range' 1 n := by
    rw [hn, range_eq_range', range'_succ]
  have h0' : Vol.ZeroTaken g v := fun hin => by rw [hv]; exact h0 hin
  have hlen : (range' 1 n).length = g.groupCount - 1 := by
    rw [length_range', hn, Nat.add_sub_cancel]
  have hres : v.allocLoop g (groupOf g goal') (bitOf g goal') (0 :: range' 1 n) =
      (v', 0) := by rw [← hrange]; exact hres
  -- the search starts inside the goal's group, and at the start of the others
  have hfrom : ∀ m ∈ 0 :: range' 1 n, (if m = 0 then bitOf g goal' else 0) <
      g.groupBlocks ((groupOf g goal' + m) % g.groupCount) := by
    intro m _
    split
    · rename_i hm0
      rw [hm0, Nat.add_zero, Nat.mod_eq_of_lt hstart]
      exact bitOf_lt hin'
    have hlt := g.lt_blocksCount _ (Nat.mod_lt (groupOf g goal' + m) g.groupCount_pos)
    have hpos := g.blocksPerGroup_pos
    rw [groupBlocks, base]
    split <;> omega
  obtain ⟨m, hm, hmi⟩ := exists_turn hstart hgroup
  have hmem : m ∈ 0 :: range' 1 n := hrange ▸ mem_range.2 hm
  have hlast := (allocLoop_zero h0' (hlen ▸ hq) hfrom hres).2 m hmem (bitOf g b)
    (by rw [hmi]; exact hbit)
  rwa [hmi, hb] at hlast

lemma Unhurried.quiet (h : Unhurried g v) : Quiet v.touch (g.groupCount - 1) := by
  rcases h with hturns | hnone
  · refine .inl fun n hn => ?_
    have hturn : v.touch.turns (v.touch.turn + n) = v.turns (v.turn + (n + 1)) := by
      rw [Nat.add_comm n 1, ← Nat.add_assoc, touch]
      split <;> rfl
    rw [hturn]
    exact hturns (n + 1) (by omega) (Nat.succ_pos n)
  · exact .inr (freedInTxn_touch_of_false hnone)

/-- **`block_alloc` gives up only on what the running transaction freed.** -/
lemma blockAlloc_zero (h : Balanced g s) (h0 : Vol.ZeroTaken g s.vol)
    (hu : Unhurried g s.vol) (hres : (s.vol.blockAlloc g goal).2 = 0) (hin : g.Inside b)
    (hfree : (s.vol.blockAlloc g goal).1.bit b = false) :
    (s.vol.blockAlloc g goal).1.freedInTxn (Vol.groupOf g b) (Vol.bitOf g b) = true := by
  have hbit : s.vol.bit b = false := by
    rcases blockAlloc_flip h0 (Prod.mk.eta (p := s.vol.blockAlloc g goal)).symm with
      ⟨-, himg⟩ | ⟨_, _, _, hne, -⟩
    · rwa [himg] at hfree
    · exact absurd hres hne
  have hkeep : ∀ u : Vol, u.toImage = s.vol.toImage → u.bit b = false := fun u hu => by rwa [hu]
  have htwice : (s.vol.blockAllocTwice g goal).2 = 0 := by
    rw [Vol.blockAlloc] at hres
    split at hres
    · assumption
    · exact hres
  have hfreed : ∀ i k, (s.vol.blockAlloc g goal).1.freedInTxn i k =
      (s.vol.blockAllocTwice g goal).1.freedInTxn i k := fun i k => by
    rw [Vol.blockAlloc]
    split <;> rfl
  rw [hfreed]
  rw [Vol.blockAllocTwice] at htwice ⊢
  split at htwice
  · rename_i hagain
    rw [if_pos hagain]
    have himg : (s.vol.blockAllocOnce g goal).1.commit.toImage = s.vol.toImage := by
      rcases Vol.blockAllocOnce_takes (Prod.mk.eta (p := s.vol.blockAllocOnce g goal)).symm with
        ⟨-, himg⟩ | htakes
      · exact himg
      · exact absurd hagain.1 (htakes.ne_zero h0)
    have hquiet : Quiet (s.vol.blockAllocOnce g goal).1.commit.touch (g.groupCount - 1) :=
      .inr (freedInTxn_touch_of_false (freedInTxn_commit _))
    rcases blockAllocOnce_zero h h0 himg hquiet (Prod.ext rfl htwice) hin with hb | hf
    · rw [hkeep _ himg] at hb
      cases hb
    · exact hf
  · rename_i hagain
    rw [if_neg hagain]
    rcases blockAllocOnce_zero h h0 rfl hu.quiet (Prod.ext rfl htwice) hin with hb | hf
    · rw [hbit] at hb
      cases hb
    · exact hf

/-! ## Whole runs -/

lemma groups_le (n) (hn : n ≤ g.groupCount) :
    tally n id g.groupBlocks ≤ min (n * g.blocksPerGroup) g.blocksCount := by
  induction n with
  | zero => simp [tally]
  | succ n ih =>
    have hle := groupBlocks_le g n
    have hbase := g.lt_blocksCount n hn
    have hend : n * g.blocksPerGroup + g.groupBlocks n ≤ g.blocksCount := by
      rw [groupBlocks, base]
      split <;> omega
    rw [tally_succ, id, Nat.succ_mul]
    omega

lemma Balanced.fits (h : Balanced g s) (hm : g.Mountable)
    (hcount : g.groupCount * g.inodesPerGroup < 2 ^ 32) : Fits g s := by
  refine ⟨?_, ?_, fun i hi => ?_, fun i hi => ?_, fun i hi => ?_⟩
  · have hle : s.vol.freeBlocks ≤ tally g.groupCount id g.groupBlocks :=
      h.blocks ▸ total_le (G := blockGrid g) clearBit_le
    have := groups_le (g := g) g.groupCount (Nat.le_refl _)
    have := g.blocksCount_lt
    omega
  · have hle : s.vol.freeInodes ≤ tally g.groupCount id fun _ => g.inodesPerGroup :=
      h.inodes ▸ total_le (G := inodeGrid g) clearBit_le
    rw [tally_const, id] at hle
    omega
  · rw [h.gdBlocks i hi]
    exact Nat.lt_of_le_of_lt (row_le clearBit_le)
      (Nat.lt_of_le_of_lt (groupBlocks_le g i) hm.lt.1)
  · rw [h.gdInodes i hi]
    exact Nat.lt_of_le_of_lt (row_le clearBit_le) hm.lt.2
  · rw [h.gdDirs i hi]
    exact dirsIn_lt hm s i

lemma step_balanced (hm : g.Mountable) (s) (op : BookOp) (h : Balanced g s)
    (hp : Proper g s op) : Balanced g (s.step g op) ∧ Honest g s op := by
  match op with
  | .blockAlloc goal =>
    refine ⟨h.blockAlloc hm hp.1, fun hres b hin hfree => blockAlloc_zero h hp.1 hp.2 hres hin
      hfree, fun hres => ?_⟩
    rcases blockAlloc_flip hp.1 (mk.eta (p := s.vol.blockAlloc g goal)).symm with
      ⟨hzero, -⟩ | ⟨i, l, hb, -, hflip⟩
    · exact absurd hzero hres
    have hold : clearBit (s.vol.bit (g.base i + l)) = 1 := by rw [hflip.old]; rfl
    have hrow := le_row (G := blockGrid g) (f := clearBit) (u := s.vol.bit) hflip.place
    have htotal := le_total (G := blockGrid g) (f := clearBit) (u := s.vol.bit)
      hflip.group hflip.place
    rw [show (blockGrid g).addr i l = g.base i + l from rfl, hold] at hrow htotal
    rw [hb, groupOf_base hflip.place, h.gdBlocks i hflip.group, h.blocks]
    exact ⟨htotal, hrow⟩
  | .blockFree b => exact ⟨h.blockFree hm, trivial⟩
  | .inodeAlloc dir parent =>
    refine ⟨h.inodeAlloc hm, fun hres => ?_⟩
    rcases inodeAlloc_flip (mk.eta (p := s.vol.inodeAlloc g dir parent)).symm with
      ⟨hzero, -⟩ | ⟨i, l, hino, hflip, hfirst⟩
    · exact absurd hzero hres
    have hold : clearBit (s.vol.ibit (i * g.inodesPerGroup + l + 1)) = 1 := by
      rw [hflip.old]; rfl
    have hrow := le_row (G := inodeGrid g) (f := clearBit) (u := s.vol.ibit) (i := i)
      hflip.place
    have htotal := le_total (G := inodeGrid g) (f := clearBit) (u := s.vol.ibit)
      hflip.group hflip.place
    rw [show (inodeGrid g).addr i l = i * g.inodesPerGroup + l + 1 from rfl, hold]
      at hrow htotal
    have hgroup : ((s.vol.inodeAlloc g dir parent).2 - 1) / g.inodesPerGroup = i := by
      rw [hino, Nat.add_sub_cancel, Nat.mul_comm, Nat.mul_add_div g.inodesPerGroup_pos,
        Nat.div_eq_of_lt hflip.place, Nat.add_zero]
    rw [hgroup, h.gdInodes i hflip.group, h.inodes]
    exact ⟨hfirst hp.1 hp.2, htotal, hrow⟩
  | .inodeFree ino dir => exact ⟨h.inodeFree hm hp.1 hp.2, trivial⟩
  | .commit => exact ⟨h.of_image (commit_toImage s.vol), trivial⟩

lemma twoGroups_blockSize : 1024 = 1024 ∨ 1024 = 2048 ∨ 1024 = 4096 := .inl rfl

def twoGroups (firstIno : Nat) : Geometry where
  blockSize := 1024
  inodesCount := 16
  blocksCount := 17
  firstDataBlock := 1
  blocksPerGroup := 8
  inodesPerGroup := 8
  groupCount := 2
  firstIno := firstIno
  inodeSize := 128
  blockBitmap i := 8 * i + 3
  inodeBitmap i := 8 * i + 4
  inodeTable i := 8 * i + 5
  blockSize_eq := twoGroups_blockSize
  blocksPerGroup_pos := by decide
  inodesPerGroup_pos := by decide
  blocksCount_le := by decide
  lt_blocksCount := by decide
  blocksCount_lt := by decide
  lt_blockBitmap := by decide
  groupCount_pos := by decide

/-- A volume that has inode 5 left and nothing else; `hurried` if the fourth buffer fetched finds
all the others pinned. -/
def fullVolume (hurried : Bool) : Books where
  isDir _ := false
  vol :=
    { bit := fun _ => true
      data := fun _ => Bytes.zero
      inode := fun _ => .clear
      ibit := fun ino => ino != 5
      freeBlocks := 0
      freeInodes := 1
      sbFreeBlocks := 0
      sbFreeInodes := 1
      gdFreeBlocks := fun _ => 0
      gdFreeInodes := fun i => if i = 0 then 1 else 0
      gdUsedDirs := fun _ => 0
      lastOrphan := 0
      allocGoal := 0
      opened := fun _ => 0
      journalOn := true
      reused := []
      dry := false
      txnOpen := false
      txnFreed := some fun _ => none
      pages := fun _ => true
      asked := 0
      turns := fun n => hurried && n == 3
      turn := 0
      stale := fun _ => Bytes.zero
      drops := 0
      freed := fun _ => false
      missed := fun _ => false }

lemma fullVolume_balanced (firstIno : Nat) (hurried : Bool) : Balanced (twoGroups firstIno)
    (fullVolume hurried) where
  gdBlocks i _ := by simp [fullVolume, blocksFreeIn, row, tally, clearBit]
  gdInodes := by
    change ∀ i < 2, (if i = 0 then 1 else 0) = tally 8 clearBit fun k => i * 8 + k + 1 != 5
    decide
  gdDirs i _ := by simp [fullVolume, dirsIn, row, tally, setBit]
  blocks := by simp [fullVolume, blocksFreeIn, row, tally, clearBit]
  inodes := by
    change 1 = tally 2 id fun i => tally 8 clearBit fun k => i * 8 + k + 1 != 5
    decide
  sbBlocks := rfl
  sbInodes := rfl
  live _ := nofun

/-- **The free counts are the bitmaps'**, whatever calls are made, and the allocators do what is
said of them. -/
theorem run_balanced (g : Geometry) (hm : g.Mountable)
    (hcount : g.groupCount * g.inodesPerGroup < 2 ^ 32) (ops : List BookOp) (s : Books)
    (h : Balanced g s) (hops : Runs.Every (step g) (Proper g) ops s) :
    Balanced g (ops.foldl (step g) s) ∧ Fits g (ops.foldl (step g) s) ∧ Runs.Every (step g)
    (Honest g) ops s := by
  have hend : Balanced g (ops.foldl (step g) s) :=
    Runs.induction_on (fun s op h hp => (step_balanced hm s op h hp).1) ops h hops
  exact ⟨hend, hend.fits hm hcount, Runs.every_of_invariant
    (fun s op h hp => step_balanced hm s op h hp) ops h hops⟩

theorem run_balanced_full :
    let ops : List BookOp :=
      [.blockFree 6, .blockAlloc 6, .blockFree 6, .blockFree 6, .commit, .blockAlloc 16,
        .inodeFree 12 false, .inodeAlloc true 0, .inodeFree 5 true, .inodeFree 5 true]
    Runs.Every (step (twoGroups 5)) (Proper (twoGroups 5)) ops (fullVolume false) ∧
      Balanced (twoGroups 5) (ops.foldl (step (twoGroups 5)) (fullVolume false)) := by
  intro ops
  have hzero : ∀ v, Vol.ZeroTaken (twoGroups 5) v := fun v h => absurd h.1 (by decide)
  have hops : Runs.Every (step (twoGroups 5)) (Proper (twoGroups 5)) ops (fullVolume false) := by
    refine ⟨?_, ⟨hzero _, .inl ?_⟩, ?_, ?_, trivial, ⟨hzero _, .inl ?_⟩, ?_, ?_, ?_, ?_, trivial⟩
    · exact (by decide : ¬ (twoGroups 5).Meta 6)
    · exact fun n _ _ => rfl
    iterate 2 · exact (by decide : ¬ (twoGroups 5).Meta 6)
    · exact fun n _ _ => rfl
    · exact ⟨by decide, fun _ => rfl⟩
    · exact ⟨by decide, by decide +kernel⟩
    · exact ⟨by decide, fun _ => by decide +kernel⟩
    · exact ⟨by decide, fun h => absurd h (by decide +kernel)⟩
  exact ⟨hops, (run_balanced (twoGroups 5) ⟨by decide, by decide⟩ (by decide) ops (fullVolume false)
    (fullVolume_balanced 5 false) hops).1⟩

/-- **A search that a commit outruns, and a reserved inode that is handed out.**  Block 6 is freed
and asked for again. The first group has only that block, which the transaction freed; fetching the
second group's bitmap commits the transaction, and there is nothing in the second group. No
transaction is open now, so `block_alloc` does not try again, although block 6 is free and nobody's.
And inode 5 is reserved, but `inode_alloc` looks past it from bit `(11 - 1) % 8` on, which finds it
again. -/
theorem scan_outrun : Balanced (twoGroups 11) (fullVolume true) ∧
      ¬ Runs.Every (step (twoGroups 11)) (Honest (twoGroups 11)) [.blockFree 6, .blockAlloc 6]
      (fullVolume true) ∧
      ¬ Runs.Every (step (twoGroups 11)) (Honest (twoGroups 11)) [.inodeAlloc false 0]
      (fullVolume true) := by
  refine ⟨fullVolume_balanced 11 true, fun h => ?_, fun h => ?_⟩
  · have hfound := h.2.1.1 (by decide +kernel) 6 (by decide) (by decide +kernel)
    revert hfound
    decide +kernel
  have hres := (h.1 (by decide +kernel)).1
  revert hres
  decide +kernel

end Books

end Sage040.Fs
