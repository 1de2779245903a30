import Sage040.Basic
import Sage040.Lib.LittleEndian

/-!
# A mounted volume: inodes, bitmaps, and the two allocators

The volume as `fs/ext2.c` sees it through its block cache. A block's contents are what `bget` would
give: the buffer's, or the device's where there is none. Inodes are the records that `iread` and
`iwrite` move, and a bit of a bitmap belongs to its block or inode. The device makes no errors.

Three things that the cache decides are left open, each as a supply that the volume carries:

* fetching a buffer may find every other one pinned, and then commits the running transaction in the
  middle of the call (`Vol.touch`);
* a block that is dropped from the cache goes back to whatever the device has there (`Vol.forget`);
* a page for noting freed blocks may not be had (`Vol.noteFreed`).

`freed`, `missed`, `reused` and `dry` are no part of the driver. They record which blocks the
running transaction freed, for which of them no page could be had, which blocks were handed out
although it freed them, and whether an allocation has ever found nothing.
-/

namespace Sage040.Fs

open Function

/-- What an inode is: the format bits of its mode. -/
inductive Kind
  | none | fifo | chr | dir | blk | reg | lnk | sock
  deriving DecidableEq, Repr

/-- `struct einode`, without the fields that only `stat` looks at. -/
structure Einode where
  kind : Kind
  links : Nat
  size : Nat
  /-- `i_blocks`, in 512-byte units. -/
  blocks : Nat
  dtime : Nat
  /-- `i_block`: twelve direct entries, then singly, doubly and triply indirect. -/
  block : Nat → Nat

namespace Einode

/-- `iclear`: an inode that was zeroed. -/
def clear : Einode := ⟨.none, 0, 0, 0, 0, fun _ => 0⟩

def setBlock (ei : Einode) (s b : Nat) : Einode := { ei with block := update ei.block s b }

/-- `fast_symlink`: the words of `i_block` are the target's bytes. -/
def fastSymlink (ei : Einode) : Bool := ei.kind == .lnk && ei.blocks == 0

/-- The words of `i_block` are a device number. -/
def isDevice (ei : Einode) : Bool := ei.kind == .chr || ei.kind == .blk

end Einode

/-- The geometry a mount reads once, and what makes it a sound one. -/
structure Geometry where
  blockSize : Nat
  inodesCount : Nat
  blocksCount : Nat
  firstDataBlock : Nat
  blocksPerGroup : Nat
  inodesPerGroup : Nat
  groupCount : Nat
  firstIno : Nat
  inodeSize : Nat
  /-- Of each group: where its descriptor says its bitmaps and its inode table are. -/
  blockBitmap : Nat → Nat
  inodeBitmap : Nat → Nat
  inodeTable : Nat → Nat
  blockSize_eq : blockSize = 1024 ∨ blockSize = 2048 ∨ blockSize = 4096
  blocksPerGroup_pos : 0 < blocksPerGroup
  inodesPerGroup_pos : 0 < inodesPerGroup
  /-- The groups are as many as the blocks need. -/
  blocksCount_le : blocksCount ≤ firstDataBlock + groupCount * blocksPerGroup
  lt_blocksCount : ∀ g < groupCount, firstDataBlock + g * blocksPerGroup < blocksCount
  blocksCount_lt : blocksCount < 2 ^ 32
  /-- A group's bitmap comes after the copies of the superblock and the descriptors. -/
  lt_blockBitmap : firstDataBlock < blockBitmap 0
  groupCount_pos : 0 < groupCount

namespace Geometry

variable (g : Geometry)

/-- `addrs_per_block`. -/
def addrs : Nat := g.blockSize / 4

def base (i : Nat) : Nat := g.firstDataBlock + i * g.blocksPerGroup

/-- How many blocks a group has: the last is short. -/
def groupBlocks (i : Nat) : Nat :=
  if g.base i + g.blocksPerGroup > g.blocksCount then g.blocksCount - g.base i else g.blocksPerGroup

def tableBlocks : Nat := (g.inodesPerGroup * g.inodeSize + g.blockSize - 1) / g.blockSize

/-- The blocks that are no file's: bitmaps, inode tables, and what comes before a group's bitmap. -/
def Meta (b : Nat) : Prop :=
  ∃ i < g.groupCount, b = g.blockBitmap i ∨ b = g.inodeBitmap i ∨
    (g.inodeTable i ≤ b ∧ b < g.inodeTable i + g.tableBlocks) ∨
    (g.base i ≤ b ∧ b < g.blockBitmap i)

instance (b : Nat) : Decidable (g.Meta b) := inferInstanceAs (Decidable (∃ _, _ ∧ _))

/-- A block of the volume proper. -/
def Inside (b : Nat) : Prop := g.firstDataBlock ≤ b ∧ b < g.blocksCount
  deriving Decidable

end Geometry

/-- What is on the volume and what is known of it, beside the running transaction. -/
structure Image where
  /-- The block bitmaps. -/
  bit : Nat → Bool
  /-- What each block holds. -/
  data : Nat → Bytes
  /-- The inode tables. -/
  inode : Nat → Einode
  /-- The inode bitmaps. -/
  ibit : Nat → Bool
  freeBlocks : Nat
  freeInodes : Nat
  /-- `SB_FREE_BLOCKS` and `SB_FREE_INODES`, which `sb_set_free_counts` keeps. -/
  sbFreeBlocks : Nat := 0
  sbFreeInodes : Nat := 0
  /-- The group descriptors' counts. -/
  gdFreeBlocks : Nat → Nat
  gdFreeInodes : Nat → Nat
  gdUsedDirs : Nat → Nat
  /-- `SB_LAST_ORPHAN`. -/
  lastOrphan : Nat
  allocGoal : Nat
  /-- How many handles each inode has. -/
  opened : Nat → Nat
  journalOn : Bool
  reused : List Nat
  dry : Bool

structure Vol extends Image where
  txnOpen : Bool
  /-- `txn_freed`: the page of each group, in a table that the mount may not have got. -/
  txnFreed : Option (Nat → Option (Nat → Bool))
  /-- Whether the next pages can be had. -/
  pages : Nat → Bool
  asked : Nat
  /-- Whether fetching the next buffers forces a commit. -/
  turns : Nat → Bool
  turn : Nat
  /-- What the device has for the next blocks dropped. -/
  stale : Nat → Bytes
  drops : Nat
  freed : Nat → Bool
  missed : Nat → Bool

namespace Vol

variable (g : Geometry) (v : Vol)

/-! ## The cache and the running transaction -/

/-- `journal_commit`, for what it means to the allocators: the transaction starts over. -/
def commit : Vol :=
  { v with
    txnOpen := false
    txnFreed := v.txnFreed.map fun _ _ => none
    freed := fun _ => false
    missed := fun _ => false }

/-- Buffers are fetched; with every other one pinned the transaction is committed first. -/
def touch : Vol :=
  if v.turns v.turn then { v.commit with turn := v.turn + 1 } else { v with turn := v.turn + 1 }

/-- `bdirty`. -/
def dirty : Vol := { v with txnOpen := v.txnOpen || v.journalOn }

def setData (b : Nat) (c : Bytes) : Vol := { v with data := update v.data b c }

/-- `bforget`. -/
def forget (b : Nat) : Vol :=
  { v with data := update v.data b (v.stale v.drops), drops := v.drops + 1 }

def iwrite (ino : Nat) (ei : Einode) : Vol :=
  { v.touch with inode := update v.inode ino ei }.dirty

/-! ## Blocks -/

/-- The groups that `txn_freed` has room for, `PAGE_SIZE / sizeof(u8 *)`. -/
def txnFreedGroups : Nat := 1024

def freedInTxn (i k : Nat) : Bool :=
  match v.txnFreed with
  | none => false
  | some t => i < txnFreedGroups && ((t i).map fun page => page k).getD false

/-- The page of group `i`, with bit `k` set. -/
def setPage (t : Nat → Option (Nat → Bool)) (i : Nat) (page : Nat → Bool) (k : Nat) : Vol :=
  { v with txnFreed := some (update t i (some (update page k true))) }

/-- `note_freed`, for block `b`, which is bit `k` of group `i`. -/
def noteFreed (b i k : Nat) : Vol :=
  match v.txnFreed with
  | none => v
  | some t =>
    if v.journalOn = false ∨ txnFreedGroups ≤ i then v
    else match t i with
      | some page => v.setPage t i page k
      | none =>
        -- no memory: the one case reuse is allowed
        if v.pages v.asked then { v with asked := v.asked + 1 }.setPage t i (fun _ => false) k
        else { v with asked := v.asked + 1, missed := update v.missed b true }

/-- The first number from `start` that is not taken, or `limit`. -/
def firstFree (taken : Nat → Bool) (start limit : Nat) : Nat :=
  ((List.range' start (limit - start)).find? fun k => !taken k).getD limit

/-- `alloc_first_free`: free in the bitmap and not freed in the running transaction. -/
def allocFirstFree (i start limit : Nat) : Nat :=
  firstFree (fun k => v.bit (g.base i + k) || v.freedInTxn i k) start limit

/-- The bit that group `i` gives, looking from `k` on and then from the start. -/
def allocIn (i k : Nat) : Option Nat :=
  let limit := g.groupBlocks i
  let k1 := v.allocFirstFree g i k limit
  if k1 = limit ∧ k ≠ 0 then
    let k2 := v.allocFirstFree g i 0 k
    if k ≤ k2 ∨ limit ≤ k2 then none else some k2
  else if limit ≤ k1 then none else some k1

/-- Block `b` of group `i` is marked and counted. -/
def take (i b : Nat) : Vol :=
  let reused := if v.freed b && !v.missed b then b :: v.reused else v.reused
  let v := { v with bit := update v.bit b true, reused := reused }.dirty.touch
  { v.dirty with
    gdFreeBlocks := update v.gdFreeBlocks i ((v.gdFreeBlocks i + 65535) % 65536)
    freeBlocks := v.freeBlocks - 1
    sbFreeBlocks := v.freeBlocks - 1
    sbFreeInodes := v.freeInodes
    allocGoal := b }

/-- The groups from the goal's on, in turn. -/
def allocLoop (start k : Nat) : List Nat → Vol → Vol × Nat
  | [], v => (v, 0)
  | n :: ns, v =>
    let i := (start + n) % g.groupCount
    let v := v.touch
    match v.allocIn g i (if n = 0 then k else 0) with
    | some bit => (v.take i (g.base i + bit), g.base i + bit)
    | none => allocLoop start k ns v

def blockAllocOnce (goal : Nat) : Vol × Nat :=
  if v.freeBlocks = 0 then (v, 0)
  else
    let goal := if goal < g.firstDataBlock ∨ g.blocksCount ≤ goal then g.firstDataBlock else goal
    v.allocLoop g ((goal - g.firstDataBlock) / g.blocksPerGroup)
      ((goal - g.firstDataBlock) % g.blocksPerGroup) (List.range g.groupCount)

/-- When only blocks that the transaction freed are left it is committed, which makes them
anybody's. -/
def blockAllocTwice (goal : Nat) : Vol × Nat :=
  let r := v.blockAllocOnce g goal
  if r.2 = 0 ∧ r.1.freeBlocks ≠ 0 ∧ r.1.journalOn = true ∧ r.1.txnOpen = true then
    r.1.commit.blockAllocOnce g goal
  else r

/-- `block_alloc`: a block, or `0`. -/
def blockAlloc (goal : Nat) : Vol × Nat :=
  let r := v.blockAllocTwice g goal
  if r.2 = 0 then ({ r.1 with dry := true }, 0) else r

/-- The mark of block `b`, bit `k` of group `i`, is cleared, noted and counted. -/
def untake (i k b : Nat) : Vol :=
  let v := { v.dirty with
    bit := update v.bit b false
    freed := update v.freed b v.journalOn }
  let v := (v.noteFreed b i k).touch
  { v.dirty with
    gdFreeBlocks := update v.gdFreeBlocks i ((v.gdFreeBlocks i + 1) % 65536)
    freeBlocks := v.freeBlocks + 1
    sbFreeBlocks := v.freeBlocks + 1
    sbFreeInodes := v.freeInodes }

def blockFree (b : Nat) : Vol :=
  if g.Inside b then
    let i := (b - g.firstDataBlock) / g.blocksPerGroup
    let k := (b - g.firstDataBlock) % g.blocksPerGroup
    let v := (v.forget b).touch
    -- already free: not counted twice
    if v.bit b then v.untake i k b else v
  else v

/-! ## Inodes -/

def iread (ino : Nat) : Except Errno Einode :=
  if ino = 0 ∨ g.inodesCount < ino then .error .einval else .ok (v.inode ino)

/-- A directory goes in the group with the most free blocks. -/
def bestGroup (start : Nat) : Nat :=
  let best := (List.range g.groupCount).foldl (fun best i =>
    if v.gdFreeInodes i = 0 then best
    else match best with
      | none => some (i, v.gdFreeBlocks i)
      | some (j, most) => if most < v.gdFreeBlocks i then some (i, v.gdFreeBlocks i)
        else some (j, most)) none
  (best.map Prod.fst).getD start

/-- The inode that group `i` gives; a reserved number is looked past. -/
def inodeIn (i : Nat) : Option Nat :=
  let taken := fun k => v.ibit (i * g.inodesPerGroup + k + 1)
  let k := firstFree taken 0 g.inodesPerGroup
  if g.inodesPerGroup ≤ k then none
  else
    let ino := i * g.inodesPerGroup + k + 1
    if ino < g.firstIno ∧ ino ≠ 2 then
      let k := firstFree taken ((g.firstIno - 1) % g.inodesPerGroup) g.inodesPerGroup
      if g.inodesPerGroup ≤ k then none else some (i * g.inodesPerGroup + k + 1)
    else some ino

def takeInode (i ino : Nat) (isDir : Bool) : Vol :=
  let v := { v with ibit := update v.ibit ino true }.dirty.touch
  { v.dirty with
    gdFreeInodes := update v.gdFreeInodes i ((v.gdFreeInodes i + 65535) % 65536)
    gdUsedDirs := if isDir then
      update v.gdUsedDirs i ((v.gdUsedDirs i + 1) % 65536) else v.gdUsedDirs
    freeInodes := v.freeInodes - 1
    sbFreeBlocks := v.freeBlocks
    sbFreeInodes := v.freeInodes - 1 }

def inodeLoop (start : Nat) (isDir : Bool) : List Nat → Vol → Vol × Nat
  | [], v => (v, 0)
  | n :: ns, v =>
    let i := (start + n) % g.groupCount
    let v := v.touch
    match v.inodeIn g i with
    | some ino => (v.takeInode i ino isDir, ino)
    | none => inodeLoop start isDir ns v

/-- `inode_alloc`: an inode number, or `0`. -/
def inodeAlloc (isDir : Bool) (parentGroup : Nat) : Vol × Nat :=
  if v.freeInodes = 0 then (v, 0)
  else
    let start := if isDir then v.bestGroup g parentGroup else parentGroup
    v.touch.inodeLoop g (if g.groupCount ≤ start then 0 else start) isDir (List.range g.groupCount)

def inodeFree (ino : Nat) (wasDir : Bool) : Vol :=
  if (ino < g.firstIno ∧ ino ≠ 2) ∨ ino = 0 ∨ g.inodesCount < ino then v
  else
    let i := (ino - 1) / g.inodesPerGroup
    let v := v.touch
    if v.ibit ino then
      let v := { v with ibit := update v.ibit ino false }.dirty.touch
      { v.dirty with
        gdFreeInodes := update v.gdFreeInodes i ((v.gdFreeInodes i + 1) % 65536)
        gdUsedDirs := if wasDir then
          update v.gdUsedDirs i ((v.gdUsedDirs i + 65535) % 65536) else v.gdUsedDirs
        freeInodes := v.freeInodes + 1
        sbFreeBlocks := v.freeBlocks
        sbFreeInodes := v.freeInodes + 1 }
    else v

end Vol

end Sage040.Fs
