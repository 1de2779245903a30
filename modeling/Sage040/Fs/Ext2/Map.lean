import Sage040.Fs.Ext2.Volume

/-!
# The block map and a file's contents

Twelve direct entries, then singly, doubly and triply indirect blocks, as `fs/ext2.c` reads, fills
and frees them: `bmap`, `free_branch` and `inode_truncate_blocks`, and over them `inode_read`,
`inode_write` and `inode_set_size`. All of them work on an inode in memory, which their callers
write back or do not.
-/

namespace Sage040.Fs

open Function

/-- `map_path`: the entry of `i_block` and the indices to take from there. -/
def mapPath (n iblk : Nat) : Option (Nat × List Nat) :=
  if iblk < 12 then some (iblk, [])
  else if iblk - 12 < n then some (12, [iblk - 12])
  else if iblk - 12 - n < n * n then
    let i := iblk - 12 - n
    some (13, [i / n, i % n])
  else
    let i := iblk - 12 - n - n * n
    if i / n / n < n then some (14, [i / (n * n), i / n % n, i % n]) else none

namespace Vol

variable (g : Geometry) (v : Vol)

def bgetZero (b : Nat) : Vol := v.touch.setData b Bytes.zero

/-- The rest of `bmap`'s path, from block `b` down. -/
def descend (alloc : Bool) : List Nat → Nat → Vol → Einode → Vol × Einode × Except Errno Nat
  | [], b, v, ei => (v, ei, .ok b)
  | i :: p, b, v, ei =>
    if g.blocksCount ≤ b then (v, ei, .error .eio)
    else
      let v := v.touch
      let next := (v.data b).le32 (4 * i)
      if next ≠ 0 then descend alloc p next v ei
      else if alloc = false then (v, ei, .ok 0)
      else
        let r := v.blockAlloc g b
        if r.2 = 0 then (r.1, ei, .error .enospc)
        else
          -- the table is fetched again: allocating may have evicted its buffer
          let v := (r.1.bgetZero r.2).touch
          let v := (v.setData b ((v.data b).putLe32 (4 * i) r.2)).dirty
          descend alloc p r.2 v { ei with blocks := ei.blocks + g.blockSize / 512 }

/-- `bmap`: the block behind file block `iblk`, `0` for a hole. -/
def bmap (ei : Einode) (iblk : Nat) (alloc : Bool) : Vol × Einode × Except Errno Nat :=
  match mapPath g.addrs iblk with
  | none => (v, ei, .error .efbig)
  | some (s, p) =>
    if ei.block s ≠ 0 then v.descend g alloc p (ei.block s) ei
    else if alloc = false then (v, ei, .ok 0)
    else
      let goal := if ei.block 0 ≠ 0 then (ei.block 0 + iblk) % 2 ^ 32 else v.allocGoal
      let r := v.blockAlloc g goal
      if r.2 = 0 then (r.1, ei, .error .enospc)
      else (r.1.bgetZero r.2).descend g alloc p r.2
        { ei.setBlock s r.2 with blocks := ei.blocks + g.blockSize / 512 }

/-! ## Giving blocks back -/

/-- What `free_branch` hands on: the volume, `i_blocks`, and whether all of the branch is gone. -/
structure Freeing where
  v : Vol
  blocks : Nat
  gone : Bool

def freeOne (blocks b : Nat) : Freeing :=
  ⟨v.blockFree g b, blocks - g.blockSize / 512, true⟩

/-- One entry of the table in block `b`; `branch` gives back what hangs from it. -/
def freeEntry (branch : Nat → Nat → Vol → Nat → Freeing) (span first b : Nat) (r : Freeing)
    (i : Nat) : Freeing :=
  let v := r.v.touch
  let entry := (v.data b).le32 (4 * i)
  if entry = 0 then { r with v := v }
  -- entirely before the cut
  else if (i + 1) * span ≤ first then ⟨v, r.blocks, false⟩
  else
    let s := branch entry (first - i * span) v r.blocks
    if s.gone then
      let v := s.v.touch
      ⟨(v.setData b ((v.data b).putLe32 (4 * i) 0)).dirty, s.blocks, r.gone⟩
    else { s with gone := false }

/-- `free_branch`: gives back what hangs from block `b` at `level`, from its file block `first` on.
-/
def freeBranch : Nat → Nat → Nat → Vol → Nat → Freeing
  | 0, b, _, v, blocks => if b = 0 then ⟨v, blocks, true⟩ else freeOne g v blocks b
  | level + 1, b, first, v, blocks =>
    if b = 0 then ⟨v, blocks, true⟩
    else if g.blocksCount ≤ b then ⟨v, blocks, false⟩
    else
      let r := (List.range g.addrs).foldl
        (freeEntry (freeBranch level) (g.addrs ^ level) first b) ⟨v, blocks, true⟩
      if r.gone then freeOne g r.v r.blocks b else r

def truncDirect (r : Vol × Einode) (s : Nat) : Vol × Einode :=
  if r.2.block s = 0 then r
  else (r.1.blockFree g (r.2.block s), { r.2.setBlock s 0 with blocks :=
    r.2.blocks - g.blockSize / 512 })

def truncBranch (s level first : Nat) (r : Vol × Einode) : Vol × Einode :=
  let f := freeBranch g level (r.2.block s) first r.1 r.2.blocks
  let ei := { r.2 with blocks := f.blocks }
  (f.v, if f.gone then ei.setBlock s 0 else ei)

/-- `inode_truncate_blocks`: every block from file block `start` on. -/
def truncateBlocks (ei : Einode) (start : Nat) : Vol × Einode :=
  let n := g.addrs
  let r := (List.range' start (12 - start)).foldl (truncDirect g) (v, ei)
  let ind := start - 12
  let r := if ind < n then truncBranch g 12 1 ind r else r
  let dind := ind - n
  let r := if dind < n * n then truncBranch g 13 2 dind r else r
  truncBranch g 14 3 (dind - n * n) r

/-! ## File data -/

/-- Bytes of the block that `pos` is in, at most `len`. -/
def stretch (pos len : Nat) : Nat := min (g.blockSize - pos % g.blockSize) len

/-- The loop of `inode_read`, which has `len` more bytes to read from `pos`; `got` is what it has.
-/
def readLoop (ei : Einode) : Nat → Nat → Nat → List UInt8 → Vol → Vol × List UInt8 × Option Errno
  | 0, _, _, got, v => (v, got, none)
  | fuel + 1, pos, len, got, v =>
    if len = 0 then (v, got, none)
    else
      let n := stretch g pos len
      match v.bmap g ei (pos / g.blockSize) false with
      | (v, _, .error e) => (v, got, some e)
      | (v, _, .ok b) =>
        if b ≠ 0 ∧ g.blocksCount ≤ b then (v, got, some .eio)
        else
          -- a hole reads as zeroes
          let c := if b = 0 then Bytes.zero else v.data b
          let part := (List.range n).map fun i => c (pos % g.blockSize + i)
          readLoop ei fuel (pos + n) (len - n) (got ++ part) v.touch

/-- `inode_read`: what the buffer holds, and what is returned. -/
def inodeRead (ei : Einode) (pos len : Nat) : Vol × List UInt8 × Except Errno Int :=
  if ei.size ≤ pos then (v, [], .ok 0)
  else
    let r := v.readLoop g ei len pos (min len (ei.size - pos)) []
    (r.1, r.2.1, match r.2.2 with
      | some e => if r.2.1 = [] then .error e else .ok (toS32 r.2.1.length)
      | none => .ok (toS32 r.2.1.length))

/-- The loop of `inode_write`, with the bytes still to be written from `pos` on. -/
def writeLoop : Nat → Nat → List UInt8 → Vol → Einode → Vol × Einode × List UInt8
  | 0, _, rest, v, ei => (v, ei, rest)
  | fuel + 1, pos, rest, v, ei =>
    if rest = [] then (v, ei, rest)
    else
      let n := stretch g pos rest.length
      match v.bmap g ei (pos / g.blockSize) true with
      | (v, ei, .error _) => (v, ei, rest)
      | (v, ei, .ok b) =>
        if g.blocksCount ≤ b then (v, ei, rest)
        else
          let v := v.touch
          let off := pos % g.blockSize
          let c : Bytes := fun i =>
            if off ≤ i ∧ i < off + n then rest.getD (i - off) 0 else v.data b i
          let next := (pos + n) % 2 ^ 32
          writeLoop fuel next (rest.drop n) (v.setData b c) { ei with size := max ei.size next }

/-- `inode_write`: how many of the bytes were written. -/
def inodeWrite (ei : Einode) (pos : Nat) (bytes : List UInt8) : Vol × Einode × Except Errno Int :=
  let r := v.writeLoop g bytes.length pos bytes ei
  let done := bytes.length - r.2.2.length
  (r.1, r.2.1, if done = 0 ∧ bytes ≠ [] then .error .enospc else .ok (toS32 done))

/-- The bytes of a block from `off` on are zeroed. -/
def zeroTail (c : Bytes) (off : Nat) : Bytes := fun i => if off ≤ i then 0 else c i

/-- The tail of the last block of a file cut off at `len`. -/
def clearTail (ei : Einode) (len : Nat) : Vol :=
  if len % g.blockSize = 0 then v
  else match v.bmap g ei (len / g.blockSize) false with
    | (v, _, .ok b) =>
      if b = 0 ∨ g.blocksCount ≤ b then v
      else v.touch.setData b (zeroTail (v.touch.data b) (len % g.blockSize))
    | (v, _, .error _) => v

/-- `inode_set_size`. The first block to go is computed in 32 bits. -/
def inodeSetSize (ei : Einode) (len : Nat) : Vol × Einode :=
  if len < ei.size then
    let r := truncateBlocks g (v.clearTail g ei len) ei
      ((len + g.blockSize - 1) % 2 ^ 32 / g.blockSize)
    (r.1, { r.2 with size := len })
  else (v, { ei with size := len })

end Vol

end Sage040.Fs
