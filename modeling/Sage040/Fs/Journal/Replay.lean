import Sage040.Fs.Journal.Format

/-!
# Replaying the log

`journal_recover` walks the log twice. Pass 0 finds where the committed transactions end and puts
the revoke records it meets into a table; pass 1 writes home every copy of the committed
transactions that the table does not revoke.

The table is kept in pages asked of the page allocator, at most sixteen of them. Whether a page is
to be had is not the driver's doing: `grant n` says whether the `n`-th request is met.
-/

namespace Sage040.Ext2

/-! ## The revoke table -/

/-- `PAGE_SIZE / 8`. -/
def revokePerPage : Nat := 512

def revokePages : Nat := 16

/-- The table with `blk`'s entry raised to `seq`, if that is later. -/
def raiseEntry (blk seq : Nat) : List (Nat × Nat) → List (Nat × Nat)
  | [] => []
  | e :: es =>
    if e.1 = blk then (if s32Pos seq e.2 then (blk, seq) else e) :: es
    else e :: raiseEntry blk seq es

def revokeAdd (grant : Nat → Bool) (blk seq : Nat) (t : RevokeTable) : RevokeTable :=
  if t.entries.any fun e => e.1 = blk then
    { t with entries := raiseEntry blk seq t.entries }
  else
    let p := t.entries.length / revokePerPage
    if p ≥ revokePages then t
    else if t.pages ≤ p then
      -- the page is not there yet: `pmm_alloc`
      if grant t.asked then
        { entries := t.entries ++ [(blk, seq)], pages := p + 1, asked := t.asked + 1 }
      else { t with asked := t.asked + 1 }
    else { t with entries := t.entries ++ [(blk, seq)] }

/-- Is this block revoked by the transaction `seq` or a later one? -/
def revoked (t : RevokeTable) (blk seq : Nat) : Bool :=
  t.entries.any fun e => e.1 = blk && s32NonNeg e.2 seq

/-! ## Descriptor tags and revoke records -/

section Tags

variable (jbuf : Block) (t : Nat)

def tagBlk : Nat := jbuf.be32 t

def tagFlags : Nat := jbuf.be16 (t + 6)

/-- Where the next tag is: a tag that is not `SAME_UUID` has a UUID behind it. -/
def tagNext : Nat :=
  if tagFlags jbuf t &&& jbdFlagSameUuid = 0 then t + jbdTagBytes + 16 else t + jbdTagBytes

/-- The copy as it goes home: an escaped one gets its first four bytes back. -/
def unescaped (flags : Nat) (data : Block) : Block :=
  if flags &&& jbdFlagEscape ≠ 0 then data.putBe32 0 jbdMagic else data

def revokeRecords (blockSize : Nat) : List Nat :=
  let used := min (jbuf.be32 jbdHeader) blockSize
  (List.range ((used - (jbdHeader + 4)) / 4)).map fun i => jbuf.be32 (jbdHeader + 4 + 4 * i)

end Tags

/-! ## The passes -/

/-- One tag: its copy, in journal block `pos`, goes home unless it is revoked or names a block the
volume does not have. -/
def replayTag (v : Volume) (seq blk fl pos : Nat) : M Unit := do
  if !revoked (← get).revoke blk seq && decide (blk < v.blocksCount) then
    let jbuf2 ← jread v pos
    bwriteRaw blk (unescaped fl jbuf2)

/-- The tags of the descriptor in `jbuf` from offset `t`, their copies from journal block `pos`;
the answer is the journal block after the last copy. Every tag is eight bytes at least, so
`block_size` rounds are more than enough. -/
def descriptorTags (v : Volume) (replay : Bool) (seq : Nat) (jbuf : Block) :
    (fuel t pos : Nat) → M Nat
  | 0, _, pos => return pos
  | fuel + 1, t, pos =>
    if v.blockSize < t + jbdTagBytes then return pos
    else do
      let fl := tagFlags jbuf t
      if replay then replayTag v seq (tagBlk jbuf t) fl pos
      if fl &&& jbdFlagLastTag ≠ 0 then return v.jnext pos
      else descriptorTags v replay seq jbuf fuel (tagNext jbuf t) (v.jnext pos)

/-- One pass over the log from journal block `pos`, transaction `seq` on. `fuel` is what is left of
the `j_maxlen + 1` blocks the pass may look at before it takes the log for one that loops. -/
def journalPass (v : Volume) (grant : Nat → Bool) (replay : Bool) (end_ : Nat) :
    (fuel pos seq : Nat) → M Nat
  | 0, _, seq => return seq
  | fuel + 1, pos, seq =>
    if replay && !s32Neg seq end_ then return seq
    else do
      let jbuf ← jread v pos
      if jbuf.be32 0 ≠ jbdMagic ∨ jbuf.be32 8 ≠ seq then return seq
      else if jbuf.be32 4 = jbdDescriptor then
        let pos ← descriptorTags v replay seq jbuf v.blockSize jbdHeader (v.jnext pos)
        journalPass v grant replay end_ fuel pos seq
      else if jbuf.be32 4 = jbdCommit then
        journalPass v grant replay end_ fuel (v.jnext pos) ((seq + 1) % 2 ^ 32)
      else if jbuf.be32 4 = jbdRevoke then
        if !replay then
          modify fun s => { s with
            revoke := (revokeRecords jbuf v.blockSize).foldl
              (fun t blk => revokeAdd grant blk seq t) s.revoke }
        journalPass v grant replay end_ fuel (v.jnext pos) seq
      else return seq

def revokeFree : M Unit := modify fun s => { s with revoke := .empty }

/-- Both passes from `start`, and where the committed transactions end. -/
def journalReplay (v : Volume) (grant : Nat → Bool) (start seq : Nat) : M Nat := do
  let end_ ← journalPass v grant false 0 (v.jMaxlen + 1) start seq
  if end_ ≠ seq then
    let _ ← journalPass v grant true end_ (v.jMaxlen + 1) start seq
  return end_

/-- Replay whatever the log holds. Returns how many transactions. -/
def journalRecover (v : Volume) (grant : Nat → Bool) : M Nat := do
  let jbuf ← jread v 0
  let start := jbuf.be32 jsStart
  let seq := jbuf.be32 jsSequence
  if start = 0 then
    modify fun s => { s with jSeq := seq }
    return 0
  else
    revokeFree
    let end_ ← tryFinally (journalReplay v grant start seq) revokeFree
    modify fun s => { s with jSeq := end_ }
    jsbSet v 0 end_
    return sub32 end_ seq

end Sage040.Ext2
