import Sage040.Basic
import Sage040.Lib.Bytes
import Sage040.Lib.Writes

/-!
# The journal on the disk

`fs/ext2.c` keeps ext3's log in the JBD format: a journal superblock in the journal's block 0, and
a circular log of descriptor, copy, revoke and commit blocks from `j_first` to `j_maxlen - 1`.
This file has the volume's geometry, the state of a mounted volume, and the functions that read
and write single journal blocks.

The device takes whole blocks in order and without errors. `State.disk` is what it holds and
`State.written` is the list of the writes it was given, so that stopping the machine after any one
of them can be described.
-/

namespace Sage040.Ext2

/-- A block's bytes. What lies past `block_size` is never looked at. -/
abbrev Block := Bytes

/-- The device, by block number. -/
abbrev Disk := Nat → Block

/-! ## Constants -/

/-- `NBUF`. -/
def nbuf : Nat := 64

/-- Byte offset of the superblock, `EXT2_SUPER_OFF`. -/
def superOff : Nat := 1024

/-- `JBD_MAGIC`, which starts every header of the log. -/
def jbdMagic : Nat := 0xC03B3998
/-- `JBD_DESCRIPTOR`. -/
def jbdDescriptor : Nat := 1
/-- `JBD_COMMIT`. -/
def jbdCommit : Nat := 2
/-- `JBD_SB_V2`. -/
def jbdSbV2 : Nat := 4
/-- `JBD_REVOKE`. -/
def jbdRevoke : Nat := 5

/-- The copy had the magic number at its start, which was taken out. -/
def jbdFlagEscape : Nat := 1
/-- The tag has no UUID behind it. -/
def jbdFlagSameUuid : Nat := 2
/-- The last tag of its descriptor. -/
def jbdFlagLastTag : Nat := 8

/-- Where the journal superblock has the block size. -/
def jsBlocksize : Nat := 12
/-- Where it has the length of the log. -/
def jsMaxlen : Nat := 16
/-- Where it has the first block of the log. -/
def jsFirst : Nat := 20
/-- Where it has the sequence number that comes next. -/
def jsSequence : Nat := 24
/-- Where it has the start of the log, or 0 if that is empty. -/
def jsStart : Nat := 28
/-- Where it has the UUID. -/
def jsUuid : Nat := 48

/-- The size of a header. -/
def jbdHeader : Nat := 12

/-- The size of a tag. -/
def jbdTagBytes : Nat := 8

/-! ## The volume -/

/-- The volume block that holds the superblock. -/
def sbBlockOf (blockSize : Nat) : Nat := if blockSize = 1024 then 1 else 0

/-- A volume with a journal that `journal_setup` accepts: the geometry a mount reads once and never
changes, and what makes it a sound one. -/
structure Volume where
  blockSize : Nat
  blocksCount : Nat
  /-- Journal blocks, the journal superblock included. -/
  jMaxlen : Nat
  /-- The first block of the log proper. -/
  jFirst : Nat
  /-- Journal block to volume block. -/
  jmap : Nat → Nat
  jUuid : Bytes
  /-- `1024 << s_log_block_size`, with the exponent at most 2. -/
  blockSize_eq : blockSize = 1024 ∨ blockSize = 2048 ∨ blockSize = 4096
  jFirst_ne_zero : jFirst ≠ 0
  /-- A whole cache of copies, their descriptor and the commit block fit without wrapping. -/
  room : jFirst + nbuf + 8 ≤ jMaxlen
  /-- The journal is the contents of a file whose size is a 32-bit number of bytes. -/
  jMaxlen_mul_lt : jMaxlen * blockSize < 2 ^ 32
  /-- No volume block is two journal blocks. -/
  jmap_inj : ∀ i < jMaxlen, ∀ j < jMaxlen, jmap i = jmap j → i = j
  /-- The journal is not where the superblock is. -/
  jmap_ne_sbBlock : ∀ i < jMaxlen, jmap i ≠ sbBlockOf blockSize
  sbBlock_lt : sbBlockOf blockSize < blocksCount
  blocksCount_le : blocksCount ≤ 2 ^ 32

namespace Volume

variable (v : Volume)

/-- The block that the superblock is in. -/
def sbBlock : Nat := sbBlockOf v.blockSize

/-- Offset of the superblock in the block that holds it. -/
def sbOff : Nat := superOff - v.sbBlock * v.blockSize

/-- `b` is one of the journal's own blocks. -/
def InJournal (b : Nat) : Prop := ∃ i < v.jMaxlen, v.jmap i = b

/-- The log is circular from `j_first` to `j_maxlen - 1`. -/
def jnext (pos : Nat) : Nat := if pos + 1 ≥ v.jMaxlen then v.jFirst else pos + 1

lemma blockSize_ge : 1024 ≤ v.blockSize := by
  rcases v.blockSize_eq with h | h | h <;> omega

lemma jMaxlen_pos : 0 < v.jMaxlen := by
  have := v.room
  omega

lemma jMaxlen_lt : v.jMaxlen < 2 ^ 22 := by
  have h := v.jMaxlen_mul_lt
  have h' : v.jMaxlen * 1024 ≤ v.jMaxlen * v.blockSize := Nat.mul_le_mul_left _ v.blockSize_ge
  omega

lemma jnext_lt (pos : Nat) : v.jnext pos < v.jMaxlen := by
  have h := v.room
  unfold jnext
  split <;> omega

lemma inJournal_jmap {i : Nat} (h : i < v.jMaxlen) : v.InJournal (v.jmap i) := ⟨i, h, rfl⟩

end Volume

/-! ## The mounted volume's state -/

/-- `struct bbuf`, a buffer of the cache. -/
structure Bbuf where
  data : Block
  blk : Nat
  /-- For the least-recently-used choice. -/
  stamp : Nat
  valid : Bool
  dirty : Bool
  /-- Dirty metadata of the running transaction: pinned. -/
  meta_ : Bool

/-- Revoke records gathered by a recovery: `(block, sequence)` pairs in pages. -/
structure RevokeTable where
  entries : List (Nat × Nat)
  /-- Pages in hand, `revoke_page[0 .. pages - 1]`. -/
  pages : Nat
  /-- How often `pmm_alloc` has been asked. -/
  asked : Nat

/-- No block is revoked. -/
def RevokeTable.empty : RevokeTable := ⟨[], 0, 0⟩

/-- A mounted volume: the device under it and what the driver keeps in memory. -/
structure State where
  disk : Disk
  /-- Every write the device was given, oldest first. -/
  written : List (Nat × Block)
  bcache : Fin nbuf → Bbuf
  bclock : Nat
  /-- The superblock's bytes are at `superOff`. -/
  sbuf : Bytes
  sbDirty : Bool
  journalOn : Bool
  journalForced : Nat
  journalCommits : Nat
  txnOpen : Bool
  txnStarted : Nat
  commitDue : Bool
  jSeq : Nat
  revoke : RevokeTable

/-- The driver's memory before a mount: nothing is cached and nothing is pending. -/
def State.boot (disk : Disk) : State where
  disk := disk
  written := []
  bcache := fun _ => ⟨Bytes.zero, 0, 0, false, false, false⟩
  bclock := 0
  sbuf := Bytes.zero
  sbDirty := false
  journalOn := false
  journalForced := 0
  journalCommits := 0
  txnOpen := false
  txnStarted := 0
  commitDue := false
  jSeq := 0
  revoke := .empty

/-- The driver's code: an error leaves behind what was done before it. -/
abbrev M := EStateM Errno State

/-! ## Blocks and the superblock -/

/-- The block is on the device. -/
def State.wrote (s : State) (blk : Nat) (data : Block) : State :=
  { s with disk := Function.update s.disk blk data, written := s.written ++ [(blk, data)] }

/-- `bwrite_raw`. -/
def bwriteRaw (blk : Nat) (data : Block) : M Unit := modify fun s => s.wrote blk data

/-- `bread_raw`. -/
def breadRaw (blk : Nat) : M Block := return (← get).disk blk

variable (v : Volume)

/-- The block `b` with the superblock in `sbuf` laid over its 1024 bytes. -/
def Volume.overlay (b : Block) (sbuf : Bytes) : Block :=
  b.blit v.sbOff sbuf superOff 1024

/-- `sb_write` writes the superblock's two sectors only; seen from the block that holds them, the
rest of the block stays as it is on the disk. -/
def sbWrite : M Unit := do
  let s ← get
  if s.sbDirty then
    bwriteRaw v.sbBlock (v.overlay (s.disk v.sbBlock) s.sbuf)
    modify fun s => { s with sbDirty := false }

/-- `sb_read`: the superblock out of its block. -/
def sbRead : M Unit :=
  modify fun s => { s with sbuf := s.sbuf.blit superOff (s.disk v.sbBlock) v.sbOff 1024 }

/-- The superblock's block as it should read now. -/
def sbBlockImage : M Block := do
  let out ← breadRaw v.sbBlock
  return v.overlay out (← get).sbuf

/-! ## Journal blocks -/

/-- `jread`: a block of the log by its place. -/
def jread (pos : Nat) : M Block :=
  if pos < v.jMaxlen then breadRaw (v.jmap pos) else throw .eio

/-- `jwrite`. -/
def jwrite (pos : Nat) (data : Block) : M Unit :=
  if pos < v.jMaxlen then bwriteRaw (v.jmap pos) data else throw .eio

/-- `jheader`: a block with nothing but a header. -/
def jheader (type seq : Nat) : Block :=
  ((Bytes.zero.putBe32 0 jbdMagic).putBe32 4 type).putBe32 8 seq

/-- A journal superblock with its start and sequence replaced. -/
def jsbWith (b : Block) (start seq : Nat) : Block :=
  (b.putBe32 jsStart start).putBe32 jsSequence seq

/-- `jsb_set`: where the log starts, and the next sequence number. -/
def jsbSet (start seq : Nat) : M Unit := do
  let jbuf ← jread v 0
  jwrite v 0 (jsbWith jbuf start seq)

/-- A copy as it goes into the log: one that begins with the journal's magic number would be taken
for a log block, so those four bytes are cleared and the tag says so. -/
def escaped (data : Block) : Block :=
  if data.be32 0 = jbdMagic then data.putBe32 0 0 else data

/-- `jlog_block`: a copy in the log, and the place after it. -/
def jlogBlock (pos : Nat) (data : Block) (flags : Nat) : M Nat := do
  jwrite v pos (escaped data)
  return if data.be32 0 = jbdMagic then flags ||| jbdFlagEscape else flags

/-- The journal superblock `journal_reinit` makes. -/
def freshJsb (blockSize maxlen : Nat) (uuid : Bytes) : Block :=
  let b := (Bytes.zero.putBe32 0 jbdMagic).putBe32 4 jbdSbV2
  let b := ((b.putBe32 jsBlocksize blockSize).putBe32 jsMaxlen maxlen).putBe32 jsFirst 1
  let b := (b.putBe32 jsSequence 1).putBe32 jsStart 0
  (b.blit jsUuid uuid 0 16).putBe32 64 1

/-- `journal_reinit` over a journal inode of `size` bytes whose block 0 is `jmap[0]`. -/
def journalReinit (size : Nat) (uuid : Bytes) : M Unit :=
  let maxlen := size / v.blockSize
  if maxlen < nbuf + 16 then throw .eio
  else bwriteRaw (v.jmap 0) (freshJsb v.blockSize maxlen uuid)

section Header

variable (type seq : Nat)

@[simp] lemma jheader_be32_magic : (jheader type seq).be32 0 = jbdMagic := by
  rw [jheader, Bytes.be32_putBe32_of_disjoint (by omega), Bytes.be32_putBe32_of_disjoint (by omega),
    Bytes.be32_putBe32, jbdMagic, Nat.mod_eq_of_lt (by decide)]

@[simp] lemma jheader_be32_type : (jheader type seq).be32 4 = type % 2 ^ 32 := by
  rw [jheader, Bytes.be32_putBe32_of_disjoint (by omega), Bytes.be32_putBe32]

@[simp] lemma jheader_be32_seq : (jheader type seq).be32 8 = seq % 2 ^ 32 := by
  rw [jheader, Bytes.be32_putBe32]

end Header

/-! ## Running them -/

/-- The state after the device took the writes, in order. -/
def State.wroteAll (s : State) (ws : List (Nat × Block)) : State :=
  { s with disk := applyWrites ws s.disk, written := s.written ++ ws }

@[simp] lemma State.wroteAll_nil (s : State) : s.wroteAll [] = s := by
  simp [State.wroteAll]

lemma State.wrote_eq (s : State) (b : Nat) (x : Block) : s.wrote b x = s.wroteAll [(b, x)] := by
  simp [State.wroteAll, State.wrote]

lemma State.wroteAll_append (s : State) (us ws : List (Nat × Block)) :
    s.wroteAll (us ++ ws) = (s.wroteAll us).wroteAll ws := by
  simp [State.wroteAll, applyWrites_append]

variable {v : Volume} {s : State}

lemma get_run : (get : M State).run s = .ok s s := rfl

lemma modify_run (f : State → State) : (modify f : M Unit).run s = .ok () (f s) := rfl

lemma bwriteRaw_run (b : Nat) (x : Block) : (bwriteRaw b x).run s = .ok () (s.wrote b x) := rfl

lemma jread_run {pos : Nat} (h : pos < v.jMaxlen) :
    (jread v pos).run s = .ok (s.disk (v.jmap pos)) s := by
  rw [jread, if_pos h]
  rfl

lemma jwrite_run {pos : Nat} (h : pos < v.jMaxlen) (x : Block) :
    (jwrite v pos x).run s = .ok () (s.wrote (v.jmap pos) x) := by
  rw [jwrite, if_pos h]
  rfl

lemma jsbSet_run (start seq : Nat) : (jsbSet v start seq).run s =
      .ok () (s.wrote (v.jmap 0) (jsbWith (s.disk (v.jmap 0)) start seq)) := by
  rw [jsbSet, run_bind_of_ok (jread_run v.jMaxlen_pos)]
  exact jwrite_run v.jMaxlen_pos _

end Sage040.Ext2
