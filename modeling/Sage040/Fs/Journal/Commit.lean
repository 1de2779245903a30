import Sage040.Fs.Journal.Format

/-!
# The block cache and the commit

Metadata dirtied by a call stays in the cache, pinned, as the running transaction.
`journal_commit` writes file data home, then the log — the copies, the descriptor, the journal
superblock, the commit block — and only then the pinned buffers themselves.

The cache is the array `bcache`; a buffer is named by its index. `pick_victim` is where the cache
and the journal meet: it never evicts a pinned buffer, and commits if there is no other.
-/

namespace Sage040.Ext2

/-! ## The cache -/

def State.setBuf (s : State) (i : Fin nbuf) (b : Bbuf) : State :=
  { s with bcache := Function.update s.bcache i b }

def bflush (i : Fin nbuf) : M Unit := do
  let b := (← get).bcache i
  if b.valid && b.dirty then
    bwriteRaw b.blk b.data
    modify fun s => s.setBuf i { b with dirty := false }

/-- Every dirty buffer home, metadata included. -/
def bcacheFlushRaw : M Unit :=
  (List.finRange nbuf).forM fun i => do
    bflush i
    modify fun s => s.setBuf i { s.bcache i with meta_ := false }

/-- A buffer of the running transaction. -/
def Bbuf.pinned (b : Bbuf) : Bool := b.valid && b.dirty && b.meta_

def Bbuf.dirtyData (b : Bbuf) : Bool := b.valid && b.dirty && !b.meta_

/-! ## The commit -/

variable (v : Volume)

/-- The `i`-th tag of a descriptor, at offset `tag` of `jbuf`; the first is followed by the UUID. -/
def putTag (jbuf : Block) (i tag blk flags : Nat) : Block :=
  let jbuf := ((jbuf.putBe32 tag blk).putBe16 (tag + 4) 0).putBe16 (tag + 6) flags
  if i = 0 then jbuf.blit (tag + jbdTagBytes) v.jUuid 0 16 else jbuf

/-- Offset of the tag after the `i`-th. -/
def tagAfter (i tag : Nat) : Nat := if i = 0 then tag + jbdTagBytes + 16 else tag + jbdTagBytes

/-- What a log entry is a copy of: a pinned buffer, or (`none`) the superblock's block. -/
def logEntry : Option (Fin nbuf) → M (Nat × Block)
  | some j => return (((← get).bcache j).blk, ((← get).bcache j).data)
  | none => return (v.sbBlock, ← sbBlockImage v)

/-- Copy the entries into the log from journal block `pos` on, building the descriptor in `jbuf`.
Returns the descriptor and the journal block after the last copy. -/
def logEntries (v : Volume) : List (Option (Fin nbuf)) → (i tag pos : Nat) → (jbuf : Block) →
    M (Block × Nat)
  | [], _, _, pos, jbuf => return (jbuf, pos)
  | e :: es, i, tag, pos, jbuf => do
    let (blk, data) ← logEntry v e
    let flags ← jlogBlock v pos data (if i = 0 then 0 else jbdFlagSameUuid)
    let flags := if es.isEmpty then flags ||| jbdFlagLastTag else flags
    logEntries v es (i + 1) (tagAfter i tag) (v.jnext pos) (putTag v jbuf i tag blk flags)

/-- A commit block, with the time in its `h_commit_sec`. -/
def commitBlock (seq now : Nat) : Block := (jheader jbdCommit seq).putBe32 52 now

/-- The buffers of the running transaction, in the order they are logged. -/
def pinnedIdx (s : State) : List (Fin nbuf) :=
  (List.finRange nbuf).filter fun i => (s.bcache i).pinned

/-- Step 2 of a commit, the log: the copies, their descriptor, where they are, and the commit
block. -/
def writeLog (now seq : Nat) (entries : List (Option (Fin nbuf))) : M Unit := do
  let (jbuf, pos) ← logEntries v entries 0 jbdHeader (v.jnext v.jFirst) (jheader jbdDescriptor seq)
  jwrite v v.jFirst jbuf
  jsbSet v v.jFirst seq
  jwrite v pos (commitBlock seq now)

/-- Step 3, the checkpoint: every copy home. -/
def checkpoint (withSb : Bool) : M Unit := do
  bcacheFlushRaw
  if withSb then sbWrite v

/-- Steps 2 to 4: the log, the checkpoint, and the log empty again. -/
def commitTxn (now : Nat) (idx : List (Fin nbuf)) (withSb : Bool) : M Unit := do
  let seq := (← get).jSeq
  writeLog v now seq (idx.map some ++ (if withSb then [none] else []))
  checkpoint v withSb
  modify fun s => { s with jSeq := (seq + 1) % 2 ^ 32 }
  jsbSet v 0 ((seq + 1) % 2 ^ 32)
  modify fun s => { s with txnOpen := false, journalCommits := s.journalCommits + 1 }

def journalCommit (now : Nat) : M Unit := do
  if !(← get).journalOn then bcacheFlushRaw
  else
    let idx := pinnedIdx (← get)
    let withSb := (← get).sbDirty
    -- file data home first: ordered mode
    (List.finRange nbuf).forM fun i => do
      if ((← get).bcache i).dirtyData then bflush i
    modify fun s => { s with commitDue := false }
    if idx.isEmpty && !withSb then modify fun s => { s with txnOpen := false }
    else commitTxn v now idx withSb

/-! ## Getting and dirtying buffers -/

/-- One look through the cache for a buffer to reuse: the first empty one, or else the least
recently used of those that are not pinned. -/
def victimScan (s : State) : List (Fin nbuf) → Option (Fin nbuf) → Option (Fin nbuf)
  | [], victim => victim
  | i :: is, victim =>
    if !(s.bcache i).valid then some i
    else if (s.bcache i).pinned then victimScan s is victim
    else match victim with
      | none => victimScan s is (some i)
      | some j =>
        if (s.bcache i).stamp < (s.bcache j).stamp then victimScan s is (some i)
        else victimScan s is (some j)

def pickVictim (now : Nat) : M (Option (Fin nbuf)) := do
  match victimScan (← get) (List.finRange nbuf) none with
  | some i =>
    bflush i
    return some i
  | none =>
    modify fun s => { s with journalForced := s.journalForced + 1 }
    journalCommit v now
    match victimScan (← get) (List.finRange nbuf) none with
    | some i =>
      bflush i
      return some i
    | none =>
      modify fun s => { s with journalForced := s.journalForced + 1 }
      journalCommit v now
      return none

/-- The buffer that holds `blk`, if one does. -/
def cached (s : State) (blk : Nat) : Option (Fin nbuf) :=
  (List.finRange nbuf).find? fun i => (s.bcache i).valid && (s.bcache i).blk == blk

/-- `++bclock` goes into the buffer's stamp. -/
def touch (i : Fin nbuf) : M Unit :=
  modify fun s => { s.setBuf i { s.bcache i with stamp := (s.bclock + 1) % 2 ^ 32 } with
    bclock := (s.bclock + 1) % 2 ^ 32 }

/-- What `bget` and `bget_zero` have in common: the buffer that holds `blk`, as `found` leaves it,
or one that `pick_victim` freed, as `fresh` fills it. -/
def getBuffer (now blk : Nat) (found fresh : Fin nbuf → State → State) : M (Option (Fin nbuf)) := do
  if blk ≥ v.blocksCount then return none
  match cached (← get) blk with
  | some i =>
    modify (found i)
    touch i
    return some i
  | none =>
    match ← pickVictim v now with
    | none => return none
    | some i =>
      modify (fresh i)
      touch i
      return some i

/-- The buffer of a block, read from the disk if it is not in the cache. -/
def bget (now blk : Nat) : M (Option (Fin nbuf)) :=
  getBuffer v now blk (fun _ s => s) fun i s => s.setBuf i { s.bcache i with
    data := s.disk blk, blk := blk, valid := true, dirty := false, meta_ := false }

/-- A zeroed buffer for a block that is about to be overwritten: dirty as file contents, unless it
is in the cache as metadata already. -/
def bgetZero (now blk : Nat) : M (Option (Fin nbuf)) :=
  getBuffer v now blk
    (fun i s => s.setBuf i { s.bcache i with
      data := Bytes.zero, blk := blk, valid := true, dirty := true })
    fun i s => s.setBuf i { s.bcache i with
      data := Bytes.zero, blk := blk, valid := true, dirty := true, meta_ := false }

/-- Dirty metadata: with a journal the buffer joins the running transaction. -/
def bdirty (jiffies : Nat) (i : Fin nbuf) : M Unit :=
  modify fun s =>
    let b := { s.bcache i with dirty := true }
    if s.journalOn then
      { s.setBuf i { b with meta_ := true } with
        txnOpen := true, txnStarted := if s.txnOpen then s.txnStarted else jiffies }
    else s.setBuf i b

def bdirtyData (i : Fin nbuf) : M Unit :=
  modify fun s => s.setBuf i { s.bcache i with dirty := true }

/-- Drop a freed block from the cache without writing it. -/
def bforget (blk : Nat) : M Unit :=
  (List.finRange nbuf).forM fun i => do
    let b := (← get).bcache i
    if b.valid && b.blk == blk then
      modify fun s => s.setBuf i { b with valid := false, dirty := false, meta_ := false }

end Sage040.Ext2
