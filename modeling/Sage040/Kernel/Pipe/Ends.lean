import Sage040.Kernel.Pipe.Ring

/-!
# The ends of pipes

`kernel/pipe.c` counts the open files on each end of a ring, and frees the ring with its page when
both counts are zero. Rings are used by anonymous pipes, by named ones (which join a ring by inode,
and wait for the other end) and, two at a time, by socket pairs, whose two directions are dropped
separately. This is what the calls do to the table of rings, with every way in which they can fail:
no ring, no page, no file, no descriptor, a signal.
-/

namespace Sage040.Pipe

/-- `PIPE_MAX`. -/
def pipeMax : Nat := 128

/-- `FILE_MAX`. -/
def fileMax : Nat := 256

/-- `TASK_MAX`. -/
def taskMax : Nat := 64

/-- `struct pipe`, with a token for its page. -/
structure Slot extends Ring where
  used : Bool
  page : Nat
  fifo : Option Nat
  rOpens : Nat
  wOpens : Nat

/-- `flags & O_ACCMODE`. -/
inductive Acc
  | rdonly | wronly | rdwr | three
  deriving DecidableEq, Repr

/-- What an open file is an end of. -/
inductive Side
  | pipe (p : Nat) (acc : Acc)
  | fifo (p : Nat) (acc : Acc)
  /-- `struct uend`, which belongs to one file. -/
  | sock (rx tx : Nat) (shutRd shutWr : Bool)

/-- A `struct file` of a pipe or a socket. -/
structure OpenFile where
  refs : Nat
  side : Side

/-- A task that waits in `fifo_open`. -/
structure Opening where
  pipe : Nat
  acc : Acc
  seen : Nat

/-- The pipes, the open files, and who sleeps in `open` of a FIFO. -/
structure Ends where
  pipes : Nat → Slot
  files : Nat → Option OpenFile
  opens : Nat → Option Opening
  /-- How many pages were allocated. -/
  allocated : Nat
  /-- The pages that `pmm_free` was called for. -/
  freed : List Nat

/-- The end can be read (`true`) or written. -/
def Acc.has : Acc → Bool → Bool
  | .rdonly, reader => reader
  | .wronly, reader => !reader
  | .rdwr, _ => true
  | .three, _ => false

/-- The file is a reader, or a writer, of the ring. -/
def Side.has : Side → Bool → Nat → Bool
  | .pipe q acc, reader, p => q == p && acc.has reader
  | .fifo q acc, reader, p => q == p && acc.has reader
  | .sock rx _ shutRd _, true, p => rx == p && !shutRd
  | .sock _ tx _ shutWr, false, p => tx == p && !shutWr

/-- How many readers, or writers, the ring counts. -/
def Ring.num (r : Ring) (reader : Bool) : Int := if reader then r.readers else r.writers

/-- So many more of them. -/
def Ring.add (r : Ring) (reader : Bool) (n : Int) : Ring :=
  if reader then { r with readers := r.readers + n } else { r with writers := r.writers + n }

namespace Ends

/-- Nothing is open. -/
def init : Ends :=
  ⟨fun _ => ⟨⟨⟨fun _ => 0, 0, 0⟩, 0, 0⟩, false, 0, none, 0, 0⟩, fun _ => none, fun _ => none, 0, []⟩

variable (s : Ends)

/-- One pipe is replaced. -/
def setPipe (p : Nat) (q : Slot) : Ends := { s with pipes := Function.update s.pipes p q }

/-- One file is replaced. -/
def setFile (i : Nat) (f : Option OpenFile) : Ends :=
  { s with files := Function.update s.files i f }

/-- What a thread sleeps in is replaced. -/
def setOpen (tid : Nat) (o : Option Opening) : Ends :=
  { s with opens := Function.update s.opens tid o }

/-- The ring of a pipe is replaced. -/
def setRing (p : Nat) (r : Ring) : Ends := s.setPipe p { s.pipes p with toRing := r }

/-- The ring's page is given back. -/
def freeRing (p : Nat) : Ends :=
  { s.setPipe p { s.pipes p with used := false } with freed := s.freed ++ [(s.pipes p).page] }

/-- `ring_alloc`; `mem` says whether there is a page. -/
def ringAlloc (mem : Bool) : Option (Ends × Nat) :=
  match (List.range pipeMax).find? fun p => !(s.pipes p).used with
  | none => none
  | some p =>
    if mem then
      some ({ s.setPipe p ⟨⟨⟨fun _ => 0, 0, 0⟩, 1, 1⟩, true, s.allocated, none, 0, 0⟩ with
        allocated := s.allocated + 1 }, p)
    else none

/-- `ring_put`: one end fewer, and the last gives the ring back. -/
def ringPut (p : Nat) (reader : Bool) : Ends :=
  let r := (s.pipes p).toRing.add reader (-1)
  if r.readers = 0 ∧ r.writers = 0 then (s.setRing p r).freeRing p else s.setRing p r

/-- `fd_install`; `fdOk` says whether there is a descriptor. -/
def fdInstall (fdOk : Bool) (side : Side) : Except Errno (Ends × Nat) :=
  if fdOk then
    match (List.range fileMax).find? fun i => (s.files i).isNone with
    | none => .error .enfile
    | some i => .ok (s.setFile i (some ⟨1, side⟩), i)
  else .error .emfile

/-- `pipe_close`, `fifo_close` and `usock_close`. -/
def closeSide : Side → Ends
  | .pipe p acc => s.ringPut p (acc != .wronly)
  | .fifo p acc =>
    let s := if acc = .rdwr then s.setRing p ((s.pipes p).toRing.add false (-1)) else s
    s.ringPut p (acc != .wronly)
  | .sock rx tx shutRd shutWr =>
    let s := if shutRd then s else s.ringPut rx true
    if shutWr then s else s.ringPut tx false

/-- `file_get`. -/
def fileGet (i : Nat) : Ends :=
  match s.files i with
  | none => s
  | some f => s.setFile i (some { f with refs := f.refs + 1 })

/-- `file_put`: the last one closes. -/
def filePut (i : Nat) : Ends :=
  match s.files i with
  | none => s
  | some f =>
    if 1 < f.refs then s.setFile i (some { f with refs := f.refs - 1 })
    else (s.closeSide f.side).setFile i none

/-- `pipe_create`. -/
def pipeCreate (flagsOk mem fd1 fd2 : Bool) : Ends × Except Errno (Nat × Nat) :=
  if flagsOk then
    match s.ringAlloc mem with
    | none => (s, .error .enfile)
    | some (s, p) =>
      match s.fdInstall fd1 (.pipe p .rdonly) with
      | .error e => (s.freeRing p, .error e)
      | .ok (s, r) =>
        match s.fdInstall fd2 (.pipe p .wronly) with
        | .error e => ((s.setRing p { (s.pipes p).toRing with writers := 0 }).filePut r, .error e)
        | .ok (s, w) => (s, .ok (r, w))
  else (s, .error .einval)

/-- The end of `fifo_open`. -/
def fifoInstall (p : Nat) (acc : Acc) (fdOk : Bool) : Ends × Option (Except Errno Nat) :=
  match s.fdInstall fdOk (.fifo p acc) with
  | .error e => (s.closeSide (.fifo p acc), some (.error e))
  | .ok (s, i) => (s, some (.ok i))

/-- A turn of the wait loop of `fifo_open`; with no answer the task sleeps. -/
def fifoWait (tid p : Nat) (acc : Acc) (seen : Nat) (sig fdOk : Bool) :
    Ends × Option (Except Errno Nat) :=
  let q := s.pipes p
  if q.num (!acc.has true) = 0 ∧ (if acc.has true then q.wOpens else q.rOpens) = seen then
    if sig then (s.ringPut p (acc.has true), some (.error .eintr))
    else (s.setOpen tid (some ⟨p, acc, seen⟩), none)
  else s.fifoInstall p acc fdOk

/-- The ring of a FIFO: the one that is there, or a new one with no ends. -/
def fifoRing (key : Nat) (mem : Bool) : Option (Ends × Nat) :=
  match (List.range pipeMax).find? fun p => (s.pipes p).used && (s.pipes p).fifo == some key with
  | some p => some (s, p)
  | none =>
    match s.ringAlloc mem with
    | none => none
    | some (s, p) =>
      some (s.setPipe p { s.pipes p with readers := 0, writers := 0, fifo := some key }, p)

/-- The ends that an open of a FIFO counts. -/
def fifoJoin (p : Nat) (acc : Acc) : Ends :=
  let q := s.pipes p
  let r := (acc.has true).toNat
  let w := (acc.has false).toNat
  s.setPipe p { q with
    readers := q.readers + r
    writers := q.writers + w
    rOpens := (q.rOpens + r) % 2 ^ 32
    wOpens := (q.wOpens + w) % 2 ^ 32 }

/-- `fifo_open`, up to its answer or its first sleep. -/
def fifoOpen (tid key : Nat) (acc : Acc) (nonblock mem sig fdOk : Bool) :
    Ends × Option (Except Errno Nat) :=
  match s.fifoRing key mem with
  | none => (s, some (.error .enfile))
  | some (s, p) =>
    if acc = .wronly ∧ (s.pipes p).readers = 0 ∧ nonblock = true then
      (if (s.pipes p).writers = 0 then s.freeRing p else s, some (.error .enxio))
    else
      let s := s.fifoJoin p acc
      if acc ≠ .rdwr ∧ ¬ (acc = .rdonly ∧ nonblock = true) then
        s.fifoWait tid p acc (if acc.has true then (s.pipes p).wOpens else
          (s.pipes p).rOpens) sig fdOk
      else s.fifoInstall p acc fdOk

/-- How many `struct uend`s are in use. -/
def uends : Nat :=
  (List.range fileMax).countP fun i => match s.files i with
    | some ⟨_, .sock _ _ _ _⟩ => true
    | _ => false

/-- A ring that was made and is not needed. -/
def dropBoth : Option Nat → Ends
  | none => s
  | some p => (s.ringPut p true).ringPut p false

/-- `ring_alloc`, of which nothing may come. -/
def ringTry (mem : Bool) : Ends × Option Nat :=
  match s.ringAlloc mem with
  | none => (s, none)
  | some (s, p) => (s, some p)

/-- `usock_pair`. -/
def usockPair (typeOk mem1 mem2 fd1 fd2 : Bool) : Ends × Except Errno (Nat × Nat) :=
  if typeOk then
    let n := s.uends
    let ab := s.ringTry mem1
    let ba := ab.1.ringTry mem2
    let s := ba.1
    match ab.2, ba.2 with
    | some ab, some ba =>
      if n + 2 ≤ pipeMax then
        let a := Side.sock ba ab false false
        let b := Side.sock ab ba false false
        match s.fdInstall fd1 a with
        | .error e => ((s.closeSide a).closeSide b, .error e)
        | .ok (s, fa) =>
          match s.fdInstall fd2 b with
          | .error e => ((s.filePut fa).closeSide b, .error e)
          | .ok (s, fb) => (s, .ok (fa, fb))
      else ((s.dropBoth (some ab)).dropBoth (some ba), .error .enfile)
    | ab, ba => ((s.dropBoth ab).dropBoth ba, .error .enfile)
  else (s, .error .eprotonosupport)

/-- `usock_shutdown`, of one direction. -/
def shutOne (i : Nat) (reader : Bool) : Ends :=
  match s.files i with
  | some ⟨refs, .sock rx tx shutRd shutWr⟩ =>
    if reader then
      if shutRd then s else (s.setFile i (some ⟨refs, .sock rx tx true shutWr⟩)).ringPut rx true
    else
      if shutWr then s else (s.setFile i (some ⟨refs, .sock rx tx shutRd true⟩)).ringPut tx false
  | _ => s

/-- `usock_shutdown`. -/
def usockShutdown (i : Nat) (rd wr : Bool) : Ends :=
  let s := if rd then s.shutOne i true else s
  if wr then s.shutOne i false else s

/-- A task's calls on pipes, and what it does with files. The booleans say what is to be had:
memory, descriptors, and whether a signal is pending. -/
inductive Event
  | pipeCreate (flagsOk mem fd1 fd2 : Bool)
  | fifoOpen (tid key : Nat) (acc : Acc) (nonblock mem sig fdOk : Bool)
  | fifoWake (tid : Nat) (sig fdOk : Bool)
  | usockPair (typeOk mem1 mem2 fd1 fd2 : Bool)
  | usockShutdown (file : Nat) (rd wr : Bool)
  /-- `dup`, and for each descriptor `fork`. -/
  | dup (file : Nat)
  | close (file : Nat)
  /-- Reads and writes. -/
  | data (p : Nat) (rb : RingBuffer UInt8)

/-- One event. -/
def step : Event → Ends
  | .pipeCreate flagsOk mem fd1 fd2 => (s.pipeCreate flagsOk mem fd1 fd2).1
  | .fifoOpen tid key acc nonblock mem sig fdOk =>
    -- a task that sleeps makes no call
    if tid < taskMax ∧ (s.opens tid).isNone then
    (s.fifoOpen tid key acc nonblock mem sig fdOk).1 else s
  | .fifoWake tid sig fdOk =>
    match s.opens tid with
    | none => s
    | some o =>
      if tid < taskMax then
        ((s.setOpen tid none).fifoWait tid o.pipe o.acc o.seen sig fdOk).1
      else s
  | .usockPair typeOk mem1 mem2 fd1 fd2 => (s.usockPair typeOk mem1 mem2 fd1 fd2).1
  | .usockShutdown i rd wr => s.usockShutdown i rd wr
  | .dup i => s.fileGet i
  | .close i => s.filePut i
  | .data p rb => s.setRing p { (s.pipes p).toRing with toRingBuffer := rb }

/-- One event after the other. -/
def run (evs : List Event) (s : Ends) : Ends := evs.foldl step s

end Ends

end Sage040.Pipe
