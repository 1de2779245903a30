import Sage040.Kernel.Reclock.Table

/-!
# Taking, asking for and losing record locks

`reclock_fcntl` with its arguments and error exits, and what closing a file and exiting do. A task
runs without being switched away from until it sleeps, so a call is one pass of the wait loop after
another with a sleep in between: `pass` is one of them, and leaves an answer or a sleeper. Anything
may happen while a task sleeps, and a sleeper may run again as soon as it was woken, by a change of
the table or by a signal.

`run_excludes` is mutual exclusion over every such run, and says when `F_GETLK` and `F_SETLK` agree:
they look at the same conflict, but only setting a lock looks at how the file was opened first.
-/

namespace Sage040.Reclock

/-- `O_ACCMODE` of an open file. -/
inductive Access
  | rdonly | wronly | rdwr
  deriving DecidableEq, Repr

/-- An open file description, with what `fstat` says of its size. -/
structure File where
  id : Nat
  key : Nat
  access : Access
  pos : Nat
  size : Option Nat

/-- `l_type`. -/
inductive FlockType
  | rdlck | wrlck | unlck | other
  deriving DecidableEq, Repr

/-- `l_whence`. -/
inductive Whence
  | set | cur | fromEnd | other
  deriving DecidableEq, Repr

/-- `struct lk`: both shapes of `struct flock`, with 64-bit numbers in two halves. -/
structure Lk where
  type : FlockType
  whence : Whence
  pid : Int
  startHi : Int
  start : Nat
  lenHi : Int
  len : Nat

/-- What `F_GETLK` stores. -/
structure Flock where
  type : FlockType
  start : Nat
  len : Nat
  pid : Int
  deriving DecidableEq, Repr

/-- The offset that `l_whence` counts from. -/
def base (f : File) : Whence → Except Errno Nat
  | .set => .ok 0
  | .cur => .ok f.pos
  | .fromEnd => match f.size with
    | some size => .ok size
    | none => .error .einval
  | .other => .error .einval

/-- `range_of`: both ends of the range. -/
def rangeOf (f : File) (k : Lk) : Except Errno (Nat × Nat) := do
  let base ← base f k.whence
  let start := (base + k.start) % 2 ^ 32
  let startHi := k.startHi + (if start < base then 1 else 0)
  if startHi < 0 then throw .einval
  else if 0 < startHi then throw .eoverflow
  else if k.lenHi = 0 ∧ k.len = 0 then pure (start, toEof)
  else if 0 ≤ k.lenHi then
    let stop := (start + k.len + (2 ^ 32 - 1)) % 2 ^ 32
    pure (start, if 0 < k.lenHi ∨ stop < start then toEof else stop)
  else
    -- the bytes before `start`
    let back := (2 ^ 32 - k.len) % 2 ^ 32
    if k.lenHi ≠ -1 ∨ start < back then throw .einval
    else pure (start - back, (start + (2 ^ 32 - 1)) % 2 ^ 32)

lemma rangeOf_error {f : File} {k : Lk} {e : Errno} (h : rangeOf f k = .error e) : e = .einval ∨
    e = .eoverflow := by
  have hbase : ∀ e, base f k.whence = .error e → e = .einval := by
    intro e he
    rw [base.eq_def] at he
    split at he
    · simp at he
    · simp at he
    · split at he
      · simp at he
      · exact (Except.error.inj he).symm
    · exact (Except.error.inj he).symm
  rw [rangeOf] at h
  rcases hb : base f k.whence with e' | b
  · rw [hb] at h
    exact .inl (Except.error.inj h ▸ hbase e' hb)
  rw [hb] at h
  simp only [bind, Except.bind, throw, throwThe, MonadExceptOf.throw, pure, Except.pure] at h
  grind

/-- `F_GETLK`, `F_SETLK` and `F_SETLKW`, or their `F_OFD_` counterparts. -/
inductive Op
  | get | set | setw
  deriving DecidableEq, Repr

/-- One `fcntl`, by a thread of a process. `arg` is what can be fetched, and `storable` says whether
an answer can be stored. -/
structure Call where
  tid : Nat
  pid : Nat
  file : Option File
  op : Op
  ofd : Bool
  arg : Option Lk
  storable : Bool

/-- What is asked for, once the arguments are read; `none` is `F_UNLCK`. -/
structure Req where
  tid : Nat
  pid : Nat
  span : Span
  type : Option LockType
  blocking : Bool
  deriving DecidableEq, Repr

/-- What a call returns, or stores. -/
inductive Answer
  | failed (e : Errno)
  | done
  | report (f : Flock)
  deriving DecidableEq, Repr

namespace Call

/-- What a call asks for, or why it is refused at once. -/
def read (c : Call) : Except Errno (File × Req) := do
  match c.file with
  | none => throw .ebadf
  | some f =>
    match c.arg with
    | none => throw .efault
    | some k =>
      if k.type = .other then throw .einval
      else if c.ofd = true ∧ k.pid ≠ 0 then throw .einval
      else do
        let r ← rangeOf f k
        let owner := if c.ofd then Owner.ofd f.id else .posix c.pid
        let type := match k.type with
          | .rdlck => some LockType.rd
          | .wrlck => some .wr
          | _ => none
        pure (f, ⟨c.tid, c.pid, ⟨f.key, owner, r.1, r.2⟩, type, c.op == .setw⟩)

/-- A read lock needs a descriptor open for reading, a write lock one open for writing. -/
def allowed : Access → Option LockType → Bool
  | .wronly, some .rd => false
  | .rdonly, some .wr => false
  | _, _ => true

end Call

/-- `store_lk`'s length. -/
def lenOf (s e : Nat) : Nat := if e = toEof then 0 else (e + 2 ^ 32 - s + 1) % 2 ^ 32

/-- What is stored for the lock in the way, or for none. -/
def flockOf (p : Span) : Option Lock → Flock
  | none => ⟨.unlck, p.s, lenOf p.s p.e, 0⟩
  | some l => ⟨match l.type with
      | .rd => .rdlck
      | .wr => .wrlck, l.start, lenOf l.start l.stop, match l.owner with
      | .posix pid => pid
      | .ofd _ => -1⟩

/-! ## Who waits for whom -/

/-- `WAITER_MAX`, which is `TASK_MAX`. -/
def waiterMax : Nat := 64

/-- The first entry that `f` picks is replaced. -/
def putFirst {α : Type} (f : α → Bool) (x : α) : List α → List α
  | [] => []
  | y :: ys => if f y then x :: ys else y :: putFirst f x ys

/-- Process and blocker; process `0` is a free entry. -/
abbrev Waiters := List (Nat × Nat)

/-- Whom the process waits for, or 0. -/
def Waiters.blocker (ws : Waiters) (pid : Nat) : Nat :=
    ((ws.find? fun w => w.1 == pid).map Prod.snd).getD 0

/-- `would_deadlock`, with `depth` steps to go. -/
def Waiters.wouldDeadlock (ws : Waiters) (pid : Nat) : Nat → Nat → Bool
  | 0, _ => false
  | depth + 1, blocker =>
    if blocker = 0 then false
    else if blocker = pid then true
    else wouldDeadlock ws pid depth (ws.blocker blocker)

/-- `set_waiting`. -/
def Waiters.setWaiting (ws : Waiters) (pid blocker : Nat) : Waiters :=
  if ws.any fun w => w.1 == pid then
    putFirst (fun w => w.1 == pid) (if blocker = 0 then (0, 0) else (pid, blocker)) ws
  else if blocker = 0 then ws
  else putFirst (fun w => w.1 == 0) (pid, blocker) ws

/-! ## The system -/

/-- A task in the wait loop, asleep or about to run again. -/
structure Sleeper where
  req : Req
  woken : Bool
  deriving DecidableEq, Repr

/-- The locks, who waits for whom, and who sleeps. -/
structure Sys where
  table : Table
  waiters : Waiters
  sleepers : List Sleeper

/-- The process that `F_GETLK` reports. -/
def Lock.pid (l : Lock) : Nat := match l.owner with
  | .posix pid => pid
  | .ofd _ => 0

/-- The lock is a process's and not an open file's. -/
def Owner.isPosix : Owner → Bool
  | .posix _ => true
  | .ofd _ => false

namespace Sys

/-- No locks, and nobody waits. -/
def init : Sys := ⟨List.replicate reclockMax none, List.replicate waiterMax (0, 0), []⟩

/-- Every sleeper looks again. -/
def wakeAll (s : Sys) : Sys := { s with sleepers := s.sleepers.map fun w => { w with woken := true } }

/-- A lock of another owner that conflicts. -/
def inTheWay (s : Sys) (r : Req) : Option Lock := r.type.bind (s.table.conflict r.span)

/-- The lock is set, or there is no room for it. -/
def take (s : Sys) (r : Req) : Sys × Option Answer :=
  let s := { s with waiters := s.waiters.setWaiting r.pid 0 }
  match s.table.setRange r.span r.type with
  | .error e => (s, some (.failed e))
  | .ok t => ({ s with table := t }.wakeAll, some .done)

/-- One pass of the wait loop: an answer, or one sleeper more. -/
def pass (s : Sys) (r : Req) (sig : Bool) : Sys × Option Answer :=
  match s.inTheWay r with
  | none => s.take r
  | some c =>
    if r.blocking = false then (s, some (.failed .eagain))
    else if r.span.owner.isPosix && c.owner.isPosix &&
        s.waiters.wouldDeadlock r.pid waiterMax c.pid then (s, some (.failed .edeadlk))
    else if sig then
      ({ s with waiters := s.waiters.setWaiting r.pid 0 }, some (.failed .eintr))
    else
      ({ s with
        waiters := s.waiters.setWaiting r.pid c.pid
        sleepers := s.sleepers ++ [⟨r, false⟩] }, none)

/-- `reclock_fcntl`, up to its answer or its first sleep. -/
def fcntl (s : Sys) (c : Call) (sig : Bool) : Sys × Option Answer :=
  match c.read with
  | .error e => (s, some (.failed e))
  | .ok (f, r) =>
    match c.op with
    | .get =>
      if r.type = none then (s, some (.failed .einval))
      else if c.storable = false then (s, some (.failed .efault))
      else (s, some (.report (flockOf r.span (s.inTheWay r))))
    | _ => if Call.allowed f.access r.type then s.pass r sig else (s, some (.failed .ebadf))

/-- `drop`: the locks go, and if there were any the sleepers are woken. -/
def drop (s : Sys) (f : Lock → Bool) : Sys :=
  if s.table.locks.any f then { s with table := s.table.drop f }.wakeAll else s

end Sys

/-- The calls, a sleeper that goes on, and what lets locks go. -/
inductive Event
  | call (c : Call) (sig : Bool)
  /-- A sleeper that was woken runs again. -/
  | resume (tid : Nat) (sig : Bool)
  /-- A signal wakes a sleeper. -/
  | signal (tid : Nat)
  /-- `reclock_closed`: a process closes a descriptor of the file, with `close` or `dup2`. -/
  | closed (key pid : Nat)
  /-- `reclock_file_gone`: the last reference to a description went. -/
  | gone (file : Nat)
  /-- `reclock_exit`. -/
  | exit (pid : Nat)

namespace Event

/-- One event, and the answer that a task got, if one did. -/
def step (ev : Event) (s : Sys) : Sys × Option Answer :=
  match ev with
  | call c sig => s.fcntl c sig
  | resume tid sig =>
    match s.sleepers.find? fun w => w.req.tid == tid && w.woken with
    | none => (s, none)
    | some w => { s with sleepers := s.sleepers.erase w }.pass w.req sig
  | signal tid =>
    ({ s with sleepers := s.sleepers.map fun w =>
        if w.req.tid = tid then { w with woken := true } else w }, none)
  | closed key pid => (s.drop fun l => l.key == key && l.owner == .posix pid, none)
  | gone file => (s.drop fun l => l.owner == .ofd file, none)
  | exit pid =>
    let s := s.drop fun l => l.owner == .posix pid
    ({ s with waiters := s.waiters.setWaiting pid 0 }, none)

/-- One event after the other. -/
def run (evs : List Event) (s : Sys) : Sys := evs.foldl (fun s ev => (ev.step s).1) s

end Event

/-! ## Exclusion over every run -/

namespace Sys

variable {s : Sys} {r : Req} {sig : Bool}

open Table

variable (h : s.table.Exclusive)

include h

lemma take_exclusive (hfree : s.inTheWay r = none) : (s.take r).1.table.Exclusive := by
  rw [take]
  split
  · exact h
  rename_i hset
  refine setRange_exclusive h (fun ty hty => ?_) hset
  rw [inTheWay, hty] at hfree
  exact hfree

lemma pass_exclusive : (s.pass r sig).1.table.Exclusive := by
  rw [pass]
  split
  · exact take_exclusive h ‹_›
  split
  · exact h
  split
  · exact h
  · split <;> exact h

lemma fcntl_exclusive {c : Call} : (s.fcntl c sig).1.table.Exclusive := by
  rw [fcntl]
  split
  · exact h
  split
  · split
    · exact h
    · split <;> exact h
  split
  · exact pass_exclusive h
  · exact h

lemma drop_exclusive {f : Lock → Bool} : (s.drop f).table.Exclusive := by
  rw [drop]
  split
  · exact h.within (drop_within s.table f)
  · exact h

end Sys

lemma Event.step_exclusive {ev : Event} {s : Sys} (h : s.table.Exclusive) :
    (ev.step s).1.table.Exclusive := by
  cases ev with
  | call c sig => exact Sys.fcntl_exclusive h
  | resume tid sig =>
    rw [step]
    split
    · exact h
    · exact Sys.pass_exclusive h
  | signal tid => exact h
  | closed key pid => exact Sys.drop_exclusive h
  | gone file => exact Sys.drop_exclusive h
  | exit pid => exact Sys.drop_exclusive h

lemma Event.run_exclusive (evs : List Event) {s : Sys} (h : s.table.Exclusive) :
    (run evs s).table.Exclusive := by
  induction evs generalizing s with
  | nil => exact h
  | cons ev evs ih => exact ih (step_exclusive h)

lemma Sys.init_exclusive : Sys.init.table.Exclusive := by
  intro l l' hl
  simp [init] at hl

/-! ## Asking and setting -/

/-- The descriptor was opened in a way that allows the lock. -/
def Call.Allowed (c : Call) : Prop := ∀ f r, c.read = .ok (f, r) → allowed f.access r.type = true

lemma Call.read_op (c : Call) (op : Op) : ({ c with op := op } : Call).read =
      c.read.map fun x => (x.1, { x.2 with blocking := op == .setw }) := by
  simp only [read]
  cases c.file with
  | none => rfl
  | some f =>
    cases c.arg with
    | none => rfl
    | some k =>
      dsimp only
      split
      · rfl
      split
      · rfl
      · cases rangeOf f k <;> rfl

lemma Sys.take_ne_eagain (s : Sys) (r) : (s.take r).2 ≠ some (.failed .eagain) := by
  rw [take]
  split
  · rename_i he
    rw [Table.setRange_error he]
    nofun
  · nofun

lemma flockOf_unlck (p : Span) (l : Option Lock) : (flockOf p l).type = .unlck ↔ l = none := by
  cases l with
  | none => exact ⟨fun _ => rfl, fun _ => rfl⟩
  | some l =>
    simp only [flockOf, reduceCtorEq, iff_false]
    cases l.type <;> nofun

lemma Sys.get_iff_set (s : Sys) {c : Call} {sig} {f : Flock} (hallowed : c.Allowed)
    (hget : (s.fcntl { c with op := .get } sig).2 = some (.report f)) :
    f.type = .unlck ↔ (s.fcntl { c with op := .set } sig).2 ≠ some (.failed .eagain) := by
  simp only [fcntl, Call.read_op] at hget ⊢
  cases hread : c.read with
  | error e =>
    rw [hread] at hget
    cases hget
  | ok x =>
    obtain ⟨file, r⟩ := x
    simp only [hread, Except.map] at hget ⊢
    rw [if_pos (hallowed file r hread)]
    split at hget
    · cases hget
    split at hget
    · cases hget
    simp only [Option.some.injEq, Answer.report.injEq] at hget
    rw [← hget, flockOf_unlck, pass]
    -- whether a request may wait is no part of what is in its way
    have hway : ∀ b, s.inTheWay { r with blocking := b } = s.inTheWay r := fun _ => rfl
    simp only [hway]
    cases s.inTheWay r with
    | none => exact ⟨fun _ => take_ne_eagain s _, fun _ => rfl⟩
    | some l => simp

/-- **Record locks exclude**, in every state of every run; and `F_GETLK` reports `F_UNLCK` just when
setting the lock would not be refused for a conflict, for a descriptor that may set it. -/
theorem run_excludes (evs : List Event) : (Event.run evs Sys.init).table.Exclusive ∧
      ∀ (c : Call) (sig : Bool) (f : Flock), c.Allowed →
        ((Event.run evs Sys.init).fcntl { c with op := .get } sig).2 = some (.report f) →
        (f.type = .unlck ↔
          ((Event.run evs Sys.init).fcntl { c with op := .set } sig).2 ≠ some (.failed .eagain)) :=
  ⟨Event.run_exclusive evs Sys.init_exclusive, fun _ _ _ => Sys.get_iff_set _⟩

/-- A lock on the first byte, asked for by process `pid` on a file opened as `access`. -/
def firstByte (pid : Nat) (access : Access) (op : Op) : Call :=
  ⟨pid, pid, some ⟨pid, 7, access, 0, some 0⟩, op, false, some ⟨.wrlck, .set, 0, 0, 0, 0, 1⟩, true⟩

/-- Process `1` has a write lock, which `F_GETLK` reports to process `2`. Its descriptor is
read-only, and setting the lock is refused for that: not with `EAGAIN`. -/
theorem getlk_readonly : ((Event.run [.call (firstByte 1 .rdwr .set) false] Sys.init).fcntl
        (firstByte 2 .rdonly .get) false).2 = some (.report ⟨.wrlck, 0, 1, 1⟩) ∧
      ((Event.run [.call (firstByte 1 .rdwr .set) false] Sys.init).fcntl
        (firstByte 2 .rdonly .set) false).2 = some (.failed .ebadf) := by
  decide +kernel

/-- With a descriptor that may set it both say that the byte is taken. -/
theorem run_excludes_firstByte : ((Event.run [.call (firstByte 1 .rdwr .set) false] Sys.init).fcntl
        (firstByte 2 .rdwr .set) false).2 = some (.failed .eagain) := by
  have h := ((run_excludes [.call (firstByte 1 .rdwr .set) false]).2 (firstByte 2 .rdwr .set) false
    ⟨.wrlck, 0, 1, 1⟩ (fun f r hr => ?_) (by decide +kernel)).not
  · exact not_not.1 (h.1 (by decide))
  cases hr
  rfl

end Sage040.Reclock
