import Sage040.Kernel.Cred

/-!
# Who traces whom

`kernel/ptrace.c` lets one task watch and steer another: while the tracee is stopped, its tracer
reads and writes its memory and registers. So a tracer should have no less privilege than its
tracee: it is root, or the tracee has only ids that are the tracer's own.

`may_trace` tests this when a tracer attaches. But a task can also become a tracee by asking for it
(`PTRACE_TRACEME`) or by being made by one, and both sides' ids can change later: by the calls of
the `setuid` family and by running a set-user-id program. This file has all of these as steps of
one machine. `stopped_tracee_of_guarded_run` says which of them have to be kept away from for the
test to stay true.

A step runs on its own but for `task_clone`, which can sleep when the new thread is made and its
slot not marked yet: until then another task can be made in the same slot, and when the first one
goes on it is that task that becomes a tracee.
-/

namespace Sage040.Ptrace

open Function

/-! ## Tasks -/

/-- `TASK_MAX`. -/
def taskMax : Nat := 64

/-- A place in the table of tasks. -/
abbrev Slot := Fin taskMax

/-- The states that matter here: one that sleeps is as good as ready. -/
inductive TaskState
  | unused
  /-- It can run, now or when something wakes it. -/
  | ready
  /-- Stopped for its tracer. -/
  | traced
  | zombie
  deriving DecidableEq

/-- How a child is made, as far as `ptrace_fork` tells them apart. -/
inductive ForkKind
  | fork
  | vfork
  | clone

/-- The option that asks for such children to be followed. -/
def ForkKind.option : ForkKind → Nat
  | fork => 1
  | vfork => 2
  | clone => 3

/-- `struct task`, in what tracing looks at. -/
structure Task where
  state : TaskState
  pid : Nat
  tgid : Nat
  parent : Option Slot
  /-- It has an address space. -/
  user : Bool
  cred : Cred
  tracer : Option Slot
  /-- `ptrace_opts`, the `PTRACE_O_*` bits. -/
  opts : Nat
  /-- `ptrace_regs` points at its saved registers. -/
  regs : Bool
  /-- It sleeps in `task_clone`, with the new thread in this slot. -/
  cloning : Option (Slot × ForkKind)

/-- The tasks, and the next process number. -/
structure Table where
  tasks : Slot → Task
  nextPid : Nat

/-- One task, which is root's. -/
def boot : Table where
  tasks := fun i =>
    ⟨if i.val = 0 then .ready else .unused, 1, 1, none, false, .root, none, 0, false, none⟩
  nextPid := 2

namespace Table

/-- One task is replaced. -/
def set (k : Table) (i : Slot) (t : Task) : Table := { k with tasks := update k.tasks i t }

/-- Every task is changed. -/
def map (k : Table) (f : Task → Task) : Table := { k with tasks := fun i => f (k.tasks i) }

/-- The slot that `alloc_task` finds: the first unused one. -/
def freeSlot (k : Table) : Option Slot :=
  (List.finRange taskMax).find? fun i => (k.tasks i).state = .unused

/-- A new task, with the next number. -/
def put (k : Table) (j : Slot) (t : Nat → Task) : Table where
  tasks := update k.tasks j (t k.nextPid)
  nextPid := k.nextPid + 1

/-- `task_group_count` is 1. -/
def single (k : Table) (i : Slot) : Bool :=
  (List.finRange taskMax).all fun j =>
    j = i || (k.tasks j).state = .unused || (k.tasks j).tgid ≠ (k.tasks i).tgid

end Table

/-! ## What tasks do -/

/-- `may_trace`: root anybody, anybody else their own processes. -/
def mayTrace (tracer t : Cred) : Bool :=
  tracer.euid == 0 || (t.user.real == tracer.euid && t.user.effective == tracer.euid &&
    t.user.saved == tracer.euid)

/-- `stopped_tracee`: `x` is traced by the caller and stopped for it. -/
def stoppedTracee (k : Table) (i x : Slot) : Bool :=
  (k.tasks x).state = .traced && (k.tasks x).tracer = some i && (k.tasks x).regs

/-- The tracee runs on. -/
def resume (t : Task) : Task := { t with state := .ready, regs := false }

/-- It runs on, and nobody traces it. -/
def detach (t : Task) : Task :=
  let t := { t with tracer := none, opts := 0 }
  if t.state = .traced then resume t else t

/-- `PTRACE_O_MASK`: the options there are. -/
def optionMask : Nat := 0x10007f

/-- `ptrace_fork` follows the child. -/
def follows (t : Task) (kind : ForkKind) : Bool := t.tracer.isSome && t.opts.testBit kind.option

/-- What a task can do, or have done to another. -/
inductive Act
  | traceme
  | attach (x : Slot)
  | setOptions (x : Slot) (opts : Nat)
  /-- `PTRACE_CONT`, `PTRACE_SYSCALL` and `PTRACE_SINGLESTEP`. -/
  | cont (x : Slot)
  | detach (x : Slot)
  /-- A signal, a system call or an event stops the caller for its tracer. -/
  | stop
  /-- `SIGKILL` starts a stopped tracee. -/
  | kill (x : Slot)
  /-- A new process or a new thread. -/
  | fork (kind : ForkKind)
  | clone (kind : ForkKind)
  /-- `task_clone` sleeps in its `copy_to_user`, and goes on. -/
  | cloneSleep (kind : ForkKind)
  | cloneWake
  /-- `exec_spawn` and `exec_replace`, of a file that is set-user-id or set-group-id for these
  ids. -/
  | spawn (setuid setgid : Option Nat)
  | exec (setuid setgid : Option Nat)
  | cred (call : CredCall)
  | exit
  | reap (x : Slot)

/-- The set-id bits, taken up once the image is loaded. -/
def setIds (setuid setgid : Option Nat) (c : Cred) : Cred :=
  let c := match setuid with
    | none => c
    | some u => { c with user := { c.user with effective := u, saved := u } }
  match setgid with
  | none => c
  | some g => { c with group := { c.group with effective := g, saved := g } }

/-- The child of `t`, traced too if its tracer asked for that. -/
def child (t : Task) (kind : ForkKind) (tgid : Nat) (parent : Option Slot) (pid : Nat) : Task where
  state := .ready
  pid := pid
  tgid := tgid
  parent := parent
  user := true
  cred := t.cred
  tracer := if follows t kind then t.tracer else none
  opts := if follows t kind then t.opts else 0
  regs := false
  cloning := none

/-- The new thread of `t` before it can run. -/
def unmarked (t : Task) (pid : Nat) : Task :=
  ⟨.unused, pid, t.tgid, none, true, t.cred, none, 0, false, none⟩

/-- What `task_clone` and `ptrace_fork` do at last to the task in the new thread's slot, whoever
that is. -/
def marked (t : Task) (kind : ForkKind) (u : Task) : Task :=
  if follows t kind then { u with state := .ready, tracer := t.tracer, opts := t.opts } else
    { u with state := .ready }

/-- After making a child that is followed, the parent stops for its tracer. -/
def eventStop (t : Task) (kind : ForkKind) : Task :=
  if follows t kind then { t with state := .traced, regs := true } else t

/-- What a call of the `setuid` family by `t` does to every task. -/
def credUpdate (call : CredCall) (t u : Task) : Task :=
  if u.state ≠ .unused ∧ u.tgid = t.tgid then { u with cred := call.update t.cred u.cred } else u

/-- What the exit of the task in slot `i` does to another: its children are orphans, its tracees go
free. -/
def leave (i : Slot) (u : Task) : Task :=
  let u := if u.parent = some i then { u with parent := none } else u
  if u.tracer = some i then detach u else u

/-- What the step does to the table; a call that is refused leaves it as it is. -/
def apply (k : Table) (i : Slot) (act : Act) : Table :=
  let t := k.tasks i
  match act with
  | .traceme =>
    match t.tracer, t.parent with
    | none, some p => if (k.tasks p).user then k.set i { t with tracer := some p } else k
    | _, _ => k
  | .attach x =>
    let tx := k.tasks x
    if tx.state ≠ .unused ∧ tx.state ≠ .zombie ∧ tx.user ∧ tx.tgid = tx.pid ∧ x ≠ i ∧
        tx.tracer = none ∧ mayTrace t.cred tx.cred then
      k.set x { tx with tracer := some i, opts := 0 }
    else k
  | .setOptions x opts =>
    if stoppedTracee k i x && opts ||| optionMask == optionMask then
      k.set x { k.tasks x with opts := opts }
    else k
  | .cont x => if stoppedTracee k i x then k.set x (resume (k.tasks x)) else k
  | .detach x => if stoppedTracee k i x then k.set x (detach (k.tasks x)) else k
  | .stop =>
    if t.tracer.isSome then k.set i { t with state := .traced, regs := true } else k
  | .kill x =>
    if (k.tasks x).state = .traced then k.set x (resume (k.tasks x)) else k
  | .fork kind =>
    match t.user, k.freeSlot with
    | true, some j =>
      (k.put j fun pid => child t kind pid (some i) pid).set i (eventStop t kind)
    | _, _ => k
  | .clone kind =>
    match t.user, k.freeSlot with
    | true, some j => (k.put j fun pid => child t kind t.tgid none pid).set i (eventStop t kind)
    | _, _ => k
  | .cloneSleep kind =>
    match t.user, k.freeSlot with
    | true, some j => (k.put j (unmarked t)).set i { t with cloning := some (j, kind) }
    | _, _ => k
  | .cloneWake =>
    match t.cloning with
    | none => k
    | some (j, kind) =>
      (k.set j (marked t kind (k.tasks j))).set i (eventStop { t with cloning := none } kind)
  | .spawn setuid setgid =>
    match k.freeSlot with
    | none => k
    | some j =>
      k.put j fun pid =>
        ⟨.ready, pid, pid, some i, true, setIds setuid setgid t.cred, none, 0, false, none⟩
  | .exec setuid setgid =>
    -- The other threads are asked to go first.
    if t.user && k.single i then k.set i { t with cred := setIds setuid setgid t.cred } else k
  | .cred call =>
    if call.permitted t.cred then k.map (credUpdate call t) else k
  | .exit =>
    let k := k.map (leave i)
    k.set i { k.tasks i with state := .zombie }
  | .reap x =>
    if (k.tasks x).state = .zombie then k.set x { k.tasks x with state := .unused } else k

/-- A task that sleeps in `task_clone` can only go on with that. -/
def Act.wakes : Act → Bool
  | .cloneWake => true
  | _ => false

/-- The step of the task in slot `i`, which has to be running. -/
def step (k : Table) (i : Slot) (act : Act) : Option Table :=
  if (k.tasks i).state = .ready ∧ (k.tasks i).cloning.isSome = act.wakes then
    some (apply k i act) else none

/-! ## Keeping the test true -/

namespace Table

/-- The task can run, or is stopped. -/
def Live (k : Table) (i : Slot) : Prop := (k.tasks i).state = .ready ∨ (k.tasks i).state = .traced

/-- The slot has a task, perhaps a dead one. -/
def Used (k : Table) (i : Slot) : Prop := (k.tasks i).state ≠ .unused

/-- Some task is traced by the one in slot `i`. -/
def Traces (k : Table) (i : Slot) : Prop := ∃ x, k.Used x ∧ (k.tasks x).tracer = some i

lemma Live.used {k : Table} {i : Slot} (h : k.Live i) : k.Used i := by
  intro h'
  rcases h with h | h
  iterate 2 · exact nomatch h.symm.trans h'

end Table

/-- Steps that keep out of the way of the test at attach time: nobody asks to be traced by a parent
that could not attach; nobody whose tracer is not root runs a set-user-id program; and a process
that traces something changes its effective uid, by a call or by running such a program, to
root's only. And while a task sleeps in `task_clone`, no task is made, and its process keeps its
ids. -/
def Guarded (k : Table) (i : Slot) : Act → Prop
  | .traceme => ∀ p, (k.tasks i).parent = some p → mayTrace (k.tasks p).cred (k.tasks i).cred = true
  | .exec (some owner) _ =>
    (∀ y, (k.tasks i).tracer = some y → (k.tasks y).cred.euid = 0) ∧ (k.Traces i → owner = 0)
  | .cred call => (∀ y, k.Traces y → (k.tasks y).tgid = (k.tasks i).tgid →
      call.newEuid (k.tasks i).cred = 0 ∨ call.newEuid (k.tasks i).cred = (k.tasks i).cred.euid) ∧
    ∀ p, (k.tasks p).cloning ≠ none → (k.tasks p).tgid ≠ (k.tasks i).tgid
  | .fork _ | .clone _ | .cloneSleep _ | .spawn .. => ∀ p, (k.tasks p).cloning = none
  | _ => True

/-- Some task takes a step. -/
def Steps (k k' : Table) : Prop := ∃ i act, step k i act = some k'

/-- Some task takes a step that is guarded. -/
def GuardedSteps (k k' : Table) : Prop := ∃ i act, step k i act = some k' ∧ Guarded k i act

/-- What holds along a run of guarded steps. -/
structure Inv (k : Table) : Prop where
  same : ∀ i j, k.Live i → k.Live j → (k.tasks i).tgid = (k.tasks j).tgid →
    (k.tasks i).cred = (k.tasks j).cred
  fresh : ∀ i, k.Used i → (k.tasks i).tgid < k.nextPid
  /-- Pointers to tasks are to live ones. -/
  parent : ∀ x p, k.Used x → (k.tasks x).parent = some p → k.Live p
  tracer : ∀ x y, k.Used x → (k.tasks x).tracer = some y → k.Live y
  /-- A tracer could attach to its tracee now. -/
  may : ∀ x y, k.Live x → (k.tasks x).tracer = some y →
    mayTrace (k.tasks y).cred (k.tasks x).cred = true

section

variable {k : Table} {i j x : Slot}

lemma inv_boot : Inv boot := by
  refine ⟨fun _ _ _ _ _ => rfl, fun _ _ => Nat.lt_succ_self 1, ?_, ?_, ?_⟩
  iterate 3 · exact fun _ _ _ h => nomatch h

lemma Table.set_self (t : Task) : (k.set i t).tasks i = t := update_self ..

lemma Table.set_of_ne (h : j ≠ i) (t : Task) : (k.set i t).tasks j = k.tasks j :=
  update_of_ne h ..

variable {t : Task} {c y : Cred} {call : CredCall}

/-- What a change of one task keeps of it, it keeps of every task. -/
lemma Table.set_keeps {α : Type} (f : Task → α) (h : f t = f (k.tasks i)) (j) :
    f ((k.set i t).tasks j) = f (k.tasks j) := by
  by_cases hj : j = i
  · rw [hj, Table.set_self, h]
  · rw [Table.set_of_ne hj]

/-- The tasks keep their ids, and there are no more of them. -/
lemma Inv.frame {k'} (h : Inv k) (hnext : k'.nextPid = k.nextPid)
    (hids : ∀ p, (k'.tasks p).cred = (k.tasks p).cred ∧ (k'.tasks p).tgid = (k.tasks p).tgid)
    (hused : ∀ p, k'.Used p → k.Used p) (hlive : ∀ p, k'.Live p → k.Live p)
    (hparent : ∀ p q, k'.Used p → (k'.tasks p).parent = some q → k'.Live q)
    (htracer : ∀ p y, k'.Used p → (k'.tasks p).tracer = some y →
      k'.Live y ∧ (k.Live p → mayTrace (k.tasks y).cred (k.tasks p).cred = true)) : Inv k' := by
  refine ⟨fun p q hp hq htg => ?_, fun p hp => ?_, hparent, fun p y hp hy => (htracer p y hp hy).1,
    fun p y hp hy => ?_⟩
  · rw [(hids p).2, (hids q).2] at htg
    rw [(hids p).1, (hids q).1]
    exact h.same p q (hlive p hp) (hlive q hq) htg
  · rw [(hids p).2, hnext]
    exact h.fresh p (hused p hp)
  · rw [(hids p).1, (hids y).1]
    exact (htracer p y hp.used hy).2 (hlive p hp)

lemma Inv.setLive (h : Inv k) (hx : k.Live x) (ht : t.state = .ready ∨ t.state = .traced)
    (htgid : t.tgid = (k.tasks x).tgid) (hcred : t.cred = (k.tasks x).cred)
    (hparent : t.parent = (k.tasks x).parent)
    (htracer : ∀ y, t.tracer = some y → k.Live y ∧ mayTrace (k.tasks y).cred t.cred = true) :
    Inv (k.set x t) := by
  have hparent' := Table.set_keeps Task.parent hparent
  have hlive : ∀ p, (k.set x t).Live p ↔ k.Live p := by
    intro p
    by_cases hp : p = x
    · subst hp
      rw [Table.Live, Table.set_self]
      exact ⟨fun _ => hx, fun _ => ht⟩
    · rw [Table.Live, Table.set_of_ne hp, Table.Live]
  have hused : ∀ p, (k.set x t).Used p → k.Used p := by
    intro p hp
    by_cases hpx : p = x
    · subst hpx
      exact hx.used
    · rwa [Table.Used, Table.set_of_ne hpx] at hp
  refine h.frame rfl (fun p => ⟨Table.set_keeps Task.cred hcred p,
    Table.set_keeps Task.tgid htgid p⟩) hused
    (fun p => (hlive p).1) (fun p q hp hq => ?_) fun p y hp hy => ?_
  · rw [hparent'] at hq
    rw [hlive]
    exact h.parent p q (hused p hp) hq
  rw [hlive]
  by_cases hpx : p = x
  · subst hpx
    rw [Table.set_self] at hy
    exact ⟨(htracer y hy).1, fun _ => hcred ▸ (htracer y hy).2⟩
  · rw [Table.set_of_ne hpx] at hy
    exact ⟨h.tracer p y (hused p hp) hy, fun hp => h.may p y hp hy⟩

lemma Table.put_self (t : Nat → Task) : (k.put j t).tasks j = t k.nextPid :=
  update_self ..

lemma Table.put_of_ne (h : x ≠ j) (t : Nat → Task) : (k.put j t).tasks x = k.tasks x :=
  update_of_ne h ..

lemma Table.freeSlot_unused (h : k.freeSlot = some j) : (k.tasks j).state = .unused := by
  simpa using List.find?_some h

/-- A task in a slot that was free. -/
lemma Inv.add (h : Inv k) (hj : (k.tasks j).state = .unused) {m : Nat} (hm : k.nextPid ≤ m)
    (htgid : t.tgid < m)
    (hsame : ∀ p, k.Live p → (k.tasks p).tgid = t.tgid → (k.tasks p).cred = t.cred)
    (hparent : ∀ p, t.parent = some p → k.Live p)
    (htracer : ∀ y, t.tracer = some y → k.Live y ∧ mayTrace (k.tasks y).cred t.cred = true) :
    Inv { tasks := update k.tasks j t, nextPid := m } := by
  set k' : Table := { tasks := update k.tasks j t, nextPid := m }
  have hself : k'.tasks j = t := update_self ..
  have hother : ∀ p, p ≠ j → k'.tasks p = k.tasks p := fun p hp => update_of_ne hp ..
  have hne : ∀ p, k.Live p → p ≠ j := by
    rintro p hp rfl
    exact hp.used hj
  have hlive : ∀ p, p ≠ j → (k'.Live p ↔ k.Live p) := by
    intro p hp
    rw [Table.Live, hother p hp, Table.Live]
  have hlive' : ∀ p, k.Live p → k'.Live p := fun p hp => (hlive p (hne p hp)).2 hp
  refine ⟨?_, ?_, ?_, ?_, ?_⟩
  · intro p q hp hq htg
    by_cases hpj : p = j
    · by_cases hqj : q = j
      · rw [hpj, hqj]
      rw [hpj, hself, hother q hqj] at htg ⊢
      exact (hsame q ((hlive q hqj).1 hq) htg.symm).symm
    by_cases hqj : q = j
    · rw [hqj, hself, hother p hpj] at htg ⊢
      exact hsame p ((hlive p hpj).1 hp) htg
    · rw [hother p hpj, hother q hqj] at htg ⊢
      exact h.same p q ((hlive p hpj).1 hp) ((hlive q hqj).1 hq) htg
  · intro p hp
    by_cases hpj : p = j
    · rw [hpj, hself]
      exact htgid
    rw [Table.Used, hother p hpj] at hp
    rw [hother p hpj]
    exact (h.fresh p hp).trans_le hm
  · intro p q hp hq
    by_cases hpj : p = j
    · rw [hpj, hself] at hq
      exact hlive' q (hparent q hq)
    rw [Table.Used, hother p hpj] at hp
    rw [hother p hpj] at hq
    exact hlive' q (h.parent p q hp hq)
  · intro p y hp hy
    by_cases hpj : p = j
    · rw [hpj, hself] at hy
      exact hlive' y (htracer y hy).1
    rw [Table.Used, hother p hpj] at hp
    rw [hother p hpj] at hy
    exact hlive' y (h.tracer p y hp hy)
  · intro p y hp hy
    by_cases hpj : p = j
    · rw [hpj, hself] at hy ⊢
      obtain ⟨hy', hmay⟩ := htracer y hy
      rwa [hother y (hne y hy')]
    rw [hlive p hpj] at hp
    rw [hother p hpj] at hy ⊢
    rw [hother y (hne y (h.tracer p y hp.used hy))]
    exact h.may p y hp hy

lemma Inv.put (h : Inv k) (hj : (k.tasks j).state = .unused) {t : Nat → Task}
    (htgid : (t k.nextPid).tgid ≤ k.nextPid)
    (hsame : ∀ p, k.Live p → (k.tasks p).tgid = (t k.nextPid).tgid →
    (k.tasks p).cred = (t k.nextPid).cred)
    (hparent : ∀ p, (t k.nextPid).parent = some p → k.Live p)
    (htracer : ∀ y, (t k.nextPid).tracer = some y →
      k.Live y ∧ mayTrace (k.tasks y).cred (t k.nextPid).cred = true) : Inv (k.put j t) :=
  h.add hj (Nat.le_succ _) (Nat.lt_succ_of_le htgid) hsame hparent htracer

lemma Inv.reap (h : Inv k) (hx : (k.tasks x).state = .zombie) :
    Inv (k.set x { k.tasks x with state := .unused }) := by
  have hne : ∀ p, k.Live p → p ≠ x := by
    rintro p (hp | hp) rfl
    iterate 2 · exact nomatch hp.symm.trans hx
  have hused : ∀ p, (k.set x { k.tasks x with state := .unused }).Used p → p ≠ x ∧ k.Used p := by
    intro p hp
    by_cases hpx : p = x
    · subst hpx
      rw [Table.Used, Table.set_self] at hp
      exact absurd rfl hp
    · rw [Table.Used, Table.set_of_ne hpx] at hp
      exact ⟨hpx, hp⟩
  have hlive : ∀ p, k.Live p → (k.set x { k.tasks x with state := .unused }).Live p := by
    intro p hp
    rw [Table.Live, Table.set_of_ne (hne p hp)]
    exact hp
  refine h.frame rfl (fun p => ⟨Table.set_keeps Task.cred (t :=
    { k.tasks x with state := .unused }) rfl p,
    Table.set_keeps Task.tgid (t := { k.tasks x with state := .unused }) rfl p⟩)
      (fun p hp => (hused p hp).2)
    (fun p hp => ?_) (fun p q hp hq => ?_) fun p y hp hy => ?_
  · obtain ⟨hpx, -⟩ := hused p hp.used
    rwa [Table.Live, Table.set_of_ne hpx] at hp
  · obtain ⟨hpx, hp⟩ := hused p hp
    rw [Table.set_of_ne hpx] at hq
    exact hlive q (h.parent p q hp hq)
  · obtain ⟨hpx, hp⟩ := hused p hp
    rw [Table.set_of_ne hpx] at hy
    exact ⟨hlive y (h.tracer p y hp hy), fun hp => h.may p y hp hy⟩

lemma Inv.recred {k'} (h : Inv k) (hnext : k'.nextPid = k.nextPid)
    (hframe : ∀ p, (k'.tasks p).state = (k.tasks p).state ∧ (k'.tasks p).tgid = (k.tasks p).tgid ∧
      (k'.tasks p).parent = (k.tasks p).parent ∧ (k'.tasks p).tracer = (k.tasks p).tracer)
    (hsame : ∀ p q, k.Live p → k.Live q → (k.tasks p).tgid = (k.tasks q).tgid →
    (k'.tasks p).cred = (k'.tasks q).cred)
    (hmay : ∀ p y, k.Live p → (k.tasks p).tracer = some y →
      mayTrace (k'.tasks y).cred (k'.tasks p).cred = true) : Inv k' := by
  have hlive : ∀ p, k'.Live p ↔ k.Live p := fun p => by rw [Table.Live, (hframe p).1, Table.Live]
  have hused : ∀ p, k'.Used p ↔ k.Used p := fun p => by rw [Table.Used, (hframe p).1, Table.Used]
  refine ⟨fun p q hp hq htg => ?_, fun p hp => ?_, fun p q hp hq => ?_, fun p y hp hy => ?_,
    fun p y hp hy => ?_⟩
  · rw [(hframe p).2.1, (hframe q).2.1] at htg
    exact hsame p q ((hlive p).1 hp) ((hlive q).1 hq) htg
  · rw [(hframe p).2.1, hnext]
    exact h.fresh p ((hused p).1 hp)
  · rw [(hframe p).2.2.1] at hq
    exact (hlive q).2 (h.parent p q ((hused p).1 hp) hq)
  · rw [(hframe p).2.2.2] at hy
    exact (hlive y).2 (h.tracer p y ((hused p).1 hp) hy)
  · rw [(hframe p).2.2.2] at hy
    exact hmay p y ((hlive p).1 hp) hy

lemma Inv.setCred (h : Inv k) (hi : k.Live i)
    (hone : ∀ p, k.Used p → (k.tasks p).tgid = (k.tasks i).tgid → p = i)
    (htracer : ∀ y, (k.tasks i).tracer = some y →
    mayTrace (if y = i then c else (k.tasks y).cred) c = true)
    (htraces : ∀ x, k.Live x → x ≠ i → (k.tasks x).tracer = some i →
      mayTrace c (k.tasks x).cred = true) : Inv (k.set i { k.tasks i with cred := c }) := by
  obtain ⟨t, ht⟩ : ∃ t, t = { k.tasks i with cred := c } := ⟨_, rfl⟩
  rw [← ht]
  have hstate := Table.set_keeps Task.state (show t.state = (k.tasks i).state by rw [ht])
  have htgid := Table.set_keeps Task.tgid (show t.tgid = (k.tasks i).tgid by rw [ht])
  have hparent := Table.set_keeps Task.parent (show t.parent = (k.tasks i).parent by rw [ht])
  have htracer' := Table.set_keeps Task.tracer (show t.tracer = (k.tasks i).tracer by rw [ht])
  have hcred : ∀ p, ((k.set i t).tasks p).cred = if p = i then c else (k.tasks p).cred := by
    intro p
    split
    · rename_i hp
      rw [hp, Table.set_self, ht]
    · rename_i hp
      rw [Table.set_of_ne hp]
  refine h.recred rfl (fun p => ⟨hstate p, htgid p, hparent p, htracer' p⟩)
    (fun p q hp hq htg => ?_)
    fun p y hp hy => ?_
  · rw [hcred, hcred]
    by_cases hpi : p = i
    · rw [hone q hq.used (htg.symm.trans (hpi ▸ rfl)), hpi]
    have hqi : q ≠ i := by
      rintro rfl
      exact hpi (hone p hp.used htg)
    rw [if_neg hpi, if_neg hqi]
    exact h.same p q hp hq htg
  · rw [hcred, hcred]
    by_cases hpi : p = i
    · subst hpi
      rw [if_pos rfl]
      exact htracer y hy
    rw [if_neg hpi]
    by_cases hyi : y = i
    · subst hyi
      rw [if_pos rfl]
      exact htraces p hp hpi hy
    · rw [if_neg hyi]
      exact h.may p y hp hy

lemma mayTrace_iff : mayTrace y c = true ↔ y.euid = 0 ∨
    (c.user.real = y.euid ∧ c.user.effective = y.euid ∧ c.user.saved = y.euid) := by
  simp [mayTrace, and_assoc]

lemma mayTrace_of_root (h : y.euid = 0) : mayTrace y c = true := mayTrace_iff.2 (.inl h)

/-- A tracee whose tracer is not root has one uid, which no call of its own changes. -/
lemma mayTrace_update (h : mayTrace y c = true)
    (hp : call.permitted c = true) : mayTrace y (call.update c c) = true := by
  by_cases hroot : y.euid = 0
  · exact mayTrace_of_root hroot
  obtain ⟨hr, he, hs⟩ := (mayTrace_iff.1 h).resolve_left hroot
  have hu : c.Unprivileged := by
    rintro (h0 | h0 | h0)
    · exact hroot (hr ▸ h0.symm)
    · exact hroot (he ▸ h0.symm)
    · exact hroot (hs ▸ h0.symm)
  have hw := (CredCall.update_within hu (.refl c) (.refl c) hp).user
  have hall : ∀ id, c.user.Has id → id = y.euid := by
    rintro id (rfl | rfl | rfl)
    · exact hr
    · exact he
    · exact hs
  exact mayTrace_iff.2 (.inr ⟨hall _ hw.real, hall _ hw.effective, hall _ hw.saved⟩)

lemma credUpdate_frame (call) (t u : Task) :
    (credUpdate call t u).state = u.state ∧ (credUpdate call t u).tgid = u.tgid ∧
      (credUpdate call t u).parent = u.parent ∧ (credUpdate call t u).tracer = u.tracer := by
  unfold credUpdate
  split <;> exact ⟨rfl, rfl, rfl, rfl⟩

lemma Inv.credCall (h : Inv k) (hi : k.Live i)
    (hp : call.permitted (k.tasks i).cred = true) (hg : Guarded k i (.cred call)) :
    Inv (k.map (credUpdate call (k.tasks i))) := by
  have hcred : ∀ p, k.Live p → (credUpdate call (k.tasks i) (k.tasks p)).cred =
      if (k.tasks p).tgid = (k.tasks i).tgid then call.update (k.tasks i).cred (k.tasks i).cred
      else (k.tasks p).cred := by
    intro p hp
    unfold credUpdate
    by_cases htg : (k.tasks p).tgid = (k.tasks i).tgid
    · rw [if_pos ⟨hp.used, htg⟩, if_pos htg, h.same p i hp hi htg]
    · rw [if_neg fun h => htg h.2, if_neg htg]
  refine h.recred rfl (fun p => credUpdate_frame call (k.tasks i) (k.tasks p))
    (fun p q hp' hq' htg => ?_)
    fun p y hp' hy => ?_
  · simp only [Table.map]
    rw [hcred p hp', hcred q hq', htg, h.same p q hp' hq' htg]
  simp only [Table.map]
  have hylive := h.tracer p y hp'.used hy
  have hmay := h.may p y hp' hy
  rw [hcred p hp', hcred y hylive]
  -- First the tracee's side, then the tracer's.
  have htracee : mayTrace (k.tasks y).cred (if (k.tasks p).tgid = (k.tasks i).tgid then
      call.update (k.tasks i).cred (k.tasks i).cred else (k.tasks p).cred) = true := by
    split
    · rename_i htg
      rw [h.same p i hp' hi htg] at hmay
      exact mayTrace_update hmay hp
    · exact hmay
  split
  · rename_i htg
    have hsame := h.same y i hylive hi htg
    rcases hg.1 y ⟨p, hp'.used, hy⟩ htg with h0 | hkeep
    · exact mayTrace_of_root ((CredCall.update_euid rfl call).trans h0)
    have heuid : (call.update (k.tasks i).cred (k.tasks i).cred).euid = (k.tasks y).cred.euid :=
      (CredCall.update_euid rfl call).trans (hkeep.trans (hsame ▸ rfl))
    rw [mayTrace, heuid]
    exact htracee
  · exact htracee

lemma detach_frame (u : Task) : (detach u).cred = u.cred ∧ (detach u).tgid = u.tgid ∧
    (detach u).parent = u.parent ∧ (detach u).tracer = none := by
  unfold detach
  dsimp only
  split <;> exact ⟨rfl, rfl, rfl, rfl⟩

lemma detach_state (u : Task) :
    (detach u).state = if u.state = .traced then .ready else u.state := by
  unfold detach
  dsimp only
  split <;> rfl

lemma leave_frame (i) (u : Task) : (leave i u).cred = u.cred ∧ (leave i u).tgid = u.tgid ∧
    (leave i u).parent = (if u.parent = some i then none else u.parent) ∧
    (leave i u).tracer = (if u.tracer = some i then none else u.tracer) ∧
    ((leave i u).state = u.state ∨ (u.state = .traced ∧ (leave i u).state = .ready)) := by
  have hdetach : ∀ u : Task, (detach u).state = u.state ∨
      (u.state = .traced ∧ (detach u).state = .ready) := by
    intro u
    rw [detach_state]
    split
    · rename_i hu
      exact .inr ⟨hu, rfl⟩
    · exact .inl rfl
  unfold leave
  by_cases hp : u.parent = some i
  · by_cases ht : u.tracer = some i
    · rw [if_pos hp, if_pos ht, if_pos hp, if_pos ht]
      obtain ⟨h1, h2, h3, h4⟩ := detach_frame { u with parent := none }
      exact ⟨h1, h2, h3, h4, hdetach _⟩
    · rw [if_pos hp, if_neg ht, if_pos hp, if_neg ht]
      exact ⟨rfl, rfl, rfl, rfl, .inl rfl⟩
  by_cases ht : u.tracer = some i
  · rw [if_neg hp, if_pos ht, if_neg hp, if_pos ht]
    obtain ⟨h1, h2, h3, h4⟩ := detach_frame u
    exact ⟨h1, h2, h3, h4, hdetach _⟩
  · rw [if_neg hp, if_neg ht, if_neg hp, if_neg ht]
    exact ⟨rfl, rfl, rfl, rfl, .inl rfl⟩

lemma Inv.exit (h : Inv k) (hi : k.Live i) :
    Inv ((k.map (leave i)).set i { (k.map (leave i)).tasks i with state := .zombie }) := by
  generalize hk : (k.map (leave i)).set i { (k.map (leave i)).tasks i with state := .zombie } = k'
  have hself : k'.tasks i = { leave i (k.tasks i) with state := .zombie } := by
    rw [← hk, Table.set_self]
    rfl
  have hother : ∀ p, p ≠ i → k'.tasks p = leave i (k.tasks p) := by
    intro p hp
    rw [← hk, Table.set_of_ne hp]
    rfl
  have hnext : k'.nextPid = k.nextPid := by
    rw [← hk]
    rfl
  have hframe : ∀ p, (k'.tasks p).cred = (k.tasks p).cred ∧ (k'.tasks p).tgid = (k.tasks p).tgid ∧
      (k'.tasks p).parent = (if (k.tasks p).parent = some i then none else (k.tasks p).parent) ∧
      (k'.tasks p).tracer =
        (if (k.tasks p).tracer = some i then none else (k.tasks p).tracer) := by
    intro p
    obtain ⟨h1, h2, h3, h4, -⟩ := leave_frame i (k.tasks p)
    by_cases hp : p = i
    · subst hp
      rw [hself]
      exact ⟨h1, h2, h3, h4⟩
    · rw [hother p hp]
      exact ⟨h1, h2, h3, h4⟩
  have hlive : ∀ p, k'.Live p ↔ p ≠ i ∧ k.Live p := by
    intro p
    by_cases hp : p = i
    · subst hp
      simp [Table.Live, hself]
    obtain ⟨-, -, -, -, hs | ⟨ht, hr⟩⟩ := leave_frame i (k.tasks p)
    · rw [Table.Live, hother p hp, hs]
      exact ⟨fun h => ⟨hp, h⟩, fun h => h.2⟩
    · rw [Table.Live, hother p hp, hr]
      exact ⟨fun _ => ⟨hp, .inr ht⟩, fun _ => .inl rfl⟩
  have hused : ∀ p, k'.Used p → k.Used p := by
    intro p hp
    by_cases hpi : p = i
    · exact hpi ▸ hi.used
    intro h0
    obtain ⟨-, -, -, -, hs | ⟨ht, -⟩⟩ := leave_frame i (k.tasks p)
    · exact hp (by rw [hother p hpi, hs, h0])
    · exact nomatch ht.symm.trans h0
  -- A pointer that is left is an old one, and not to the task that ended.
  have hptr : ∀ (o : Option Slot) q, (if o = some i then none else o) = some q →
      o = some q ∧ q ≠ i := by
    intro o q ho
    split at ho
    · cases ho
    rename_i hne
    exact ⟨ho, fun hq => hne (hq ▸ ho)⟩
  refine h.frame hnext (fun p => ⟨(hframe p).1, (hframe p).2.1⟩) hused
    (fun p hp => ((hlive p).1 hp).2)
    (fun p q hp hq => ?_) fun p y hp hy => ?_
  · rw [(hframe p).2.2.1] at hq
    obtain ⟨hq, hqi⟩ := hptr _ q hq
    exact (hlive q).2 ⟨hqi, h.parent p q (hused p hp) hq⟩
  rw [(hframe p).2.2.2] at hy
  obtain ⟨hy, hyi⟩ := hptr _ y hy
  exact ⟨(hlive y).2 ⟨hyi, h.tracer p y (hused p hp) hy⟩, fun hp => h.may p y hp hy⟩

lemma stoppedTracee_iff : stoppedTracee k i x = true ↔ (k.tasks x).state = .traced ∧
    (k.tasks x).tracer = some i ∧ (k.tasks x).regs = true := by
  simp [stoppedTracee, and_assoc]

lemma Inv.keep (h : Inv k) (hx : k.Live x) (ht : t.state = .ready ∨ t.state = .traced)
    (htgid : t.tgid = (k.tasks x).tgid) (hcred : t.cred = (k.tasks x).cred)
    (hparent : t.parent = (k.tasks x).parent)
    (htracer : t.tracer = (k.tasks x).tracer ∨ t.tracer = none) : Inv (k.set x t) := by
  refine h.setLive hx ht htgid hcred hparent fun y hy => ?_
  rcases htracer with htr | htr
  · rw [htr] at hy
    exact ⟨h.tracer x y hx.used hy, hcred ▸ h.may x y hx hy⟩
  · exact nomatch htr.symm.trans hy

lemma single_iff : k.single i = true ↔ ∀ p, k.Used p →
    (k.tasks p).tgid = (k.tasks i).tgid → p = i := by
  simp only [Table.single, List.all_eq_true, List.mem_finRange, forall_true_left, Bool.or_eq_true,
    decide_eq_true_eq, Table.Used]
  constructor
  · intro h p hu htg
    rcases h p with (hp | hp) | hp
    · exact hp
    · exact absurd hp hu
    · exact absurd htg hp
  intro h p
  by_cases hu : (k.tasks p).state = .unused
  · exact .inl (.inr hu)
  by_cases htg : (k.tasks p).tgid = (k.tasks i).tgid
  · exact .inl (.inl (h p hu htg))
  · exact .inr htg

lemma eventStop_frame (t) (kind : ForkKind) : (eventStop t kind).tgid = t.tgid ∧
    (eventStop t kind).cred = t.cred ∧ (eventStop t kind).parent = t.parent ∧
    (eventStop t kind).tracer = t.tracer ∧
    ((eventStop t kind).state = t.state ∨ (eventStop t kind).state = .traced) := by
  unfold eventStop
  split
  · exact ⟨rfl, rfl, rfl, rfl, .inr rfl⟩
  · exact ⟨rfl, rfl, rfl, rfl, .inl rfl⟩

/-- A task stops for its tracer after making another, in whatever `task_clone` has left it. -/
lemma Inv.stopAfter (h : Inv k) (hi : (k.tasks i).state = .ready) (kind : ForkKind)
    (a : Option (Slot × ForkKind)) :
    Inv (k.set i (eventStop { k.tasks i with cloning := a } kind)) := by
  obtain ⟨h1, h2, h3, h4, h5⟩ := eventStop_frame { k.tasks i with cloning := a } kind
  exact h.keep (.inl hi) (h5.imp_left (·.trans hi)) h1 h2 h3 (.inl h4)

/-- A task makes another, which is traced with it if its tracer asked for that. -/
lemma Inv.makeChild (h : Inv k) (hi : (k.tasks i).state = .ready)
    (hj : (k.tasks j).state = .unused) (kind : ForkKind) {tgid : Nat} (htgid : tgid ≤ k.nextPid)
    (hsame : ∀ p, k.Live p → (k.tasks p).tgid = tgid → (k.tasks p).cred = (k.tasks i).cred)
    {parent : Option Slot} (hparent : parent = some i ∨ parent = none) :
    Inv ((k.put j fun pid => child (k.tasks i) kind tgid parent pid).set i
    (eventStop (k.tasks i) kind)) := by
  have hlive : k.Live i := .inl hi
  have hij : i ≠ j := by
    rintro rfl
    exact hlive.used hj
  have hput : Inv (k.put j fun pid => child (k.tasks i) kind tgid parent pid) := by
    refine h.put hj htgid hsame ?_ ?_
    · intro p hp
      rcases hparent with hpar | hpar
      · obtain rfl := Option.some.inj (hpar.symm.trans hp)
        exact hlive
      · exact nomatch hpar.symm.trans hp
    intro y hy
    simp only [child] at hy
    split at hy
    · exact ⟨h.tracer i y hlive.used hy, h.may i y hlive hy⟩
    · cases hy
  have hi' : (k.put j fun pid => child (k.tasks i) kind tgid parent pid).tasks i = k.tasks i :=
    Table.put_of_ne hij _
  obtain ⟨h1, h2, h3, h4, h5⟩ := eventStop_frame (k.tasks i) kind
  refine hput.keep (.inl (by rw [hi', hi])) (h5.imp_left (·.trans hi)) (by rw [hi', h1])
    (by rw [hi', h2])
    (by rw [hi', h3]) (.inl (by rw [hi', h4]))

lemma setIds_user (setgid : Option Nat) (c) : (setIds none setgid c).user = c.user := by
  cases setgid with
  | none => rfl
  | some g => rfl

lemma setIds_euid (u : Nat) (setgid : Option Nat) (c) : (setIds (some u) setgid c).euid = u := by
  cases setgid with
  | none => rfl
  | some g => rfl

lemma mayTrace_congr {y' c'} (hy : y'.user = y.user) (hc : c'.user = c.user) :
    mayTrace y' c' = mayTrace y c := by
  rw [mayTrace, mayTrace, Cred.euid, Cred.euid, hy, hc]

lemma Inv.exec (h : Inv k) (hi : k.Live i) (hone : k.single i = true) {setuid setgid : Option Nat}
    (hg : Guarded k i (.exec setuid setgid)) :
    Inv (k.set i { k.tasks i with cred := setIds setuid setgid (k.tasks i).cred }) := by
  refine h.setCred hi (single_iff.1 hone) ?_ ?_
  · intro y hy
    cases setuid with
    | none =>
      have hmay := h.may i y hi hy
      split
      · rename_i hyi
        rw [hyi] at hmay
        rwa [mayTrace_congr (setIds_user setgid _) (setIds_user setgid _)]
      · rwa [mayTrace_congr rfl (setIds_user setgid _)]
    | some u =>
      split
      · rename_i hyi
        rw [hyi] at hy
        exact mayTrace_of_root ((setIds_euid u setgid _).trans (hg.2 ⟨i, hi.used, hy⟩))
      · exact mayTrace_of_root (hg.1 y hy)
  · intro x hx hxi hy
    cases setuid with
    | none => rw [mayTrace_congr (setIds_user setgid _) rfl, h.may x i hx hy]
    | some u => exact mayTrace_of_root ((setIds_euid u setgid _).trans (hg.2 ⟨x, hx.used, hy⟩))

lemma Inv.ite {k'} {p : Prop} [Decidable p] (h : Inv k) (h' : p → Inv k') :
    Inv (if p then k' else k) := by
  split
  · exact h' ‹_›
  · exact h

/-! ## A thread that is not marked yet -/

/-- What a task that sleeps in `task_clone` has made is still there: one task sleeps so, and the
slot has a thread of its process with its ids, which nobody traces. -/
structure Pending (k : Table) : Prop where
  one : ∀ p q a b, (k.tasks p).cloning = some a → (k.tasks q).cloning = some b → p = q
  slot : ∀ p j kind, (k.tasks p).cloning = some (j, kind) → (k.tasks j).state = .unused ∧
    (k.tasks j).tgid = (k.tasks p).tgid ∧ (k.tasks j).cred = (k.tasks p).cred ∧
      (k.tasks j).parent = none ∧
    (k.tasks j).tracer = none ∧ (k.tasks j).cloning = none

lemma Pending.of_none (h : ∀ p, (k.tasks p).cloning = none) : Pending k :=
  ⟨fun p _ _ _ hp => absurd ((h p).symm.trans hp) (by simp),
    fun p _ _ hp => absurd ((h p).symm.trans hp) (by simp)⟩

lemma Pending.frame {k' : Table} (h : Pending k)
    (hc : ∀ p, (k'.tasks p).cloning = (k.tasks p).cloning)
    (hids : ∀ p, (k.tasks p).cloning ≠ none →
      (k'.tasks p).tgid = (k.tasks p).tgid ∧ (k'.tasks p).cred = (k.tasks p).cred)
    (hslot : ∀ j, (k.tasks j).state = .unused → (k.tasks j).parent = none →
    (k.tasks j).tracer = none →
      k'.tasks j = k.tasks j) : Pending k' := by
  refine ⟨fun p q a b hp hq => h.one p q a b ((hc p).symm.trans hp) ((hc q).symm.trans hq),
    fun p j kind hp => ?_⟩
  have hp' := (hc p).symm.trans hp
  obtain ⟨hst, htg, hcr, hpar, htr, hcl⟩ := h.slot p j kind hp'
  obtain ⟨htg', hcr'⟩ := hids p (by rw [hp']; exact Option.some_ne_none _)
  rw [hslot j hst hpar htr, htg', hcr']
  exact ⟨hst, htg, hcr, hpar, htr, hcl⟩

/-- A change of a task that is there, but for the ids of one that sleeps. -/
lemma Pending.set (h : Pending k) (hx : (k.tasks x).state ≠ .unused)
    (hc : t.cloning = (k.tasks x).cloning)
    (hids : (k.tasks x).cloning = none ∨ t.tgid = (k.tasks x).tgid ∧ t.cred = (k.tasks x).cred) :
    Pending (k.set x t) := by
  refine h.frame (Table.set_keeps Task.cloning hc) (fun p hp => ?_) fun j
    hj _ _ => Table.set_of_ne ?_ t
  · by_cases hpx : p = x
    · subst hpx
      rw [Table.set_self]
      exact hids.resolve_left hp
    · rw [Table.set_of_ne hpx]
      exact ⟨rfl, rfl⟩
  · rintro rfl
    exact hx hj

lemma Pending.ite {k' : Table} {p : Prop} [Decidable p] (h : Pending k) (h' : p → Pending k') :
    Pending (if p then k' else k) := by
  split
  · exact h' ‹_›
  · exact h

/-- The task goes on: the slot has what it left there, so the new thread has its ids. -/
lemma Inv.wake (h : Inv k) (hp : Pending k) (hi : (k.tasks i).state = .ready) {kind : ForkKind}
    (hc : (k.tasks i).cloning = some (j, kind)) :
    Inv ((k.set j (marked (k.tasks i) kind (k.tasks j))).set i
    (eventStop { k.tasks i with cloning := none } kind)) := by
  have hlive : k.Live i := .inl hi
  obtain ⟨hst, htg, hcr, hpar, htr, -⟩ := hp.slot i j kind hc
  have hij : i ≠ j := by
    rintro rfl
    exact hlive.used hst
  have hframe : (marked (k.tasks i) kind (k.tasks j)).tgid = (k.tasks i).tgid ∧
      (marked (k.tasks i) kind (k.tasks j)).cred = (k.tasks i).cred ∧
      (marked (k.tasks i) kind (k.tasks j)).parent = none ∧
      ∀ y, (marked (k.tasks i) kind (k.tasks j)).tracer = some y → (k.tasks i).tracer = some y := by
    rw [marked]
    split
    · exact ⟨htg, hcr, hpar, fun y hy => hy⟩
    · exact ⟨htg, hcr, hpar, fun y hy => by rw [htr] at hy; cases hy⟩
  obtain ⟨h1, h2, h3, h4⟩ := hframe
  have hadd : Inv (k.set j (marked (k.tasks i) kind (k.tasks j))) := by
    refine h.add hst le_rfl (by rw [h1]; exact h.fresh i hlive.used) (fun p hp htgp => ?_)
      (fun p hp => ?_) fun y hy => ?_
    · rw [h2]
      exact h.same p i hp hlive (htgp.trans h1)
    · rw [h3] at hp
      cases hp
    · rw [h2]
      exact ⟨h.tracer i y hlive.used (h4 y hy), h.may i y hlive (h4 y hy)⟩
  have hi' : (k.set j (marked (k.tasks i) kind (k.tasks j))).tasks i = k.tasks i :=
    Table.set_of_ne hij _
  have hdone := hadd.stopAfter (i := i) (by rw [hi', hi]) kind none
  rwa [hi'] at hdone

lemma eventStop_cloning (t) (kind : ForkKind) : (eventStop t kind).cloning = t.cloning := by
  unfold eventStop
  split <;> rfl

lemma detach_cloning (t : Task) : (detach t).cloning = t.cloning := by
  unfold detach
  dsimp only
  split <;> rfl

lemma credUpdate_cloning (call) (t u : Task) : (credUpdate call t u).cloning = u.cloning := by
  unfold credUpdate
  split <;> rfl

lemma marked_cloning (t : Task) (kind : ForkKind) (u : Task) :
    (marked t kind u).cloning = u.cloning := by
  unfold marked
  split <;> rfl

lemma leave_cloning (i) (u : Task) : (leave i u).cloning = u.cloning := by
  unfold leave
  dsimp only
  split_ifs <;> simp only [detach_cloning]

lemma Pending.apply (h : Pending k) (hi : (k.tasks i).state = .ready) {act : Act}
    (hwakes : (k.tasks i).cloning.isSome = act.wakes) (hg : Guarded k i act) :
    Pending (apply k i act) := by
  have hused : (k.tasks i).state ≠ .unused := by rw [hi]; decide
  have hstopped : ∀ {x}, stoppedTracee k i x = true → (k.tasks x).state ≠ .unused := fun hx => by
    rw [(stoppedTracee_iff.1 hx).1]
    decide
  have hidle : act.wakes = false → (k.tasks i).cloning = none := fun ha => by
    rw [ha] at hwakes
    exact Option.isNone_iff_eq_none.1 (by rw [← Option.not_isSome, hwakes]; rfl)
  -- where no task sleeps, one more that does not is no matter
  have hmade : ∀ {j : Slot} {t : Nat → Task}, (∀ p, (k.tasks p).cloning = none) →
    (t k.nextPid).cloning = none →
      ∀ p, ((k.put j t).tasks p).cloning = none := by
    intro j t hnone ht p
    by_cases hpj : p = j
    · rw [hpj, Table.put_self, ht]
    · rw [Table.put_of_ne hpj, hnone p]
  have hmadeStop : ∀ {j : Slot} {t : Nat → Task} (kind : ForkKind),
    (∀ p, (k.tasks p).cloning = none) →
      (t k.nextPid).cloning = none → Pending ((k.put j t).set i (eventStop (k.tasks i) kind)) := by
    intro j t kind hnone ht
    refine .of_none fun p => ?_
    by_cases hpi : p = i
    · rw [hpi, Table.set_self, eventStop_cloning, hnone i]
    · rw [Table.set_of_ne hpi]
      exact hmade hnone ht p
  cases act with
  | traceme =>
    simp only [Ptrace.apply]
    split
    · exact h.ite fun _ => h.set hused rfl (.inr ⟨rfl, rfl⟩)
    · exact h
  | attach x => exact h.ite fun hx => h.set hx.1 rfl (.inr ⟨rfl, rfl⟩)
  | setOptions x opts =>
    exact h.ite fun hx => h.set (hstopped (Bool.and_eq_true_iff.1 hx).1) rfl (.inr ⟨rfl, rfl⟩)
  | cont x => exact h.ite fun hx => h.set (hstopped hx) rfl (.inr ⟨rfl, rfl⟩)
  | detach x =>
    exact h.ite fun hx => h.set (hstopped hx) (detach_cloning _)
      (.inr ⟨(detach_frame (k.tasks x)).2.1, (detach_frame (k.tasks x)).1⟩)
  | stop => exact h.ite fun _ => h.set hused rfl (.inr ⟨rfl, rfl⟩)
  | kill x => exact h.ite fun hx => h.set (by rw [hx]; decide) rfl (.inr ⟨rfl, rfl⟩)
  | fork kind =>
    simp only [Ptrace.apply]
    split
    · exact hmadeStop kind hg rfl
    · exact h
  | clone kind =>
    simp only [Ptrace.apply]
    split
    · exact hmadeStop kind hg rfl
    · exact h
  | cloneSleep kind =>
    simp only [Ptrace.apply]
    split
    · rename_i j _ hj
      have hij : i ≠ j := by
        rintro rfl
        exact hused (k.freeSlot_unused hj)
      have hself : ∀ p a, (((k.put j (unmarked (k.tasks i))).set i
          { k.tasks i with cloning := some (j, kind) }).tasks p).cloning = some a → p = i := by
        intro p a hp
        by_contra hpi
        rw [Table.set_of_ne hpi, hmade hg rfl] at hp
        cases hp
      refine ⟨fun p q a b hp hq => (hself p a hp).trans (hself q b hq).symm,
        fun p j' kind' hp => ?_⟩
      obtain rfl := hself p _ hp
      rw [Table.set_self] at hp ⊢
      obtain ⟨rfl, -⟩ : j = j' ∧ kind = kind' := by simpa using hp
      rw [Table.set_of_ne hij.symm, Table.put_self]
      exact ⟨rfl, rfl, rfl, rfl, rfl, rfl⟩
    · exact h
  | cloneWake =>
    simp only [Ptrace.apply]
    split
    · exact h
    rename_i j kind hc
    obtain ⟨-, -, -, -, -, hcl⟩ := h.slot i j kind hc
    refine .of_none fun p => ?_
    by_cases hpi : p = i
    · rw [hpi, Table.set_self, eventStop_cloning]
    rw [Table.set_of_ne hpi]
    by_cases hpj : p = j
    · rw [hpj, Table.set_self, marked_cloning, hcl]
    · rw [Table.set_of_ne hpj]
      by_contra hp
      obtain ⟨a, ha⟩ := Option.ne_none_iff_exists'.1 hp
      exact hpi (h.one p i a _ ha hc)
  | spawn setuid setgid =>
    simp only [Ptrace.apply]
    split
    · exact h
    · exact .of_none (hmade hg rfl)
  | exec setuid setgid => exact h.ite fun _ => h.set hused rfl (.inl (hidle rfl))
  | cred call =>
    refine h.ite fun _ => h.frame (fun p => ?_) (fun p hp => ?_) fun j hj _ _ => ?_
    · exact credUpdate_cloning call _ _
    · have hne := hg.2 p hp
      simp only [Table.map, credUpdate, hne, and_false, if_false, and_self]
    · simp only [Table.map, credUpdate, hj, ne_eq, not_true_eq_false, false_and, if_false]
  | exit =>
    have hleave : Pending (k.map (leave i)) := by
      refine h.frame (fun p => leave_cloning i _) (fun p _ => ?_) fun j _ hpar htr => ?_
      · exact ⟨(leave_frame i (k.tasks p)).2.1, (leave_frame i (k.tasks p)).1⟩
      · simp only [Table.map, leave, hpar, htr, reduceCtorEq, if_false]
    refine hleave.set ?_ rfl (.inr ⟨rfl, rfl⟩)
    rcases (leave_frame i (k.tasks i)).2.2.2.2 with hst | ⟨-, hst⟩
    · simpa only [Table.map, hst] using hused
    · simp only [Table.map, hst, ne_eq, reduceCtorEq, not_false_eq_true]
  | reap x => exact h.ite fun hx => h.set (by rw [hx]; decide) rfl (.inr ⟨rfl, rfl⟩)

lemma Inv.apply (h : Inv k) (hp : Pending k) (hi : (k.tasks i).state = .ready) {act : Act}
    (hg : Guarded k i act) : Inv (apply k i act) := by
  have hlive : k.Live i := .inl hi
  cases act with
  | traceme =>
    simp only [Ptrace.apply]
    split
    · rename_i p htracer hparent
      split
      · refine h.setLive hlive (.inl hi) rfl rfl rfl fun y hy => ?_
        obtain rfl := Option.some.inj hy
        exact ⟨h.parent i p hlive.used hparent, hg p hparent⟩
      · exact h
    · exact h
  | attach x =>
    refine h.ite fun ⟨hused, hzombie, _, _, _, _, hmay⟩ => ?_
    have hx : k.Live x := by
      cases hs : (k.tasks x).state with
      | unused => exact absurd hs hused
      | ready => exact .inl hs
      | traced => exact .inr hs
      | zombie => exact absurd hs hzombie
    refine h.setLive hx hx rfl rfl rfl fun y hy => ?_
    obtain rfl := Option.some.inj hy
    exact ⟨hlive, hmay⟩
  | setOptions x opts =>
    refine h.ite fun hx => ?_
    have hx : k.Live x := .inr (stoppedTracee_iff.1 (Bool.and_eq_true_iff.1 hx).1).1
    exact h.keep hx hx rfl rfl rfl (.inl rfl)
  | cont x =>
    exact h.ite fun hx => h.keep (.inr (stoppedTracee_iff.1 hx).1) (.inl rfl) rfl rfl rfl (.inl rfl)
  | detach x =>
    refine h.ite fun hx => ?_
    have hs := (stoppedTracee_iff.1 hx).1
    obtain ⟨h1, h2, h3, h4⟩ := detach_frame (k.tasks x)
    exact h.keep (.inr hs) (.inl (by rw [detach_state, if_pos hs])) h2 h1 h3 (.inr h4)
  | stop => exact h.ite fun _ => h.keep hlive (.inr rfl) rfl rfl rfl (.inl rfl)
  | kill x => exact h.ite fun hx => h.keep (.inr hx) (.inl rfl) rfl rfl rfl (.inl rfl)
  | fork kind =>
    simp only [Ptrace.apply]
    split
    · rename_i hj
      refine h.makeChild hi (k.freeSlot_unused hj) kind le_rfl (fun p hp htg => ?_) (.inl rfl)
      exact absurd htg (h.fresh p hp.used).ne
    · exact h
  | clone kind =>
    simp only [Ptrace.apply]
    split
    · rename_i hj
      exact h.makeChild hi (k.freeSlot_unused hj) kind (h.fresh i hlive.used).le
        (fun p hp htg => h.same p i hp hlive htg) (.inr rfl)
    · exact h
  | cloneSleep kind =>
    simp only [Ptrace.apply]
    split
    · rename_i j _ hj
      have hij : i ≠ j := by
        rintro rfl
        exact hlive.used (k.freeSlot_unused hj)
      have hput : Inv (k.put j (unmarked (k.tasks i))) :=
        h.put (k.freeSlot_unused hj) (h.fresh i hlive.used).le
          (fun p hp htg => h.same p i hp hlive htg)
          (fun p hp => by cases hp) fun y hy => by cases hy
      have hi' : (k.put j (unmarked (k.tasks i))).tasks i = k.tasks i := Table.put_of_ne hij _
      exact hput.keep (.inl (by rw [hi', hi])) (.inl hi) (by rw [hi']) (by rw [hi']) (by rw [hi'])
        (.inl (by rw [hi']))
    · exact h
  | cloneWake =>
    simp only [Ptrace.apply]
    split
    · exact h
    rename_i j kind hc
    exact h.wake hp hi hc
  | spawn setuid setgid =>
    simp only [Ptrace.apply]
    split
    · exact h
    rename_i hj
    refine h.put (k.freeSlot_unused hj) le_rfl (fun p hp htg => ?_) (fun p hp => ?_) fun y hy => ?_
    · exact absurd htg (h.fresh p hp.used).ne
    · obtain rfl := Option.some.inj hp
      exact hlive
    · cases hy
  | exec setuid setgid => exact h.ite fun hone => h.exec hlive (Bool.and_eq_true_iff.1 hone).2 hg
  | cred call => exact h.ite fun hp => h.credCall hlive hp hg
  | exit => exact h.exit hlive
  | reap x => exact h.ite fun hx => h.reap hx

lemma of_run (hrun : Relation.ReflTransGen GuardedSteps boot k) : Inv k ∧ Pending k := by
  induction hrun with
  | refl => exact ⟨inv_boot, .of_none fun _ => rfl⟩
  | tail _ hs ih =>
    obtain ⟨i, act, hs, hg⟩ := hs
    simp only [step, Option.ite_none_right_eq_some, Option.some.injEq] at hs
    obtain ⟨⟨hi, hwakes⟩, rfl⟩ := hs
    exact ⟨ih.1.apply ih.2 hi hg, ih.2.apply hi hwakes hg⟩

end

/-! ## A traced set-user-id program -/

/-- The first task. -/
def slot₀ : Slot := ⟨0, by decide⟩
/-- Its child. -/
def slot₁ : Slot := ⟨1, by decide⟩
/-- The child of that. -/
def slot₂ : Slot := ⟨2, by decide⟩

/-- A child that has given up root, and has a child of its own. -/
def parentAndChild : Table :=
  apply (apply (apply boot slot₀ (.spawn none none)) slot₁ (.cred (.setuid 1000))) slot₁
    (.fork .fork)

lemma parentAndChild_run : Relation.ReflTransGen GuardedSteps boot parentAndChild := by
  have hput : apply boot slot₀ (.spawn none none) = boot.put slot₁ fun pid =>
    ⟨.ready, pid, pid, some slot₀, true, .root, none, 0, false, none⟩ := rfl
  have hspawned : ∀ x, ((apply boot slot₀ (.spawn none none)).tasks x).tracer = none ∧
      ((apply boot slot₀ (.spawn none none)).tasks x).cloning = none := by
    intro x
    rw [hput]
    by_cases hx1 : x = slot₁
    · rw [hx1, Table.put_self]
      exact ⟨rfl, rfl⟩
    · rw [Table.put_of_ne hx1]
      exact ⟨rfl, rfl⟩
  refine .tail (.tail (.tail .refl ⟨slot₀, .spawn none none, rfl, fun _ => rfl⟩)
    ⟨slot₁, .cred (.setuid 1000), rfl, ?_, fun p hp => absurd (hspawned p).2 hp⟩)
    ⟨slot₁, .fork .fork, rfl, fun p => (credUpdate_cloning _ _ _).trans (hspawned p).2⟩
  rintro y ⟨x, -, hx⟩ -
  rw [(hspawned x).1] at hx
  cases hx

/-- **No task points at a dead one**, as its parent or its tracer. -/
theorem live_pointers {k : Table} (hrun : Relation.ReflTransGen GuardedSteps boot k) (x y : Slot)
    (hx : k.Used x)
    (hy : (k.tasks x).parent = some y ∨ (k.tasks x).tracer = some y) : k.Live y :=
  hy.elim ((of_run hrun).1.parent x y hx) ((of_run hrun).1.tracer x y hx)

theorem live_pointers_child : parentAndChild.Live slot₁ :=
  live_pointers parentAndChild_run slot₂ slot₁ (show TaskState.ready ≠ .unused by decide) (.inl rfl)

end Sage040.Ptrace
