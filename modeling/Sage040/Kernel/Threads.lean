import Sage040.Kernel.Cred

/-!
# The credentials of a process

The task table of `kernel/task.c`, as far as credentials go: making tasks (`fork`, `clone`,
`exec_spawn`), ending them, and the calls of `kernel/syslinux.c` that change ids and groups.
Credentials are kept per task, but they belong to the process: its threads should all have the
same ones, and without privilege they should only ever shrink.

A task can be switched away from only where it copies to or from user memory and the page has to be
brought in. That is in `setgroups`, between the test of the effective uid and the list, and in
`clone`, after the new thread has been given its credentials and before it is visible in the
table. Both are steps of their own here.

`credentials_of_orderly_run` says what holds in runs in which nothing else happens to the process
or the table meanwhile.
-/

namespace Sage040.Threads

open Function

/-! ## The table -/

def taskMax : Nat := 64

abbrev Slot := Fin taskMax

def ngroupsMax : Nat := 32

/-- Whether the slot is free, has a task that can run (now or when woken), or a dead one. -/
inductive TaskState
  | unused
  | ready
  | zombie
  deriving DecidableEq

/-- Where in the kernel a task is asleep, if it is. -/
inductive Doing
  | running
  /-- In `setgroups`, for the list of groups to be brought in. -/
  | setgroups (n : Nat)
  /-- In `clone`, for the page the new thread's id is stored in. -/
  | clone (child : Slot)
  deriving DecidableEq

structure Task where
  state : TaskState
  pid : Nat
  /-- The process: the pid of its first thread. -/
  tgid : Nat
  /-- It has an address space: it is not a kernel task. -/
  user : Bool
  cred : Cred
  doing : Doing

structure Table where
  tasks : Slot → Task
  nextPid : Nat

def boot : Table where
  tasks := fun i => ⟨if i.val = 0 then .ready else .unused, 1, 1, false, .root, .running⟩
  nextPid := 2

namespace Table

def set (k : Table) (i : Slot) (t : Task) : Table := { k with tasks := update k.tasks i t }

/-- The slot `alloc_task` takes: the first unused one. -/
def freeSlot (k : Table) : Option Slot :=
  (List.finRange taskMax).find? fun i => (k.tasks i).state = .unused

/-- `alloc_task` and what its caller then stores in the slot. -/
def fill (k : Table) (j : Slot) (state : TaskState) (tgid : Nat) (cred : Cred) : Table where
  tasks := update k.tasks j ⟨state, k.nextPid, tgid, true, cred, .running⟩
  nextPid := k.nextPid + 1

/-- Every task of the process, as the loops over `task_nth` find them. -/
def updateGroup (k : Table) (tgid : Nat) (f : Cred → Cred) : Table where
  tasks := fun i =>
    if (k.tasks i).state ≠ .unused ∧ (k.tasks i).tgid = tgid then
      { k.tasks i with cred := f (k.tasks i).cred }
    else k.tasks i
  nextPid := k.nextPid

end Table

/-! ## Steps -/

inductive Act
  | cred (call : CredCall)
  /-- `setgroups`, with the list at hand. -/
  | setgroups (list : List Nat)
  /-- `setgroups`, of which the list has to be brought in; then with it, or with an error. -/
  | setgroupsSleep (n : Nat)
  | setgroupsWake (list : List Nat)
  | setgroupsFault
  /-- A new process, by `fork` or `exec_spawn`. -/
  | fork
  | spawn
  /-- One that fails after it has taken a slot. -/
  | forkFails
  /-- A new thread, all at once, or with a page to be brought in. -/
  | clone
  | cloneSleep
  | cloneWake
  /-- `exec_replace` of a file without set-id bits. -/
  | exec
  | exit
  /-- The slot of a dead task is given back. -/
  | reap (slot : Slot)

/-- The task is running in user mode, or about to be. -/
def Task.canAct (t : Task) : Bool := t.state = .ready && t.doing = .running

/-- A new task in the first free slot; nothing happens if there is none. -/
def create (k : Table) (f : Slot → Table) : Table :=
  match k.freeSlot with
  | none => k
  | some j => f j

/-- The step of the task in slot `i`, if it can take it. -/
def step (k : Table) (i : Slot) (act : Act) : Option Table :=
  let t := k.tasks i
  match act with
  | .cred call =>
    if t.canAct then
      some (if call.permitted t.cred then k.updateGroup t.tgid (call.update t.cred ·) else k)
    else none
  | .setgroups list =>
    if t.canAct then
      some (if t.cred.euid = 0 ∧ list.length ≤ ngroupsMax then
        k.set i { t with cred := { t.cred with groups := list } } else k)
    else none
  | .setgroupsSleep n =>
    if t.canAct then
      some (if t.cred.euid = 0 ∧ n ≤ ngroupsMax then
        k.set i { t with doing := .setgroups n } else k)
    else none
  | .setgroupsWake list =>
    if t.state = .ready ∧ t.doing = .setgroups list.length then
      some (k.set i { t with cred := { t.cred with groups := list }, doing := .running })
    else none
  | .setgroupsFault =>
    match t.state, t.doing with
    | .ready, .setgroups _ => some (k.set i { t with doing := .running })
    | _, _ => none
  | .fork =>
    if t.canAct && t.user then
      some (create k fun j => k.fill j .ready k.nextPid t.cred)
    else none
  | .spawn =>
    if t.canAct then some (create k fun j => k.fill j .ready k.nextPid t.cred) else none
  | .forkFails =>
    if t.canAct then some (create k fun j => k.fill j .unused k.nextPid .root) else none
  | .clone =>
    if t.canAct && t.user then some (create k fun j => k.fill j .ready t.tgid t.cred) else none
  | .cloneSleep =>
    if t.canAct && t.user then
      some (create k fun j => (k.fill j .unused t.tgid t.cred).set i { t with doing := .clone j })
    else none
  | .cloneWake =>
    match t.state, t.doing with
    | .ready, .clone j =>
      some ((k.set j { k.tasks j with state := .ready }).set i { t with doing := .running })
    | _, _ => none
  | .exec => if t.canAct && t.user then some k else none
  | .exit => if t.canAct then some (k.set i { t with state := .zombie }) else none
  | .reap j =>
    if t.canAct ∧ (k.tasks j).state = .zombie then
      some (k.set j { k.tasks j with state := .unused })
    else none

/-! ## Runs -/

/-- The task can run, or will when it is woken. -/
def Table.Ready (k : Table) (i : Slot) : Prop := (k.tasks i).state = .ready

/-- The task in slot `i` is asleep in `clone`, with the new thread in slot `j`. -/
def Table.Cloning (k : Table) (i j : Slot) : Prop := k.Ready i ∧ (k.tasks i).doing = .clone j

def Table.Alone (k : Table) (i : Slot) : Prop :=
  ∀ j, k.Ready j → (k.tasks j).tgid = (k.tasks i).tgid → j = i

/-- Nothing gets in the way of a call that is asleep or sees only its own thread: groups are set by
a process of one thread; ids do not change while the process makes a thread; and no task is made
while a slot is taken and not yet marked so. -/
def Orderly (k : Table) (i : Slot) : Act → Prop
  | .cred _ => ∀ p j, k.Cloning p j → (k.tasks p).tgid ≠ (k.tasks i).tgid
  | .setgroups _ | .setgroupsSleep _ => k.Alone i
  | .fork | .spawn | .forkFails | .clone | .cloneSleep => ∀ p j, ¬k.Cloning p j
  | _ => True

def Steps (k k' : Table) : Prop := ∃ i act, step k i act = some k'

def OrderlySteps (k k' : Table) : Prop := ∃ i act, step k i act = some k' ∧ Orderly k i act

/-! ## The invariant -/

structure Inv (k : Table) : Prop where
  /-- The threads of a process have the same credentials. -/
  same : ∀ i j, k.Ready i → k.Ready j → (k.tasks i).tgid = (k.tasks j).tgid →
    (k.tasks i).cred = (k.tasks j).cred
  /-- Process ids are not reused. -/
  fresh : ∀ i, k.Ready i → (k.tasks i).tgid < k.nextPid
  /-- One thread at a time is being made. -/
  one : ∀ i j a b, k.Cloning i a → k.Cloning j b → i = j
  /-- It has its maker's credentials. -/
  pending : ∀ i j, k.Cloning i j → (k.tasks j).state = .unused ∧
    (k.tasks j).tgid = (k.tasks i).tgid ∧ (k.tasks j).cred = (k.tasks i).cred ∧
    (k.tasks j).doing = .running
  /-- A task asleep in `setgroups` is privileged, and alone. -/
  alone : ∀ i n, k.Ready i → (k.tasks i).doing = .setgroups n →
    (k.tasks i).cred.euid = 0 ∧ k.Alone i

section

variable {k : Table} {i j s : Slot}

@[simp] lemma Table.set_tasks (t : Task) : (k.set i t).tasks s = if s = i then t else k.tasks s :=
    update_apply ..

variable {tgid : Nat} {cred : Cred}

@[simp] lemma Table.fill_tasks (state : TaskState) (tgid) (cred) :
    (k.fill j state tgid cred).tasks s =
      if s = j then ⟨state, k.nextPid, tgid, true, cred, .running⟩ else k.tasks s :=
  update_apply ..

lemma Table.freeSlot_unused (h : k.freeSlot = some j) : (k.tasks j).state = .unused := by
  simpa using List.find?_some h

lemma inv_boot : Inv boot := by
  have hready : ∀ i, boot.Ready i → i.val = 0 := by
    intro i hi
    by_contra h
    simp [Table.Ready, boot, h] at hi
  refine ⟨fun _ _ _ _ _ => rfl, fun _ _ => Nat.lt_succ_self 1, ?_, ?_, ?_⟩
  · intro i j _ _ hi hj
    exact Fin.ext ((hready i hi.1).trans (hready j hj.1).symm)
  · exact fun i j h => nomatch h.2
  · exact fun i n _ h => nomatch h

variable (g : Nat) (f : Cred → Cred)

lemma Table.updateGroup_frame (s) : ((k.updateGroup g f).tasks s).state = (k.tasks s).state ∧
      ((k.updateGroup g f).tasks s).tgid = (k.tasks s).tgid ∧
      ((k.updateGroup g f).tasks s).doing = (k.tasks s).doing := by
  unfold updateGroup
  dsimp only
  split <;> exact ⟨rfl, rfl, rfl⟩

lemma Table.updateGroup_cred (hs : k.Ready s) : ((k.updateGroup g f).tasks s).cred =
      if (k.tasks s).tgid = g then f (k.tasks s).cred else (k.tasks s).cred := by
  have hs' : (k.tasks s).state ≠ .unused := fun h => nomatch hs.symm.trans h
  unfold updateGroup
  simp only [hs', ne_eq, not_false_eq_true, true_and]
  split <;> rfl

lemma Table.updateGroup_ready : (k.updateGroup g f).Ready s ↔ k.Ready s := by
  unfold Ready
  rw [(updateGroup_frame g f s).1]

lemma Table.updateGroup_cloning : (k.updateGroup g f).Cloning i j ↔ k.Cloning i j := by
  unfold Cloning
  rw [updateGroup_ready, (updateGroup_frame g f i).2.2]

variable {g} {f}

lemma Table.updateGroup_of_ne {g f} (h : (k.tasks s).tgid ≠ g) :
    (k.updateGroup g f).tasks s = k.tasks s := by
  unfold updateGroup
  exact if_neg fun h' => h h'.2

variable (h : Inv k)

include h

lemma Inv.updateGroup (hi : k.Ready i) (hrun : (k.tasks i).doing = .running)
    (hno : ∀ p j, k.Cloning p j → (k.tasks p).tgid ≠ (k.tasks i).tgid) (f) :
    Inv (k.updateGroup (k.tasks i).tgid f) := by
  have hframe := Table.updateGroup_frame (k := k) (k.tasks i).tgid f
  refine ⟨?_, ?_, ?_, ?_, ?_⟩
  · intro p q hp hq htg
    rw [Table.updateGroup_ready] at hp hq
    rw [(hframe p).2.1, (hframe q).2.1] at htg
    rw [Table.updateGroup_cred _ _ hp, Table.updateGroup_cred _ _ hq, h.same p q hp hq htg, htg]
  · intro p hp
    rw [Table.updateGroup_ready] at hp
    rw [(hframe p).2.1]
    exact h.fresh p hp
  · intro p q a b hp hq
    rw [Table.updateGroup_cloning] at hp hq
    exact h.one p q a b hp hq
  · intro p j hp
    rw [Table.updateGroup_cloning] at hp
    obtain ⟨hu, htg, hc⟩ := h.pending p j hp
    rw [Table.updateGroup_of_ne (hno p j hp), Table.updateGroup_of_ne (htg ▸ hno p j hp)]
    exact ⟨hu, htg, hc⟩
  · intro p n hp hdoing
    rw [Table.updateGroup_ready] at hp
    rw [(hframe p).2.2] at hdoing
    obtain ⟨heuid, halone⟩ := h.alone p n hp hdoing
    have hne : (k.tasks p).tgid ≠ (k.tasks i).tgid := by
      intro htg
      rw [halone i hi htg.symm, hdoing] at hrun
      cases hrun
    rw [Table.updateGroup_of_ne hne]
    refine ⟨heuid, fun q hq htg => ?_⟩
    rw [Table.updateGroup_ready] at hq
    rw [(hframe q).2.1, (hframe p).2.1] at htg
    exact halone q hq htg

variable {act : Act} {t : Task} {k' : Table}

/-- The task in a slot is replaced, and none that is being made is in it. A new one that can run has
the credentials of whatever is in its process, and if it is asleep in a call, what that call needs.
-/
lemma Inv.put (htasks : k'.tasks = update k.tasks s t)
    (hnext : k.nextPid ≤ k'.nextPid) (hmaker : ∀ p j, p ≠ s → k.Cloning p j → j ≠ s)
    (hready : t.state = .ready → t.tgid < k'.nextPid ∧ ∀ p, p ≠ s → k.Ready p →
    (k.tasks p).tgid = t.tgid →
      (k.tasks p).cred = t.cred ∧ ∀ n, (k.tasks p).doing ≠ .setgroups n ∧ t.doing ≠ .setgroups n)
    (hgroups : ∀ n, t.state = .ready → t.doing = .setgroups n → t.cred.euid = 0)
    (hclone : ∀ j, t.state = .ready → t.doing = .clone j → j ≠ s ∧ (∀ p a, p ≠ s → ¬k.Cloning p a) ∧
      (k.tasks j).state = .unused ∧ (k.tasks j).tgid = t.tgid ∧ (k.tasks j).cred = t.cred ∧
      (k.tasks j).doing = .running) : Inv k' := by
  have hself : k'.tasks s = t := by rw [htasks, update_self]
  have hne : ∀ p, p ≠ s → k'.tasks p = k.tasks p := fun p hp => by rw [htasks, update_of_ne hp]
  have hready' : ∀ p, p ≠ s → k'.Ready p → k.Ready p :=
    fun p hp hr => by rwa [Table.Ready, hne p hp] at hr
  have hcloning' : ∀ p j, p ≠ s → k'.Cloning p j → k.Cloning p j := fun p j hp hc => by
    rwa [Table.Cloning, Table.Ready, hne p hp] at hc
  have hnew : k'.Ready s → t.state = .ready := fun hr => by rwa [Table.Ready, hself] at hr
  have hnew' : ∀ j, k'.Cloning s j → t.state = .ready ∧ t.doing = .clone j := fun j hc => by
    rwa [Table.Cloning, Table.Ready, hself] at hc
  refine ⟨fun p q hp hq htg => ?_, fun p hp => ?_, fun p q a b hp hq => ?_, fun p j hp => ?_,
    fun p n hp hdoing => ?_⟩
  · by_cases hps : p = s <;> by_cases hqs : q = s
    · rw [hps, hqs]
    · subst hps
      rw [hself, hne q hqs] at htg ⊢
      exact ((hready (hnew hp)).2 q hqs (hready' q hqs hq) htg.symm).1.symm
    · subst hqs
      rw [hself, hne p hps] at htg ⊢
      exact ((hready (hnew hq)).2 p hps (hready' p hps hp) htg).1
    · rw [hne p hps, hne q hqs] at htg ⊢
      exact h.same p q (hready' p hps hp) (hready' q hqs hq) htg
  · by_cases hps : p = s
    · subst hps
      rw [hself]
      exact (hready (hnew hp)).1
    · rw [hne p hps]
      exact Nat.lt_of_lt_of_le (h.fresh p (hready' p hps hp)) hnext
  · by_cases hps : p = s <;> by_cases hqs : q = s
    · rw [hps, hqs]
    · subst hps
      obtain ⟨hst, hd⟩ := hnew' a hp
      exact absurd (hcloning' q b hqs hq) ((hclone a hst hd).2.1 q b hqs)
    · subst hqs
      obtain ⟨hst, hd⟩ := hnew' b hq
      exact absurd (hcloning' p a hps hp) ((hclone b hst hd).2.1 p a hps)
    · exact h.one p q a b (hcloning' p a hps hp) (hcloning' q b hqs hq)
  · by_cases hps : p = s
    · subst hps
      obtain ⟨hst, hd⟩ := hnew' j hp
      obtain ⟨hj, -, hpend⟩ := hclone j hst hd
      rw [hself, hne j hj]
      exact hpend
    · have hc := hcloning' p j hps hp
      rw [hne p hps, hne j (hmaker p j hps hc)]
      exact h.pending p j hc
  · by_cases hps : p = s
    · subst hps
      rw [hself] at hdoing ⊢
      refine ⟨hgroups n (hnew hp) hdoing, fun q hq htg => ?_⟩
      by_contra hqs
      rw [hself, hne q hqs] at htg
      exact (((hready (hnew hp)).2 q hqs (hready' q hqs hq) htg).2 n).2 hdoing
    rw [hne p hps] at hdoing ⊢
    obtain ⟨heuid, halone⟩ := h.alone p n (hready' p hps hp) hdoing
    refine ⟨heuid, fun q hq htg => ?_⟩
    rw [hne p hps] at htg
    by_cases hqs : q = s
    · subst hqs
      rw [hself] at htg
      exact absurd hdoing (((hready (hnew hq)).2 p hps (hready' p hps hp) htg.symm).2 n).1
    · rw [hne q hqs] at htg
      exact halone q (hready' q hqs hq) htg

lemma Inv.maker_ne (hs : (k.tasks s).state ≠ .unused) (p j : Slot)
    (hc : k.Cloning p j) : j ≠ s := by
  rintro rfl
  exact hs (h.pending p j hc).1

omit h in
lemma Table.Ready.used (hi : k.Ready i) : (k.tasks i).state ≠ .unused :=
    fun h => nomatch hi.symm.trans h

lemma Inv.setAlone (hi : k.Ready i) (ha : k.Alone i)
    (htg : t.tgid = (k.tasks i).tgid) (hclone : ∀ j, t.doing ≠ .clone j)
    (hgroups : ∀ n, t.doing = .setgroups n → t.cred.euid = 0) : Inv (k.set i t) := by
  refine h.put rfl (Nat.le_refl _) (fun p j _ => h.maker_ne hi.used p j)
    (fun _ => ⟨?_, fun p hp hr htg' => ?_⟩)
    (fun n _ => hgroups n) fun j _ hd => absurd hd (hclone j)
  · rw [htg]
    exact h.fresh i hi
  · exact absurd (ha p hr (htg'.trans htg)) hp

lemma Inv.setDead (hs : (k.tasks s).state ≠ .unused) (hdead : t.state ≠ .ready) : Inv (k.set s t) :=
  h.put rfl (Nat.le_refl _) (fun p j _ => h.maker_ne hs p j) (fun hr => absurd hr hdead) (fun _
    hr => absurd hr hdead)
    fun _ hr => absurd hr hdead

/-- A new task, with the credentials of whatever is in its process already. -/
lemma Inv.fillReady (hno : ∀ p j, ¬k.Cloning p j) (htg : tgid ≤ k.nextPid)
    (hp : ∀ p, k.Ready p → (k.tasks p).tgid = tgid → (k.tasks p).cred = cred ∧ ∀ n,
    (k.tasks p).doing ≠ .setgroups n) :
    Inv (k.fill j .ready tgid cred) := by
  refine h.put rfl (Nat.le_succ _) (fun p j _ hc => absurd hc (hno p j))
    (fun _ => ⟨Nat.lt_succ_of_le htg, ?_⟩)
    (fun n _ hd => Doing.noConfusion hd) fun j _ hd => Doing.noConfusion hd
  intro p _ hr htg'
  obtain ⟨hc, hd⟩ := hp p hr htg'
  exact ⟨hc, fun n => ⟨hd n, fun h => Doing.noConfusion h⟩⟩

lemma Inv.fillUnused (hno : ∀ p j, ¬k.Cloning p j) (tgid) (cred) :
    Inv (k.fill j .unused tgid cred) :=
  h.put rfl (Nat.le_succ _) (fun p j _ hc => absurd hc (hno p j))
    (fun hr => TaskState.noConfusion hr)
    (fun _ hr => TaskState.noConfusion hr) fun _ hr => TaskState.noConfusion hr

/-- A task that can act is asleep in nothing, so it is no task of a process that is alone. -/
lemma Inv.not_setgroups (hi : k.Ready i) (hrun : ∀ n, (k.tasks i).doing ≠ .setgroups n)
    {p : Slot} (hp : k.Ready p) (htg : (k.tasks p).tgid = (k.tasks i).tgid) (n : Nat) :
    (k.tasks p).doing ≠ .setgroups n := by
  intro hdoing
  obtain rfl := (h.alone p n hp hdoing).2 i hi htg.symm
  exact hrun n hdoing

/-- A task falls asleep in `clone` or wakes in it: it changes in nothing else. -/
lemma Inv.setDoing (hi : k.Ready i) (hrun : ∀ n, (k.tasks i).doing ≠ .setgroups n) {d : Doing}
    (hd : ∀ n, d ≠ .setgroups n) (hclone : ∀ j, d = .clone j → j ≠ i ∧
    (∀ p a, p ≠ i → ¬k.Cloning p a) ∧
      (k.tasks j).state = .unused ∧ (k.tasks j).tgid = (k.tasks i).tgid ∧
      (k.tasks j).cred = (k.tasks i).cred ∧
      (k.tasks j).doing = .running) : Inv (k.set i { k.tasks i with doing := d }) := by
  refine h.put rfl (Nat.le_refl _) (fun p j _ => h.maker_ne hi.used p j)
    (fun _ => ⟨h.fresh i hi, ?_⟩)
    (fun n _ hd' => absurd hd' (hd n)) fun j _ => hclone j
  exact fun p _ hr htg => ⟨h.same p i hr hi htg, fun n => ⟨h.not_setgroups hi hrun hr htg n, hd n⟩⟩

/-- A task falls asleep in `clone`, its new thread in a slot that is not marked yet. -/
lemma Inv.cloneSleep (hno : ∀ p j, ¬k.Cloning p j) (hi : k.Ready i)
    (hrun : (k.tasks i).doing = .running) (hj : (k.tasks j).state = .unused) :
    Inv ((k.fill j .unused (k.tasks i).tgid (k.tasks i).cred).set i { k.tasks i with doing := .clone j }) := by
  have hij : i ≠ j := by
    rintro rfl
    exact hi.used hj
  have hi1 : (k.fill j .unused (k.tasks i).tgid (k.tasks i).cred).tasks i = k.tasks i := by simp [hij]
  have h1 := h.fillUnused (j := j) hno (k.tasks i).tgid (k.tasks i).cred
  have hno1 : ∀ p a, p ≠ i → ¬(k.fill j .unused (k.tasks i).tgid (k.tasks i).cred).Cloning p a := by
    intro p a _ hc
    by_cases hpj : p = j
    · subst hpj
      simpa using hc.2
    · exact hno p a (by simpa [Table.Cloning, Table.Ready, hpj] using hc)
  have := h1.setDoing (i := i) (d := .clone j) (by rwa [Table.Ready, hi1]) (by simp [hij, hrun])
    (fun n h => Doing.noConfusion h) fun a ha => by
      cases ha
      refine ⟨hij.symm, hno1, ?_⟩
      simp [hij]
  rwa [hi1] at this

lemma Inv.cloneWake (hc : k.Cloning i j) : Inv ((k.set j { k.tasks j with state := .ready }).set i
      { k.tasks i with doing := .running }) := by
  obtain ⟨hu, htg, hcred, hrun⟩ := h.pending i j hc
  have hij : i ≠ j := by
    rintro rfl
    exact hc.1.used hu
  have hnot : ∀ n, (k.tasks i).doing ≠ .setgroups n := fun n => by simp [hc.2]
  -- the maker first: then nobody is making the thread any more
  have h1 := h.setDoing hc.1 hnot (d := .running) (fun n h => Doing.noConfusion h) fun a
    h => Doing.noConfusion h
  refine h1.put (update_comm hij.symm _ _ _) (Nat.le_refl _) (fun p a hp hc' => ?_)
    (fun _ => ⟨?_, fun p hp hr htg' => ?_⟩) (fun n _ hd => ?_) fun a _ hd => ?_
  · by_cases hpi : p = i
    · subst hpi
      simpa using hc'.2
    · exact absurd (h.one p i a j (by simpa [Table.Cloning, Table.Ready, hpi] using hc') hc) hpi
  · rw [htg]
    exact h.fresh i hc.1
  · have hold : k.Ready p ∧ (k.tasks p).tgid = (k.tasks i).tgid := by
      by_cases hpi : p = i
      · rw [hpi]
        exact ⟨hc.1, rfl⟩
      · exact ⟨by simpa [Table.Ready, hpi] using hr, by simpa [hpi, htg] using htg'⟩
    have hcp : ((k.set i { k.tasks i with doing := .running }).tasks p).cred = (k.tasks i).cred :=
        by
      rw [← h.same p i hold.1 hc.1 hold.2, Table.set_tasks]
      split
      · rename_i hpi
        rw [hpi]
      · rfl
    refine ⟨hcp.trans hcred.symm, fun n => ⟨?_, by simp [hrun]⟩⟩
    rw [Table.set_tasks]
    split
    · exact fun h => Doing.noConfusion h
    · exact h.not_setgroups hc.1 hnot hold.1 hold.2 n
  · simp [hrun] at hd
  · simp [hrun] at hd

omit h in
lemma Task.canAct_iff : t.canAct = true ↔ t.state = .ready ∧ t.doing = .running := by
  simp [Task.canAct]

omit h in
lemma acts {x k' : Table} (hs : (if (k.tasks i).canAct then some x else none) = some k') :
    k.Ready i ∧ (k.tasks i).doing = .running ∧ k' = x := by
  simp only [Option.ite_none_right_eq_some, Task.canAct_iff, Option.some.injEq] at hs
  exact ⟨hs.1.1, hs.1.2, hs.2.symm⟩

omit h in
lemma acts_user {x k' : Table}
    (hs : (if (k.tasks i).canAct && (k.tasks i).user then some x else none) = some k') :
    k.Ready i ∧ (k.tasks i).doing = .running ∧ k' = x := by
  split at hs
  · rename_i hact
    exact acts ((if_pos (Bool.and_eq_true_iff.1 hact).1).trans hs)
  · cases hs

lemma Inv.createProcess (hno : ∀ p j, ¬k.Cloning p j) (cred) :
    Inv (create k fun j => k.fill j .ready k.nextPid cred) := by
  unfold create
  split
  · exact h
  refine h.fillReady hno le_rfl fun p hp htg => ?_
  exact absurd htg (h.fresh p hp).ne

lemma Inv.createThread (hno : ∀ p j, ¬k.Cloning p j) (hi : k.Ready i)
    (hrun : (k.tasks i).doing = .running) :
    Inv (create k fun j => k.fill j .ready (k.tasks i).tgid (k.tasks i).cred) := by
  unfold create
  split
  · exact h
  refine h.fillReady hno (h.fresh i hi).le fun p hp htg => ?_
  exact ⟨h.same p i hp hi htg, h.not_setgroups hi (by simp [hrun]) hp htg⟩

lemma Inv.step (hs : step k i act = some k') (ho : Orderly k i act) : Inv k' := by
  cases act with
  | cred call =>
    obtain ⟨hi, hrun, rfl⟩ := acts hs
    split
    · exact h.updateGroup hi hrun ho _
    · exact h
  | setgroups list =>
    obtain ⟨hi, hrun, rfl⟩ := acts hs
    split
    · exact h.setAlone hi ho rfl (by simp [hrun]) (by simp [hrun])
    · exact h
  | setgroupsSleep n =>
    obtain ⟨hi, hrun, rfl⟩ := acts hs
    split
    · rename_i heuid
      exact h.setAlone hi ho rfl (by simp) fun _ _ => heuid.1
    · exact h
  | setgroupsWake list =>
    simp only [Threads.step, Option.ite_none_right_eq_some, Option.some.injEq] at hs
    obtain ⟨⟨hi, hdoing⟩, rfl⟩ := hs
    exact h.setAlone hi (h.alone i _ hi hdoing).2 rfl (by simp) (by simp)
  | setgroupsFault =>
    simp only [Threads.step] at hs
    split at hs
    · rename_i n hi hdoing
      cases hs
      exact h.setAlone hi (h.alone i n hi hdoing).2 rfl (by simp) (by simp)
    · cases hs
  | fork =>
    obtain ⟨-, -, rfl⟩ := acts_user hs
    exact h.createProcess ho _
  | spawn =>
    obtain ⟨-, -, rfl⟩ := acts hs
    exact h.createProcess ho _
  | forkFails =>
    obtain ⟨-, -, rfl⟩ := acts hs
    unfold create
    split
    · exact h
    · exact h.fillUnused ho _ _
  | clone =>
    obtain ⟨hi, hrun, rfl⟩ := acts_user hs
    exact h.createThread ho hi hrun
  | cloneSleep =>
    obtain ⟨hi, hrun, rfl⟩ := acts_user hs
    unfold create
    split
    · exact h
    rename_i hj
    exact h.cloneSleep ho hi hrun (k.freeSlot_unused hj)
  | cloneWake =>
    simp only [Threads.step] at hs
    split at hs
    · rename_i hi hdoing
      cases hs
      exact h.cloneWake ⟨hi, hdoing⟩
    · cases hs
  | exec =>
    obtain ⟨-, -, rfl⟩ := acts_user hs
    exact h
  | exit =>
    obtain ⟨hi, -, rfl⟩ := acts hs
    exact h.setDead (by rw [hi]; decide) (by simp)
  | reap j =>
    simp only [Threads.step, Option.ite_none_right_eq_some, Option.some.injEq] at hs
    obtain ⟨⟨-, hj⟩, rfl⟩ := hs
    exact h.setDead (by simp [hj]) (by simp)

omit h

lemma Inv.of_run (hrun : Relation.ReflTransGen OrderlySteps boot k) : Inv k := by
  induction hrun with
  | refl => exact inv_boot
  | tail _ hs ih =>
    obtain ⟨i, act, hs, ho⟩ := hs
    exact ih.step hs ho

/-! ## What a process and its descendants can become -/

/-- The slot in which the step makes a task that can run. -/
def created (k : Table) (i : Slot) : Act → Option Slot
  | .fork | .spawn | .clone => k.freeSlot
  | .cloneWake =>
    match (k.tasks i).doing with
    | .clone j => some j
    | _ => none
  | _ => none

/-- The members of a family after a step: a task made by a member is one. -/
def family (k : Table) (i : Slot) (act : Act) (M : Slot → Prop) : Slot → Prop :=
  fun s => (created k i act = some s ∧ M i) ∨ (created k i act ≠ some s ∧ M s)

/-- An orderly run from `k0`, and what becomes in it of the family `M0`. -/
inductive Follow (k0 : Table) (M0 : Slot → Prop) : Table → (Slot → Prop) → Prop
  | start : Follow k0 M0 k0 M0
  | step {k k' : Table} {M : Slot → Prop} {i : Slot} {act : Act} (h : Follow k0 M0 k M)
      (hs : step k i act = some k') (ho : Orderly k i act) :
      Follow k0 M0 k' (family k i act M)

/-- No live member of the family has more than the bound. -/
def Bounded (bound : Cred) (M : Slot → Prop) (k : Table) : Prop :=
  ∀ s, M s → k.Ready s → (k.tasks s).cred.Within bound

variable {bound : Cred} {M : Slot → Prop}

lemma Bounded.of_frame (hb : Bounded bound M k)
    (hnone : created k i act = none) (hs : ∀ s, M s → k'.Ready s → k.Ready s ∧
      ((k.tasks s).cred.Within bound → (k'.tasks s).cred.Within bound)) :
      Bounded bound (family k i act M) k' := by
  rintro s (⟨hsome, -⟩ | ⟨-, hM⟩) hready
  · exact nomatch hnone.symm.trans hsome
  obtain ⟨hr, hw⟩ := hs s hM hready
  exact hw (hb s hM hr)

/-- A step that replaces the task in a slot by one with no more, or by a dead one. -/
lemma Bounded.set (hb : Bounded bound M k) (hnone : created k i act = none)
    (ht : M j → t.state = .ready → k.Ready j ∧ ((k.tasks j).cred.Within bound →
    t.cred.Within bound)) :
    Bounded bound (family k i act M) (k.set j t) := by
  refine hb.of_frame hnone fun s hM hready => ?_
  by_cases hsj : s = j
  · subst hsj
    simp only [Table.Ready, Table.set_tasks, if_true] at hready ⊢
    exact ht hM hready
  · simpa [Table.Ready, hsj] using hready

/-- A step that fills a free slot with a task that has its maker's credentials. -/
lemma Bounded.create (hb : Bounded bound M k) (hi : k.Ready i) (tgid)
    (hact : created k i act = k.freeSlot) : Bounded bound (family k i act M)
      (create k fun j => k.fill j .ready tgid (k.tasks i).cred) := by
  unfold Threads.create
  split
  · rename_i hnone
    exact hb.of_frame (hact.trans hnone) fun s _ hr => ⟨hr, id⟩
  rename_i j hj
  rintro s (⟨hsome, hM⟩ | ⟨hne, hM⟩) hready
  · obtain rfl := Option.some.inj ((hact.trans hj).symm.trans hsome)
    simpa using hb i hM hi
  have hsj : s ≠ j := by
    rintro rfl
    exact hne (hact.trans hj)
  simp only [Table.Ready, Table.fill_tasks, hsj, if_false] at hready ⊢
  exact hb s hM hready

/-- **Without privilege, a step gives a family nothing it did not have.** -/
lemma Bounded.step (h : Inv k) (hc : bound.Unprivileged) (hb : Bounded bound M k)
    (hs : step k i act = some k') :
    Bounded bound (family k i act M) k' := by
  cases act with
  | cred call =>
    obtain ⟨hi, hrun, rfl⟩ := acts hs
    refine hb.of_frame rfl fun s hM hready => ?_
    split at hready
    · rename_i hp
      rw [Table.updateGroup_ready] at hready
      rw [if_pos hp, Table.updateGroup_cred _ _ hready]
      refine ⟨hready, fun hw => ?_⟩
      split
      · rename_i htg
        have hsame := h.same s i hready hi htg
        exact CredCall.update_within hc (hsame ▸ hw) hw hp
      · exact hw
    · rename_i hp
      rw [if_neg hp]
      exact ⟨hready, id⟩
  | setgroups list =>
    obtain ⟨hi, hrun, rfl⟩ := acts hs
    split
    · rename_i heuid
      exact hb.set rfl fun hM _ => absurd heuid.1 ((hb i hM hi).euid_ne_zero hc)
    · exact hb.of_frame rfl fun s _ hr => ⟨hr, id⟩
  | setgroupsSleep n =>
    obtain ⟨hi, hrun, rfl⟩ := acts hs
    split
    · exact hb.set rfl fun _ _ => ⟨hi, id⟩
    · exact hb.of_frame rfl fun s _ hr => ⟨hr, id⟩
  | setgroupsWake list =>
    simp only [Threads.step, Option.ite_none_right_eq_some, Option.some.injEq] at hs
    obtain ⟨⟨hi, hdoing⟩, rfl⟩ := hs
    exact hb.set rfl fun hM _ => absurd (h.alone i _ hi hdoing).1 ((hb i hM hi).euid_ne_zero hc)
  | setgroupsFault =>
    simp only [Threads.step] at hs
    split at hs
    · rename_i hi hdoing
      cases hs
      exact hb.set rfl fun _ _ => ⟨hi, id⟩
    · cases hs
  | fork | clone =>
    obtain ⟨hi, -, rfl⟩ := acts_user hs
    exact hb.create hi _ rfl
  | spawn =>
    obtain ⟨hi, -, rfl⟩ := acts hs
    exact hb.create hi _ rfl
  | forkFails =>
    obtain ⟨-, -, rfl⟩ := acts hs
    refine hb.of_frame rfl fun s hM hready => ?_
    unfold Threads.create at hready ⊢
    split at hready
    · exact ⟨hready, id⟩
    rename_i j hj
    by_cases hsj : s = j
    · subst hsj
      simp [Table.Ready] at hready
    · simpa [Table.Ready, hsj] using hready
  | cloneSleep =>
    obtain ⟨hi, hrun, rfl⟩ := acts_user hs
    refine hb.of_frame rfl fun s hM hready => ?_
    unfold Threads.create at hready ⊢
    split at hready
    · exact ⟨hready, id⟩
    rename_i j hj
    by_cases hsi : s = i
    · subst hsi
      simpa [Table.Ready] using hi
    by_cases hsj : s = j
    · subst hsj
      simp [Table.Ready, hsi] at hready
    · simpa [Table.Ready, hsi, hsj] using hready
  | cloneWake =>
    simp only [Threads.step] at hs
    split at hs
    · rename_i j hi hdoing
      cases hs
      obtain ⟨hu, -, hcred, -⟩ := h.pending i j ⟨hi, hdoing⟩
      have hij : j ≠ i := by
        rintro rfl
        exact nomatch hi.symm.trans hu
      have hcr : created k i .cloneWake = some j := by simp [created, hdoing]
      rintro s (⟨hsome, hM⟩ | ⟨hne, hM⟩) hready
      · obtain rfl := Option.some.inj (hcr.symm.trans hsome)
        simpa [hij, hcred] using hb i hM hi
      have hsj : s ≠ j := by
        rintro rfl
        exact hne hcr
      by_cases hsi : s = i
      · subst hsi
        simpa using hb s hM hi
      · simp only [Table.Ready, Table.set_tasks, hsi, hsj, if_false] at hready ⊢
        exact hb s hM hready
    · cases hs
  | exec =>
    obtain ⟨-, -, rfl⟩ := acts_user hs
    exact hb.of_frame rfl fun s _ hr => ⟨hr, id⟩
  | exit | reap =>
    simp only [Threads.step, Option.ite_none_right_eq_some, Option.some.injEq] at hs
    obtain ⟨-, rfl⟩ := hs
    exact hb.set rfl fun _ hst => TaskState.noConfusion hst

/-- **Credentials belong to the process, and only shrink.**  In every state an orderly run reaches,
the live threads of a process have the same credentials; and from there on, a process without
privilege, its threads and its descendants never get an id or a group it did not have. -/
theorem credentials_of_orderly_run (hrun : Relation.ReflTransGen OrderlySteps boot k) :
    (∀ i j, k.Ready i → k.Ready j → (k.tasks i).tgid = (k.tasks j).tgid →
    (k.tasks i).cred = (k.tasks j).cred) ∧
    ∀ i, k.Ready i → (k.tasks i).cred.Unprivileged → ∀ k' M,
      Follow k (fun s => k.Ready s ∧ (k.tasks s).tgid = (k.tasks i).tgid) k' M →
      Bounded (k.tasks i).cred M k' := by
  have hinv := Inv.of_run hrun
  refine ⟨hinv.same, fun i hi hc k' M hf => ?_⟩
  have hboth : Inv k' ∧ Bounded (k.tasks i).cred M k' := by
    induction hf with
    | start =>
      refine ⟨hinv, fun s hs _ => ?_⟩
      rw [hinv.same s i hs.1 hi hs.2]
      exact .refl _
    | step _ hs ho ih => exact ⟨ih.1.step hs ho, ih.2.step ih.1 hc hs⟩
  exact hboth.2

end

/-! ## One thread sets its groups -/

def slot₁ : Slot := ⟨1, by decide⟩

def slot₂ : Slot := ⟨2, by decide⟩

/-- The kernel starts a program, and the program starts a thread. -/
def twoThreads : Table := (boot.fill slot₁ .ready 2 .root).fill slot₂ .ready 2 .root

lemma twoThreads_run : Relation.ReflTransGen OrderlySteps boot twoThreads ∧ ∀ p j,
    ¬twoThreads.Cloning p j := by
  have hboot : ∀ p j, ¬boot.Cloning p j := fun p j h => nomatch h.2
  have hfill : ∀ k s tgid, (∀ p j, ¬Table.Cloning k p j) →
      ∀ p j, ¬(k.fill s .ready tgid .root).Cloning p j := by
    intro k s tgid hk p j h
    by_cases hp : p = s
    · subst hp
      simpa using h.2
    · exact hk p j (by simpa [Table.Cloning, Table.Ready, hp] using h)
  exact ⟨.tail (.tail .refl ⟨⟨0, by decide⟩, .spawn, rfl, hboot⟩) ⟨slot₁, .clone, rfl,
    hfill _ _ _ hboot⟩,
    hfill _ _ _ (hfill _ _ _ hboot)⟩

/-- `setgroups` changes the thread that calls it and no other, so the threads of one process come
to differ. -/
theorem setgroups_one_thread : ∃ k, Relation.ReflTransGen Steps boot k ∧
    k.Ready slot₁ ∧ k.Ready slot₂ ∧ (k.tasks slot₁).tgid = (k.tasks slot₂).tgid ∧
    (k.tasks slot₁).cred ≠ (k.tasks slot₂).cred := by
  have hsteps : OrderlySteps ≤ Steps := fun _ _ ⟨i, act, hs, _⟩ => ⟨i, act, hs⟩
  have hrun := Relation.ReflTransGen.mono hsteps _ _ twoThreads_run.1
  exact ⟨_, hrun.tail ⟨slot₁, .setgroups [7], rfl⟩, rfl, rfl, rfl, by decide⟩

/-- Two threads of a program that gives up root, and then makes a child. -/
theorem credentials_of_two_threads : ∃ k, Relation.ReflTransGen OrderlySteps boot k ∧
    (k.tasks slot₁).cred = ⟨⟨1000, 1000, 1000⟩, ⟨0, 0, 0⟩, []⟩ ∧
    (k.tasks slot₂).cred = (k.tasks slot₁).cred ∧
    ∀ k' M, Follow k (fun s => k.Ready s ∧ (k.tasks s).tgid = (k.tasks slot₁).tgid) k' M →
      Bounded ⟨⟨1000, 1000, 1000⟩, ⟨0, 0, 0⟩, []⟩ M k' := by
  obtain ⟨hrun, hno⟩ := twoThreads_run
  have hrun' := hrun.tail ⟨slot₁, .cred (.setuid 1000), rfl, fun p j h => absurd h (hno p j)⟩
  obtain ⟨hsame, hbound⟩ := credentials_of_orderly_run hrun'
  exact ⟨_, hrun', rfl, hsame slot₂ slot₁ rfl rfl rfl,
    hbound slot₁ rfl (show Cred.Unprivileged ⟨⟨1000, 1000, 1000⟩, ⟨0, 0, 0⟩, []⟩ by
      simp [Cred.Unprivileged, Ids.Has])⟩

end Sage040.Threads
