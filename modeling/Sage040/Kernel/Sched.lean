import Mathlib

/-!
# The scheduler

`schedule` of `kernel/task.c`, with `pick_next` and `reap_orphans`. Between two calls of it anything
may happen to the other tasks: one that stays ready gets the processor before the table has been
gone round once (`runs_of_ready`).
-/

namespace Sage040.Sched

def taskMax : Nat := 64

inductive TaskState
  | unused | ready | running | blocked | stopped | zombie | traced
  deriving DecidableEq

/-- What the scheduler reads of the task table. -/
structure Tasks where
  state : Nat → TaskState
  /-- Whether `parent` is null. -/
  orphan : Nat → Bool

structure Sys extends Tasks where
  current : Nat
  idle : Nat

def pickFrom (s : Sys) (i : Nat) : Nat → Option Nat
  | 0 => none
  | n + 1 =>
    let t := (s.current + i) % taskMax
    if t ≠ s.idle ∧ s.state t = .ready then some t else pickFrom s (i + 1) n

def pickNext (s : Sys) : Nat :=
  (pickFrom s 1 taskMax).getD (if s.state s.current = .running then s.current else s.idle)

def reapOrphans (s : Sys) : Sys :=
  { s with state := fun t =>
      if t < taskMax ∧ s.state t = .zombie ∧ s.orphan t ∧
        t ≠ s.current then .unused else s.state t }

/-- The current task no longer runs, but may go on at once. -/
def giveUp (s : Sys) : Sys :=
  { s with state := fun t => if t = s.current ∧ s.state t = .running then .ready else s.state t }

def schedule (s : Sys) : Sys :=
  let s := giveUp (reapOrphans s)
  let next := pickNext s
  { s with state := Function.update s.state next .running, current := next }

/-- The tasks have become `e`, and the processor is given away. -/
def step (s : Sys) (e : Tasks) : Sys := schedule { s with toTasks := e }

variable {s : Sys} {t d : Nat}

lemma pickFrom_spec (hidle : t ≠ s.idle) (hready : s.state t = .ready) {i n}
    (ht : (s.current + i + d) % taskMax = t)
    (hd : d < n) : ∃ j ≤ d, pickFrom s i n = some ((s.current + i + j) % taskMax) := by
  induction n generalizing i d with
  | zero => omega
  | succ n ih =>
    rw [pickFrom]
    split
    · exact ⟨0, Nat.zero_le d, rfl⟩
    · rename_i hskip
      cases d with
      | zero => exact absurd ⟨ht.symm ▸ hidle, ht.symm ▸ hready⟩ hskip
      | succ d =>
        obtain ⟨j, hj, hpick⟩ := ih (i := i + 1) (d := d) (by rw [← ht]; congr 1; omega) (by omega)
        exact ⟨j + 1, by omega, by rw [hpick]; congr 2; omega⟩

/-- The turn goes to a task no further on than the one that waits. -/
lemma step_current (e : Tasks) (hidle : t ≠ s.idle) (hready : e.state t = .ready)
    (ht : (s.current + 1 + d) % taskMax = t) (hd : d < taskMax) :
    ∃ j ≤ d, (step s e).current = (s.current + 1 + j) % taskMax := by
  obtain ⟨j, hj, hpick⟩ := pickFrom_spec (s := giveUp (reapOrphans { s with toTasks := e })) hidle
    (by simp [giveUp, reapOrphans, hready]) ht hd
  exact ⟨j, hj, congrArg (Option.getD · _) hpick⟩

/-- **Nobody starves**: a task that stays ready is given the processor by one of `taskMax` calls,
whatever the others do in between. -/
theorem runs_of_ready (s : Sys) (t : Nat) (evs : List Tasks) (ht : t < taskMax) (hidle : t ≠ s.idle)
    (hlen : taskMax ≤ evs.length) (hready : ∀ e ∈ evs, e.state t = .ready) :
    ∃ k < taskMax, ((evs.take (k + 1)).foldl step s).current = t := by
  -- how far round the table the task is: each turn brings the current one nearer
  suffices hdist : ∀ d < taskMax, (s.current + 1 + d) % taskMax = t → d < evs.length →
      ∃ k ≤ d, ((evs.take (k + 1)).foldl step s).current = t by
    obtain ⟨d, hd, hcur⟩ : ∃ d < taskMax, (s.current + 1 + d) % taskMax = t :=
      ⟨(t + (taskMax - (s.current + 1) % taskMax)) % taskMax, Nat.mod_lt _ (by decide), by
        simp only [taskMax] at *
        omega⟩
    obtain ⟨k, hk, hrun⟩ := hdist d hd hcur (hd.trans_le hlen)
    exact ⟨k, hk.trans_lt hd, hrun⟩
  clear hlen
  induction evs generalizing s with
  | nil => exact fun d _ _ hd => absurd hd (Nat.not_lt_zero d)
  | cons e evs ih =>
    intro d hd hcur hlen
    obtain ⟨he, hready⟩ := List.forall_mem_cons.1 hready
    obtain ⟨j, hj, hstep⟩ := step_current e hidle he hcur hd
    rcases hj.lt_or_eq with hlt | rfl
    · obtain ⟨k, hk, hrun⟩ := ih (step s e) hidle hready (d - j - 1) (by omega)
        (by simp only [hstep, taskMax] at *; omega) (by simp only [List.length_cons] at hlen; omega)
      exact ⟨k + 1, by omega, hrun⟩
    · exact ⟨0, Nat.zero_le j, hstep.trans hcur⟩

theorem runs_of_ready_all : ∃ k < taskMax,
    (((List.replicate 64 ⟨fun _ => .ready, fun _ => false⟩).take (k + 1)).foldl
    step ⟨⟨fun _ => .unused, fun _ => false⟩, 1, 0⟩).current = 63 :=
  runs_of_ready _ 63 _ (by decide) (by decide) (by decide) (by simp)

end Sage040.Sched
