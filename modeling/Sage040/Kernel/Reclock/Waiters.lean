import Sage040.Kernel.Reclock.Fcntl
import Sage040.Lib.Chains
import Sage040.Lib.Runs

/-!
# Processes that wait for record locks

Single-threaded processes with POSIX locks. A process that goes to sleep in `F_SETLKW` records the
one process whose lock it found in its way (`set_waiting`), and `would_deadlock` walks along the
records. The first part of the file is about the table of records alone: a process has at most one,
there is room for one of each process, and changing one leaves the others.

A `Machine` is the processes that there are and their locks. `Legal` says what processes with one
thread can do, `Acted` is everything that comes of it, and `Sane` is what then holds in every state.
-/

namespace Sage040.Reclock

open Relation List

/-! ## The records -/

section PutFirst

variable {α : Type} {f : α → Bool} {x : α} {l : List α}

lemma putFirst_split (h : l.any f = true) : ∃ l1 y l2, l = l1 ++ y :: l2 ∧ f y = true ∧
    (∀ z ∈ l1, f z = false) ∧ putFirst f x l = l1 ++ x :: l2 := by
  induction l with
  | nil => cases h
  | cons y l ih =>
    by_cases hy : f y = true
    · exact ⟨[], y, l, rfl, hy, nofun, by rw [putFirst, if_pos hy, nil_append]⟩
    obtain ⟨l1, z, l2, rfl, hz, hl1, heq⟩ := ih (by simpa [hy] using h)
    refine ⟨y :: l1, z, l2, rfl, hz, ?_, by rw [putFirst, if_neg hy, heq, cons_append]⟩
    intro w hw
    rcases mem_cons.1 hw with rfl | hw
    · simpa using hy
    · exact hl1 w hw

lemma putFirst_of_not_any (h : ¬ l.any f = true) : putFirst f x l = l := by
  induction l with
  | nil => rfl
  | cons y l ih =>
    simp only [any_cons, Bool.or_eq_true, not_or] at h
    rw [putFirst, if_neg h.1, ih h.2]

end PutFirst

namespace Waiters

/-- The processes that have an entry. -/
def pids (ws : Waiters) : List Nat := (ws.map Prod.fst).filter (· != 0)

/-- A full-size table with at most one entry for each process, all of them of processes. -/
structure Ok (procs : List Nat) (ws : Waiters) : Prop where
  length : ws.length = waiterMax
  nodup : ws.pids.Nodup
  live : ∀ w ∈ ws, w.1 ≠ 0 → w.1 ∈ procs ∧ w.2 ≠ 0

variable {ws : Waiters} {procs : List Nat} {pid b a : Nat}

lemma mem_pids : a ∈ ws.pids ↔ a ≠ 0 ∧ ∃ b, (a, b) ∈ ws := by
  rw [pids, mem_filter, mem_map, and_comm]
  simp

lemma any_iff (ha : a ≠ 0) : (ws.any fun w => w.1 == a) = true ↔ a ∈ ws.pids := by
  rw [mem_pids, any_eq_true]
  constructor
  · rintro ⟨w, hw, heq⟩
    exact ⟨ha, w.2, by rwa [← show w.1 = a by simpa using heq]⟩
  · rintro ⟨-, b, hb⟩
    exact ⟨_, hb, by simp⟩

lemma pids_append (l1 l2 : Waiters) (w : Nat × Nat) :
    pids (l1 ++ w :: l2) = pids l1 ++ ((if w.1 = 0 then [] else [w.1]) ++ pids l2) := by
  by_cases h : w.1 = 0 <;> simp [pids, h]

lemma Ok.exists_free (h : Ok procs ws) (hlen : procs.length ≤ waiterMax) (hp : pid ∈ procs)
    (hno : pid ∉ ws.pids) : (ws.any fun w => w.1 == 0) = true := by
  by_contra hfull
  have hall : ∀ w ∈ ws, w.1 ≠ 0 := by
    intro w hw h0
    exact hfull (any_eq_true.2 ⟨w, hw, by simp [h0]⟩)
  have hsize : ws.pids.length = waiterMax := by
    rw [pids, filter_eq_self.2 fun a ha => ?_, length_map, h.length]
    obtain ⟨w, hw, rfl⟩ := mem_map.1 ha
    simpa using hall w hw
  have hsub : ws.pids ⊆ procs.erase pid := by
    intro a ha
    obtain ⟨ha0, b, hb⟩ := mem_pids.1 ha
    have hne : a ≠ pid := fun heq => hno (heq ▸ ha)
    exact (mem_erase_of_ne hne).2 (h.live _ hb ha0).1
  have := (h.nodup.subperm hsub).length_le
  rw [length_erase_of_mem hp, hsize] at this
  have := length_pos_of_mem hp
  omega

/-- What `set_waiting` leaves in place of one entry. -/
lemma setWaiting_split (ws : Waiters) (b) (hpid : pid ≠ 0) :
    (pid ∈ ws.pids ∧ ∃ l1 c l2, ws = l1 ++ (pid, c) :: l2 ∧
      ws.setWaiting pid b = l1 ++ (if b = 0 then (0, 0) else (pid, b)) :: l2) ∨
    (pid ∉ ws.pids ∧ (ws.setWaiting pid b = ws ∨ (b ≠ 0 ∧ ∃ l1 c l2, ws = l1 ++ (0, c) :: l2 ∧
      ws.setWaiting pid b = l1 ++ (pid, b) :: l2))) := by
  by_cases hin : pid ∈ ws.pids
  · refine .inl ⟨hin, ?_⟩
    have hany := (any_iff hpid).2 hin
    obtain ⟨l1, y, l2, hws, hy, -, hput⟩ :=
      putFirst_split (x := if b = 0 then (0, 0) else (pid, b)) hany
    have hy' : y = (pid, y.2) := by rw [← show y.1 = pid by simpa using hy]
    exact ⟨l1, y.2, l2, by rw [hws, ← hy'], by rw [setWaiting, if_pos hany, hput]⟩
  refine .inr ⟨hin, ?_⟩
  have hany : ¬ (ws.any fun w => w.1 == pid) = true := fun h => hin ((any_iff hpid).1 h)
  rw [setWaiting, if_neg hany]
  by_cases hb : b = 0
  · exact .inl (if_pos hb)
  rw [if_neg hb]
  by_cases hfree : (ws.any fun w => w.1 == 0) = true
  · obtain ⟨l1, y, l2, hws, hy, -, hput⟩ := putFirst_split (x := (pid, b)) hfree
    have hy' : y = (0, y.2) := by rw [← show y.1 = 0 by simpa using hy]
    exact .inr ⟨hb, l1, y.2, l2, by rw [hws, ← hy'], hput⟩
  · exact .inl (putFirst_of_not_any hfree)

lemma blocker_replace (l1 l2 : Waiters) {x y : Nat × Nat} (hx : x.1 ≠ a) (hy : y.1 ≠ a) :
    blocker (l1 ++ x :: l2) a = blocker (l1 ++ y :: l2) a := by
  simp [blocker, find?_append, hx, hy]

lemma blocker_setWaiting_of_ne (hpid : pid ≠ 0) (ha : a ≠ 0) (hne : a ≠ pid) :
    (ws.setWaiting pid b).blocker a = ws.blocker a := by
  rcases setWaiting_split ws b hpid with
    ⟨-, l1, c, l2, rfl, heq⟩ | ⟨-, heq | ⟨-, l1, c, l2, rfl, heq⟩⟩
  · rw [heq]
    refine blocker_replace l1 l2 ?_ hne.symm
    split
    · exact ha.symm
    · exact hne.symm
  · rw [heq]
  · rw [heq]
    exact blocker_replace l1 l2 hne.symm ha.symm

lemma Ok.setWaiting (h : Ok procs ws) (hpid : pid ≠ 0) (hp : pid ∈ procs) :
    Ok procs (ws.setWaiting pid b) := by
  have hlen := h.length
  have hnd := h.nodup
  rcases setWaiting_split ws b hpid with
    ⟨-, l1, c, l2, rfl, heq⟩ | ⟨hno, heq | ⟨hb, l1, c, l2, rfl, heq⟩⟩
  · rw [heq]
    refine ⟨by simpa using hlen, ?_, fun w hw hw0 => ?_⟩
    · rw [pids_append] at hnd ⊢
      by_cases hb : b = 0
      · simp only [hb, if_neg hpid, if_true, nil_append] at hnd ⊢
        exact hnd.sublist ((sublist_cons_self _ _).append_left _)
      · rw [if_neg hb]
        exact hnd
    rcases mem_append.1 hw with hw | hw
    · exact h.live w (mem_append_left _ hw) hw0
    rcases mem_cons.1 hw with rfl | hw
    · by_cases hb : b = 0
      · simp [hb] at hw0
      rw [if_neg hb]
      exact ⟨hp, hb⟩
    · exact h.live w (mem_append_right _ (mem_cons_of_mem _ hw)) hw0
  · rwa [heq]
  · rw [heq]
    refine ⟨by simpa using hlen, ?_, fun w hw hw0 => ?_⟩
    · rw [pids_append] at hnd hno ⊢
      simp only [if_neg hpid, if_true, nil_append, cons_append] at hnd hno ⊢
      exact nodup_middle.2 (nodup_cons.2 ⟨hno, hnd⟩)
    rcases mem_append.1 hw with hw | hw
    · exact h.live w (mem_append_left _ hw) hw0
    rcases mem_cons.1 hw with rfl | hw
    · exact ⟨hp, hb⟩
    · exact h.live w (mem_append_right _ (mem_cons_of_mem _ hw)) hw0

lemma blocker_of_mem (hnd : ws.pids.Nodup) (ha : a ≠ 0) (hmem : (a, b) ∈ ws) :
    ws.blocker a = b := by
  obtain ⟨l1, l2, rfl⟩ := append_of_mem hmem
  rw [pids_append, if_neg ha] at hnd
  have hbefore : l1.find? (fun w => w.1 == a) = none := by
    refine find?_eq_none.2 fun w hw hwa => ?_
    have hin : a ∈ pids l1 := (any_iff ha).1 (any_eq_true.2 ⟨w, hw, hwa⟩)
    exact (disjoint_of_nodup_append hnd) hin (mem_append_left _ (by simp))
  rw [blocker, find?_append, hbefore]
  simp

/-- What `set_waiting` records is there to be found. -/
lemma Ok.blocker_setWaiting (h : Ok procs ws) (hlen : procs.length ≤ waiterMax) (hpid : pid ≠ 0)
    (hp : pid ∈ procs) (hb : b ≠ 0) : (ws.setWaiting pid b).blocker pid = b := by
  refine blocker_of_mem (h.setWaiting hpid hp).nodup hpid ?_
  rcases setWaiting_split ws b hpid with ⟨-, l1, c, l2, -, heq⟩ | ⟨hno,
    heq | ⟨-, l1, c, l2, -, heq⟩⟩
  · rw [heq, if_neg hb]
    simp
  · -- no entry for the process: then there is a free one
    have hany : ¬ (ws.any fun w => w.1 == pid) = true := fun hh => hno ((any_iff hpid).1 hh)
    obtain ⟨l1, y, l2, -, -, -, hput⟩ := putFirst_split (x := (pid, b)) (h.exists_free hlen hp hno)
    rw [Waiters.setWaiting, if_neg hany, if_neg hb, hput]
    simp
  · rw [heq]
    simp

lemma mem_setWaiting {w : Nat × Nat} (hpid : pid ≠ 0) (hw : w ∈ ws.setWaiting pid b)
    (hw0 : w.1 ≠ 0) :
    w = (pid, b) ∨ w ∈ ws := by
  rcases setWaiting_split ws b hpid with
    ⟨-, l1, c, l2, rfl, heq⟩ | ⟨-, heq | ⟨-, l1, c, l2, rfl, heq⟩⟩
  · rw [heq] at hw
    by_cases hb : b = 0
    · rw [if_pos hb] at hw
      simp only [mem_append, mem_cons] at hw ⊢
      rcases hw with hw | rfl | hw
      · exact .inr (.inl hw)
      · exact absurd rfl hw0
      · exact .inr (.inr (.inr hw))
    · rw [if_neg hb] at hw
      simp only [mem_append, mem_cons] at hw ⊢
      tauto
  · exact .inr (heq ▸ hw)
  · rw [heq] at hw
    simp only [mem_append, mem_cons] at hw ⊢
    tauto

lemma Ok.not_mem_setWaiting (h : Ok procs ws) (hpid : pid ≠ 0) :
    pid ∉ (ws.setWaiting pid 0).pids := by
  have hnd := h.nodup
  rcases setWaiting_split ws 0 hpid with
    ⟨-, l1, c, l2, rfl, heq⟩ | ⟨hno, heq | ⟨hb, -⟩⟩
  · rw [pids_append, if_neg hpid, singleton_append] at hnd
    rw [heq, if_pos rfl, pids_append, if_pos rfl, nil_append]
    exact (nodup_cons.1 (nodup_middle.1 hnd)).1
  · rwa [heq]
  · exact absurd rfl hb

/-! ### Following the records -/

variable {depth q : Nat}

/-- The walk sees `pid` when it is `n` records away. -/
lemma wouldDeadlock_of_iterate {n : Nat} (hn : n < depth)
    (hend : ws.blocker^[n] q = pid) (h0 : ∀ i ≤ n, ws.blocker^[i] q ≠ 0) :
    ws.wouldDeadlock pid depth q = true := by
  have hq : q ≠ 0 := h0 0 (Nat.zero_le n)
  induction n generalizing q depth with
  | zero =>
    obtain ⟨d, rfl⟩ : ∃ d, depth = d + 1 := ⟨depth - 1, by omega⟩
    rw [wouldDeadlock, if_neg hq]
    exact if_pos hend
  | succ n ih =>
    obtain ⟨d, rfl⟩ : ∃ d, depth = d + 1 := ⟨depth - 1, by omega⟩
    rw [wouldDeadlock, if_neg hq]
    split
    · rfl
    · exact ih (by omega) hend (fun i hi => h0 (i + 1) (by omega)) (h0 1 (by omega))

lemma iterate_of_wouldDeadlock (h : ws.wouldDeadlock pid depth q = true) :
    ReflTransGen (fun a b => a ≠ 0 ∧ b ≠ 0 ∧ ws.blocker a = b) q pid ∧ q ≠ 0 := by
  induction depth generalizing q with
  | zero => cases h
  | succ depth ih =>
    rw [wouldDeadlock] at h
    split at h
    · cases h
    rename_i hq
    split at h
    · rename_i heq
      exact ⟨heq ▸ .refl, hq⟩
    · obtain ⟨hrest, hb⟩ := ih h
      exact ⟨.head ⟨hq, hb, rfl⟩ hrest, hq⟩

lemma mem_of_blocker (h : ws.blocker a = q) (hq : q ≠ 0) : (a, q) ∈ ws := by
  rw [blocker] at h
  cases hf : ws.find? (fun w => w.1 == a) with
  | none =>
    rw [hf] at h
    exact absurd h.symm hq
  | some w =>
    rw [hf] at h
    have hw : w = (a, q) := Prod.ext (by simpa using find?_some hf) h
    exact hw ▸ mem_of_find?_eq_some hf

end Waiters

/-! ## One pass of the wait loop -/

/-- What becomes of a request that was looked at. -/
inductive Sys.Passed (s : Sys) (r : Req) : Sys → Option Answer → Prop
  | full : s.inTheWay r = none → Passed s r { s with waiters := s.waiters.setWaiting r.pid 0 } (some (.failed .enolck))
  | taken (t : Table) : s.inTheWay r = none → s.table.setRange r.span r.type = .ok t →
      Passed s r { s with table := t, waiters := s.waiters.setWaiting r.pid 0 }.wakeAll (some .done)
  | refused : r.blocking = false → Passed s r s (some (.failed .eagain))
  | deadlock (c : Lock) : s.inTheWay r = some c → r.blocking = true →
      s.waiters.wouldDeadlock r.pid waiterMax c.pid = true → Passed s r s (some (.failed .edeadlk))
  | interrupted : Passed s r { s with waiters := s.waiters.setWaiting r.pid 0 } (some (.failed .eintr))
  | slept (c : Lock) : s.inTheWay r = some c → r.blocking = true →
      (r.span.owner.isPosix = true → c.owner.isPosix = true → s.waiters.wouldDeadlock r.pid waiterMax c.pid = false) →
      Passed s r { s with
        waiters := s.waiters.setWaiting r.pid c.pid
        sleepers := s.sleepers ++ [⟨r, false⟩] } none

lemma Sys.pass_passed (s : Sys) (r : Req) (sig : Bool) :
    s.Passed r (s.pass r sig).1 (s.pass r sig).2 := by
  rw [pass]
  cases hway : s.inTheWay r with
  | none =>
    simp only [take]
    cases hset : s.table.setRange r.span r.type with
    | error e =>
      rw [Table.setRange_error hset]
      exact .full hway
    | ok t => exact .taken t hway hset
  | some c =>
    dsimp only
    split
    · exact .refused ‹_›
    rename_i hblocking
    split
    · rename_i hdead
      exact .deadlock c hway (by simpa using hblocking) (Bool.and_eq_true_iff.1 hdead).2
    rename_i hdead
    split
    · exact .interrupted
    refine .slept c hway (by simpa using hblocking) fun hr hc => ?_
    simpa [hr, hc] using hdead

namespace Sys

variable {s : Sys} {f : Lock → Bool}

lemma not_of_mem_drop {l : Lock} (h : some l ∈ (s.drop f).table) : f l = false := by
  rw [drop] at h
  split at h
  · exact Table.not_of_mem_drop h
  rename_i hnone
  rw [any_eq_true] at hnone
  by_contra hf
  exact hnone ⟨l, Table.mem_locks.2 h, by simpa using hf⟩

lemma mem_drop_sleepers {w : Sleeper} (h : w ∈ (s.drop f).sleepers) : ∃ w' ∈ s.sleepers,
    w'.req = w.req := by
  rw [drop] at h
  split at h
  · obtain ⟨w', hw', rfl⟩ := mem_map.1 h
    exact ⟨w', hw', rfl⟩
  · exact ⟨w, h, rfl⟩

end Sys

/-! ## Processes -/

/-- The processes that there are, and their locks. -/
structure Machine where
  procs : List Nat
  sys : Sys

/-- What can happen to the machine. -/
inductive Act
  | start (pid : Nat)
  | event (ev : Event)

namespace Machine

/-- No processes. -/
def init : Machine := ⟨[], Sys.init⟩

/-- The process runs: it is not in the wait loop. -/
def Running (m : Machine) (pid : Nat) : Prop :=
  pid ∈ m.procs ∧ ∀ w ∈ m.sys.sleepers, w.req.pid ≠ pid
  deriving Decidable

/-- What single-threaded processes do that use POSIX locks. There are at most `TASK_MAX` of them,
and only one that runs makes a call. -/
def Legal (m : Machine) : Act → Prop
  | .start pid => pid ≠ 0 ∧ pid ∉ m.procs ∧ m.procs.length < waiterMax
  | .event (.call c _) => c.ofd = false ∧ c.tid = c.pid ∧ m.Running c.pid
  | .event (.closed _ pid) => m.Running pid
  | .event (.exit pid) => m.Running pid
  | .event _ => True

instance (m : Machine) : DecidablePred m.Legal
  | .start _ => inferInstanceAs (Decidable (_ ∧ _ ∧ _))
  | .event (.call _ _) => inferInstanceAs (Decidable (_ ∧ _ ∧ _))
  | .event (.closed _ pid) => inferInstanceAs (Decidable (m.Running pid))
  | .event (.exit pid) => inferInstanceAs (Decidable (m.Running pid))
  | .event (.resume _ _) => isTrue trivial
  | .event (.signal _) => isTrue trivial
  | .event (.gone _) => isTrue trivial

/-- One act. -/
def next (m : Machine) : Act → Machine
  | .start pid => { m with procs := pid :: m.procs }
  | .event (.exit pid) => ⟨m.procs.erase pid, ((Event.exit pid).step m.sys).1⟩
  | .event ev => ⟨m.procs, (ev.step m.sys).1⟩

/-- The answer that an act gives, and the process that gets it. -/
def answer (m : Machine) : Act → Option (Nat × Answer)
  | .start _ => none
  | .event ev =>
    let pid := match ev with
      | .call c _ => c.pid
      | .resume tid _ => tid
      | _ => 0
    (ev.step m.sys).2.map fun a => (pid, a)

/-- The request that an act tries, for the first time or again. -/
def tried (m : Machine) : Act → Option Req
  | .event (.call c _) => c.read.toOption.map Prod.snd
  | .event (.resume tid _) =>
    (m.sys.sleepers.find? fun w => w.req.tid == tid && w.woken).map Sleeper.req
  | _ => none

/-- `P` holds of every act of a run, in the state that it is made in. -/
abbrev Every (P : Machine → Act → Prop) : List Act → Machine → Prop := Runs.Every next P

/-- One act after the other. -/
def run (acts : List Act) (m : Machine) : Machine := acts.foldl next m

/-- The request is one of a process that there is. -/
structure OfProcess (procs : List Nat) (r : Req) : Prop where
  owner : r.span.owner = .posix r.pid
  tid : r.tid = r.pid
  live : r.pid ∈ procs

/-- What holds whenever processes do what they may: whoever appears in the tables is a process. -/
structure Sane (m : Machine) : Prop where
  nodup : m.procs.Nodup
  pos : 0 ∉ m.procs
  size : m.procs.length ≤ waiterMax
  locks : ∀ l, some l ∈ m.sys.table → ∃ q ∈ m.procs, l.owner = .posix q
  sleepers : ∀ w ∈ m.sys.sleepers, OfProcess m.procs w.req ∧ w.req.blocking = true
  single : (m.sys.sleepers.map fun w => w.req.pid).Nodup
  waiters : m.sys.waiters.Ok m.procs

namespace Sane

variable {m : Machine} {procs : List Nat} {s : Sys} {r : Req}

variable {pid : Nat}

lemma ne_zero (h : Sane m) (hp : pid ∈ m.procs) : pid ≠ 0 := fun h0 => h.pos (h0 ▸ hp)

lemma init : Sane Machine.init where
  nodup := .nil
  pos := nofun
  size := Nat.zero_le _
  locks := by
    intro l hl
    simp [Machine.init, Sys.init] at hl
  sleepers := nofun
  single := .nil
  waiters := by
    refine ⟨by simp [Machine.init, Sys.init], ?_, fun w hw hw0 => ?_⟩
    · simp [Machine.init, Sys.init, Waiters.pids]
    rw [(mem_replicate.1 hw).2] at hw0
    exact absurd rfl hw0

variable (h : Sane ⟨procs, s⟩)

include h

lemma wake (f : Sleeper → Sleeper) (hf : ∀ w, (f w).req = w.req) :
    Sane ⟨procs, { s with sleepers := s.sleepers.map f }⟩ where
  nodup := h.nodup
  pos := h.pos
  size := h.size
  locks := h.locks
  sleepers := by
    intro w hw
    obtain ⟨w', hw', rfl⟩ := List.mem_map.1 hw
    rw [hf]
    exact h.sleepers w' hw'
  single := by
    have := h.single
    rw [List.map_map]
    simpa only [Function.comp_def, hf] using this
  waiters := h.waiters

lemma setWaiting (hp : pid ∈ procs) (b) : Sane ⟨procs,
    { s with waiters := s.waiters.setWaiting pid b }⟩ :=
  { h with waiters := h.waiters.setWaiting (h.ne_zero hp) hp }

lemma withTable {t : Table}
    (ht : ∀ l, some l ∈ t → ∃ q ∈ procs, l.owner = .posix q) :
    Sane ⟨procs, { s with table := t }⟩ :=
  { h with locks := ht }

lemma erase (w : Sleeper) : Sane ⟨procs, { s with sleepers := s.sleepers.erase w }⟩ :=
  { h with
    sleepers := fun x hx => h.sleepers x (mem_of_mem_erase hx)
    single := h.single.sublist (erase_sublist.map _) }

lemma sleep (hr : OfProcess procs r) (hb : r.blocking = true)
    (hrun : ∀ w ∈ s.sleepers, w.req.pid ≠ r.pid) :
    Sane ⟨procs, { s with sleepers := s.sleepers ++ [⟨r, false⟩] }⟩ :=
  { h with
    sleepers := by
      intro w hw
      rcases mem_append.1 hw with hw | hw
      · exact h.sleepers w hw
      rw [mem_singleton.1 hw]
      exact ⟨hr, hb⟩
    single := by
      rw [map_append, map_singleton, nodup_append]
      refine ⟨h.single, nodup_singleton _, ?_⟩
      intro a ha b hb heq
      obtain ⟨w, hw, rfl⟩ := mem_map.1 ha
      rw [mem_singleton.1 hb] at heq
      exact hrun w hw heq }

lemma pass (hr : OfProcess procs r) (hrun : ∀ w ∈ s.sleepers, w.req.pid ≠ r.pid)
    {s'} {ans : Option Answer} (hpass : s.Passed r s' ans) : Sane ⟨procs, s'⟩ := by
  cases hpass with
  | full => exact h.setWaiting hr.live 0
  | taken t _ hset =>
    refine wake (withTable (h.setWaiting hr.live 0) fun l hl => ?_) _ fun _ => rfl
    rcases Table.setRange_owner hset hl with heq | ⟨l', hl', heq⟩
    · exact ⟨r.pid, hr.live, heq.trans hr.owner⟩
    obtain ⟨q, hq, ho⟩ := h.locks l' hl'
    exact ⟨q, hq, heq.symm.trans ho⟩
  | refused => exact h
  | deadlock => exact h
  | interrupted => exact h.setWaiting hr.live 0
  | slept c _ hb => exact sleep (h.setWaiting hr.live c.pid) hr hb hrun

lemma drop (f) : Sane ⟨procs, s.drop f⟩ := by
  rw [Sys.drop]
  split
  · exact wake (h.withTable fun l hl => h.locks l (Table.mem_drop hl)) _ fun _ => rfl
  · exact h

omit h

lemma exit (h : Sane m) (hrun : m.Running pid) : Sane ⟨m.procs.erase pid,
      { m.sys.drop (fun l => l.owner == .posix pid) with
        waiters := (m.sys.drop fun l => l.owner == .posix pid).waiters.setWaiting pid 0 }⟩ := by
  have hdrop : Sane ⟨m.procs, m.sys.drop fun l => l.owner == .posix pid⟩ := Sane.drop h _
  have hkeep : ∀ q ∈ m.procs, q ≠ pid → q ∈ m.procs.erase pid := fun q hq hne =>
    (mem_erase_of_ne hne).2 hq
  have hnone := hdrop.waiters.not_mem_setWaiting (hdrop.ne_zero hrun.1)
  refine ⟨h.nodup.erase pid, fun h0 => h.pos (mem_of_mem_erase h0),
    length_erase_le.trans h.size, fun l hl => ?_, fun w hw => ?_, hdrop.single, ?_⟩
  · obtain ⟨q, hq, ho⟩ := hdrop.locks l hl
    refine ⟨q, hkeep q hq fun heq => ?_, ho⟩
    have := Sys.not_of_mem_drop hl
    simp [ho, heq] at this
  · obtain ⟨hof, hb⟩ := hdrop.sleepers w hw
    refine ⟨{ hof with live := hkeep _ hof.live ?_ }, hb⟩
    obtain ⟨w', hw', hreq⟩ := Sys.mem_drop_sleepers hw
    rw [← hreq]
    exact hrun.2 w' hw'
  · have hok := hdrop.waiters.setWaiting (b := 0) (hdrop.ne_zero hrun.1) hrun.1
    refine { hok with live := fun w hw hw0 => ⟨hkeep _ (hok.live w hw hw0).1 fun heq => ?_,
      (hok.live w hw hw0).2⟩ }
    exact hnone (Waiters.mem_pids.2 ⟨hdrop.ne_zero hrun.1, w.2, heq ▸ hw⟩)

end Sane

/-! ### What an act does -/

/-- Everything that an act can do: the machine after it, and who gets which answer. -/
inductive Acted (m : Machine) : Act → Machine → Option (Nat × Answer) → Prop
  | start (pid : Nat) : pid ≠ 0 → pid ∉ m.procs → m.procs.length < waiterMax →
      Acted m (.start pid) ⟨pid :: m.procs, m.sys⟩ none
  | answered (c : Call) (sig : Bool) (ans : Answer) : m.Running c.pid → ans ≠ .failed .edeadlk →
      Acted m (.event (.call c sig)) m (some (c.pid, ans))
  | asked (c : Call) (sig : Bool) (f : File) (r : Req) (s : Sys) (ans : Option Answer) :
      c.read = .ok (f, r) → OfProcess m.procs r → m.Running r.pid → m.sys.Passed r s ans →
      Acted m (.event (.call c sig)) ⟨m.procs, s⟩ (ans.map fun a => (r.pid, a))
  | again (sig : Bool) (w : Sleeper) (s : Sys) (ans : Option Answer) : w ∈ m.sys.sleepers →
      m.tried (.event (.resume w.req.pid sig)) = some w.req →
      Sys.Passed { m.sys with sleepers := m.sys.sleepers.erase w } w.req s ans →
      Acted m (.event (.resume w.req.pid sig)) ⟨m.procs, s⟩ (ans.map fun a => (w.req.pid, a))
  | idle (tid : Nat) (sig : Bool) : Acted m (.event (.resume tid sig)) m none
  | signal (tid : Nat) : Acted m (.event (.signal tid)) ⟨m.procs, { m.sys with
      sleepers := m.sys.sleepers.map fun w =>
        if w.req.tid = tid then { w with woken := true } else w }⟩ none
  | drop (a : Act) (f : Lock → Bool) : Acted m a ⟨m.procs, m.sys.drop f⟩ none
  | exit (pid : Nat) : m.Running pid → Acted m (.event (.exit pid)) ⟨m.procs.erase pid,
      let s := m.sys.drop fun l => l.owner == .posix pid
      { s with waiters := s.waiters.setWaiting pid 0 }⟩ none

end Machine

variable {f : File} {e : Errno} {c : Call}

lemma Call.read_error (h : c.read = .error e) : e ≠ .edeadlk := by
  simp only [read] at h
  rcases hf : c.file with - | f <;> rw [hf] at h
  · exact Except.error.inj h ▸ by decide
  rcases ha : c.arg with - | k <;> rw [ha] at h
  · exact Except.error.inj h ▸ by decide
  dsimp only at h
  iterate 2
    split at h
    · exact Except.error.inj h ▸ by decide
  rcases hr : rangeOf f k with e' | r <;> rw [hr] at h
  · have := Except.error.inj h
    subst this
    rcases rangeOf_error hr with rfl | rfl <;> decide
  · simp [bind, Except.bind, pure, Except.pure] at h

lemma Call.read_ok {r} (h : c.read = .ok (f, r)) :
    r.tid = c.tid ∧ r.pid = c.pid ∧ (c.ofd = false → r.span.owner = .posix c.pid) ∧
    r.blocking = (c.op == .setw) := by
  simp only [read] at h
  rcases hf : c.file with - | f' <;> rw [hf] at h
  · simp [throw, throwThe, MonadExceptOf.throw] at h
  rcases ha : c.arg with - | k <;> rw [ha] at h
  · simp [throw, throwThe, MonadExceptOf.throw] at h
  dsimp only at h
  iterate 2
    split at h
    · simp [throw, throwThe, MonadExceptOf.throw] at h
  rcases hr : rangeOf f' k with e' | x <;> rw [hr] at h
  · simp [bind, Except.bind] at h
  obtain ⟨-, rfl⟩ := h
  exact ⟨rfl, rfl, fun ho => by simp [ho], rfl⟩

lemma Sys.fcntl_cases (s : Sys) (c) (sig : Bool) :
    (∃ ans, s.fcntl c sig = (s, some ans) ∧ ans ≠ .failed .edeadlk) ∨
      ∃ f r, c.read = .ok (f, r) ∧ s.fcntl c sig = s.pass r sig := by
  rw [fcntl]
  rcases hread : c.read with e | ⟨f, r⟩
  · refine .inl ⟨_, rfl, fun h => Call.read_error hread ?_⟩
    simpa using h
  dsimp only
  split
  · split
    · exact .inl ⟨_, rfl, by rintro ⟨⟩⟩
    split
    iterate 2 · exact .inl ⟨_, rfl, by rintro ⟨⟩⟩
  · split
    · exact .inr ⟨f, r, rfl, rfl⟩
    · exact .inl ⟨_, rfl, by rintro ⟨⟩⟩

namespace Machine

variable {m : Machine}

variable {a : Act}

lemma acted (h : Sane m) (hlegal : m.Legal a) : Acted m a (m.next a) (m.answer a) := by
  match a with
  | .start pid => exact .start pid hlegal.1 hlegal.2.1 hlegal.2.2
  | .event (.call c sig) =>
    obtain ⟨hofd, htid, hrun⟩ := hlegal
    simp only [next, answer, Event.step]
    rcases m.sys.fcntl_cases c sig with ⟨ans, heq, hne⟩ | ⟨f, r, hread, heq⟩
    · rw [heq]
      exact .answered c sig ans hrun hne
    obtain ⟨ht, hp, ho, -⟩ := Call.read_ok hread
    rw [heq, ← hp]
    rw [← hp] at htid ho hrun
    exact .asked c sig f r _ _ hread ⟨ho hofd, ht.trans htid, hrun.1⟩ hrun (m.sys.pass_passed r sig)
  | .event (.resume tid sig) =>
    simp only [next, answer, Event.step]
    rcases hw : m.sys.sleepers.find? (fun w => w.req.tid == tid && w.woken) with - | w
    · simp only [hw]
      exact .idle tid sig
    have hmem := mem_of_find?_eq_some hw
    have hfound := find?_some hw
    simp only [Bool.and_eq_true, beq_iff_eq] at hfound
    have htid : tid = w.req.pid := hfound.1.symm.trans (h.sleepers w hmem).1.tid
    subst htid
    have htried : m.tried (.event (.resume w.req.pid sig)) = some w.req := by
      simp only [tried, hw, Option.map_some]
    simp only [hw]
    exact .again sig w _ _ hmem htried (Sys.pass_passed _ w.req sig)
  | .event (.signal tid) => exact .signal tid
  | .event (.closed key pid) => exact .drop _ _
  | .event (.gone file) => exact .drop _ _
  | .event (.exit pid) => exact .exit pid hlegal

lemma Sane.erase_running (h : Sane m) {w : Sleeper} (hw : w ∈ m.sys.sleepers) :
    ∀ x ∈ m.sys.sleepers.erase w, x.req.pid ≠ w.req.pid := by
  have hnd := h.single
  rw [((perm_cons_erase hw).map fun w => w.req.pid).nodup_iff, map_cons, nodup_cons] at hnd
  exact fun x hx heq => hnd.1 (mem_map.2 ⟨x, hx, heq⟩)

lemma Sane.next (h : Sane m) (hlegal : m.Legal a) : Sane (m.next a) := by
  have hact := acted h hlegal
  revert hact
  generalize m.next a = m'
  generalize m.answer a = ans
  intro hact
  rcases hact with ⟨pid, h0, hnew, hsize⟩ | - | ⟨c, sig, f, r, s, ans, -, hr, hrun, hpass⟩ |
    ⟨sig, w, s, ans, hw, -, hpass⟩ | - | tid | ⟨-, f⟩ | ⟨pid, hrun⟩
  · exact {
      nodup := h.nodup.cons hnew
      pos := fun hmem => (mem_cons.1 hmem).elim (h0 ·.symm) h.pos
      size := hsize
      locks := fun l hl => (h.locks l hl).imp fun q hq => ⟨mem_cons_of_mem _ hq.1, hq.2⟩
      sleepers := fun w hw =>
        ⟨{ (h.sleepers w hw).1 with live := mem_cons_of_mem _ (h.sleepers w hw).1.live },
          (h.sleepers w hw).2⟩
      single := h.single
      waiters := { h.waiters with
        live := fun w hw hw0 =>
          ⟨mem_cons_of_mem _ (h.waiters.live w hw hw0).1, (h.waiters.live w hw hw0).2⟩ } }
  · exact h
  · exact h.pass hr hrun.2 hpass
  · exact (h.erase w).pass (h.sleepers w hw).1 (h.erase_running hw) hpass
  · exact h
  · refine h.wake _ fun w => ?_
    split <;> rfl
  · exact h.drop f
  · exact h.exit hrun

end Machine

end Sage040.Reclock
