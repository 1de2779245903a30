import Sage040.Kernel.Reclock.Waiters

/-!
# Deadlocks among waiting processes

A request of a process that would close a circle of recorded waits is refused with `EDEADLK`. Two
things are asked of the records.

That none is missing: `no_circle_of_sleepers` says that no circle of sleeping processes comes about
when whatever is in the way of a request belongs to one process, since then the record is all there
is. A request with two processes in its way records only the first of them, and
`deadlock_unnoticed` is a deadlock through the second.

And that none is stale: `edeadlk_honest` says that `EDEADLK` is given for a circle that is there,
and that no answer leaves a record behind, when no process asks while a woken one has not looked
again and none finds a circle after having slept. `edeadlk_stale` is the false alarm that comes of
asking too early.
-/

namespace Sage040.Reclock

open Relation List Option Waiters

/-! ## Circles of sleepers -/

namespace Sys

/-- Those whose locks are in the way of a request. -/
def holders (s : Sys) (r : Req) : List Owner :=
  ((r.type.map fun ty => s.table.locks.filter (Lock.blocks r.span ty)).getD []).map Lock.owner

/-- A lock of process `q` is in the way. -/
def InWay (s : Sys) (r : Req) (q : Nat) : Prop := .posix q ∈ s.holders r
  deriving Decidable

/-- Process `p` is asleep, and a lock of process `q` is in its way. -/
def AsleepFor (s : Sys) (p q : Nat) : Prop := ∃ r, ⟨r, false⟩ ∈ s.sleepers ∧ r.pid = p ∧ s.InWay r q

instance (s : Sys) (p q : Nat) : Decidable (s.AsleepFor p q) :=
  decidable_of_iff (∃ w ∈ s.sleepers, w.woken = false ∧ w.req.pid = p ∧ s.InWay w.req q) <| by
    constructor
    · rintro ⟨⟨r, woken⟩, hw, rfl, hp, hq⟩
      exact ⟨r, hw, hp, hq⟩
    · rintro ⟨r, hr, hp, hq⟩
      exact ⟨⟨r, false⟩, hr, rfl, hp, hq⟩

variable {s s' : Sys} {r : Req} {c : Lock}

lemma mem_holders (h : s.inTheWay r = some c) : c.owner ∈ s.holders r := by
  obtain ⟨ty, hty, hc⟩ := Option.bind_eq_some_iff.1 h
  obtain ⟨hmem, hblocks⟩ := Table.conflict_some hc
  simp only [holders, hty, Option.map_some, Option.getD_some, List.mem_map, List.mem_filter]
  exact ⟨c, ⟨Table.mem_locks.2 hmem, hblocks⟩, rfl⟩

/-- Everybody's record is the one process that is in the way, and there is no circle. -/
structure Recorded (s : Sys) : Prop where
  record : ∀ r q, ⟨r, false⟩ ∈ s.sleepers → s.InWay r q → s.waiters.blocker r.pid = q
  acyclic : ∀ p, ¬ TransGen s.AsleepFor p p

lemma Recorded.of_woken (h : ∀ w ∈ s.sleepers, w.woken = true) : s.Recorded where
  record := fun r _ hr => absurd (h _ hr) Bool.false_ne_true
  acyclic := by
    intro p hp
    obtain ⟨q, ⟨r, hr, -⟩, -⟩ := TransGen.head'_iff.1 hp
    exact absurd (h _ hr) Bool.false_ne_true

lemma Recorded.fewer (h : s.Recorded) (htable : s'.table = s.table)
    (hs : ∀ r, ⟨r, false⟩ ∈ s'.sleepers →
      ⟨r, false⟩ ∈ s.sleepers ∧ s'.waiters.blocker r.pid = s.waiters.blocker r.pid) :
      s'.Recorded := by
  have hway : ∀ r q, s'.InWay r q → s.InWay r q := by
    intro r q hq
    rwa [InWay, holders, htable] at hq
  refine ⟨fun r q hr hq => (hs r hr).2.trans (h.record r q (hs r hr).1 (hway r q hq)),
    fun p hp => ?_⟩
  have hsub : ∀ a b, s'.AsleepFor a b → s.AsleepFor a b := by
    rintro a b ⟨r, hr, ha, hb⟩
    exact ⟨r, (hs r hr).1, ha, hway r b hb⟩
  exact h.acyclic p (TransGen.mono hsub p p hp)

end Sys

variable {ans : Option Answer} {f : Lock → Bool} {p : Nat}

namespace Machine

variable {m : Machine} {procs : List Nat} {s s' : Sys} {r : Req} {a : Act}

variable (h : Sane ⟨procs, s⟩)

include h

lemma Sane.inWay {c} (hway : s.inTheWay r = some c) : s.InWay r c.pid ∧ c.pid ∈ procs ∧
    c.owner.isPosix = true := by
  obtain ⟨ty, -, hc⟩ := bind_eq_some_iff.1 hway
  obtain ⟨q, hq, ho⟩ := h.locks c (Table.conflict_some hc).1
  have hpid : c.pid = q := by rw [Lock.pid, ho]
  refine ⟨?_, hpid ▸ hq, by rw [ho]; rfl⟩
  have := Sys.mem_holders hway
  rw [ho] at this
  rwa [Sys.InWay, hpid]

/-- **Going to sleep closes no circle** that the walk along the records did not see. -/
lemma Sane.no_path {c : Lock} (hrec : s.Recorded) (hr : OfProcess procs r)
    (hrun : ∀ w ∈ s.sleepers, w.req.pid ≠ r.pid)
    (hno : s.waiters.wouldDeadlock r.pid waiterMax c.pid = false) :
    ¬ ReflTransGen s.AsleepFor c.pid r.pid := by
  intro hpath
  have hchain : ReflTransGen (fun a b => a ∈ s.sleepers.map (fun w => w.req.pid) ∧
      s.waiters.blocker a = b) c.pid r.pid := by
    refine ReflTransGen.mono (fun a b hab => ?_) _ _ hpath
    obtain ⟨r', hr', rfl, hb⟩ := hab
    exact ⟨mem_map.2 ⟨_, hr', rfl⟩, hrec.record r' b hr' hb⟩
  have hout : r.pid ∉ s.sleepers.map fun w => w.req.pid := by
    intro hmem
    obtain ⟨w, hw, heq⟩ := mem_map.1 hmem
    exact hrun w hw heq
  have hlive : ∀ a ∈ s.sleepers.map (fun w => w.req.pid), a ∈ procs := by
    intro a ha
    obtain ⟨w, hw, rfl⟩ := mem_map.1 ha
    exact (h.sleepers w hw).1.live
  -- the one that would sleep is a process too, so the others are fewer than the walk is long
  have hsub : s.sleepers.map (fun w => w.req.pid) ⊆ procs.erase r.pid := by
    intro a ha
    have hne : a ≠ r.pid := fun heq => hout (heq ▸ ha)
    exact (mem_erase_of_ne hne).2 (hlive a ha)
  have hlen : (s.sleepers.map fun w => w.req.pid).length ≤ procs.length - 1 :=
    length_erase_of_mem hr.live ▸ (h.single.subperm hsub).length_le
  have hsize : procs.length ≤ waiterMax := h.size
  have hpos := length_pos_of_mem hr.live
  obtain ⟨n, hn, hend, hall⟩ := Chains.chain_length hchain hout
  have hnz : ∀ i ≤ n, s.waiters.blocker^[i] c.pid ≠ 0 := by
    intro i hi
    rcases Nat.lt_or_eq_of_le hi with hi | rfl
    · exact h.ne_zero (hlive _ (hall i hi))
    rw [hend]
    exact h.ne_zero hr.live
  have hseen : s.waiters.wouldDeadlock r.pid waiterMax c.pid = true :=
    wouldDeadlock_of_iterate (by omega) hend hnz
  rw [hno] at hseen
  exact Bool.false_ne_true hseen

lemma Sane.others (hr : OfProcess procs r)
    (hrun : ∀ w ∈ s.sleepers, w.req.pid ≠ r.pid) (b : Nat) {r'} (hr' : ⟨r', false⟩ ∈ s.sleepers) :
    (s.waiters.setWaiting r.pid b).blocker r'.pid = s.waiters.blocker r'.pid :=
  blocker_setWaiting_of_ne (h.ne_zero hr.live) (h.ne_zero (h.sleepers _ hr').1.live)
    (hrun _ hr')

lemma Sane.recorded_pass (hrec : s.Recorded) (hr : OfProcess procs r)
    (hrun : ∀ w ∈ s.sleepers, w.req.pid ≠ r.pid)
    (hone : r.blocking = true → ∀ q q', s.InWay r q → s.InWay r q' → q = q')
    (hpass : s.Passed r s' ans) : s'.Recorded := by
  rcases hpass with - | ⟨t, -, hset⟩ | - | - | - | ⟨c, hway, hb, hno⟩
  · exact hrec.fewer rfl fun r' hr' => ⟨hr', h.others hr hrun 0 hr'⟩
  · refine .of_woken fun w hw => ?_
    obtain ⟨w', -, rfl⟩ := mem_map.1 hw
    rfl
  · exact hrec
  · exact hrec
  · exact hrec.fewer rfl fun r' hr' => ⟨hr', h.others hr hrun 0 hr'⟩
  obtain ⟨hin, hlive, hposix⟩ := h.inWay hway
  have hno := hno (by rw [hr.owner]; rfl) hposix
  -- a sleeper of the new state is one of the old, or the one that went to sleep
  have hcases : ∀ r', (⟨r', false⟩ : Sleeper) ∈ s.sleepers ++ [⟨r, false⟩] →
      ⟨r', false⟩ ∈ s.sleepers ∨ r' = r := by
    intro r' hr'
    rcases mem_append.1 hr' with hr' | hr'
    · exact .inl hr'
    · exact .inr (congrArg Sleeper.req (mem_singleton.1 hr'))
  refine ⟨fun r' q hr' hq => ?_, ?_⟩
  · rcases hcases r' hr' with hr' | rfl
    · exact (h.others hr hrun c.pid hr').trans (hrec.record r' q hr' hq)
    rw [hone hb q c.pid hq hin]
    exact h.waiters.blocker_setWaiting h.size (h.ne_zero hr.live) hr.live (h.ne_zero hlive)
  refine Chains.acyclic_insert (fun a b hab => ?_) hrec.acyclic (h.no_path hrec hr hrun hno)
  obtain ⟨r', hr', ha, hb'⟩ := hab
  rcases hcases r' hr' with hr' | rfl
  · exact .inl ⟨r', hr', ha, hb'⟩
  · exact .inr ⟨ha.symm, hone hb b c.pid hb' hin⟩

omit h

/-- All that is in the way of a request that may wait belongs to one process. -/
def OneHolder (m : Machine) (a : Act) : Prop :=
  ∀ r ∈ m.tried a, r.blocking = true → ∀ o ∈ m.sys.holders r, ∀ o' ∈ m.sys.holders r, o = o'

instance (m : Machine) (a : Act) : Decidable (m.OneHolder a) :=
  match h : m.tried a with
  | none => isTrue fun r hr => by rw [h] at hr; cases hr
  | some r => decidable_of_iff (r.blocking = true →
      ∀ o ∈ m.sys.holders r, ∀ o' ∈ m.sys.holders r, o = o') <| by
    rw [OneHolder, h]
    exact ⟨fun hr _ heq => Option.some.inj heq ▸ hr, fun hr => hr r rfl⟩

lemma OneHolder.inWay (h : m.OneHolder a) (hr : m.tried a = some r)
    (hb : r.blocking = true) (q q' : Nat)
    (hq : m.sys.InWay r q) (hq' : m.sys.InWay r q') : q = q' :=
  Owner.posix.inj (h r hr hb _ hq _ hq')

lemma recorded_drop (hrec : s.Recorded) (f) : (s.drop f).Recorded := by
  rw [Sys.drop]
  split
  · refine .of_woken fun w hw => ?_
    obtain ⟨w', -, rfl⟩ := mem_map.1 hw
    rfl
  · exact hrec

lemma Sane.recorded_next (h : Sane m) (hrec : m.sys.Recorded) (hlegal : m.Legal a)
    (hone : m.OneHolder a) :
    (m.next a).sys.Recorded := by
  have hact := acted h hlegal
  revert hact
  generalize m.next a = m'
  generalize m.answer a = ans
  intro hact
  rcases hact with ⟨pid, -, -, -⟩ | - | ⟨c, sig, f, r, s, ans, hread, hr, hrun, hpass⟩ |
    ⟨sig, w, s, ans, hw, htried, hpass⟩ | - | tid | ⟨-, f⟩ | ⟨pid, hrun⟩
  · exact hrec
  · exact hrec
  · have htried : m.tried (.event (.call c sig)) = some r := by
      simp only [tried, hread, Except.toOption, map_some]
    exact h.recorded_pass hrec hr hrun.2 (hone.inWay htried) hpass
  · have hrec' : ({ m.sys with sleepers := m.sys.sleepers.erase w } : Sys).Recorded :=
      hrec.fewer rfl fun r hr => ⟨mem_of_mem_erase hr, rfl⟩
    exact (h.erase w).recorded_pass hrec' (h.sleepers w hw).1 (h.erase_running hw)
      (hone.inWay htried) hpass
  · exact hrec
  · refine hrec.fewer rfl fun r hr => ⟨?_, rfl⟩
    obtain ⟨w, hw, heq⟩ := mem_map.1 hr
    split at heq
    · exact absurd (congrArg Sleeper.woken heq) (by simp)
    · exact heq ▸ hw
  · exact recorded_drop hrec f
  · have hdrop : Sane ⟨m.procs, m.sys.drop fun l => l.owner == .posix pid⟩ := Sane.drop h _
    refine (recorded_drop hrec _).fewer rfl fun r hr => ⟨hr, ?_⟩
    obtain ⟨w, hw, hreq⟩ := Sys.mem_drop_sleepers hr
    refine blocker_setWaiting_of_ne (h.ne_zero hrun.1)
      (hdrop.ne_zero (hdrop.sleepers _ hr).1.live) ?_
    have := hrun.2 w hw
    rwa [hreq] at this

/-- **No circle of sleepers**, in any state of a run in which whatever is in the way of a request
that may wait belongs to one process. -/
theorem no_circle_of_sleepers (acts : List Act)
    (h : Every (fun m a => m.Legal a ∧ m.OneHolder a) acts init) (p : Nat) :
    ¬ TransGen (run acts init).sys.AsleepFor p p := by
  have hinv : Sane (run acts init) ∧ (run acts init).sys.Recorded := by
    refine Runs.induction_on (I := fun m => Sane m ∧ m.sys.Recorded) ?_ acts ⟨Sane.init, ?_⟩ h
    · rintro m a ⟨hs, hr⟩ ⟨hlegal, hone⟩
      exact ⟨hs.next hlegal, hs.recorded_next hr hlegal hone⟩
    · exact .of_woken nofun
  exact hinv.2.acyclic p

end Machine

/-- Process `pid` asks for a lock on one byte. -/
def oneByte (pid byte : Nat) (type : FlockType) (op : Op) : Act :=
  .event (.call ⟨pid, pid, some ⟨pid, 7, .rdwr, 0, some 0⟩, op, false,
    some ⟨type, .set, 0, 0, byte, 0, 1⟩, true⟩ false)

namespace Machine

/-- Each of two processes has a byte, and asks for the other's. The second to ask is refused. -/
def embrace : List Act :=
  [.start 1, .start 2, oneByte 1 0 .wrlck .set, oneByte 2 1 .wrlck .set, oneByte 1 1 .wrlck .setw,
    oneByte 2 0 .wrlck .setw]

theorem no_circle_of_sleepers_embrace : ¬ TransGen (run embrace init).sys.AsleepFor 1 1 :=
  no_circle_of_sleepers embrace (by decide +kernel) 1

/-- Processes `1` and `2` share byte `0`, and `3` has byte `1`. Process `3` waits for byte `0` and
records only that `1` is in its way; when `2` then waits for byte `1`, no circle is seen. -/
theorem deadlock_unnoticed :
    let acts := [.start 1, .start 2, .start 3, oneByte 1 0 .rdlck .set, oneByte 2 0 .rdlck .set,
      oneByte 3 1 .wrlck .set, oneByte 3 0 .wrlck .setw, oneByte 2 1 .wrlck .setw]
    Every Legal acts init ∧ TransGen (run acts init).sys.AsleepFor 2 2 := by
  refine ⟨by decide +kernel, .head (b := 3) ?_ (.single ?_)⟩ <;> decide +kernel

end Machine

/-! ## False alarms -/

namespace Sys

/-- Process `p` is in the wait loop, asleep or about to look again, and a lock of `q` is in its way.
-/
def Waits (s : Sys) (p q : Nat) : Prop := ∃ w ∈ s.sleepers, w.req.pid = p ∧ s.InWay w.req q

/-- Every record, but for those of process `p`, is of a process in the wait loop; and if it is
asleep, of one that is in its way. -/
def TrueBut (s : Sys) (p : Nat) : Prop := ∀ a b, (a, b) ∈ s.waiters → a ≠ 0 → a ≠ p →
  ∃ w ∈ s.sleepers, w.req.pid = a ∧ (w.woken = false → s.InWay w.req b)

variable {s s' : Sys} {r : Req}

lemma TrueBut.circle {c : Lock} (h : s.TrueBut 0) (hasleep : ∀ w ∈ s.sleepers, w.woken = false)
    (hdead : s.waiters.wouldDeadlock r.pid waiterMax c.pid = true) :
    ReflTransGen s.Waits c.pid r.pid := by
  refine ReflTransGen.mono (fun a b hab => ?_) _ _ (iterate_of_wouldDeadlock hdead).1
  obtain ⟨ha, hb, heq⟩ := hab
  obtain ⟨w, hw, hpid, hway⟩ := h a b (mem_of_blocker heq hb) ha ha
  exact ⟨w, hw, hpid, hway (hasleep w hw)⟩

end Sys

namespace Machine

variable {m : Machine} {procs : List Nat} {s s' : Sys} {r : Req} {a : Act}

lemma Sane.true_setWaiting {pid : Nat} (h : Sane ⟨procs, s⟩) (hp : pid ∈ procs)
    (htrue : s.TrueBut pid) :
    Sys.TrueBut { s with waiters := s.waiters.setWaiting pid 0 } 0 := by
  intro a b hab ha _
  have hne : a ≠ pid := by
    rintro rfl
    exact h.waiters.not_mem_setWaiting ha (mem_pids.2 ⟨ha, b, hab⟩)
  rcases mem_setWaiting (h.ne_zero hp) hab ha with heq | hmem
  · exact absurd (congrArg Prod.fst heq) hne
  · exact htrue a b hmem ha hne

lemma true_table {t : Table} (htrue : s.TrueBut p) :
    ({ s with table := t } : Sys).wakeAll.TrueBut p := by
  intro a b hab ha hne
  obtain ⟨w, hw, hpid, -⟩ := htrue a b hab ha hne
  exact ⟨_, mem_map.2 ⟨w, hw, rfl⟩, hpid, nofun⟩

/-- A pass of the wait loop leaves true records, and none of a process that it answers, unless it is
one of the two answers that leave the records alone. -/
lemma Sane.true_pass (h : Sane ⟨procs, s⟩) (htrue : s.TrueBut r.pid)
    (hr : OfProcess procs r) (hpass : s.Passed r s' ans)
    (hleft : ans = some (.failed .eagain) ∨ ans = some (.failed .edeadlk) →
    r.pid ∉ s.waiters.pids) :
    s'.TrueBut 0 ∧ (ans.isSome = true → r.pid ∉ s'.waiters.pids) := by
  have hpid := h.ne_zero hr.live
  have hsame : r.pid ∉ s.waiters.pids → s.TrueBut 0 := fun hno a b hab ha _ =>
    htrue a b hab ha fun heq => hno (mem_pids.2 ⟨hpid, b, heq ▸ hab⟩)
  rcases hpass with - | ⟨t, -, -⟩ | - | ⟨c, -, -⟩ | - | ⟨c, hway, -, -⟩
  · exact ⟨h.true_setWaiting hr.live htrue, fun _ => h.waiters.not_mem_setWaiting hpid⟩
  · exact ⟨true_table (h.true_setWaiting hr.live htrue), fun _ => h.waiters.not_mem_setWaiting hpid⟩
  · have hno := hleft (.inl rfl)
    exact ⟨hsame hno, fun _ => hno⟩
  · have hno := hleft (.inr rfl)
    exact ⟨hsame hno, fun _ => hno⟩
  · exact ⟨h.true_setWaiting hr.live htrue, fun _ => h.waiters.not_mem_setWaiting hpid⟩
  refine ⟨fun a b hab ha _ => ?_, nofun⟩
  by_cases hne : a = r.pid
  · -- the record that was just made; an older one is gone
    subst hne
    obtain ⟨hin, hlive, -⟩ := h.inWay hway
    have hb := (blocker_of_mem (h.waiters.setWaiting hpid hr.live).nodup hpid hab).symm.trans
      (h.waiters.blocker_setWaiting h.size hpid hr.live (h.ne_zero hlive))
    exact ⟨⟨r, false⟩, mem_append_right _ (mem_singleton_self _), rfl, fun _ => hb ▸ hin⟩
  · rcases mem_setWaiting hpid hab ha with heq | hmem
    · exact absurd (congrArg Prod.fst heq) hne
    obtain ⟨w, hw, hrest⟩ := htrue a b hmem ha hne
    exact ⟨w, mem_append_left _ hw, hrest⟩

lemma true_drop (htrue : s.TrueBut p) (f) : (s.drop f).TrueBut p := by
  rw [Sys.drop]
  split
  · exact true_table htrue
  · exact htrue

/-- Nobody asks to wait while a process that was woken has not looked again, and a process that
looks again does not find a circle. -/
def Prompt (m : Machine) : Act → Prop
  | .event (.call c _) => c.op = .setw → ∀ w ∈ m.sys.sleepers, w.woken = false
  | .event (.resume tid sig) => ∀ r ∈ m.tried (.event (.resume tid sig)), ∀ c ∈ m.sys.inTheWay r,
      m.sys.waiters.wouldDeadlock r.pid waiterMax c.pid = false
  | _ => True

instance (m : Machine) : DecidablePred m.Prompt
  | .event (.call _ _) => inferInstanceAs (Decidable (_ → _))
  | .event (.resume tid sig) => inferInstanceAs (Decidable
      (∀ r ∈ m.tried (.event (.resume tid sig)), ∀ c ∈ m.sys.inTheWay r,
        m.sys.waiters.wouldDeadlock r.pid waiterMax c.pid = false))
  | .start _ => isTrue trivial
  | .event (.closed _ _) => isTrue trivial
  | .event (.exit _) => isTrue trivial
  | .event (.signal _) => isTrue trivial
  | .event (.gone _) => isTrue trivial

/-- The process waits, or would wait, for one that waits for it. -/
def Circle (m : Machine) (r : Req) : Prop :=
  ∃ q, m.sys.InWay r q ∧ ReflTransGen m.sys.Waits q r.pid

/-- `EDEADLK` is for a circle, and an answer leaves no record of the process that gets it. -/
def Honest (m : Machine) (a : Act) : Prop := ∀ pid ans, m.answer a = some (pid, ans) →
  (ans = .failed .edeadlk → ∃ r, m.tried a = some r ∧ r.pid = pid ∧ m.Circle r) ∧ ∀ b,
    (pid, b) ∉ (m.next a).sys.waiters

lemma Sane.true_next (h : Sane m) (htrue : m.sys.TrueBut 0) (hlegal : m.Legal a)
    (hprompt : m.Prompt a) :
    (m.next a).sys.TrueBut 0 ∧ m.Honest a := by
  have hact := acted h hlegal
  rw [Honest]
  revert hact
  generalize m.next a = m'
  generalize m.answer a = ans
  intro hact
  -- a process that runs has no record
  have hrunning : ∀ pid, m.Running pid → pid ∉ m.sys.waiters.pids := by
    intro pid hrun hmem
    obtain ⟨h0, b, hb⟩ := mem_pids.1 hmem
    obtain ⟨w, hw, hpid, -⟩ := htrue pid b hb h0 h0
    exact hrun.2 w hw hpid
  have hnone : ∀ {ws : Waiters} {pid : Nat}, pid ∈ m.procs → pid ∉ ws.pids → ∀ b, (pid, b) ∉ ws :=
    fun hp hno b hb => hno (mem_pids.2 ⟨h.ne_zero hp, b, hb⟩)
  rcases hact with ⟨pid, -, -, -⟩ | ⟨c, sig, ans, hrun, hne⟩ |
    ⟨c, sig, f, r, s, ans, hread, hr, hrun, hpass⟩ | ⟨sig, w, s, ans, hw, htried, hpass⟩ | - | tid |
    ⟨-, f⟩ | ⟨pid, hrun⟩
  · exact ⟨htrue, by rintro _ _ ⟨⟩⟩
  · refine ⟨htrue, fun pid ans' heq => ?_⟩
    obtain ⟨rfl, rfl⟩ := Prod.mk.inj (some.inj heq)
    exact ⟨fun he => absurd he hne, hnone hrun.1 (hrunning _ hrun)⟩
  · have hres := h.true_pass (fun a b hab ha _ => htrue a b hab ha ha) hr hpass fun _ => hrunning _
      hrun
    refine ⟨hres.1, fun pid ans' heq => ?_⟩
    obtain ⟨x, rfl, hx⟩ := map_eq_some_iff.1 heq
    obtain ⟨rfl, rfl⟩ := Prod.mk.inj hx
    refine ⟨fun he => ?_, hnone hrun.1 (hres.2 rfl)⟩
    subst he
    rcases hpass with - | - | - | ⟨c', hway, hb, hdead⟩
    refine ⟨r, by simp only [tried, hread, Except.toOption, map_some], rfl, c'.pid,
      (h.inWay hway).1, htrue.circle (hprompt ?_) hdead⟩
    rw [(Call.read_ok hread).2.2.2] at hb
    simpa using hb
  · obtain ⟨hof, hb⟩ := h.sleepers w hw
    -- of the two answers that leave the records alone neither is given
    have hleft : ans = some (.failed .eagain) ∨ ans = some (.failed .edeadlk) → False := by
      rintro (rfl | rfl)
      · rcases hpass with - | - | hfalse
        rw [hb] at hfalse
        cases hfalse
      rcases hpass with - | - | - | ⟨c, hway, -, hdead⟩
      have := hprompt w.req htried c hway
      rw [this] at hdead
      cases hdead
    have hothers : ({ m.sys with sleepers := m.sys.sleepers.erase w } : Sys).TrueBut w.req.pid := by
      intro a b hab ha hne
      obtain ⟨w', hw', hpid, hrest⟩ := htrue a b hab ha ha
      have hne' : w' ≠ w := by
        rintro rfl
        exact hne hpid.symm
      exact ⟨w', (mem_erase_of_ne hne').2 hw', hpid, hrest⟩
    have hres := (h.erase w).true_pass hothers hof hpass fun hans => (hleft hans).elim
    refine ⟨hres.1, fun pid ans' heq => ?_⟩
    obtain ⟨x, rfl, hx⟩ := map_eq_some_iff.1 heq
    obtain ⟨rfl, rfl⟩ := Prod.mk.inj hx
    exact ⟨fun he => (hleft (.inr (congrArg some he))).elim, hnone hof.live (hres.2 rfl)⟩
  · exact ⟨htrue, by rintro _ _ ⟨⟩⟩
  · refine ⟨fun a b hab ha h0 => ?_, by rintro _ _ ⟨⟩⟩
    obtain ⟨w, hw, hpid, hrest⟩ := htrue a b hab ha h0
    refine ⟨_, mem_map.2 ⟨w, hw, rfl⟩, ?_⟩
    split
    · exact ⟨hpid, by rintro ⟨⟩⟩
    · exact ⟨hpid, hrest⟩
  · exact ⟨true_drop htrue f, by rintro _ _ ⟨⟩⟩
  · have hdrop : Sane ⟨m.procs, m.sys.drop fun l => l.owner == .posix pid⟩ := Sane.drop h _
    exact ⟨hdrop.true_setWaiting hrun.1 fun a b hab ha _ => true_drop htrue _ a b hab ha ha,
      by rintro _ _ ⟨⟩⟩

/-- **`EDEADLK` is no false alarm**, and no answer leaves a record behind, in every run in which
nobody asks to wait while a woken process has not looked again and no process finds a circle after
having slept. -/
theorem edeadlk_honest (acts : List Act) (h : Every (fun m a => m.Legal a ∧ m.Prompt a) acts init) :
    Every Honest acts init := by
  refine Runs.every_of_invariant (I := fun m => Sane m ∧ m.sys.TrueBut 0) ?_ acts ⟨Sane.init, ?_⟩ h
  · rintro m a ⟨hs, htrue⟩ ⟨hlegal, hprompt⟩
    obtain ⟨hnext, hhonest⟩ := hs.true_next htrue hlegal hprompt
    exact ⟨⟨hs.next hlegal, hnext⟩, hhonest⟩
  intro a b hab ha
  rw [(Prod.mk.inj (mem_replicate.1 hab).2).1] at ha
  exact absurd rfl ha

theorem edeadlk_honest_embrace : Every Honest embrace init :=
    edeadlk_honest embrace (by decide +kernel)

/-- Process `1` waits for a byte that `2` gives back, and has not run again when `2` asks for the
byte that `1` has. Process `2` gets `EDEADLK` although `1` waits for nobody. -/
theorem edeadlk_stale :
    let acts := [.start 1, .start 2, oneByte 2 0 .wrlck .set, oneByte 1 1 .wrlck .set,
      oneByte 1 0 .wrlck .setw, oneByte 2 0 .unlck .set]
    let m := run acts init
    Every Legal (acts ++ [oneByte 2 1 .wrlck .setw]) init ∧
      m.answer (oneByte 2 1 .wrlck .setw) = some (2, .failed .edeadlk) ∧
      ∀ r, m.tried (oneByte 2 1 .wrlck .setw) = some r → ¬ m.Circle r := by
  intro acts m
  refine ⟨by decide +kernel, by decide +kernel, fun r hr ⟨q, hq, hpath⟩ => ?_⟩
  have hnobody : ∀ w ∈ m.sys.sleepers, m.sys.holders w.req = [] := by decide +kernel
  rcases hpath.cases_head with heq | ⟨q', ⟨w, hw, -, hway⟩, -⟩
  · -- a process is not in its own way
    have hown : ∀ r ∈ m.tried (oneByte 2 1 .wrlck .setw), ¬ m.sys.InWay r r.pid := by decide +kernel
    exact hown r hr (heq ▸ hq)
  · rw [Sys.InWay, hnobody w hw] at hway
    cases hway

end Machine

end Sage040.Reclock
