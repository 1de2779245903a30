import Sage040.Kernel.Signal.Deliver

/-!
# A handler's own context

When a handler runs, the frame on its stack should be its own task's, and if it leaves the frame
alone, `sigreturn` should take the task back to where it was: `Faithful` says so of everything that
has happened so far.

The comment in `setup_frame` says that one static buffer is enough because the kernel does not
preempt itself. But the copy to the stack may sleep, and `mixed_frame` is a run of two tasks in
which one gets the other's registers. `faithful_of_exclusive_run` is what does hold: in every run in
which no two tasks are inside the same one of the four functions at once, and none returns through
a frame that asks for a supervisor's write, everything is as it should be. As for exec, the
invariant is that what is left of each task's program does what it should as long as the buffers
it uses are left alone (`PhaseOk`).
-/

namespace Sage040.Signal

open Coop Relation Function Machine

/-! ## The invariant -/

def Phase.place : Phase → Option Place
  | running | killed => none
  | delivering _ _ act _ => some (deliverPlace act)
  | returning rt _ _ => some (returnPlace rt)

/-- What is left of a task's program comes out right if its buffers are left alone, and does not
fail if no page has been refused so far. -/
def PhaseOk (troubled : Bool) (s : Shared) : Phase → Prop
  | .running | .killed => True
  | .delivering t sig act p =>
    p.Sat (own (deliverPlace act)) (rest (deliverPlace act))
    (fun mem _ => DeliveredOk t sig act mem)
      s ∧ (troubled = false → Fits t act → p.Total (own (deliverPlace act)) Calm s)
  | .returning rt t p =>
    p.Sat (own (returnPlace rt)) (rest (returnPlace rt)) (fun t' _ => ReturnedOk rt t t') s ∧
      (troubled = false → Clean rt t → p.Total (own (returnPlace rt)) Calm s)

variable {x rt : Bool} {s : Shared} {t : Task} {evs : List Event}

lemma phaseOk_running (x) (s) : PhaseOk x s .running := trivial

lemma phaseOk_killed (x) (s) : PhaseOk x s .killed := trivial

variable {x y : Bool} {e : Entry} {j : Nat}

lemma PhaseOk.stable {s s'} {ph : Phase} (h : PhaseOk x s ph)
    (hxy : y = false → x = false) (hs : ∀ pl, ph.place = some pl → own pl s' = own pl s) :
    PhaseOk y s' ph := by
  cases ph with
  | running => trivial
  | killed => trivial
  | delivering t sig act p =>
    have hs := hs _ rfl
    exact ⟨h.1.stable hs, fun hy hf => (h.2 (hxy hy) hf).stable hs⟩
  | returning rt t p =>
    have hs := hs _ rfl
    exact ⟨h.1.stable hs, fun hy hc => (h.2 (hxy hy) hc).stable hs⟩

/-- What has happened is right, or a page was refused. -/
def EntryOk (troubled : Bool) : Entry → Prop
  | .delivered _ t sig act mem => DeliveredOk t sig act mem
  | .returned _ rt t t' => ReturnedOk rt t t'
  | .undelivered _ t _ act => troubled = false → ¬ Fits t act
  | .unreturned _ rt t => troubled = false → ¬ Clean rt t

lemma EntryOk.mono (h : EntryOk x e) (hxy : y = false → x = false) : EntryOk y e := by
  cases e with
  | delivered i t sig act mem => exact h
  | returned i rt t t' => exact h
  | undelivered i t sig act => exact fun hy => h (hxy hy)
  | unreturned i rt t => exact fun hy => h (hxy hy)

structure Inv (m : Machine) : Prop where
  phases : ∀ i, PhaseOk m.troubled m.shared (m.phase i)
  entries : ∀ e ∈ m.log, EntryOk m.troubled e
  calm : m.troubled = false → Calm m.shared

def Exclusive (m : Machine) : Prop :=
  ∀ i j pl, (m.phase i).place = some pl → (m.phase j).place = some pl → i = j

namespace Inv

variable {m : Machine} {i : Nat}

variable {ph : Phase}

variable (h : Inv m)

include h

lemma setPhase (hph : PhaseOk m.troubled m.shared ph) : Inv (m.setPhase i ph) := by
  refine ⟨fun j => ?_, h.entries, h.calm⟩
  show PhaseOk m.troubled m.shared (update m.phase i ph j)
  by_cases hj : j = i
  · rw [hj, update_self]
    exact hph
  · rw [update_of_ne hj]
    exact h.phases j

lemma setTask (t) : Inv (m.setTask i t) := ⟨h.phases, h.entries, h.calm⟩

lemma leave (hph : PhaseOk m.troubled m.shared ph) {e} (he : EntryOk m.troubled e) :
    Inv (m.leave i ph e) := by
  refine ⟨(h.setPhase hph).phases, fun e' he' => ?_, h.calm⟩
  rcases List.mem_cons.1 he' with rfl | he'
  · exact he
  · exact h.entries e' he'

lemma stretch (hx : Exclusive m) {pl : Place} (hi : (m.phase i).place = some pl)
    (hs : rest pl s = rest pl m.shared) (hph : PhaseOk m.troubled s ph) :
    Inv { m.setPhase i ph with shared := s } := by
  have htrouble : s.trouble = m.shared.trouble := (Prod.mk.inj (Prod.mk.inj hs).2).2
  refine ⟨fun j => ?_, h.entries, fun hm => htrouble.trans (h.calm hm)⟩
  show PhaseOk m.troubled s (update m.phase i ph j)
  by_cases hj : j = i
  · rw [hj, update_self]
    exact hph
  rw [update_of_ne hj]
  refine (h.phases j).stable id fun pl' hpl' => own_of_rest hs ?_
  rintro rfl
  exact hj (hx j i _ hpl' hi)

lemma go (hx : Exclusive m) (i) : Inv (m.go i) := by
  have hi := h.phases i
  rw [Machine.go]
  cases hph : m.phase i with
  | running => exact h
  | killed => exact h
  | delivering t sig act p =>
    rw [hph] at hi
    cases p with
    | ret mem => exact leave (h.setTask _) (phaseOk_running _ _) hi.1.done
    | fail e => exact leave h (phaseOk_killed _ _) fun hm hf => (hi.2 hm hf).elim
    | step f k =>
      obtain ⟨hrest, hk⟩ := hi.1.go
      refine h.stretch hx (by rw [hph]; rfl) hrest ⟨hk, fun hm hf => ?_⟩
      exact hi.2 hm hf _ rfl (h.calm hm)
  | returning rt t p =>
    rw [hph] at hi
    cases p with
    | ret t' => exact leave (h.setTask _) (phaseOk_running _ _) hi.1.done
    | fail e => exact leave h (phaseOk_killed _ _) fun hm hc => (hi.2 hm hc).elim
    | step f k =>
      obtain ⟨hrest, hk⟩ := hi.1.go
      refine h.stretch hx (by rw [hph]; rfl) hrest ⟨hk, fun hm hc => ?_⟩
      exact hi.2 hm hc _ rfl (h.calm hm)

lemma deliver (t) (sig : UInt32) (act : Sigaction) :
    Inv (m.setPhase i (.delivering t sig act (setupFrame t sig act))) :=
  h.setPhase ⟨setupFrame_sat, fun _ hf => setupFrame_total hf⟩

lemma sigreturn (ht : UserOnly rt t) :
    Inv (m.setPhase i (.returning rt t (if rt then signalRtReturn t else signalReturn t))) := by
  refine h.setPhase ?_
  cases rt with
  | true => exact ⟨signalRtReturn_sat ht, fun _ hc => signalRtReturn_total hc⟩
  | false => exact ⟨signalReturn_sat ht, fun _ hc => signalReturn_total hc⟩

lemma trouble (e : Option Errno) : Inv (m.apply (.trouble e)) := by
  have hm : (m.troubled || e.isSome) = false → m.troubled = false ∧ e = none := by
    cases e <;> simp
  refine ⟨fun j => (h.phases j).stable (fun hy => (hm hy).1) fun _ _ => rfl,
    fun e' he' => (h.entries e' he').mono fun hy => (hm hy).1, fun hy => (hm hy).2⟩

end Inv

/-! ## Runs -/

def Step (m m' : Machine) : Prop := ∃ ev, m' = m.apply ev

/-- A step that takes no task where another one is, and no task back through a frame that asks for a
supervisor's write. -/
structure ExclusiveStep (m m' : Machine) : Prop where
  exists_event : ∃ ev, m' = m.apply ev ∧ ∀ i rt, ev = .sigreturn i rt → UserOnly rt (m.task i)
  exclusive : Exclusive m'

structure Machine.Start (m : Machine) : Prop where
  phases : ∀ i, (m.phase i).place = none
  log : m.log = []
  calm : m.troubled = false → Calm m.shared

variable {m : Machine} {ev : Event}

lemma Inv.apply (h : Inv m) (hx : Exclusive m)
    (hev : ∀ i rt, ev = .sigreturn i rt → UserOnly rt (m.task i)) : Inv (m.apply ev) := by
  cases ev with
  | deliver i sig act =>
    rw [apply]
    split
    · exact h.deliver ..
    · exact h
  | sigreturn i rt =>
    rw [apply]
    split
    · exact h.sigreturn (hev i rt rfl)
    · exact h
  | go i => exact h.go hx i
  | run i t =>
    rw [apply]
    split
    · exact h.setTask t
    · exact h
  | trouble e => exact h.trouble e

lemma inv_of_run {m0 m : Machine} (hm : m0.Start) (h : ReflTransGen ExclusiveStep m0 m) : Inv m ∧
    Exclusive m := by
  induction h with
  | refl =>
    refine ⟨⟨fun i => ?_, fun e he => ?_, hm.calm⟩, fun i _ pl hi => ?_⟩
    · have := hm.phases i
      cases hph : m0.phase i with
      | running => trivial
      | killed => trivial
      | delivering t sig act p => rw [hph] at this; cases this
      | returning rt t p => rw [hph] at this; cases this
    · rw [hm.log] at he
      cases he
    · rw [hm.phases i] at hi
      cases hi
  | tail _ hstep ih =>
    obtain ⟨⟨ev, rfl, hev⟩, hx⟩ := hstep
    exact ⟨ih.1.apply ih.2 hev, hx⟩

/-! ## A handler's own context -/

def ctxOffset (act : Sigaction) : Nat := if act.siginfo then 152 else 16

/-- The frame on the stack is the one made for the interrupted task `t`: every byte of it is, the
context in it is that task's, and nothing else was written. -/
structure OwnFrame (t : Task) (sig : UInt32) (act : Sigaction) (mem : Bytes) : Prop where
  bytes : Bytes.SameAt (frameSize act) mem (t.fp act).toNat (frameBytes t sig act) 0
  context : ctxOf act.siginfo mem ((t.fp act).toNat + ctxOffset act) = t.interrupted
  others : ∀ a, a < (t.fp act).toNat ∨ (t.fp act).toNat + frameSize act ≤ a → mem a = t.mem a

/-- The task `t` returns through the frame made for `t0`, which its handler has left alone. -/
structure Intact (t0 : Task) (act : Sigaction) (mem : Bytes) (t : Task) : Prop where
  usp : t.regs.usp = t0.fp act + 4
  frame : Bytes.SameAt (frameSize act) t.mem (t0.fp act).toNat mem (t0.fp act).toNat

/-- **A signal handler gets its own context back.** -/
structure Faithful (m : Machine) : Prop where
  frame : ∀ i t sig act mem, .delivered i t sig act mem ∈ m.log → OwnFrame t sig act mem
  resumed : ∀ i t0 sig act mem t t', .delivered i t0 sig act mem ∈ m.log →
    .returned i act.siginfo t t' ∈ m.log → Intact t0 act mem t → t'.running = t0.interrupted
  /-- A task is killed for its frame only if there was trouble, or no room for it. -/
  undelivered : ∀ i t sig act, .undelivered i t sig act ∈ m.log → m.troubled = false →
    2 ^ 32 ≤ (t.fp act).toNat + frameSize act
  /-- ... or for the writes that a fault left in it. -/
  unreturned : ∀ i t0 sig act mem t, .delivered i t0 sig act mem ∈ m.log →
    .unreturned i act.siginfo t ∈ m.log → Intact t0 act mem t → m.troubled = false →
    t0.faultSig = sig

section Faithful

variable {t0 t : Task} {sig : UInt32} {act : Sigaction} {mem : Bytes}

lemma ctxOf_frameBytes (t sig act) : ctxOf act.siginfo (frameBytes t sig act)
    (ctxOffset act) = t.interrupted := by
  rw [ctxOf, frameBytes, ctxOffset]
  split
  · exact ucContext_rtFrame ..
  · exact scContext_oldFrame ..

lemma ctxOf_congr {b c : Bytes} {o p : Nat} (h : Bytes.SameAt (frameSize act) b o c p) :
    ctxOf act.siginfo b (o + ctxOffset act) = ctxOf act.siginfo c (p + ctxOffset act) := by
  rw [frameSize] at h
  rw [ctxOf, ctxOf, ctxOffset]
  split at h
  · rename_i hs
    simp only [hs, if_true]
    exact ucContext_congr (h.part (by decide))
  rename_i hs
  simp only [hs]
  exact scContext_congr (h.part (by decide))

lemma DeliveredOk.ownFrame (h : DeliveredOk t sig act mem) : OwnFrame t sig act mem := by
  have hbytes : Bytes.SameAt (frameSize act) mem (t.fp act).toNat (frameBytes t sig act) 0 := by
    rw [h.mem]
    exact Bytes.sameAt_blit _ _ _ _ _
  refine ⟨hbytes, ?_, fun a ha => ?_⟩
  · rw [ctxOf_congr hbytes, Nat.zero_add, ctxOf_frameBytes]
  · rw [h.mem, Bytes.blit_of_ne ha]

def wbOffset (act : Sigaction) : Nat := if act.siginfo then 596 else 308

/-- A return finds the context and the writes where the delivery put them. -/
lemma Intact.ctxAt (h : Intact t0 act mem t) (hf : Fits t0 act) :
    (ctxAt act.siginfo t).toNat = (t0.fp act).toNat + ctxOffset act ∧
      (wbAt act.siginfo t).toNat = (t0.fp act).toNat + wbOffset act := by
  rw [Fits, frameSize] at hf
  simp only [Signal.ctxAt, wbAt, ctxOffset, wbOffset, h.usp, UInt32.add_assoc]
  split at hf
  · rename_i hs
    simp only [hs, if_true]
    exact ⟨toNat_add_ofNat (n := 152) (by simp only [rtSigframeSize] at hf; omega),
      toNat_add_ofNat (n := 596) (by simp only [rtSigframeSize] at hf; omega)⟩
  rename_i hs
  simp only [hs]
  exact ⟨toNat_add_ofNat (n := 16) (by simp only [sigframeSize] at hf; omega),
    toNat_add_ofNat (n := 308) (by simp only [sigframeSize] at hf; omega)⟩

lemma ReturnedOk.resumed {t'} (h : ReturnedOk act.siginfo t t')
    (hd : DeliveredOk t0 sig act mem) (hi : Intact t0 act mem t) : t'.running = t0.interrupted := by
  refine h t0 ?_
  rw [(hi.ctxAt hd.fits).1, ctxOf_congr hi.frame, hd.ownFrame.context]

lemma frameBytes_magic (t sig act) : (frameBytes t sig act).get32 (wbOffset act) =
    (t.faultWb sig).magic := by
  rw [frameBytes, wbOffset]
  split
  · simp [rtFrame, putFpu, putGregs, putWb, putUndone]
  · simp [oldFrame, putWb, putUndone]

lemma clean_of_intact (hd : DeliveredOk t0 sig act mem) (hi : Intact t0 act mem t)
    (hsig : t0.faultSig ≠ sig) : Clean act.siginfo t := by
  have hsize : wbOffset act + 4 ≤ frameSize act := by
    rw [wbOffset, frameSize]
    split <;> decide
  refine ⟨?_, ?_⟩
  · have hfp : (t0.fp act + 4).toNat = (t0.fp act).toNat + 4 :=
      toNat_add_ofNat (n := 4) (by have := hd.fits; rw [Fits] at this; omega)
    have hf := hd.fits
    rw [hi.usp, hfp]
    rw [Fits, frameSize] at hf
    split at hf
    · rename_i hs
      rw [if_pos hs]
      simp only [rtSigframeSize] at hf
      omega
    rename_i hs
    rw [if_neg hs]
    simp only [sigframeSize] at hf
    omega
  · rw [(hi.ctxAt hd.fits).2, hi.frame.get32 _ hsize, hd.ownFrame.bytes.get32 _ hsize, Nat.zero_add,
      frameBytes_magic, Task.faultWb, if_neg hsig]
    decide

end Faithful

/-- **A handler gets its own context back**, in every run in which no two tasks are in the same
function of the four at once, and none returns through a frame that asks for a supervisor's
write. -/
theorem faithful_of_exclusive_run {m₀ m : Machine} (hm : m₀.Start)
    (h : ReflTransGen ExclusiveStep m₀ m) : Faithful m := by
  have hinv := (inv_of_run hm h).1
  refine ⟨fun i t sig act mem he => ?_, fun i t₀ sig act mem t t' hd hr hi => ?_,
    fun i t sig act he hcalm => ?_, fun i t₀ sig act mem t hd hr hi hcalm => ?_⟩
  · exact (show DeliveredOk t sig act mem from hinv.entries _ he).ownFrame
  · have hd : DeliveredOk t₀ sig act mem := hinv.entries _ hd
    exact (show ReturnedOk act.siginfo t t' from hinv.entries _ hr).resumed hd hi
  · have := hinv.entries _ he hcalm
    rw [Fits] at this
    omega
  · have hd : DeliveredOk t₀ sig act mem := hinv.entries _ hd
    by_contra hsig
    exact hinv.entries _ hr hcalm (clean_of_intact hd hi hsig)

/-! ## Two tasks -/

def Machine.run (m : Machine) (evs : List Event) : Machine := evs.foldl Machine.apply m

lemma steps_run (m) (evs) : ReflTransGen Step m (m.run evs) := by
  induction evs generalizing m with
  | nil => exact .refl
  | cons ev evs ih => exact .head ⟨ev, rfl⟩ (ih (m.apply ev))

/-- A task with `d` in all its data registers, and a stack. -/
def plainTask (d : UInt32) : Task where
  regs := ⟨fun _ => d, fun _ => 0, 0, 0x10000000, 0, 0x1ffff000, fun _ => 0⟩
  mem := Bytes.zero
  blocked := 0
  savedMask := 0
  restoreMask := false
  syscallNr := none
  ssSp := 0
  ssSize := 0
  faultSig := 0
  faultCode := 0
  faultAddr := 0
  pendingWb := FaultWb.zero
  sigSrc _ := none
  blocked_ok := zero_blocks_none
  saved_ok := zero_blocks_none

/-- Two tasks, with 1 and 2 in their registers. -/
def twoTasks : Machine where
  shared := ⟨fun _ => Bytes.zero, Bytes.zero, none⟩
  task i := plainTask (if i = 0 then 1 else 2)
  phase _ := .running
  log := []
  troubled := false

lemma start_twoTasks : twoTasks.Start := ⟨fun _ => rfl, rfl, fun _ => rfl⟩

/-- `SIGUSR1`, and its handler. -/
def handler : Sigaction := ⟨0x10000100, 0, 0⟩

/-- Task 0 has filled the frame and sleeps for its stack's page; task 1 gets a signal too. -/
def mixedEvents : List Event :=
  [.deliver 0 10 handler, .go 0, .deliver 1 10 handler, .go 1, .go 0, .go 0]

/-- Task 0's first data register when it was interrupted, and the one in its frame. -/
def Entry.d0 : Entry → Option (UInt32 × UInt32)
  | .delivered 0 t _ act mem =>
    some (t.regs.d 0, (ctxOf act.siginfo mem ((t.fp act).toNat + ctxOffset act)).d 0)
  | _ => none

lemma Entry.eq_of_d0 {x y : UInt32} (h : e.d0 = some (x, y)) :
    ∃ t sig act mem, e = .delivered 0 t sig act mem ∧ t.interrupted.d 0 = x ∧
      (ctxOf act.siginfo mem ((t.fp act).toNat + ctxOffset act)).d 0 = y := by
  rw [d0.eq_def] at h
  split at h
  · rename_i t sig act mem
    obtain ⟨hx, hy⟩ := Prod.mk.inj (Option.some.inj h)
    exact ⟨t, sig, act, mem, rfl, hx, hy⟩
  · cases h

/-- **Another task's registers.**  The frame of task 0 has task 1's. -/
theorem mixed_frame : ∃ m, ReflTransGen Step twoTasks m ∧ ¬ Faithful m ∧
    ∃ t sig act mem, .delivered 0 t sig act mem ∈ m.log ∧ t.interrupted.d 0 = 1 ∧
      (ctxOf act.siginfo mem ((t.fp act).toNat + ctxOffset act)).d 0 = 2 := by
  have hlog : (twoTasks.run mixedEvents).log.filterMap Entry.d0 = [(1, 2)] := by decide +kernel
  obtain ⟨e, he, hd⟩ := List.mem_filterMap.1 (hlog ▸ List.mem_singleton_self _)
  obtain ⟨t, sig, act, mem, rfl, h1, h2⟩ := Entry.eq_of_d0 hd
  refine ⟨_, steps_run _ mixedEvents, fun hf => ?_, t, sig, act, mem, he, h1, h2⟩
  have := (hf.frame _ _ _ _ _ he).context
  rw [this, h1] at h2
  exact absurd h2 (by decide)

/-! ## One task -/

instance (w : FaultWb) : Decidable w.UserOnly :=
  inferInstanceAs (Decidable (w.magic = faultWbMagic → ∀ i : Fin 3, i.val < w.n.toNat →
    (w.w i).supervisor = false))

instance (rt : Bool) (t : Task) : Decidable (UserOnly rt t) :=
  inferInstanceAs (Decidable (getWb t.mem (wbAt rt t).toNat).UserOnly)

/-- The event is task 0's, and no return asks for a supervisor's write. -/
def Event.plain (m : Machine) : Event → Bool
  | .deliver i .. | .go i | .run i _ => i == 0
  | .sigreturn i rt => i == 0 && decide (UserOnly rt (m.task i))
  | .trouble _ => false

def plainRun (m : Machine) : List Event → Bool
  | [] => true
  | ev :: evs => ev.plain m && plainRun (m.apply ev) evs

lemma userOnly_of_plain (h : ev.plain m = true) (i) (rt) (hev : ev = .sigreturn i rt) :
    UserOnly rt (m.task i) := by
  subst hev
  exact of_decide_eq_true (Bool.and_eq_true_iff.1 h).2

lemma place_go_of_ne (m : Machine) (hj : j ≠ 0) : (m.go 0).phase j = m.phase j := by
  rw [go]
  split
  · rfl
  · rfl
  iterate 2 · split <;> exact update_of_ne hj ..

lemma phase_of_plain (h : ev.plain m = true) (hj : j ≠ 0) : (m.apply ev).phase j = m.phase j := by
  cases ev with
  | deliver i sig act =>
    obtain rfl : i = 0 := beq_iff_eq.1 h
    rw [apply]
    split
    · exact update_of_ne hj ..
    · rfl
  | sigreturn i rt =>
    obtain rfl : i = 0 := beq_iff_eq.1 (Bool.and_eq_true_iff.1 h).1
    rw [apply]
    split
    · exact update_of_ne hj ..
    · rfl
  | go i =>
    obtain rfl : i = 0 := beq_iff_eq.1 h
    exact place_go_of_ne m hj
  | run i t =>
    rw [apply]
    split <;> rfl
  | trouble e => rfl

lemma exclusiveSteps_run (h : ∀ j, j ≠ 0 → (m.phase j).place = none) (hev : plainRun m evs = true) :
    ReflTransGen ExclusiveStep m (m.run evs) := by
  induction evs generalizing m with
  | nil => exact .refl
  | cons ev evs ih =>
    obtain ⟨hplain, hevs⟩ := Bool.and_eq_true_iff.1 hev
    have hnone : ∀ j, j ≠ 0 → ((m.apply ev).phase j).place = none := by
      intro j hj
      rw [phase_of_plain hplain hj, h j hj]
    have hzero : ∀ i pl, ((m.apply ev).phase i).place = some pl → i = 0 := by
      intro i pl hi
      by_contra hne
      rw [hnone i hne] at hi
      cases hi
    refine .head ⟨⟨ev, rfl, userOnly_of_plain hplain⟩, fun i j pl hi hj => ?_⟩ (ih hnone hevs)
    rw [hzero i pl hi, hzero j pl hj]

/-- Task 0 in its handler, about to return: it has changed its registers and left the frame alone.
-/
def inHandler : Task :=
  let t := plainTask 1
  let t := t.enter 10 handler
    (t.mem.blit (t.fp handler).toNat (frameBytes t 10 handler) 0 (frameSize handler))
  { t with regs := { t.regs with usp := t.regs.usp + 4, d := fun _ => 77 } }

/-- Task 0 gets a signal, runs its handler and returns. -/
def oneSignal : List Event :=
  .deliver 0 10 handler :: List.replicate 3 (.go 0) ++
    .run 0 inHandler :: .sigreturn 0 false :: List.replicate 6 (.go 0)

/-- The first data register before and after a return. -/
def Entry.returnedD0 : Entry → Option (UInt32 × UInt32)
  | .returned _ _ t t' => some (t.regs.d 0, t'.regs.d 0)
  | _ => none

/-- One task that gets a signal is taken back to where it was. -/
theorem faithful_of_one_signal : Faithful (twoTasks.run oneSignal) ∧
    (twoTasks.run oneSignal).log.map Entry.returnedD0 = [some (77, 1), none] :=
  ⟨faithful_of_exclusive_run start_twoTasks
    (exclusiveSteps_run (m := twoTasks) (fun _ _ => rfl) (by decide +kernel)), by decide +kernel⟩

end Sage040.Signal
