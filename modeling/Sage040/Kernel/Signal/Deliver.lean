import Sage040.Kernel.Signal.Writeback
import Sage040.Kernel.Uaccess

/-!
# Delivering signals

A signal is delivered by building a frame, copying it to the task's stack and entering the handler;
`sigreturn` and `rt_sigreturn` copy it back (`kernel/signal.c`). The frame is built in a static
buffer and read back into others, and every copy may sleep while the page is brought in.

Each of the four functions is a `Coop` program over what the tasks share, and the machine runs any
number of tasks, one stretch of one task at a time. Outside of the four a task may do anything.
What each function gives if its buffers are left alone, and that it does not fail while pages can
be had, is stated here: `setupFrame_sat`, `signalReturn_sat`, `signalRtReturn_sat` and their
`_total` companions.

A task's memory is its own: what the threads of one process store into each other's frames is the
program's doing.
-/

namespace Sage040.Signal

open Coop Function Sat Except

/-! ## What the tasks share -/

/-- The static buffers: `f` of `setup_frame` and of `setup_rt_frame`, `sc` and `wb` of
`signal_return`, `uc` of `signal_rt_return`. -/
inductive Buf
  | f | rtf | sc | wb | uc
  deriving DecidableEq

/-- The functions that have static buffers. -/
inductive Place
  | setupFrame | setupRtFrame | signalReturn | signalRtReturn
  deriving DecidableEq

/-- Which function a buffer belongs to. -/
def Buf.owner : Buf → Place
  | f => .setupFrame
  | rtf => .setupRtFrame
  | sc | wb => .signalReturn
  | uc => .signalRtReturn

/-- The static buffers, and what else the tasks share. -/
structure Shared where
  bufs : Buf → Bytes
  /-- The rest of the kernel's memory, by address. -/
  kernel : Bytes
  /-- Pages can be brought in, or why not. -/
  trouble : Option Errno

/-- One buffer is replaced. -/
def Shared.set (s : Shared) (b : Buf) (x : Bytes) : Shared :=
  { s with bufs := update s.bufs b x }

/-- A function that can sleep. -/
abbrev Prog (α : Type) := Coop Errno Shared α

/-! ## The four functions -/

/-- `copy_to_user`, from a buffer. -/
@[irreducible] def putUser (uva : UInt32) (src : Shared → Bytes) (len : Nat) (mem : Bytes) :
    Prog Bytes :=
  if 2 ^ 32 ≤ uva.toNat + len then fail .efault
  else copyToUser Shared.trouble uva.toNat src len mem

/-- `copy_from_user`, to a buffer. -/
@[irreducible] def getUser (b : Buf) (uva : UInt32) (len : Nat) (mem : Bytes) : Prog Unit :=
  if 2 ^ 32 ≤ uva.toNat + len then fail .efault
  else copyFromUser Shared.trouble (·.bufs b) (·.set b) uva.toNat len mem

/-- A frame, by way of its buffer: the task's memory with it. -/
def pushFrame (b : Buf) (frame : Bytes) (fp : UInt32) (len : Nat) (mem : Bytes) : Prog Bytes := do
  change fun s => s.set b frame
  putUser fp (·.bufs b) len mem

/-- `setup_frame` and `setup_rt_frame`, of a task whose call has had its outcome. -/
def setupFrame (t : Task) (sig : UInt32) (act : Sigaction) : Prog Bytes :=
  if act.siginfo then pushFrame .rtf (rtFrame t sig act) (t.fp act) rtSigframeSize t.mem
  else pushFrame .f (oldFrame t sig act) (t.fp act) sigframeSize t.mem

/-- The bit of a signal. -/
def sigmask (sig : UInt32) : UInt32 := 1 <<< (sig - 1)

/-- What `block_for_handler` leaves in the mask. -/
def Task.blockForHandler (t : Task) (sig : UInt32) (act : Sigaction) : Task :=
  t.setMask (t.blocked ||| act.mask ||| if act.nodefer then 0 else sigmask sig)

/-- The task, about to run the handler. -/
def Task.enter (t : Task) (sig : UInt32) (act : Sigaction) (mem : Bytes) : Task :=
  { t.blockForHandler sig act with
    mem := mem
    regs := { t.regs with
      usp := t.fp act
      pc := act.handler
      sr := t.regs.sr &&& 0x3fff }
    restoreMask := false
    faultSig := if t.faultSig = sig then 0 else t.faultSig
    pendingWb := if t.faultSig = sig then FaultWb.zero else t.pendingWb
    sigSrc := if act.siginfo && sig < 32 then update t.sigSrc sig none else t.sigSrc }

/-- One write that a fault left undone. -/
def oneWrite (u : Undone) (mem : Bytes) : Prog Bytes :=
  if u.line then fail .efault
  else if u.supervisor then do
    change fun s => { s with kernel := s.kernel.blit u.addr.toNat u.buf 0 u.len }
    pure mem
  else putUser u.addr (fun _ => u.buf) u.len mem

/-- The loop of `wb040_redo`, over the records left. -/
def redoFrom (wb : Shared → FaultWb) : List (Fin 3) → Bytes → Prog Bytes
  | [], mem => pure mem
  | i :: is, mem => do
    let w ← look fun s => .ok (wb s)
    if i.val < w.n.toNat then do
      let mem ← oneWrite (w.w i) mem
      redoFrom wb is mem
    else pure mem

/-- `wb040_redo`: the writes that a fault left undone, made again. -/
def wb040Redo (wb : Shared → FaultWb) (mem : Bytes) : Prog Bytes := do
  let w ← look fun s => .ok (wb s)
  if w.magic ≠ faultWbMagic then pure mem else redoFrom wb (List.finRange 3) mem

/-- The FPU is loaded. -/
def Task.setFpu (t : Task) (mem : Bytes) (fpu : Fin 52 → UInt32) : Task :=
  { t with mem := mem, regs := { t.regs with fpu := fpu } }

/-- `signal_return`. -/
def signalReturn (t : Task) : Prog Task := do
  getUser .sc (t.regs.usp + 12) 284 t.mem
  let t' ← look fun s => .ok (t.resumeOld (s.bufs .sc))
  -- `usp + 12 - SIGFRAME_SC_OFFSET`, and the records' offset in the frame
  getUser .wb (t.regs.usp + 304) 44 t.mem
  let mem ← wb040Redo (fun s => getWb (s.bufs .wb) 0) t.mem
  look fun s => .ok (t'.setFpu mem (fpuOld (s.bufs .sc)))

/-- `signal_rt_return`. -/
def signalRtReturn (t : Task) : Prog Task := do
  getUser .uc (t.regs.usp + 148) 532 t.mem
  let (t', wb) ← look fun s => .ok (t.resumeRt (s.bufs .uc), getWb (s.bufs .uc) 444)
  let mem ← wb040Redo (fun _ => wb) t.mem
  look fun s => .ok (t'.setFpu mem (fpuRt (s.bufs .uc)))

/-! ## The machine -/

/-- What a task is at. -/
inductive Phase
  | running
  /-- Inside `setup_frame`, with the task as it was interrupted. -/
  | delivering (t : Task) (sig : UInt32) (act : Sigaction) (p : Prog Bytes)
  /-- Inside one of the two returns (`rt_sigreturn` if `rt`), with the task as it made the call. -/
  | returning (rt : Bool) (t : Task) (p : Prog Task)
  | killed

/-- What is written down of a delivery or a return. -/
inductive Entry
  /-- The frame for the interrupted task `t` is on its stack, in the memory `mem`. -/
  | delivered (i : Nat) (t : Task) (sig : UInt32) (act : Sigaction) (mem : Bytes)
  /-- The task `t` has returned, as `t'`. -/
  | returned (i : Nat) (rt : Bool) (t t' : Task)
  /-- `force_segv`: the frame could not be made, or not be read back. -/
  | undelivered (i : Nat) (t : Task) (sig : UInt32) (act : Sigaction)
  | unreturned (i : Nat) (rt : Bool) (t : Task)

/-- The tasks with what they are at, and what they share. -/
structure Machine where
  shared : Shared
  task : Nat → Task
  phase : Nat → Phase
  log : List Entry
  /-- A page has been refused at some time. -/
  troubled : Bool

/-- What can happen to a task. -/
inductive Event
  /-- `signal_deliver` has chosen a handler for a task on its way to user mode. -/
  | deliver (i : Nat) (sig : UInt32) (act : Sigaction)
  /-- A task calls `sigreturn` or `rt_sigreturn`. -/
  | sigreturn (i : Nat) (rt : Bool)
  /-- A task inside one of the four functions runs to the next place where it may sleep. -/
  | go (i : Nat)
  /-- A task outside of them does anything at all with its registers, its memory, its mask. -/
  | run (i : Nat) (t : Task)
  /-- The disk and the page allocator change their mind. -/
  | trouble (e : Option Errno)

namespace Machine

/-- What a task is at is replaced. -/
def setPhase (m : Machine) (i : Nat) (ph : Phase) : Machine :=
  { m with phase := update m.phase i ph }

/-- A task is replaced. -/
def setTask (m : Machine) (i : Nat) (t : Task) : Machine :=
  { m with task := update m.task i t }

/-- A task is done, which is written down. -/
def leave (m : Machine) (i : Nat) (ph : Phase) (e : Entry) : Machine :=
  { m.setPhase i ph with log := e :: m.log }

/-- A task that sleeps goes on. -/
def go (m : Machine) (i : Nat) : Machine :=
  match m.phase i with
  | .running | .killed => m
  | .delivering t sig act p =>
    match p with
    | .ret mem => (m.setTask i (t.enter sig act mem)).leave i .running (.delivered i t sig act mem)
    | .fail _ => m.leave i .killed (.undelivered i t sig act)
    | .step f k => { m.setPhase i (.delivering t sig act (k m.shared)) with shared := f m.shared }
  | .returning rt t p =>
    match p with
    | .ret t' => (m.setTask i t').leave i .running (.returned i rt t t')
    | .fail _ => m.leave i .killed (.unreturned i rt t)
    | .step f k => { m.setPhase i (.returning rt t (k m.shared)) with shared := f m.shared }

/-- The task runs its program, or is elsewhere in the kernel. -/
def isRunning (m : Machine) (i : Nat) : Bool :=
  match m.phase i with
  | .running => true
  | _ => false

/-- One event. -/
def apply (m : Machine) : Event → Machine
  | .deliver i sig act =>
    if m.isRunning i && (m.task i).regs.redirectable then
      let t := (m.task i).syscallOutcome act
      m.setPhase i (.delivering t sig act (setupFrame t sig act))
    else m
  | .sigreturn i rt =>
    if m.isRunning i then
      let t := m.task i
      m.setPhase i (.returning rt t (if rt then signalRtReturn t else signalReturn t))
    else m
  | .go i => m.go i
  | .run i t => if m.isRunning i then m.setTask i t else m
  | .trouble e =>
    { m with shared := { m.shared with trouble := e }, troubled := m.troubled || e.isSome }

end Machine

/-! ## What each function gives -/

/-- What a task inside `pl` uses: its buffers, and the kernel's memory. -/
def own (pl : Place) (s : Shared) : (Buf → Bytes) × Bytes :=
  (fun b => if b.owner = pl then s.bufs b else Bytes.zero, s.kernel)

/-- What the function that has the place does not touch. -/
def rest (pl : Place) (s : Shared) : (Buf → Bytes) × Bytes × Option Errno :=
  (fun b => if b.owner = pl then Bytes.zero else s.bufs b, s.kernel, s.trouble)

/-- Nothing has gone wrong. -/
def Calm (s : Shared) : Prop := s.trouble = none

variable {x : Bytes} {src : Shared → Bytes}

section Places

variable {pl pl' : Place} {s t : Shared} {b : Buf}

lemma own_fst (hb : b.owner = pl) : (own pl s).1 b = s.bufs b := if_pos hb

lemma bufs_of_own (h : own pl t = own pl s) (hb : b.owner = pl) : t.bufs b = s.bufs b := by
  rw [← own_fst hb, h, own_fst hb]

lemma own_set (hb : b.owner = pl) (x) : own pl (s.set b x) =
    (update (own pl s).1 b x, (own pl s).2) := by
  refine Prod.ext (funext fun c => ?_) rfl
  by_cases hc : c = b
  · subst hc
    simp only [own, Shared.set, if_pos hb, update_self]
  · simp only [own, Shared.set, update_of_ne hc]

lemma rest_set (hb : b.owner = pl) (x) : rest pl (s.set b x) = rest pl s := by
  refine Prod.ext (funext fun c => ?_) rfl
  simp only [rest, Shared.set]
  split
  · rfl
  rename_i hc
  refine update_of_ne (fun h => hc ?_) ..
  rw [h, hb]

lemma own_of_rest (h : rest pl t = rest pl s) (hne : pl' ≠ pl) : own pl' t = own pl' s := by
  obtain ⟨hb, hk⟩ := Prod.mk.inj h
  refine Prod.ext (funext fun b => ?_) (Prod.mk.inj hk).1
  simp only [own]
  split
  · rename_i hb'
    have := congrFun hb b
    rwa [if_neg (hb' ▸ hne), if_neg (hb' ▸ hne)] at this
  · rfl

end Places

section Copies

variable {pl : Place} {s : Shared} {b : Buf} {uva : UInt32} {len : Nat} {mem : Bytes}

lemma putUser_sat (hsrc : ∀ t, own pl t = own pl s → src t = x) :
    (putUser uva src len mem).Sat (own pl) (rest pl)
      (fun m t => own pl t = own pl s ∧ uva.toNat + len < 2 ^ 32 ∧
      m = mem.blit uva.toNat x 0 len) s := by
  rw [putUser]
  split
  · exact sat_fail _
  · exact (copyToUser_sat hsrc ..).mono fun m t hm => ⟨hm.1, by omega, hm.2⟩

lemma putUser_total (src) (h : uva.toNat + len < 2 ^ 32) :
    (putUser uva src len mem).Total (own pl) Calm s := by
  rw [putUser, if_neg (by omega)]
  exact copyToUser_total (fun _ ht => ht) ..

/-- The buffer has the bytes, and the others of this place are as they were. -/
lemma getUser_sat (hb : b.owner = pl) : (getUser b uva len mem).Sat (own pl) (rest pl)
    (fun _ t => uva.toNat + len < 2 ^ 32 ∧ Bytes.SameAt len (t.bufs b) 0 mem uva.toNat ∧
      ∀ c, c ≠ b → c.owner = pl → t.bufs c = s.bufs c) s := by
  rw [getUser]
  split
  · exact sat_fail _
  refine (copyFromUser_sat (fun o => o.1 b) (fun o x => (update o.1 b x, o.2))
    (fun t => (own_fst hb).symm) (fun t x => own_set hb x) (fun t x => rest_set hb x)
    (fun o x => update_self ..) (fun o x y => ?_) (fun o => ?_) ..).mono
    fun _ t ht => ⟨by omega, ?_, fun c hc hcpl => ?_⟩
  · exact Prod.ext (update_idem ..) rfl
  · exact Prod.ext (update_eq_self ..) rfl
  · simp only [← own_fst hb, ht, update_self]
    exact Bytes.sameAt_blit _ _ _ _ _
  · simp only [← own_fst hcpl, ht, update_of_ne hc]

lemma getUser_total (h : uva.toNat + len < 2 ^ 32) :
    (getUser b uva len mem).Total (own pl) Calm s := by
  rw [getUser, if_neg (by omega)]
  exact copyFromUser_total (fun _ ht => ht) ..

end Copies

section Frames

variable {t : Task} {sig : UInt32} {act : Sigaction} {pl : Place} {s : Shared}

/-- Which of the two frames the action asks for. -/
def deliverPlace (act : Sigaction) : Place := if act.siginfo then .setupRtFrame else .setupFrame

/-- The frame fits below the end of the address space. -/
def Fits (t : Task) (act : Sigaction) : Prop := (t.fp act).toNat + frameSize act < 2 ^ 32

/-- What a delivery leaves on the stack. -/
structure DeliveredOk (t : Task) (sig : UInt32) (act : Sigaction) (mem : Bytes) : Prop where
  fits : Fits t act
  mem : mem = t.mem.blit (t.fp act).toNat (frameBytes t sig act) 0 (frameSize act)

lemma pushFrame_sat {b} (hb : b.owner = pl) (frame : Bytes) (fp : UInt32) (len mem) :
    (pushFrame b frame fp len mem).Sat (own pl) (rest pl)
      (fun m _ => fp.toNat + len < 2 ^ 32 ∧ m = mem.blit fp.toNat frame 0 len) s := by
  refine bind (sat_change (fun t _ => rest_set hb frame) fun t _ u hu => ?_)
  refine (putUser_sat fun v hv => ?_).mono fun m v hm => hm.2
  rw [bufs_of_own (hv.trans hu) hb]
  exact update_self ..

lemma pushFrame_total {b} {frame mem : Bytes} {fp : UInt32} {len}
    (h : fp.toNat + len < 2 ^ 32) : (pushFrame b frame fp len mem).Total (own pl) Calm s :=
  (total_change _).bind ((sat_trivial (own pl) _ s).mono fun _ _ _ => putUser_total _ h)

lemma setupFrame_sat : (setupFrame t sig act).Sat (own (deliverPlace act))
    (rest (deliverPlace act)) (fun mem _ => DeliveredOk t sig act mem) s := by
  cases h : act.siginfo with
  | true =>
    simp only [setupFrame, deliverPlace, h, if_true]
    refine (pushFrame_sat (b := .rtf) rfl _ _ _ _).mono fun m _ hm => ⟨?_, ?_⟩
    · rw [Fits, frameSize, if_pos h]
      exact hm.1
    · rw [frameBytes, if_pos h, frameSize, if_pos h]
      exact hm.2
  | false =>
    simp only [setupFrame, deliverPlace, h, Bool.false_eq_true, if_false]
    refine (pushFrame_sat (b := .f) rfl _ _ _ _).mono fun m _ hm => ⟨?_, ?_⟩
    · rw [Fits, frameSize, h, if_neg Bool.false_ne_true]
      exact hm.1
    · rw [frameBytes, frameSize, h, if_neg Bool.false_ne_true, if_neg Bool.false_ne_true]
      exact hm.2

lemma setupFrame_total (h : Fits t act) : (setupFrame t sig act).Total (own pl) Calm s := by
  rw [setupFrame]
  split
  · rename_i hs
    rw [Fits, frameSize, if_pos hs] at h
    refine pushFrame_total ?_
    exact h
  rename_i hs
  rw [Fits, frameSize, if_neg hs] at h
  refine pushFrame_total ?_
  exact h

end Frames

section Redo

variable {pl : Place} {s : Shared} {wb : Shared → FaultWb} {w : FaultWb}

lemma oneWrite_sat {u : Undone} (h : u.supervisor = false) (mem) :
    (oneWrite u mem).Sat (own pl) (rest pl) (fun _ t => own pl t = own pl s) s := by
  rw [oneWrite]
  split
  · exact sat_fail _
  rw [h, if_neg Bool.false_ne_true]
  exact (putUser_sat fun _ _ => rfl).mono fun _ _ hm => hm.1

/-- No record is a supervisor's write. -/
def FaultWb.UserOnly (w : FaultWb) : Prop :=
  w.magic = faultWbMagic → ∀ i : Fin 3, i.val < w.n.toNat → (w.w i).supervisor = false

section

variable (hwb : ∀ t, own pl t = own pl s → wb t = w)
include hwb

lemma redoFrom_sat
    (hw : ∀ i : Fin 3, i.val < w.n.toNat → (w.w i).supervisor = false) (is : List (Fin 3)) (mem) :
    (redoFrom wb is mem).Sat (own pl) (rest pl) (fun _ t => own pl t = own pl s) s := by
  induction is generalizing s mem with
  | nil => exact sat_ret fun _ ht => ht
  | cons i is ih =>
    refine bind (sat_look fun t ht w' hw' u hu => ?_)
    obtain rfl : w = w' := by
      rw [← hwb t ht]
      exact ok.inj hw'
    have hu' := hu.trans ht
    split
    · rename_i hi
      refine bind ((oneWrite_sat (hw i hi) mem).mono fun m v hv => ?_)
      refine (ih (fun x hx => hwb x ?_) m).mono fun _ x hx => hx.trans (hv.trans hu')
      exact hx.trans (hv.trans hu')
    · exact sat_ret fun v hv => hv.trans hu'

lemma wb040Redo_sat (hw : w.UserOnly) (mem) :
    (wb040Redo wb mem).Sat (own pl) (rest pl) (fun _ t => own pl t = own pl s) s := by
  refine bind (sat_look fun t ht w' hw' u hu => ?_)
  obtain rfl : w = w' := by
    rw [← hwb t ht]
    exact ok.inj hw'
  have hu' := hu.trans ht
  split
  · exact sat_ret fun v hv => hv.trans hu'
  rename_i hm
  refine (redoFrom_sat (fun v hv => hwb v (hv.trans hu')) (hw (not_not.1 hm)) _ mem).mono ?_
  exact fun _ v hv => hv.trans hu'

lemma wb040Redo_total (hw : w.magic ≠ faultWbMagic)
    (mem) : (wb040Redo wb mem).Total (own pl) Calm s := by
  refine (total_look fun t _ _ => ⟨wb t, rfl⟩).bind (sat_look fun t ht w' hw' u hu => ?_)
  obtain rfl : w = w' := by
    rw [← hwb t ht]
    exact ok.inj hw'
  rw [if_pos hw]
  exact total_ret _

end

end Redo

section Returns

variable {t : Task} {s : Shared}

/-- Which of the two returns it is. -/
def returnPlace (rt : Bool) : Place := if rt then .signalRtReturn else .signalReturn

/-- Where a return looks for the context, and for the undone writes. -/
def ctxAt (rt : Bool) (t : Task) : UInt32 := t.regs.usp + if rt then 148 else 12
/-- Where the frame has the writes that were left undone. -/
def wbAt (rt : Bool) (t : Task) : UInt32 := t.regs.usp + if rt then 592 else 304

/-- The context in the frame. -/
def ctxOf (rt : Bool) (b : Bytes) (o : Nat) : Context := if rt then ucContext b o else scContext b o

/-- A return's result: a context that is in the frame is taken up. -/
def ReturnedOk (rt : Bool) (t t' : Task) : Prop :=
  ∀ t0 : Task, ctxOf rt t.mem (ctxAt rt t).toNat = t0.interrupted → t'.running = t0.interrupted

/-- The frame a return reads asks for no supervisor's write. -/
def UserOnly (rt : Bool) (t : Task) : Prop := (getWb t.mem (wbAt rt t).toNat).UserOnly

/-- The frame lies below the end of the address space and asks for no write at all. -/
structure Clean (rt : Bool) (t : Task) : Prop where
  fits : t.regs.usp.toNat + (if rt then 680 else 348) < 2 ^ 32
  magic : t.mem.get32 (wbAt rt t).toNat ≠ faultWbMagic

lemma toNat_add {a b : UInt32} (h : a.toNat + b.toNat < 2 ^ 32) :
    (a + b).toNat = a.toNat + b.toNat := by
  rw [UInt32.toNat_add, Nat.mod_eq_of_lt h]

lemma toNat_add_ofNat {a : UInt32} {n : Nat} (h : a.toNat + n < 2 ^ 32) :
    (a + UInt32.ofNat n).toNat = a.toNat + n := by
  have hn : (UInt32.ofNat n).toNat = n := UInt32.toNat_ofNat_of_lt' (by
    rw [UInt32.size]
    omega)
  rw [toNat_add (by rwa [hn]), hn]

lemma signalReturn_sat (h : UserOnly false t) : (signalReturn t).Sat (own .signalReturn)
    (rest .signalReturn) (fun t' _ => ReturnedOk false t t') s := by
  refine bind ((getUser_sat (b := .sc) rfl).mono fun _ u ⟨_, hsc, _⟩ => ?_)
  refine bind (sat_look fun v hv t' ht' w hw => ?_)
  obtain rfl : t.resumeOld (u.bufs .sc) = t' := by
    rw [← bufs_of_own hv rfl]
    exact ok.inj ht'
  refine bind ((getUser_sat (b := .wb) rfl).mono fun _ x ⟨_, hwb, hothers⟩ => ?_)
  have hxsc : x.bufs .sc = u.bufs .sc :=
    (hothers .sc (by decide) rfl).trans (bufs_of_own (hw.trans hv) rfl)
  refine bind ((wb040Redo_sat (fun y hy => ?_) h t.mem).mono fun mem y hy => ?_)
  · rw [bufs_of_own hy rfl]
    exact getWb_congr hwb
  refine sat_look fun z hz t' ht' _ _ t0 hctx => ?_
  have hz : z.bufs .sc = u.bufs .sc := (bufs_of_own (hz.trans hy) rfl).trans hxsc
  rw [← ok.inj ht', hz]
  exact running_returnedOld ((scContext_congr hsc).trans hctx)

lemma getWb_uc {uc : Bytes} (hfit : (t.regs.usp + 148).toNat + 532 < 2 ^ 32)
    (huc : Bytes.SameAt 532 uc 0 t.mem (t.regs.usp + 148).toNat) :
    getWb uc 444 = getWb t.mem (wbAt true t).toNat := by
  have hadd : (wbAt true t).toNat = (t.regs.usp + 148).toNat + 444 := by
    rw [← toNat_add_ofNat (by omega), UInt32.add_assoc]
    rfl
  rw [hadd]
  exact getWb_congr (huc.part (k := 444) (by decide))

lemma signalRtReturn_sat (h : UserOnly true t) : (signalRtReturn t).Sat (own .signalRtReturn)
    (rest .signalRtReturn) (fun t' _ => ReturnedOk true t t') s := by
  refine bind ((getUser_sat (b := .uc) rfl).mono fun _ u ⟨hfit, huc, _⟩ => ?_)
  refine bind (sat_look fun v hv x hx w hw => ?_)
  obtain rfl : (t.resumeRt (u.bufs .uc), getWb (u.bufs .uc) 444) = x := by
    rw [← bufs_of_own hv rfl]
    exact ok.inj hx
  refine bind ((wb040Redo_sat (fun _ _ => getWb_uc hfit huc) h t.mem).mono fun mem y hy => ?_)
  refine sat_look fun z hz t' ht' _ _ t0 hctx => ?_
  have hz : z.bufs .uc = u.bufs .uc := bufs_of_own (hz.trans (hy.trans (hw.trans hv))) rfl
  rw [← ok.inj ht', hz]
  exact running_returnedRt ((ucContext_congr huc).trans hctx)

lemma signalReturn_total (h : Clean false t) :
    (signalReturn t).Total (own .signalReturn) Calm s := by
  have hfit : t.regs.usp.toNat + 348 < 2 ^ 32 := h.fits
  have hmagic : (getWb t.mem (wbAt false t).toNat).magic ≠ faultWbMagic := h.magic
  have h12 : (t.regs.usp + 12).toNat = t.regs.usp.toNat + 12 := toNat_add_ofNat (n := 12) (by omega)
  have h304 : (t.regs.usp + 304).toNat = t.regs.usp.toNat + 304 :=
    toNat_add_ofNat (n := 304) (by omega)
  refine (getUser_total (by omega)).bind ((sat_trivial _ _ _).mono fun _ u _ => ?_)
  refine (total_look fun _ _ _ => ⟨_, rfl⟩).bind ((sat_trivial _ _ _).mono fun t' v _ => ?_)
  refine (getUser_total (by omega)).bind (((getUser_sat (b := .wb) rfl).mono
    fun _ x ⟨_, hwb, _⟩ => ?_).weaken (fun _ _ h => h) fun _ _ _ => rfl)
  refine (wb040Redo_total (fun y hy => ?_) hmagic t.mem).bind
    ((sat_trivial _ _ _).mono fun mem y _ => total_look fun _ _ _ => ⟨_, rfl⟩)
  rw [bufs_of_own hy rfl]
  exact getWb_congr hwb

lemma signalRtReturn_total (h : Clean true t) :
    (signalRtReturn t).Total (own .signalRtReturn) Calm s := by
  have hfit : t.regs.usp.toNat + 680 < 2 ^ 32 := h.fits
  have h148 : (t.regs.usp + 148).toNat = t.regs.usp.toNat + 148 :=
    toNat_add_ofNat (n := 148) (by omega)
  refine (getUser_total (by omega)).bind (((getUser_sat (b := .uc) rfl).mono
    fun _ u ⟨hfit, huc, _⟩ => ?_).weaken (fun _ _ h => h) fun _ _ _ => rfl)
  refine (total_look fun _ _ _ => ⟨_, rfl⟩).bind (sat_look fun v hv x hx w hw => ?_)
  obtain rfl : (t.resumeRt (u.bufs .uc), getWb (u.bufs .uc) 444) = x := by
    rw [← bufs_of_own hv rfl]
    exact ok.inj hx
  exact (wb040Redo_total (fun _ _ => getWb_uc hfit huc) h.magic t.mem).bind
    ((sat_trivial _ _ _).mono fun mem y _ => total_look fun _ _ _ => ⟨_, rfl⟩)

end Returns

end Sage040.Signal
