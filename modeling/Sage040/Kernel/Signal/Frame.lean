import Sage040.Lib.Fields

/-!
# Signal frames

What `kernel/signal.c` writes on a task's stack before it enters a handler, and what it reads back
when the handler returns. There are two frames. The old one has a `struct sigcontext`; the one for
`SA_SIGINFO` handlers has a `struct siginfo` and a `struct ucontext`. Both carry every register of
the interrupted program, the FPU's state, the signal mask and the writes that a fault left undone.

A frame is a run of bytes with fields at fixed offsets (`Sage040.Lib.Fields`). `oldFrame` and
`rtFrame` store the fields in the order the source does; `resumeOld` and `resumeRt` are what the
two returns make of a context they have read. The point of the file is that the second undoes the
first. A frame holds the context it was made in (`scContext_oldFrame`, `ucContext_rtFrame`), and a
task that returns through such a context runs on in it (`running_returnedOld`,
`running_returnedRt`).
-/

namespace Sage040.Signal

open Function

/-! ## A task -/

instance neZero_dregs : NeZero 8 := ⟨by decide⟩

/-- `struct pt_regs`, the user stack pointer, and the FPU as `fpu_save` stores it: 25 words of
`fsave` frame, `fp0`–`fp7` in 24, and the three control registers. -/
structure Regs where
  d : Fin 8 → UInt32
  a : Fin 7 → UInt32
  sr : UInt16
  pc : UInt32
  format : UInt16
  usp : UInt32
  fpu : Fin 52 → UInt32

/-- One write that a fault left undone. -/
structure Undone where
  addr : UInt32
  data : UInt32
  status : UInt16
  memaligned : UInt16

structure FaultWb where
  magic : UInt32
  n : UInt32
  w : Fin 3 → Undone

def FaultWb.zero : FaultWb := ⟨0, 0, fun _ => ⟨0, 0, 0, 0⟩⟩

/-- `struct sigsrc`: who sent a signal. -/
structure Sigsrc where
  code : UInt32
  pid : UInt32
  uid : UInt32
  value : UInt32

/-- `SIG_UNBLOCKABLE`: `SIGKILL` and `SIGSTOP`. -/
def unblockable : UInt32 := 0x40100

/-- What a signal's delivery and return use of a task. The two masks never hold `SIGKILL` or
`SIGSTOP`: everything that stores one takes them out. -/
structure Task where
  regs : Regs
  mem : Bytes
  blocked : UInt32
  savedMask : UInt32
  restoreMask : Bool
  /-- The call that was interrupted, if one was (`syscall_nr`, -1 if not). -/
  syscallNr : Option UInt32
  ssSp : UInt32
  ssSize : UInt32
  faultSig : UInt32
  faultCode : UInt32
  faultAddr : UInt32
  pendingWb : FaultWb
  sigSrc : UInt32 → Option Sigsrc
  blocked_ok : blocked &&& unblockable = 0
  saved_ok : savedMask &&& unblockable = 0

lemma zero_blocks_none : 0 &&& unblockable = 0 := by decide

/-- `struct sigaction`; the restorer is ignored. -/
structure Sigaction where
  handler : UInt32
  mask : UInt32
  flags : UInt32

namespace Sigaction

def has (act : Sigaction) (flag : UInt32) : Bool := act.flags &&& flag != 0

def siginfo (act : Sigaction) : Bool := act.has 0x4
def onstack (act : Sigaction) : Bool := act.has 0x08000000
def restart (act : Sigaction) : Bool := act.has 0x10000000
def nodefer (act : Sigaction) : Bool := act.has 0x40000000

end Sigaction

/-- The mask the program had: `sigsuspend` has set another one for the wait. -/
def Task.mask (t : Task) : UInt32 := if t.restoreMask then t.savedMask else t.blocked

lemma Task.mask_ok (t : Task) : t.mask &&& unblockable = 0 := by
  rw [Task.mask]
  split
  · exact t.saved_ok
  · exact t.blocked_ok

/-! ## Before the frame -/

/-- `-EINTR` and `-ERESTARTNOHAND`, as registers hold them. -/
def eintr : UInt32 := 0xfffffffc
def erestartnohand : UInt32 := 0xfffffdfe

/-- `syscall_outcome`, when a handler is about to run: an interrupted call returns `-EINTR`, or is
made again once the handler has returned. -/
def Task.syscallOutcome (t : Task) (act : Sigaction) : Task :=
  match t.syscallNr with
  | none => t
  | some nr =>
    let d0 := t.regs.d 0
    let regs :=
      if d0 = erestartnohand then { t.regs with d := update t.regs.d 0 eintr }
      else if d0 = eintr ∧ act.restart then
        { t.regs with d := update t.regs.d 0 nr, pc := t.regs.pc - 2 }
      else t.regs
    { t with regs := regs, syscallNr := none }

/-- `frame_redirectable`. -/
def Regs.redirectable (r : Regs) : Bool :=
  let fmt := r.format >>> 12
  fmt == 0 || fmt == 2 || fmt == 3

def Task.onAltstack (t : Task) (usp : UInt32) : Bool :=
  t.ssSize != 0 && t.ssSp < usp && usp - t.ssSp ≤ t.ssSize

def Task.frameBase (t : Task) (act : Sigaction) : UInt32 :=
  if act.onstack && t.ssSize != 0 && !t.onAltstack t.regs.usp then t.ssSp + t.ssSize
  else t.regs.usp

def sigframeSize : Nat := 352
def rtSigframeSize : Nat := 684

/-- `sizeof(struct sigframe)` or `sizeof(struct rt_sigframe)`. -/
def frameSize (act : Sigaction) : Nat := if act.siginfo then rtSigframeSize else sigframeSize

def Task.fp (t : Task) (act : Sigaction) : UInt32 :=
  (t.frameBase act - UInt32.ofNat (frameSize act)) &&& 0xfffffffc

/-- `take_fault`: the writes, if the fault raised this signal. -/
def Task.faultWb (t : Task) (sig : UInt32) : FaultWb :=
  if t.faultSig = sig then t.pendingWb else FaultWb.zero

/-! ## The frames -/

section Records

open Bytes

def putUndone (b : Bytes) (o : Nat) (u : Undone) : Bytes :=
  (((b.put32 o u.addr).put32 (o + 4) u.data).put16 (o + 8) u.status).put16 (o + 10) u.memaligned

def getUndone (b : Bytes) (o : Nat) : Undone :=
  ⟨b.get32 o, b.get32 (o + 4), b.get16 (o + 8), b.get16 (o + 10)⟩

/-- A `struct fault_wb`, 44 bytes of it. -/
def putWb (b : Bytes) (o : Nat) (wb : FaultWb) : Bytes :=
  let b := (b.put32 o wb.magic).put32 (o + 4) wb.n
  putUndone (putUndone (putUndone b (o + 8) (wb.w 0)) (o + 20) (wb.w 1)) (o + 32) (wb.w 2)

/-- `put_retcode`: the two instructions that make the call `nr`. -/
def putRetcode (b : Bytes) (o : Nat) (nr : UInt32) : Bytes :=
  (((b.put16 o 0x203c).put16 (o + 2) (nr >>> 16).toUInt16).put16 (o + 4) nr.toUInt16).put16 (o + 6)
    0x4e40

/-- `struct sigframe`, as `setup_frame` fills it for a task whose call has had its outcome. -/
def oldFrame (t : Task) (sig : UInt32) (act : Sigaction) : Bytes :=
  let fp := t.fp act
  let b := (zero.put32 16 t.mask).put32 20 t.regs.usp
  let b := (b.putWords 24 t.regs.d).putWords 56 t.regs.a
  let b := ((b.put16 84 t.regs.sr).put32 86 t.regs.pc).put16 90 t.regs.format
  let b := b.putWords 92 t.regs.fpu
  let b := putRetcode b 300 119
  let b := (((b.put32 0 (fp + 300)).put32 4 sig).put32 8 0).put32 12 (fp + 16)
  putWb b 308 (t.faultWb sig)

/-- `struct siginfo`, at 24: who sent the signal, or what faulted. -/
def putSiginfo (b : Bytes) (t : Task) (sig : UInt32) : Bytes :=
  let b := (b.put32 24 sig).put32 32 0
  let b :=
    match if sig < 32 then t.sigSrc sig else none with
    | none => b
    | some src =>
      (((b.put32 32 src.code).put32 36 src.pid).put32 40 src.uid).put32 44 src.value
  if t.faultSig = sig then (b.put32 32 t.faultCode).put32 36 t.faultAddr else b

/-- The general registers of a `struct ucontext`, at 176. -/
def putGregs (b : Bytes) (r : Regs) : Bytes :=
  ((((b.putWords 176 r.d).putWords 208 r.a).put32 236 r.usp).put32 240 r.pc).put32 244
    r.sr.toUInt32

/-- `fpu_to_uc`: the state frame into the filler, at 356, the registers to 260, the control
registers to 248. -/
def putFpu (b : Bytes) (fpu : Fin 52 → UInt32) : Bytes :=
  let b := b.putWords 356 fun i : Fin 25 => fpu ⟨i, by omega⟩
  let b := b.putWords 260 fun i : Fin 24 => fpu ⟨25 + i, by omega⟩
  b.putWords 248 fun i : Fin 3 => fpu ⟨49 + i, by omega⟩

/-- `uc_stack.ss_flags`. -/
def Task.ssFlags (t : Task) : UInt32 :=
  if t.ssSize = 0 then 2 else if t.onAltstack t.regs.usp then 1 else 0

/-- `struct rt_sigframe`, as `setup_rt_frame` fills it. -/
def rtFrame (t : Task) (sig : UInt32) (act : Sigaction) : Bytes :=
  let fp := t.fp act
  let b := ((zero.put32 4 sig).put32 8 (fp + 24)).put32 12 (fp + 152)
  let b := (putRetcode b 16 173).put32 0 (fp + 16)
  let b := putWb (putSiginfo b t sig) 596 (t.faultWb sig)
  let b := ((b.put32 160 t.ssSp).put32 168 t.ssSize).put32 164 t.ssFlags
  let b := putGregs (b.put32 172 2) t.regs
  putFpu (b.put32 676 t.mask) t.regs.fpu

end Records

def frameBytes (t : Task) (sig : UInt32) (act : Sigaction) : Bytes :=
  if act.siginfo then rtFrame t sig act else oldFrame t sig act

/-! ## The returns -/

/-- `SR_CCR`, and what a return keeps of the status register it was called with. -/
def ccr : UInt16 := 0x1f
def srKept : UInt16 := 0x3fe0

def fpuIdleFrame : UInt32 := 0x41000000

/-- Only frames the kernel writes are restored. -/
def settleFpu (fpu : Fin 52 → UInt32) : Fin 52 → UInt32 :=
  if fpu 0 ≠ 0 ∧ fpu 0 ≠ fpuIdleFrame then update fpu 0 fpuIdleFrame else fpu

lemma and_not_unblockable_ok (m : UInt32) : m &&& ~~~unblockable &&& unblockable = 0 := by
  rw [UInt32.and_assoc, UInt32.not_and_self, UInt32.and_zero]

/-- A mask from a frame: it cannot block `SIGKILL` and `SIGSTOP`. -/
def Task.setMask (t : Task) (m : UInt32) : Task :=
  { t with blocked := m &&& ~~~unblockable, blocked_ok := and_not_unblockable_ok m }

/-- What `signal_return` takes from the context it has read. -/
def Task.resumeOld (t : Task) (sc : Bytes) : Task :=
  { t.setMask (sc.get32 0) with
    syscallNr := none
    regs := { t.regs with
      d := sc.getWords 8 8
      a := sc.getWords 40 7
      pc := sc.get32 70
      sr := (t.regs.sr &&& srKept) ||| (sc.get16 68 &&& ccr)
      usp := sc.get32 4 } }

def fpuOld (sc : Bytes) : Fin 52 → UInt32 := settleFpu (sc.getWords 76 52)

/-- What `signal_rt_return` takes. -/
def Task.resumeRt (t : Task) (uc : Bytes) : Task :=
  { t.setMask (uc.get32 524) with
    syscallNr := none
    regs := { t.regs with
      d := uc.getWords 24 8
      a := uc.getWords 56 7
      pc := uc.get32 88
      sr := (t.regs.sr &&& srKept) ||| ((uc.get32 92).toUInt16 &&& ccr)
      usp := uc.get32 84 } }

/-- `uc_to_fpu`. -/
def ucFpu (uc : Bytes) : Fin 52 → UInt32 := fun i =>
  if i.val < 25 then uc.get32 (204 + i * 4)
  else if i.val < 49 then uc.get32 (108 + (i - 25) * 4)
  else uc.get32 (96 + (i - 49) * 4)

def fpuRt (uc : Bytes) : Fin 52 → UInt32 := settleFpu (ucFpu uc)

/-! ## The second undoes the first -/

/-- What a handler must get back: the general registers, the stack pointer, the pc, the condition
codes, the mask, `fp0`–`fp7` and the FPU's control registers. -/
structure Context where
  d : Fin 8 → UInt32
  a : Fin 7 → UInt32
  usp : UInt32
  pc : UInt32
  ccr : UInt16
  mask : UInt32
  fp : Fin 27 → UInt32

def Regs.context (r : Regs) (mask : UInt32) : Context where
  d := r.d
  a := r.a
  usp := r.usp
  pc := r.pc
  ccr := r.sr &&& ccr
  mask := mask
  fp i := r.fpu ⟨25 + i, by omega⟩

/-- The context a signal interrupts. -/
def Task.interrupted (t : Task) : Context := t.regs.context t.mask

/-- The context a task runs in. -/
def Task.running (t : Task) : Context := t.regs.context t.blocked

lemma settleFpu_of_ne {fpu : Fin 52 → UInt32} {i : Fin 52} (h : i ≠ 0) :
    settleFpu fpu i = fpu i := by
  rw [settleFpu]
  split
  · exact update_of_ne h ..
  · rfl

/-- Of two masked words, a third mask that misses the second sees only the first. -/
lemma or_and_of_and_eq_zero {j k l : UInt16} (h : k &&& l = 0) (a b : UInt16) :
    (a &&& j ||| b &&& k) &&& l = a &&& (j &&& l) := by
  refine UInt16.eq_of_toBitVec_eq (BitVec.eq_of_getElem_eq fun i hi => ?_)
  have h' : (k &&& l).toBitVec[i] = false := by rw [h]; simp
  simp only [UInt16.toBitVec_and, BitVec.getElem_and, Bool.and_eq_false_iff] at h'
  rcases h' with h' | h' <;> simp [h', Bool.and_assoc]

lemma kept_or_ccr (a b : UInt16) : (a &&& srKept ||| b &&& ccr) &&& ccr = b &&& ccr := by
  rw [UInt16.or_comm, or_and_of_and_eq_zero (by decide), UInt16.and_self]

lemma and_not_of_and_eq_zero {m k : UInt32} (h : m &&& k = 0) : m &&& ~~~k = m := by
  refine UInt32.eq_of_toBitVec_eq (BitVec.eq_of_getElem_eq fun i hi => ?_)
  have h' : (m &&& k).toBitVec[i] = false := by rw [h]; simp
  simp only [UInt32.toBitVec_and, BitVec.getElem_and, Bool.and_eq_false_iff] at h'
  rcases h' with h' | h' <;> simp [h']

/-- The task that `signal_return` leaves, given the context it read. -/
def Task.returnedOld (t : Task) (sc : Bytes) : Task :=
  let t := t.resumeOld sc
  { t with regs := { t.regs with fpu := fpuOld sc } }

/-- The task that `signal_rt_return` leaves. -/
def Task.returnedRt (t : Task) (uc : Bytes) : Task :=
  let t := t.resumeRt uc
  { t with regs := { t.regs with fpu := fpuRt uc } }

/-- The context that a `struct sigcontext` at `o` holds. -/
def scContext (b : Bytes) (o : Nat) : Context where
  d := b.getWords (o + 8) 8
  a := b.getWords (o + 40) 7
  usp := b.get32 (o + 4)
  pc := b.get32 (o + 70)
  ccr := b.get16 (o + 68) &&& ccr
  mask := b.get32 (o + 0)
  fp i := b.getWords (o + 76) 52 ⟨25 + i, by omega⟩

/-- The context that a `struct ucontext` at `o` holds. -/
def ucContext (b : Bytes) (o : Nat) : Context where
  d := b.getWords (o + 24) 8
  a := b.getWords (o + 56) 7
  usp := b.get32 (o + 84)
  pc := b.get32 (o + 88)
  ccr := (b.get32 (o + 92)).toUInt16 &&& ccr
  mask := b.get32 (o + 524)
  fp i := if h : i.val < 24 then b.getWords (o + 108) 24 ⟨i, h⟩
    else b.getWords (o + 96) 3 ⟨i - 24, by omega⟩

section Round

variable {b c : Bytes} {o p : Nat}

lemma scContext_congr (h : Bytes.SameAt 284 b o c p) : scContext b o = scContext c p := by
  simp (disch := decide) only [scContext, h.get16, h.get32, h.getWords]

lemma ucContext_congr (h : Bytes.SameAt 532 b o c p) : ucContext b o = ucContext c p := by
  simp (disch := decide) only [ucContext, h.get32, h.getWords]

section Frame

variable (t : Task) (sig : UInt32) (act : Sigaction)

/-- **The old frame** holds the context it was made in. -/
lemma scContext_oldFrame : scContext (oldFrame t sig act) 16 = t.interrupted := by
  simp [scContext, Task.interrupted, Regs.context, oldFrame, putWb, putUndone, putRetcode]

/-- **The frame for `SA_SIGINFO`** does. -/
lemma ucContext_rtFrame : ucContext (rtFrame t sig act) 152 = t.interrupted := by
  simp only [ucContext, Task.interrupted, Regs.context, rtFrame]
  congr 1 <;> try simp [putFpu, putGregs]
  funext i
  split
  · rfl
  congr 2
  omega

end Frame

section Return

variable {t t0 : Task}

lemma running_returnedOld (h : scContext b 0 = t0.interrupted) :
    (t.returnedOld b).running = t0.interrupted := by
  have hmask : b.get32 0 = t0.mask := congrArg Context.mask h
  have hfp (i : Fin 27) : fpuOld b ⟨25 + i, by omega⟩ = t0.interrupted.fp i := by
    rw [fpuOld, settleFpu_of_ne (Fin.ne_of_val_ne (by simp)), ← h]
    rfl
  rw [← h] at hfp ⊢
  simp only [Task.running, Regs.context, Task.returnedOld, Task.resumeOld, Task.setMask, hmask,
    kept_or_ccr, and_not_of_and_eq_zero t0.mask_ok, hfp]
  simp only [scContext, Nat.zero_add, hmask]

lemma running_returnedRt (h : ucContext b 0 = t0.interrupted) :
    (t.returnedRt b).running = t0.interrupted := by
  have hmask : b.get32 524 = t0.mask := by
    simpa [ucContext, Task.interrupted, Regs.context] using congrArg Context.mask h
  have hfp (i : Fin 27) : fpuRt b ⟨25 + i, by omega⟩ = t0.interrupted.fp i := by
    rw [fpuRt, settleFpu_of_ne (Fin.ne_of_val_ne (by simp)), ucFpu, if_neg (by simp), ← h]
    simp only [ucContext, Bytes.getWords, Nat.zero_add]
    split
    · rw [dif_pos (by omega), Nat.add_sub_cancel_left]
    · rw [dif_neg (by omega), show 25 + (i : Nat) - 49 = i - 24 by omega]
  rw [← h] at hfp ⊢
  simp only [Task.running, Regs.context, Task.returnedRt, Task.resumeRt, Task.setMask, hmask,
    kept_or_ccr, and_not_of_and_eq_zero t0.mask_ok, hfp]
  simp only [ucContext, Nat.zero_add, hmask]

end Return

end Round

end Sage040.Signal
