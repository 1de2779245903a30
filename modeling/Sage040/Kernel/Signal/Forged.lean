import Sage040.Kernel.Signal.Writeback
import Sage040.Kernel.Vm.Page

/-!
# Forged frames

`sigreturn` and `rt_sigreturn` take everything from the user's stack, and nothing says that a signal
was ever delivered. So whatever is found there should buy nothing: the call writes no memory but
the caller's own, and the task goes on in user mode, with the interrupt mask as it was and
`SIGKILL` and `SIGSTOP` unblocked. `Confined` says so of what a call does.

The registers and the mask are safe in every case (`staysUser_sigreturn`). The memory is not: among
the writes that a fault left for the return to make, one whose status word says that it is the
supervisor's goes straight to the address it names, and the status word is the frame's.
`forged_write` is a call that writes the kernel's memory. `confined_iff` says when a call is
confined: when no such record that it comes to changes anything but the caller's own pages.
-/

namespace Sage040.Signal

open Vm

/-! ## What a call does -/

/-- One write to memory: the memory before it, and which byte goes where. -/
structure Store where
  mem : Mem
  addr : Nat → Nat
  len : Nat
  src : Bytes

def Store.after (st : Store) : Mem :=
  { st.mem with
    ram := (List.range st.len).foldl (fun ram k => Function.update ram (st.addr k) (st.src k))
      st.mem.ram }

/-- The writes a call has made, and what it leaves: `force_segv` if nothing. -/
structure Outcome where
  stores : List Store
  result : Option (Task × Mem)

/-- `copy_from_user`'s loop. -/
def readChunks (uva : Nat) : List (Nat × Nat) → Bytes → Mem → Option (Bytes × Mem)
  | [], b, m => some (b, m)
  | c :: cs, b, m =>
    match m.translate (uva + c.1) false with
    | none => none
    | some (pa, m) => readChunks uva cs (b.blit c.1 m.ram pa c.2) m

def readUser (uva : UInt32) (len : Nat) (m : Mem) : Option (Bytes × Mem) :=
  if 2 ^ 32 ≤ uva.toNat + len then none
  else readChunks uva.toNat (chunks uva.toNat len) Bytes.zero m

/-- `copy_to_user`'s loop. -/
def writeChunks (uva : Nat) (src : Bytes) : List (Nat × Nat) → Mem → List Store × Option Mem
  | [], m => ([], some m)
  | c :: cs, m =>
    match m.translate (uva + c.1) true with
    | none => ([], none)
    | some (pa, m) =>
      let st : Store := ⟨m, (pa + ·), c.2, fun k => src (c.1 + k)⟩
      let (sts, r) := writeChunks uva src cs st.after
      (st :: sts, r)

def writeUser (uva : UInt32) (src : Bytes) (len : Nat) (m : Mem) : List Store × Option Mem :=
  if 2 ^ 32 ≤ uva.toNat + len then ([], none)
  else writeChunks uva.toNat src (chunks uva.toNat len) m

/-- A supervisor's write, straight to its address. -/
def Undone.store (u : Undone) (m : Mem) : Store :=
  ⟨m, fun k => (u.addr.toNat + k) % 2 ^ 32, u.len, u.buf⟩

/-- `one_write`. -/
def Undone.make (u : Undone) (m : Mem) : List Store × Option Mem :=
  if u.line then ([], none)
  else if u.supervisor then ([u.store m], some (u.store m).after)
  else writeUser u.addr u.buf u.len m

/-- `wb040_redo`. -/
def redo : List Undone → Mem → List Store × Option Mem
  | [], m => ([], some m)
  | u :: us, m =>
    match u.make m with
    | (sts, none) => (sts, none)
    | (sts, some m) =>
      let (sts', r) := redo us m
      (sts ++ sts', r)

/-- What a call of `sigreturn`, or of `rt_sigreturn`, finds on the stack: the context and the
records, and the memory with the pages brought in. -/
def readFrame (rt : Bool) (t : Task) (m : Mem) : Option (Bytes × List Undone × Mem) :=
  if rt then
    match readUser (t.regs.usp + 148) 532 m with
    | none => none
    | some (uc, m) => some (uc, (getWb uc 444).records, m)
  else
    match readUser (t.regs.usp + 12) 284 m with
    | none => none
    | some (sc, m) =>
      match readUser (t.regs.usp + 304) 44 m with
      | none => none
      | some (wb, m) => some (sc, (getWb wb 0).records, m)

/-- `signal_return` and `signal_rt_return`, when nothing else runs meanwhile. -/
def sigreturn (rt : Bool) (t : Task) (m : Mem) : Outcome :=
  match readFrame rt t m with
  | none => ⟨[], none⟩
  | some (ctx, us, m) =>
    let (sts, r) := redo us m
    ⟨sts, r.map fun m => (if rt then t.returnedRt ctx else t.returnedOld ctx, m)⟩

/-! ## What it may do -/

/-- `SR_S`, `SR_TRACE` and the interrupt mask. -/
def srSuper : UInt16 := 0x2000
def srTrace : UInt16 := 0xc000
def srIpl : UInt16 := 0x0700

/-- The byte at `pa` is in a page that the program could write when it made the call. -/
def OwnByte (m0 m : Mem) (pa : Nat) : Prop :=
  ∃ va, m0.vmMayWrite va = true ∧ m.Writes va (pa / pageSize)

/-- A write changes nothing but the program's own pages. -/
def Store.Harmless (m0 : Mem) (st : Store) : Prop :=
  ∀ k < st.len, st.mem.ram (st.addr k) = st.src k ∨ OwnByte m0 st.mem (st.addr k)

structure StaysUser (t t' : Task) : Prop where
  super : t'.regs.sr &&& srSuper = 0
  trace : t'.regs.sr &&& srTrace = 0
  ipl : t'.regs.sr &&& srIpl = t.regs.sr &&& srIpl
  mask : t'.blocked &&& unblockable = 0

/-- **A forged frame buys nothing.** -/
structure Confined (t : Task) (m : Mem) (out : Outcome) : Prop where
  stores : ∀ st ∈ out.stores, st.Harmless m
  user : ∀ t' m', out.result = some (t', m') → StaysUser t t'

structure Caller where
  task : Task
  user : task.regs.sr &&& srSuper = 0

/-- The supervisor's writes among the records, up to the first one that cannot be made, with the
memory each would find. -/
def supervisorWrites : List Undone → Mem → List (Undone × Mem)
  | [], _ => []
  | u :: us, m =>
    let rest := match (u.make m).2 with
      | none => []
      | some m => supervisorWrites us m
    if !u.line && u.supervisor then (u, m) :: rest else rest

/-- Whatever the frame asks of the supervisor is already so, or the program's own to change. -/
def AsksNothing (rt : Bool) (t : Task) (m : Mem) : Prop :=
  ∀ ctx us m', readFrame rt t m = some (ctx, us, m') → ∀ x ∈ supervisorWrites us m',
    ∀ k < x.1.len, x.2.ram ((x.1.addr.toNat + k) % 2 ^ 32) = x.1.buf k ∨
      OwnByte m x.2 ((x.1.addr.toNat + k) % 2 ^ 32)

/-! ## The registers -/

variable {t' : Task}

variable {t : Task} {rt : Bool} {cs : List (Nat × Nat)} {us : List Undone}

lemma staysUser_of_sr (h : t.regs.sr &&& srSuper = 0) {b : UInt16}
    (ht : t'.regs.sr = t.regs.sr &&& srKept ||| b &&& ccr) : StaysUser t t' := by
  refine ⟨?_, ?_, ?_, t'.blocked_ok⟩
  · rw [ht, or_and_of_and_eq_zero (by decide)]
    exact h
  · rw [ht, or_and_of_and_eq_zero (by decide)]
    exact UInt16.and_zero
  · rw [ht, or_and_of_and_eq_zero (by decide)]
    rfl

lemma staysUser_sigreturn (rt) (c : Caller) {m m' : Mem}
    (h : (sigreturn rt c.task m).result = some (t', m')) : StaysUser c.task t' := by
  rw [sigreturn] at h
  split at h
  · cases h
  obtain ⟨m1, -, heq⟩ := Option.map_eq_some_iff.1 h
  obtain rfl := (Prod.mk.inj heq).1
  cases rt with
  | true => exact staysUser_of_sr c.user rfl
  | false => exact staysUser_of_sr c.user rfl

/-! ## The memory -/

section Reads

variable {m m' : Mem}

variable {b : Bytes}

lemma vmMayWrite_readChunks {uva : Nat} {b'}
    (h : readChunks uva cs b m = some (b', m')) : m'.vmMayWrite = m.vmMayWrite := by
  induction cs generalizing b m with
  | nil =>
    cases h
    rfl
  | cons c cs ih =>
    rw [readChunks] at h
    split at h
    · cases h
    rename_i htr
    rw [ih h, vmMayWrite_translate htr]

lemma vmMayWrite_readUser {uva : UInt32} {len : Nat}
    (h : readUser uva len m = some (b, m')) : m'.vmMayWrite = m.vmMayWrite := by
  rw [readUser] at h
  split at h
  · cases h
  · exact vmMayWrite_readChunks h

lemma vmMayWrite_readFrame (h : readFrame rt t m = some (b, us, m')) :
    m'.vmMayWrite = m.vmMayWrite := by
  rw [readFrame] at h
  split at h
  · split at h
    · cases h
    rename_i huc
    cases h
    exact vmMayWrite_readUser huc
  split at h
  · cases h
  rename_i hsc
  split at h
  · cases h
  rename_i hwb
  cases h
  rw [vmMayWrite_readUser hwb, vmMayWrite_readUser hsc]

end Reads

section Writes

variable {m0 m : Mem}

variable {uva len : Nat} {src : Bytes} {u : Undone}

lemma chunksFrom_page {fuel off : Nat} {c : Nat × Nat}
    (h : c ∈ chunksFrom uva fuel off len) : (uva + c.1) % pageSize + c.2 ≤ pageSize := by
  induction fuel generalizing off len with
  | zero => cases h
  | succ fuel ih =>
    rw [chunksFrom] at h
    split at h
    · cases h
    rcases List.mem_cons.1 h with rfl | h
    · have := Nat.mod_lt (uva + off) (show 0 < pageSize by decide)
      simp only [chunkLen]
      omega
    · exact ih h

/-- What the kernel writes for the program, by the program's own addresses, is harmless. -/
lemma harmless_writeChunks
    (hcs : ∀ c ∈ cs, (uva + c.1) % pageSize + c.2 ≤ pageSize) (hm : m.vmMayWrite = m0.vmMayWrite) :
    (∀ st ∈ (writeChunks uva src cs m).1, st.Harmless m0) ∧
      ∀ m', (writeChunks uva src cs m).2 = some m' → m'.vmMayWrite = m0.vmMayWrite := by
  induction cs generalizing m with
  | nil =>
    refine ⟨by simp [writeChunks], fun m' h => ?_⟩
    cases h
    exact hm
  | cons c cs ih =>
    rw [writeChunks]
    split
    · exact ⟨by simp, by simp⟩
    rename_i pa m1 htr
    obtain ⟨hmay, frame, hw, hpa⟩ := translate_write htr
    obtain ⟨ih1, ih2⟩ := ih (m := (Store.mk m1 (pa + ·) c.2 fun k => src (c.1 + k)).after)
      (fun c' hc' => hcs c' (List.mem_cons_of_mem _ hc')) (hmay.trans hm)
    refine ⟨fun st hst => ?_, ih2⟩
    rcases List.mem_cons.1 hst with rfl | hst
    · intro k (hk : k < c.2)
      have hpage := hcs c List.mem_cons_self
      have hframe : (pa + k) / pageSize = frame := by
        rw [hpa, Nat.add_assoc, Nat.mul_comm, Nat.mul_add_div (by decide),
          Nat.div_eq_of_lt (by omega), Nat.add_zero]
      refine .inr ⟨uva + c.1, ?_, ?_⟩
      · rw [← hm, ← hmay]
        exact hw.mayWrite
      · rw [hframe]
        exact hw
    · exact ih1 st hst

section

variable (hm : m.vmMayWrite = m0.vmMayWrite)
include hm

lemma harmless_writeUser {uva : UInt32} :
    (∀ st ∈ (writeUser uva src len m).1, st.Harmless m0) ∧
      ∀ m', (writeUser uva src len m).2 = some m' → m'.vmMayWrite = m0.vmMayWrite := by
  rw [writeUser]
  split
  · exact ⟨by simp, by simp⟩
  · exact harmless_writeChunks (fun c hc => chunksFrom_page hc) hm

/-- One record: its writes are harmless unless it is the supervisor's, and then that one is. -/
lemma harmless_make_iff : (∀ st ∈ (u.make m).1, st.Harmless m0) ↔
      ((!u.line && u.supervisor) = true → (u.store m).Harmless m0) := by
  rw [Undone.make]
  cases hl : u.line with
  | true => simp
  | false =>
    cases hs : u.supervisor with
    | true => simp
    | false =>
      simp only [Bool.false_eq_true, if_false, Bool.not_false, Bool.and_false,
        false_implies, iff_true]
      exact (harmless_writeUser hm).1

lemma vmMayWrite_make {m'}
    (h : (u.make m).2 = some m') : m'.vmMayWrite = m0.vmMayWrite := by
  rw [Undone.make] at h
  split at h
  · cases h
  split at h
  · cases h
    exact hm
  · exact (harmless_writeUser hm).2 m' h

end

lemma harmless_redo_iff (us) (hm : m.vmMayWrite = m0.vmMayWrite) :
    (∀ st ∈ (redo us m).1, st.Harmless m0) ↔
      ∀ x ∈ supervisorWrites us m, (x.1.store x.2).Harmless m0 := by
  induction us generalizing m with
  | nil => simp [redo, supervisorWrites]
  | cons u us ih =>
    have hu := harmless_make_iff (u := u) hm
    rw [redo, supervisorWrites]
    cases hmake : u.make m with
    | mk sts r =>
      rw [hmake] at hu
      cases r with
      | none =>
        simp only [hu]
        split
        · rename_i h
          simp [h]
        · rename_i h
          simp [h]
      | some m1 =>
        have ih := ih (vmMayWrite_make hm (show (u.make m).2 = some m1 by rw [hmake]))
        simp only [List.forall_mem_append, hu, ih]
        split
        · rename_i h
          simp [h]
        · rename_i h
          simp [h]

end Writes

/-- **When a call is confined**: when no supervisor's write that it comes to changes anything but
the caller's own pages. -/
theorem confined_iff (rt : Bool) (c : Caller) (m : Mem) :
    Confined c.task m (sigreturn rt c.task m) ↔ AsksNothing rt c.task m := by
  have huser : ∀ t' m', (sigreturn rt c.task m).result = some (t', m') → StaysUser c.task t' :=
    fun t' m' h => staysUser_sigreturn rt c h
  have hstores : (∀ st ∈ (sigreturn rt c.task m).stores, st.Harmless m) ↔
      AsksNothing rt c.task m := by
    rw [sigreturn, AsksNothing]
    cases hf : readFrame rt c.task m with
    | none => simp
    | some x =>
      obtain ⟨ctx, us, m₁⟩ := x
      have := harmless_redo_iff us (vmMayWrite_readFrame hf)
      simp only [Option.some.injEq, Prod.mk.injEq]
      rw [this]
      constructor
      · rintro h _ _ _ ⟨rfl, rfl, rfl⟩
        exact h
      · exact fun h => h ctx us m₁ ⟨rfl, rfl, rfl⟩
  exact ⟨fun h => hstores.1 h.stores, fun h => ⟨hstores.2 h, huser⟩⟩

/-! ## A frame that writes the kernel -/

/-- A task that calls `sigreturn` with its stack pointer at the start of a page. -/
def forger : Caller where
  task :=
    { regs := ⟨fun _ => 0, fun _ => 0, 0, 0x10000000, 0, 0x1ffff000, fun _ => 0⟩
      mem := Bytes.zero, blocked := 0, savedMask := 0, restoreMask := false, syscallNr := none
      ssSp := 0, ssSize := 0, faultSig := 0, faultCode := 0, faultAddr := 0
      pendingWb := FaultWb.zero, sigSrc := fun _ => none
      blocked_ok := zero_blocks_none, saved_ok := zero_blocks_none }
  user := by decide

/-- The one page it has is the frame at `0x100000`, and in it a record: four bytes for the kernel's
address `0x1000`, as the supervisor. -/
def forgedMem : Mem where
  ram := putWb Bytes.zero (0x100000 + 304)
    ⟨faultWbMagic, 1, fun _ => ⟨0x1000, 0xdeadbeef, 5, 0⟩⟩
  table p := if p = 0x1ffff then Desc.present 0x100 false else Desc.empty
  free := []
  refs _ := 1
  swap _ := none

lemma page_of_forgedMem {va : Nat} (h : forgedMem.vmMayWrite va = true) (m : Mem) :
    m.desc va = m.table 0x1ffff := by
  rw [Mem.vmMayWrite, Mem.desc] at h
  split at h
  · cases h
  rename_i hva
  have hpage : va / pageSize = 0x1ffff := by
    by_contra hne
    rw [show forgedMem.table (va / pageSize) = Desc.empty from if_neg hne] at h
    cases h
  rw [Mem.desc, if_neg hva, hpage]

/-- What a write does to its first byte, and where the forger's page is. -/
def Store.facts (st : Store) : Nat × UInt8 × UInt8 × Nat × Nat :=
  (st.addr 0, st.mem.ram (st.addr 0), st.src 0, st.len, (st.mem.table 0x1ffff).page)

/-- **The kernel's memory is written**: the call returns, and `0x1000` holds what the frame said. -/
theorem forged_write : ¬ Confined forger.task forgedMem (sigreturn false forger.task forgedMem) ∧
      forgedMem.ram 0x1000 = 0 ∧
      (sigreturn false forger.task forgedMem).result.map (fun x => x.2.ram 0x1000) = some 0xde := by
  refine ⟨fun h => ?_, by decide +kernel, by decide +kernel⟩
  have hfacts : (sigreturn false forger.task forgedMem).stores.map Store.facts =
      [(0x1000, 0, 0xde, 4, 0x100)] := by decide +kernel
  obtain ⟨st, hst, hst'⟩ := List.mem_map.1 (hfacts ▸ List.mem_singleton_self _)
  simp only [Store.facts, Prod.mk.injEq] at hst'
  obtain ⟨haddr, hold, hnew, hlen, hpage⟩ := hst'
  rcases h.stores st hst 0 (by omega) with heq | ⟨va, hmay, hw⟩
  · rw [hold, hnew] at heq
    exact absurd heq (by decide)
  have := hw.page
  rw [page_of_forgedMem hmay, hpage, haddr] at this
  exact absurd this (by decide)

end Sage040.Signal
