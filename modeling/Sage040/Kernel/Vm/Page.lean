import Sage040.Kernel.Uaccess

/-!
# Pages

An address space is a table of descriptors, one a page (`kernel/vm.c`). A descriptor says where the
page is (in a frame of memory, in a slot of the swap file, or nowhere yet) and what the program may
do with it. Here are the three functions that the kernel's own accesses go through: `vmTranslate`
looks a page up, `vmFault` makes an absent one present, and `vmMayWrite` says whether the program
may write it.

The kernel's map is identity, so a physical address is a kernel address: `ram` is all of memory, the
kernel's own and every program's. `page_alloc_user` hands out the frames of `free` in turn; what
`vm_reclaim` does to get one moves contents to the swap file and changes none.

`vmMayWrite_vmFault` says that a fault changes where pages are and not what may be done with them,
and `translate_write` that what the kernel writes for a program goes to a page it may write.
-/

namespace Sage040.Vm

open Function

/-- `USER_VA_BASE` and `USER_VA_END`. -/
def userVaBase : Nat := 0x10000000
def userVaEnd : Nat := 0x20000000

/-- A page descriptor. `page` is the number of the frame, or of the swap slot; `cow` is
`DESC_SW_COW` on a resident page and `DESC_SW_NONE`, the same bit, on any other. -/
structure Desc where
  page : Nat
  resident : Bool
  super : Bool
  wp : Bool
  cow : Bool
  lazy : Bool
  swap : Bool
  shared : Bool
  deriving DecidableEq

def Desc.empty : Desc := ⟨0, false, false, false, false, false, false, false⟩

/-- `pa | page_bits(VM_USER | ...)`. -/
def Desc.present (page : Nat) (wp : Bool) : Desc :=
  { Desc.empty with page := page, resident := true, wp := wp }

/-- `vm_may_write`, of a descriptor. -/
def Desc.mayWrite (d : Desc) : Bool :=
  if d.resident then !d.super && (!d.wp || d.cow)
  else (d.lazy || d.swap) && !(d.wp || d.cow)

structure Mem where
  /-- All of memory, by physical address. -/
  ram : Bytes
  /-- The address space, by page number. -/
  table : Nat → Desc
  /-- The frames to be handed out. -/
  free : List Nat
  /-- `pmm_refcount`. -/
  refs : Nat → Nat
  /-- What a swap slot holds, unless the disk fails. -/
  swap : Nat → Option Bytes

namespace Mem

variable (m : Mem)

/-- The descriptor of the page at `va`: nothing outside the user range. -/
def desc (va : Nat) : Desc :=
  if va < userVaBase ∨ userVaEnd ≤ va then Desc.empty else m.table (va / pageSize)

def setDesc (va : Nat) (d : Desc) : Mem :=
  { m with table := update m.table (va / pageSize) d }

def fill (frame : Nat) (data : Bytes) : Mem :=
  { m with ram := m.ram.blit (frame * pageSize) data 0 pageSize }

def frameBytes (frame : Nat) : Bytes := fun i => m.ram (frame * pageSize + i)

/-- `page_alloc_user`: a frame of zeros. -/
def pageAllocUser : Option (Nat × Mem) :=
  match m.free with
  | [] => none
  | f :: free =>
    some (f, { m with free := free, refs := update m.refs f 1 }.fill f Bytes.zero)

/-- `pmm_free`: one holder fewer. -/
def pmmFree (frame : Nat) : Mem := { m with refs := update m.refs frame (m.refs frame - 1) }

def vmMayWrite (va : Nat) : Bool := (m.desc va).mayWrite

/-- `vm_translate`: the physical address. -/
def vmTranslate (va : Nat) (write : Bool) : Option Nat :=
  let d := m.desc va
  if !d.resident then none
  else if write && d.wp then none
  else if d.super then none
  else some (d.page * pageSize + va % pageSize)

/-- The write to a page that is shared until somebody writes it. -/
def copyOnWrite (va : Nat) : Option Mem :=
  let pa := (m.desc va).page
  if m.refs pa > 1 then
    match m.pageAllocUser with
    | none => none
    | some (copy, m') =>
      some (((m'.fill copy (m'.frameBytes pa)).pmmFree pa).setDesc va (.present copy false))
  else some (m.setDesc va (.present pa false))

/-- The first touch of a page, or the first since it was swapped out. -/
def bringIn (va : Nat) : Option Mem :=
  let d := m.desc va
  match m.pageAllocUser with
  | none => none
  | some (pa, m') =>
    if d.swap then
      match m'.swap d.page with
      | none => none
      | some data => some ((m'.fill pa data).setDesc va (.present pa d.wp))
    else some (m'.setDesc va (.present pa d.wp))

/-- `vm_fault`, when nothing else runs meanwhile. -/
def vmFault (va : Nat) (write : Bool) : Option Mem :=
  let d := m.desc va
  if d.resident then
    if d.super then none
    else if !write || !d.wp then some m
    else if !d.cow then none
    else m.copyOnWrite va
  else if d.cow || !(d.lazy || d.swap) then none
  else if write && d.wp then none
  else m.bringIn va

/-- `translate` of `kernel/uaccess.c`. -/
def translate (va : Nat) (write : Bool) : Option (Nat × Mem) :=
  match m.vmTranslate va write with
  | some pa => some (pa, m)
  | none =>
    match m.vmFault va write with
    | none => none
    | some m' => (m'.vmTranslate va write).map fun pa => (pa, m')

end Mem

/-! ## What a fault leaves alone -/

/-- The page is in a frame, and the program writes it there. -/
structure Mem.Writes (m : Mem) (va frame : Nat) : Prop where
  mayWrite : m.vmMayWrite va = true
  resident : (m.desc va).resident = true
  page : (m.desc va).page = frame
  /-- Nobody else holds the frame, or everybody who does shares what is written to it. -/
  alone : (m.desc va).wp = true → m.refs frame ≤ 1

section Fault

variable {m m' : Mem} {va : Nat} {write : Bool}

lemma desc_fill (frame : Nat) (data : Bytes) : (m.fill frame data).desc = m.desc := rfl

lemma desc_pmmFree (frame : Nat) : (m.pmmFree frame).desc = m.desc := rfl

lemma desc_pageAllocUser {frame : Nat} (h : m.pageAllocUser = some (frame, m')) :
    m'.desc = m.desc := by
  rw [Mem.pageAllocUser] at h
  split at h
  · cases h
  cases h
  rfl

lemma desc_setDesc (h : m.desc va ≠ Desc.empty) (d : Desc) (va') :
    (m.setDesc va d).desc va' = if va' / pageSize = va / pageSize then d else m.desc va' := by
  rw [Mem.desc, ne_eq, ite_eq_left_iff, not_forall] at h
  obtain ⟨hva, -⟩ := h
  by_cases hpage : va' / pageSize = va / pageSize
  · have hva' : ¬ (va' < userVaBase ∨ userVaEnd ≤ va') := by
      simp only [userVaBase, userVaEnd, pageSize] at *
      omega
    rw [if_pos hpage, Mem.desc, if_neg hva', Mem.setDesc, hpage]
    exact update_self ..
  · rw [if_neg hpage, Mem.desc, Mem.desc, Mem.setDesc]
    simp only [update_of_ne hpage]

lemma desc_eq_of_page (h : m.desc va ≠ Desc.empty) {va'}
    (hpage : va' / pageSize = va / pageSize) : m.desc va' = m.desc va := by
  have hself : m.setDesc va (m.desc va) = m := by
    have hva : m.desc va = m.table (va / pageSize) := if_neg fun hva => h (if_pos hva)
    rw [Mem.setDesc, hva, update_eq_self]
  have := desc_setDesc h (m.desc va) va'
  rwa [hself, if_pos hpage] at this

/-- A page is put somewhere else, and may be written as before. -/
lemma vmMayWrite_setDesc (h : m.desc va ≠ Desc.empty) {d : Desc}
    (hd : d.mayWrite = (m.desc va).mayWrite) (va') :
    (m.setDesc va d).vmMayWrite va' = m.vmMayWrite va' := by
  rw [Mem.vmMayWrite, Mem.vmMayWrite, desc_setDesc h]
  split
  · rename_i hpage
    rw [hd, desc_eq_of_page h hpage]
  · rfl

lemma vmMayWrite_copyOnWrite (h : m.copyOnWrite va = some m')
    (hd : (m.desc va).mayWrite = true) (hne : m.desc va ≠ Desc.empty) (va') :
    m'.vmMayWrite va' = m.vmMayWrite va' := by
  have hpresent : ∀ pa, (Desc.present pa false).mayWrite = (m.desc va).mayWrite := fun _ => hd.symm
  simp only [Mem.copyOnWrite] at h
  split at h
  · split at h
    · cases h
    rename_i copy m1 halloc
    cases h
    have hdesc : ((m1.fill copy (m1.frameBytes (m.desc va).page)).pmmFree (m.desc va).page).desc =
        m.desc := by
      rw [desc_pmmFree, desc_fill, desc_pageAllocUser halloc]
    rw [vmMayWrite_setDesc (by rwa [hdesc]) (by rw [hdesc, hpresent])]
    simp only [Mem.vmMayWrite, hdesc]
  · cases h
    exact vmMayWrite_setDesc hne (hpresent _) va'

lemma vmMayWrite_bringIn (h : m.bringIn va = some m') (hres : (m.desc va).resident = false)
    (hlazy : ((m.desc va).lazy || (m.desc va).swap) = true) (hnone : (m.desc va).cow = false)
    (va') : m'.vmMayWrite va' = m.vmMayWrite va' := by
  have hne : m.desc va ≠ Desc.empty := fun he => by
    rw [he] at hlazy
    cases hlazy
  have hpresent : ∀ pa, (Desc.present pa (m.desc va).wp).mayWrite = (m.desc va).mayWrite := by
    intro pa
    simp [Desc.mayWrite, Desc.present, Desc.empty, hres, hlazy, hnone]
  have key : ∀ m1 : Mem, m1.desc = m.desc → ∀ pa,
      (m1.setDesc va (.present pa (m.desc va).wp)).vmMayWrite va' = m.vmMayWrite va' := by
    intro m1 hdesc pa
    rw [vmMayWrite_setDesc (by rwa [hdesc]) (by rw [hdesc, hpresent])]
    simp only [Mem.vmMayWrite, hdesc]
  simp only [Mem.bringIn] at h
  split at h
  · cases h
  rename_i pa m1 halloc
  have hdesc := desc_pageAllocUser halloc
  split at h
  · split at h
    · cases h
    cases h
    exact key _ ((desc_fill ..).trans hdesc) pa
  · cases h
    exact key _ hdesc pa

/-- **A fault** changes where pages are, and not what may be done with them. -/
lemma vmMayWrite_vmFault (h : m.vmFault va write = some m') (va') :
    m'.vmMayWrite va' = m.vmMayWrite va' := by
  simp only [Mem.vmFault] at h
  split at h
  · rename_i hres
    split at h
    · cases h
    rename_i hsuper
    split at h
    · cases h
      rfl
    split at h
    · cases h
    rename_i hcow
    refine vmMayWrite_copyOnWrite h ?_ (fun he => ?_) va'
    · simp [Desc.mayWrite, hres, Bool.eq_false_iff.2 hsuper,
        show (m.desc va).cow = true by simpa using hcow]
    · rw [he] at hres
      cases hres
  · rename_i hres
    split at h
    · cases h
    rename_i hnone
    simp only [Bool.or_eq_true, Bool.not_eq_true', not_or, Bool.not_eq_true,
      Bool.not_eq_false] at hnone
    split at h
    · cases h
    exact vmMayWrite_bringIn h (Bool.eq_false_iff.2 hres) (Bool.or_eq_true_iff.2 hnone.2)
      hnone.1 va'

lemma vmTranslate_write {pa : Nat} (h : m.vmTranslate va true = some pa) :
    m.Writes va (m.desc va).page ∧ pa = (m.desc va).page * pageSize + va % pageSize := by
  simp only [Mem.vmTranslate] at h
  split at h
  · cases h
  rename_i hres
  split at h
  · cases h
  rename_i hwp
  split at h
  · cases h
  rename_i hsuper
  simp only [Bool.not_eq_true', Bool.not_eq_false, Bool.true_and, Bool.not_eq_true] at *
  refine ⟨⟨?_, hres, rfl, fun hw => ?_⟩, (Option.some.inj h).symm⟩
  · simp [Mem.vmMayWrite, Desc.mayWrite, hres, hwp, hsuper]
  rw [hw] at hwp
  cases hwp

/-- **What the kernel writes for a program** goes to a page the program may write. -/
lemma translate_write {pa : Nat} (h : m.translate va true = some (pa, m')) :
    m'.vmMayWrite = m.vmMayWrite ∧
      ∃ frame, m'.Writes va frame ∧ pa = frame * pageSize + va % pageSize := by
  rw [Mem.translate] at h
  split at h
  · rename_i htr
    cases h
    exact ⟨rfl, _, vmTranslate_write htr⟩
  split at h
  · cases h
  rename_i hfault
  obtain ⟨pa', htr, hpa⟩ := Option.map_eq_some_iff.1 h
  cases hpa
  exact ⟨funext (vmMayWrite_vmFault hfault), _, vmTranslate_write htr⟩

lemma vmMayWrite_translate {pa : Nat} (h : m.translate va write = some (pa, m')) :
    m'.vmMayWrite = m.vmMayWrite := by
  rw [Mem.translate] at h
  split at h
  · cases h
    rfl
  split at h
  · cases h
  rename_i hfault
  obtain ⟨pa', -, hpa⟩ := Option.map_eq_some_iff.1 h
  cases hpa
  exact funext (vmMayWrite_vmFault hfault)

end Fault

end Sage040.Vm
