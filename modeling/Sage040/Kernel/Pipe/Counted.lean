import Sage040.Kernel.Pipe.Ends
import Sage040.Lib.Tally

/-!
# Counting the ends of pipes

`Tallied` is the invariant of the table of rings: a ring's counts are the ends that there are, and
`extra`, the ends that a function has counted and not yet handed over. Each function moves ends
between the files, the tasks that wait in `fifo_open` and `extra`, and at the end of each call
`extra` is nothing: `run_counted`. The one exception is an access mode of `3`, which counts no end
and drops one: `accmode_uncounted`.
-/

namespace Sage040.Pipe

open Function List Bool Option

namespace Ends

/-! ## What is held -/

/-- What an open file counts for on an end of ring `p`. -/
def fileHas (reader : Bool) (p : Nat) : Option OpenFile → Nat
  | none => 0
  | some f => (f.side.has reader p).toNat

/-- What a task in `fifo_open` counts for. -/
def openHas (reader : Bool) (p : Nat) : Option Opening → Nat
  | none => 0
  | some o => (o.pipe == p && o.acc.has reader).toNat

/-- The open files, un-shut socket ends and half-open FIFOs that can read (or write) ring `p`. -/
def held (s : Ends) (reader : Bool) (p : Nat) : Nat :=
  Tally.tally fileMax (fileHas reader p) s.files + Tally.tally taskMax (openHas reader p) s.opens

/-- Every page that was allocated is a ring's or was freed, once. -/
structure Pages (s : Ends) : Prop where
  below : ∀ p, (s.pipes p).used = true → (s.pipes p).page < s.allocated
  own : ∀ p q, (s.pipes p).used = true → (s.pipes q).used = true →
    (s.pipes p).page = (s.pipes q).page → p = q
  freed : ∀ x, x ∈ s.freed ↔ x < s.allocated ∧ ∀ p, (s.pipes p).used = true → (s.pipes p).page ≠ x
  once : s.freed.Nodup

/-- One end of ring `p`. -/
def single (reader : Bool) (p : Nat) : Bool → Nat → Nat := fun b q => (b == reader && p == q).toNat

def ends (side : Side) : Bool → Nat → Nat := fun b q => (side.has b q).toNat

/-- A side that is closed as it was counted. -/
def Ok : Side → Prop
  | .pipe _ acc => acc = .rdonly ∨ acc = .wronly
  | .fifo _ acc => acc ≠ .three
  | .sock _ _ _ _ => True

/-- **The counts are the ends that there are**, and `extra`. A ring without any is not in use, but
for the one in `hole`. -/
structure Tallied (s : Ends) (extra : Bool → Nat → Nat) (hole : Option Nat) : Prop where
  used : ∀ p, (s.pipes p).used = true → ∀ b, (s.pipes p).num b = s.held b p + extra b p
  unused : ∀ p, (s.pipes p).used = false → ∀ b, s.held b p = 0 ∧ extra b p = 0
  pos : ∀ p, (s.pipes p).used = true → some p ≠ hole → 0 < (s.pipes p).readers + (s.pipes p).writers
  pages : s.Pages
  files : ∀ i f, s.files i = some f → i < fileMax ∧ 0 < f.refs ∧ Ok f.side
  opens : ∀ tid o, s.opens tid = some o → tid < taskMax ∧ (o.acc = .rdonly ∨ o.acc = .wronly)

/-! ## Moving ends about -/

variable {s s' : Ends} {extra : Bool → Nat → Nat} {hole : Option Nat} {p i : Nat} {b : Bool}
  {side : Side}

lemma Pages.congr (h : s.Pages)
    (hpipes : ∀ p, (s'.pipes p).used = (s.pipes p).used ∧ (s'.pipes p).page = (s.pipes p).page)
    (hallocated : s'.allocated = s.allocated) (hfreed : s'.freed = s.freed) : s'.Pages := by
  refine ⟨fun p hp => ?_, fun p q hp hq heq => ?_, fun x => ?_, hfreed ▸ h.once⟩
  · rw [(hpipes p).1] at hp
    rw [(hpipes p).2, hallocated]
    exact h.below p hp
  · rw [(hpipes p).1] at hp
    rw [(hpipes q).1] at hq
    rw [(hpipes p).2, (hpipes q).2] at heq
    exact h.own p q hp hq heq
  · rw [hfreed, hallocated, h.freed]
    simp only [fun p => (hpipes p).1, fun p => (hpipes p).2]

variable (s : Ends)

variable {q : Slot} {r : Ring} {f : Option OpenFile} {o : Option Opening}

@[simp] lemma setPipe_self (p) (q) : (s.setPipe p q).pipes p = q :=
  update_self ..

variable {extra' : Bool → Nat → Nat} {acc : Acc} {p p' : Nat} {tid : Nat}

lemma setPipe_of_ne (h : p' ≠ p) (q) : (s.setPipe p q).pipes p' = s.pipes p' :=
  update_of_ne h ..

@[simp] lemma setRing_self (p) (r) : ((s.setRing p r).pipes p).toRing = r := by
  rw [setRing, setPipe_self]

lemma setRing_of_ne (h : p' ≠ p) (r) : (s.setRing p r).pipes p' = s.pipes p' :=
  setPipe_of_ne s h _

@[simp] lemma held_setPipe (p) (q) (b p') : (s.setPipe p q).held b p' = s.held b p' := rfl

@[simp] lemma held_setRing (p) (r) (b p') : (s.setRing p r).held b p' = s.held b p' := rfl

@[simp] lemma held_freeRing (p b p') : (s.freeRing p).held b p' = s.held b p' := rfl

lemma freeRing_of_ne (h : p' ≠ p) : (s.freeRing p).pipes p' = s.pipes p' := setPipe_of_ne s h _

lemma freeRing_used (p q : Nat) : ((s.freeRing p).pipes q).used = true ↔ q ≠ p ∧
    (s.pipes q).used = true := by
  by_cases hq : q = p
  · subst hq
    simp [freeRing]
  · rw [freeRing_of_ne s hq]
    simp [hq]

lemma freeRing_page (p q : Nat) : ((s.freeRing p).pipes q).page = (s.pipes q).page := by
  by_cases hq : q = p
  · subst hq
    simp [freeRing]
  · rw [freeRing_of_ne s hq]

variable {s}

lemma Pages.free (h : s.Pages) (hp : (s.pipes p).used = true) : (s.freeRing p).Pages := by
  have hnew : (s.pipes p).page ∉ s.freed := fun hmem => ((h.freed _).1 hmem).2 p hp rfl
  refine ⟨fun q hq => ?_, fun q q' hq hq' heq => ?_, fun x => ?_, ?_⟩
  · rw [freeRing_page]
    exact h.below q ((freeRing_used s p q).1 hq).2
  · rw [freeRing_page, freeRing_page] at heq
    exact h.own q q' ((freeRing_used s p q).1 hq).2 ((freeRing_used s p q').1 hq').2 heq
  · have hmem : x ∈ (s.freeRing p).freed ↔ x ∈ s.freed ∨ x = (s.pipes p).page := by
      simp [freeRing]
    rw [hmem, h.freed]
    simp only [freeRing_used, freeRing_page]
    constructor
    · rintro (⟨hlt, hx⟩ | rfl)
      · exact ⟨hlt, fun q hq => hx q hq.2⟩
      · exact ⟨h.below p hp, fun q hq heq => hq.1 (h.own q p hq.2 hp heq)⟩
    rintro ⟨hlt, hx⟩
    by_cases hxp : x = (s.pipes p).page
    · exact .inr hxp
    refine .inl ⟨hlt, fun q hq heq => ?_⟩
    by_cases hqp : q = p
    · exact hxp (hqp ▸ heq.symm)
    · exact hx q ⟨hqp, hq⟩ heq
  · refine nodup_append.2 ⟨h.once, nodup_singleton _, fun x hx y hy heq => ?_⟩
    rw [mem_singleton.1 hy] at heq
    exact hnew (heq ▸ hx)

variable {q : Slot} {j : Nat} {mem : Bool}

lemma Pages.alloc (h : s.Pages) (hfree : (s.pipes p).used = false) (hused : q.used = true)
    (hpage : q.page = s.allocated) : Pages { s.setPipe p q with allocated := s.allocated + 1 } := by
  have hcases : ∀ p', ((s.setPipe p q).pipes p').used = true →
      (p' = p ∧ ((s.setPipe p q).pipes p').page = s.allocated) ∨
      (p' ≠ p ∧ (s.pipes p').used = true ∧ ((s.setPipe p q).pipes p').page = (s.pipes p').page) :=
          by
    intro p' hp'
    by_cases hpp : p' = p
    · subst hpp
      rw [setPipe_self]
      exact .inl ⟨rfl, hpage⟩
    · rw [setPipe_of_ne s hpp] at hp' ⊢
      exact .inr ⟨hpp, hp', rfl⟩
  refine ⟨fun p' hp' => ?_, fun p1 p2 h1 h2 heq => ?_, fun x => ?_, h.once⟩
  · rcases hcases p' hp' with ⟨-, hpg⟩ | ⟨-, hu, hpg⟩
    · exact hpg ▸ Nat.lt_succ_self _
    · exact hpg ▸ Nat.lt_succ_of_lt (h.below p' hu)
  · have heq : ((s.setPipe p q).pipes p1).page = ((s.setPipe p q).pipes p2).page := heq
    rcases hcases p1 h1 with ⟨rfl, hpg1⟩ | ⟨-, hu1, hpg1⟩ <;>
      rcases hcases p2 h2 with ⟨rfl, hpg2⟩ | ⟨-, hu2, hpg2⟩
    · rfl
    · have := h.below p2 hu2
      omega
    · have := h.below p1 hu1
      omega
    · exact h.own p1 p2 hu1 hu2 (by omega)
  change x ∈ s.freed ↔ x < s.allocated + 1 ∧ _
  rw [h.freed]
  constructor
  · rintro ⟨hlt, hx⟩
    refine ⟨Nat.lt_succ_of_lt hlt, fun p' hp' heq => ?_⟩
    have heq : ((s.setPipe p q).pipes p').page = x := heq
    rcases hcases p' hp' with ⟨-, hpg⟩ | ⟨-, hu, hpg⟩
    · omega
    · exact hx p' hu (hpg.symm.trans heq)
  rintro ⟨hlt, hx⟩
  have hself := hx p (by rw [setPipe_self]; exact hused)
  rw [setPipe_self, hpage] at hself
  refine ⟨by omega, fun p' hp' => ?_⟩
  have hpp : p' ≠ p := by
    rintro rfl
    rw [hfree] at hp'
    cases hp'
  have := hx p'
  rw [setPipe_of_ne s hpp] at this
  exact this hp'

lemma setRing_same (s : Ends) (p) (r) (q : Nat) :
    ((s.setRing p r).pipes q).used = (s.pipes q).used ∧
      ((s.setRing p r).pipes q).page = (s.pipes q).page := by
  rw [setRing]
  by_cases hq : q = p
  · subst hq
    rw [setPipe_self]
    exact ⟨rfl, rfl⟩
  · rw [setPipe_of_ne s hq]
    exact ⟨rfl, rfl⟩

lemma num_add (r : Ring) (reader b : Bool) (n : Int) :
    (r.add reader n).num b = r.num b + if b = reader then n else 0 := by
  cases reader <;> cases b <;> simp [Ring.add, Ring.num]

lemma single_self (b p) : single b p b p = 1 := by simp [single]

lemma single_of_ne {b b'} {p q : Nat} (h : ¬ (b' = b ∧ q = p)) : single b p b' q = 0 := by
  simp only [single, toNat_eq_zero, and_eq_false_imp, beq_iff_eq, beq_eq_false_iff_ne]
  exact fun hb hq => h ⟨hb, hq.symm⟩

lemma Tallied.weaken (h : s.Tallied extra none) (hole : Option Nat) : s.Tallied extra hole :=
  { h with pos := fun p hp _ => h.pos p hp nofun }

@[simp] lemma setFile_self (s : Ends) (i) (f) : (s.setFile i f).files i = f :=
  update_self ..

lemma setFile_of_ne (s : Ends) (h : j ≠ i) (f) : (s.setFile i f).files j = s.files j :=
  update_of_ne h ..

@[simp] lemma setOpen_self (s : Ends) (tid) (o) : (s.setOpen tid o).opens tid = o :=
  update_self ..

lemma setOpen_of_ne (s : Ends) {tid tid'} (h : tid' ≠ tid) (o) :
    (s.setOpen tid o).opens tid' = s.opens tid' :=
  update_of_ne h ..

lemma held_setFile (s : Ends) (hi : i < fileMax) (f) (b) (q : Nat) :
    (s.setFile i f).held b q + fileHas b q (s.files i) = s.held b q + fileHas b q f := by
  have := Tally.tally_update (fileHas b q) s.files hi f
  simp only [held, setFile]
  omega

lemma held_setOpen (s : Ends) (ht : tid < taskMax) (o) (b) (q : Nat) :
    (s.setOpen tid o).held b q + openHas b q (s.opens tid) = s.held b q + openHas b q o := by
  have := Tally.tally_update (openHas b q) s.opens ht o
  simp only [held, setOpen]
  omega

variable (h : s.Tallied extra hole)

include h

/-- An end that was counted and not handed over is of a ring in use. -/
lemma Tallied.used_of_extra (hb : extra b p ≠ 0) : (s.pipes p).used = true := by
  by_contra hno
  exact hb (h.unused p (by simpa using hno) b).2

/-- A ring's counts change, and `extra` with them. -/
lemma Tallied.recount (hhole : hole = none ∨ hole = some p) (hp : (s.pipes p).used = true)
    (hused : q.used = true)
    (hpage : q.page = (s.pipes p).page) (hnum : ∀ b, q.num b = s.held b p + extra' b p)
    (hother : ∀ b p', p' ≠ p → extra' b p' = extra b p') :
    (s.setPipe p q).Tallied extra' (some p) := by
  have hsame : ∀ p', ((s.setPipe p q).pipes p').used = (s.pipes p').used ∧
      ((s.setPipe p q).pipes p').page = (s.pipes p').page := by
    intro p'
    by_cases hpp : p' = p
    · subst hpp
      rw [setPipe_self]
      exact ⟨hused.trans hp.symm, hpage⟩
    · rw [setPipe_of_ne s hpp]
      exact ⟨rfl, rfl⟩
  refine ⟨fun p' hp' b => ?_, fun p' hp' b => ?_, fun p' hp' hne => ?_, h.pages.congr hsame rfl rfl,
    h.files, h.opens⟩
  · rw [held_setPipe]
    by_cases hpp : p' = p
    · subst hpp
      rw [setPipe_self]
      exact hnum b
    rw [setPipe_of_ne s hpp] at hp' ⊢
    rw [hother b p' hpp]
    exact h.used p' hp' b
  · rw [(hsame p').1] at hp'
    have hpp : p' ≠ p := by
      rintro rfl
      rw [hp] at hp'
      cases hp'
    rw [held_setPipe, hother b p' hpp]
    exact h.unused p' hp' b
  · rw [(hsame p').1] at hp'
    have hpp : p' ≠ p := fun heq => hne (heq ▸ rfl)
    rw [setPipe_of_ne s hpp]
    refine h.pos p' hp' ?_
    rcases hhole with rfl | rfl
    · nofun
    · exact hne

omit h in
lemma Tallied.drop (h : s.Tallied (extra + single b p) hole) (hhole : hole = none ∨ hole = some p) :
    (s.setRing p ((s.pipes p).toRing.add b (-1))).Tallied extra (some p) := by
  have hp : (s.pipes p).used = true := h.used_of_extra (b := b) (by
    rw [Pi.add_apply, Pi.add_apply, single_self]
    omega)
  refine h.recount hhole hp hp rfl (fun c => ?_) fun c p' hp' => ?_
  · have hold := h.used p hp c
    have hnum := num_add (s.pipes p).toRing b c (-1)
    rw [Pi.add_apply, Pi.add_apply] at hold
    by_cases hc : c = b
    · subst hc
      rw [if_pos rfl, hold, single_self] at hnum
      exact hnum.trans (by omega)
    · rw [if_neg hc, hold, single_of_ne fun hh => hc hh.1] at hnum
      exact hnum.trans (by omega)
  · rw [Pi.add_apply, Pi.add_apply, single_of_ne fun hh => hp' hh.2, Nat.add_zero]

lemma Tallied.nonneg (hp : (s.pipes p).used = true) (b) : 0 ≤ (s.pipes p).num b := by
  rw [h.used p hp b]
  omega

lemma Tallied.free (hhole : hole = none ∨ hole = some p)
    (hp : (s.pipes p).used = true) (hheld : ∀ b, s.held b p = 0) (hself : ∀ b, extra' b p = 0)
    (hother : ∀ b q, q ≠ p → extra' b q = extra b q) : (s.freeRing p).Tallied extra' none := by
  refine ⟨fun q hq b => ?_, fun q hq b => ?_, fun q hq _ => ?_, h.pages.free hp, h.files, h.opens⟩
  · obtain ⟨hqp, hq⟩ := (freeRing_used s p q).1 hq
    rw [freeRing_of_ne s hqp, hother b q hqp]
    exact h.used q hq b
  · rw [held_freeRing]
    by_cases hqp : q = p
    · rw [hqp]
      exact ⟨hheld b, hself b⟩
    rw [freeRing_of_ne s hqp] at hq
    rw [hother b q hqp]
    exact h.unused q hq b
  · obtain ⟨hqp, hq⟩ := (freeRing_used s p q).1 hq
    rw [freeRing_of_ne s hqp]
    refine h.pos q hq ?_
    rcases hhole with rfl | rfl
    · nofun
    · exact fun heq => hqp (some.inj heq)

lemma Tallied.held_zero (hp : (s.pipes p).used = true)
    (hr : (s.pipes p).readers = 0) (hw : (s.pipes p).writers = 0) (b) : s.held b p = 0 ∧
    extra b p = 0 := by
  have hb := h.used p hp b
  have hnum : (s.pipes p).num b = 0 := by
    cases b
    · exact hw
    · exact hr
  omega

omit h in
/-- **`ring_put`** drops an end that was counted. -/
lemma Tallied.ringPut (h : s.Tallied (extra + single b p) hole)
    (hhole : hole = none ∨ hole = some p) :
    (s.ringPut p b).Tallied extra none := by
  have hp : (s.pipes p).used = true := h.used_of_extra (b := b) (by
    rw [Pi.add_apply, Pi.add_apply, single_self]
    omega)
  have hdrop := h.drop hhole
  have hp' : ((s.setRing p ((s.pipes p).toRing.add b (-1))).pipes p).used = true := by
    rw [(setRing_same s p _ p).1, hp]
  rw [Ends.ringPut]
  split
  · rename_i hzero
    have hnone := hdrop.held_zero hp' (by rw [setRing_self]; exact hzero.1)
      (by rw [setRing_self]; exact hzero.2)
    exact hdrop.free (.inr rfl) hp' (fun b => (hnone b).1) (fun b => (hnone b).2) fun _ _ _ => rfl
  refine { hdrop with pos := fun q hq _ => ?_ }
  by_cases hqp : q = p
  · subst hqp
    have hr := hdrop.nonneg hp' true
    have hw := hdrop.nonneg hp' false
    simp only [setRing_self] at hr hw ⊢
    simp only [Ring.num] at hr hw
    simp only [if_true, false_eq_true, if_false] at hr hw
    omega
  · exact hdrop.pos q hq fun heq => hqp (some.inj heq)

/-- Ends are handed over between `extra` and the files or sleepers. -/
lemma Tallied.handOver (hpipes : s'.pipes = s.pipes)
    (hallocated : s'.allocated = s.allocated) (hfreed : s'.freed = s.freed)
    (hheld : ∀ b q, s'.held b q + extra' b q = s.held b q + extra b q)
    (hfiles : ∀ i f, s'.files i = some f → i < fileMax ∧ 0 < f.refs ∧ Ok f.side)
    (hopens : ∀ tid o, s'.opens tid = some o → tid < taskMax ∧
    (o.acc = .rdonly ∨ o.acc = .wronly)) :
    s'.Tallied extra' hole := by
  refine ⟨fun q hq b => ?_, fun q hq b => ?_, fun q hq => ?_,
    h.pages.congr (fun q => ⟨by rw [hpipes], by rw [hpipes]⟩) hallocated hfreed, hfiles, hopens⟩
  · rw [hpipes] at hq ⊢
    have := h.used q hq b
    have := hheld b q
    omega
  · rw [hpipes] at hq
    have := h.unused q hq b
    have := hheld b q
    omega
  · rw [hpipes] at hq ⊢
    exact h.pos q hq

lemma Tallied.setFile (hi : i < fileMax) (f : Option OpenFile)
    (hf : ∀ x, f = some x → 0 < x.refs ∧ Ok x.side)
    (hextra : ∀ b q, fileHas b q f + extra' b q = fileHas b q (s.files i) + extra b q) :
    (s.setFile i f).Tallied extra' hole := by
  refine h.handOver rfl rfl rfl (fun b q => ?_) (fun j x hj => ?_) h.opens
  · have := held_setFile s hi f b q
    have := hextra b q
    omega
  by_cases hji : j = i
  · subst hji
    rw [setFile_self] at hj
    exact ⟨hi, hf x hj⟩
  · rw [setFile_of_ne s hji] at hj
    exact h.files j x hj

omit h in
/-- `fd_install` hands the ends over to the file. -/
lemma Tallied.fdInstall (h : s.Tallied (extra + ends side) hole) (hok : Ok side) {fdOk : Bool}
    (hres : s.fdInstall fdOk side = .ok (s', j)) :
    s'.Tallied extra hole ∧ s'.files j = some ⟨1, side⟩ ∧ s'.pipes = s.pipes := by
  rw [Ends.fdInstall] at hres
  split at hres
  · split at hres
    · cases hres
    rename_i i hfind
    obtain ⟨rfl, rfl⟩ := Prod.mk.inj (Except.ok.inj hres)
    have hlt : i < fileMax := mem_range.1 (mem_of_find?_eq_some hfind)
    have hnone : s.files i = none := by simpa using find?_some hfind
    refine ⟨h.setFile hlt _ (fun x hx => some.inj hx ▸ ⟨Nat.one_pos, hok⟩) fun b q => ?_,
      setFile_self .., rfl⟩
    rw [hnone, Pi.add_apply, Pi.add_apply]
    simp only [fileHas, ends]
    omega
  · cases hres

lemma Tallied.ringAlloc (hres : s.ringAlloc mem = some (s', p)) :
    s'.Tallied (extra + single true p + single false p) hole ∧ (s'.pipes p).used = true ∧
      (s'.pipes p).readers = 1 ∧ (s'.pipes p).writers = 1 ∧ (∀ b, s'.held b p = 0 ∧ extra b p = 0) ∧
      s'.opens = s.opens := by
  rw [Ends.ringAlloc] at hres
  split at hres
  · cases hres
  rename_i q hfind
  split at hres
  swap
  · cases hres
  obtain ⟨rfl, rfl⟩ := Prod.mk.inj (some.inj hres)
  have hfree : (s.pipes q).used = false := by simpa using find?_some hfind
  have hold := h.unused q hfree
  generalize hnew : (⟨⟨⟨fun _ => 0, 0, 0⟩, 1, 1⟩, true, s.allocated, none, 0, 0⟩ : Slot) = new
  have hheld : ∀ b q', ({ s.setPipe q new with allocated := s.allocated + 1 } : Ends).held b q' =
      s.held b q' := fun _ _ => rfl
  refine ⟨⟨fun q' hq' b => ?_, fun q' hq' b => ?_, fun q' hq' hne => ?_, ?_, h.files, h.opens⟩, ?_,
    ?_, ?_, hold, rfl⟩
  · rw [hheld, Pi.add_apply, Pi.add_apply, Pi.add_apply, Pi.add_apply]
    by_cases hqq : q' = q
    · subst hqq
      have hb := hold b
      rw [setPipe_self, ← hnew]
      generalize s.held b q' = n at hb ⊢
      cases b <;> simp [Ring.num, single, hb]
    · rw [setPipe_of_ne s hqq] at hq' ⊢
      rw [single_of_ne fun hh => hqq hh.2, single_of_ne fun hh => hqq hh.2, Nat.add_zero]
      exact h.used q' hq' b
  · rw [hheld, Pi.add_apply, Pi.add_apply, Pi.add_apply, Pi.add_apply]
    by_cases hqq : q' = q
    · subst hqq
      rw [setPipe_self, ← hnew] at hq'
      cases hq'
    rw [setPipe_of_ne s hqq] at hq'
    rw [single_of_ne fun hh => hqq hh.2, single_of_ne fun hh => hqq hh.2]
    simpa using h.unused q' hq' b
  · by_cases hqq : q' = q
    · subst hqq
      rw [setPipe_self, ← hnew]
      exact (by decide : (0 : Int) < 1 + 1)
    · rw [setPipe_of_ne s hqq] at hq' ⊢
      exact h.pos q' hq' hne
  · exact h.pages.alloc hfree (by rw [← hnew]) (by rw [← hnew])
  all_goals rw [setPipe_self, ← hnew]

omit h

/-! ## Closing -/

/-- The ends of an access mode on ring `p`. -/
lemma ends_pipe (p acc) : ends (.pipe p acc) = ends (.fifo p acc) := rfl

lemma ends_rdonly (p) : ends (.fifo p .rdonly) = single true p := by
  funext b q
  cases b <;> simp [ends, Side.has, Acc.has, single]

lemma ends_wronly (p) : ends (.fifo p .wronly) = single false p := by
  funext b q
  cases b <;> simp [ends, Side.has, Acc.has, single]

lemma ends_rdwr (p) : ends (.fifo p .rdwr) = single true p + single false p := by
  funext b q
  cases b <;> simp [ends, Side.has, Acc.has, single]

lemma ends_sock (rx tx : Nat) (shutRd shutWr : Bool) : ends (.sock rx tx shutRd shutWr) =
    (if shutWr then 0 else single false tx) + if shutRd then 0 else single true rx := by
  funext b q
  cases b <;> cases shutRd <;> cases shutWr <;> simp [ends, Side.has, single]

lemma Tallied.closeSide (h : s.Tallied (extra + ends side) none) (hok : Ok side) :
    (s.closeSide side).Tallied extra none := by
  match side with
  | .pipe p acc =>
    rw [ends_pipe] at h
    rcases hok with rfl | rfl
    · exact Tallied.ringPut (ends_rdonly p ▸ h) (.inl rfl)
    · exact Tallied.ringPut (ends_wronly p ▸ h) (.inl rfl)
  | .fifo p acc =>
    match acc with
    | .rdonly => exact Tallied.ringPut (ends_rdonly p ▸ h) (.inl rfl)
    | .wronly => exact Tallied.ringPut (ends_wronly p ▸ h) (.inl rfl)
    | .rdwr =>
      rw [ends_rdwr, ← add_assoc] at h
      exact (h.drop (.inl rfl)).ringPut (.inr rfl)
    | .three => exact absurd rfl hok
  | .sock rx tx shutRd shutWr =>
    rw [ends_sock, ← add_assoc] at h
    have hrd : (if shutRd = true then s else s.ringPut rx true).Tallied
        (extra + if shutWr then 0 else single false tx) none := by
      cases shutRd
      · exact h.ringPut (.inl rfl)
      · exact h
    cases shutWr
    · exact hrd.ringPut (.inl rfl)
    · exact hrd

lemma ringPut_setFile (s : Ends) (i) (f) (p b) :
    (s.setFile i f).ringPut p b = (s.ringPut p b).setFile i f := by
  have hpipes : (s.setFile i f).pipes = s.pipes := rfl
  simp only [Ends.ringPut, hpipes]
  split <;> rfl

lemma closeSide_setFile (s : Ends) (i) (f) (side) :
    (s.setFile i f).closeSide side = (s.closeSide side).setFile i f := by
  match side with
  | .pipe p acc => exact ringPut_setFile s i f p _
  | .fifo p acc =>
    simp only [Ends.closeSide]
    split
    · exact ringPut_setFile (s.setRing p _) i f p _
    · exact ringPut_setFile s i f p _
  | .sock rx tx shutRd shutWr =>
    cases shutRd <;> cases shutWr
    · simp only [Ends.closeSide, false_eq_true, if_false, ringPut_setFile]
    iterate 2 · simp only [Ends.closeSide, false_eq_true, if_false, if_true, ringPut_setFile]
    · rfl

lemma Tallied.fileGet (h : s.Tallied extra hole) (i) : (s.fileGet i).Tallied extra hole := by
  rw [Ends.fileGet]
  rcases hf : s.files i with - | f
  · exact h
  obtain ⟨hi, -, hok⟩ := h.files i f hf
  refine h.setFile hi _ (fun x hx => some.inj hx ▸ ⟨Nat.succ_pos _, hok⟩) fun b q => ?_
  rw [hf]
  rfl

lemma Tallied.filePut (h : s.Tallied extra none) (i : Nat) : (s.filePut i).Tallied extra none := by
  rw [Ends.filePut]
  rcases hf : s.files i with - | f
  · exact h
  obtain ⟨hi, -, hok⟩ := h.files i f hf
  dsimp only
  split
  · refine h.setFile hi _ (fun x hx => some.inj hx ▸ ⟨by dsimp only; omega, hok⟩) fun b q => ?_
    rw [hf]
    rfl
  rw [← closeSide_setFile]
  refine Tallied.closeSide (h.setFile hi none nofun fun b q => ?_) hok
  rw [hf, Pi.add_apply, Pi.add_apply]
  simp only [fileHas, ends]
  omega

/-! ## The calls -/

/-- What `fd_install` could not take goes as a file would. -/
lemma Tallied.pipeCreate (h : s.Tallied 0 none) (flagsOk mem fd1 fd2 : Bool) :
    (s.pipeCreate flagsOk mem fd1 fd2).1.Tallied 0 none := by
  rw [Ends.pipeCreate]
  split
  swap
  · exact h
  rcases halloc : s.ringAlloc mem with - | ⟨s1, p⟩
  · exact h
  obtain ⟨h1, hp, hr, hw, hnone, -⟩ := h.ringAlloc halloc
  have hokr : Ok (.pipe p .rdonly) := .inl rfl
  have hokw : Ok (.pipe p .wronly) := .inr rfl
  dsimp only
  rcases hinst : s1.fdInstall fd1 (.pipe p .rdonly) with e | ⟨s2, r⟩
  · refine h1.free (.inl rfl) hp (fun b => (hnone b).1) (fun _ => rfl) fun b q hq => ?_
    simp [single_of_ne fun hh : _ ∧ q = p => hq hh.2]
  have hends : (0 : Bool → Nat → Nat) + single true p + single false p =
      (0 + single false p) + ends (.pipe p .rdonly) := by
    rw [ends_pipe, ends_rdonly, add_right_comm]
  obtain ⟨h2, -, hpipes⟩ := Tallied.fdInstall (hends ▸ h1) hokr hinst
  dsimp only
  rcases hw' : s2.fdInstall fd2 (.pipe p .wronly) with e | ⟨s3, w⟩
  · have hring : ({ (s2.pipes p).toRing with writers := 0 } : Ring) =
      (s2.pipes p).toRing.add false (-1) := by
      rw [hpipes, Ring.add, if_neg Bool.false_ne_true, hw]
      rfl
    dsimp only
    rw [hring]
    have h3 := h2.drop (.inl rfl)
    refine Tallied.filePut { h3 with pos := fun q hq _ => ?_ } r
    by_cases hqp : q = p
    · subst hqp
      rw [setRing_self, hpipes]
      simp only [Ring.add, Bool.false_eq_true, if_false, hr, hw]
      decide
    · exact h3.pos q hq fun heq => hqp (Option.some.inj heq)
  · rw [← ends_wronly, ← ends_pipe] at h2
    exact (Tallied.fdInstall h2 hokw hw').1

lemma Tallied.fifoInstall (h : s.Tallied (extra + ends (.fifo p acc)) none) (hacc : acc ≠ .three)
    (fdOk : Bool) : (s.fifoInstall p acc fdOk).1.Tallied extra none := by
  have hok : Ok (.fifo p acc) := hacc
  rw [Ends.fifoInstall]
  rcases hinst : s.fdInstall fdOk (.fifo p acc) with e | ⟨s', i⟩
  · exact h.closeSide hok
  · exact (Tallied.fdInstall h hok hinst).1

lemma Tallied.fifoWait (h : s.Tallied (extra + ends (.fifo p acc)) none)
    (hacc : acc = .rdonly ∨ acc = .wronly) (ht : tid < taskMax)
    (hnone : s.opens tid = none) (seen : Nat)
    (sig fdOk : Bool) : (s.fifoWait tid p acc seen sig fdOk).1.Tallied extra none := by
  have hthree : acc ≠ .three := by
    rcases hacc with rfl | rfl <;> nofun
  rw [Ends.fifoWait]
  generalize (if acc.has true = true then (s.pipes p).wOpens else (s.pipes p).rOpens) = n
  split
  · split
    · rcases hacc with rfl | rfl
      · exact Tallied.ringPut (ends_rdonly p ▸ h) (.inl rfl)
      · exact Tallied.ringPut (ends_wronly p ▸ h) (.inl rfl)
    refine h.handOver rfl rfl rfl (fun b q => ?_) h.files fun tid' o ho => ?_
    · have hheld := held_setOpen s ht (some ⟨p, acc, seen⟩) b q
      rw [hnone] at hheld
      rw [Pi.add_apply, Pi.add_apply]
      simp only [openHas, ends, Side.has] at hheld ⊢
      omega
    by_cases htid : tid' = tid
    · subst htid
      obtain rfl := some.inj ((setOpen_self s tid' _).symm.trans ho)
      exact ⟨ht, hacc⟩
    · exact h.opens tid' o ((setOpen_of_ne s htid _).symm.trans ho)
  · exact h.fifoInstall hthree fdOk

/-- The ring of a FIFO is one in use; if it is new it has no ends yet. -/
lemma Tallied.fifoRing (h : s.Tallied 0 none) {key : Nat}
    (hres : s.fifoRing key mem = some (s', p)) :
    s'.Tallied 0 (some p) ∧ (s'.pipes p).used = true ∧ s'.opens = s.opens ∧
      ((s'.pipes p).writers = 0 → (s'.pipes p).readers = 0 → ∀ b, s'.held b p = 0) := by
  rw [Ends.fifoRing] at hres
  rcases hfind : (range pipeMax).find? (fun p => (s.pipes p).used && (s.pipes p).fifo == some key)
    with - | q
  · rw [hfind] at hres
    rcases halloc : s.ringAlloc mem with - | ⟨s1, q⟩
    · rw [halloc] at hres
      cases hres
    rw [halloc] at hres
    obtain ⟨rfl, rfl⟩ := Prod.mk.inj (some.inj hres)
    obtain ⟨h1, hp, -, -, hnone, hopens⟩ := h.ringAlloc halloc
    have hzero : ∀ b, s1.held b q = 0 := fun b => (hnone b).1
    refine ⟨h1.recount (.inl rfl) hp hp rfl (fun b => ?_) fun b p' hp' => ?_, ?_, hopens,
      fun _ _ => hzero⟩
    · rw [hzero b]
      cases b <;> rfl
    · simp [single_of_ne fun hh : _ ∧ p' = q => hp' hh.2]
    · rw [setPipe_self]
      exact hp
  · rw [hfind] at hres
    obtain ⟨rfl, rfl⟩ := Prod.mk.inj (some.inj hres)
    have hfound := find?_some hfind
    have hp : (s.pipes q).used = true := (and_eq_true_iff.1 hfound).1
    exact ⟨h.weaken _, hp, rfl, fun hw hr b => (h.held_zero hp hr hw b).1⟩

lemma Tallied.fifoJoin (h : s.Tallied extra (some p)) (hp : (s.pipes p).used = true)
    (hacc : acc ≠ .three) : (s.fifoJoin p acc).Tallied (extra + ends (.fifo p acc)) none := by
  have hnum : ∀ b, (s.pipes p).num b + (acc.has b).toNat =
      s.held b p + (extra + ends (.fifo p acc)) b p := by
    intro b
    rw [h.used p hp b, Pi.add_apply, Pi.add_apply]
    simp only [ends, Side.has, beq_self_eq_true, Bool.true_and]
    push_cast
    omega
  have hjoin : (s.fifoJoin p acc).Tallied (extra + ends (.fifo p acc)) (some p) := by
    refine h.recount (.inr rfl) hp hp rfl (fun b => ?_) fun b p' hp' => ?_
    · cases b
      · exact hnum false
      · exact hnum true
    · rw [Pi.add_apply, Pi.add_apply]
      simp [ends, Side.has, Ne.symm hp']
  refine { hjoin with pos := fun q hq _ => ?_ }
  by_cases hqp : q = p
  · subst hqp
    have hr := h.nonneg hp true
    have hw := h.nonneg hp false
    rw [Ends.fifoJoin, setPipe_self]
    simp only [Ring.num, if_true, Bool.false_eq_true, if_false] at hr hw ⊢
    match acc with
    | .rdonly => simp only [Acc.has, Bool.toNat_true, Bool.toNat_false]; omega
    | .wronly =>
      simp only [Acc.has, Bool.not_true, Bool.not_false, Bool.toNat_true, Bool.toNat_false]; omega
    | .rdwr => simp only [Acc.has, Bool.toNat_true]; omega
    | .three => exact absurd rfl hacc
  · exact hjoin.pos q hq fun heq => hqp (Option.some.inj heq)

lemma Tallied.fifoOpen (h : s.Tallied 0 none) (ht : tid < taskMax) (hnone : s.opens tid = none)
    (key : Nat) (hacc : acc ≠ .three) (nonblock mem sig fdOk : Bool) :
    (s.fifoOpen tid key acc nonblock mem sig fdOk).1.Tallied 0 none := by
  rw [Ends.fifoOpen]
  rcases hring : s.fifoRing key mem with - | ⟨s1, p⟩
  · exact h
  obtain ⟨h1, hp, hopens, hheld⟩ := h.fifoRing hring
  dsimp only
  split
  · rename_i hno
    split
    · rename_i hw
      exact h1.free (.inr rfl) hp (hheld hw hno.2.1) (fun _ => rfl) fun _ _ _ => rfl
    refine { h1 with pos := fun q hq _ => ?_ }
    by_cases hqp : q = p
    · subst hqp
      have hnn : 0 ≤ (s1.pipes q).writers := h1.nonneg hp false
      have hr : (s1.pipes q).readers = 0 := hno.2.1
      exact (by omega : 0 < (s1.pipes q).readers + (s1.pipes q).writers)
    · exact h1.pos q hq fun heq => hqp (some.inj heq)
  have hjoin := h1.fifoJoin hp hacc
  split
  · rename_i hwait
    have hacc' : acc = .rdonly ∨ acc = .wronly := by
      match acc with
      | .rdonly => exact .inl rfl
      | .wronly => exact .inr rfl
      | .rdwr => exact absurd rfl hwait.1
      | .three => exact absurd rfl hacc
    exact hjoin.fifoWait hacc' ht (by rw [← hnone, ← hopens]; rfl) _ sig fdOk
  · exact hjoin.fifoInstall hacc fdOk

lemma Tallied.fifoWake (h : s.Tallied 0 none) (tid : Nat) (sig fdOk : Bool) :
    (s.step (.fifoWake tid sig fdOk)).Tallied 0 none := by
  rw [step]
  rcases ho : s.opens tid with - | o
  · exact h
  obtain ⟨ht, hacc⟩ := h.opens tid o ho
  simp only [if_pos ht]
  have h1 : (s.setOpen tid none).Tallied (0 + ends (.fifo o.pipe o.acc)) none := by
    refine h.handOver rfl rfl rfl (fun b q => ?_) h.files fun tid' o' ho' => ?_
    · have hheld := held_setOpen s ht none b q
      rw [ho] at hheld
      rw [Pi.add_apply, Pi.add_apply]
      simp only [openHas, ends, Side.has] at hheld ⊢
      omega
    · by_cases htid : tid' = tid
      · subst htid
        cases (setOpen_self s tid' none).symm.trans ho'
      · exact h.opens tid' o' ((setOpen_of_ne s htid _).symm.trans ho')
  exact h1.fifoWait hacc ht (setOpen_self s tid none) o.seen sig fdOk

def both : Option Nat → Bool → Nat → Nat
  | none => 0
  | some p => single true p + single false p

lemma Tallied.ringTry (h : s.Tallied extra none) (mem) :
    (s.ringTry mem).1.Tallied (extra + both (s.ringTry mem).2) none := by
  rw [Ends.ringTry]
  rcases halloc : s.ringAlloc mem with - | ⟨s1, p⟩
  · exact h
  rw [both, ← add_assoc]
  exact (h.ringAlloc halloc).1

lemma Tallied.dropBoth (o : Option Nat) (h : s.Tallied (extra + both o) none) :
    (s.dropBoth o).Tallied extra none := by
  rcases o with - | p
  · exact h
  rw [both, add_comm (single true p), ← add_assoc] at h
  exact (h.ringPut (.inl rfl)).ringPut (.inl rfl)

lemma Tallied.usockPair (h : s.Tallied 0 none) (typeOk mem1 mem2 fd1 fd2 : Bool) :
    (s.usockPair typeOk mem1 mem2 fd1 fd2).1.Tallied 0 none := by
  rw [Ends.usockPair]
  split
  swap
  · exact h
  have h2 := (h.ringTry mem1).ringTry mem2
  dsimp only
  revert h2
  generalize (s.ringTry mem1).1.ringTry mem2 = r2
  generalize (s.ringTry mem1).2 = o
  obtain ⟨s2, o'⟩ := r2
  intro h2
  have hdrop : ((s2.dropBoth o).dropBoth o').Tallied 0 none := by
    rw [add_right_comm] at h2
    exact (h2.dropBoth o).dropBoth o'
  rcases o with - | ab
  · exact hdrop
  rcases o' with - | ba
  · exact hdrop
  dsimp only
  split
  swap
  · exact hdrop
  -- the two directions of the two sockets are the two ends of the two rings
  have hends : (0 : Bool → Nat → Nat) + both (some ab) + both (some ba) =
      0 + ends (.sock ab ba false false) + ends (.sock ba ab false false) := by
    rw [ends_sock, ends_sock, both, both]
    simp only [false_eq_true, if_false]
    funext b q
    simp only [Pi.add_apply]
    omega
  rw [hends] at h2
  have hok : ∀ rx tx, Ok (.sock rx tx false false) := fun _ _ => trivial
  rcases hfa : s2.fdInstall fd1 (.sock ba ab false false) with e | ⟨s3, fa⟩
  · exact (h2.closeSide (hok ba ab)).closeSide (hok ab ba)
  have h3 := (Tallied.fdInstall h2 (hok ba ab) hfa).1
  dsimp only
  rcases hfb : s3.fdInstall fd2 (.sock ab ba false false) with e | ⟨s4, fb⟩
  · exact (h3.filePut fa).closeSide (hok ab ba)
  · exact (Tallied.fdInstall h3 (hok ab ba) hfb).1

lemma Tallied.shutOne (h : s.Tallied extra none) (i) (reader : Bool) :
    (s.shutOne i reader).Tallied extra none := by
  rw [Ends.shutOne]
  split
  swap
  · exact h
  rename_i refs rx tx shutRd shutWr hf
  obtain ⟨hi, hrefs, -⟩ := h.files i _ hf
  have hside : ∀ (side : Side), Ok side → ∀ b q,
    ends (.sock rx tx shutRd shutWr) = ends side + single b q →
      (s.setFile i (some ⟨refs, side⟩)).Tallied (extra + single b q) none := by
    intro side hok b q heq
    refine h.setFile hi _ (fun x hx => some.inj hx ▸ ⟨hrefs, hok⟩) fun b' q' => ?_
    have hpoint := congrFun (congrFun heq b') q'
    rw [hf]
    simp only [Pi.add_apply, ends] at hpoint
    simp only [fileHas, Pi.add_apply]
    omega
  split
  · split
    · exact h
    rename_i hrd
    refine (hside (.sock rx tx true shutWr) trivial true rx ?_).ringPut (.inl rfl)
    rw [ends_sock, ends_sock, if_neg hrd, if_pos rfl, add_zero]
  split
  · exact h
  rename_i hwr
  refine (hside (.sock rx tx shutRd true) trivial false tx ?_).ringPut (.inl rfl)
  rw [ends_sock, ends_sock, if_neg hwr, if_pos rfl, zero_add, add_comm]

lemma Tallied.data (h : s.Tallied extra hole) (p) (rb : RingBuffer UInt8) :
    (s.setRing p { (s.pipes p).toRing with toRingBuffer := rb }).Tallied extra hole := by
  have hsame := setRing_same s p { (s.pipes p).toRing with toRingBuffer := rb }
  have hcount : ∀ q, ((s.setRing p { (s.pipes p).toRing with toRingBuffer := rb }).pipes
    q).readers =
      (s.pipes q).readers ∧
      ((s.setRing p { (s.pipes p).toRing with toRingBuffer := rb }).pipes q).writers =
      (s.pipes q).writers := by
    intro q
    by_cases hqp : q = p
    · subst hqp
      rw [setRing_self]
      exact ⟨rfl, rfl⟩
    · rw [setRing_of_ne s hqp]
      exact ⟨rfl, rfl⟩
  refine ⟨fun q hq b => ?_, fun q hq b => ?_, fun q hq => ?_, h.pages.congr hsame rfl rfl,
    h.files, h.opens⟩
  · rw [(hsame q).1] at hq
    have := h.used q hq b
    rw [Ring.num] at this ⊢
    rw [(hcount q).1, (hcount q).2, held_setRing]
    exact this
  · rw [(hsame q).1] at hq
    exact h.unused q hq b
  · rw [(hsame q).1] at hq
    rw [(hcount q).1, (hcount q).2]
    exact h.pos q hq

/-- The access mode of a FIFO's open is one of the three. -/
def Plain : Event → Prop
  | .fifoOpen _ _ acc _ _ _ _ => acc ≠ .three
  | _ => True

lemma Tallied.step (h : s.Tallied 0 none) (ev : Event) (hplain : Plain ev) :
    (s.step ev).Tallied 0 none := by
  match ev with
  | .pipeCreate flagsOk mem fd1 fd2 => exact h.pipeCreate flagsOk mem fd1 fd2
  | .fifoOpen tid key acc nonblock mem sig fdOk =>
    rw [Ends.step]
    split
    · rename_i ht
      exact h.fifoOpen ht.1 (by simpa using ht.2) key hplain nonblock mem sig fdOk
    · exact h
  | .fifoWake tid sig fdOk => exact h.fifoWake tid sig fdOk
  | .usockPair typeOk mem1 mem2 fd1 fd2 => exact h.usockPair typeOk mem1 mem2 fd1 fd2
  | .usockShutdown i rd wr =>
    simp only [Ends.step, usockShutdown]
    have hrd : (if rd = true then s.shutOne i true else s).Tallied 0 none := by
      split
      · exact h.shutOne i true
      · exact h
    split
    · exact hrd.shutOne i false
    · exact hrd
  | .dup i => exact h.fileGet i
  | .close i => exact h.filePut i
  | .data p rb => exact h.data p rb

lemma Tallied.init : Ends.init.Tallied 0 none := by
  have hheld : ∀ b p, Ends.init.held b p = 0 := by
    intro b p
    have hfiles : Tally.tally fileMax (fileHas b p) Ends.init.files = 0 :=
      Tally.tally_eq_zero.2 fun _ _ => rfl
    have hopens : Tally.tally taskMax (openHas b p) Ends.init.opens = 0 :=
      Tally.tally_eq_zero.2 fun _ _ => rfl
    rw [held, hfiles, hopens]
  refine ⟨nofun, fun p _ b => ⟨hheld b p, rfl⟩, nofun, ⟨nofun, nofun, fun x => ?_, .nil⟩,
    nofun, nofun⟩
  exact ⟨nofun, fun hx => absurd hx.1 (Nat.not_lt_zero x)⟩

lemma Tallied.counts (h : s.Tallied 0 none) (hp : (s.pipes p).used = true) :
    (s.pipes p).readers = s.held true p ∧ (s.pipes p).writers = s.held false p := by
  have hr := h.used p hp true
  have hw := h.used p hp false
  exact ⟨hr.trans (Int.add_zero _), hw.trans (Int.add_zero _)⟩

lemma Tallied.run (evs : List Event) (h : s.Tallied 0 none) (hplain : ∀ ev ∈ evs, Plain ev) :
    (run evs s).Tallied 0 none := by
  induction evs generalizing s with
  | nil => exact h
  | cons ev evs ih =>
    exact ih (h.step ev (hplain ev mem_cons_self)) fun ev' hev' =>
      hplain ev' (mem_cons_of_mem _ hev')

/-- **The ends of pipes are counted**, in every run in which FIFOs are opened with one of the three
access modes. A ring in use has as many readers and writers as there are, and it has some; of one
that is not in use there are none; every page is a ring's or was freed once; and a read of at least
one byte that returns `0` on an empty ring finds no writer. -/
theorem run_counted (evs : List Event) (hplain : ∀ ev ∈ evs, Plain ev) :
    let s := run evs init
    (∀ p, (s.pipes p).used = true → (s.pipes p).readers = s.held true p ∧
      (s.pipes p).writers = s.held false p ∧ 0 < s.held true p + s.held false p) ∧
    (∀ p, (s.pipes p).used = false → ∀ b, s.held b p = 0) ∧
    s.Pages ∧
    ∀ p len how sig out, (s.pipes p).used = true → len ≠ 0 → (s.pipes p).count = 0 →
      ((s.pipes p).toRing.ringRead len how sig).2 = some (.ok 0, out) → s.held false p = 0 := by
  intro s
  have h : s.Tallied 0 none := Tallied.init.run evs hplain
  refine ⟨fun p hp => ?_, fun p hp b => (h.unused p hp b).1, h.pages, ?_⟩
  · obtain ⟨hr, hw⟩ := h.counts hp
    have hpos := h.pos p hp nofun
    exact ⟨hr, hw, by omega⟩
  intro p len how sig out hp hlen hempty hres
  have hw : (s.pipes p).writers = 0 := by
    by_contra hsome
    rw [Ring.ringRead, if_neg hlen, if_neg (by omega), if_neg hsome] at hres
    split at hres
    · cases hres
    · split at hres <;> cases hres
  have := (h.counts hp).2
  omega

theorem run_counted_pair :
    ((run [.pipeCreate true true true true, .close 0] init).pipes 0).readers =
      (run [.pipeCreate true true true true, .close 0] init).held true 0 :=
  ((run_counted [.pipeCreate true true true true, .close 0]
    (forall_mem_cons.2 ⟨trivial, forall_mem_cons.2 ⟨trivial, nofun⟩⟩)).1 0 (by decide +kernel)).1

/-- Somebody has a FIFO open for both, and it is opened with access mode `3` and closed again.
Closing drops a reader that opening did not count: there is one, and the ring says that there is
none. -/
theorem accmode_uncounted :
    let s := run [.fifoOpen 0 7 .rdwr false true false true,
    .fifoOpen 1 7 .three false true false true, .close 1] init
    (s.pipes 0).used = true ∧ (s.pipes 0).readers = 0 ∧ s.held true 0 = 1 := by
  decide +kernel

end Ends

end Sage040.Pipe
