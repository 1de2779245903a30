import Sage040.Kernel.Exec.Image

/-!
# The stack a program starts with

`setup_stack` copies the environment and the arguments to the top of the new stack, highest first:
the environment's strings, the auxiliary vector, the array of pointers to the environment, the
arguments' strings, the array of pointers to them, and the four words the program's startup code
reads. It remembers where each string went in two static arrays, `uenv` and `uargv`, until it
copies the arrays out in their turn.

`StackOf` is what the program finds: `argc`, two NULL-terminated vectors of pointers to exactly the
strings given, and the auxiliary vector behind the second one. `setupStack_sat` proves it, for
arguments that fit, as long as nobody else stores into the two arrays meanwhile. The copies only
ever go below what is there already, so the proof is one statement about what stays
(`KeepsAbove`) and one about each thing that is put.
-/

namespace Sage040.Exec

open Coop Function List Sat

/-! ## The code -/

def execMaxEnv : Nat := 256

/-- The two static arrays of `setup_stack`. -/
inductive Arr
  | uargv
  | uenv

def Shared.arr (s : Shared) : Arr → Nat → Nat
  | .uargv => s.uargv
  | .uenv => s.uenv

def Shared.setArr (s : Shared) (a : Arr) (i v : Nat) : Shared :=
  match a with
  | .uargv => { s with uargv := update s.uargv i v }
  | .uenv => { s with uenv := update s.uenv i v }

def strBytes (a : CStr) : Bytes := fun i => a.getD i 0

def copyOut (va : Nat) (src : Shared → Bytes) (len : Nat) (mem : Bytes) : Prog Bytes :=
  copyToUser Shared.trouble va src len mem

abbrev Stack := Nat × Bytes

/-- Copy the strings of a vector, the last one first, and note where each went: the `i`-th and
those after it. -/
def pushStrings (a : Arr) : Nat → List CStr → Stack → Prog Stack
  | _, [], st => pure st
  | i, str :: strs, st => do
    let (sp, mem) ← pushStrings a (i + 1) strs st
    let len := str.length + 1
    let sp := sp - len
    let mem ← copyOut sp (fun _ => strBytes str) len mem
    change fun s => s.setArr a i sp
    pure (sp, mem)

/-- Terminate the array of `n` pointers noted, and copy it out below `sp`. -/
def pushArray (a : Arr) (n : Nat) (st : Stack) : Prog Stack := do
  let (sp, mem) := st
  let len := (n + 1) * 4
  let mem ← copyOut (sp - len) (fun s => Bytes.wordBytes (s.arr a)) len mem
  pure (sp - len, mem)

def pushWords (ws : List Nat) (st : Stack) : Prog Stack := do
  let (sp, mem) := st
  let len := ws.length * 4
  let mem ← copyOut (sp - len) (fun _ => Bytes.wordBytes fun i => ws.getD i 0) len mem
  pure (sp - len, mem)

/-- `sp &= ~3UL`. -/
def alignDown (sp : Nat) : Nat := sp / 4 * 4

/-- `setup_stack`, in the address space that holds `mem`. What it notes for `/proc` is left out. -/
def setupStack (argv envp : List CStr) (auxv : List Nat) (mem : Bytes) : Prog Stack := do
  let envp := envp.take execMaxEnv
  let (sp, mem) ← pushStrings .uenv 0 envp (alignDown userVaStackTop, mem)
  change fun s => s.setArr .uenv envp.length 0
  let (sp, mem) ← pushWords auxv (alignDown sp, mem)
  let (uenvp, mem) ← pushArray .uenv envp.length (sp, mem)
  let (sp, mem) ← pushStrings .uargv 0 argv (uenvp, mem)
  change fun s => s.setArr .uargv argv.length 0
  let (sp, mem) ← pushArray .uargv argv.length (alignDown sp, mem)
  pushWords [0, argv.length, sp, uenvp] (sp, mem)

/-! ## What the program finds -/

/-- The C string at `va` is `a`. -/
def StrAt (mem : Bytes) (va : Nat) (a : CStr) : Prop :=
  (0 : UInt8) ∉ a ∧ ∀ k ≤ a.length, mem (va + k) = strBytes a k

/-- A NULL-terminated vector of pointers to the strings `l`. -/
structure VectorAt (mem : Bytes) (va : Nat) (l : List CStr) : Prop where
  strings : ∀ k (h : k < l.length), StrAt mem (mem.be32 (va + k * 4)) l[k]
  null : mem.be32 (va + l.length * 4) = 0

def WordsAt (mem : Bytes) (va : Nat) (ws : List Nat) : Prop :=
  ∀ k (h : k < ws.length), mem.be32 (va + k * 4) = ws[k]

/-- The stack, as the program's startup code and the interpreter read it: `argc` at `4(sp)`, `argv`
at `8(sp)`, `envp` at `12(sp)` and the auxiliary vector behind `envp`'s last word. -/
structure StackOf (mem : Bytes) (sp : Nat) (argv envp : List CStr) (auxv : List Nat) : Prop where
  argc : mem.be32 (sp + 4) = argv.length
  args : VectorAt mem (mem.be32 (sp + 8)) argv
  env : VectorAt mem (mem.be32 (sp + 12)) envp
  aux : WordsAt mem (mem.be32 (sp + 12) + (envp.length + 1) * 4) auxv

/-! ## What stays -/

/-- From `sp` upward nothing changed. -/
def KeepsAbove (sp : Nat) (mem mem' : Bytes) : Prop := ∀ i, sp ≤ i → mem' i = mem i

section Keeps

variable {sp sp' va : Nat} {m m' m'' : Bytes}

lemma KeepsAbove.trans (h : KeepsAbove sp m m') (h' : KeepsAbove sp' m' m'') (hle : sp' ≤ sp) :
    KeepsAbove sp m m'' :=
  fun i hi => (h' i (hle.trans hi)).trans (h i hi)

lemma keepsAbove_blit {o n : Nat} (src : Bytes) (s : Nat) (h : o + n ≤ sp) :
    KeepsAbove sp m (m.blit o src s n) :=
  fun _ hi => Bytes.blit_of_ne (by omega)

lemma KeepsAbove.be32 (h : KeepsAbove sp m m') (hva : sp ≤ va) : m'.be32 va = m.be32 va :=
  Bytes.be32_congr fun i hi _ => h i (hva.trans hi)

lemma KeepsAbove.strAt {a : CStr} (h : KeepsAbove sp m m') (hva : sp ≤ va) (ha : StrAt m va a) :
    StrAt m' va a :=
  ⟨ha.1, fun k hk => (h _ (by omega)).trans (ha.2 k hk)⟩

end Keeps

/-- A vector all of which lies at `sp` or above. -/
structure VectorAbove (sp : Nat) (mem : Bytes) (va : Nat) (l : List CStr) : Prop where
  vector : VectorAt mem va l
  base : sp ≤ va
  pointers : ∀ k < l.length, sp ≤ mem.be32 (va + k * 4)

variable {sp va : Nat} {m m' : Bytes}

lemma VectorAbove.keep {sp'} {l : List CStr} (h : VectorAbove sp m va l) (hk : KeepsAbove sp m m')
    (hle : sp' ≤ sp) :
    VectorAbove sp' m' va l := by
  have hword : ∀ k, m'.be32 (va + k * 4) = m.be32 (va + k * 4) := fun k =>
    hk.be32 (by have := h.base; omega)
  refine ⟨⟨fun k hl => ?_, ?_⟩, hle.trans h.base, fun k hl => ?_⟩
  · rw [hword]
    exact hk.strAt (h.pointers k hl) (h.vector.strings k hl)
  · rw [hword]
    exact h.vector.null
  · rw [hword]
    exact hle.trans (h.pointers k hl)

lemma WordsAt.keep {ws : List Nat} (h : WordsAt m va ws) (hk : KeepsAbove sp m m') (hle : sp ≤ va) :
    WordsAt m' va ws :=
  fun k hl => (hk.be32 (by omega)).trans (h k hl)

lemma strAt_blit {mem : Bytes} {a : CStr} (h : (0 : UInt8) ∉ a) :
    StrAt (mem.blit va (strBytes a) 0 (a.length + 1)) va a :=
  ⟨h, fun _ hk => Bytes.blit_inside (by omega)⟩

/-! ## The code while the arrays are left alone -/

/-- What a task in the middle of `setup_stack` relies on. -/
def Shared.arrays (s : Shared) : (Nat → Nat) × (Nat → Nat) := (s.uargv, s.uenv)

def Shared.besideArrays (s : Shared) : Files × Image × Image := s.images

section Push

variable {s t : Shared} {a : Arr}

lemma arr_of_arrays (h : t.arrays = s.arrays) : t.arr a = s.arr a := by
  cases a with
  | uargv => exact congrArg Prod.fst h
  | uenv => exact congrArg Prod.snd h

@[simp] lemma arr_setArr (i v : Nat) : (s.setArr a i v).arr a = update (s.arr a) i v := by
  cases a <;> rfl

@[simp] lemma setArr_besideArrays (i v : Nat) : (s.setArr a i v).besideArrays = s.besideArrays := by
  cases a <;> rfl

lemma copyOut_sat {src : Shared → Bytes} {b : Bytes}
    (hsrc : ∀ t, t.arrays = s.arrays → src t = b) (va len : Nat) (mem : Bytes) :
    (copyOut va src len mem).Sat Shared.arrays Shared.besideArrays
      (fun m t => t.arrays = s.arrays ∧ m = mem.blit va b 0 len) s :=
  copyToUser_sat hsrc va len mem

lemma setArr_sat (i v : Nat) : (change fun s => s.setArr a i v : Prog Unit).Sat Shared.arrays
    Shared.besideArrays (fun _ t => t.arr a = update (s.arr a) i v) s :=
  sat_change (fun _ _ => setArr_besideArrays i v) fun u hu w hw => by
    rw [arr_of_arrays hw, arr_setArr, arr_of_arrays hu]

/-- The strings are below `st`, and the array says where. -/
structure Pushed (a : Arr) (i : Nat) (l : List CStr) (st r : Stack) (t : Shared) : Prop where
  room : r.1 + bytesOf l = st.1
  keeps : KeepsAbove st.1 st.2 r.2
  noted : ∀ k (h : k < l.length), r.1 ≤ t.arr a (i + k) ∧ t.arr a (i + k) < st.1 ∧
    StrAt r.2 (t.arr a (i + k)) l[k]

variable {st : Stack}

variable {l : List CStr} {n : Nat} {ws : List Nat} {r : Stack}

lemma pushStrings_sat (hroom : bytesOf l ≤ st.1) (hnul : NoNul l)
    (i : Nat) : (pushStrings a i l st).Sat Shared.arrays Shared.besideArrays
    (fun r t => Pushed a i l st r t) s := by
  induction l generalizing i s with
  | nil => exact sat_ret fun t ht => ⟨rfl, fun _ _ => rfl, fun k h => absurd h (Nat.not_lt_zero k)⟩
  | cons str strs ih =>
    rw [bytesOf_cons] at hroom
    rw [pushStrings]
    refine bind ((ih (by omega) (fun x hx => hnul x (mem_cons_of_mem _ hx))
      (i + 1)).mono fun r t hp => ?_)
    obtain ⟨sp, mem⟩ := r
    have hsp : sp + bytesOf strs = st.1 := hp.room
    refine bind ((copyOut_sat (fun _ _ => rfl) _ _ mem).mono fun mem' u ⟨hu, hmem⟩ => ?_)
    refine bind ((setArr_sat i _).mono fun _ v hv => sat_ret fun w hw => ?_)
    have hw' : w.arr a = update (t.arr a) i (sp - (str.length + 1)) := by
      rw [arr_of_arrays hw, hv, arr_of_arrays hu]
    have hkeep : KeepsAbove sp mem mem' := hmem ▸ keepsAbove_blit _ _ (by omega)
    refine ⟨?_, hp.keeps.trans hkeep (by omega), fun k hk => ?_⟩
    · rw [bytesOf_cons]
      omega
    rw [hw']
    cases k with
    | zero =>
      rw [show i + 0 = i from rfl, update_self, getElem_cons_zero, hmem]
      exact ⟨le_rfl, by omega, strAt_blit (hnul str mem_cons_self)⟩
    | succ k =>
      rw [length_cons] at hk
      obtain ⟨h1, h2, h3⟩ := hp.noted k (by omega)
      rw [update_of_ne (by omega), getElem_cons_succ, show i + (k + 1) = i + 1 + k by omega]
      exact ⟨(Nat.sub_le _ _).trans h1, h2, hkeep.strAt h1 h3⟩

/-- Some words are at the new stack pointer. -/
structure Put (w : Nat → Nat) (n : Nat) (st r : Stack) : Prop where
  room : r.1 + n * 4 = st.1
  keeps : KeepsAbove st.1 st.2 r.2
  words : ∀ k < n, r.2.be32 (r.1 + k * 4) = w k % 2 ^ 32

lemma put_blit {w : Nat → Nat} (h : n * 4 ≤ st.1) :
    Put w n st (st.1 - n * 4, st.2.blit (st.1 - n * 4) (Bytes.wordBytes w) 0 (n * 4)) :=
  ⟨by simp only; omega, keepsAbove_blit _ _ (by omega), fun _ hk => Bytes.be32_blit_wordBytes hk⟩

lemma pushArray_sat (h : (n + 1) * 4 ≤ st.1) :
    (pushArray a n st).Sat Shared.arrays Shared.besideArrays
      (fun r t => t.arrays = s.arrays ∧ Put (s.arr a) (n + 1) st r) s := by
  have hcopy := copyOut_sat (b := Bytes.wordBytes (s.arr a))
    (fun t ht => congrArg Bytes.wordBytes (arr_of_arrays (a := a) ht)) (st.1 - (n + 1) * 4)
      ((n + 1) * 4) st.2
  refine bind (hcopy.mono fun mem t ⟨ht, hmem⟩ => sat_ret fun u hu => ⟨hu.trans ht, ?_⟩)
  subst hmem
  exact put_blit h

lemma pushWords_sat (h : ws.length * 4 ≤ st.1) :
    (pushWords ws st).Sat Shared.arrays Shared.besideArrays
      (fun r t => t.arrays = s.arrays ∧ Put (fun i => ws.getD i 0) ws.length st r) s := by
  refine bind ((copyOut_sat (fun t ht => rfl) _ _ st.2).mono
    fun mem t ⟨ht, hmem⟩ => sat_ret fun u hu => ⟨hu.trans ht, ?_⟩)
  subst hmem
  exact put_blit h

lemma vectorAbove_of_put {st st' r'} (hp : Pushed a 0 l st r t)
    (hw : Put (update (t.arr a) l.length 0) (l.length + 1) st' r')
    (hk : KeepsAbove r.1 r.2 r'.2) (hle : st'.1 ≤ r.1) (htop : st.1 < 2 ^ 32) :
    VectorAbove r'.1 r'.2 r'.1 l := by
  have hroom := hw.room
  have hptr : ∀ k < l.length, r'.2.be32 (r'.1 + k * 4) = t.arr a k := by
    intro k hl
    have h2 := (hp.noted k hl).2.1
    rw [Nat.zero_add] at h2
    rw [hw.words k (by omega), update_of_ne (by omega), Nat.mod_eq_of_lt (by omega)]
  refine ⟨⟨fun k hl => ?_, ?_⟩, le_rfl, fun k hl => ?_⟩
  · obtain ⟨h1, -, h3⟩ := hp.noted k hl
    rw [Nat.zero_add] at h1 h3
    rw [hptr k hl]
    exact hk.strAt h1 h3
  · rw [hw.words _ (Nat.lt_succ_self _), update_self, Nat.zero_mod]
  · have h1 := (hp.noted k hl).1
    rw [Nat.zero_add] at h1
    rw [hptr k hl]
    omega

lemma wordsAt_of_put {st} (h : Put (fun i => ws.getD i 0) ws.length st r)
    (hws : ∀ w ∈ ws, w < 2 ^ 32) :
    WordsAt r.2 r.1 ws := by
  intro k hk
  have hget : ws.getD k 0 = ws[k] := by
    rw [getD_eq_getElem?_getD, getElem?_eq_getElem hk, Option.getD_some]
  rw [h.words k hk, hget]
  exact Nat.mod_eq_of_lt (hws _ (getElem_mem hk))

end Push

lemma alignDown_le (sp) : alignDown sp ≤ sp := Nat.div_mul_le_self sp 4

lemma lt_alignDown (sp) : sp < alignDown sp + 4 := by
  rw [alignDown]
  omega

/-- **The program finds what its caller passed**, if the arguments fit and nobody else stores into
`uargv` and `uenv` while they are copied. -/
lemma setupStack_sat {argv envp : List CStr} {auxv : List Nat} (mem : Bytes) (s)
    (hnul : NoNul (argv ++ envp)) (hargc : argv.length ≤ execMaxArgs)
    (henvc : envp.length ≤ execMaxEnv) (hsize : bytesOf argv + bytesOf envp ≤ 2 ^ 16)
    (hauxc : auxv.length = 16) (haux : ∀ w ∈ auxv, w < 2 ^ 32) :
    (setupStack argv envp auxv mem).Sat Shared.arrays Shared.besideArrays
      (fun r _ => StackOf r.2 r.1 argv envp auxv) s := by
  have htop : alignDown userVaStackTop = 0x1ffffff0 := by decide
  have hmax : execMaxArgs = 1024 ∧ execMaxEnv = 256 := ⟨rfl, rfl⟩
  have hnargv : NoNul argv := fun x hx => hnul x (mem_append_left _ hx)
  have hnenvp : NoNul envp := fun x hx => hnul x (mem_append_right _ hx)
  rw [setupStack, take_of_length_le henvc, htop]
  -- the environment's strings and its array's end
  refine bind ((pushStrings_sat (by simp only; omega) hnenvp 0).mono fun r1 t1 h1 => ?_)
  refine bind ((setArr_sat envp.length 0).mono fun _ t2 h2 => ?_)
  have hr1 : r1.1 + bytesOf envp = 0x1ffffff0 := h1.room
  have ha1 := alignDown_le r1.1
  have ha1' := lt_alignDown r1.1
  -- the auxiliary vector, and the array
  refine bind ((pushWords_sat (by simp only; omega)).mono fun r3 t3 ⟨ht3, h3⟩ => ?_)
  have hr3 : r3.1 + auxv.length * 4 = alignDown r1.1 := h3.room
  refine bind ((pushArray_sat (by simp only; omega)).mono fun r4 t4 ⟨ht4, h4⟩ => ?_)
  have hr4 : r4.1 + (envp.length + 1) * 4 = r3.1 := h4.room
  rw [arr_of_arrays ht3, h2] at h4
  have hk13 : KeepsAbove r1.1 r1.2 r3.2 := fun i hi => h3.keeps i (ha1.trans hi)
  have hk34 : KeepsAbove r3.1 r3.2 r4.2 := h4.keeps
  have henv : VectorAbove r4.1 r4.2 r4.1 envp :=
    vectorAbove_of_put h1 h4 (hk13.trans hk34 (by omega)) (by simp only; omega)
      (by simp only; omega)
  have hauxv : WordsAt r4.2 (r4.1 + (envp.length + 1) * 4) auxv := by
    rw [hr4]
    exact (wordsAt_of_put h3 haux).keep hk34 le_rfl
  -- the arguments' strings and their array
  refine bind ((pushStrings_sat (by simp only; omega) hnargv 0).mono fun r5 t5 h5 => ?_)
  have hr5 : r5.1 + bytesOf argv = r4.1 := h5.room
  refine bind ((setArr_sat argv.length 0).mono fun _ t6 h6 => ?_)
  have ha5 := alignDown_le r5.1
  have ha5' := lt_alignDown r5.1
  refine bind ((pushArray_sat (by simp only; omega)).mono fun r7 t7 ⟨ht7, h7⟩ => ?_)
  have hr7 : r7.1 + (argv.length + 1) * 4 = alignDown r5.1 := h7.room
  rw [h6] at h7
  have hk45 : KeepsAbove r4.1 r4.2 r5.2 := h5.keeps
  have hk57 : KeepsAbove r5.1 r5.2 r7.2 := fun i hi => h7.keeps i (ha5.trans hi)
  have hargs : VectorAbove r7.1 r7.2 r7.1 argv :=
    vectorAbove_of_put h5 h7 hk57 ha5 (by simp only; omega)
  -- the four words of the frame
  refine (pushWords_sat (by simp only [length_cons, length_nil]; omega)).mono
    fun r8 _ ⟨_, h8⟩ => ?_
  have hr8 : r8.1 + 16 = r7.1 := h8.room
  have hk78 : KeepsAbove r7.1 r7.2 r8.2 := h8.keeps
  have hframe : WordsAt r8.2 r8.1 [0, argv.length, r7.1, r4.1] := by
    refine wordsAt_of_put h8 fun w hw => ?_
    simp only [mem_cons, not_mem_nil, or_false] at hw
    rcases hw with rfl | rfl | rfl | rfl <;> omega
  have hf1 : r8.2.be32 (r8.1 + 4) = argv.length := hframe 1 (by simp)
  have hf2 : r8.2.be32 (r8.1 + 8) = r7.1 := hframe 2 (by simp)
  have hf3 : r8.2.be32 (r8.1 + 12) = r4.1 := hframe 3 (by simp)
  have hk48 : KeepsAbove r4.1 r4.2 r8.2 := (hk45.trans hk57 (by omega)).trans hk78 (by omega)
  refine ⟨hf1, ?_, ?_, ?_⟩
  · rw [hf2]
    exact (hargs.keep hk78 le_rfl).vector
  · rw [hf3]
    exact (henv.keep hk48 le_rfl).vector
  · rw [hf3]
    exact hauxv.keep hk48 (by omega)

end Sage040.Exec
