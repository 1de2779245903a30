import Sage040.Kernel.Exec.Files

/-!
# Following `#!`

`script_resolve` replaces a script by the program its first line names, up to `SCRIPT_DEPTH` times,
and puts that program's name, its one argument and the script's own name in front of the arguments.
`Leads` says what comes out when the files stay as they are: the path of the program and its
argument list, `scriptResolve_sat` that whatever other tasks do to the rest of the shared state,
this is what `script_resolve` gives.

The strings it adds are short (`Leads.size`) and are C strings (`Leads.noNul`), which is what the
stack the program starts with needs to know.
-/

namespace Sage040.Exec

open Coop List

/-- `SCRIPT_LINE - 1`: the bytes read of the first line. -/
def scriptLineMax : Nat := 255

def scriptDepth : Nat := 4

def execMaxArgs : Nat := 1024

def isBlank (c : UInt8) : Bool := c == 32 || c == 9

def inName (c : UInt8) : Bool := !isBlank c && c != 0

def isScript (line : List UInt8) : Bool := line.take 2 == ascii "#!"

def cstr (l : List UInt8) : CStr := l.takeWhile (· != 0)

def trim (l : List UInt8) : List UInt8 :=
  (l.reverse.dropWhile fun c => isBlank c || c == 13).reverse

/-- The interpreter and its argument, of a line that begins `#!`; `none` where the line names none,
or its name may have been cut off. -/
def scriptLine (line : List UInt8) : Option (CStr × Option CStr) :=
  let body := (line.drop 2).takeWhile (· != 10)
  let p := body.dropWhile isBlank
  let interp := p.takeWhile inName
  let rest := p.dropWhile inName
  if interp = [] ∨ (rest = [] ∧ 2 + body.length = line.length ∧ line.length = scriptLineMax) then
    none
  else
    let arg := rest.tail.dropWhile isBlank
    some (interp, if arg = [] then none else some (cstr (trim arg)))

/-- `interp [arg] path argv[1]...` -/
def scriptArgv (interp : CStr) (arg : Option CStr) (path : CStr) (argv : List CStr) : List CStr :=
  interp :: (arg.toList ++ path :: argv.tail)

/-- What one round of `script_resolve` reads. -/
def firstLine (cred : Cred) (path : CStr) : Prog (List UInt8) := do
  vfsMay cred path .execute
  let ino ← fdOpen cred path
  fdRead ino scriptLineMax

/-- `script_resolve`, with `left` levels of scripts still allowed. -/
def scriptResolve (cred : Cred) : Nat → CStr → List CStr → Prog (CStr × List CStr)
  | left, path, argv => do
    let line ← firstLine cred path
    if !isScript line then pure (path, argv)
    else match left with
      | 0 => fail .eloop
      | left + 1 =>
        match scriptLine line with
        | none => fail .enoexec
        | some (interp, arg) =>
          mayRefuse
          if execMaxArgs < argv.length + (1 + arg.toList.length) then fail .e2big
          else scriptResolve cred left interp (scriptArgv interp arg path argv)

/-! ## Where it leads -/

/-- With these files, `path` and `argv` lead through `n` scripts to the program `path'` with the
arguments `argv'`. -/
inductive Leads (fs : Files) : Nat → CStr → List CStr → CStr → List CStr → Prop
  | program {path : CStr} {argv : List CStr} {ino : Nat} (name : fs.names path = some ino)
      (elf : isScript ((fs.inodes ino).data.head scriptLineMax) = false) :
      Leads fs 0 path argv path argv
  | script {path path' : CStr} {argv argv' : List CStr} {ino n : Nat} {interp : CStr}
      {arg : Option CStr} (name : fs.names path = some ino)
      (line : scriptLine ((fs.inodes ino).data.head scriptLineMax) = some (interp, arg))
      (room : argv.length + (1 + arg.toList.length) ≤ execMaxArgs)
      (next : Leads fs n interp (scriptArgv interp arg path argv) path' argv') :
      Leads fs (n + 1) path argv path' argv'

/-- The bytes a list of strings takes, NULs included. -/
def bytesOf (l : List CStr) : Nat := (l.map fun a => a.length + 1).sum

lemma bytesOf_nil : bytesOf [] = 0 := rfl

lemma bytesOf_cons (a : CStr) (l : List CStr) : bytesOf (a :: l) = a.length + 1 + bytesOf l := rfl

lemma bytesOf_append (l m : List CStr) : bytesOf (l ++ m) = bytesOf l + bytesOf m := by
  simp [bytesOf]

def NoNul (l : List CStr) : Prop := ∀ a ∈ l, (0 : UInt8) ∉ a
  deriving Decidable

section Line

variable {line : List UInt8} {interp : CStr} {arg : Option CStr}

lemma not_mem_cstr (l : List UInt8) : (0 : UInt8) ∉ cstr l := fun h => by
  simpa using all_eq_true.1 all_takeWhile _ h

lemma length_trim_le (l : List UInt8) : (trim l).length ≤ l.length := by
  rw [trim, length_reverse, ← l.length_reverse]
  exact (dropWhile_sublist _).length_le

lemma length_cstr_le (l : List UInt8) : (cstr l).length ≤ l.length :=
  (takeWhile_sublist _).length_le

lemma scriptLine_some (h : scriptLine line = some (interp, arg)) :
    (interp.length ≤ line.length ∧ ∀ a ∈ arg, a.length ≤ line.length) ∧
    NoNul (interp :: arg.toList) := by
  simp only [scriptLine] at h
  split at h
  · cases h
  obtain ⟨rfl, rfl⟩ := h
  set p := ((line.drop 2).takeWhile (· != 10)).dropWhile isBlank with hp
  have hle : p.length ≤ line.length :=
    ((dropWhile_sublist _).trans ((takeWhile_sublist _).trans
      (drop_sublist _ _))).length_le
  have harg : ∀ a, (if (p.dropWhile inName).tail.dropWhile isBlank = [] then none
      else some (cstr (trim ((p.dropWhile inName).tail.dropWhile isBlank)))) = some a →
      a.length ≤ line.length ∧ (0 : UInt8) ∉ a := by
    intro a ha
    split at ha
    · cases ha
    obtain rfl := Option.some.inj ha
    have h1 := length_cstr_le (trim ((p.dropWhile inName).tail.dropWhile isBlank))
    have h2 := length_trim_le ((p.dropWhile inName).tail.dropWhile isBlank)
    have h3 : ((p.dropWhile inName).tail.dropWhile isBlank).length ≤ p.length :=
      ((dropWhile_sublist _).trans ((tail_sublist _).trans
        (dropWhile_sublist _))).length_le
    exact ⟨by omega, not_mem_cstr _⟩
  refine ⟨⟨(takeWhile_sublist _).length_le.trans hle, fun a ha => (harg a ha).1⟩, ?_⟩
  intro a ha
  rcases mem_cons.1 ha with rfl | ha
  · intro h0
    simpa [inName] using all_eq_true.1 all_takeWhile _ h0
  · exact (harg a (by simpa using ha)).2

end Line

lemma Contents.length_head_le (d : Contents) (n : Nat) : (d.head n).length ≤ n := by
  simp [Contents.head]

section Leads

variable {fs : Files} {n : Nat} {path path' : CStr} {argv argv' : List CStr}

section

variable (h : Leads fs n path argv path' argv')
include h

lemma Leads.length (hl : argv.length ≤ execMaxArgs) :
    argv'.length ≤ execMaxArgs := by
  induction h with
  | program => exact hl
  | @script _ _ argv _ _ _ _ arg _ _ room _ ih =>
    -- an empty argument list still gets the script's name, hence the second case
    have harg : arg.toList.length ≤ 1 := by cases arg <;> simp
    have hmax : 3 ≤ execMaxArgs := by decide
    apply ih
    simp only [scriptArgv, length_cons, length_append, length_tail]
    omega

lemma Leads.size (hp : path.length ≤ pathMax) :
    bytesOf argv' ≤ bytesOf argv + n * (2 * (scriptLineMax + 1) + (pathMax + 1)) := by
  induction h with
  | program => omega
  | @script path path' argv argv' ino n interp arg _ line _ _ ih =>
    obtain ⟨⟨h1, h2⟩, -⟩ := scriptLine_some line
    have h3 := ((fs.inodes ino).data).length_head_le scriptLineMax
    have hmax : scriptLineMax ≤ pathMax := by decide
    have hi := ih (by omega)
    have htail : bytesOf argv.tail ≤ bytesOf argv := by
      cases argv with
      | nil => rfl
      | cons a l =>
        rw [tail_cons, bytesOf_cons]
        omega
    have harg : bytesOf arg.toList ≤ scriptLineMax + 1 := by
      cases arg with
      | none => exact Nat.zero_le _
      | some a =>
        have := h2 a rfl
        rw [Option.toList_some, bytesOf_cons, bytesOf_nil]
        omega
    rw [scriptArgv, bytesOf_cons, bytesOf_append, bytesOf_cons] at hi
    rw [Nat.add_mul]
    omega

lemma Leads.noNul (hp : (0 : UInt8) ∉ path) (ha : NoNul argv) : NoNul argv' := by
  induction h with
  | program => exact ha
  | script _ line _ _ ih =>
    obtain ⟨-, h0⟩ := scriptLine_some line
    refine ih (h0 _ mem_cons_self) fun a hmem => ?_
    rw [scriptArgv, ← cons_append] at hmem
    rcases mem_append.1 hmem with hmem | hmem
    · exact h0 a hmem
    rcases mem_cons.1 hmem with rfl | hmem
    · exact hp
    · exact ha a (mem_of_mem_tail hmem)

end

end Leads

/-! ## What the calls give -/

section Calls

variable {ω γ : Type} {own : Shared → ω} {rest : Shared → γ} {s : Shared} {path : CStr}
  {cred : Cred} {ino : Nat}

/-- A call that only looks at the files gives what the files say. -/
lemma sat_ask {α : Type} {x : Shared → Except Errno α} {Q : α → Shared → Prop}
    (h : ∀ t, own t = own s → ∀ a, x t = .ok a → ∀ u, own u = own t → Q a u) :
    (look fun s => s.ask (x s) : Prog α).Sat own rest Q s :=
  sat_look fun t ht a ha => h t ht a (Shared.ask_eq_ok ha)

lemma mayRefuse_sat : mayRefuse.Sat own rest (fun _ t => own t = own s) s :=
  sat_ask fun _ ht _ _ _ hu => hu.trans ht

lemma vfsMay_sat (want : Access) : (vfsMay cred path want).Sat own rest (fun _ t => own t =
    own s) s := by
  refine Sat.bind (sat_ask fun t ht st _ u hu => ?_)
  split
  · exact sat_ret fun v hv => hv.trans (hu.trans ht)
  · exact sat_fail _

lemma fsOpen_sat : (fsOpen path).Sat own rest
    (fun ino t => own t = own s ∧ ∃ u, own u = own s ∧ u.files.names path = some ino) s := by
  refine sat_ask fun t ht ino hino u hu => ⟨hu.trans ht, t, ht, ?_⟩
  cases hn : t.files.names path with
  | none => simp only [hn, reduceCtorEq] at hino
  | some n =>
    simp only [hn, Except.ok.injEq] at hino
    rw [hino]

/-- The descriptor is for a file that the name led to at some moment since. -/
lemma fdOpen_sat : (fdOpen cred path).Sat own rest
    (fun ino t => own t = own s ∧ ∃ u, own u = own s ∧ u.files.names path = some ino) s := by
  rw [fdOpen]
  split
  · exact sat_fail _
  split
  · exact sat_fail _
  have hopen : ∀ t, own t = own s → (fsOpen path).Sat own rest
      (fun ino t => own t = own s ∧ ∃ u, own u = own s ∧ u.files.names path = some ino) t := by
    intro t ht
    rw [← ht]
    exact fsOpen_sat
  refine Sat.bind (sat_look fun t ht ex _ u hu => ?_)
  split
  · exact Sat.bind ((vfsMay_sat .read).mono fun _ v hv => hopen v (hv.trans (hu.trans ht)))
  · exact hopen u (hu.trans ht)

end Calls

/-! ## The resolution while others run -/

section Resolve

variable {γ : Type} {rest : Shared → γ} {cred : Cred}

lemma firstLine_sat (path s) : (firstLine cred path).Sat Shared.files rest
    (fun line t => t.files = s.files ∧ ∃ ino, s.files.names path = some ino ∧
      line = (s.files.inodes ino).data.head scriptLineMax) s := by
  refine Sat.bind ((vfsMay_sat .execute).mono fun _ t ht => ?_)
  refine Sat.bind (fdOpen_sat.mono fun ino u ⟨hu, v, hv, hino⟩ => ?_)
  refine sat_ask fun w hw line hline x hx => ?_
  have hws : w.files = s.files := hw.trans (hu.trans ht)
  refine ⟨hx.trans hws, ino, ?_, ?_⟩
  · rw [← ht, ← hv, hino]
  rw [← hws]
  exact (Except.ok.inj hline).symm

lemma scriptResolve_sat (left : Nat) (path argv s) :
    (scriptResolve cred left path argv).Sat Shared.files rest
      (fun r t => t.files = s.files ∧ ∃ n ≤ left, Leads s.files n path argv r.1 r.2) s := by
  induction left using Nat.strong_induction_on generalizing path argv s with | _ left ih
  rw [scriptResolve.eq_def]
  refine Sat.bind ((firstLine_sat path s).mono fun line t ⟨ht, ino, hino, hline⟩ => ?_)
  split
  · rename_i h
    subst hline
    exact sat_ret fun u hu => ⟨hu.trans ht, 0, Nat.zero_le _, .program hino (by simpa using h)⟩
  cases left with
  | zero => exact sat_fail _
  | succ left =>
    cases hl : scriptLine line with
    | none => exact sat_fail _
    | some ia =>
      obtain ⟨interp, arg⟩ := ia
      refine Sat.bind (mayRefuse_sat.mono fun _ u hu => ?_)
      split
      · exact sat_fail _
      refine (ih left (Nat.lt_succ_self left) interp (scriptArgv interp arg path argv) u).mono
        fun r v ⟨hv, n, hn, h⟩ => ?_
      have hus : u.files = s.files := hu.trans ht
      rw [hus] at hv h
      subst hline
      exact ⟨hv, n + 1, by omega, .script hino hl (by omega) h⟩

end Resolve

end Sage040.Exec
