import Mathlib

/-!
# Programs that can be switched away from

Code that runs without preemption is a sequence of *stretches*: what it does between two places
where it may sleep. Within a stretch nothing else runs; between two of them anything may, and the
shared state may be another one. `Coop ε σ α` is such a program over the shared state `σ`: it
ends with a value or an error, or does one stretch and goes on from what it found there.

Two parts of the shared state matter to a program: what it relies on others to leave alone, and
what it promises to leave alone itself. Each is given by a function of the state.
`Sat own rest Q p s` is the statement that follows: if others never change `own` while `p` is under
way, `p` never changes `rest`, and if it ends with a value, `Q` holds of that value in the state
it ends in and as long as `own` stays what it is. The rules follow the program: `Sat.bind` for
sequencing, `sat_stretch` for a stretch, `Sat.mono` for weakening. `Sat.stable` and `Sat.go` are
what a scheduler needs: somebody else's stretch, and the program's own. `Keeps` is the part of it
that needs no assumption on others.
-/

/-- A program over the shared state `σ` that gives an `α` or fails with an `ε`. -/
inductive Coop (ε σ α : Type)
  | ret (a : α)
  | fail (e : ε)
  /-- One stretch: the state it leaves, and how it goes on, both from the state it finds. -/
  | step (f : σ → σ) (k : σ → Coop ε σ α)

namespace Coop

variable {ε σ α β ω γ : Type}

protected def bind : Coop ε σ α → (α → Coop ε σ β) → Coop ε σ β
  | ret a, g => g a
  | fail e, _ => fail e
  | step f k, g => step f fun s => (k s).bind g

instance : Monad (Coop ε σ) where
  pure := ret
  bind := Coop.bind

def ofExcept : Except ε α → Coop ε σ α
  | .ok a => ret a
  | .error e => fail e

/-- A stretch that gives a value or fails, and leaves a state either way. -/
def stretch (f : σ → Except ε α × σ) : Coop ε σ α :=
    step (fun s => (f s).2) fun s => ofExcept (f s).1

def look (f : σ → Except ε α) : Coop ε σ α := stretch fun s => (f s, s)

def change (f : σ → σ) : Coop ε σ Unit := stretch fun s => (.ok (), f s)

def errorMap (h : ε → ε) : Coop ε σ α → Coop ε σ α
  | ret a => ret a
  | fail e => fail (h e)
  | step f k => step f fun s => (k s).errorMap h

/-! ## What a program does while others run -/

def Sat (own : σ → ω) (rest : σ → γ) (Q : α → σ → Prop) : Coop ε σ α → σ → Prop
  | ret a, s => ∀ t, own t = own s → Q a t
  | fail _, _ => True
  | step f k, s => ∀ t, own t = own s → rest (f t) = rest t ∧ Sat own rest Q (k t) (f t)

variable {own : σ → ω} {rest : σ → γ} {Q Q' : α → σ → Prop} {s t : σ} {p : Coop ε σ α}

variable {a : α} {f : σ → σ} {g : α → Coop ε σ β}

lemma sat_ret (h : ∀ t, own t = own s → Q a t) : (pure a : Coop ε σ α).Sat own rest Q s := h

lemma sat_fail (e : ε) : (fail e : Coop ε σ α).Sat own rest Q s := trivial

lemma Sat.stable (h : p.Sat own rest Q s) (ht : own t = own s) : p.Sat own rest Q t := by
  cases p with
  | ret a => exact fun u hu => h u (hu.trans ht)
  | fail e => trivial
  | step f k => exact fun u hu => h u (hu.trans ht)

lemma Sat.go {k : σ → Coop ε σ α} (h : (step f k).Sat own rest Q s) :
    rest (f s) = rest s ∧ (k s).Sat own rest Q (f s) := h s rfl

lemma Sat.done (h : (ret a : Coop ε σ α).Sat own rest Q s) : Q a s := h s rfl

lemma Sat.mono (h : p.Sat own rest Q s) (hQ : ∀ a t, Q a t → Q' a t) : p.Sat own rest Q' s := by
  induction p generalizing s with
  | ret a => exact fun t ht => hQ a t (h t ht)
  | fail e => trivial
  | step f k ih => exact fun t ht => ⟨(h t ht).1, ih t (h t ht).2⟩

lemma Sat.weaken {ω' γ'} {own' : σ → ω'} {rest' : σ → γ'} (h : p.Sat own rest Q s)
    (ho : ∀ s t, own' t = own' s → own t = own s)
    (hr : ∀ s t, rest t = rest s → rest' t = rest' s) : p.Sat own' rest' Q s := by
  induction p generalizing s with
  | ret a => exact fun t ht => h t (ho s t ht)
  | fail e => trivial
  | step f k ih =>
    intro t ht
    obtain ⟨h1, h2⟩ := h t (ho s t ht)
    exact ⟨hr _ _ h1, ih t h2⟩

lemma Sat.bind {Q : β → σ → Prop}
    (h : p.Sat own rest (fun a t => (g a).Sat own rest Q t) s) : (p >>= g).Sat own rest Q s := by
  induction p generalizing s with
  | ret a => exact h s rfl
  | fail e => trivial
  | step f k ih => exact fun t ht => ⟨(h t ht).1, ih t (h t ht).2⟩

lemma sat_ofExcept {x : Except ε α} (h : ∀ a, x = .ok a → ∀ t, own t = own s → Q a t) :
    (ofExcept x).Sat own rest Q s := by
  cases x with
  | ok a => exact h a rfl
  | error e => trivial

/-- A stretch: it leaves `rest` alone, and what it gives is right in whatever state comes next. -/
lemma sat_stretch {f : σ → Except ε α × σ} (hrest : ∀ t, own t = own s → rest (f t).2 = rest t)
    (h : ∀ t, own t = own s → ∀ a, (f t).1 = .ok a → ∀ u, own u = own (f t).2 → Q a u) :
    (stretch f).Sat own rest Q s :=
  fun t ht => ⟨hrest t ht, sat_ofExcept (h t ht)⟩

lemma sat_look {f : σ → Except ε α} (h : ∀ t, own t = own s → ∀ a, f t = .ok a → ∀ u,
    own u = own t → Q a u) :
    (look f).Sat own rest Q s :=
  sat_stretch (fun _ _ => rfl) h

lemma sat_change {Q : Unit → σ → Prop} (hrest : ∀ t, own t = own s → rest (f t) = rest t)
    (h : ∀ t, own t = own s → ∀ u, own u = own (f t) → Q () u) :
    (change f : Coop ε σ Unit).Sat own rest Q s :=
  sat_stretch hrest fun t ht _ _ => h t ht

lemma Sat.errorMap (h : p.Sat own rest Q s) (m : ε → ε) : (p.errorMap m).Sat own rest Q s := by
  induction p generalizing s with
  | ret a => exact h
  | fail e => trivial
  | step f k ih => exact fun t ht => ⟨(h t ht).1, ih t (h t ht).2⟩

/-- A loop whose rounds leave `own` alone and each give what `g` gives. -/
lemma sat_foldlM {ι : Type} {f : β → ι → Coop ε σ β} {g : β → ι → β}
    (h : ∀ b x t, own t = own s → (f b x).Sat own rest (fun b' u => own u = own t ∧ b' = g b x) t)
    (l : List ι) (b : β) : (l.foldlM f b).Sat own rest (fun b' t => own t = own s ∧
    b' = l.foldl g b) s := by
  suffices hl : ∀ t, own t = own s →
      (l.foldlM f b).Sat own rest (fun b' t => own t = own s ∧ b' = l.foldl g b) t from hl s rfl
  induction l generalizing b with
  | nil => exact fun t ht => sat_ret fun u hu => ⟨hu.trans ht, rfl⟩
  | cons x l ih =>
    intro t ht
    refine Sat.bind ((h b x t ht).mono fun b' u ⟨hu, hb⟩ => ?_)
    rw [hb]
    exact ih (g b x) u (hu.trans ht)

/-- A loop whose rounds each change `own` as `g` does. -/
lemma sat_foldlM_own {ι : Type} {f : ι → Coop ε σ Unit} {g : ω → ι → ω}
    (h : ∀ x t, (f x).Sat own rest (fun _ u => own u = g (own t) x) t) (l : List ι) :
    (l.foldlM (fun _ x => f x) ()).Sat own rest (fun _ t => own t = l.foldl g (own s)) s := by
  induction l generalizing s with
  | nil => exact sat_ret fun t ht => ht
  | cons x l ih =>
    refine Sat.bind ((h x s).mono fun _ u hu => ?_)
    rw [List.foldl_cons, ← hu]
    exact ih

/-! ## What a program never touches -/

lemma sat_trivial (own : σ → ω) (p : Coop ε σ α) (s : σ) : p.Sat own (fun _ => ())
    (fun _ _ => True) s := by
  induction p generalizing s with
  | ret a => exact fun _ _ => trivial
  | fail e => trivial
  | step f k ih => exact fun t _ => ⟨rfl, ih t (f t)⟩

/-- Whatever state it finds, the program leaves `rest` as it is. -/
def Keeps (rest : σ → γ) : Coop ε σ α → Prop
  | ret _ => True
  | fail _ => True
  | step f k => ∀ s, rest (f s) = rest s ∧ (k s).Keeps rest

lemma keeps_ret (a) : (pure a : Coop ε σ α).Keeps rest := trivial

lemma keeps_fail (e : ε) : (fail e : Coop ε σ α).Keeps rest := trivial

lemma Keeps.bind (h : p.Keeps rest) (hg : ∀ a, (g a).Keeps rest) : (p >>= g).Keeps rest := by
  induction p with
  | ret a => exact hg a
  | fail e => trivial
  | step f k ih => exact fun s => ⟨(h s).1, ih s (h s).2⟩

lemma keeps_ofExcept (x : Except ε α) : (ofExcept x : Coop ε σ α).Keeps rest := by
  cases x <;> trivial

lemma keeps_stretch {f : σ → Except ε α × σ} (h : ∀ s, rest (f s).2 = rest s) :
    (stretch f).Keeps rest :=
  fun s => ⟨h s, keeps_ofExcept _⟩

lemma keeps_look (f : σ → Except ε α) : (look f).Keeps rest := keeps_stretch fun _ => rfl

lemma keeps_change (h : ∀ s, rest (f s) = rest s) : (change f : Coop ε σ Unit).Keeps rest :=
    keeps_stretch h

lemma Keeps.errorMap (h : p.Keeps rest) (m : ε → ε) : (p.errorMap m).Keeps rest := by
  induction p with
  | ret a => trivial
  | fail e => trivial
  | step f k ih => exact fun s => ⟨(h s).1, ih s (h s).2⟩

lemma keeps_foldlM {ι : Type} {f : β → ι → Coop ε σ β} (h : ∀ b x, (f b x).Keeps rest)
    (l : List ι) (b : β) : (l.foldlM f b).Keeps rest := by
  induction l generalizing b with
  | nil => trivial
  | cons x l ih =>
    exact (h b x).bind ih

lemma Sat.keeping {γ'} {rest' : σ → γ'} (h : p.Sat own rest' Q s) (hk : p.Keeps rest) :
    p.Sat own rest Q s := by
  induction p generalizing s with
  | ret a => exact h
  | fail e => trivial
  | step f k ih => exact fun t ht => ⟨(hk t).1, ih t (h t ht).2 (hk t).2⟩

/-! ## Programs that do not fail -/

/-- If others never change `own` and every state it finds satisfies `ok`, the program does not
fail. -/
def Total (own : σ → ω) (ok : σ → Prop) : Coop ε σ α → σ → Prop
  | ret _, _ => True
  | fail _, _ => False
  | step f k, s => ∀ t, own t = own s → ok t → Total own ok (k t) (f t)

section Total

variable {ok : σ → Prop}

lemma total_ret (a) : (pure a : Coop ε σ α).Total own ok s := trivial

lemma Total.stable (h : p.Total own ok s) (ht : own t = own s) : p.Total own ok t := by
  cases p with
  | ret a => trivial
  | fail e => exact h.elim
  | step f k => exact fun u hu => h u (hu.trans ht)

lemma Total.bind {g : α → Coop ε σ β} (h : p.Total own ok s)
    (hg : p.Sat own (fun _ => ()) (fun a t => (g a).Total own ok t) s) :
    (p >>= g).Total own ok s := by
  induction p generalizing s with
  | ret a => exact hg s rfl
  | fail e => exact h.elim
  | step f k ih => exact fun t ht hok => ih t (h t ht hok) (hg t ht).2

lemma total_stretch {f : σ → Except ε α × σ}
    (h : ∀ t, own t = own s → ok t → ∃ a, (f t).1 = .ok a) : (stretch f).Total own ok s := by
  intro t ht hok
  obtain ⟨a, ha⟩ := h t ht hok
  show Total own ok (ofExcept (f t).1) _
  rw [ha]
  trivial

lemma total_look {f : σ → Except ε α} (h : ∀ t, own t = own s → ok t → ∃ a, f t = .ok a) :
    (look f).Total own ok s := total_stretch h

lemma total_change (f) : (change f : Coop ε σ Unit).Total own ok s :=
  total_stretch fun _ _ _ => ⟨(), rfl⟩

lemma total_foldlM {ι : Type} {f : β → ι → Coop ε σ β} (h : ∀ b x t, (f b x).Total own ok t)
    (l : List ι) (b : β) : (l.foldlM f b).Total own ok s := by
  induction l generalizing b s with
  | nil => trivial
  | cons x l ih =>
    exact (h b x s).bind ((sat_trivial own (f b x) s).mono fun b' t _ => ih b')

end Total

end Coop
