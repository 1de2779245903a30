import Mathlib

/-!
# Programs with error exits, and where they end

`EStateM ε σ` is a program over a state that may stop with an error, in the state it had come to.
`Ends m s Q` says that `m`, started in `s`, ends in a state and with an answer that satisfy `Q`; the
rules below take a program apart statement by statement. `Ends.bind` is the one that does the work:
what the first statement establishes is all that the rest may use, and an exit has to satisfy `Q` on
the spot.

A function that hands back the state and its answer as a pair becomes a statement with `Exits.lift`,
and `attempt` is a statement whose error the caller does not look at. `Keeps P m` is the special
case of an invariant.
-/

namespace Sage040.Exits

variable {ε σ α β : Type}

/-- The state that a program ends in, and its answer. -/
def finish (m : EStateM ε σ α) (s : σ) : σ × Except ε α :=
  match m.run s with
  | .ok a s' => (s', .ok a)
  | .error e s' => (s', .error e)

def lift (f : σ → σ × Except ε α) : EStateM ε σ α := fun s =>
  match f s with
  | (s', .ok a) => .ok a s'
  | (s', .error e) => .error e s'

def attempt (m : EStateM ε σ α) : EStateM ε σ (Except ε α) := fun s =>
  match m.run s with
  | .ok a s' => .ok (.ok a) s'
  | .error e s' => .ok (.error e) s'

/-- Started in `s`, the program ends with `Q`. -/
def Ends (m : EStateM ε σ α) (s : σ) (Q : σ → Except ε α → Prop) : Prop :=
  Q (finish m s).1 (finish m s).2

variable {m : EStateM ε σ α} {k : α → EStateM ε σ β} {s : σ} {Q R : σ → Except ε α → Prop}

lemma finish_lift (f : σ → σ × Except ε α) (s) : finish (lift f) s = f s := by
  simp only [finish, lift, EStateM.run]
  rcases f s with ⟨s', e | a⟩ <;> rfl

lemma finish_bind (m : EStateM ε σ α) (k : α → EStateM ε σ β) (s : σ) :
    finish (m >>= k) s = match finish m s with
      | (s', .ok a) => finish (k a) s'
      | (s', .error e) => (s', .error e) := by
  simp only [finish, bind, EStateM.bind, EStateM.run]
  cases m s <;> rfl

lemma Ends.mono (h : Ends m s R) (himp : ∀ s' r, R s' r → Q s' r) : Ends m s Q := himp _ _ h

lemma Ends.and (h : Ends m s Q) (h' : Ends m s R) : Ends m s fun s' r => Q s' r ∧ R s' r := ⟨h, h'⟩

lemma Ends.bind {Q : σ → Except ε β → Prop} (h : Ends m s R)
    (hk : ∀ s' a, R s' (.ok a) → Ends (k a) s' Q) (he : ∀ s' e, R s' (.error e) → Q s' (.error e)) :
    Ends (m >>= k) s Q := by
  rw [Ends] at h ⊢
  rw [finish_bind]
  rcases hm : finish m s with ⟨s', a | e⟩ <;> rw [hm] at h
  · exact he s' _ h
  · exact hk s' _ h

variable {e : ε} {f : σ → σ × Except ε α} {c : Prop} {m' : EStateM ε σ α} {r : Except ε α}

lemma ends_throw : Ends (throw e : EStateM ε σ α) s Q ↔ Q s (.error e) := Iff.rfl

lemma ends_lift : Ends (lift f) s Q ↔ Q (f s).1 (f s).2 := by
  rw [Ends, finish_lift]

lemma ends_get {Q : σ → Except ε σ → Prop} : Ends (get : EStateM ε σ σ) s Q ↔ Q s (.ok s) := Iff.rfl

lemma ends_attempt {Q : σ → Except ε (Except ε α) → Prop} :
    Ends (attempt m) s Q ↔ Ends m s fun s' r => Q s' (.ok r) := by
  simp only [Ends, finish, attempt, EStateM.run]
  cases m s <;> rfl

lemma Ends.ite [Decidable c] {m} (h : c → Ends m s Q) (h' : ¬ c → Ends m' s Q) :
    Ends (if c then m else m') s Q := by
  split
  · exact h ‹_›
  · exact h' ‹_›

/-! ## What a program gives -/

/-- Started in `s`, the program gives `a` and ends in `s'`. -/
def Gives (m : EStateM ε σ α) (s : σ) (a : α) (s' : σ) : Prop := m.run s = .ok a s'

variable {a : α} {b : β} {s' : σ}

lemma gives_bind : Gives (m >>= k) s b s' ↔ ∃ a s1, Gives m s a s1 ∧ Gives (k a) s1 b s' := by
  simp only [Gives, bind, EStateM.bind, EStateM.run]
  rcases m s with ⟨a, s1⟩ | ⟨e, s1⟩
  · constructor
    · exact fun h => ⟨a, s1, rfl, h⟩
    rintro ⟨a', s2, heq, h⟩
    obtain ⟨rfl, rfl⟩ := EStateM.Result.ok.inj heq
    exact h
  · constructor
    · exact fun h => by contradiction
    rintro ⟨a', s2, heq, -⟩
    contradiction

lemma gives_pure {a'} : Gives (pure a : EStateM ε σ α) s a' s' ↔ a = a' ∧ s = s' :=
  EStateM.Result.ok.injEq .. ▸ Iff.rfl

lemma not_gives_throw : ¬Gives (throw e : EStateM ε σ α) s a s' := fun h => by
  simp only [Gives] at h
  contradiction

lemma Gives.guard {c} [Decidable c] {e} (h : Gives (if c then throw e else m) s a s') : ¬c ∧
    Gives m s a s' := by
  split at h
  · exact absurd h not_gives_throw
  · exact ⟨‹_›, h⟩

lemma gives_attempt : Gives (attempt m) s r s' ↔ finish m s = (s', r) := by
  simp only [Gives, attempt, finish, EStateM.run]
  rcases m s with ⟨a, s1⟩ | ⟨e, s1⟩
  · constructor
    · intro h
      obtain ⟨rfl, rfl⟩ := EStateM.Result.ok.inj h
      rfl
    intro h
    obtain ⟨rfl, rfl⟩ := Prod.mk.inj h
    rfl
  constructor
  · intro h
    obtain ⟨rfl, rfl⟩ := EStateM.Result.ok.inj h
    rfl
  intro h
  obtain ⟨rfl, rfl⟩ := Prod.mk.inj h
  rfl

lemma Gives.finish (h : Gives m s a s') : Exits.finish m s = (s', .ok a) := by
  rw [Exits.finish, h]

lemma gives_of_finish (h : Exits.finish m s = (s', .ok a)) : Gives m s a s' := by
  rw [Exits.finish] at h
  split at h
  · next heq =>
    obtain ⟨rfl, ha⟩ := Prod.mk.inj h
    obtain rfl := Except.ok.inj ha
    exact heq
  · have herr := congrArg Prod.snd h
    contradiction

lemma Gives.of_ends (h : Gives m s a s') (he : Ends m s Q) : Q s' (.ok a) := by
  rw [Ends, h.finish] at he
  exact he

lemma Gives.of_attempt (h : Gives (attempt m) s r s') (he : Ends m s Q) : Q s' r := by
  rw [Ends, gives_attempt.1 h] at he
  exact he

/-! ## What a program keeps -/

/-- Whatever it answers, the program keeps `P`. -/
def Keeps (P : σ → Prop) (m : EStateM ε σ α) : Prop := ∀ s, P s → Ends m s fun s' _ => P s'

variable {P : σ → Prop}

lemma Keeps.gives_bind (hm : Keeps P m) (hs : P s) (h : Gives (m >>= k) s b s') :
    ∃ a s1, P s1 ∧ Gives (k a) s1 b s' := by
  obtain ⟨a, s1, hfirst, hthen⟩ := Exits.gives_bind.1 h
  exact ⟨a, s1, hfirst.of_ends (hm s hs), hthen⟩

lemma Keeps.pure (a) : Keeps P (Pure.pure a : EStateM ε σ α) := fun _ h => h

lemma Keeps.throw (e) : Keeps P (throw e : EStateM ε σ α) := fun _ h => h

lemma Keeps.bind (hm : Keeps P m) (hk : ∀ a, Keeps P (k a)) : Keeps P (m >>= k) :=
  fun s h => (hm s h).bind (fun s' a => hk a s') fun _ _ h' => h'

lemma Keeps.ite [Decidable c] {m} (h : Keeps P m) (h' : Keeps P m') :
    Keeps P (if c then m else m') := by
  split
  · exact h
  · exact h'

lemma Keeps.lift (h : ∀ s, P s → P (f s).1) : Keeps P (Exits.lift f) :=
  fun s hs => ends_lift.2 (h s hs)

lemma Keeps.attempt (h : Keeps P m) : Keeps P (Exits.attempt m) :=
    fun s hs => ends_attempt.2 (h s hs)

/-! ## What does not depend on the state -/

/-- From all states that satisfy `P` the answer is the same, and the program keeps `P`. -/
structure Steady (P : σ → Prop) (m : EStateM ε σ α) : Prop where
  keeps : Keeps P m
  same : ∀ {s s'}, P s → P s' → (finish m s).2 = (finish m s').2

lemma Steady.pure (a) : Steady P (Pure.pure a : EStateM ε σ α) := ⟨.pure a, fun _ _ => rfl⟩

lemma Steady.throw (e) : Steady P (throw e : EStateM ε σ α) := ⟨.throw e, fun _ _ => rfl⟩

lemma Steady.of_ends {f : Except ε α} (h : ∀ s, P s → Ends m s fun s' r => P s' ∧ r = f) :
    Steady P m :=
  ⟨fun s hs => (h s hs).1, fun hs hs' => (h _ hs).2.trans (h _ hs').2.symm⟩

lemma Steady.ends (h : Steady P m) {s0 : σ} (h0 : P s0) (hs : P s) : Ends m s fun s' r => P s' ∧
    r = (finish m s0).2 :=
  ⟨h.keeps s hs, h.same hs h0⟩

lemma Steady.lift (h : ∀ s, P s → P (f s).1)
    (hsame : ∀ s s', P s → P s' → (f s).2 = (f s').2) : Steady P (Exits.lift f) := by
  refine ⟨.lift h, fun {s s'} hs hs' => ?_⟩
  rw [finish_lift, finish_lift]
  exact hsame s s' hs hs'

lemma Steady.bind (hm : Steady P m) (hk : ∀ a, Steady P (k a)) : Steady P (m >>= k) := by
  refine ⟨hm.keeps.bind fun a => (hk a).keeps, fun {s s'} hs hs' => ?_⟩
  have hsame := hm.same hs hs'
  have hkeep : P (finish m s).1 := hm.keeps s hs
  have hkeep' : P (finish m s').1 := hm.keeps s' hs'
  rw [finish_bind, finish_bind]
  rcases hfin : finish m s with ⟨s1, r⟩
  rcases hfin' : finish m s' with ⟨s2, r'⟩
  rw [hfin] at hsame hkeep
  rw [hfin'] at hsame hkeep'
  obtain rfl : r = r' := hsame
  rcases r with e | a
  · rfl
  · exact (hk a).same hkeep hkeep'

lemma finish_attempt (m : EStateM ε σ α) (s) :
    finish (attempt m) s = ((finish m s).1, .ok (finish m s).2) := by
  simp only [finish, attempt, EStateM.run]
  rcases m s with ⟨a, s1⟩ | ⟨e, s1⟩ <;> rfl

lemma Steady.attempt (h : Steady P m) : Steady P (Exits.attempt m) := by
  refine ⟨h.keeps.attempt, fun hs hs' => ?_⟩
  rw [finish_attempt, finish_attempt, h.same hs hs']

/-! ## Statement by statement -/

/-- A property that a program has if its statements have it. -/
structure Composes (Q : ∀ α : Type, EStateM ε σ α → Prop) : Prop where
  pure : ∀ {α : Type} (a : α), Q α (Pure.pure a)
  throw : ∀ {α : Type} (e : ε), Q α (throw e)
  bind : ∀ {α β : Type} {m : EStateM ε σ α} {k : α → EStateM ε σ β}, Q α m → (∀ a, Q β (k a)) →
    Q β (m >>= k)

lemma Composes.ite {Q : ∀ α : Type, EStateM ε σ α → Prop} (_hQ : Composes Q) [Decidable c]
    {m} (h : Q α m) (h' : Q α m') : Q α (if c then m else m') := by
  split
  · exact h
  · exact h'

lemma composes_keeps (P : σ → Prop) : Composes fun α (m : EStateM ε σ α) => Keeps P m :=
    ⟨.pure, .throw, .bind⟩

lemma composes_steady (P : σ → Prop) : Composes fun α (m : EStateM ε σ α) => Steady P m :=
    ⟨.pure, .throw, .bind⟩

end Sage040.Exits
