import Mathlib

/-!
# Runs of a state machine

A machine is a function `step` from a state and an event to the next state. `Every` says that
something holds of each event of a run, in the state that it happens in. The two rules are the ones
every safety argument uses: an invariant that the events of a run keep holds at its end
(`induction_on`), and what the invariant says of one event holds of all of them
(`every_of_invariant`).
-/

namespace Runs

variable {σ ε : Type} {step : σ → ε → σ} {P Q : σ → ε → Prop} {I : σ → Prop}

/-- `P` holds of every event of a run. -/
def Every (step : σ → ε → σ) (P : σ → ε → Prop) : List ε → σ → Prop
  | [], _ => True
  | e :: es, s => P s e ∧ Every step P es (step s e)

instance decidableEvery [∀ s e, Decidable (P s e)] : ∀ es s, Decidable (Every step P es s)
  | [], _ => isTrue trivial
  | e :: es, s =>
    have := decidableEvery es (step s e)
    inferInstanceAs (Decidable (P s e ∧ Every step P es (step s e)))

lemma induction_on (hstep : ∀ s e, I s → P s e → I (step s e)) (es : List ε) {s : σ} (h : I s)
    (hes : Every step P es s) : I (es.foldl step s) := by
  induction es generalizing s with
  | nil => exact h
  | cons e es ih => exact ih (hstep s e h hes.1) hes.2

lemma every_of_invariant (hstep : ∀ s e, I s → P s e → I (step s e) ∧ Q s e) (es : List ε)
    {s : σ} (h : I s)
    (hes : Every step P es s) : Every step Q es s := by
  induction es generalizing s with
  | nil => trivial
  | cons e es ih =>
    obtain ⟨hI, hQ⟩ := hstep s e h hes.1
    exact ⟨hQ, ih hI hes.2⟩

end Runs
