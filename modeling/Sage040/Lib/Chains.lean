import Mathlib

/-!
# Chains of who waits for whom

Two facts about waiting. A relation without a circle gets none from one more pair `p → q` unless `q`
reached `p` before (`acyclic_insert`). And where everybody waits for at most one other, a chain is
an orbit of a function: one that ends where nobody waits visits nobody twice, so it is no longer
than there are waiters (`chain_length`).
-/

namespace Chains

open Relation

variable {α : Type} {R R' : α → α → Prop} {p q x y : α}

/-- A path that may use one pair more, cut at the last use of it. -/
lemma transGen_insert (hsub : ∀ a b, R' a b → R a b ∨ (a = p ∧ b = q)) (h : TransGen R' x y) :
    TransGen R x y ∨ (ReflTransGen R x p ∧ ReflTransGen R q y) := by
  induction h with
  | single hxy =>
    rcases hsub _ _ hxy with h | ⟨rfl, rfl⟩
    · exact .inl (.single h)
    · exact .inr ⟨.refl, .refl⟩
  | tail _ hyz ih =>
    rcases hsub _ _ hyz with h | ⟨rfl, rfl⟩
    · exact ih.imp (·.tail h) fun ⟨hxp, hqy⟩ => ⟨hxp, hqy.tail h⟩
    · exact .inr ⟨ih.elim TransGen.to_reflTransGen And.left, .refl⟩

lemma acyclic_insert (hsub : ∀ a b, R' a b → R a b ∨ (a = p ∧ b = q))
    (hacyclic : ∀ a, ¬ TransGen R a a) (hpath : ¬ ReflTransGen R q p) (a : α) :
    ¬ TransGen R' a a := by
  intro h
  rcases transGen_insert hsub h with h | ⟨hap, hqa⟩
  · exact hacyclic a h
  · exact hpath (hqa.trans hap)

/-! ## Waiting for one -/

variable {f : α → α} {A : List α} {n : Nat}

/-- A chain through members of `A`, as an orbit. -/
lemma iterate_of_chain (h : ReflTransGen (fun a b => a ∈ A ∧ f a = b) q p) :
    ∃ n, f^[n] q = p ∧ ∀ i < n, f^[i] q ∈ A := by
  induction h using ReflTransGen.head_induction_on with
  | refl => exact ⟨0, rfl, fun i hi => absurd hi (Nat.not_lt_zero i)⟩
  | head hab _ ih =>
    obtain ⟨ha, rfl⟩ := hab
    obtain ⟨n, hn, hall⟩ := ih
    refine ⟨n + 1, hn, fun i hi => ?_⟩
    cases i with
    | zero => exact ha
    | succ i => exact hall i (Nat.lt_of_succ_lt_succ hi)

/-- An orbit that ends outside `A` visits nobody twice on the way. -/
lemma nodup_orbit (hend : f^[n] q = p) (hp : p ∉ A) (hall : ∀ i < n, f^[i] q ∈ A) :
    ((List.range n).map fun i => f^[i] q).Nodup := by
  have hlt : ∀ i j, i < j → j < n → f^[i] q ≠ f^[j] q := by
    intro i j hij hj heq
    -- from the second visit on it is as from the first, so the end comes too early
    have hearly : f^[n - j + i] q = p := by
      rw [Function.iterate_add_apply, heq, ← Function.iterate_add_apply,
        Nat.sub_add_cancel (Nat.le_of_lt hj), hend]
    exact hp (hearly ▸ hall (n - j + i) (by omega))
  refine List.Nodup.map_on (fun i hi j hj heq => ?_) List.nodup_range
  rw [List.mem_range] at hi hj
  rcases Nat.lt_trichotomy i j with h | h | h
  · exact absurd heq (hlt i j h hj)
  · exact h
  · exact absurd heq.symm (hlt j i h hi)

/-- **A chain that ends outside `A` is no longer than `A`.** -/
lemma chain_length (h : ReflTransGen (fun a b => a ∈ A ∧ f a = b) q p) (hp : p ∉ A) :
    ∃ n ≤ A.length, f^[n] q = p ∧ ∀ i < n, f^[i] q ∈ A := by
  obtain ⟨n, hend, hall⟩ := iterate_of_chain h
  have hsub : ((List.range n).map fun i => f^[i] q) ⊆ A := by
    intro a ha
    obtain ⟨i, hi, rfl⟩ := List.mem_map.1 ha
    exact hall i (List.mem_range.1 hi)
  have hle := ((nodup_orbit hend hp hall).subperm hsub).length_le
  rw [List.length_map, List.length_range] at hle
  exact ⟨n, hle, hend, hall⟩

end Chains
