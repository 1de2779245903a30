import Mathlib

/-!
# Counting over a table

`tally n f t` adds up what the first `n` entries of a table count for. Changing one entry changes
the sum by the difference of what the entry counts for (`tally_update`), which is all that reference
counting comes to.

A `Grid` is a table laid out in rows, none of which shares a place with another; its rows and the
whole are counted.
-/

namespace Tally

open Function Finset

variable {α : Type} {n i : Nat} {f : α → Nat} {t : Nat → α}

def tally (n : Nat) (f : α → Nat) (t : Nat → α) : Nat := ∑ i ∈ Finset.range n, f (t i)

lemma tally_update (f t) (hi : i < n) (x : α) :
    tally n f (update t i x) + f (t i) = tally n f t + f x := by
  have hmem := mem_range.2 hi
  have hcomp : (fun j => f (update t i x j)) = update (fun j => f (t j)) i (f x) := by
    funext j
    exact Function.apply_update (fun _ => f) t i x j
  rw [tally, tally, hcomp, sum_update_of_mem hmem, ← add_sum_erase _ _ hmem,
    sdiff_singleton_eq_erase]
  omega

lemma le_tally (f : α → Nat) (t) (hi : i < n) : f (t i) ≤ tally n f t :=
  single_le_sum (f := fun i => f (t i)) (fun _ _ => Nat.zero_le _) (mem_range.2 hi)

lemma tally_eq_zero : tally n f t = 0 ↔ ∀ i < n, f (t i) = 0 := by
  simp [tally, sum_eq_zero_iff]

lemma tally_congr {t'} (h : ∀ i < n, t i = t' i) : tally n f t = tally n f t' :=
  sum_congr rfl fun i hi => congrArg f (h i (mem_range.1 hi))

lemma tally_le_tally {β : Type} {g : β → Nat} {u : Nat → β} (h : ∀ i < n, f (t i) ≤ g (u i)) :
    tally n f t ≤ tally n g u :=
  sum_le_sum fun i hi => h i (mem_range.1 hi)

lemma tally_le (h : ∀ x, f x ≤ 1) : tally n f t ≤ n :=
  (sum_le_card_nsmul _ _ 1 fun _ _ => h _).trans (by simp)

lemma tally_succ (n : Nat) (f : α → Nat) (t : Nat → α) :
    tally (n + 1) f t = tally n f t + f (t n) :=
  sum_range_succ ..

lemma tally_const (n f) (x : α) : tally n f (fun _ => x) = n * f x := by
  simp [tally]

/-! ## Tables in rows -/

/-- `rows` rows, of which row `i` has `len i` places. -/
structure Grid where
  rows : Nat
  len : Nat → Nat
  addr : Nat → Nat → Nat
  inj : ∀ i < rows, ∀ j < rows, ∀ k < len i, ∀ l < len j, addr i k = addr j l → i = j ∧ k = l

namespace Grid

variable {G : Grid} {u : Nat → α} {k j : Nat} {x : α}

/-- What row `i` counts for. -/
def row (G : Grid) (f : α → Nat) (u : Nat → α) (i : Nat) : Nat :=
    tally (G.len i) f fun k => u (G.addr i k)

def total (G : Grid) (f : α → Nat) (u : Nat → α) : Nat := tally G.rows id (G.row f u)

lemma row_update_self (hi : i < G.rows) (hk : k < G.len i) :
    G.row f (update u (G.addr i k) x) i + f (u (G.addr i k)) = G.row f u i + f x := by
  have hrow : G.row f (update u (G.addr i k) x) i =
      tally (G.len i) f (update (fun l => u (G.addr i l)) k x) := by
    refine tally_congr fun l hl => ?_
    by_cases hlk : l = k
    · subst hlk
      simp
    · have hne : G.addr i l ≠ G.addr i k := fun h => hlk (G.inj i hi i hi l hl k hk h).2
      simp only [update_of_ne hne, update_of_ne hlk]
  rw [hrow]
  exact tally_update f (fun l => u (G.addr i l)) hk x

lemma row_update_of_ne (hi : i < G.rows) (hk : k < G.len i) (hj : j < G.rows) (hji : j ≠ i) :
    G.row f (update u (G.addr i k) x) j = G.row f u j :=
  tally_congr fun l hl => update_of_ne (fun h => hji (G.inj j hj i hi l hl k hk h).1) _ _

lemma total_update (hi : i < G.rows) (hk : k < G.len i) :
    G.total f (update u (G.addr i k) x) + f (u (G.addr i k)) = G.total f u + f x := by
  have htotal : G.total f (update u (G.addr i k) x) = tally G.rows id (update (G.row f u) i
        (G.row f (update u (G.addr i k) x) i)) := by
    refine tally_congr fun j hj => ?_
    by_cases hji : j = i
    · subst hji
      rw [update_self]
    · rw [update_of_ne hji, row_update_of_ne hi hk hj hji]
  have hsum := tally_update id (G.row f u) hi (G.row f (update u (G.addr i k) x) i)
  have hrow := row_update_self (f := f) (u := u) (x := x) hi hk
  rw [htotal]
  simp only [id, total] at hsum ⊢
  omega

lemma row_le (hf : ∀ x, f x ≤ 1) : G.row f u i ≤ G.len i := tally_le hf

lemma total_le (hf : ∀ x, f x ≤ 1) : G.total f u ≤ tally G.rows id G.len :=
  tally_le_tally fun _ _ => row_le hf

lemma le_row (hk : k < G.len i) : f (u (G.addr i k)) ≤ G.row f u i :=
  le_tally f (fun k => u (G.addr i k)) hk

lemma le_total (hi : i < G.rows) (hk : k < G.len i) : f (u (G.addr i k)) ≤ G.total f u :=
  (le_row hk).trans (le_tally id (G.row f u) hi)

end Grid

end Tally
