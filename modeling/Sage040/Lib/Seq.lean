import Mathlib

/-!
# Sequence numbers

A sequence number is a 32-bit word, and numbers are compared by the sign of their difference. That
is an order only among numbers that lie close together: `off base x` is how far `x` is past `base`,
and among numbers less than `2 ^ 31` past one base the comparisons are those of the offsets.
-/

/-- A 32-bit sequence number, or a time in ticks. -/
abbrev SeqNum := BitVec 32

namespace SeqNum

open BitVec

/-- `(s32)(a - b) > 0`. -/
def gt (a b : SeqNum) : Bool := decide (0 < (a - b).toNat ∧ (a - b).toNat < 2 ^ 31)

/-- `(s32)(a - b) <= 0`. -/
def le (a b : SeqNum) : Bool := !gt a b

/-- `(s32)(a - b) >= 0`. -/
def ge (a b : SeqNum) : Bool := decide ((a - b).toNat < 2 ^ 31)

/-- How far `x` is past `base`. -/
def off (base x : SeqNum) : Nat := (x - base).toNat

variable {base x y : SeqNum} {n : Nat}

@[simp] lemma off_self (x) : off x x = 0 := by simp [off]

lemma off_lt (base x) : off base x < 2 ^ 32 := isLt _

lemma off_eq_zero : off base x = 0 ↔ x = base := by
  rw [off]
  constructor <;> intro h <;> bv_omega

lemma gt_base_iff : gt x base = true ↔ 0 < off base x ∧ off base x < 2 ^ 31 := by
  simp [gt, off]

section

variable (base) (hx : off base x < 2 ^ 31) (hy : off base y < 2 ^ 31)

include hx hy

lemma gt_iff_off : gt x y = true ↔ off base y < off base x := by
  simp only [gt, off, decide_eq_true_eq] at *
  bv_omega

lemma le_iff_off : le x y = true ↔ off base x ≤ off base y := by
  rw [le, Bool.not_eq_true', ← Bool.not_eq_true, gt_iff_off base hx hy, Nat.not_lt]

lemma ge_iff_off : ge x y = true ↔ off base y ≤ off base x := by
  simp only [ge, off, decide_eq_true_eq] at *
  bv_omega

lemma off_lower : off base (if gt x y then y else x) = min (off base y) (off base x) := by
  have hgt := gt_iff_off base hx hy
  split <;> rename_i h <;> rw [hgt] at h <;> omega

lemma off_higher : off base (if gt x y then x else y) = max (off base x) (off base y) := by
  have hgt := gt_iff_off base hx hy
  split <;> rename_i h <;> rw [hgt] at h <;> omega

end

/-- Going on from `x`. -/
lemma off_add (h : off base x + n < 2 ^ 32) :
    off base (x + BitVec.ofNat 32 n) = off base x + n := by
  simp only [off] at *
  have hn : (BitVec.ofNat 32 n).toNat = n := by
    rw [BitVec.toNat_ofNat, Nat.mod_eq_of_lt (by omega)]
  bv_omega

lemma off_base_add (h : n < 2 ^ 32) : off base (base + BitVec.ofNat 32 n) = n := by
  rw [off_add (by rwa [off_self, Nat.zero_add]), off_self, Nat.zero_add]

lemma add_off (base x) : base + BitVec.ofNat 32 (off base x) = x := by
  simp only [off, ofNat_toNat, setWidth_eq]
  bv_omega

/-- What is left of `n` numbers past `x`. -/
lemma add_sub_off (h : off base x ≤ n) : x + BitVec.ofNat 32 (n - off base x) = base +
    BitVec.ofNat 32 n := by
  calc x + BitVec.ofNat 32 (n - off base x)
      = base + BitVec.ofNat 32 (off base x) + BitVec.ofNat 32 (n - off base x) := by rw [add_off]
    _ = base + BitVec.ofNat 32 n := by
      rw [BitVec.add_assoc, ← BitVec.ofNat_add, Nat.add_sub_cancel' h]

lemma pred_of_off (h : off base x = n + 1) : x - 1 = base + BitVec.ofNat 32 n := by
  have hx := add_off base x
  rw [h, ofNat_add, ← add_assoc] at hx
  rw [← hx]
  exact add_sub_cancel _ _

lemma sub_toNat (h : off base y ≤ off base x) : (x - y).toNat = off base x - off base y := by
  simp only [off] at *
  bv_omega

/-! ## Numbers of a stream

The number of place `a` of a stream that starts at `base`; places less than `2 ^ 31` apart are told
apart. -/

section Stream

variable {a b : Nat}

lemma add_sub_add (base a b) :
    (base + BitVec.ofNat 32 a - (base + BitVec.ofNat 32 b)).toNat =
    (a + (2 ^ 32 - b % 2 ^ 32)) % 2 ^ 32 := by
  simp only [toNat_sub, toNat_add, toNat_ofNat]
  omega

lemma gt_add_iff (base) (h : a < b + 2 ^ 31) (h' : b < a + 2 ^ 31) :
    gt (base + BitVec.ofNat 32 a) (base + BitVec.ofNat 32 b) = true ↔ b < a := by
  rw [gt, decide_eq_true_eq, add_sub_add]
  omega

lemma add_inj_iff (base) (h : a < b + 2 ^ 31) (h' : b < a + 2 ^ 31) :
    base + BitVec.ofNat 32 a = base + BitVec.ofNat 32 b ↔ a = b := by
  constructor
  · intro heq
    have hsub := add_sub_add base a b
    rw [heq, BitVec.sub_self] at hsub
    simp only [BitVec.toNat_ofNat] at hsub
    omega
  · rintro rfl
    rfl

end Stream

/-- Moving the base on to `y`. -/
lemma off_rebase (h : off base y ≤ off base x) : off y x = off base x - off base y := sub_toNat h

end SeqNum
