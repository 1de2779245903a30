import Sage040.Lib.Bytes

/-!
# Little-endian numbers

The fields of a little-endian format, read and stored a byte at a time: `le b o k` is the number in
the `k` bytes of `b` at `o`, and `putLe b o k v` stores one there. What is stored is read back
(`le_putLe`), and a store elsewhere does not show (`le_putLe_of_disjoint`).
-/

namespace Bytes

/-- The number in the `k` bytes at `o`. -/
def le (b : Bytes) (o : Nat) : Nat → Nat
  | 0 => 0
  | k + 1 => (b o).toNat + 256 * le b (o + 1) k

/-- Stores the low `k` bytes of `v` at `o`. -/
def putLe (b : Bytes) (o k v : Nat) : Bytes := fun i =>
  if o ≤ i ∧ i < o + k then UInt8.ofNat (v / 256 ^ (i - o)) else b i

def le16 (b : Bytes) (o : Nat) : Nat := b.le o 2
def le32 (b : Bytes) (o : Nat) : Nat := b.le o 4
def putLe16 (b : Bytes) (o v : Nat) : Bytes := b.putLe o 2 v
def putLe32 (b : Bytes) (o v : Nat) : Bytes := b.putLe o 4 v

variable {b c : Bytes} {o p k l v i : Nat}

lemma le_congr (h : ∀ i, o ≤ i → i < o + k → b i = c i) : b.le o k = c.le o k := by
  induction k generalizing o with
  | zero => rfl
  | succ k ih =>
    rw [le, le, h o (Nat.le_refl o) (by omega), ih fun i hi hlt => h i (by omega) (by omega)]

lemma le_lt (b : Bytes) (o k) : b.le o k < 256 ^ k := by
  induction k generalizing o with
  | zero => exact Nat.one_pos
  | succ k ih =>
    have h1 := ih (o + 1)
    have h2 : (b o).toNat < 256 := (b o).toNat_lt
    rw [le, Nat.pow_succ]
    omega

lemma putLe_of_ne (h : i < o ∨ o + k ≤ i) : b.putLe o k v i = b i := if_neg (by omega)

lemma le_putLe_of_disjoint (h : p + l ≤ o ∨ o + k ≤ p) : (b.putLe o k v).le p l = b.le p l :=
  le_congr fun _ _ _ => putLe_of_ne (by omega)

lemma le_putLe (b : Bytes) (o k v) : (b.putLe o k v).le o k = v % 256 ^ k := by
  induction k generalizing b o v with
  | zero => exact (Nat.mod_one v).symm
  | succ k ih =>
    have htail : (b.putLe o (k + 1) v).le (o + 1) k = (b.putLe (o + 1) k (v / 256)).le (o + 1) k :=
        by
      refine le_congr fun i hi hlt => ?_
      rw [putLe, putLe, if_pos (by omega), if_pos (by omega), Nat.div_div_eq_div_mul,
        ← Nat.pow_succ', show (i - (o + 1)).succ = i - o by omega]
    have hhead : (b.putLe o (k + 1) v o).toNat = v % 256 := by
      rw [putLe, if_pos (by omega), Nat.sub_self, Nat.pow_zero, Nat.div_one]
      exact UInt8.toNat_ofNat'
    rw [le, hhead, htail, ih, Nat.pow_succ', Nat.mod_mul]

lemma le16_lt (b : Bytes) (o) : b.le16 o < 2 ^ 16 := le_lt b o 2

lemma le32_putLe32 (h : v < 2 ^ 32) : (b.putLe32 o v).le32 o = v :=
  (le_putLe b o 4 v).trans (Nat.mod_eq_of_lt h)

lemma le16_putLe16 (h : v < 2 ^ 16) : (b.putLe16 o v).le16 o = v :=
  (le_putLe b o 2 v).trans (Nat.mod_eq_of_lt h)

@[simp] lemma le_zero (o k) : (zero : Bytes).le o k = 0 := by
  induction k generalizing o with
  | zero => rfl
  | succ k ih => rw [le, ih]; rfl

end Bytes
