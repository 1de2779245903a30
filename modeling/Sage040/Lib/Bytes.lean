import Mathlib

/-!
# Byte buffers and big-endian words

A buffer is a function from offsets to bytes. Programs that parse or build on-disk and in-memory
records touch a buffer in two ways only: they read a big-endian word at an offset, and they store
one. This file has the four accessors and the two families of facts every layout proof uses —
reading a word back where it was stored, and reading a word that a store elsewhere did not touch.

Nothing here says how long a buffer is. The length is a parameter of the program that owns it,
and where it matters the program compares offsets against it.
-/

/-- The contents of a buffer, by offset. -/
abbrev Bytes := Nat → UInt8

namespace Bytes

open UInt8

def zero : Bytes := fun _ => 0

/-- The four bytes at `o`, most significant first. -/
def be32 (b : Bytes) (o : Nat) : Nat :=
  (b o).toNat * 2 ^ 24 + (b (o + 1)).toNat * 2 ^ 16 + (b (o + 2)).toNat * 2 ^ 8 + (b (o + 3)).toNat

/-- The two bytes at `o`, most significant first. -/
def be16 (b : Bytes) (o : Nat) : Nat := (b o).toNat * 2 ^ 8 + (b (o + 1)).toNat

/-- Store the low 32 bits of `v` at `o`, most significant byte first. -/
def putBe32 (b : Bytes) (o v : Nat) : Bytes := fun i =>
  if i = o then UInt8.ofNat (v / 2 ^ 24)
  else if i = o + 1 then UInt8.ofNat (v / 2 ^ 16)
  else if i = o + 2 then UInt8.ofNat (v / 2 ^ 8)
  else if i = o + 3 then UInt8.ofNat v
  else b i

/-- Store the low 16 bits of `v` at `o`, most significant byte first. -/
def putBe16 (b : Bytes) (o v : Nat) : Bytes := fun i =>
  if i = o then UInt8.ofNat (v / 2 ^ 8) else if i = o + 1 then UInt8.ofNat v else b i

/-- Copy `n` bytes of `src` (from its offset `from_`) over `b` at `o`. -/
def blit (b : Bytes) (o : Nat) (src : Bytes) (from_ n : Nat) : Bytes := fun i =>
  if o ≤ i ∧ i < o + n then src (i - o + from_) else b i

def wordBytes (w : Nat → Nat) : Bytes := fun i => UInt8.ofNat (w (i / 4) / 2 ^ (8 * (3 - i % 4)))

/-! ## Words read depend on their own bytes only -/

variable {c src : Bytes} {o v i n k p : Nat}

variable {b : Bytes} {s : Nat}

lemma be32_congr (h : ∀ i, o ≤ i → i < o + 4 → b i = c i) : be32 b o = be32 c o := by
  simp only [be32, h o (by omega) (by omega), h (o + 1) (by omega) (by omega),
    h (o + 2) (by omega) (by omega), h (o + 3) (by omega) (by omega)]

lemma be16_congr (h : ∀ i, o ≤ i → i < o + 2 → b i = c i) : be16 b o = be16 c o := by
  simp only [be16, h o (by omega) (by omega), h (o + 1) (by omega) (by omega)]

lemma be32_lt (b) (o) : be32 b o < 2 ^ 32 := by
  have h0 := (b o).toNat_lt
  have h1 := (b (o + 1)).toNat_lt
  have h2 := (b (o + 2)).toNat_lt
  have h3 := (b (o + 3)).toNat_lt
  rw [be32]
  omega

lemma be16_lt (b) (o) : be16 b o < 2 ^ 16 := by
  have h0 := (b o).toNat_lt
  have h1 := (b (o + 1)).toNat_lt
  rw [be16]
  omega

/-! ## What a store does to the bytes -/

variable {b : Bytes}

lemma putBe32_of_ne (h : i < o ∨ o + 4 ≤ i) : putBe32 b o v i = b i := by
  rw [putBe32, if_neg (by omega), if_neg (by omega), if_neg (by omega), if_neg (by omega)]

lemma putBe16_of_ne (h : i < o ∨ o + 2 ≤ i) : putBe16 b o v i = b i := by
  rw [putBe16, if_neg (by omega), if_neg (by omega)]

lemma blit_of_ne {b} (h : i < o ∨ o + n ≤ i) : blit b o src s n i = b i := by
  rw [blit, if_neg (by omega)]

lemma blit_inside {b} (h : k < n) : blit b o src 0 n (o + k) = src k := by
  rw [blit, if_pos (by omega)]
  congr 1
  omega

lemma blit_zero (b o src) (s) : blit b o src s 0 = b := by
  funext i
  exact blit_of_ne (by omega)

lemma blit_blit (b o src) (s n m : Nat) : blit (blit b o src s n)
    (o + n) src (s + n) m = blit b o src s (n + m) := by
  funext i
  simp only [blit]
  by_cases h1 : o + n ≤ i ∧ i < o + n + m
  · rw [if_pos h1, if_pos (by omega)]
    congr 1
    omega
  rw [if_neg h1]
  by_cases h2 : o ≤ i ∧ i < o + n
  · rw [if_pos h2, if_pos (by omega)]
  · rw [if_neg h2, if_neg (by omega)]

/-! ## Reading back what was stored -/

@[simp] lemma be32_putBe32 (b o v) : be32 (putBe32 b o v) o = v % 2 ^ 32 := by
  have h0 : putBe32 b o v o = ofNat (v / 2 ^ 24) := if_pos rfl
  have h1 : putBe32 b o v (o + 1) = ofNat (v / 2 ^ 16) := by
    rw [putBe32, if_neg (by omega), if_pos rfl]
  have h2 : putBe32 b o v (o + 2) = ofNat (v / 2 ^ 8) := by
    rw [putBe32, if_neg (by omega), if_neg (by omega), if_pos rfl]
  have h3 : putBe32 b o v (o + 3) = ofNat v := by
    rw [putBe32, if_neg (by omega), if_neg (by omega), if_neg (by omega), if_pos rfl]
  simp only [be32, h0, h1, h2, h3, toNat_ofNat']
  omega

@[simp] lemma be16_putBe16 (b o v) : be16 (putBe16 b o v) o = v % 2 ^ 16 := by
  have h1 : ¬ o + 1 = o := by omega
  simp only [be16, putBe16, h1, if_true, if_false, toNat_ofNat']
  omega

lemma be32_putBe32_of_disjoint (h : p + 4 ≤ o ∨ o + 4 ≤ p) : be32 (putBe32 b o v) p = be32 b p :=
  be32_congr fun _ h1 h2 => putBe32_of_ne (by omega)

lemma be32_putBe16_of_disjoint (h : p + 4 ≤ o ∨ o + 2 ≤ p) : be32 (putBe16 b o v) p = be32 b p :=
  be32_congr fun _ h1 h2 => putBe16_of_ne (by omega)

lemma be32_blit_wordBytes {mem : Bytes} {w : Nat → Nat} {va : Nat} (h : k < n) :
    be32 (blit mem va (wordBytes w) 0 (n * 4)) (va + k * 4) = w k % 2 ^ 32 := by
  have hb : ∀ j < 4, blit mem va (wordBytes w) 0 (n * 4) (va + k * 4 + j) =
      ofNat (w k / 2 ^ (8 * (3 - j))) := by
    intro j hj
    rw [Nat.add_assoc, blit_inside (by omega), wordBytes]
    congr 3
    · omega
    · omega
  have h0 := hb 0 (by decide)
  rw [Nat.add_zero] at h0
  simp only [be32, h0, hb 1 (by decide), hb 2 (by decide), hb 3 (by decide), toNat_ofNat']
  omega

lemma putBe32_be32_self (b o) : putBe32 b o (be32 b o) = b := by
  have h0 := (b o).toNat_lt
  have h1 := (b (o + 1)).toNat_lt
  have h2 := (b (o + 2)).toNat_lt
  have h3 := (b (o + 3)).toNat_lt
  funext i
  rw [putBe32]
  iterate 4
    split
    · rename_i h
      rw [h, ← UInt8.toNat_inj, UInt8.toNat_ofNat', be32]
      omega
  · rfl

/-- Two stores of words at the same offset: the second one stands. -/
lemma putBe32_putBe32 (b) (o v w : Nat) : putBe32 (putBe32 b o v) o w = putBe32 b o w := by
  funext i
  simp only [putBe32]
  split_ifs <;> rfl

end Bytes
