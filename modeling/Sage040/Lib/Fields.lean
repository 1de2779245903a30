import Sage040.Lib.Bytes

/-!
# Records of fixed-width fields

A C structure is a run of bytes with fields at known offsets: words of 16 and 32 bits and arrays of
words, big-endian. `put…` stores a field and `get…` reads one. A record is built by storing its
fields one after the other, and reading a field of it back is a matter of passing over the stores
that lie elsewhere: one lemma for each kind of store and read, with a side condition on constants
that `omega` decides.
-/

namespace Bytes

def get16 (b : Bytes) (o : Nat) : UInt16 := UInt16.ofNat (b.be16 o)
def get32 (b : Bytes) (o : Nat) : UInt32 := UInt32.ofNat (b.be32 o)

/-- An array of `n` words. -/
def getWords (b : Bytes) (o n : Nat) : Fin n → UInt32 := fun i => b.get32 (o + i * 4)

def put16 (b : Bytes) (o : Nat) (x : UInt16) : Bytes := b.putBe16 o x.toNat
def put32 (b : Bytes) (o : Nat) (x : UInt32) : Bytes := b.putBe32 o x.toNat

def putWords {n : Nat} (b : Bytes) (o : Nat) (w : Fin n → UInt32) : Bytes :=
  b.blit o (wordBytes fun i => if h : i < n then (w ⟨i, h⟩).toNat else 0) 0 (n * 4)

/-! ## What a read depends on -/

section Congr

variable {b c : Bytes} {o p : Nat}

lemma get16_congr (h : ∀ i < 2, b (o + i) = c (p + i)) : get16 b o = get16 c p := by
  have h0 := h 0 (by decide)
  simp only [get16, be16, h 1 (by decide)]
  rw [Nat.add_zero, Nat.add_zero] at h0
  rw [h0]

lemma get32_congr (h : ∀ i < 4, b (o + i) = c (p + i)) : get32 b o = get32 c p := by
  have h0 := h 0 (by decide)
  simp only [get32, be32, h 1 (by decide), h 2 (by decide), h 3 (by decide)]
  rw [Nat.add_zero, Nat.add_zero] at h0
  rw [h0]

lemma getWords_congr {n : Nat} (h : ∀ i < n * 4, b (o + i) = c (p + i)) :
    getWords b o n = getWords c p n := by
  funext k
  refine get32_congr fun i hi => ?_
  have := h (k * 4 + i) (by omega)
  rwa [← Nat.add_assoc, ← Nat.add_assoc] at this

end Congr

/-- The `n` bytes of `b` at `o` are those of `c` at `p`. -/
def SameAt (n : Nat) (b : Bytes) (o : Nat) (c : Bytes) (p : Nat) : Prop :=
  ∀ i < n, b (o + i) = c (p + i)

section SameAt

variable {b c e : Bytes} {n o p q : Nat}

variable (h : SameAt n b o c p)

include h

lemma SameAt.part {k m : Nat} (hm : k + m ≤ n) : SameAt m b (o + k) c (p + k) := by
  intro i hi
  have := h (k + i) (by omega)
  rwa [← Nat.add_assoc, ← Nat.add_assoc] at this

lemma SameAt.get16 (k : Nat) (hk : k + 2 ≤ n) : b.get16 (o + k) = c.get16 (p + k) :=
    get16_congr (h.part hk)

lemma SameAt.get32 (k : Nat) (hk : k + 4 ≤ n) : b.get32 (o + k) = c.get32 (p + k) :=
    get32_congr (h.part hk)

lemma SameAt.getWords (k m : Nat) (hk : k + m * 4 ≤ n) :
    b.getWords (o + k) m = c.getWords (p + k) m := getWords_congr (h.part hk)

omit h

lemma sameAt_blit (b : Bytes) (o) (src : Bytes) (p n) : SameAt n (b.blit o src p n) o src p := by
  intro i hi
  rw [blit, if_pos (by omega)]
  congr 1
  omega

end SameAt

/-! ## Reading back -/

section Read

variable {b : Bytes} {o p n m : Nat}

@[simp] lemma get16_put16 (x : UInt16) : get16 (put16 b o x) o = x := by
  rw [get16, put16, be16_putBe16, Nat.mod_eq_of_lt x.toNat_lt, UInt16.ofNat_toNat]

@[simp] lemma get32_put32 (x : UInt32) : get32 (put32 b o x) o = x := by
  rw [get32, put32, be32_putBe32, Nat.mod_eq_of_lt x.toNat_lt, UInt32.ofNat_toNat]

variable {w : Fin n → UInt32}

@[simp] lemma getWords_putWords (w) : getWords (putWords b o w) o n = w := by
  funext i
  rw [getWords, get32, putWords, be32_blit_wordBytes i.isLt, dif_pos i.isLt,
    Nat.mod_eq_of_lt (w i).toNat_lt, UInt32.ofNat_toNat]

variable {x : UInt16} {i : Nat}

lemma put16_apply_of_ne (h : i < o ∨ o + 2 ≤ i) : put16 b o x i = b i := putBe16_of_ne h

lemma put32_apply_of_ne {x : UInt32} (h : i < o ∨ o + 4 ≤ i) : put32 b o x i = b i :=
  putBe32_of_ne h

lemma putWords_apply_of_ne (h : i < o ∨ o + n * 4 ≤ i) : putWords b o w i = b i :=
  blit_of_ne h

@[simp] lemma get16_put16_of_disjoint (h : p + 2 ≤ o ∨ o + 2 ≤ p) :
    get16 (put16 b o x) p = get16 b p :=
  get16_congr fun _ _ => put16_apply_of_ne (by omega)

@[simp] lemma get16_put32_of_disjoint {x : UInt32} (h : p + 2 ≤ o ∨ o + 4 ≤ p) :
    get16 (put32 b o x) p = get16 b p :=
  get16_congr fun _ _ => put32_apply_of_ne (by omega)

@[simp] lemma get16_putWords_of_disjoint (h : p + 2 ≤ o ∨ o + n * 4 ≤ p) :
    get16 (putWords b o w) p = get16 b p :=
  get16_congr fun _ _ => putWords_apply_of_ne (by omega)

@[simp] lemma get32_put16_of_disjoint (h : p + 4 ≤ o ∨ o + 2 ≤ p) :
    get32 (put16 b o x) p = get32 b p :=
  get32_congr fun _ _ => put16_apply_of_ne (by omega)

@[simp] lemma get32_put32_of_disjoint {x : UInt32} (h : p + 4 ≤ o ∨ o + 4 ≤ p) :
    get32 (put32 b o x) p = get32 b p :=
  get32_congr fun _ _ => put32_apply_of_ne (by omega)

@[simp] lemma get32_putWords_of_disjoint (h : p + 4 ≤ o ∨ o + n * 4 ≤ p) :
    get32 (putWords b o w) p = get32 b p :=
  get32_congr fun _ _ => putWords_apply_of_ne (by omega)

@[simp] lemma getWords_put16_of_disjoint (h : p + m * 4 ≤ o ∨ o + 2 ≤ p) :
    getWords (put16 b o x) p m = getWords b p m :=
  getWords_congr fun _ _ => put16_apply_of_ne (by omega)

@[simp] lemma getWords_put32_of_disjoint {x : UInt32} (h : p + m * 4 ≤ o ∨ o + 4 ≤ p) :
    getWords (put32 b o x) p m = getWords b p m :=
  getWords_congr fun _ _ => put32_apply_of_ne (by omega)

@[simp] lemma getWords_putWords_of_disjoint (h : p + m * 4 ≤ o ∨ o + n * 4 ≤ p) :
    getWords (putWords b o w) p m = getWords b p m :=
  getWords_congr fun _ _ => putWords_apply_of_ne (by omega)

end Read

end Bytes
