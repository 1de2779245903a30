import Sage040.Fs.Ext2.Alloc

/-!
# Searching a bitmap

`bitmap_first_free` and `alloc_first_free` of `kernel/fs/ext2.c`. The first skips bytes that are all
ones, and the second looks past what the running transaction freed. Together they find what a search
bit by bit does (`bitmapAllocFirstFree_eq`), with which the allocator is modelled.
-/

namespace Sage040.Fs

open Vol

section

variable (map : Nat → UInt8) (limit : Nat) (freed : Nat → Bool)

def bitmapTest (i : Nat) : Bool := (map (i / 8)).toNat.testBit (i % 8)

def skipFull : Nat → Nat → Nat
  | 0, i => i
  | n + 1, i => if i + 8 ≤ limit ∧ map (i / 8) = 0xff then skipFull n (i + 8) else i

def bitmapScan : Nat → Nat → Nat
  | 0, _ => limit
  | n + 1, i =>
    if limit ≤ i then limit
    else
      let i := if i % 8 = 0 then skipFull map limit limit i else i
      if limit ≤ i then limit else if bitmapTest map i then bitmapScan n (i + 1) else i

def bitmapFirstFree (start : Nat) : Nat := bitmapScan map limit limit start

def allocScan : Nat → Nat → Nat
  | 0, bit => bit
  | n + 1, bit =>
    if bit < limit ∧ freed bit then allocScan n (bitmapFirstFree map limit (bit + 1)) else bit

/-- `alloc_first_free`, on the bytes of a group's bitmap. -/
def bitmapAllocFirstFree (start : Nat) : Nat :=
    allocScan map limit freed limit (bitmapFirstFree map limit start)

end

variable {map : Nat → UInt8} {limit i j n r : Nat} {taken : Nat → Bool}

/-- A search from `i` may answer `r`. -/
def Found (taken : Nat → Bool) (limit i r : Nat) : Prop :=
  (∀ k, i ≤ k → k < r → k < limit → taken k) ∧ (r = limit ∨ i ≤ r ∧ r < limit ∧ taken r = false)

lemma Found.from (h : Found taken limit j r) (hij : i ≤ j) (ht : ∀ k, i ≤ k → k < j → taken k) :
    Found taken limit i r :=
  ⟨fun k hk hr hl => if hj : k < j then ht k hk hj else h.1 k (by omega) hr hl,
    h.2.imp_right (And.imp_left hij.trans)⟩

lemma Found.of_ge (h : limit ≤ i) : Found taken limit i limit :=
    ⟨fun k hk _ hl => by omega, .inl rfl⟩

lemma Found.eq (h : Found taken limit i r) : r = firstFree taken i limit := by
  have hle : firstFree taken i limit ≤ limit := by
    rcases le_total i limit with hi | hi
    · exact firstFree_le hi
    · rw [firstFree, Nat.sub_eq_zero_of_le hi]
      rfl
  rcases lt_trichotomy r (firstFree taken i limit) with hlt | heq | hgt
  · rcases h.2 with hr | ⟨hi, -, hr⟩
    · omega
    · exact absurd (taken_of_lt_firstFree hi hlt) (by simp [hr])
  · exact heq
  · have hlt : firstFree taken i limit < limit := by
      rcases h.2 with hr | hr <;> omega
    obtain ⟨hi, hr⟩ := firstFree_spec hlt
    exact absurd (h.1 _ hi hgt hlt) (by simp [hr])

lemma skipFull_spec (hi : i % 8 = 0) :
    i ≤ skipFull map limit n i ∧ ∀ k, i ≤ k → k < skipFull map limit n i → bitmapTest map k := by
  induction n generalizing i with
  | zero => exact ⟨le_rfl, fun k hk hlt => absurd hlt (Nat.not_lt.2 hk)⟩
  | succ n ih =>
    rw [skipFull]
    split
    · rename_i hfull
      obtain ⟨hle, hskip⟩ := ih (i := i + 8) (by omega)
      refine ⟨by omega, fun k hk hlt => ?_⟩
      by_cases hbyte : k < i + 8
      · rw [bitmapTest, show k / 8 = i / 8 by omega, hfull.2]
        exact (by decide : ∀ b < 8, (0xff : UInt8).toNat.testBit b) _ (Nat.mod_lt _ (by decide))
      · exact hskip k (by omega) hlt
    · exact ⟨le_rfl, fun k hk hlt => absurd hlt (Nat.not_lt.2 hk)⟩

lemma found_bitmapScan (h : limit - i ≤ n) : Found (bitmapTest map) limit i
    (bitmapScan map limit n i) := by
  induction n generalizing i with
  | zero => exact .of_ge (by omega)
  | succ n ih =>
    rw [bitmapScan]
    split
    · exact .of_ge ‹_›
    have hskip : i ≤ (if i % 8 = 0 then skipFull map limit limit i else i) ∧
        ∀ k, i ≤ k → k < (if i % 8 = 0 then skipFull map limit limit i else i) →
            bitmapTest map k := by
      split
      · exact skipFull_spec ‹_›
      · exact ⟨le_rfl, fun k hk hlt => absurd hlt (Nat.not_lt.2 hk)⟩
    generalize (if i % 8 = 0 then skipFull map limit limit i else i) = i' at hskip
    refine Found.from ?_ hskip.1 hskip.2
    dsimp only
    split
    · exact .of_ge ‹_›
    split
    · exact (ih (by omega)).from (Nat.le_succ i') fun k hk hlt => by rwa [show k = i' by omega]
    · exact ⟨fun k hk hlt => absurd hlt (Nat.not_lt.2 hk),
        .inr ⟨le_rfl, by omega, Bool.eq_false_iff.2 ‹_›⟩⟩

lemma bitmapAllocFirstFree_spec (freed : Nat → Bool) (start : Nat) :
    bitmapAllocFirstFree map limit freed start =
    firstFree (fun k => bitmapTest map k || freed k) start limit := by
  suffices hscan : ∀ n i, limit - i ≤ n → Found (fun k => bitmapTest map k || freed k) limit i
      (allocScan map limit freed n (bitmapFirstFree map limit i)) from
        (hscan limit start (Nat.sub_le _ _)).eq
  have hfound : ∀ i, Found (bitmapTest map) limit i (bitmapFirstFree map limit i) := fun i =>
    found_bitmapScan (Nat.sub_le limit i)
  intro n i hn
  induction n generalizing i with
  | zero =>
    have hbit : bitmapFirstFree map limit i = limit := by
      rcases (hfound i).2 with h | h
      · exact h
      · omega
    rw [allocScan, hbit]
    exact .of_ge (by omega)
  | succ n ih =>
    obtain ⟨htaken, hbit⟩ := hfound i
    rw [allocScan]
    split
    · rename_i hfreed
      refine (ih _ (by omega)).from (by omega) fun k hk hlt => ?_
      rcases Nat.lt_succ_iff_lt_or_eq.1 hlt with hlt | rfl
      · simp [htaken k hk hlt (by omega)]
      · simp [hfreed.2]
    · refine ⟨fun k hk hlt hl => by
        simp [htaken k hk hlt hl], hbit.imp_right fun h => ⟨h.1, h.2.1, ?_⟩⟩
      simp_all

/-- **The search by bytes finds what the allocator's, bit by bit, does**, for every bitmap that a
group may have, wherever it begins and ends. -/
theorem bitmapAllocFirstFree_eq (g : Geometry) (v : Vol) (map : Nat → UInt8) (i start limit : Nat) :
    bitmapAllocFirstFree map limit (v.freedInTxn i) start =
      { v with bit := fun b => bitmapTest map (b - g.base i) }.allocFirstFree g i start limit := by
  rw [bitmapAllocFirstFree_spec, allocFirstFree]
  simp only [Nat.add_sub_cancel_left]
  rfl

end Sage040.Fs
