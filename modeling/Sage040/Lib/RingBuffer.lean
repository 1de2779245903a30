import Mathlib

/-!
# Ring buffers

A buffer of `cap` cells that is filled at one end and emptied at the other, with a head and a count.
`contents` is the list it stands for: a push appends to it (`contents_push`), and moving the head on
drops from its front (`contents_advance`).
-/

structure RingBuffer (α : Type) where
  buf : Nat → α
  head : Nat
  count : Nat

namespace RingBuffer

open List

variable {α : Type} {cap : Nat} {r : RingBuffer α}

/-- What is held, the oldest first. -/
def contents (cap : Nat) (r : RingBuffer α) : List α :=
  (List.range r.count).map fun i => r.buf ((r.head + i) % cap)

def push (cap : Nat) (r : RingBuffer α) (x : α) : RingBuffer α :=
  { r with buf := Function.update r.buf ((r.head + r.count) % cap) x, count := r.count + 1 }

/-- `n` cells less. -/
def advance (cap n : Nat) (r : RingBuffer α) : RingBuffer α :=
  { r with head := (r.head + n) % cap, count := r.count - n }

/-- The head is in the buffer, and no more is held than fits. -/
structure Ok (cap : Nat) (r : RingBuffer α) : Prop where
  head : r.head < cap
  count : r.count ≤ cap

@[simp] lemma length_contents (cap : Nat) (r : RingBuffer α) :
    (r.contents cap).length = r.count := by
  simp [contents]

lemma contents_push (hroom : r.count < cap) (x : α) :
    (r.push cap x).contents cap = r.contents cap ++ [x] := by
  simp only [contents, push, range_succ, map_append, map_singleton, Function.update_self]
  congr 1
  refine map_congr_left fun i hi => Function.update_of_ne ?_ _ _
  -- the new cell is none of those in use: they are fewer than `cap` apart
  have hi' := mem_range.1 hi
  intro heq
  have hdiff := Nat.sub_mod_eq_zero_of_mod_eq heq.symm
  rw [Nat.add_sub_add_left, Nat.mod_eq_of_lt (by omega)] at hdiff
  omega

lemma Ok.push (h : r.Ok cap) (hroom : r.count < cap) (x : α) : (r.push cap x).Ok cap :=
  ⟨h.head, hroom⟩

lemma foldl_push (xs : List α) (h : r.Ok cap) (hroom : r.count + xs.length ≤ cap) :
    (xs.foldl (RingBuffer.push cap) r).Ok cap ∧
      (xs.foldl (RingBuffer.push cap) r).contents cap = r.contents cap ++ xs := by
  induction xs generalizing r with
  | nil => exact ⟨h, (append_nil _).symm⟩
  | cons x xs ih =>
    rw [length_cons] at hroom
    have hlt : r.count < cap := by omega
    have hroom' : r.count + 1 + xs.length ≤ cap := by omega
    obtain ⟨hok, hcontents⟩ := ih (h.push hlt x) hroom'
    refine ⟨hok, ?_⟩
    rw [foldl_cons, hcontents, contents_push hlt, append_assoc, singleton_append]

lemma count_foldl_push (cap) (xs : List α) (r) :
    (xs.foldl (RingBuffer.push cap) r).count = r.count + xs.length := by
  induction xs generalizing r with
  | nil => rfl
  | cons x xs ih =>
    rw [foldl_cons, ih, length_cons, Nat.add_comm xs.length 1, ← Nat.add_assoc]
    rfl

lemma contents_advance (cap n : Nat) (r : RingBuffer α) :
    (r.advance cap n).contents cap = (r.contents cap).drop n := by
  refine ext_getElem (by simp [advance]) fun i hi hi' => ?_
  simp only [contents, advance, getElem_map, getElem_range, getElem_drop]
  rw [Nat.mod_add_mod, Nat.add_assoc]

lemma Ok.advance (h : r.Ok cap) (n : Nat) : (r.advance cap n).Ok cap :=
  ⟨Nat.mod_lt _ (Nat.zero_lt_of_lt h.head), Nat.le_trans (Nat.sub_le _ _) h.count⟩

end RingBuffer
