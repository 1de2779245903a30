import Mathlib

/-!
# Error numbers, 32-bit words and kernel code with error exits

The kernel's functions return `0` or a negated error number, and leave whatever they had already
done when they return early. `EStateM Errno σ` is that shape: an error carries the state it was
raised in. `run_bind_of_ok` runs such a program one statement at a time.

A `u32` is a natural number reduced modulo `2 ^ 32` where it is stored. Sequence numbers and times
are compared by the sign of their 32-bit difference; `s32Neg`, `s32Pos` and `s32NonNeg` are the
three tests the sources use, with the lemmas that say what they mean when the two numbers are
fewer than `2 ^ 31` apart.
-/

namespace Sage040

/-- The error numbers returned by the modelled calls. -/
inductive Errno
  | eperm | enoent | esrch | eio | e2big | enoexec | enomem | eacces | efault | ebusy | eexist
  | enotdir | eisdir | einval | enfile | efbig | enospc | enametoolong | enotempty | eloop | elibacc
  | elibbad | erofs | erange | eintr | ebadf | eagain | enxio | emfile | espipe | epipe | edeadlk | enolck
  | eoverflow | etxtbsy | eprotonosupport | etimedout | econnreset | enotconn | eisconn | eaddrinuse
  | eaddrnotavail | eafnosupport | enobufs | ealready | eopnotsupp | emsgsize | enetdown
  deriving DecidableEq, Repr

/-- `(s32)n`, for a `u32`. -/
def toS32 (n : Nat) : Int := if n < 2 ^ 31 then n else n - 2 ^ 32

lemma toS32_of_lt {n : Nat} (h : n < 2 ^ 31) : toS32 n = n := if_pos h

lemma getElem?_concat_cases {α : Type} {l : List α} {a x : α} {i : Nat}
    (h : (l ++ [a])[i]? = some x) :
    l[i]? = some x ∨ (i = l.length ∧ x = a) := by
  rw [List.getElem?_append] at h
  split at h
  · exact .inl h
  obtain ⟨hlt, heq⟩ := List.getElem?_eq_some_iff.1 h
  rw [List.length_singleton] at hlt
  rw [List.getElem_singleton] at heq
  exact .inr ⟨by omega, heq.symm⟩

lemma run_bind_of_ok {ε σ α β : Type} {x : EStateM ε σ α} {s s' : σ} {a : α}
    (h : x.run s = .ok a s') (f : α → EStateM ε σ β) : (x >>= f).run s = (f a).run s' := by
  simp only [EStateM.run, bind, EStateM.bind] at h ⊢
  rw [h]

lemma run_tryFinally_of_ok {ε σ α β : Type} {x : EStateM ε σ α} {f : EStateM ε σ β}
    {s s' s'' : σ} {a : α} {b : β} (h : x.run s = .ok a s') (hf : f.run s' = .ok b s'') :
    (tryFinally x f).run s = .ok a s'' := by
  simp only [EStateM.run] at h hf
  simp [EStateM.run, tryFinally, tryFinally', Functor.map, EStateM.map, h, hf]

/-! ## Differences of 32-bit words -/

/-- `a - b` in a `u32`. -/
def sub32 (a b : Nat) : Nat := (a + (2 ^ 32 - b % 2 ^ 32)) % 2 ^ 32

/-- `(s32)(a - b) < 0`. -/
def s32Neg (a b : Nat) : Bool := decide (2 ^ 31 ≤ sub32 a b)

/-- `(s32)(a - b) >= 0`. -/
def s32NonNeg (a b : Nat) : Bool := decide (sub32 a b < 2 ^ 31)

/-- `(s32)(a - b) > 0`. -/
def s32Pos (a b : Nat) : Bool := decide (0 < sub32 a b ∧ sub32 a b < 2 ^ 31)

variable {q i j : Nat}

lemma s32Neg_add (hi : i < 2 ^ 31) (hj : j < 2 ^ 31) :
    s32Neg ((q + i) % 2 ^ 32) ((q + j) % 2 ^ 32) = decide (i < j) := by
  rw [s32Neg, decide_eq_decide, sub32]
  omega

lemma s32NonNeg_add (hi : i < 2 ^ 31) (hj : j < 2 ^ 31) :
    s32NonNeg ((q + i) % 2 ^ 32) ((q + j) % 2 ^ 32) = decide (j ≤ i) := by
  rw [s32NonNeg, decide_eq_decide, sub32]
  omega

lemma s32Pos_add (hi : i < 2 ^ 31) (hj : j < 2 ^ 31) :
    s32Pos ((q + i) % 2 ^ 32) ((q + j) % 2 ^ 32) = decide (j < i) := by
  rw [s32Pos, decide_eq_decide, sub32]
  omega

end Sage040
