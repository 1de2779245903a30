import Sage040.Basic
import Sage040.Lib.Bytes
import Sage040.Lib.Coop

/-!
# Copies to and from a program's memory

`copy_to_user` and `copy_from_user` of `kernel/uaccess.c` go a page at a time: a range that is
contiguous for the program lies anywhere in physical memory. Before each piece the page is looked
up and, if it is not there, brought in, and for that the task may sleep. What is copied is read
when the page has been found, piece by piece; a source that others can reach may have changed by
then.

`copyToUser_sat` is the case where nobody reaches it: the pieces then make up the whole.
-/

namespace Sage040

open Coop

def pageSize : Nat := 4096

/-- `PAGE_ALIGN_UP`, in a `u32`. -/
def pageAlignUp (x : Nat) : Nat := (x + (pageSize - 1)) % 2 ^ 32 / pageSize * pageSize

/-- How much of the page at `uva` is left, capped at what was asked for. -/
def chunkLen (uva len : Nat) : Nat := min len (pageSize - uva % pageSize)

lemma chunkLen_le (uva len : Nat) : chunkLen uva len ≤ len := Nat.min_le_left _ _

lemma chunkLen_pos {uva len : Nat} (h : 0 < len) : 0 < chunkLen uva len := by
  have := Nat.mod_lt uva (show 0 < pageSize by decide)
  rw [chunkLen]
  omega

/-- The pieces `(offset, length)` in which `len` bytes at `uva + off` are copied, at most `fuel`. -/
def chunksFrom (uva : Nat) : Nat → Nat → Nat → List (Nat × Nat)
  | 0, _, _ => []
  | fuel + 1, off, len =>
    if len = 0 then []
    else
      let n := chunkLen (uva + off) len
      (off, n) :: chunksFrom uva fuel (off + n) (len - n)

/-- All of them: no piece is empty, so there are at most `len`. -/
def chunks (uva len : Nat) : List (Nat × Nat) := chunksFrom uva len 0 len

lemma foldl_chunksFrom (uva d e : Nat) (src : Bytes) {fuel len : Nat} (h : len ≤ fuel) (off : Nat)
    (dst : Bytes) :
    (chunksFrom uva fuel off len).foldl (fun b c => b.blit (d + c.1) src (e + c.1) c.2) dst =
      dst.blit (d + off) src (e + off) len := by
  induction fuel generalizing off len dst with
  | zero =>
    obtain rfl : len = 0 := by omega
    exact (Bytes.blit_zero ..).symm
  | succ fuel ih =>
    rw [chunksFrom]
    split
    · rename_i h0
      rw [h0, List.foldl_nil, Bytes.blit_zero]
    have hpos : 0 < chunkLen (uva + off) len := chunkLen_pos (by omega)
    have hle := chunkLen_le (uva + off) len
    rw [List.foldl_cons, ih (by omega), ← Nat.add_assoc, ← Nat.add_assoc, Bytes.blit_blit]
    congr 1
    omega

lemma foldl_chunks (uva len : Nat) (src mem : Bytes) :
    (chunks uva len).foldl (fun m c => m.blit (uva + c.1) src c.1 c.2) mem =
    mem.blit uva src 0 len := by
  simpa only [chunks, Nat.zero_add, Nat.add_zero] using foldl_chunksFrom uva uva 0 src le_rfl 0 mem

lemma foldl_chunks_from (uva len : Nat) (dst mem : Bytes) :
    (chunks uva len).foldl (fun b c => b.blit c.1 mem (uva + c.1) c.2) dst =
    dst.blit 0 mem uva len := by
  simpa only [chunks, Nat.zero_add, Nat.add_zero] using foldl_chunksFrom uva 0 uva mem le_rfl 0 dst

section Copy

variable {σ : Type} (refuse : σ → Option Errno)

/-- `copy_to_user(uva, src, len)` into the memory `mem`, which is the task's own. A page that
cannot be had is a bad address. -/
def copyToUser (uva : Nat) (src : σ → Bytes) (len : Nat) (mem : Bytes) : Coop Errno σ Bytes :=
  (chunks uva len).foldlM (fun m c => look fun s =>
    match refuse s with
    | some _ => .error .efault
    | none => .ok (m.blit (uva + c.1) (src s) c.1 c.2)) mem

variable {refuse} {ω γ : Type} {own : σ → ω} {rest : σ → γ} {s : σ}

lemma copyToUser_sat {src : σ → Bytes} {b : Bytes} (hsrc : ∀ t, own t = own s → src t = b)
    (uva len : Nat) (mem : Bytes) : (copyToUser refuse uva src len mem).Sat own rest
      (fun m t => own t = own s ∧ m = mem.blit uva b 0 len) s := by
  rw [← foldl_chunks]
  refine sat_foldlM (fun m c t ht => sat_look fun u hu m' hm v hv => ⟨hv.trans hu, ?_⟩) _ _
  cases hr : refuse u with
  | none =>
    simp only [hr, Except.ok.injEq, hsrc u (hu.trans ht)] at hm
    exact hm.symm
  | some e => simp only [hr, reduceCtorEq] at hm

/-- `copy_from_user(dst, uva, len)` from the memory `mem`, which is the task's own, into a buffer
that is part of the shared state. -/
def copyFromUser (refuse : σ → Option Errno) (get : σ → Bytes) (put : σ → Bytes → σ) (uva len : Nat)
    (mem : Bytes) : Coop Errno σ Unit :=
  (chunks uva len).foldlM (fun _ c => stretch fun s =>
    match refuse s with
    | some _ => (.error .efault, s)
    | none => (.ok (), put s ((get s).blit c.1 mem (uva + c.1) c.2))) ()

lemma copyToUser_total {ok : σ → Prop} (hok : ∀ t, ok t → refuse t = none) (uva : Nat)
    (src : σ → Bytes) (len : Nat) (mem : Bytes) :
    (copyToUser refuse uva src len mem).Total own ok s := by
  refine total_foldlM (fun m c t => total_look fun u _ hu => ?_) _ _
  rw [hok u hu]
  exact ⟨_, rfl⟩

lemma copyFromUser_total {ok : σ → Prop} (hok : ∀ t, ok t → refuse t = none)
    (get : σ → Bytes) (put : σ → Bytes → σ) (uva len : Nat) (mem : Bytes) :
    (copyFromUser refuse get put uva len mem).Total own ok s := by
  refine total_foldlM (fun m c t => total_stretch fun u _ hu => ?_) _ _
  rw [hok u hu]
  exact ⟨_, rfl⟩

/-- A buffer that is a part of what others leave alone, read by `rd` and written by `wr`. -/
lemma copyFromUser_sat {get : σ → Bytes} {put : σ → Bytes → σ} (rd : ω → Bytes)
    (wr : ω → Bytes → ω) (hget : ∀ t, get t = rd (own t))
    (hput : ∀ t b, own (put t b) = wr (own t) b) (hrest : ∀ t b, rest (put t b) = rest t)
    (hrd : ∀ o b, rd (wr o b) = b) (hwr : ∀ o b c, wr (wr o b) c = wr o c)
    (hself : ∀ o, wr o (rd o) = o) (uva len : Nat) (mem : Bytes) :
    (copyFromUser refuse get put uva len mem).Sat own rest
      (fun _ t => own t = wr (own s) ((rd (own s)).blit 0 mem uva len)) s := by
  have hfold : ∀ o : ω, (chunks uva len).foldl
      (fun o c => wr o ((rd o).blit c.1 mem (uva + c.1) c.2)) o =
        wr o ((rd o).blit 0 mem uva len) := fun o => by
    rw [← foldl_chunks_from]
    generalize chunks uva len = l
    induction l generalizing o with
    | nil => exact (hself o).symm
    | cons c l ih => rw [List.foldl_cons, ih, hrd, hwr, List.foldl_cons]
  rw [← hfold]
  refine sat_foldlM_own (fun c t => sat_stretch (fun u _ => ?_) fun u hu a ha v hv => ?_) _
  · split
    · rfl
    · exact hrest ..
  cases hr : refuse u with
  | none =>
    simp only [hr] at hv
    rw [hv, hput, hget, hu]
  | some e => simp only [hr, reduceCtorEq] at ha

end Copy

end Sage040
