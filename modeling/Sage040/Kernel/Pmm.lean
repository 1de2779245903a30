import Sage040.Basic
import Sage040.Lib.Runs

/-!
# The page allocator

`kernel/pmm.c`: a bitmap of the pages that are given out, for each a count of those who hold it
beyond the first, and the number of pages in use. The bitmap and the counts are in the first pages
of the pool they are about.

Beside it goes `held`, which the code does not have: how many hold each page, by what was given out,
shared and freed. `Exact` says that the tables come to the same, and `allocator_exact` that they do
after any calls in which nobody frees what it does not hold, with what each of the calls answers.
-/

namespace Sage040.Pmm

open Function List

def pageSize : Nat := 4096

structure Pool where
  /-- The address of the first page. -/
  base : Nat
  total : Nat
  bitmap : Nat → Bool
  refs : Nat → Nat
  used : Nat
  /-- The memory itself. -/
  ram : Nat → UInt8

namespace Pool

variable {s : Pool} {i j n : Nat}

/-- The pages that the bitmap and the counts take. -/
def mapPages (pages : Nat) : Nat :=
  (((pages + 7) / 8 + 1) / 2 * 2 + pages * 2 + (pageSize - 1)) / pageSize

/-- `pmm_init`. -/
def init (first last : Nat) (ram : Nat → UInt8) : Pool :=
  let base := (first + (pageSize - 1)) % 2 ^ 32 / pageSize * pageSize
  let last := last / pageSize * pageSize
  let pages := (last - base) / pageSize
  if last ≤ base ∨ pages ≤ mapPages pages then ⟨base, 0, fun _ => false, fun _ => 0, 0, ram⟩
  else ⟨base, pages, fun i => i < mapPages pages, fun _ => 0, mapPages pages, ram⟩

def pa (s : Pool) (i : Nat) : Nat := s.base + i * pageSize

def page (s : Pool) (pa : Nat) : Nat := (pa - s.base) / pageSize

/-- The pages from `i` on, `n` of them, are given out, and are zero. -/
def give (s : Pool) (i n : Nat) : Pool :=
  { s with
    bitmap := fun k => decide (i ≤ k ∧ k < i + n) || s.bitmap k
    used := s.used + n
    ram := fun a => if s.pa i ≤ a ∧ a < s.pa i + n * pageSize then 0 else s.ram a }

/-- `pmm_alloc`. -/
def alloc (s : Pool) : Pool × Option Nat :=
  match (List.range s.total).find? fun i => !s.bitmap i with
  | none => (s, none)
  | some i => (s.give i 1, some (s.pa i))

/-- The scan of `pmm_alloc_pages`: a run that fails is skipped, up to the page that it failed at. -/
def scan (s : Pool) (n : Nat) : Nat → Nat → Option Nat
  | 0, _ => none
  | fuel + 1, i =>
    if (i + n) % 2 ^ 32 ≤ s.total then
      match (List.range n).find? fun j => s.bitmap (i + j) with
      | none => some i
      | some j => s.scan n fuel (i + j + 1)
    else none

/-- `pmm_alloc_pages`. -/
def allocPages (s : Pool) (n : Nat) : Pool × Option Nat :=
  if n = 0 then (s, none)
  else if n = 1 then s.alloc
  else match s.scan n (s.total + 1) 0 with
    | none => (s, none)
    | some i => (s.give i n, some (s.pa i))

/-- `pmm_free`. -/
def free (s : Pool) (pa : Nat) : Pool :=
  if pa < s.base then s
  else
    let i := s.page pa
    if i < s.total ∧ s.bitmap i = true ∧ s.refs i ≠ 0 then
      { s with refs := update s.refs i (s.refs i - 1) }
    else if s.total ≤ i ∨ s.bitmap i = false then s
    else { s with bitmap := update s.bitmap i false, used := s.used - 1 }

/-- `pmm_free_pages`. -/
def freePages : Nat → Pool → Nat → Pool
  | 0, s, _ => s
  | n + 1, s, pa => freePages n (s.free pa) ((pa + pageSize) % 2 ^ 32)

/-- `pmm_ref`. -/
def ref (s : Pool) (pa : Nat) : Pool × Bool :=
  let i := s.page pa
  if pa < s.base ∨ s.total ≤ i ∨ s.bitmap i = false ∨ s.refs i = 0xffff then (s, false)
  else ({ s with refs := update s.refs i (s.refs i + 1) }, true)

@[simp] lemma page_pa (s : Pool) (i) : s.page (s.pa i) = i := by
  rw [page, pa, Nat.add_sub_cancel_left, Nat.mul_div_cancel i (by decide)]

/-- The pool is in the 32-bit address space. -/
def Fits (s : Pool) : Prop := s.base + s.total * pageSize ≤ 2 ^ 32

/-- **The scan finds a run if there is one** from `i` on, and nothing else. -/
lemma scan_spec (hfits : s.Fits) (hn : 0 < n) (hle : n ≤ s.total) (fuel i : Nat) (hi : i ≤ s.total)
    (hfuel : s.total < fuel + i) :
    (∀ k, s.scan n fuel i = some k → k + n ≤ s.total ∧ ∀ j < n, s.bitmap (k + j) = false) ∧
      (s.scan n fuel i = none → ∀ k, i ≤ k → k + n ≤ s.total → ∃ j < n, s.bitmap (k + j) = true) :=
      by
  induction fuel generalizing i with
  | zero => omega
  | succ fuel ih =>
    have hsmall : (i + n) % 2 ^ 32 = i + n := by
      rw [Fits, pageSize] at hfits
      omega
    rw [scan, hsmall]
    split
    · rename_i hroom
      cases hfind : (range n).find? fun j => s.bitmap (i + j) with
      | none =>
        refine ⟨fun k hk => ?_, fun h => absurd h (Option.some_ne_none i)⟩
        cases hk
        refine ⟨hroom, fun j hj => ?_⟩
        have hnot := find?_eq_none.1 hfind j (mem_range.2 hj)
        rwa [Bool.not_eq_true] at hnot
      | some j =>
        have hset : s.bitmap (i + j) = true := by simpa using find?_some hfind
        have hj : j < n := mem_range.1 (mem_of_find?_eq_some hfind)
        obtain ⟨hsome, hnone⟩ := ih (i + j + 1) (by omega) (by omega)
        refine ⟨hsome, fun h k hik hkn => ?_⟩
        by_cases hpast : i + j + 1 ≤ k
        · exact hnone h k hpast hkn
        -- the page that the run failed at is in this one too
        exact ⟨i + j - k, by omega, by rwa [Nat.add_sub_cancel' (by omega)]⟩
    · exact ⟨fun k h => absurd h.symm (Option.some_ne_none k), fun _ k hik hkn => by omega⟩

end Pool

/-! ## Who holds a page -/

structure Held where
  pool : Pool
  held : Nat → Nat

inductive Call
  | alloc
  | allocPages (n : Nat)
  | ref (pa : Nat)
  | free (pa : Nat)
  | freePages (pa n : Nat)
  /-- Somebody writes to memory. -/
  | store (a : Nat) (b : UInt8)

namespace Held

variable {h : Held} {map i j n : Nat}

/-- What was given out is held once more, from the page of the address on. -/
def got (h : Held) (n : Nat) (r : Pool × Option Nat) : Held :=
  ⟨r.1, match r.2 with
    | none => h.held
    | some pa =>
      fun k => if h.pool.page pa ≤ k ∧ k < h.pool.page pa + n then h.held k + 1 else h.held k⟩

def freed (h : Held) (pa : Nat) : Held :=
  ⟨h.pool.free pa, update h.held (h.pool.page pa) (h.held (h.pool.page pa) - 1)⟩

def freedPages : Nat → Held → Nat → Held
  | 0, h, _ => h
  | n + 1, h, pa => freedPages n (h.freed pa) ((pa + pageSize) % 2 ^ 32)

def step (h : Held) : Call → Held
  | .alloc => h.got 1 h.pool.alloc
  | .allocPages n => h.got n (h.pool.allocPages n)
  | .ref pa =>
    ⟨(h.pool.ref pa).1, if (h.pool.ref pa).2 then
    update h.held (h.pool.page pa) (h.held (h.pool.page pa) + 1)
      else h.held⟩
  | .free pa => h.freed pa
  | .freePages pa n => freedPages n h pa
  | .store a b => ⟨{ h.pool with ram := update h.pool.ram a b }, h.held⟩

/-- Whoever frees a page holds it, and nobody writes to the tables. -/
def Legal (h : Held) : Call → Prop
  | .allocPages n => n < 2 ^ 32
  | .free pa =>
    h.pool.pa (h.pool.page pa) = pa ∧ h.pool.page pa < h.pool.total ∧ 0 < h.held (h.pool.page pa)
  | .freePages pa n => h.pool.pa (h.pool.page pa) = pa ∧ h.pool.page pa + n ≤ h.pool.total ∧
      ∀ j < n, 0 < h.held (h.pool.page pa + j)
  | .store a _ => a < h.pool.base ∨ h.pool.pa (Pool.mapPages h.pool.total) ≤ a
  | _ => True

instance (h : Held) : ∀ call, Decidable (h.Legal call)
  | .alloc | .ref _ => isTrue trivial
  | .allocPages n => inferInstanceAs (Decidable (n < 2 ^ 32))
  | .free _ => inferInstanceAs (Decidable (_ = _ ∧ _ < _ ∧ 0 < h.held _))
  | .freePages pa n =>
    inferInstanceAs (Decidable (_ = _ ∧ _ ≤ _ ∧ ∀ j < n, 0 < h.held (h.pool.page pa + j)))
  | .store _ _ => inferInstanceAs (Decidable (_ < _ ∨ _ ≤ _))

/-- **The tables are exact**: a page is marked if somebody holds it, or if it is one of the tables'
own, and its count is of those beyond the first. -/
structure Exact (map : Nat) (h : Held) : Prop where
  used : h.pool.used = ((Finset.range h.pool.total).filter fun i => h.pool.bitmap i = true).card
  refs : ∀ i, h.pool.refs i ≠ 0 → h.pool.bitmap i = true
  owners : ∀ i, h.held i + (if i < map then 1 else 0) = if h.pool.bitmap i then
    h.pool.refs i + 1 else 0
  inside : ∀ i, h.pool.bitmap i = true → i < h.pool.total
  fits : h.pool.Fits

def Free (map : Nat) (h : Held) (i : Nat) : Prop := h.held i = 0 ∧ map ≤ i

/-- There are so many free pages in a row; a run of no pages is none. -/
def HasRun (map : Nat) (h : Held) (n : Nat) : Prop :=
  0 < n ∧ ∃ i, i + n ≤ h.pool.total ∧ ∀ j < n, h.Free map (i + j)

/-- What is asked of an allocation: the pages were free and are zero, and it fails only if there is
no run of them. -/
def Answered (map : Nat) (h : Held) (n : Nat) (r : Pool × Option Nat) : Prop :=
  (∀ pa, r.2 = some pa → ∃ i, pa = h.pool.pa i ∧ i + n ≤ h.pool.total ∧
    (∀ j < n, h.Free map (i + j)) ∧
    ∀ a, pa ≤ a → a < pa + n * pageSize → r.1.ram a = 0) ∧
  (r.2 = none ↔ ¬ h.HasRun map n)

/-- Every allocation is answered so. -/
def Answers (map : Nat) (h : Held) : Call → Prop
  | .alloc => h.Answered map 1 h.pool.alloc
  | .allocPages n => h.Answered map n (h.pool.allocPages n)
  | _ => True

lemma answered_none (hno : ¬ h.HasRun map n) : h.Answered map n (h.pool, none) :=
  ⟨fun pa hpa => absurd hpa.symm (Option.some_ne_none pa), fun _ => hno, fun _ => rfl⟩

variable (h' : Exact map h)

include h'

lemma Exact.free_iff (i) : h.Free map i ↔ h.pool.bitmap i = false := by
  have howners := h'.owners i
  rw [Free]
  cases hbit : h.pool.bitmap i <;> rw [hbit] at howners <;> split at howners <;>
    simp at howners ⊢ <;> omega

lemma Exact.give (hroom : i + n ≤ h.pool.total) (hfree : ∀ j < n, h.pool.bitmap (i + j) = false) :
    Exact map (h.got n (h.pool.give i n, some (h.pool.pa i))) := by
  have hunmarked : ∀ k, i ≤ k → k < i + n → h.pool.bitmap k = false := fun k hik hkn => by
    have := hfree (k - i) (by omega)
    rwa [Nat.add_sub_cancel' hik] at this
  refine ⟨?_, fun k hk => ?_, fun k => ?_, fun k hk => ?_, h'.fits⟩
  · have hunion : ((Finset.range h.pool.total).filter fun k => (h.pool.give i n).bitmap k = true) =
        ((Finset.range h.pool.total).filter fun k => h.pool.bitmap k = true) ∪
            Finset.Ico i (i + n) := by
      ext k
      simp only [Pool.give, Finset.mem_filter, Finset.mem_range, Bool.or_eq_true, decide_eq_true_eq,
        Finset.mem_union, Finset.mem_Ico]
      constructor
      · rintro ⟨hk, hrun | hbit⟩
        · exact .inr hrun
        · exact .inl ⟨hk, hbit⟩
      rintro (⟨hk, hbit⟩ | hrun)
      · exact ⟨hk, .inr hbit⟩
      · exact ⟨by omega, .inl hrun⟩
    have hdisj : Disjoint ((Finset.range h.pool.total).filter fun k => h.pool.bitmap k = true)
        (Finset.Ico i (i + n)) := by
      rw [Finset.disjoint_left]
      intro k hk hrun
      rw [Finset.mem_Ico] at hrun
      rw [Finset.mem_filter, hunmarked k hrun.1 hrun.2] at hk
      cases hk.2
    have hcard : (Finset.Ico i (i + n)).card = n := by rw [Nat.card_Ico, Nat.add_sub_cancel_left]
    show h.pool.used + n = ((Finset.range h.pool.total).filter fun k => (h.pool.give i n).bitmap k =
      true).card
    rw [hunion, Finset.card_union_of_disjoint hdisj, hcard, h'.used]
  · show (decide (i ≤ k ∧ k < i + n) || h.pool.bitmap k) = true
    rw [h'.refs k hk, Bool.or_true]
  · have howners := h'.owners k
    simp only [got, Pool.page_pa, Pool.give]
    by_cases hrun : i ≤ k ∧ k < i + n
    · have hbit := hunmarked k hrun.1 hrun.2
      have hrefs : h.pool.refs k = 0 := by
        by_contra hne
        rw [h'.refs k hne] at hbit
        cases hbit
      simp only [hbit, Bool.false_eq_true, if_false] at howners
      simp only [hrun, decide_true, Bool.true_or, if_true, hrefs, and_self]
      omega
    · simp only [hrun, if_false, decide_false, Bool.false_or]
      exact howners
  · simp only [got, Pool.give, Bool.or_eq_true, decide_eq_true_eq] at hk ⊢
    rcases hk with hrun | hbit
    · omega
    · exact h'.inside k hbit

lemma answered_some (hroom : i + n ≤ h.pool.total) (hn : 0 < n)
    (hfree : ∀ j < n, h.pool.bitmap (i + j) = false) :
    h.Answered map n (h.pool.give i n, some (h.pool.pa i)) := by
  have hfree' : ∀ j < n, h.Free map (i + j) := fun j hj => (h'.free_iff _).2 (hfree j hj)
  refine ⟨fun pa hpa => ?_, fun hnone => absurd hnone (Option.some_ne_none _),
    fun hno => absurd ⟨hn, i, hroom, hfree'⟩ hno⟩
  cases hpa
  exact ⟨i, rfl, hroom, hfree', fun a hle hlt => if_pos ⟨hle, hlt⟩⟩

lemma Exact.alloc : Exact map (h.got 1 h.pool.alloc) ∧ h.Answered map 1 h.pool.alloc := by
  rw [Pool.alloc]
  split
  · rename_i hnone
    refine ⟨h', answered_none ?_⟩
    rintro ⟨-, i, hi, hfree⟩
    have hbit := (h'.free_iff i).1 (hfree 0 Nat.one_pos)
    have := find?_eq_none.1 hnone i (mem_range.2 hi)
    rw [hbit] at this
    exact this rfl
  · rename_i i hfind
    have hi : i < h.pool.total := mem_range.1 (mem_of_find?_eq_some hfind)
    have hbit : ∀ j < 1, h.pool.bitmap (i + j) = false := fun j hj => by
      rw [Nat.lt_one_iff.1 hj]
      simpa using find?_some hfind
    exact ⟨h'.give hi hbit, answered_some h' hi Nat.one_pos hbit⟩

lemma Exact.allocPages (hn : n < 2 ^ 32) :
    Exact map (h.got n (h.pool.allocPages n)) ∧ h.Answered map n (h.pool.allocPages n) := by
  rw [Pool.allocPages]
  split
  · exact ⟨h', answered_none fun hrun => by have := hrun.1; omega⟩
  rename_i hzero
  split
  · rename_i hone
    rw [hone]
    exact h'.alloc
  by_cases hle : n ≤ h.pool.total
  · obtain ⟨hsome, hnone⟩ := Pool.scan_spec h'.fits (Nat.pos_of_ne_zero hzero) hle
      (h.pool.total + 1) 0
      (Nat.zero_le _) (Nat.lt_succ_self _)
    split
    · rename_i hscan
      refine ⟨h', answered_none ?_⟩
      rintro ⟨-, i, hi, hfree⟩
      obtain ⟨j, hj, hset⟩ := hnone hscan i (Nat.zero_le i) hi
      rw [(h'.free_iff _).1 (hfree j hj)] at hset
      cases hset
    · rename_i i hscan
      obtain ⟨hroom, hbits⟩ := hsome i hscan
      exact ⟨h'.give hroom hbits, answered_some h' hroom (Nat.pos_of_ne_zero hzero) hbits⟩
  · -- more pages than there are: the scan ends before it begins
    have hscan : h.pool.scan n (h.pool.total + 1) 0 = none := by
      rw [Pool.scan, if_neg]
      rw [Nat.zero_add, Nat.mod_eq_of_lt hn]
      exact hle
    rw [hscan]
    exact ⟨h', answered_none fun ⟨_, i, hi, _⟩ => by omega⟩

lemma Exact.freed {pa : Nat} (hpa : h.pool.pa (h.pool.page pa) = pa)
    (hheld : 0 < h.held (h.pool.page pa)) : Exact map (h.freed pa) := by
  have hbase : ¬ pa < h.pool.base := by
    rw [← hpa, Pool.pa]
    omega
  rw [Held.freed, Pool.free, if_neg hbase]
  generalize h.pool.page pa = i at hheld ⊢
  have howners := h'.owners i
  have hbit : h.pool.bitmap i = true := by
    by_contra hno
    rw [if_neg hno] at howners
    omega
  rw [hbit, if_pos rfl] at howners
  have hi := h'.inside i hbit
  dsimp only
  split
  · -- somebody else still has it
    rename_i hmore
    refine ⟨h'.used, fun k hk => ?_, fun k => ?_, h'.inside, h'.fits⟩
    · by_cases hki : k = i
      · rw [hki]
        exact hbit
      dsimp only at hk
      rw [update_of_ne hki] at hk
      exact h'.refs k hk
    dsimp only
    by_cases hki : k = i
    · subst hki
      rw [update_self, update_self, hbit, if_pos rfl]
      have := hmore.2.2
      omega
    · rw [update_of_ne hki, update_of_ne hki]
      exact h'.owners k
  rename_i hlast
  have hrefs : h.pool.refs i = 0 := by
    by_contra hne
    exact hlast ⟨hi, hbit, hne⟩
  rw [if_neg (by rw [hbit]; exact fun h => h.elim (by omega) (by decide))]
  refine ⟨?_, fun k hk => ?_, fun k => ?_, fun k hk => ?_, h'.fits⟩
  · have herase : ((Finset.range h.pool.total).filter fun k => update h.pool.bitmap i false k =
      true) =
        ((Finset.range h.pool.total).filter fun k => h.pool.bitmap k = true).erase i := by
      ext k
      by_cases hki : k = i
      · subst hki
        simp
      · simp [hki]
    dsimp only
    rw [herase, Finset.card_erase_of_mem (Finset.mem_filter.2 ⟨Finset.mem_range.2 hi, hbit⟩),
      h'.used]
  · by_cases hki : k = i
    · subst hki
      exact absurd hrefs hk
    dsimp only
    rw [update_of_ne hki]
    exact h'.refs k hk
  · by_cases hki : k = i
    · subst hki
      simp only [update_self, Bool.false_eq_true, if_false]
      omega
    · simp only [update_of_ne hki]
      exact h'.owners k
  · by_cases hki : k = i
    · rw [hki]
      exact hi
    dsimp only at hk
    rw [update_of_ne hki] at hk
    exact h'.inside k hk

omit h' in
lemma freed_frame (h : Held) (pa : Nat) :
    (h.freed pa).pool.base = h.pool.base ∧ (h.freed pa).pool.total = h.pool.total := by
  rw [Held.freed, Pool.free]
  dsimp only
  split
  · exact ⟨rfl, rfl⟩
  split
  · exact ⟨rfl, rfl⟩
  · split <;> exact ⟨rfl, rfl⟩

lemma Exact.freedPages (hroom : i + n ≤ h.pool.total) (hheld : ∀ j < n, 0 < h.held (i + j)) :
    Exact map (freedPages n h (h.pool.pa i)) := by
  induction n generalizing h i with
  | zero => exact h'
  | succ n ih =>
    obtain ⟨hbase, htotal⟩ := freed_frame h (h.pool.pa i)
    have hstep : Exact map (h.freed (h.pool.pa i)) :=
      h'.freed (by rw [Pool.page_pa]) (by rw [Pool.page_pa]; exact hheld 0 (by omega))
    rw [Held.freedPages]
    cases n with
    | zero => exact hstep
    | succ n =>
      -- the next page is in the pool, so its address does not wrap around
      have hnext : (h.pool.pa i + pageSize) % 2 ^ 32 = (h.freed (h.pool.pa i)).pool.pa (i + 1) := by
        have hfits := h'.fits
        rw [Pool.Fits, pageSize] at hfits
        show _ = (h.freed (h.pool.pa i)).pool.base + (i + 1) * pageSize
        rw [hbase, Pool.pa, pageSize]
        omega
      rw [hnext]
      refine ih hstep (by rw [htotal]; omega) fun j hj => ?_
      rw [Held.freed, Pool.page_pa]
      dsimp only
      rw [update_of_ne (by omega), Nat.add_assoc, Nat.add_comm 1]
      exact hheld (j + 1) (by omega)

lemma Exact.ref (pa : Nat) : Exact map (h.step (.ref pa)) := by
  rw [Held.step, Pool.ref]
  split
  · exact h'
  rename_i hok
  generalize h.pool.page pa = i at hok ⊢
  rw [not_or, not_or, not_or, Bool.not_eq_false] at hok
  obtain ⟨-, -, hbit, -⟩ := hok
  refine ⟨h'.used, fun k hk => ?_, fun k => ?_, h'.inside, h'.fits⟩
  · by_cases hki : k = i
    · rw [hki]
      exact hbit
    dsimp only at hk
    rw [update_of_ne hki] at hk
    exact h'.refs k hk
  have howners := h'.owners k
  dsimp only
  rw [if_pos rfl]
  by_cases hki : k = i
  · subst hki
    rw [update_self, update_self, hbit, if_pos rfl]
    rw [hbit, if_pos rfl] at howners
    omega
  · rw [update_of_ne hki, update_of_ne hki]
    exact howners

lemma Exact.step (call : Call) (hlegal : h.Legal call) : Exact map (h.step call) ∧
    h.Answers map call := by
  match call with
  | .alloc => exact h'.alloc
  | .allocPages n => exact h'.allocPages hlegal
  | .ref pa => exact ⟨h'.ref pa, trivial⟩
  | .free pa => exact ⟨h'.freed hlegal.1 hlegal.2.2, trivial⟩
  | .freePages pa n =>
    obtain ⟨hpa, hroom, hheld⟩ := hlegal
    have := h'.freedPages hroom hheld
    rw [hpa] at this
    exact ⟨this, trivial⟩
  | .store a b => exact ⟨⟨h'.used, h'.refs, h'.owners, h'.inside, h'.fits⟩, trivial⟩

omit h'

/-- The allocator as `pmm_init` leaves it; nobody holds anything yet. -/
def boot (first last : Nat) (ram : Nat → UInt8) : Held := ⟨Pool.init first last ram, fun _ => 0⟩

def tables (first last : Nat) (ram : Nat → UInt8) : Nat := (Pool.init first last ram).used

lemma boot_exact (first last : Nat) (hlast : last < 2 ^ 32) (ram : Nat → UInt8) :
    Exact (tables first last ram) (boot first last ram) := by
  rw [tables, boot, Pool.init]
  split
  · refine ⟨rfl, fun i hi => absurd rfl hi, fun i => rfl, fun i hi => (nomatch hi), ?_⟩
    rw [Pool.Fits, pageSize]
    dsimp only
    omega
  rename_i hroom
  rw [not_or, Nat.not_le, Nat.not_le] at hroom
  generalize hp : (last / pageSize * pageSize - (first + (pageSize - 1)) % 2 ^ 32 / pageSize *
    pageSize) / pageSize =
    pages at hroom ⊢
  obtain ⟨hlt, hmap⟩ := hroom
  refine ⟨?_, fun i hi => absurd rfl hi, fun i => ?_, fun i hi => ?_, ?_⟩
  · have hfilter : ((Finset.range pages).filter fun i => decide (i < Pool.mapPages pages) = true) =
        Finset.range (Pool.mapPages pages) := by
      ext i
      simp only [Finset.mem_filter, Finset.mem_range, decide_eq_true_eq]
      omega
    dsimp only
    rw [hfilter, Finset.card_range]
  · simp
  · exact Nat.lt_trans (of_decide_eq_true hi) hmap
  · rw [Pool.Fits]
    dsimp only
    rw [← hp]
    have hmul := Nat.div_mul_le_self
      (last / pageSize * pageSize - (first + (pageSize - 1)) % 2 ^ 32 / pageSize *
        pageSize) pageSize
    have hdown := Nat.div_mul_le_self last pageSize
    omega

/-- **The page allocator is exact**, whatever it is asked, as long as nobody frees what it does not
hold. -/
theorem allocator_exact (first last : Nat) (hlast : last < 2 ^ 32) (ram : Nat → UInt8)
    (calls : List Call)
    (hlegal : Runs.Every step Legal calls (boot first last ram)) :
    Exact (tables first last ram) (calls.foldl step (boot first last ram)) ∧
      Runs.Every step (fun h call => h.Answers (tables first last ram) call) calls
      (boot first last ram) :=
  ⟨Runs.induction_on (fun _ call h' hl => (h'.step call hl).1) calls
    (boot_exact first last hlast ram) hlegal,
    Runs.every_of_invariant (fun _ call h' hl => h'.step call hl) calls
      (boot_exact first last hlast ram) hlegal⟩

/-- A page and a run are taken, the page is shared, and all of it is freed again. -/
def someCalls : List Call :=
  [.alloc, .allocPages 3, .ref 4096, .free 4096, .store 5000 7, .free 4096, .freePages 8192 3]

theorem allocator_exact_someCalls : Runs.Every step Legal someCalls (boot 0 65536 fun _ => 9) ∧
      Exact (tables 0 65536 fun _ => 9) (someCalls.foldl step (boot 0 65536 fun _ => 9)) := by
  have hlegal : Runs.Every step Legal someCalls (boot 0 65536 fun _ => 9) := by decide +kernel
  exact ⟨hlegal, (allocator_exact 0 65536 (by decide) (fun _ => 9) someCalls hlegal).1⟩

end Held

end Sage040.Pmm
