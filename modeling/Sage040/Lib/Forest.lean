import Mathlib

/-!
# Pointer forests

Trees kept in numbered blocks: a block that is a table holds the numbers of the blocks below it, `0`
for none, and every tree hangs from a root cell. `walk` follows a path of indices down from a block,
`node` from a root. A root's depth bounds the paths from it, so whether a block is read as a table
depends only on where it was reached.

`Owns` says that no block is reached twice and that every block reached has a property, such as a
mark in a map of blocks in use. The rest of the file is what the writes that maintain such trees do
to it: `node_congr` for a write that no path reads, `node_setPtr` and `node_setRoot` for a pointer,
and from them `attached_root` and `attached_ptr` for a fresh block; `Owns.attach` and `Owns.sub` are
what a block more and blocks less mean.
-/

namespace Forest

open List

abbrev Store := Nat → Nat → Nat

/-- The block at the end of a path from `b`, or `0` where the path ends early. -/
def walk (S : Store) : Nat → List Nat → Nat
  | b, [] => b
  | b, i :: p => if b = 0 then 0 else walk S (S b i) p

section Walk

variable {S S' : Store} {b i x : Nat} {p q : List Nat}

@[simp] lemma walk_nil (S : Store) (b) : walk S b [] = b := rfl

@[simp] lemma walk_zero (S : Store) (p) : walk S 0 p = 0 := by
  cases p with
  | nil => rfl
  | cons i p => exact if_pos rfl

lemma walk_cons (h : b ≠ 0) : walk S b (i :: p) = walk S (S b i) p := if_neg h

lemma walk_append (S : Store) (b p q) : walk S b (p ++ q) = walk S (walk S b p) q := by
  induction p generalizing b with
  | nil => rfl
  | cons i p ih =>
    by_cases hb : b = 0
    · subst hb
      simp
    · rw [cons_append, walk_cons hb, walk_cons hb, ih]

lemma walk_congr (h : ∀ q i t, p = q ++ i :: t → walk S b q ≠ 0 →
    S' (walk S b q) i = S (walk S b q) i) : walk S' b p = walk S b p := by
  induction p generalizing b with
  | nil => rfl
  | cons i p ih =>
    by_cases hb : b = 0
    · subst hb
      simp
    have h0 : S' b i = S b i := h [] i p rfl hb
    rw [walk_cons hb, walk_cons hb, h0]
    refine ih fun q j t hq hne => ?_
    have := h (i :: q) j t (by rw [hq, cons_append])
    rw [walk_cons hb] at this
    exact this hne

lemma walk_of_empty {n : Nat} (h : ∀ i < n, S b i = 0) (hp : ∀ i ∈ p, i < n) :
    walk S b p = if p = [] then b else 0 := by
  cases p with
  | nil => rfl
  | cons i p =>
    by_cases hb : b = 0
    · subst hb
      simp
    · rw [walk_cons hb, h i (hp i mem_cons_self), walk_zero, if_neg (cons_ne_nil i p)]

end Walk

/-! ## What hangs from a block -/

/-- The paths of at most `l` indices below `n`. -/
def Fits (n l : Nat) (p : List Nat) : Prop := p.length ≤ l ∧ ∀ i ∈ p, i < n

/-- Block `c` hangs from `b`, at most `l` tables down. -/
def Below (S : Store) (n l b c : Nat) : Prop := c ≠ 0 ∧ ∃ p, Fits n l p ∧ walk S b p = c

/-- Nothing hangs from `b` twice. -/
def Tree (S : Store) (n l b : Nat) : Prop :=
  ∀ p q, Fits n l p → Fits n l q → walk S b p ≠ 0 → walk S b p = walk S b q → p = q

section Below

variable {S S' : Store} {n l b c i j : Nat} {p : List Nat}

lemma Fits.nil (n l) : Fits n l [] := ⟨Nat.zero_le _, nofun⟩

lemma fits_cons : Fits n (l + 1) (i :: p) ↔ i < n ∧ Fits n l p := by
  simp only [Fits, length_cons, mem_cons, forall_eq_or_imp, Nat.add_le_add_iff_right]
  exact ⟨fun h => ⟨h.2.1, h.1, h.2.2⟩, fun h => ⟨h.2.1, h.1, h.2.2⟩⟩

lemma Fits.of_append {q} (h : Fits n l (p ++ q)) : Fits n l p :=
  ⟨Nat.le_trans (by simp) h.1, fun i hi => h.2 i (mem_append_left q hi)⟩

lemma below_walk (hp : Fits n l p) (hne : walk S b p ≠ 0) : Below S n l b (walk S b p) :=
  ⟨hne, p, hp, rfl⟩

lemma below_self (hb : b ≠ 0) : Below S n l b b := ⟨hb, [], Fits.nil n l, rfl⟩

lemma below_succ : Below S n (l + 1) b c ↔ b ≠ 0 ∧ (c = b ∨ ∃ i < n, Below S n l (S b i) c) := by
  constructor
  · rintro ⟨hc, p, hp, rfl⟩
    have hb : b ≠ 0 := by
      rintro rfl
      exact hc (walk_zero S p)
    cases p with
    | nil => exact ⟨hb, .inl rfl⟩
    | cons i p =>
      obtain ⟨hi, hp⟩ := fits_cons.1 hp
      rw [walk_cons hb] at hc ⊢
      exact ⟨hb, .inr ⟨i, hi, hc, p, hp, rfl⟩⟩
  · rintro ⟨hb, rfl | ⟨i, hi, hc, p, hp, rfl⟩⟩
    · exact below_self hb
    · exact ⟨hc, i :: p, fits_cons.2 ⟨hi, hp⟩, walk_cons hb⟩

lemma walk_congr_below (h : ∀ c, Below S n l b c → S' c = S c) (hp : Fits n l p) :
    walk S' b p = walk S b p := by
  refine walk_congr fun q i t hq hne => ?_
  rw [h _ (below_walk (hq ▸ hp).of_append hne)]

lemma below_congr (h : ∀ c, Below S n l b c → S' c = S c) : Below S' n l b c ↔ Below S n l b c := by
  constructor <;> rintro ⟨hc, p, hp, rfl⟩
  · rw [walk_congr_below h hp] at hc ⊢
    exact ⟨hc, p, hp, rfl⟩
  · exact ⟨hc, p, hp, walk_congr_below h hp⟩

lemma Tree.congr (ht : Tree S n l b) (h : ∀ c, Below S n l b c → S' c = S c) : Tree S' n l b := by
  intro p q hp hq hne heq
  rw [walk_congr_below h hp] at hne heq
  rw [walk_congr_below h hq] at heq
  exact ht p q hp hq hne heq

lemma Tree.child (ht : Tree S n (l + 1) b) (hb : b ≠ 0) (hi : i < n) : Tree S n l (S b i) := by
  intro p q hp hq hne heq
  have := ht (i :: p) (i :: q) (fits_cons.2 ⟨hi, hp⟩) (fits_cons.2 ⟨hi, hq⟩)
    (by rwa [walk_cons hb]) (by rwa [walk_cons hb, walk_cons hb])
  exact (cons.inj this).2

lemma Tree.disjoint (ht : Tree S n (l + 1) b) (hb : b ≠ 0) (hi : i < n) (hj : j < n) (hij : i ≠ j)
    (hc : Below S n l (S b i) c) : ¬ Below S n l (S b j) c := by
  rintro ⟨-, q, hq, heq⟩
  obtain ⟨hc, p, hp, rfl⟩ := hc
  have := ht (i :: p) (j :: q) (fits_cons.2 ⟨hi, hp⟩) (fits_cons.2 ⟨hj, hq⟩)
    (by rwa [walk_cons hb]) (by rw [walk_cons hb, walk_cons hb, heq])
  exact hij (cons.inj this).1

lemma Tree.irrefl (ht : Tree S n (l + 1) b) (hb : b ≠ 0) (hi : i < n) :
    ¬ Below S n l (S b i) b := by
  rintro ⟨-, p, hp, heq⟩
  have := ht (i :: p) [] (fits_cons.2 ⟨hi, hp⟩) (Fits.nil n _) (by rw [walk_cons hb, heq]; exact hb)
    (by rw [walk_cons hb, heq, walk_nil])
  cases this

end Below

/-! ## Trees hanging from roots -/

section Node

variable {ι : Type} (d : ι → Nat) (n : Nat)

/-- The paths from a root that the trees have room for. -/
def Path (r : ι) (p : List Nat) : Prop := Fits n (d r) p

variable {d n}

lemma Path.of_append {r : ι} {p q} (h : Path d n r (p ++ q)) : Path d n r p :=
  Fits.of_append h

lemma Path.of_cons_append {r : ι} {p q i} (h : Path d n r (p ++ i :: q)) :
    p.length < d r ∧ i < n := by
  have := h.1
  rw [length_append, length_cons] at this
  exact ⟨by omega, h.2 i (by simp)⟩

/-- The block at the end of a path from a root. -/
def node (S : Store) (root : ι → Nat) (r : ι) (p : List Nat) : Nat := walk S (root r) p

lemma node_append (S : Store) (root : ι → Nat) (r : ι) (p q) :
    node S root r (p ++ q) = walk S (node S root r p) q := walk_append S (root r) p q

variable (d n) in
/-- No block is reached twice, and every block reached has the property. -/
structure Owns (S : Store) (root : ι → Nat) (P : Nat → Prop) : Prop where
  held : ∀ r p, Path d n r p → node S root r p ≠ 0 → P (node S root r p)
  apart : ∀ r p r' p', Path d n r p → Path d n r' p' → node S root r p ≠ 0 →
    node S root r p = node S root r' p' → r = r' ∧ p = p'

variable {S S' : Store} {root root' : ι → Nat} {P P' : Nat → Prop} {r r' : ι} {p q t : List Nat}
  {i x : Nat}

lemma node_congr (h : ∀ q, Path d n r q → q.length < d r → node S root r q ≠ 0 →
      ∀ i < n, S' (node S root r q) i = S (node S root r q) i) (hp : Path d n r p) :
    node S' root r p = node S root r p := by
  refine walk_congr fun q i t hq hne => ?_
  subst hq
  obtain ⟨hlen, hi⟩ := hp.of_cons_append
  exact h q hp.of_append hlen hne i hi

variable (h : Owns d n S root P)

include h

lemma Owns.tree (r) : Tree S n (d r) (root r) :=
  fun p q hp hq hne heq => (h.apart r p r q hp hq hne heq).2

lemma Owns.disjoint (hr : r ≠ r') {c : Nat} (hc : Below S n (d r) (root r) c) : ¬ Below S n (d r')
    (root r') c := by
  rintro ⟨-, q, hq, heq⟩
  obtain ⟨hc, p, hp, rfl⟩ := hc
  exact hr (h.apart r p r' q hp hq hc heq.symm).1

lemma Owns.sub (hsub : ∀ r p, Path d n r p → node S' root' r p ≠ 0 →
    node S' root' r p = node S root r p)
    (hP : ∀ r p, Path d n r p → node S' root' r p ≠ 0 → P' (node S' root' r p)) :
    Owns d n S' root' P' := by
  refine ⟨hP, fun r p r' p' hp hp' hne heq => ?_⟩
  have h1 := hsub r p hp hne
  have h2 := hsub r' p' hp' (heq ▸ hne)
  exact h.apart r p r' p' hp hp' (h1 ▸ hne) (by rw [← h1, ← h2, heq])

lemma Owns.congr (hnode : ∀ r p, Path d n r p → node S' root' r p = node S root r p)
    (hP : ∀ r p, Path d n r p → node S root r p ≠ 0 → P' (node S root r p)) :
    Owns d n S' root' P' :=
  h.sub (fun r p hp _ => hnode r p hp) fun r p hp hne => by
    rw [hnode r p hp] at hne ⊢
    exact hP r p hp hne

variable (d n) in
/-- The same trees, but for a new block at one place that had none. -/
def Attached (S : Store) (root : ι → Nat) (S' : Store) (root' : ι → Nat) (r0 : ι) (p0 : List Nat)
    (x : Nat) : Prop :=
  ∀ r p, Path d n r p → node S' root' r p = node S root r p ∨
    (r = r0 ∧ p = p0 ∧ node S root r p = 0 ∧ node S' root' r p = x)

lemma Owns.attach {r0 : ι} {p0 : List Nat} (hx : ¬ P x)
    (hnode : Attached d n S root S' root' r0 p0 x) (hP : ∀ b, P b ∨ b = x → P' b) :
    Owns d n S' root' P' := by
  refine ⟨fun r p hp hne => hP _ ?_, fun r p r' p' hp hp' hne heq => ?_⟩
  · rcases hnode r p hp with hold | ⟨_, _, _, hx⟩
    · exact .inl (hold ▸ h.held r p hp (hold ▸ hne))
    · exact .inr hx
  have old : ∀ r p, Path d n r p → node S root r p ≠ 0 → node S root r p ≠ x :=
    fun r p hp hne heq => hx (heq ▸ h.held r p hp hne)
  rcases hnode r p hp with h1 | ⟨hr, hp1, -, h1⟩ <;>
    rcases hnode r' p' hp' with h2 | ⟨hr', hp2, -, h2⟩
  · exact h.apart r p r' p' hp hp' (h1 ▸ hne) (by rw [← h1, ← h2, heq])
  · refine absurd ?_ (old r p hp (h1 ▸ hne))
    rw [← h1, heq, h2]
  · refine absurd ?_ (old r' p' hp' ?_)
    · rw [← h2, ← heq, h1]
    rw [← h2, ← heq]
    exact hne
  · exact ⟨hr.trans hr'.symm, hp1.trans hp2.symm⟩

def setPtr (S : Store) (b i x : Nat) : Store := fun c j => if c = b ∧ j = i then x else S c j

/-- **A pointer is changed**: the paths through it go on from the new block, the others are as they
were. -/
lemma node_setPtr (hq : Path d n r (q ++ [i])) (hb : node S root r q ≠ 0) (hp : Path d n r' p) :
    (∀ t, r' = r → p = q ++ i :: t →
      node (setPtr S (node S root r q) i x) root r' p = walk (setPtr S (node S root r q) i x) x t) ∧
    (¬ (r' = r ∧ ∃ t, p = q ++ i :: t) → node (setPtr S (node S root r q) i x) root r' p =
    node S root r' p) := by
  have same : ∀ r' p, Path d n r' p → ¬ (r' = r ∧ ∃ t, p = q ++ i :: t) →
      node (setPtr S (node S root r q) i x) root r' p = node S root r' p := by
    intro r' p hp hnot
    refine walk_congr fun q' j t hq' hne => if_neg ?_
    rintro ⟨heq, rfl⟩
    -- a table that is the one written was reached by the same path
    subst hq'
    obtain ⟨rfl, rfl⟩ := h.apart r' q' r q hp.of_append hq.of_append hne heq
    exact hnot ⟨rfl, t, rfl⟩
  refine ⟨fun t hr hpt => ?_, same r' p hp⟩
  subst hr hpt
  have hsame : node (setPtr S (node S root r' q) i x) root r' q = node S root r' q := by
    refine same r' q hq.of_append fun ⟨_, t', ht'⟩ => ?_
    have := congrArg length ht'
    simp at this
  have hat : setPtr S (node S root r' q) i x (node S root r' q) i = x := if_pos ⟨rfl, rfl⟩
  rw [node] at hsame ⊢
  rw [walk_append, hsame, walk_cons (by exact hb)]
  rw [node] at hat ⊢
  rw [hat]

omit h

section Attach

variable [DecidableEq ι]

lemma node_setRoot : node S (Function.update root r x) r' p =
    if r' = r then walk S x p else node S root r' p := by
  rw [node, Function.update_apply]
  split
  · rfl
  · rfl

/-- A fresh block is hung from a root that had none. -/
lemma attached_root (h : Owns d n S root P) (h0 : root r = 0) (hx : ¬ P x)
    (hS : ∀ c, c ≠ x → S' c = S c) (hempty : ∀ i < n, S' x i = 0) :
    Attached d n S root S' (Function.update root r x) r [] x := by
  intro r' p hp
  by_cases hr : r' = r
  · subst hr
    have hold : node S root r' p = 0 := by rw [node, h0, walk_zero]
    rw [node_setRoot, if_pos rfl, walk_of_empty hempty hp.2, hold]
    split
    · rename_i hnil
      exact .inr ⟨rfl, hnil, rfl, rfl⟩
    · exact .inl rfl
  · rw [node_setRoot, if_neg hr]
    refine .inl (node_congr (fun q hq _ hq0 i _ => ?_) hp)
    rw [hS _ fun heq => hx (heq ▸ h.held r' q hq hq0)]

/-- A fresh block is hung from a table that had none there. -/
lemma attached_ptr (h : Owns d n S root P) (hq : Path d n r (q ++ [i]))
    (hb : node S root r q ≠ 0) (h0 : S (node S root r q) i = 0) (hx : ¬ P x)
    (hS : ∀ c, c ≠ x → S' c = setPtr S (node S root r q) i x c) (hempty : ∀ i < n, S' x i = 0) :
    Attached d n S root S' root r (q ++ [i]) x := by
  have hfresh : ∀ r p, Path d n r p → node S root r p ≠ 0 → node S root r p ≠ x :=
    fun r p hp hne heq => hx (heq ▸ h.held r p hp hne)
  -- the new table is empty already where the pointer is written
  have hS1 : ∀ r' p, Path d n r' p →
      node (setPtr S' (node S root r q) i 0) root r' p = node S root r' p := by
    intro r' p hp
    refine node_congr (fun q' hq' hlen hne j hj => ?_) hp
    rw [setPtr]
    split
    · rename_i heq
      rw [heq.1, heq.2, h0]
    · rename_i hneq
      rw [hS _ (hfresh r' q' hq' hne), setPtr, if_neg hneq]
  have hown : Owns d n (setPtr S' (node S root r q) i 0) root P := h.congr hS1 h.held
  have hback : setPtr (setPtr S' (node S root r q) i 0) (node S root r q) i x = S' := by
    funext c j
    rw [setPtr, setPtr]
    split
    · rename_i heq
      rw [heq.1, heq.2, hS _ (hfresh r q hq.of_append hb), setPtr, if_pos ⟨rfl, rfl⟩]
    · rfl
  have hset := fun (r' : ι) (p : List Nat) (hp : Path d n r' p) =>
    node_setPtr (x := x) hown hq (by rw [hS1 r q hq.of_append]; exact hb) hp
  simp only [hS1 r q hq.of_append, hback] at hset
  intro r' p hp
  by_cases hthrough : r' = r ∧ ∃ t, p = q ++ i :: t
  · obtain ⟨hr, t, ht⟩ := hthrough
    have hold : node S root r' p = 0 := by
      rw [hr, ht, node_append, walk_cons hb, h0, walk_zero]
    rw [(hset r' p hp).1 t hr ht, hold, walk_of_empty hempty fun j hj => hp.2 j (by simp [ht, hj])]
    split
    · rename_i hnil
      exact .inr ⟨hr, by rw [ht, hnil], rfl, rfl⟩
    · exact .inl rfl
  · rw [(hset r' p hp).2 hthrough, hS1 r' p hp]
    exact .inl rfl

end Attach

end Node

end Forest
