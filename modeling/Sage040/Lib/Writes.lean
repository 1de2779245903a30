import Mathlib

/-!
# Lists of writes to a store

A store maps addresses to values, and a device that is written one cell at a time is described by
the *list* of writes it received: cutting the power after `k` of them leaves the store with the
first `k` applied. What a list of writes does to one address depends only on the last write in
it to that address, `lastWrite`, so every fact below is a fact about `lastWrite`.

The two that redo logging rests on are `applyWrites_redo` — applying a whole list again over any
part of it gives the whole list — and `applyWrites_of_notMem`, that nothing else is touched.
-/

universe u v

variable {α : Type u} {β : Type v} [DecidableEq α]

/-- The value the last write in the list to `a` put there, if any did. -/
def lastWrite : List (α × β) → α → Option β
  | [], _ => none
  | w :: ws, a => (lastWrite ws a).or (if w.1 = a then some w.2 else none)

/-- The store after the writes, applied in order. -/
def applyWrites (ws : List (α × β)) (d : α → β) : α → β := fun a => (lastWrite ws a).getD (d a)

@[simp] lemma lastWrite_nil (a : α) : lastWrite ([] : List (α × β)) a = none := rfl

lemma lastWrite_cons (w : α × β) (ws : List (α × β)) (a : α) :
    lastWrite (w :: ws) a = (lastWrite ws a).or (if w.1 = a then some w.2 else none) := rfl

@[simp] lemma lastWrite_singleton (k a : α) (v : β) :
    lastWrite [(k, v)] a = if k = a then some v else none := by
  simp [lastWrite]

lemma lastWrite_append (us ws : List (α × β)) (a : α) :
    lastWrite (us ++ ws) a = (lastWrite ws a).or (lastWrite us a) := by
  induction us with
  | nil => simp
  | cons w us ih => rw [List.cons_append, lastWrite_cons, ih, lastWrite_cons, Option.or_assoc]

lemma lastWrite_eq_none_iff (ws : List (α × β)) (a : α) : lastWrite ws a = none ↔ ∀ w ∈ ws,
    w.1 ≠ a := by
  induction ws with
  | nil => simp
  | cons w ws ih => simp [lastWrite_cons, Option.or_eq_none_iff, ih, and_comm]

variable {ws : List (α × β)} {a : α}

lemma mem_of_lastWrite {v : β} (h : lastWrite ws a = some v) : (a, v) ∈ ws := by
  induction ws with
  | nil => simp at h
  | cons w ws ih =>
    rw [lastWrite_cons, Option.or_eq_some_iff] at h
    rcases h with h | ⟨-, h⟩
    · exact List.mem_cons_of_mem _ (ih h)
    split at h
    · rename_i hk
      obtain ⟨k, x⟩ := w
      simp only [Option.some_inj] at h hk
      subst hk h
      exact List.mem_cons_self
    · simp at h

section Filter

variable {γ : Type v} (f : γ → α × β) (p : γ → Bool) {cs : List γ} {a : α}

lemma lastWrite_filter_eq_none (h : ∀ c ∈ cs, (f c).1 = a → p c = false) :
    lastWrite ((cs.filter p).map f) a = none := by
  rw [lastWrite_eq_none_iff]
  intro w hw ha
  obtain ⟨c, hc, rfl⟩ := List.mem_map.mp hw
  obtain ⟨hmem, hp⟩ := List.mem_filter.mp hc
  exact absurd (h c hmem ha) (by simp [hp])

/-- A filter that, once it has let a write to `a` through, lets every later one through, makes no
difference at `a`. -/
lemma lastWrite_filter_eq (h : cs.Pairwise fun c c' => (f c).1 = a → (f c').1 = a →
    p c = true → p c' = true)
    (he : ∃ c ∈ cs, (f c).1 = a ∧ p c = true) : lastWrite ((cs.filter p).map f) a =
    lastWrite (cs.map f) a := by
  induction cs using List.reverseRecOn with
  | nil => simp at he
  | append_singleton cs c ih =>
    obtain ⟨hcs, -, hlast⟩ := List.pairwise_append.mp h
    rw [List.filter_append, List.map_append, List.map_append, lastWrite_append, lastWrite_append]
    obtain ⟨x, hx, hxa, hxp⟩ := he
    by_cases ha : (f c).1 = a
    · have hp : p c = true := by
        rcases List.mem_append.mp hx with hx | hx
        · exact hlast x hx c (List.mem_singleton_self _) hxa ha hxp
        · exact List.mem_singleton.mp hx ▸ hxp
      simp [hp, lastWrite_cons, ha]
    have hx : x ∈ cs := by
      rcases List.mem_append.mp hx with hx | hx
      · exact hx
      · exact absurd (List.mem_singleton.mp hx ▸ hxa) ha
    rw [ih hcs ⟨x, hx, hxa, hxp⟩]
    have hn : ∀ l : List γ, l ⊆ [c] → lastWrite (l.map f) a = none := by
      intro l hl
      rw [lastWrite_eq_none_iff]
      intro w hw hwa
      obtain ⟨c', hc', rfl⟩ := List.mem_map.mp hw
      exact ha (List.mem_singleton.mp (hl hc') ▸ hwa)
    rw [hn _ (List.filter_subset_self _), hn [c] (List.Subset.refl _)]

end Filter

/-! ## The store after a list of writes -/

@[simp] lemma applyWrites_nil (d : α → β) : applyWrites [] d = d := rfl

lemma applyWrites_append (us ws : List (α × β)) (d : α → β) :
    applyWrites (us ++ ws) d = applyWrites ws (applyWrites us d) := by
  funext a
  simp only [applyWrites, lastWrite_append]
  cases lastWrite ws a <;> rfl

@[simp] lemma applyWrites_singleton (k : α) (v : β) (d : α → β) :
    applyWrites [(k, v)] d = Function.update d k v := by
  funext a
  by_cases h : k = a
  · subst h; simp [applyWrites]
  · rw [Function.update_of_ne (Ne.symm h)]; simp [applyWrites, h]

lemma applyWrites_cons (k : α) (v : β) (ws) (d : α → β) :
    applyWrites ((k, v) :: ws) d = applyWrites ws (Function.update d k v) := by
  rw [← List.singleton_append, applyWrites_append, applyWrites_singleton]

/-- **Frame**: an address no write names keeps its value. -/
lemma applyWrites_of_notMem (h : ∀ w ∈ ws, w.1 ≠ a) (d : α → β) : applyWrites ws d a = d a := by
  rw [applyWrites, (lastWrite_eq_none_iff ws a).mpr h, Option.getD_none]

/-- What an address holds was there before, or is one of the writes. -/
lemma applyWrites_eq_or_mem (ws) (d : α → β) (a) : applyWrites ws d a = d a ∨
    (a, applyWrites ws d a) ∈ ws := by
  unfold applyWrites
  cases hl : lastWrite ws a with
  | none => exact .inl rfl
  | some v => exact .inr (mem_of_lastWrite hl)

/-- Where the writes reach, what was there before does not matter; elsewhere only it does. -/
lemma applyWrites_congr {d e : α → β}
    (h : (∀ w ∈ ws, w.1 ≠ a) → d a = e a) : applyWrites ws d a = applyWrites ws e a := by
  simp only [applyWrites]
  cases hl : lastWrite ws a with
  | none => simpa using h ((lastWrite_eq_none_iff ws a).mp hl)
  | some v => rfl

/-- **Redo**: applying the whole list over what any prefix of it left gives the whole list. -/
lemma applyWrites_redo (ws) (k : Nat) (d : α → β) :
    applyWrites ws (applyWrites (ws.take k) d) = applyWrites ws d := by
  funext a
  refine applyWrites_congr fun h => applyWrites_of_notMem ?_ d
  exact fun w hw => h w (List.mem_of_mem_take hw)
