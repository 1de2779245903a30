import Sage040.Kernel.Vm.Shared

/-!
# Who writes a file through a mapping

A shared mapping is a way to write the file, so `mmap` wants a descriptor open for reading and
writing before it makes one that can be written. `Rightful` is what that check is for: no byte of a
file has come from a store, unless through a shared mapping of a descriptor of it open `O_RDWR`.

The check is made once. `mprotect` adds the right to write to a page that is mapped already, and
asks nothing: `written_readonly` maps a file through a descriptor open for reading, raises the
protection, and changes the file. `rightful_of_granted_run` is what does hold: in every run in which
`mprotect` never gives a shared page of such a mapping the right to write, and no two of the files
that are opened have one key, every file is rightful, whichever processes map it, fork, move their
mappings, sync or end.
-/

namespace Sage040.Vm

open Relation Function World Finset Desc List
open FileKey (FileId)

/-- The file's own bytes, and those stored by who may write it. -/
def Own (f : FileId) (o : Origin) : Prop := o = .file f ∨ o = .stored true (some (f, .rdwr))

/-- **A shared mapping writes a file only with the right to write it.** -/
def Rightful (w : World) : Prop := ∀ f o, Own f ((w.files f).data o).2

/-! ## The invariant -/

/-- The program can write the page, at once or after a fault. -/
def Desc.writes (d : Desc) : Bool := d.resident && (!d.wp || d.cow)

/-- What the cache may have under a key, where the files that are opened are `fs`: what is one's own
that has it. -/
def Good (fs : Set FileId) (ino : BitVec 32) (o : Origin) : Prop := ∃ f ∈ fs, f.key = ino ∧ Own f o

/-- If the page is cached, it was mapped through a file with that key. -/
abbrev Names (fs : Set FileId) (w : World) (p : Nat) (via : Option Handle) : Prop :=
  ∀ ino idx e, w.cache ino idx = some e → e.page = p → ∃ file, via = some file ∧ file.1 ∈ fs ∧
    file.1.key = ino

/-- The access mode of the descriptor that a page was mapped through. -/
def Mapped.mode (m : Mapped) : Option Mode := m.via.map Prod.snd

structure Inv (fs : Set FileId) (w : World) : Prop where
  /-- Whoever has a page holds it. -/
  held : ∀ pid v, (w.table pid v).desc.hasPage = true →
    .map pid v ∈ w.holders (w.table pid v).desc.page
  cached : ∀ ino idx e, w.cache ino idx = some e → .cache ino idx ∈ w.holders e.page
  /-- A page to be handed out is held by nobody. -/
  nodup : w.free.Nodup
  unheld : ∀ p ∈ w.free, w.holders p = ∅
  /-- A page that is written privately is no file's. -/
  private_ : ∀ pid v, (w.table pid v).desc.writes = true → (w.table pid v).desc.shared = false →
    ∀ ino idx e, w.cache ino idx = some e → e.page ≠ (w.table pid v).desc.page
  /-- A page that is written and shared was mapped with the right to. -/
  granted : ∀ pid v, (w.table pid v).desc.writes = true → (w.table pid v).desc.shared = true →
    (w.table pid v).mode = some .rdwr
  /-- Shared pages are not copied on write. -/
  uncopied : ∀ pid v, (w.table pid v).desc.resident = true → (w.table pid v).desc.shared = true →
    (w.table pid v).desc.cow = false
  opened : ∀ pid fd file, w.fds pid fd = some file → file.1 ∈ fs
  mapped : ∀ pid v, (w.table pid v).desc.hasPage = true → (w.table pid v).desc.shared = true →
    Names fs w (w.table pid v).desc.page (w.table pid v).via
  /-- A page is cached under one key. -/
  single : ∀ ino idx e ino' idx' e', w.cache ino idx = some e → w.cache ino' idx' = some e' →
    e.page = e'.page →
    ino = ino'
  /-- What is written back goes to a file with the key. -/
  through : ∀ ino idx e file, w.cache ino idx = some e → e.file = some file → file.1 ∈ fs ∧
    file.1.key = ino
  pages : ∀ ino idx e, w.cache ino idx = some e → ∀ o, Good fs ino (w.ram e.page o).2
  files : ∀ f o, ((w.files f).data o).2 = .file f ∨ f ∈ fs ∧ Good fs f.key ((w.files f).data o).2

lemma update_at {ι α : Type} [DecidableEq ι] (f : ι → Nat → α) (i : ι) (j : Nat) (i' : ι)
    (j' : Nat) (x : α) :
    update f i (update (f i) j x) i' j' = if i' = i ∧ j' = j then x else f i' j' := by
  by_cases hi : i' = i
  · subst hi
    rw [update_self, update_apply]
    simp
  · simp [hi]

variable {fs : Set FileId} {p q : Nat} {x : Holder} {via : Option Handle} {shared : Bool}

section Fields

variable (w : World)

lemma table_setDesc (pid v : Nat) (m : Mapped) (pid' v' : Nat) :
    (w.setDesc pid v m).table pid' v' = if pid' = pid ∧ v' = v then m else w.table pid' v' :=
  update_at ..

lemma cache_setEntry (ino : BitVec 32) (idx : Nat) (e : Option Entry) (ino' : BitVec 32)
    (idx' : Nat) : (w.setEntry ino idx e).cache ino' idx' =
      if ino' = ino ∧ idx' = idx then e else w.cache ino' idx' :=
  update_at ..

lemma holders_setHolders (p q) (hs : Finset Holder) :
    (w.setHolders p hs).holders q = if q = p then hs else w.holders q := update_apply ..

lemma ram_setPage (p q) (data : Nat → Cell) :
    (w.setPage p data).ram q = if q = p then data else w.ram q := update_apply ..

lemma eq_of_ref {w w' : World} (h : w.ref p x = some w') :
    w' = w.setHolders p (insert x (w.holders p)) := by
  rw [ref] at h
  split at h
  · exact (Option.some.inj h).symm
  · cases h

lemma mem_of_ref {w w' : World} (h : w.ref p x = some w') : x ∈ w'.holders p := by
  rw [eq_of_ref h, holders_setHolders, if_pos rfl]
  exact mem_insert_self _ _

/-- No file's page is frame `p`. -/
abbrev Uncached (w : World) (p : Nat) : Prop := ∀ ino idx e, w.cache ino idx = some e → e.page ≠ p

end Fields

namespace Inv

variable {w : World} {pid v idx p : Nat} {ino : BitVec 32}

variable (h : Inv fs w)

include h

variable {m : Mapped} {e : Entry} {data : Nat → Cell}

lemma setDesc (hheld : m.desc.hasPage = true → .map pid v ∈ w.holders m.desc.page)
    (hprivate : m.desc.writes = true → m.desc.shared = false → Uncached w m.desc.page)
    (hgranted : m.desc.writes = true → m.desc.shared = true → m.mode = some .rdwr)
    (huncopied : m.desc.resident = true → m.desc.shared = true → m.desc.cow = false)
    (hmapped : m.desc.hasPage = true → m.desc.shared = true → Names fs w m.desc.page m.via) :
    Inv fs (w.setDesc pid v m) := by
  refine ⟨fun pid' v' => ?_, h.cached, h.nodup, h.unheld, fun pid' v' => ?_, fun pid' v' => ?_,
    fun pid' v' => ?_, h.opened, fun pid' v' => ?_, h.single, h.through, h.pages, h.files⟩
  all_goals
    rw [table_setDesc]
    split
  · rename_i heq
    rw [heq.1, heq.2]
    exact hheld
  · exact h.held pid' v'
  · exact hprivate
  · exact h.private_ pid' v'
  · exact hgranted
  · exact h.granted pid' v'
  · exact huncopied
  · exact h.uncopied pid' v'
  · exact hmapped
  · exact h.mapped pid' v'

lemma setDesc_pageless (hm : m.desc.hasPage = false) : Inv fs (w.setDesc pid v m) := by
  have hres : m.desc.resident = false := by
    rw [Desc.hasPage, Bool.or_eq_false_iff] at hm
    exact hm.1
  have hw : m.desc.writes = false := by rw [Desc.writes, hres, Bool.false_and]
  exact h.setDesc (by simp [hm]) (by simp [hw]) (by simp [hw]) (by simp [hres]) (by simp [hm])

lemma setEntry {e'} (he : w.cache ino idx = some e)
    (hpage : e'.page = e.page) (hfile : ∀ file, e'.file = some file → file.1 ∈ fs ∧
    file.1.key = ino) :
    Inv fs (w.setEntry ino idx (some e')) := by
  have key : ∀ ino' idx' e'', (w.setEntry ino idx (some e')).cache ino' idx' = some e'' →
      ∃ e0, w.cache ino' idx' = some e0 ∧ e0.page = e''.page := by
    intro ino' idx' e'' h'
    rw [cache_setEntry] at h'
    split at h'
    · rename_i heq
      cases h'
      rw [heq.1, heq.2]
      exact ⟨e, he, hpage.symm⟩
    · exact ⟨e'', h', rfl⟩
  refine ⟨h.held, fun ino' idx' e'' h' => ?_, h.nodup, h.unheld,
    fun pid v hw hs ino' idx' e'' h' => ?_,
    h.granted, h.uncopied, h.opened, fun pid v hh hs ino' idx' e'' h' hp' => ?_,
    fun ino₁ idx₁ e₁ ino₂ idx₂ e₂ h₁ h₂ heq => ?_, fun ino' idx' e'' file h' hf => ?_,
      fun ino' idx' e'' h' => ?_,
    h.files⟩
  · obtain ⟨e0, h0, hp⟩ := key _ _ _ h'
    exact hp ▸ h.cached _ _ _ h0
  · obtain ⟨e0, h0, hp⟩ := key _ _ _ h'
    exact hp ▸ h.private_ pid v hw hs _ _ _ h0
  · obtain ⟨e0, h0, hp⟩ := key _ _ _ h'
    exact h.mapped pid v hh hs _ _ _ h0 (hp.trans hp')
  · obtain ⟨a₁, ha₁, hp₁⟩ := key _ _ _ h₁
    obtain ⟨a₂, ha₂, hp₂⟩ := key _ _ _ h₂
    exact h.single _ _ _ _ _ _ ha₁ ha₂ (hp₁.trans (heq.trans hp₂.symm))
  · rw [cache_setEntry] at h'
    split at h'
    · rename_i heq
      cases h'
      rw [heq.1]
      exact hfile file hf
    · exact h.through _ _ _ _ h' hf
  · obtain ⟨e0, h0, hp⟩ := key _ _ _ h'
    exact hp ▸ h.pages _ _ _ h0

lemma setData {f : FileId} (hdata : ∀ o, (data o).2 = .file f ∨ f ∈ fs ∧ Good fs f.key (data o).2) :
    Inv fs (w.setData f data) := by
  refine ⟨h.held, h.cached, h.nodup, h.unheld, h.private_, h.granted, h.uncopied, h.opened,
    h.mapped, h.single,
    h.through, h.pages, fun f' o => ?_⟩
  by_cases hi : f' = f
  · subst hi
    simp only [World.setData, update_self]
    exact hdata o
  · simp only [World.setData, update_of_ne hi]
    exact h.files f' o

/-- What a page of the cache has is good for the file it is written back to. -/
lemma good_writeBack {file : Handle} (he : w.cache ino idx = some e) (hf : e.file = some file) (o) :
    file.1 ∈ fs ∧ Good fs file.1.key (w.ram e.page o).2 := by
  obtain ⟨hmem, hkey⟩ := h.through _ _ _ _ he hf
  rw [hkey]
  exact ⟨hmem, h.pages _ _ _ he o⟩

lemma writeBack (he : w.cache ino idx = some e) : Inv fs (w.writeBack idx e) := by
  rw [World.writeBack]
  split
  · exact h
  rename_i f mode hf
  split
  · refine h.setData fun o => ?_
    split
    · exact .inr (h.good_writeBack he hf _)
    · exact h.files _ _
  · exact h

lemma syncIno (ino) : Inv fs (w.syncIno ino) := by
  refine ⟨h.held, h.cached, h.nodup, h.unheld, h.private_, h.granted, h.uncopied, h.opened,
    h.mapped, h.single,
    h.through, h.pages, fun f o => ?_⟩
  simp only [World.syncIno]
  split
  · exact h.files _ _
  rename_i e he
  split
  · rename_i hw
    obtain ⟨file, hfile, hany⟩ := (Option.any_eq_true _ _).1 hw.2.2.2
    obtain rfl : file.1 = f := by simpa using (Bool.and_eq_true_iff.1 hany).1
    exact .inr (h.good_writeBack he hfile _)
  · exact h.files _ _

/-- A page is filled: with a file's bytes, if it is a file's. -/
lemma setPage (hdata : ∀ ino idx e, w.cache ino idx = some e → e.page = p → ∀ o,
    Good fs ino (data o).2) :
    Inv fs (w.setPage p data) := by
  refine ⟨h.held, h.cached, h.nodup, h.unheld, h.private_, h.granted, h.uncopied, h.opened,
    h.mapped, h.single,
    h.through, fun ino' idx' e he o => ?_, h.files⟩
  rw [ram_setPage]
  split
  · rename_i hp
    exact hdata _ _ _ he hp o
  · exact h.pages _ _ _ he o

lemma setHolders {hs : Finset Holder} (hsub : w.holders p ⊆ hs) (hp : p ∉ w.free) :
    Inv fs (w.setHolders p hs) := by
  have hmono : ∀ q, w.holders q ⊆ (w.setHolders p hs).holders q := by
    intro q
    rw [holders_setHolders]
    split
    · rename_i hq
      rw [hq]
      exact hsub
    · exact Finset.Subset.refl _
  refine ⟨fun pid v hh => hmono _ (h.held pid v hh),
    fun ino idx e he => hmono _ (h.cached _ _ _ he),
    h.nodup, fun q hq => ?_, h.private_, h.granted, h.uncopied, h.opened, h.mapped, h.single,
      h.through, h.pages,
    h.files⟩
  have hne : q ≠ p := by
    rintro rfl
    exact hp hq
  rw [holders_setHolders, if_neg hne]
  exact h.unheld q hq

variable {x : Holder}

lemma not_mem_free (hx : x ∈ w.holders p) : p ∉ w.free := by
  intro hp
  rw [h.unheld p hp] at hx
  simp at hx

lemma ref {x y : Holder} {w' : World} (hw : w.ref p x = some w') (hy : y ∈ w.holders p) :
    Inv fs w' := by
  rw [eq_of_ref hw]
  exact h.setHolders (subset_insert _ _) (h.not_mem_free hy)

lemma dropHolder (hfree : p ∉ w.free)
    (hmap : ∀ pid v, (w.table pid v).desc.hasPage = true → (w.table pid v).desc.page = p →
    .map pid v ≠ x)
    (hcache : ∀ ino idx e, w.cache ino idx = some e → e.page = p → .cache ino idx ≠ x) :
    Inv fs (w.setHolders p ((w.holders p).erase x)) := by
  refine ⟨fun pid v hh => ?_, fun ino idx e he => ?_, h.nodup, fun q hq => ?_,
    h.private_, h.granted,
    h.uncopied, h.opened, h.mapped, h.single, h.through, h.pages, h.files⟩
  · have := h.held pid v hh
    rw [holders_setHolders]
    split
    · rename_i hp
      refine mem_erase.2 ⟨hmap pid v hh hp, ?_⟩
      rwa [← hp]
    · exact this
  · have := h.cached ino idx e he
    rw [holders_setHolders]
    split
    · rename_i hp
      refine mem_erase.2 ⟨hcache ino idx e he hp, ?_⟩
      rwa [← hp]
    · exact this
  · have hne : q ≠ p := by
      rintro rfl
      exact hfree hq
    rw [holders_setHolders, if_neg hne]
    exact h.unheld q hq

lemma unref (hx : x ∈ w.holders p)
    (hmap : ∀ pid v, (w.table pid v).desc.hasPage = true → (w.table pid v).desc.page = p →
    .map pid v ≠ x)
    (hcache : ∀ ino idx e, w.cache ino idx = some e → e.page = p → .cache ino idx ≠ x) :
    Inv fs (w.unref p x) := by
  have hfree := h.not_mem_free hx
  have hdrop := h.dropHolder hfree hmap hcache
  rw [World.unref]
  split
  · rename_i hcard
    refine ⟨hdrop.held, hdrop.cached, nodup_cons.2 ⟨hfree, h.nodup⟩, fun q hq => ?_,
      h.private_, h.granted, h.uncopied, h.opened, h.mapped, h.single, h.through, h.pages, h.files⟩
    rcases mem_cons.1 hq with rfl | hq'
    · show (w.setHolders q _).holders q = ∅
      rw [holders_setHolders, if_pos rfl]
      exact Finset.card_eq_zero.1 hcard
    · exact hdrop.unheld q hq'
  · exact hdrop

end Inv

structure Fresh (fs : Set FileId) (w w' : World) (p : Nat) (x : Holder) : Prop where
  inv : Inv fs w'
  table : w'.table = w.table
  cache : w'.cache = w.cache
  holders : w'.holders = update w.holders p {x}
  ram : ∀ q, q ≠ p → w'.ram q = w.ram q
  unmapped : ∀ pid v, (w.table pid v).desc.hasPage = true → (w.table pid v).desc.page ≠ p
  uncached : ∀ ino idx e, w.cache ino idx = some e → e.page ≠ p

variable {w w' : World} {x : Holder} {p : Nat}

lemma Fresh.mem (h : Fresh fs w w' p x) : x ∈ w'.holders p := by
  rw [h.holders, update_self]
  exact Finset.mem_singleton_self _

lemma Fresh.uncached' (h : Fresh fs w w' p x) : Uncached w' p :=
    fun ino idx e he => h.uncached ino idx e (h.cache ▸ he)

lemma Fresh.setPage (h : Fresh fs w w' p x) (data) : Inv fs (w'.setPage p data) :=
  h.inv.setPage fun ino idx e he heq => absurd heq (h.uncached' ino idx e he)

lemma Desc.hasPage_of_writes {d : Desc} (h : d.writes = true) : d.hasPage = true := by
  rw [Desc.writes, Bool.and_eq_true] at h
  rw [Desc.hasPage, h.1, Bool.true_or]

lemma writes_of (p) (write shared : Bool) : (Desc.of p write shared).writes = write := by
  cases write <;> rfl

lemma Fresh.ne_of_hasPage (h : Fresh fs w w' p x) {pid v}
    (hh : (w'.table pid v).desc.hasPage = true) : p ≠ (w'.table pid v).desc.page := by
  rw [h.table] at hh ⊢
  exact (h.unmapped pid v hh).symm

lemma Fresh.ne_of_writes (h : Fresh fs w w' p x) {pid v}
    (hw : (w'.table pid v).desc.writes = true) : p ≠ (w'.table pid v).desc.page :=
  h.ne_of_hasPage (hasPage_of_writes hw)

lemma Inv.alloc (h : Inv fs w) (ha : w.alloc x = some (p, w')) : Fresh fs w w' p x := by
  rw [World.alloc] at ha
  split at ha
  · cases ha
  rename_i free hfree
  cases ha
  have hp : p ∈ w.free := hfree ▸ mem_cons_self
  have hnodup := h.nodup
  rw [hfree] at hnodup
  obtain ⟨hnot, hnd⟩ := nodup_cons.1 hnodup
  have hunmapped : ∀ pid v, (w.table pid v).desc.hasPage = true →
      (w.table pid v).desc.page ≠ p := by
    intro pid v hh heq
    have := h.held pid v hh
    rw [heq, h.unheld p hp] at this
    simp at this
  have huncached : Uncached w p := by
    intro ino idx e he heq
    have := h.cached ino idx e he
    rw [heq, h.unheld p hp] at this
    simp at this
  -- the page leaves the list first
  have h1 : Inv fs { w with free := free } := by
    refine ⟨h.held, h.cached, hnd, fun q hq => ?_, h.private_, h.granted, h.uncopied, h.opened,
      h.mapped, h.single,
      h.through, h.pages, h.files⟩
    exact h.unheld q (hfree ▸ mem_cons_of_mem _ hq)
  have h2 : Inv fs ({ w with free := free }.setHolders p {x}) := by
    refine h1.setHolders ?_ hnot
    show w.holders p ⊆ _
    rw [h.unheld p hp]
    exact Finset.empty_subset _
  refine ⟨h2.setPage fun ino idx e he heq => absurd heq (huncached ino idx e he), rfl, rfl, rfl,
    fun q hq => ?_, hunmapped, huncached⟩
  rw [ram_setPage, if_neg hq]
  rfl

/-! ## The cache -/

namespace Inv

variable {w w' : World} {pid v idx p : Nat} {ino : BitVec 32} {f : FileId}

lemma cache_writeBack (w : World) (idx e) : (w.writeBack idx e).cache = w.cache := by
  rw [World.writeBack]
  split
  · rfl
  · split <;> rfl

variable (h : Inv fs w)

include h

lemma good_filePage (hf : f ∈ fs) (idx o : Nat) : Good fs f.key (w.filePage f idx o).2 := by
  simp only [filePage]
  split
  · rcases h.files f (idx * pageSize + o) with hown | ⟨-, hgood⟩
    · exact ⟨f, hf, rfl, .inl hown⟩
    · exact hgood
  · exact ⟨f, hf, rfl, .inl rfl⟩

lemma insertEntry (hheld : .cache ino idx ∈ w.holders p) (hpage : ∀ o, Good fs ino (w.ram p o).2)
    (huncached : Uncached w p)
    (hunmapped : ∀ pid v, (w.table pid v).desc.hasPage = true → (w.table pid v).desc.shared = true →
      p ≠ (w.table pid v).desc.page)
    (hprivate : ∀ pid v, (w.table pid v).desc.writes = true →
      (w.table pid v).desc.shared = false → p ≠ (w.table pid v).desc.page) :
      Inv fs (w.insertEntry ino idx p) := by
  have key : ∀ {P : BitVec 32 → Nat → Entry → Prop}, P ino idx ⟨p, 0, false, none⟩ →
      (∀ ino' idx' e, w.cache ino' idx' = some e → P ino' idx' e) →
      ∀ ino' idx' e, (w.insertEntry ino idx p).cache ino' idx' = some e → P ino' idx' e := by
    intro P hnew hold ino' idx' e he
    have he : (w.setEntry ino idx (some ⟨p, 0, false, none⟩)).cache ino' idx' = some e := he
    rw [cache_setEntry] at he
    split at he
    · rename_i heq
      cases he
      rw [heq.1, heq.2]
      exact hnew
    · exact hold _ _ _ he
  exact ⟨h.held, key (P := fun i x e => .cache i x ∈ w.holders e.page) hheld h.cached, h.nodup,
    h.unheld, fun pid v hw hs => key (P := fun _ _ e => e.page ≠ (w.table pid v).desc.page)
      (hprivate pid v hw hs) (h.private_ pid v hw hs), h.granted, h.uncopied, h.opened,
    fun pid v hh hs => key (P := fun i _ e => e.page = (w.table pid v).desc.page →
      ∃ file, (w.table pid v).via = some file ∧ file.1 ∈ fs ∧ file.1.key = i)
      (fun heq => absurd heq (hunmapped pid v hh hs)) (h.mapped pid v hh hs),
    fun i x e i' x' e' he he' => key (P := fun i _ e => e.page = e'.page → i = i')
      (key (P := fun i' _ e' => p = e'.page → ino = i') (fun _ => rfl)
        (fun i' x' e' he' heq => absurd heq.symm (huncached i' x' e' he')) i' x' e' he')
      (fun i x e he => key (P := fun i' _ e' => e.page = e'.page → i = i')
        (fun heq => absurd heq (huncached i x e he)) (fun i' x' e' he' => h.single _ _ _ _ _ _
          he he') i' x' e' he')
      i x e he,
    fun i x e file he => key (P := fun i _ e => e.file = some file → file.1 ∈ fs ∧
      file.1.key = i) nofun
      (fun i x e he => h.through i x e file he) i x e he,
    key (P := fun i _ e => ∀ o, Good fs i (w.ram e.page o).2) hpage h.pages, h.files⟩

lemma lookup (hmem : f ∈ fs) (hw : w.lookup f idx = some w') : Inv fs w' := by
  rw [World.lookup] at hw
  split at hw
  · cases hw
    exact h
  split at hw
  · cases hw
  rename_i q w1 ha
  cases hw
  have hf := h.alloc ha
  refine (hf.setPage _).insertEntry hf.mem (fun o => ?_) hf.uncached'
    (fun pid v hh _ => hf.ne_of_hasPage hh)
    fun pid v hwr _ => hf.ne_of_writes hwr
  rw [ram_setPage, if_pos rfl]
  exact h.good_filePage hmem idx o

lemma getShared {file : Handle} (hmem : file.1 ∈ fs) {writable : Bool} {x : Holder}
    (hw : w.getShared file idx writable x = some (p, w')) :
    Inv fs w' ∧ x ∈ w'.holders p ∧ Names fs w' p (some file) := by
  rw [World.getShared] at hw
  split at hw
  · cases hw
  rename_i hl
  have h1 := h.lookup hmem hl
  split at hw
  · cases hw
  rename_i e he
  split at hw
  · cases hw
  rename_i w2 href
  cases hw
  have he' : w2.cache file.1.key idx = some e := by
    rw [eq_of_ref href]
    exact he
  have h2 := h1.ref href (h1.cached _ _ _ he)
  have h3 : Inv fs (w2.setEntry file.1.key idx (some (e.share file writable))) :=
    h2.setEntry he' rfl fun file' hf => by
      rw [Entry.share] at hf
      split at hf
      · cases hf
        exact ⟨hmem, rfl⟩
      · exact h2.through _ _ _ _ he' hf
  refine ⟨h3, show x ∈ w2.holders e.page from mem_of_ref href, fun ino' idx' e'' he'' hp => ?_⟩
  have hself : (w2.setEntry file.1.key idx (some (e.share file writable))).cache file.1.key idx =
      some (e.share file writable) := by rw [cache_setEntry, if_pos ⟨rfl, rfl⟩]
  exact ⟨file, rfl, hmem, (h3.single _ _ _ _ _ _ he'' hself hp).symm⟩

lemma getPrivate (hmem : f ∈ fs) {x : Holder} (hw : w.getPrivate f idx x = some (p, w')) :
    Inv fs w' ∧ x ∈ w'.holders p := by
  rw [World.getPrivate] at hw
  split at hw
  · rename_i he
    split at hw
    · rename_i href
      cases hw
      exact ⟨h.ref href (h.cached _ _ _ he), mem_of_ref href⟩
    obtain ⟨⟨q, w1⟩, ha, heq⟩ := Option.map_eq_some_iff.1 hw
    cases heq
    have hf := h.alloc ha
    exact ⟨hf.setPage _, hf.mem⟩
  split at hw
  · cases hw
  rename_i w1 ha
  split at hw
  · cases hw
  rename_i href
  cases hw
  have hf := h.alloc ha
  have h2 := (hf.setPage _).ref href hf.mem
  have hheld := mem_of_ref href
  rw [eq_of_ref href] at h2 hheld ⊢
  refine ⟨h2.insertEntry hheld (fun o => ?_) hf.uncached' (fun pid v hh _ => hf.ne_of_hasPage hh)
    fun pid v hwr _ => hf.ne_of_writes hwr, ?_⟩
  · show Good fs f.key ((w1.setPage p (w.filePage f idx)).ram p o).2
    rw [ram_setPage, if_pos rfl]
    exact h.good_filePage hmem idx o
  show x ∈ (World.setHolders _ p _).holders p
  rw [holders_setHolders, if_pos rfl]
  exact Finset.mem_insert_of_mem hf.mem

lemma shareDup (p) : Inv fs (w.shareDup p) := by
  rw [World.shareDup]
  split
  · exact h
  split
  · exact h
  rename_i he
  split
  · exact h.setEntry he rfl fun file hf => h.through _ _ _ _ he hf
  · exact h

lemma shareDirty (p) : Inv fs (w.shareDirty p) := by
  rw [World.shareDirty]
  split
  · exact h
  split
  · exact h
  rename_i he
  split
  · exact h.setEntry he rfl fun file hf => h.through _ _ _ _ he hf
  · exact h

lemma syncPage (p) : Inv fs (w.syncPage p) := by
  rw [World.syncPage]
  split
  · exact h
  split
  · exact h
  rename_i he
  split
  · exact h.writeBack he
  · exact h

lemma shareRelease (p : Nat) : Inv fs (w.shareRelease p) := by
  rw [World.shareRelease]
  split
  · exact h
  split
  · exact h
  rename_i e he
  split
  · exact h
  split
  · split
    · refine (h.writeBack he).setEntry (e := e) ?_ rfl nofun
      rw [cache_writeBack, he]
    · exact h.setEntry he rfl nofun
  · exact h.setEntry he rfl fun file hf => h.through _ _ _ _ he hf

end Inv

/-- What the cache does to an entry leaves page tables and references alone. -/
lemma frame_writeBack (w : World) (idx e) :
    (w.writeBack idx e).table = w.table ∧ (w.writeBack idx e).holders = w.holders := by
  rw [writeBack]
  split
  · exact ⟨rfl, rfl⟩
  · split <;> exact ⟨rfl, rfl⟩

lemma frame_shareRelease (w : World) (p) :
    (w.shareRelease p).table = w.table ∧ (w.shareRelease p).holders = w.holders := by
  rw [shareRelease]
  iterate 3
    split
    · exact ⟨rfl, rfl⟩
  split
  · split
    · exact frame_writeBack ..
    · exact ⟨rfl, rfl⟩
  · exact ⟨rfl, rfl⟩

lemma frame_shareDirty (w : World) (p) : (w.shareDirty p).table = w.table ∧
    (w.shareDirty p).holders = w.holders := by
  rw [shareDirty]
  split
  · exact ⟨rfl, rfl⟩
  split
  · exact ⟨rfl, rfl⟩
  · split <;> exact ⟨rfl, rfl⟩

lemma frame_shareDup (w : World) (p) : (w.shareDup p).table = w.table ∧
    (w.shareDup p).holders = w.holders := by
  rw [shareDup]
  split
  · exact ⟨rfl, rfl⟩
  split
  · exact ⟨rfl, rfl⟩
  · split <;> exact ⟨rfl, rfl⟩

/-! ## The page tables -/

namespace Inv

variable {w w' : World} {pid v p : Nat}

variable (h : Inv fs w)

include h

lemma shrink (ino idx) : Inv fs (w.shrink ino idx) := by
  rw [World.shrink]
  split
  · exact h
  rename_i e he
  split
  · have hc : ∀ ino' idx' e', (w.setEntry ino idx none).cache ino' idx' = some e' →
        w.cache ino' idx' = some e' ∧ ¬ (ino' = ino ∧ idx' = idx) := by
      intro ino' idx' e' he'
      rw [cache_setEntry] at he'
      split at he'
      · cases he'
      rename_i hne
      exact ⟨he', hne⟩
    have h1 : Inv fs { w.setEntry ino idx none with
        byPage := update w.byPage e.page none } := by
      refine ⟨h.held, fun i x e' he' => h.cached i x e' (hc _ _ _ he').1, h.nodup, h.unheld,
        fun pid v hw hs i x e' he' => h.private_ pid v hw hs i x e' (hc _ _ _ he').1, h.granted,
        h.uncopied, h.opened, fun pid v hh hs i x e' he' => h.mapped pid v hh hs i x e'
          (hc _ _ _ he').1,
        fun i x a i' x' a' ha ha' => h.single i x a i' x' a' (hc _ _ _ ha).1 (hc _ _ _ ha').1,
        fun i x e' file he' => h.through i x e' file (hc _ _ _ he').1,
          fun i x e' he' => h.pages i x e' (hc _ _ _ he').1,
        h.files⟩
    refine h1.unref (h.cached _ _ _ he) (fun _ _ _ _ => Holder.noConfusion) ?_
    rintro i x e' he' - heq
    cases heq
    exact (hc _ _ _ he').2 ⟨rfl, rfl⟩
  · exact h

lemma vmUnmap (pid v : Nat) : Inv fs (w.vmUnmap pid v) := by
  simp only [World.vmUnmap]
  split
  · exact h
  have h1 : Inv fs (w.setDesc pid v .empty) := h.setDesc_pageless rfl
  split
  · rename_i hpage
    have key : ∀ w1, Inv fs w1 → w1.table = (w.setDesc pid v .empty).table →
      w1.holders = w.holders →
        Inv fs (w1.unref (w.table pid v).desc.page (.map pid v)) := by
      intro w1 h1 htable hholders
      refine h1.unref ?_ (fun pid' v' hh _ heq => ?_) fun _ _ _ _ _ => Holder.noConfusion
      · rw [hholders]
        exact h.held pid v hpage
      cases heq
      rw [htable, table_setDesc, if_pos ⟨rfl, rfl⟩] at hh
      cases hh
    split
    · exact key _ (h1.shareRelease _) (frame_shareRelease ..).1 (frame_shareRelease ..).2
    · exact key _ h1 rfl rfl
  · exact h1

lemma vmMapLazy (pid v) (write none_ : Bool) : Inv fs (w.vmMapLazy pid v write none_) :=
  h.setDesc_pageless (by simp [hasPage, empty])

lemma uncached_of_card (hpage : (w.table pid v).desc.hasPage = true)
    (hcard : ¬ 1 < (w.holders (w.table pid v).desc.page).card) (ino idx e)
    (he : w.cache ino idx = some e) : e.page ≠ (w.table pid v).desc.page := by
  intro heq
  refine hcard (one_lt_card.2 ⟨.map pid v, h.held pid v hpage, .cache ino idx, ?_, ?_⟩)
  · rw [← heq]
    exact h.cached _ _ _ he
  · exact Holder.noConfusion

/-- A page is replaced by a copy of it, which is nobody else's. -/
lemma copied (hpage : (w.table pid v).desc.hasPage = true)
    (hc : w.copyPage (w.table pid v).desc.page pid v = some (q, w')) (write : Bool)
    (via) : Inv fs (w'.setDesc pid v ⟨.of q write false, via⟩) ∧ Uncached w' q := by
  rw [copyPage] at hc
  split at hc
  · cases hc
  rename_i w1 ha
  cases hc
  have hf := h.alloc ha
  have hne := hf.unmapped pid v hpage
  have h2 : Inv fs ((w1.setPage q (w1.ram (w.table pid v).desc.page)).setDesc pid v
      ⟨.of q write false, via⟩) :=
    (hf.setPage _).setDesc (fun _ => hf.mem) (fun _ _ => hf.uncached') nofun (fun _ _ => rfl) nofun
  refine ⟨?_, hf.uncached'⟩
  -- the old page is let go of when the entry no longer names it
  refine h2.unref ?_ (fun pid' v' _ hp heq => ?_) fun _ _ _ _ _ => Holder.noConfusion
  · show _ ∈ w1.holders _
    rw [hf.holders, update_of_ne hne]
    exact h.held pid v hpage
  cases heq
  rw [table_setDesc, if_pos ⟨rfl, rfl⟩] at hp
  exact hne hp.symm

variable {write none_ : Bool}

lemma setPresent (hheld : .map pid v ∈ w.holders p)
    (hprivate : write = true → none_ = false → shared = false →
      Uncached w p) (hgranted : write = true → none_ = false → shared = true →
      via.map Prod.snd = some .rdwr)
    (hmapped : shared = true → Names fs w p via) :
    Inv fs (w.setDesc pid v ⟨if none_ then .none_ p shared else .of p write shared, via⟩) := by
  cases none_ with
  | true => exact h.setDesc (fun _ => hheld) nofun nofun nofun fun _ => hmapped
  | false =>
    refine h.setDesc (fun _ => hheld) (fun hw hs => ?_) (fun hw hs => ?_) (fun _ _ => rfl)
      fun _ => hmapped
    · exact hprivate (writes_of p write shared ▸ hw) rfl hs
    · exact hgranted (writes_of p write shared ▸ hw) rfl hs

/-- `vm_protect` gives a shared page the right to write only where the mapping has it. -/
lemma vmProtect (hw : w.vmProtect pid v write none_ = some w')
    (hgrant : write = true → none_ = false → (w.table pid v).desc.shared = true →
      (w.table pid v).mode = some .rdwr) : Inv fs w' := by
  simp only [World.vmProtect] at hw
  split at hw
  · cases hw
  split at hw
  · cases hw
    refine h.setDesc_pageless ?_
    -- a lazy page stays one
    simp only [Desc.owned, Desc.hasPage, Bool.not_eq_true', Bool.or_eq_false_iff,
      Bool.and_eq_false_iff] at *
    grind
  rename_i hpage
  rw [Bool.not_eq_true', Bool.not_eq_false] at hpage
  have hheld := h.held pid v hpage
  split at hw
  · rename_i hshared
    cases hw
    have h1 : Inv fs (if (write && !none_) = true then w.shareDirty (w.table pid v).desc.page
        else w) := by
      split
      · exact h.shareDirty _
      · exact h
    have hholders : (if (write && !none_) = true then w.shareDirty (w.table pid v).desc.page
        else w).holders = w.holders := by
      split
      · exact (frame_shareDirty ..).2
      · rfl
    have htable : (if (write && !none_) = true then w.shareDirty (w.table pid v).desc.page
        else w).table = w.table := by
      split
      · exact (frame_shareDirty ..).1
      · rfl
    have hmapped := h1.mapped pid v
    rw [htable] at hmapped
    refine h1.setPresent (by rwa [hholders]) (fun _ _ hs => ?_) hgrant (hmapped hpage)
    rw [hs] at hshared
    cases hshared
  rename_i hshared
  rw [Bool.not_eq_true] at hshared
  split at hw
  · rename_i hcopy
    simp only [Bool.and_eq_true, Bool.not_eq_true'] at hcopy
    split at hw
    · cases hw
    rename_i hc
    cases hw
    rw [hcopy.1.2, hshared]
    exact (h.copied hpage hc write _).1
  · rename_i hcopy
    cases hw
    refine h.setPresent hheld (fun hwr hn _ => ?_) (fun _ _ hs => ?_) (h.mapped pid v hpage)
    · refine h.uncached_of_card hpage fun hcard => hcopy ?_
      simp [hwr, hn, hcard]
    · rw [hs] at hshared
      cases hshared

lemma vmMove (pid) {src dst : Nat} (hne : src ≠ dst) : Inv fs (w.vmMove pid src dst) := by
  simp only [World.vmMove]
  split
  · exact h
  split
  · rename_i hpage
    have hheld := h.held pid src hpage
    have hfree := h.not_mem_free hheld
    generalize hm : w.table pid src = m at *
    -- first held by both, then moved, then let go of by the old one
    have h1 : Inv fs (w.setHolders m.desc.page (insert (.map pid dst) (w.holders m.desc.page))) :=
      h.setHolders (Finset.subset_insert _ _) hfree
    have h2 : Inv fs ((w.setHolders m.desc.page
        (insert (.map pid dst) (w.holders m.desc.page))).setDesc pid dst m) := by
      refine h1.setDesc (fun _ => ?_) (hm ▸ h.private_ pid src) (hm ▸ h.granted pid src)
        (hm ▸ h.uncopied pid src) (hm ▸ h.mapped pid src)
      rw [holders_setHolders, if_pos rfl]
      exact Finset.mem_insert_self _ _
    have h3 : Inv fs (((w.setHolders m.desc.page
        (insert (.map pid dst) (w.holders m.desc.page))).setDesc pid dst m).setDesc pid src
          .empty) := h2.setDesc_pageless rfl
    have h4 := h3.dropHolder (p := m.desc.page) (x := .map pid src) hfree
      (fun pid' v' hh _ heq => by
        cases heq
        rw [table_setDesc, if_pos ⟨rfl, rfl⟩] at hh
        cases hh)
      fun _ _ _ _ _ => Holder.noConfusion
    have hset : (((w.setHolders m.desc.page (insert (.map pid dst)
        (w.holders m.desc.page))).setDesc pid dst m).setDesc pid src .empty).holders m.desc.page =
        insert (.map pid dst) (w.holders m.desc.page) := by
      refine (holders_setHolders ..).trans (if_pos rfl)
    rw [hset, Finset.erase_insert_of_ne (by simpa using hne.symm)] at h4
    simp only [World.setHolders, World.setDesc, update_idem] at h4 ⊢
    exact h4
  · rename_i hpage
    rw [Bool.not_eq_true] at hpage
    exact (h.setDesc_pageless hpage).setDesc_pageless rfl

lemma clonePage (pid child v : Nat) : Inv fs (w.clonePage pid child v) := by
  simp only [World.clonePage]
  split
  · exact h
  split
  · rename_i hpage
    exact h.setDesc_pageless (by simpa using hpage)
  rename_i hpage
  rw [Bool.not_eq_true', Bool.not_eq_false] at hpage
  split
  · rename_i w1 href
    have h1 := h.ref href (h.held pid v hpage)
    have hmem := mem_of_ref href
    have hpid : .map pid v ∈ w1.holders (w.table pid v).desc.page := by
      rw [eq_of_ref href, holders_setHolders, if_pos rfl]
      exact Finset.mem_insert_of_mem (h.held pid v hpage)
    have hcache : w1.cache = w.cache := by rw [eq_of_ref href]; rfl
    have htable : w1.table = w.table := by rw [eq_of_ref href]; rfl
    split
    · rename_i hshared
      have hmapped := (h1.shareDup (w.table pid v).desc.page).mapped pid v
      rw [(frame_shareDup ..).1, htable] at hmapped
      refine (h1.shareDup _).setDesc (fun _ => ?_) (fun _ hs => ?_) (h.granted pid v)
        (h.uncopied pid v) hmapped
      · rw [(frame_shareDup ..).2]
        exact hmem
      · rw [hs] at hshared
        cases hshared
    rename_i hshared
    rw [Bool.not_eq_true] at hshared
    split
    · rename_i hw
      have hpriv := h.private_ pid v hw hshared
      rw [← hcache] at hpriv
      have hcow : Inv fs (w1.setDesc pid v
          ⟨{ (w.table pid v).desc with wp := true, cow := true }, (w.table pid v).via⟩) := by
        refine h1.setDesc (fun _ => hpid) (fun _ _ => hpriv) (fun _ hs => ?_) (fun _ hs => ?_) fun _
          hs => ?_
        iterate 3 · exact absurd (hs.symm.trans hshared) (by decide)
      refine hcow.setDesc (fun _ => hmem) (fun _ _ => hpriv) (fun _ hs => ?_) (fun _ hs => ?_) fun _
        hs => ?_
      iterate 3 · exact absurd (hs.symm.trans hshared) (by decide)
    · refine h1.setDesc (fun _ => hmem) ?_ (h.granted pid v) (h.uncopied pid v) (htable ▸
        h1.mapped pid v)
      rw [Uncached, hcache]
      exact h.private_ pid v
  · split
    · exact h
    rename_i q w1 ha
    have hf := h.alloc ha
    refine (hf.setPage _).setDesc (fun _ => hf.mem) (fun _ _ => hf.uncached') (fun hw hs => ?_)
      (fun _ _ => rfl)
      fun _ _ ino idx e he heq => absurd heq (hf.uncached' ino idx e he)
    refine h.granted pid v ?_ hs
    simp only [Desc.writes, Bool.or_false, Bool.and_eq_true] at hw ⊢
    rw [hw.1, hw.2, Bool.true_or]
    exact ⟨rfl, rfl⟩

/-- A store goes to a page of the program's own, or to a shared one that it may write. -/
lemma storeByte (m) (o : Nat) (b : UInt8) (hm : m.desc.shared = true → m.mode = some .rdwr)
    (hmapped : m.desc.shared = true → Names fs w p m.via)
    (hprivate : m.desc.shared = false → Uncached w p) : Inv fs (w.storeByte p o b m) := by
  refine h.setPage fun ino idx e he hp o' => ?_
  cases hs : m.desc.shared with
  | false => exact absurd hp (hprivate hs ino idx e he)
  | true =>
    by_cases ho : o' = o
    · subst ho
      obtain ⟨⟨f, mode⟩, hvia, hf, hkey⟩ := hmapped hs ino idx e he hp
      obtain rfl : mode = .rdwr := by simpa [Mapped.mode, hvia] using hm hs
      rw [update_self, hvia]
      exact ⟨f, hf, hkey, .inr rfl⟩
    · rw [update_of_ne ho]
      exact hp ▸ h.pages ino idx e he o'

lemma store (pid a : Nat) (b : UInt8) : Inv fs (w.store pid a b) := by
  simp only [World.store]
  generalize a / pageSize = v
  split
  · rename_i hres
    have hpage : (w.table pid v).desc.hasPage = true := by rw [Desc.hasPage, hres, Bool.true_or]
    split
    · rename_i hwp
      have hw : (w.table pid v).desc.writes = true := by
        rw [Desc.writes, hres, hwp, Bool.true_or, Bool.and_true]
      exact h.storeByte _ _ _ (h.granted pid v hw) (h.mapped pid v hpage) (h.private_ pid v hw)
    split
    · exact h
    rename_i hcow
    have hcow : (w.table pid v).desc.cow = true := by simpa using hcow
    split
    · split
      · exact h
      rename_i hc
      obtain ⟨h1, h2⟩ := h.copied hpage hc true (w.table pid v).via
      exact h1.storeByte _ _ _ nofun nofun fun _ => h2
    rename_i hcard
    have huncached := h.uncached_of_card hpage hcard
    have h1 : Inv fs (w.setDesc pid v
        ⟨.of (w.table pid v).desc.page true false, (w.table pid v).via⟩) :=
      h.setDesc (fun _ => h.held pid v hpage) (fun _ _ => huncached) nofun (fun _ _ => rfl) nofun
    exact h1.storeByte _ _ _ nofun nofun fun _ => huncached
  · split
    · split
      · exact h
      rename_i q w1 ha
      have hf := h.alloc ha
      have h1 : Inv fs (w1.setDesc pid v ⟨.of q true false, (w.table pid v).via⟩) :=
        hf.inv.setDesc (fun _ => hf.mem) (fun _ _ => hf.uncached') nofun (fun _ _ => rfl) nofun
      exact h1.storeByte _ _ _ nofun nofun fun _ => hf.uncached'
    · exact h

/-! ## The calls -/

lemma foldl {f : World → Nat → World} (hf : ∀ w v, Inv fs w → Inv fs (f w v)) (vs : List Nat) :
    Inv fs (vs.foldl f w) := by
  induction vs generalizing w with
  | nil => exact h
  | cons v vs ih => exact ih (hf w v h)

lemma unmapAll (pid) (vs : List Nat) : Inv fs (w.unmapAll pid vs) :=
  h.foldl (fun _ v h => h.vmUnmap pid v) vs

omit h in
lemma mapEach {f : Nat → World → Option World}
    (hf : ∀ i w w', Inv fs w → f i w = some w' → Inv fs w') {i n : Nat} (h : Inv fs w) :
    Inv fs (World.mapEach pid v f i n w).1 := by
  induction n generalizing i w with
  | zero => exact h
  | succ n ih =>
    rw [mapEach]
    split
    · rename_i w1 hw
      exact ih (hf i w w1 h hw)
    · exact h.unmapAll ..

variable {idx : Nat} {file : Handle}

lemma mapShared (hfile : file.1 ∈ fs) (hmode : write = true → file.2 = .rdwr)
    (hw : w.mapShared pid v file idx write = some w') : Inv fs w' := by
  obtain ⟨⟨q, w1⟩, hg, heq⟩ := Option.map_eq_some_iff.1 hw
  cases heq
  obtain ⟨h1, hmem, hnames⟩ := h.getShared hfile hg
  refine h1.setDesc (fun _ => hmem) (fun _ hs => by cases hs) (fun hwr _ => ?_) (fun _ _ => rfl)
    fun _ _ => hnames
  exact congrArg some (hmode (writes_of q write true ▸ hwr))

lemma mapPrivate (hfile : file.1 ∈ fs) (hw : w.mapPrivate pid v file idx = some w') :
    Inv fs w' := by
  obtain ⟨⟨q, w1⟩, hg, heq⟩ := Option.map_eq_some_iff.1 hw
  cases heq
  obtain ⟨h1, hmem⟩ := h.getPrivate hfile hg
  exact h1.setDesc (fun _ => hmem) nofun nofun (fun _ _ => rfl) nofun

lemma mapCopy (hw : w.mapCopy pid v file idx = some w') : Inv fs w' := by
  obtain ⟨⟨q, w1⟩, ha, heq⟩ := Option.map_eq_some_iff.1 hw
  cases heq
  have hf := h.alloc ha
  exact (hf.setPage _).setDesc (fun _ => hf.mem) (fun _ _ => hf.uncached') nofun
    (fun _ _ => rfl) nofun

end Inv

/-- No page of the list is shared without the right to write. -/
def Grantable (w : World) (pid : Nat) (vs : List Nat) : Prop :=
  ∀ v ∈ vs, (w.table pid v).desc.shared = true → (w.table pid v).mode = some .rdwr

section Protect

variable {w w' : World} {pid v : Nat} {write none_ : Bool}

lemma table_copyPage {p q : Nat} (h : w.copyPage p pid v = some (q, w')) : w'.table = w.table := by
  rw [copyPage, alloc] at h
  split at h
  · cases h
  rename_i ha
  cases h
  split at ha
  · cases ha
  cases ha
  rfl

/-- `vm_protect` leaves it at that which pages are shared, and how they were mapped. -/
lemma shared_vmProtect (h : w.vmProtect pid v write none_ = some w') (v' : Nat) :
    (w'.table pid v').desc.shared = (w.table pid v').desc.shared ∧
    (w'.table pid v').via = (w.table pid v').via := by
  have key : ∀ (w1 : World) (m : Mapped), w1.table = w.table →
      m.desc.shared = (w.table pid v).desc.shared → m.via = (w.table pid v).via →
      ((w1.setDesc pid v m).table pid v').desc.shared = (w.table pid v').desc.shared ∧
        ((w1.setDesc pid v m).table pid v').via = (w.table pid v').via := by
    intro w1 m ht hs hv
    rw [table_setDesc, ht]
    split
    · rename_i heq
      rw [heq.2]
      exact ⟨hs, hv⟩
    · exact ⟨rfl, rfl⟩
  have hnew : ∀ p, (if none_ = true then Desc.none_ p (w.table pid v).desc.shared
      else Desc.of p write (w.table pid v).desc.shared).shared =
        (w.table pid v).desc.shared := by
    intro p
    split <;> rfl
  simp only [World.vmProtect] at h
  split at h
  · cases h
  split at h
  · cases h
    exact key _ _ rfl rfl rfl
  split at h
  · cases h
    refine key _ _ ?_ (hnew _) rfl
    split
    · exact (frame_shareDirty ..).1
    · rfl
  split at h
  · split at h
    · cases h
    rename_i hc
    cases h
    exact key _ _ (table_copyPage hc) (hnew _) rfl
  · cases h
    exact key _ _ rfl (hnew _) rfl

lemma Inv.protectEach (h : Inv fs w) {vs : List Nat} (hvs : write = true → Grantable w pid vs) :
    Inv fs (World.protectEach pid write none_ vs w) := by
  induction vs generalizing w with
  | nil => exact h
  | cons v vs ih =>
    rw [protectEach]
    split
    · rename_i hw
      refine ih (h.vmProtect hw fun hwr _ => hvs hwr v mem_cons_self) fun hwr v' hv' => ?_
      obtain ⟨hs, hvia⟩ := shared_vmProtect hw v'
      rw [hs, Mapped.mode, hvia]
      exact hvs hwr v' (mem_cons_of_mem _ hv')
    · exact h

end Protect

namespace Inv

variable {w : World}

variable (h : Inv fs w)

include h

lemma mmapFile (pid v n : Nat) {prot : Prot} {file : Handle} (hfile : file.1 ∈ fs)
    (idx) (hmode : shared = true → prot.write = true → file.2 = .rdwr) :
    Inv fs (w.mmapFile pid v n prot shared file idx) := by
  simp only [World.mmapFile]
  split
  · rename_i hs
    have h1 : Inv fs (World.mapEach pid v
        (fun i w => w.mapShared pid (v + i) file (idx + i) prot.write) 0 n w).1 :=
      mapEach (fun _ _ _ h hw => h.mapShared hfile (hmode hs) hw) h
    split
    · exact h1.protectEach nofun
    · exact h1
  split
  · exact mapEach (fun _ _ _ h hw => h.mapPrivate hfile hw) h
  have h1 : Inv fs (World.mapEach pid v
      (fun i w => w.mapCopy pid (v + i) file (idx + i)) 0 n w).1 :=
    mapEach (fun _ _ _ h hw => h.mapCopy hw) h
  split
  · exact h1.protectEach nofun
  · exact h1

lemma doMmap (pid v n : Nat) (prot : Prot) (shared anon : Bool) (fd idx : Nat) :
    Inv fs (w.doMmap pid v n prot shared anon fd idx) := by
  rw [World.doMmap]
  split
  · exact h
  split
  · exact (h.unmapAll ..).foldl (fun _ v h => h.vmMapLazy ..) _
  split
  · exact h
  rename_i file hfd
  split
  · exact h
  rename_i hacc
  refine (h.unmapAll ..).mmapFile pid v n (h.opened pid fd file hfd) idx fun hs hw => ?_
  by_contra hne
  exact hacc (.inr ⟨hs, hw, hne⟩)

lemma remapTo (pid old n new dst : Nat) : Inv fs (w.remapTo pid old n new dst) := by
  refine foldl ?_ (fun _ v h => h.vmMapLazy ..) _
  split
  · exact h
  · exact (h.foldl (fun _ i h => h.vmMove pid (by omega)) _).unmapAll ..

lemma doMremap (pid old n new : Nat) (fixed : Bool) (dst : Nat) :
    Inv fs (w.doMremap pid old n new fixed dst) := by
  rw [World.doMremap]
  split
  · exact h
  split
  · split
    · exact (h.unmapAll ..).remapTo ..
    · exact h
  split
  · exact h.unmapAll ..
  split <;> split
  iterate 2
    · exact h.remapTo ..
    · exact h

lemma doMsync (pid v n : Nat) : Inv fs (w.doMsync pid v n) := by
  rw [World.doMsync]
  split
  · refine h.foldl (fun w v h => ?_) _
    dsimp only
    split
    · exact h.syncPage _
    · exact h
  · exact h

lemma processes (used : Nat → Bool) {fds : Nat → Nat → Option Handle}
    (hfds : ∀ pid fd file, fds pid fd = some file → file.1 ∈ fs) :
    Inv fs { w with used := used, fds := fds } :=
  ⟨h.held, h.cached, h.nodup, h.unheld, h.private_, h.granted, h.uncopied, hfds, h.mapped,
    h.single, h.through,
    h.pages, h.files⟩

/-- The descriptors of one process are changed. -/
lemma opened_update {pid : Nat} {fds : Nat → Option Handle}
    (hfds : ∀ fd file, fds fd = some file → file.1 ∈ fs)
    (pid' fd file) (hfd : update w.fds pid fds pid' fd = some file) : file.1 ∈ fs := by
  by_cases hp : pid' = pid
  · subst hp
    rw [update_self] at hfd
    exact hfds fd file hfd
  · rw [update_of_ne hp] at hfd
    exact h.opened pid' fd file hfd

lemma fork (pid child : Nat) : Inv fs (w.fork pid child) := by
  rw [World.fork]
  split
  · exact (h.processes _ (h.opened_update (h.opened pid))).foldl (fun _
      v h => h.clonePage pid child v) _
  · exact h

lemma exit (pid) : Inv fs (w.exit pid) :=
  (h.unmapAll pid userPages).processes _ (h.opened_update fun _ _ hfd => by cases hfd)

end Inv

/-! ## Runs -/

def Step (w w' : World) : Prop := ∃ ev, w' = w.apply ev

/-- No `mprotect` gives the right to write to a shared page of a mapping that was made without it.
-/
def GrantedStep (w w' : World) : Prop :=
  ∃ ev, w' = w.apply ev ∧ ∀ pid v n prot, ev = .mprotect pid v n prot → prot.write = true →
    Grantable w pid (pagesFrom v n)

/-- And only files of `fs` are opened. -/
def GrantedStepOf (fs : Set FileId) (w w' : World) : Prop :=
  ∃ ev, w' = w.apply ev ∧ (∀ pid v n prot, ev = .mprotect pid v n prot → prot.write = true →
    Grantable w pid (pagesFrom v n)) ∧ ∀ pid fd file, ev = .openFile pid fd file → file.1 ∈ fs

/-- Nothing is open, mapped or cached, and the files' bytes are their own. -/
structure World.Start (w : World) : Prop where
  table : ∀ pid v, w.table pid v = .empty
  cache : ∀ ino idx, w.cache ino idx = none
  holders : ∀ p, w.holders p = ∅
  nodup : w.free.Nodup
  fds : ∀ pid fd, w.fds pid fd = none
  files : ∀ f o, ((w.files f).data o).2 = .file f

lemma World.Start.inv {w} (h : w.Start) : Inv fs w := by
  have htable : ∀ pid v, (w.table pid v).desc = .empty := fun pid v => by rw [h.table]; rfl
  refine ⟨fun pid v hh => ?_, fun ino idx e he => ?_, h.nodup, fun p _ => h.holders p,
    fun pid v hh => ?_,
    fun pid v hh => ?_, fun pid v hh => ?_, fun pid fd file he => ?_, fun pid v hh => ?_,
      fun ino idx e _ _ _ he => ?_,
    fun ino idx e _ he => ?_, fun ino idx e he => ?_, fun f o => .inl (h.files f o)⟩
  all_goals first
    | rw [htable] at hh; cases hh
    | rw [h.cache] at he; cases he
    | rw [h.fds] at he; cases he

lemma Inv.apply {w : World} (h : Inv fs w) {ev : Event}
    (hev : ∀ pid v n prot, ev = .mprotect pid v n prot → prot.write = true →
      Grantable w pid (pagesFrom v n)) (hopen : ∀ pid fd file, ev = .openFile pid fd file →
      file.1 ∈ fs) :
    Inv fs (w.apply ev) := by
  cases ev with
  | openFile pid fd file =>
    refine h.processes _ (h.opened_update fun fd' file' hfd => ?_)
    rw [update_apply] at hfd
    split at hfd
    · exact Option.some.inj hfd ▸ hopen pid fd file rfl
    · exact h.opened pid fd' file' hfd
  | mmap pid v n prot shared anon fd idx => exact h.doMmap ..
  | munmap pid v n =>
    rw [World.apply, World.doMunmap]
    split
    · exact h.unmapAll ..
    · exact h
  | mprotect pid v n prot =>
    rw [World.apply, World.doMprotect]
    split
    · exact h.protectEach (hev pid v n prot rfl)
    · exact h
  | mremap pid old n new fixed dst => exact h.doMremap ..
  | fork pid child => exact h.fork pid child
  | store pid a b => exact h.store pid a b
  | msync pid v n => exact h.doMsync pid v n
  | fsync pid fd =>
    rw [World.apply, World.doFsync]
    split
    · exact h
    · exact h.syncIno _
  | exit pid => exact h.exit pid
  | shrink ino idx => exact h.shrink ino idx

lemma inv_of_run {w₀ w : World} (h₀ : w₀.Start) (h : ReflTransGen (GrantedStepOf fs) w₀ w) :
    Inv fs w := by
  induction h with
  | refl => exact h₀.inv
  | tail _ hstep ih =>
    obtain ⟨ev, rfl, hev, hopen⟩ := hstep
    exact ih.apply hev hopen

/-- **No file is written but with the right to**, in every run in which no two of the files that are
opened have one key and `mprotect` never gives the right to a shared page of a mapping that was made
without. -/
theorem rightful_of_granted_run {fs : Set FileId} (hkeys : fs.InjOn FileId.key) {w₀ w : World}
    (h₀ : w₀.Start)
    (h : ReflTransGen (GrantedStepOf fs) w₀ w) : Rightful w := by
  intro f o
  rcases (inv_of_run h₀ h).files f o with hown | ⟨hf, f', hf', hkey, hown⟩
  · exact .inl hown
  · exact hkeys hf' hf hkey ▸ hown

/-! ## A file open for reading -/

def World.run (w : World) (evs : List Event) : World := evs.foldl World.apply w

lemma steps_run (w) (evs : List Event) : ReflTransGen Step w (w.run evs) := by
  induction evs generalizing w with
  | nil => exact .refl
  | cons ev evs ih => exact .head ⟨ev, rfl⟩ (ih (w.apply ev))

/-- One process, and one page of zeros in every file. -/
def oneFile : World where
  files f := ⟨4096, false, fun _ => (0, .file f)⟩
  fds _ _ := none
  cache _ _ := none
  byPage _ := none
  ram _ _ := (0, .zero)
  holders _ := ∅
  free := [100, 101]
  table _ _ := .empty
  used pid := pid == 0

lemma start_oneFile : oneFile.Start :=
  ⟨fun _ _ => rfl, fun _ _ => rfl, fun _ => rfl, by decide, fun _ _ => rfl, fun _ _ => rfl⟩

/-- Inode 12 of the volume 3:2. -/
def theFile : FileId := FileKey.onSecond

/-- Opened, mapped shared to be read, made writable, written, unmapped. -/
def throughMprotect (mode : Mode) : List Event :=
  [.openFile 0 3 (theFile, mode), .mmap 0 0x10000 1 ⟨true, false, false⟩ true false 3 0,
    .mprotect 0 0x10000 1 ⟨true, true, false⟩, .store 0 0x10000000 0xaa, .munmap 0 0x10000 1]

/-- **The file is changed through a descriptor open for reading.** -/
theorem written_readonly : ∃ w, ReflTransGen Step oneFile w ∧
    (w.files theFile).data 0 = (0xaa, .stored true (some (theFile, .rdonly))) ∧ ¬ Rightful w := by
  have hdata : (((oneFile.run (throughMprotect .rdonly)).files theFile).data 0) =
      (0xaa, .stored true (some (theFile, .rdonly))) := by decide +kernel
  refine ⟨_, steps_run oneFile (throughMprotect .rdonly), hdata, fun h => ?_⟩
  have hown := h theFile 0
  rw [hdata] at hown
  rcases hown with h | h <;> cases h

/-- What was mapped through a descriptor open for both may be made writable. -/
lemma grantable_rdwr : Grantable (oneFile.run ((throughMprotect .rdwr).take 2)) 0
    (pagesFrom 0x10000 1) := by
  intro v hv _
  obtain rfl : v = 0x10000 := List.mem_singleton.1 hv
  decide +kernel

theorem rightful_of_granted_write :
    ((oneFile.run (throughMprotect .rdwr)).files theFile).data 0 =
    (0xaa, .stored true (some (theFile, .rdwr))) ∧
      Rightful (oneFile.run (throughMprotect .rdwr)) := by
  refine ⟨by decide +kernel, rightful_of_granted_run
    (show Set.InjOn FileId.key {theFile} from Set.injOn_singleton _ _) start_oneFile ?_⟩
  refine .head ⟨.openFile 0 3 (theFile, .rdwr), rfl, nofun, ?_⟩ <|
    .head ⟨.mmap 0 0x10000 1 ⟨true, false, false⟩ true false 3 0, rfl, nofun, nofun⟩ <|
    .head ⟨.mprotect 0 0x10000 1 ⟨true, true, false⟩, rfl, ?_, nofun⟩ <|
    .head ⟨.store 0 0x10000000 0xaa, rfl, nofun, nofun⟩ <|
      .head ⟨.munmap 0 0x10000 1, rfl, nofun, nofun⟩ .refl
  · rintro _ _ _ ⟨⟩
    exact Set.mem_singleton _
  · rintro _ _ _ _ ⟨⟩ _
    exact grantable_rdwr

/-- **No page is in use and to be handed out at once**, and what is written privately is no file's
page. -/
theorem pages_apart_of_granted_run {w₀ w : World} (h₀ : w₀.Start)
    (h : ReflTransGen GrantedStep w₀ w) :
    (∀ pid v, (w.table pid v).desc.hasPage = true → (w.table pid v).desc.page ∉ w.free) ∧
      ∀ ino idx e, w.cache ino idx = some e → e.page ∉ w.free ∧ ∀ pid v,
      (w.table pid v).desc.writes = true →
        (w.table pid v).desc.shared = false → e.page ≠ (w.table pid v).desc.page := by
  have hinv : Inv Set.univ w :=
    inv_of_run h₀ (ReflTransGen.mono (fun _ _ ⟨ev, hw, hev⟩ => ⟨ev, hw, hev,
      fun _ _ _ _ => Set.mem_univ _⟩) _ _ h)
  have hunheld : ∀ p x, x ∈ w.holders p → p ∉ w.free :=
    fun p x hx hfree => by simp [hinv.unheld p hfree] at hx
  exact ⟨fun pid v hpage => hunheld _ _ (hinv.held pid v hpage), fun ino idx e he =>
    ⟨hunheld _ _ (hinv.cached ino idx e he), fun pid v hw hs => hinv.private_ pid v hw hs
      ino idx e he⟩⟩

theorem pages_apart_of_mmap :
    let w := oneFile.run ((throughMprotect .rdwr).take 2)
    (w.table 0 0x10000).desc.page ∉ w.free :=
  (pages_apart_of_granted_run start_oneFile <| .head ⟨.openFile 0 3 (theFile, .rdwr),
    rfl, by simp⟩ <|
    .single ⟨.mmap 0 0x10000 1 ⟨true, false, false⟩ true false 3 0, rfl, by simp⟩).1 0 0x10000
      (by decide +kernel)

end Sage040.Vm
