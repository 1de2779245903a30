import Sage040.Basic

/-!
# The table of record locks

`kernel/reclock.c` keeps every byte-range lock of the machine in one table of fixed size. This
module has the table and the two functions that work on it: `conflict`, which looks for somebody
else's lock in the way of a request, and `set_range`, which makes an owner hold a type of lock over
a range, whatever it held there before.

`Exclusive` is what the table is for: no two owners have locks on one byte unless both are shared.
Cutting and dropping locks leave pieces of what was there (`Within`), and a new lock covers bytes
that were asked for and bytes that the owner had anyway, so `setRange_exclusive` needs only what
`conflict` has looked at.
-/

namespace Sage040.Reclock

open List Option

/-- `F_RDLCK` and `F_WRLCK`. -/
inductive LockType
  | rd | wr
  deriving DecidableEq, Repr

/-- A process, or an open file description. -/
inductive Owner
  | posix (pid : Nat)
  | ofd (file : Nat)
  deriving DecidableEq, Repr

/-- `struct reclock`. Both ends are part of the range. -/
structure Lock where
  key : Nat
  owner : Owner
  type : LockType
  start : Nat
  stop : Nat
  deriving DecidableEq, Repr

/-- Whose locks, on which bytes of which file. -/
structure Span where
  key : Nat
  owner : Owner
  s : Nat
  e : Nat
  deriving DecidableEq, Repr

/-- The end of a lock that has none. -/
def toEof : Nat := 0xffffffff

/-- `RECLOCK_MAX`. -/
def reclockMax : Nat := 128

/-- The table of locks, with its free slots. -/
abbrev Table := List (Option Lock)

/-- The lock has a byte of the range. -/
def Lock.overlaps (l : Lock) (s e : Nat) : Bool := decide (l.start ≤ e) && decide (s ≤ l.stop)

/-- The lock is on the span's file, and its owner's. -/
def Lock.isOf (l : Lock) (p : Span) : Bool := l.key == p.key && l.owner == p.owner

/-- The lock is somebody else's and stands in the way. -/
def Lock.blocks (p : Span) (type : LockType) (l : Lock) : Bool :=
  l.key == p.key && l.owner != p.owner && l.overlaps p.s p.e && (type == .wr || l.type == .wr)

/-- A lock that is part of another. -/
structure Lock.PartOf (l' l : Lock) : Prop where
  key : l'.key = l.key
  owner : l'.owner = l.owner
  type : l'.type = l.type
  start : l.start ≤ l'.start
  stop : l'.stop ≤ l.stop

/-- The byte is locked. -/
def Lock.Covers (l : Lock) (b : Nat) : Prop := l.start ≤ b ∧ b ≤ l.stop

lemma Lock.PartOf.covers {l l' : Lock} (h : l'.PartOf l) {b : Nat} (hb : l'.Covers b) :
    l.Covers b :=
  ⟨Nat.le_trans h.start hb.1, Nat.le_trans hb.2 h.stop⟩

lemma Lock.PartOf.refl (l : Lock) : l.PartOf l := ⟨rfl, rfl, rfl, Nat.le_refl _, Nat.le_refl _⟩

lemma Lock.PartOf.trans {l l' l'' : Lock} (h' : l''.PartOf l') (h : l'.PartOf l) : l''.PartOf l :=
  ⟨h'.key.trans h.key, h'.owner.trans h.owner, h'.type.trans h.type, h.start.trans h'.start,
    h'.stop.trans h.stop⟩

namespace Table

variable (t : Table)

/-- The locks of the table. -/
def locks : List Lock := t.filterMap id

/-- `conflict`: the first lock in the way. -/
def conflict (p : Span) (type : LockType) : Option Lock := t.locks.find? (Lock.blocks p type)

/-- The lock is put into the first free slot. -/
def fill : Table → Lock → Table
  | [], _ => []
  | none :: t, l => some l :: t
  | some l' :: t, l => some l' :: fill t l

/-- How many slots are free. -/
def freeSlots : Nat := t.countP Option.isNone

/-- What a range takes from the lock in slot `i`. -/
def cutAt (p : Span) (t : Table) (i : Nat) : Table :=
  match t.getD i none with
  | none => t
  | some l =>
    if l.isOf p && l.overlaps p.s p.e then
      if l.start < p.s ∧ p.e < l.stop then
        fill (t.set i (some { l with stop := p.s - 1 })) { l with start := p.e + 1 }
      else if l.start < p.s then t.set i (some { l with stop := p.s - 1 })
      else if p.e < l.stop then t.set i (some { l with start := p.e + 1 })
      else t.set i none
    else t

/-- A neighbour in slot `i` of the same type is taken into the range. -/
def mergeAt (p : Span) (type : LockType) (r : Table × Nat × Nat) (i : Nat) : Table × Nat × Nat :=
  match r.1.getD i none with
  | none => r
  | some l =>
    if l.isOf p && l.type == type then
      if 0 < r.2.1 ∧ l.stop = r.2.1 - 1 then (r.1.set i none, l.start, r.2.2)
      else if r.2.2 ≠ toEof ∧ l.start = r.2.2 + 1 then (r.1.set i none, r.2.1, l.stop)
      else r
    else r

/-- The range is cut out of what its owner holds. -/
def cut (p : Span) : Table := (List.range t.length).foldl (cutAt p) t

/-- Locks of one owner and type that touch the range become one with it. -/
def merge (p : Span) (type : LockType) : Table × Nat × Nat :=
  (List.range t.length).foldl (mergeAt p type) (t, p.s, p.e)

/-- `set_range`; `none` is `F_UNLCK`. -/
def setRange (p : Span) (type : Option LockType) : Except Errno Table :=
  let splits := t.locks.countP fun l => l.isOf p && decide (l.start < p.s) && decide (p.e < l.stop)
  if t.freeSlots < splits + (if type.isSome then 1 else 0) then .error .enolck
  else match type with
    | none => .ok (t.cut p)
    | some type =>
      let r := (t.cut p).merge p type
      .ok (fill r.1 ⟨p.key, p.owner, type, r.2.1, r.2.2⟩)

/-- `drop`: the locks that match go. -/
def drop (f : Lock → Bool) : Table := t.map fun o => o.filter fun l => !f l

/-! ## What is in the table -/

variable {t t' t'' : Table} {l l' : Lock} {p : Span} {type : LockType} {i : Nat}

lemma mem_locks : l ∈ t.locks ↔ some l ∈ t := by simp [locks]

lemma conflict_none (h : t.conflict p type = none) (hl : some l ∈ t) : l.blocks p type = false := by
  have := find?_eq_none.1 h l (mem_locks.2 hl)
  simpa using this

lemma conflict_some (h : t.conflict p type = some l) : some l ∈ t ∧ l.blocks p type = true :=
  ⟨mem_locks.1 (mem_of_find?_eq_some h), find?_some h⟩

lemma mem_fill (h : some l ∈ fill t l') : l = l' ∨ some l ∈ t := by
  induction t with
  | nil => cases h
  | cons o t ih =>
    cases o with
    | none =>
      rcases mem_cons.1 h with h | h
      · exact .inl (some.inj h)
      · exact .inr (mem_cons_of_mem _ h)
    | some x =>
      rcases mem_cons.1 h with h | h
      · exact .inr (h ▸ mem_cons_self)
      · exact (ih h).imp_right (mem_cons_of_mem _)

lemma mem_set {o : Option Lock} (h : some l ∈ t.set i o) : o = some l ∨ some l ∈ t :=
  (mem_or_eq_of_mem_set h).symm.imp_left Eq.symm

lemma mem_of_getD (h : t.getD i none = some l) : some l ∈ t := by
  rw [getD_eq_getElem?_getD] at h
  cases hi : t[i]? with
  | none => simp [hi] at h
  | some o =>
    rw [hi] at h
    exact h ▸ mem_of_getElem? hi

variable {f : Lock → Bool}

lemma mem_drop (h : some l ∈ t.drop f) : some l ∈ t := by
  obtain ⟨o, ho, heq⟩ := mem_map.1 h
  cases o with
  | none => cases heq
  | some x =>
    rw [filter_some] at heq
    split at heq
    · exact heq ▸ ho
    · cases heq

lemma not_of_mem_drop (h : some l ∈ t.drop f) : f l = false := by
  obtain ⟨o, -, heq⟩ := mem_map.1 h
  cases o with
  | none => cases heq
  | some x =>
    rw [filter_some] at heq
    split at heq
    · rename_i hx
      rw [← some.inj heq]
      simpa using hx
    · cases heq

/-! ## Pieces -/

/-- Every lock of `t'` is part of one of `t`. -/
def Within (t t' : Table) : Prop := ∀ l', some l' ∈ t' → ∃ l, some l ∈ t ∧ l'.PartOf l

lemma Within.of_mem (h : ∀ l, some l ∈ t' → some l ∈ t) : Within t t' :=
  fun l hl => ⟨l, h l hl, .refl l⟩

lemma Within.refl (t) : Within t t := .of_mem fun _ => id

lemma Within.trans (h : Within t t') (h' : Within t' t'') : Within t t'' := by
  intro l'' hl''
  obtain ⟨l', hl', hp'⟩ := h' l'' hl''
  obtain ⟨l, hl, hp⟩ := h l' hl'
  exact ⟨l, hl, hp'.trans hp⟩

lemma Within.set (h : Within t t') (hl : some l ∈ t) (hp : l'.PartOf l) :
    Within t (t'.set i (some l')) := by
  intro x hx
  rcases mem_set hx with hx | hx
  · exact ⟨l, hl, some.inj hx ▸ hp⟩
  · exact h x hx

lemma Within.fill (h : Within t t') (hl : some l ∈ t) (hp : l'.PartOf l) :
    Within t (fill t' l') := by
  intro x hx
  rcases mem_fill hx with rfl | hx
  · exact ⟨l, hl, hp⟩
  · exact h x hx

lemma Within.set_none (h : Within t t') : Within t (t'.set i none) :=
  fun x hx => h x ((mem_set hx).resolve_left nofun)

lemma within_foldl {f : Table → Nat → Table} (hf : ∀ t i, Within t (f t i)) (ns : List Nat) :
    Within t (ns.foldl f t) := by
  induction ns generalizing t with
  | nil => exact .refl t
  | cons n ns ih => exact (hf t n).trans ih

lemma cutAt_within (p t i) : Within t (cutAt p t i) := by
  rw [cutAt]
  cases hi : t.getD i none with
  | none => exact .refl t
  | some l =>
    have hl := mem_of_getD hi
    by_cases hov : (l.isOf p && l.overlaps p.s p.e) = true
    · simp only [hov, if_true]
      have hlap : l.start ≤ p.e ∧ p.s ≤ l.stop := by
        simpa [Lock.overlaps] using (Bool.and_eq_true_iff.1 hov).2
      have hbelow : ({ l with stop := p.s - 1 } : Lock).PartOf l :=
        ⟨rfl, rfl, rfl, Nat.le_refl _, Nat.le_trans (Nat.sub_le _ _) hlap.2⟩
      have habove : ({ l with start := p.e + 1 } : Lock).PartOf l :=
        ⟨rfl, rfl, rfl, Nat.le_succ_of_le hlap.1, Nat.le_refl _⟩
      split
      · exact ((Within.refl t).set hl hbelow).fill hl habove
      split
      · exact (Within.refl t).set hl hbelow
      split
      · exact (Within.refl t).set hl habove
      · exact (Within.refl t).set_none
    · simp only [hov]
      exact .refl t

lemma cut_within (t p) : Within t (t.cut p) := within_foldl (cutAt_within p) _

lemma drop_within (t) (f) : Within t (t.drop f) := .of_mem fun _ => mem_drop

/-! ## Exclusion -/

/-- **No two owners have one byte**, unless both locks are shared. -/
def Exclusive (t : Table) : Prop :=
  ∀ l l', some l ∈ t → some l' ∈ t → l.key = l'.key → l.owner ≠ l'.owner →
    (l.type = .wr ∨ l'.type = .wr) → ∀ b, ¬ (l.Covers b ∧ l'.Covers b)

lemma Exclusive.within (h : Exclusive t) (hw : Within t t') : Exclusive t' := by
  intro x y hx hy hkey howner htype b hb
  obtain ⟨l, hl, hp⟩ := hw x hx
  obtain ⟨l', hl', hp'⟩ := hw y hy
  refine h l l' hl hl' (by rw [← hp.key, hkey, hp'.key]) (by rwa [← hp.owner, ← hp'.owner])
    (by rwa [← hp.type, ← hp'.type]) b ⟨hp.covers hb.1, hp'.covers hb.2⟩

lemma Exclusive.fill (h : Exclusive t) (hnew : ∀ l', some l' ∈ t → l.key = l'.key →
    l.owner ≠ l'.owner →
      (l.type = .wr ∨ l'.type = .wr) → ∀ b, ¬ (l.Covers b ∧ l'.Covers b)) :
      Exclusive (t.fill l) := by
  intro x y hx hy hkey howner htype b hb
  rcases mem_fill hx with hx' | hx' <;> rcases mem_fill hy with hy' | hy'
  · exact howner (by rw [hx', hy'])
  · subst hx'
    exact hnew y hy' hkey howner htype b hb
  · subst hy'
    exact hnew x hx' hkey.symm howner.symm htype.symm b hb.symm
  · exact h x y hx' hy' hkey howner htype b hb

/-- What merging leaves: fewer locks, and a range of bytes that were asked for or are the owner's.
-/
structure Merged (t : Table) (p : Span) (type : LockType) (r : Table × Nat × Nat) : Prop where
  fewer : ∀ l, some l ∈ r.1 → some l ∈ t
  bytes : ∀ b, r.2.1 ≤ b → b ≤ r.2.2 → (p.s ≤ b ∧ b ≤ p.e) ∨
    ∃ l, some l ∈ t ∧ l.key = p.key ∧ l.owner = p.owner ∧ l.type = type ∧ l.Covers b

lemma mergeAt_merged {r : Table × Nat × Nat} (h : Merged t p type r) :
    Merged t p type (mergeAt p type r i) := by
  rw [mergeAt]
  cases hi : r.1.getD i none with
  | none => exact h
  | some l =>
    by_cases hof : (l.isOf p && l.type == type) = true
    · simp only [hof, if_true]
      have hl : some l ∈ t ∧ l.key = p.key ∧ l.owner = p.owner ∧ l.type = type := by
        simp only [Lock.isOf, Bool.and_eq_true, beq_iff_eq] at hof
        exact ⟨h.fewer l (mem_of_getD hi), hof.1.1, hof.1.2, hof.2⟩
      have hfewer : ∀ x, some x ∈ r.1.set i none → some x ∈ t :=
        fun x hx => h.fewer x ((mem_set hx).resolve_left nofun)
      split
      · refine ⟨hfewer, fun b hlo hhi => ?_⟩
        -- the neighbour ends right before the range
        by_cases hb : r.2.1 ≤ b
        · exact h.bytes b hb hhi
        · exact .inr ⟨l, hl.1, hl.2.1, hl.2.2.1, hl.2.2.2, hlo, by omega⟩
      split
      · refine ⟨hfewer, fun b hlo hhi => ?_⟩
        by_cases hb : b ≤ r.2.2
        · exact h.bytes b hlo hb
        · exact .inr ⟨l, hl.1, hl.2.1, hl.2.2.1, hl.2.2.2, by omega, hhi⟩
      · exact h
    · simp only [hof]
      exact h

lemma merge_merged (t p type) : Merged t p type (t.merge p type) := by
  have hfold : ∀ (ns : List Nat) (r : Table × Nat × Nat), Merged t p type r →
      Merged t p type (ns.foldl (mergeAt p type) r) := by
    intro ns
    induction ns with
    | nil => exact fun r h => h
    | cons n ns ih => exact fun r h => ih _ (mergeAt_merged h)
  exact hfold _ _ ⟨fun _ => id, fun b hlo hhi => .inl ⟨hlo, hhi⟩⟩

variable {type : Option LockType}

/-- The one error of `set_range`. -/
lemma setRange_error {e : Errno} (h : t.setRange p type = .error e) : e = .enolck := by
  cases type with
  | none =>
    simp only [setRange, isSome_none, Bool.false_eq_true, if_false] at h
    split at h
    · cases h
      rfl
    · cases h
  | some ty =>
    simp only [setRange, isSome_some, if_true] at h
    split at h
    · cases h
      rfl
    · cases h

/-- Whoever has a lock after `set_range` had one before, or asked for it. -/
lemma setRange_owner (hset : t.setRange p type = .ok t') (hl : some l ∈ t') :
    l.owner = p.owner ∨ ∃ l', some l' ∈ t ∧ l'.owner = l.owner := by
  have hcut : ∀ x, some x ∈ t.cut p → ∃ l', some l' ∈ t ∧ l'.owner = x.owner := by
    intro x hx
    obtain ⟨l', hl', hp⟩ := cut_within t p x hx
    exact ⟨l', hl', hp.owner.symm⟩
  cases type with
  | none =>
    simp only [setRange, isSome_none, Bool.false_eq_true, if_false] at hset
    split at hset
    · cases hset
    cases hset
    exact .inr (hcut l hl)
  | some ty =>
    simp only [setRange, isSome_some, if_true] at hset
    split at hset
    · cases hset
    cases hset
    rcases mem_fill hl with rfl | hl
    · exact .inl rfl
    · exact .inr (hcut l ((merge_merged (t.cut p) p ty).fewer l hl))

/-- **A lock is taken where nothing conflicts**, and the table is still exclusive. -/
lemma setRange_exclusive (h : Exclusive t)
    (hfree : ∀ ty, type = some ty → t.conflict p ty = none) (hset : t.setRange p type = .ok t') :
    Exclusive t' := by
  have hcut := h.within (cut_within t p)
  cases type with
  | none =>
    simp only [setRange, isSome_none, Bool.false_eq_true, if_false] at hset
    split at hset
    · cases hset
    cases hset
    exact hcut
  | some ty =>
    simp only [setRange, isSome_some, if_true] at hset
    split at hset
    · cases hset
    cases hset
    have hm := merge_merged (t.cut p) p ty
    refine (hcut.within (.of_mem hm.fewer)).fill fun x hx hkey howner htype b hb => ?_
    have hx' := hm.fewer x hx
    rcases hm.bytes b hb.1.1 hb.1.2 with hask | ⟨l, hl, hlkey, hlowner, hltype, hlb⟩
    · -- a byte that was asked for: `conflict` has seen the lock that this one is part of
      obtain ⟨y, hy, hp⟩ := cut_within t p x hx'
      have hblocks := conflict_none (hfree ty rfl) hy
      have hyb := hp.covers hb.2
      have : y.blocks p ty = true := by
        have hkey' : y.key = p.key := hp.key.symm.trans hkey.symm
        have howner' : y.owner ≠ p.owner := fun he => howner (he.symm.trans hp.owner.symm)
        have htype' : ty = .wr ∨ y.type = .wr := htype.imp_right fun he => hp.type.symm.trans he
        simp only [Lock.blocks, Lock.overlaps, hkey', Bool.and_eq_true,
          decide_eq_true_eq, beq_iff_eq,
          bne_iff_ne, Bool.or_eq_true]
        exact ⟨⟨⟨trivial, howner'⟩, Nat.le_trans hyb.1 hask.2, Nat.le_trans hask.1 hyb.2⟩, htype'⟩
      rw [hblocks] at this
      cases this
    · exact hcut l x hl hx' (hlkey.trans hkey) (hlowner.trans_ne howner)
        (by rw [hltype]; exact htype) b ⟨hlb, hb.2⟩

end Table

end Sage040.Reclock
