import Sage040.Basic
import Sage040.Lib.LittleEndian

/-!
# One block of a directory

A directory block is a chain of entries. Each says how long its slot is, which may be more than its
name needs, and the last slot runs to the end of the block. An entry with inode `0` names nothing.

This is the part of `dir_lookup`, `dir_add`, `dir_del`, `dir_is_empty` and `dir_nth` that is done
inside a block. All five walk it the same way (`slots`) and differ in what they look for. `Tiles`
says that the chain covers the block and that every name has the room `de_len` asks for;
`tiles_linkAt` and `tiles_unlinkAt` are what adding and removing a name do to such a block.
-/

namespace Sage040.Fs

open List Bytes

abbrev Name := List UInt8

/-- A name, what it leads to, and the `EXT2_FT_` code that goes with it. -/
structure Dirent where
  name : Name
  ino : Nat
  type : UInt8
  deriving DecidableEq, Repr

/-- `de_len`: the space that an entry with a name this long needs. -/
def deLen (n : Nat) : Nat := (8 + n + 3) / 4 * 4

section Fields

variable (c : Bytes) (p : Nat)

def recLen : Nat := c.le16 (p + 4)

def inoAt : Nat := c.le32 p

def nameLen : Nat := (c (p + 6)).toNat

def nameAt : Name := (List.range (nameLen c p)).map fun i => c (p + 8 + i)

def direntAt : Dirent := ⟨nameAt c p, inoAt c p, c (p + 7)⟩

/-- The name at `p`, if there is one. -/
def liveAt : Option Dirent := if inoAt c p = 0 then none else some (direntAt c p)

def usedAt : Nat := if inoAt c p = 0 then 0 else deLen (nameLen c p)

/-- `rec - used`, a `u32`. -/
def roomAt : Nat := sub32 (recLen c p) (usedAt c p)

end Fields

/-- The slots that a walk of the block comes to from `p` on. It stops at a length that cannot be. -/
def slotsFrom (size : Nat) (c : Bytes) : Nat → Nat → List Nat
  | 0, _ => []
  | fuel + 1, p =>
    if p + 8 ≤ size then
      if recLen c p < 8 ∨ size < p + recLen c p then [] else p ::
      slotsFrom size c fuel (p + recLen c p)
    else []

def slots (size : Nat) (c : Bytes) : List Nat := slotsFrom size c size 0

def setEntry (c : Bytes) (q : Nat) (e : Dirent) : Bytes :=
  let c := c.putLe32 q e.ino
  fun i => if i = q + 6 then UInt8.ofNat e.name.length
    else if i = q + 7 then e.type
    else if q + 8 ≤ i ∧ i < q + 8 + e.name.length then e.name.getD (i - (q + 8)) 0
    else c i

/-- An entry goes in the slot at `p`: in all of it, or in what the entry there leaves. -/
def linkAt (c : Bytes) (p : Nat) (e : Dirent) : Bytes :=
  let used := usedAt c p
  let c := if used = 0 then c
    else (c.putLe16 (p + 4) used).putLe16 (p + used + 4) (sub32 (recLen c p) used)
  setEntry c (p + used) e

/-- The entry at `p` goes: its slot to the one before it, or, first in the block, its inode. -/
def unlinkAt (c : Bytes) (prev : Option Nat) (p : Nat) : Bytes :=
  match prev with
  | some q => c.putLe16 (q + 4) (recLen c q + recLen c p)
  | none => c.putLe32 p 0

def freshBlock (size : Nat) : Bytes := Bytes.zero.putLe16 4 size

/-- The name at `p` is `name`. -/
def isName (c : Bytes) (name : Name) (p : Nat) : Bool := (liveAt c p).map Dirent.name == some name

/-- The first slot that is looked for, and the one before it. -/
def findSlot (f : Nat → Bool) : Option Nat → List Nat → Option (Option Nat × Nat)
  | _, [] => none
  | prev, p :: l => if f p then some (prev, p) else findSlot f (some p) l

/-! ## Chains -/

/-- The slots `l` cover the bytes from `a` to `b`, and every name has the room it needs. -/
def Tiles (c : Bytes) : Nat → List Nat → Nat → Prop
  | a, [], b => a = b
  | a, p :: l, b => p = a ∧ 8 ≤ recLen c a ∧ (inoAt c a ≠ 0 → deLen (nameLen c a) ≤ recLen c a) ∧
      Tiles c (a + recLen c a) l b

def entriesIn (c : Bytes) (l : List Nat) : List Dirent := l.filterMap (liveAt c)

variable {c c' : Bytes} {a b m p q size fuel : Nat} {l l1 l2 : List Nat} {e : Dirent}

variable {n : Nat} {name : Name} {f : Nat → Bool}

lemma le_deLen (n) : 8 + n ≤ deLen n := by
  rw [deLen]
  omega

lemma deLen_le (h : n ≤ 255) : deLen n ≤ 264 := by
  rw [deLen]
  omega

lemma nameLen_le (c p) : nameLen c p ≤ 255 :=
  Nat.le_of_lt_succ (c (p + 6)).toNat_lt

@[simp] lemma tiles_nil : Tiles c a [] b ↔ a = b := Iff.rfl

lemma tiles_cons : Tiles c a (p :: l) b ↔ p = a ∧ 8 ≤ recLen c a ∧
    (inoAt c a ≠ 0 → deLen (nameLen c a) ≤ recLen c a) ∧ Tiles c (a + recLen c a) l b := Iff.rfl

lemma Tiles.le (h : Tiles c a l b) : a ≤ b := by
  induction l generalizing a with
  | nil => exact Nat.le_of_eq h
  | cons p l ih => exact Nat.le_trans (Nat.le_add_right _ _) (ih h.2.2.2)

lemma tiles_append : Tiles c a (l1 ++ l2) b ↔ ∃ m, Tiles c a l1 m ∧ Tiles c m l2 b := by
  induction l1 generalizing a with
  | nil => simp
  | cons p l1 ih =>
    rw [cons_append, tiles_cons, ih]
    constructor
    · rintro ⟨hp, hr, hf, m, h1, h2⟩
      exact ⟨m, ⟨hp, hr, hf, h1⟩, h2⟩
    · rintro ⟨m, ⟨hp, hr, hf, h1⟩, h2⟩
      exact ⟨hp, hr, hf, m, h1, h2⟩

/-- A slot of a chain, and what is before and after it. -/
lemma tiles_mid : Tiles c a (l1 ++ p :: l2) b ↔ Tiles c a l1 p ∧ 8 ≤ recLen c p ∧
    (inoAt c p ≠ 0 → deLen (nameLen c p) ≤ recLen c p) ∧ Tiles c (p + recLen c p) l2 b := by
  rw [tiles_append]
  constructor
  · rintro ⟨m, h1, rfl, h⟩
    exact ⟨h1, h⟩
  · rintro ⟨h1, h⟩
    exact ⟨p, h1, rfl, h⟩

lemma slotsFrom_of_tiles (h : Tiles c a l size) (hfuel : size ≤ a + fuel) :
    slotsFrom size c fuel a = l := by
  induction l generalizing a fuel with
  | nil =>
    obtain rfl : a = size := h
    cases fuel with
    | zero => rfl
    | succ fuel => rw [slotsFrom, if_neg (by omega)]
  | cons p l ih =>
    obtain ⟨rfl, hr, -, hl⟩ := h
    have hle := hl.le
    cases fuel with
    | zero => omega
    | succ fuel => rw [slotsFrom, if_pos (by omega), if_neg (by omega), ih hl (by omega)]

lemma slots_of_tiles (h : Tiles c 0 l size) : slots size c = l := slotsFrom_of_tiles h (by omega)

/-! ## Entries depend on their own bytes -/

/-- Two blocks that agree from `a` to `b`. -/
def Agree (c c' : Bytes) (a b : Nat) : Prop := ∀ i, a ≤ i → i < b → c' i = c i

lemma Agree.mono {a' b'} (h : Agree c c' a b) (ha : a ≤ a') (hb : b' ≤ b) : Agree c c' a' b' :=
  fun i hi hlt => h i (ha.trans hi) (Nat.lt_of_lt_of_le hlt hb)

lemma Agree.inoAt (h : Agree c c' p (p + 4)) : inoAt c' p = inoAt c p :=
  le_congr fun i hi hlt => h i hi hlt

lemma Agree.recLen (h : Agree c c' (p + 4) (p + 6)) : recLen c' p = recLen c p :=
  le_congr fun i hi hlt => h i hi (by omega)

lemma Agree.nameLen (h : Agree c c' (p + 6) (p + 7)) : nameLen c' p = nameLen c p := by
  rw [Fs.nameLen, Fs.nameLen, h _ (Nat.le_refl _) (by omega)]

/-- Two blocks that agree on an entry, but for the length of its slot. -/
lemma liveAt_congr (hino : Agree c c' p (p + 4))
    (h : inoAt c p ≠ 0 → Agree c c' (p + 6) (p + 8 + nameLen c p)) : liveAt c' p = liveAt c p := by
  rw [liveAt, liveAt, hino.inoAt]
  split
  · rfl
  rename_i hne
  have hbody := h hne
  have hlen : nameLen c' p = nameLen c p := (hbody.mono (Nat.le_refl _) (by omega)).nameLen
  have hname : nameAt c' p = nameAt c p := by
    rw [nameAt, nameAt, hlen]
    refine map_congr_left fun i hi => hbody _ (by omega) ?_
    have := mem_range.1 hi
    omega
  rw [direntAt, direntAt, hname, hino.inoAt, hbody _ (by omega) (by omega)]

lemma Tiles.congr (c') (h : Tiles c a l b) (hag : Agree c c' a b) :
    Tiles c' a l b ∧ entriesIn c' l = entriesIn c l := by
  induction l generalizing a with
  | nil => exact ⟨h, rfl⟩
  | cons p l ih =>
    obtain ⟨rfl, hr, hfit, hl⟩ := h
    have hle := hl.le
    obtain ⟨hl', hentries⟩ := ih hl (hag.mono (Nat.le_add_right _ _) (Nat.le_refl _))
    have hrec : recLen c' p = recLen c p := (hag.mono (by omega) (by omega)).recLen
    have hino : inoAt c' p = inoAt c p := (hag.mono (Nat.le_refl _) (by omega)).inoAt
    have hlen : nameLen c' p = nameLen c p := (hag.mono (by omega) (by omega)).nameLen
    refine ⟨⟨rfl, hrec ▸ hr, fun hne => ?_, hrec ▸ hl'⟩, ?_⟩
    · rw [hlen, hrec]
      exact hfit (hino ▸ hne)
    have hlive : liveAt c' p = liveAt c p := by
      refine liveAt_congr (hag.mono (Nat.le_refl _) (by omega)) fun hne => hag.mono (by omega) ?_
      have h2 := le_deLen (nameLen c p)
      omega
    rw [entriesIn, entriesIn, filterMap_cons, filterMap_cons, hlive]
    simp only [entriesIn] at hentries
    rw [hentries]

lemma find_entriesIn (c) (name) (l) :
    (entriesIn c l).find? (fun e => e.name == name) = (l.find? (isName c name)).bind (liveAt c) :=
    by
  induction l with
  | nil => rfl
  | cons p l ih =>
    rw [entriesIn, filterMap_cons]
    cases hlive : liveAt c p with
    | none =>
      rw [find?_cons_of_neg (by simp [isName, hlive])]
      exact ih
    | some e =>
      by_cases hname : e.name = name
      · rw [find?_cons_of_pos (by simp [hname]),
          find?_cons_of_pos (by simp [isName, hlive, hname]), Option.bind_some, hlive]
      rw [find?_cons_of_neg (by simp [hname]), find?_cons_of_neg (by simp [isName, hlive, hname])]
      exact ih

lemma isName_iff : isName c name p = true ↔ ∃ e, liveAt c p = some e ∧ e.name = name := by
  cases h : liveAt c p <;> simp [isName, h]

lemma liveAt_eq (h : liveAt c p = some e) : inoAt c p = e.ino ∧ c (p + 7) = e.type := by
  rw [liveAt] at h
  split at h
  · cases h
  cases h
  exact ⟨rfl, rfl⟩

/-! ## A name is added -/

lemma roomAt_eq (h : inoAt c p ≠ 0 → deLen (nameLen c p) ≤ recLen c p) :
    usedAt c p ≤ recLen c p ∧ roomAt c p = recLen c p - usedAt c p := by
  have hused : usedAt c p ≤ recLen c p := by
    rw [usedAt]
    split
    · exact Nat.zero_le _
    · exact h (by assumption)
  have hrec : recLen c p < 2 ^ 16 := le16_lt c (p + 4)
  refine ⟨hused, ?_⟩
  rw [roomAt, sub32]
  omega

lemma setEntry_of_ne {i : Nat} (h : i < q ∨ (q + 4 ≤ i ∧ i < q + 6) ∨ q + 8 + e.name.length ≤ i) :
    setEntry c q e i = c i := by
  simp only [setEntry]
  rw [if_neg (by omega), if_neg (by omega), if_neg (by omega)]
  exact putLe_of_ne (by omega)

lemma recLen_setEntry : recLen (setEntry c q e) q = recLen c q :=
  Agree.recLen fun i hi hlt => setEntry_of_ne (by omega)

lemma inoAt_setEntry (h : e.ino < 2 ^ 32) : inoAt (setEntry c q e) q = e.ino := by
  have hput : inoAt (setEntry c q e) q = (c.putLe32 q e.ino).le32 q := by
    refine le_congr fun i hi hlt => ?_
    simp only [setEntry]
    rw [if_neg (by omega), if_neg (by omega), if_neg (by omega)]
  rw [hput, le32_putLe32 h]

lemma nameLen_setEntry (h : e.name.length ≤ 255) : nameLen (setEntry c q e) q = e.name.length := by
  simp only [nameLen, setEntry, if_pos]
  rw [UInt8.toNat_ofNat']
  omega

lemma liveAt_setEntry (hname : e.name.length ≤ 255) (hino : e.ino ≠ 0) (hlt : e.ino < 2 ^ 32) :
    liveAt (setEntry c q e) q = some e := by
  have hnames : nameAt (setEntry c q e) q = e.name := by
    rw [nameAt, nameLen_setEntry hname]
    refine ext_getElem (by simp) fun i hi hi' => ?_
    simp only [getElem_map, getElem_range, setEntry]
    rw [if_neg (by omega), if_neg (by omega), if_pos (by omega), Nat.add_sub_cancel_left,
      getD_eq_getElem?_getD, getElem?_eq_getElem hi', Option.getD_some]
  have htype : setEntry c q e (q + 7) = e.type := by
    simp [setEntry]
  rw [liveAt, if_neg (by rwa [inoAt_setEntry hlt]), direntAt, hnames, htype, inoAt_setEntry hlt]

lemma entriesIn_append : entriesIn c (l1 ++ l2) = entriesIn c l1 ++ entriesIn c l2 :=
  filterMap_append

lemma entriesIn_cons : entriesIn c (p :: l) = (liveAt c p).toList ++ entriesIn c l := by
  rw [entriesIn, filterMap_cons]
  cases liveAt c p <;> rfl

/-- **Adding a name to a block**: it comes after the names up to the slot it was put in. -/
lemma tiles_linkAt (h : Tiles c 0 (l1 ++ p :: l2) size) (hsize : size < 2 ^ 16)
    (hroom : deLen e.name.length ≤ roomAt c p) (hname : e.name.length ≤ 255) (hino : e.ino ≠ 0)
    (hlt : e.ino < 2 ^ 32) : ∃ l, Tiles (linkAt c p e) 0 l size ∧
      entriesIn (linkAt c p e) l = entriesIn c (l1 ++ [p]) ++ e :: entriesIn c l2 := by
  obtain ⟨h1, hrec, hfit, h2⟩ := tiles_mid.1 h
  obtain ⟨hused, hroomeq⟩ := roomAt_eq hfit
  have hneed := le_deLen e.name.length
  have hend := h2.le
  rw [hroomeq] at hroom
  by_cases hdead : inoAt c p = 0
  · have hused0 : usedAt c p = 0 := if_pos hdead
    have hlink : linkAt c p e = setEntry c p e := by
      simp only [linkAt, hused0, if_pos, Nat.add_zero]
    rw [hlink]
    obtain ⟨h1', he1⟩ := h1.congr (setEntry c p e) fun i _ hi => setEntry_of_ne (by omega)
    obtain ⟨h2', he2⟩ := h2.congr (setEntry c p e) fun i hi _ => setEntry_of_ne (by omega)
    refine ⟨l1 ++ p :: l2, tiles_mid.2 ⟨h1', by rwa [recLen_setEntry], fun _ => ?_, ?_⟩, ?_⟩
    · rw [nameLen_setEntry hname, recLen_setEntry]
      omega
    · rwa [recLen_setEntry]
    rw [entriesIn_append, entriesIn_cons, he1, he2, liveAt_setEntry hname hino hlt,
      entriesIn_append,
      entriesIn_cons, liveAt, if_pos hdead]
    simp [entriesIn]
  have hused' : usedAt c p = deLen (nameLen c p) := if_neg hdead
  have hown := le_deLen (nameLen c p)
  generalize hu : usedAt c p = used at *
  -- the slot is cut in two first
  obtain ⟨c1, hc1⟩ : ∃ c1, c1 = (c.putLe16 (p + 4) used).putLe16 (p + used + 4)
    (recLen c p - used) := ⟨_, rfl⟩
  have hsub : sub32 (recLen c p) used = recLen c p - used := by rw [← hroomeq, roomAt, hu]
  have hlink : linkAt c p e = setEntry c1 (p + used) e := by
    simp only [linkAt, hu, hsub]
    rw [if_neg (by omega), hc1]
  have hout : ∀ i, (i < p + 4 ∨ (p + 6 ≤ i ∧ i < p + used + 4) ∨ p + used + 6 ≤ i) →
      c1 i = c i := by
    intro i hi
    rw [hc1]
    exact (putLe_of_ne (by omega)).trans (putLe_of_ne (by omega))
  have hrec1 : recLen c1 p = used := by
    rw [hc1, recLen]
    exact (le_putLe_of_disjoint (by omega)).trans (le16_putLe16 (by omega))
  have hrec2 : recLen c1 (p + used) = recLen c p - used := by
    rw [hc1]
    exact le16_putLe16 (by omega)
  rw [hlink]
  have hsame : ∀ i, (i < p + 4 ∨ (p + 6 ≤ i ∧ i < p + used) ∨ p + recLen c p ≤ i) →
      setEntry c1 (p + used) e i = c i := by
    intro i hi
    rw [setEntry_of_ne (by omega), hout i (by omega)]
  obtain ⟨h1', he1⟩ := h1.congr (setEntry c1 (p + used) e) fun i _ hi => hsame i (by omega)
  obtain ⟨h2', he2⟩ := h2.congr (setEntry c1 (p + used) e) fun i hi _ => hsame i (by omega)
  have hlive : liveAt (setEntry c1 (p + used) e) p = liveAt c p :=
    liveAt_congr (fun i _ hi => hsame i (by omega)) fun _ i hi hi' => hsame i (by omega)
  have hrecp : recLen (setEntry c1 (p + used) e) p = used := by
    rw [← hrec1]
    exact Agree.recLen fun i hi hi' => setEntry_of_ne (by omega)
  have hlenp : nameLen (setEntry c1 (p + used) e) p = nameLen c p :=
    Agree.nameLen fun i hi hi' => hsame i (by omega)
  refine ⟨l1 ++ p :: (p + used) :: l2, tiles_mid.2 ⟨h1', by omega, fun _ => ?_, ?_⟩, ?_⟩
  · rw [hlenp, hrecp, hused']
  · rw [hrecp, tiles_cons, recLen_setEntry, hrec2, nameLen_setEntry hname]
    refine ⟨rfl, by omega, fun _ => hroom, ?_⟩
    rwa [show p + used + (recLen c p - used) = p + recLen c p by omega]
  · rw [entriesIn_append, entriesIn_cons, entriesIn_cons, he1, he2, hlive,
      liveAt_setEntry hname hino hlt, entriesIn_append, entriesIn_cons]
    simp [entriesIn]

/-! ## A name is removed -/

lemma findSlot_spec {prev prev' : Option Nat} (h : findSlot f prev l = some (prev', p)) :
    ∃ l1 l2, l = l1 ++ p :: l2 ∧ f p = true ∧ (∀ q ∈ l1, f q = false) ∧
      prev' = if l1 = [] then prev else l1.getLast? := by
  induction l generalizing prev with
  | nil => cases h
  | cons q l ih =>
    rw [findSlot] at h
    split at h
    · rename_i hq
      cases h
      exact ⟨[], l, rfl, hq, nofun, rfl⟩
    rename_i hq
    obtain ⟨l1, l2, rfl, hp, hbefore, rfl⟩ := ih h
    refine ⟨q :: l1, l2, rfl, hp, ?_, ?_⟩
    · rintro q' (_ | ⟨_, hq'⟩)
      · simpa using hq
      · exact hbefore q' hq'
    cases l1 with
    | nil => rfl
    | cons q' l1 => simp

lemma findSlot_none {prev : Option Nat} (h : findSlot f prev l = none) : ∀ q ∈ l, f q = false := by
  induction l generalizing prev with
  | nil => nofun
  | cons q l ih =>
    rw [findSlot] at h
    split at h
    · cases h
    rename_i hq
    rintro q' (_ | ⟨_, hq'⟩)
    · simpa using hq
    · exact ih h q' hq'

lemma tiles_unlinkAt (h : Tiles c 0 (l1 ++ p :: l2) size) (hsize : size < 2 ^ 16) :
    ∃ l, Tiles (unlinkAt c l1.getLast? p) 0 l size ∧
      entriesIn (unlinkAt c l1.getLast? p) l = entriesIn c l1 ++ entriesIn c l2 := by
  obtain ⟨h1, hrec, hfit, h2⟩ := tiles_mid.1 h
  have hend := h2.le
  rcases eq_nil_or_concat l1 with rfl | ⟨l0, q, rfl⟩
  · obtain rfl : 0 = p := h1
    have hsame : ∀ i, 4 ≤ i → c.putLe32 0 0 i = c i := fun i hi => putLe_of_ne (by omega)
    have hino : inoAt (c.putLe32 0 0) 0 = 0 := le32_putLe32 (by omega)
    have hrec' : recLen (c.putLe32 0 0) 0 = recLen c 0 :=
      Agree.recLen fun i hi _ => hsame i (by omega)
    obtain ⟨h2', he2⟩ := h2.congr (c.putLe32 0 0) fun i hi _ => hsame i (by omega)
    refine ⟨0 :: l2, ⟨rfl, hrec' ▸ hrec, fun hne => absurd hino hne, hrec' ▸ h2'⟩, ?_⟩
    show entriesIn (c.putLe32 0 0) (0 :: l2) = _
    rw [entriesIn_cons, he2, liveAt, if_pos hino]
    rfl
  rw [concat_eq_append] at h h1 ⊢
  obtain ⟨h0, hrecq, hfitq, rfl⟩ := tiles_mid.1 h1
  rw [getLast?_append, getLast?_singleton, Option.some_or]
  obtain ⟨c', hc'⟩ : ∃ c', c' = c.putLe16 (q + 4) (recLen c q + recLen c (q + recLen c q)) :=
    ⟨_, rfl⟩
  have hsame : ∀ i, (i < q + 4 ∨ q + 6 ≤ i) → c' i = c i := by
    intro i hi
    rw [hc']
    exact putLe_of_ne (by omega)
  have hrec' : recLen c' q = recLen c q + recLen c (q + recLen c q) := by
    rw [hc']
    exact le16_putLe16 (by omega)
  obtain ⟨h0', he0⟩ := h0.congr c' fun i _ hi => hsame i (by omega)
  obtain ⟨h2', he2⟩ := h2.congr c' fun i hi _ => hsame i (by omega)
  have hino : inoAt c' q = inoAt c q := Agree.inoAt fun i _ hi => hsame i (by omega)
  have hlen : nameLen c' q = nameLen c q := Agree.nameLen fun i hi _ => hsame i (by omega)
  have hlive : liveAt c' q = liveAt c q :=
    liveAt_congr (fun i _ hi => hsame i (by omega)) fun _ i hi _ => hsame i (by omega)
  have hunlink : unlinkAt c (some q) (q + recLen c q) = c' := hc'.symm
  rw [hunlink]
  refine ⟨l0 ++ q :: l2, tiles_mid.2 ⟨h0', by omega, fun hne => ?_, ?_⟩, ?_⟩
  · have := hfitq (hino ▸ hne)
    rw [hlen, hrec']
    omega
  · rwa [hrec', ← Nat.add_assoc]
  · rw [entriesIn_append, entriesIn_cons, he0, he2, hlive, entriesIn_append, entriesIn_cons]
    simp [entriesIn]

lemma tiles_freshBlock (h : 8 ≤ size) (hsize : size < 2 ^ 16) :
    Tiles (freshBlock size) 0 [0] size := by
  have hrec : recLen (freshBlock size) 0 = size := le16_putLe16 hsize
  have hino : inoAt (freshBlock size) 0 = 0 :=
    (le_putLe_of_disjoint (by omega)).trans (le_zero 0 4)
  exact ⟨rfl, hrec.symm ▸ h, fun hne => absurd hino hne, by rw [hrec]; exact Nat.zero_add size⟩

lemma find_freshBlock {need : Nat} (h : need ≤ size) (h8 : 8 ≤ size) (hsize : size < 2 ^ 16) :
    (slots size (freshBlock size)).find? (fun p => decide (need ≤ roomAt (freshBlock size) p)) =
    some 0 := by
  have htiles := tiles_freshBlock h8 hsize
  have hrec : recLen (freshBlock size) 0 = size := le16_putLe16 hsize
  have hroom : roomAt (freshBlock size) 0 = size := by
    rw [(roomAt_eq htiles.2.2.1).2, hrec, usedAt, if_pos, Nat.sub_zero]
    exact (le_putLe_of_disjoint (by omega)).trans (le_zero 0 4)
  rw [slots_of_tiles htiles, find?_cons_of_pos (by simpa [hroom] using h)]

end Sage040.Fs
