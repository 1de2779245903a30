import Sage040.Fs.Ext2.Alloc
import Sage040.Fs.Ext2.Map
import Sage040.Lib.Forest

/-!
# Whose blocks are whose

The block maps of a volume's inodes are a forest: the roots are the words of `i_block`, and an
indirect block is a table of what hangs below it. `Owned` says that no block is reached by two
pointers, and that every block reached is marked, inside the volume and no metadata.

A call works on a copy of an inode and may or may not write it back. So all of this is said of a
choice of roots: `rootOf v.inode` between calls, and within one `setRoots` of it, which has the
copy's words in place of the inode's.

`bmap_grew` is what `bmap` does to such a volume when it allocates: whatever was reached still is,
what it took was free, and no file reads differently.
-/

namespace Sage040.Fs

open Function Forest List

/-- The entries of every inode's map, by inode and word. -/
abbrev Roots := Nat × Nat → Nat

/-- The levels of tables below an entry of `i_block`. -/
def lvl (r : Nat × Nat) : Nat := r.2 - 11

/-- The words of `i_block` are block numbers. -/
def Einode.hasMap (ei : Einode) : Bool := !ei.fastSymlink && !ei.isDevice

/-- The block that each entry of each inode's map leads to. -/
def rootOf (tbl : Nat → Einode) : Roots := fun r =>
  if (tbl r.1).hasMap = true ∧ r.2 < 15 then (tbl r.1).block r.2 else 0

def setRoots (root : Roots) (ino : Nat) (words : Nat → Nat) : Roots := fun r =>
  if r.1 = ino then if r.2 < 15 then words r.2 else 0 else root r

def ptrs (data : Nat → Bytes) : Store := fun b i => (data b).le32 (4 * i)

namespace Vol

variable (g : Geometry)

/-- A block that a file may have. -/
def Good (v : Vol) (b : Nat) : Prop := v.bit b = true ∧ g.Inside b ∧ ¬ g.Meta b

/-- **No block is owned twice.** -/
structure Owned (v : Vol) (root : Roots) : Prop where
  owns : Owns lvl g.addrs (ptrs v.data) root (v.Good g)
  metaTaken : ∀ b, g.Meta b → v.bit b = true

/-- The block at a path of the map of inode `ino`. -/
def at_ (v : Vol) (root : Roots) (ino s : Nat) (p : List Nat) : Nat :=
  node (ptrs v.data) root (ino, s) p

/-- The block behind a file block, `0` for a hole. -/
def leaf (v : Vol) (root : Roots) (ino iblk : Nat) : Nat :=
  match mapPath g.addrs iblk with
  | some (s, p) => v.at_ root ino s p
  | none => 0

def contents (v : Vol) (root : Roots) (ino iblk : Nat) : Bytes :=
  if v.leaf g root ino iblk = 0 then Bytes.zero else v.data (v.leaf g root ino iblk)

end Vol

/-! ## Paths of the map -/

lemma addrs_pos (g : Geometry) : 0 < g.addrs := by
  rw [Geometry.addrs]
  rcases g.blockSize_eq with h | h | h <;> rw [h] <;> decide

variable {p : List Nat}

variable {n iblk s : Nat}

lemma mapPath_spec (hn : 0 < n)
    (h : mapPath n iblk = some (s, p)) : s < 15 ∧ p.length = lvl (0, s) ∧ ∀ i ∈ p, i < n := by
  simp only [mapPath] at h
  split at h
  · cases h
    exact ⟨by omega, by rw [lvl]; simp; omega, nofun⟩
  split at h
  · cases h
    exact ⟨by omega, rfl, by simpa using by assumption⟩
  split at h
  · rename_i h2
    cases h
    refine ⟨by omega, rfl, ?_⟩
    simp only [mem_cons, not_mem_nil, or_false]
    rintro i (rfl | rfl)
    · exact Nat.div_lt_of_lt_mul h2
    · exact Nat.mod_lt _ hn
  split at h
  · cases h
    refine ⟨by omega, rfl, ?_⟩
    simp only [mem_cons, not_mem_nil, or_false]
    rintro i (rfl | rfl | rfl)
    · rwa [← Nat.div_div_eq_div_mul]
    · exact Nat.mod_lt _ hn
    · exact Nat.mod_lt _ hn
  · cases h

/-- Which leaf of its table a path leads to. -/
def index (n : Nat) : List Nat → Nat
  | [] => 0
  | i :: p => i * n ^ p.length + index n p

lemma index_lt (h : ∀ i ∈ p, i < n) : index n p < n ^ p.length := by
  induction p with
  | nil => exact Nat.one_pos
  | cons i p ih =>
    have h1 := ih fun j hj => h j (mem_cons_of_mem i hj)
    have h2 : (i + 1) * n ^ p.length ≤ n * n ^ p.length :=
      Nat.mul_le_mul_right _ (h i mem_cons_self)
    rw [index, length_cons, Nat.pow_succ']
    rw [Nat.add_mul, Nat.one_mul] at h2
    omega

/-- The first file block of an entry of `i_block`. -/
def firstOf (n s : Nat) : Nat := if s ≤ 12 then s else if s = 13 then 12 + n else 12 + n + n * n

lemma index_two (n i : Nat) : index n [i / n, i % n] = i := by
  simpa [index] using Nat.div_add_mod' i n

lemma index_three (n i : Nat) : index n [i / (n * n), i / n % n, i % n] = i := by
  have h : index n [i / (n * n), i / n % n, i % n] = (i / n / n * n + i / n % n) * n + i % n := by
    rw [Nat.div_div_eq_div_mul]
    simp only [index, length_cons, length_nil]
    ring
  rw [h, Nat.div_add_mod', Nat.div_add_mod']

lemma mapPath_index (h : mapPath n iblk = some (s, p)) : iblk = firstOf n s + index n p := by
  simp only [mapPath] at h
  split at h
  · cases h
    rw [firstOf, if_pos (by omega)]
    rfl
  split at h
  · cases h
    simp only [firstOf, index, length_nil]
    simp
    omega
  split at h
  · cases h
    rw [index_two]
    simp only [firstOf]
    simp
    omega
  split at h
  · cases h
    rw [index_three]
    simp only [firstOf]
    simp
    omega
  · cases h

lemma mapPath_inj {i j : Nat} (hi : mapPath n i = some (s, p))
    (hj : mapPath n j = some (s, p)) : i = j :=
  (mapPath_index hi).trans (mapPath_index hj).symm

/-! ## Roots and tables -/

section Roots

variable {root : Roots} {ino s b x i : Nat} {words : Nat → Nat}

lemma setRoots_self (hs : s < 15) : setRoots root ino words (ino, s) = words s := by
  simp [setRoots, hs]

lemma setRoots_update (hs : s < 15) :
    setRoots root ino (update words s b) = update (setRoots root ino words) (ino, s) b := by
  funext r
  by_cases h : r = (ino, s)
  · subst h
    rw [update_self, setRoots_self hs, update_self]
  rw [update_of_ne h]
  simp only [setRoots]
  split
  · rename_i hr
    rw [update_of_ne fun h' => h (Prod.ext hr h')]
  · rfl

lemma rootOf_update (tbl : Nat → Einode) {ei : Einode} (h : ei.hasMap = true) :
    rootOf (update tbl ino ei) = setRoots (rootOf tbl) ino ei.block := by
  funext r
  simp only [rootOf, setRoots, update_apply]
  by_cases hr : r.1 = ino
  · simp [hr, h]
  · simp [hr]

lemma setRoots_rootOf {tbl : Nat → Einode} (h : (tbl ino).hasMap = true) :
    setRoots (rootOf tbl) ino (tbl ino).block = rootOf tbl := by
  rw [← rootOf_update tbl h, update_eq_self]

lemma ptrs_update (data : Nat → Bytes) (c : Bytes) :
    ptrs (update data b c) = fun d j => if d = b then c.le32 (4 * j) else ptrs data d j := by
  funext d j
  rw [ptrs, update_apply]
  split <;> rfl

lemma ptrs_putLe32 (data : Nat → Bytes) (hx : x < 2 ^ 32) :
    ptrs (update data b ((data b).putLe32 (4 * i) x)) = setPtr (ptrs data) b i x := by
  rw [ptrs_update]
  funext d j
  rw [setPtr]
  by_cases hd : d = b
  · subst hd
    rw [if_pos rfl]
    by_cases hj : j = i
    · rw [hj, if_pos ⟨rfl, rfl⟩]
      exact Bytes.le32_putLe32 hx
    · rw [if_neg fun h => hj h.2]
      exact Bytes.le_putLe_of_disjoint (by omega)
  · rw [if_neg hd, if_neg fun h => hd h.1]

end Roots

namespace Vol

variable {g : Geometry} {v v' v1 : Vol} {root root' : Roots} {ino s b i k : Nat} {p q : List Nat}

lemma Owned.zeroTaken (h : Owned g v root) : ZeroTaken g v := by
  intro hin
  refine h.metaTaken 0 ⟨0, g.groupCount_pos, .inr (.inr (.inr ⟨?_, ?_⟩))⟩
  · have := hin.1
    rw [Geometry.base]
    omega
  · have := g.lt_blockBitmap
    omega

lemma Owned.congr (h : Owned g v root) (hb : v'.bit = v.bit) (hd : v'.data = v.data) :
    Owned g v' root := by
  have hgood : v'.Good g = v.Good g := by
    funext c
    rw [Good, Good, hb]
  refine ⟨?_, fun b hm => by rw [hb]; exact h.metaTaken b hm⟩
  rw [hgood, hd]
  exact h.owns

lemma Owned.of_image (h : Owned g v root) (hi : v'.toImage = v.toImage) : Owned g v' root :=
  h.congr (by rw [hi]) (by rw [hi])

lemma owned_of_direct (hgood : ∀ r, root r ≠ 0 → r.2 < 12 ∧ v.Good g (root r))
    (hinj : ∀ r r', root r ≠ 0 → root r = root r' → r = r')
    (hmeta : ∀ b, g.Meta b → v.bit b = true) :
    Owned g v root := by
  have hdirect : ∀ r p, Path lvl g.addrs r p → node (ptrs v.data) root r p ≠ 0 →
      p = [] ∧ root r ≠ 0 := by
    intro r p hp hne
    have hr : root r ≠ 0 := fun h0 => hne (by rw [node, h0, walk_zero])
    have hlvl : lvl r = 0 := Nat.sub_eq_zero_of_le (by have := (hgood r hr).1; omega)
    exact ⟨length_eq_zero_iff.1 (Nat.le_zero.1 (hlvl ▸ hp.1)), hr⟩
  refine ⟨⟨fun r p hp hne => ?_, fun r p r' p' hp hp' hne heq => ?_⟩, hmeta⟩
  · obtain ⟨rfl, hr⟩ := hdirect r p hp hne
    exact (hgood r hr).2
  obtain ⟨rfl, hr⟩ := hdirect r p hp hne
  obtain ⟨rfl, -⟩ := hdirect r' p' hp' (heq ▸ hne)
  exact ⟨hinj r r' hr heq, rfl⟩

lemma owned_of_single (hroot : ∀ r, root r = if r = (ino, 0) then b else 0) (hb : v.Good g b)
    (hmeta : ∀ b, g.Meta b → v.bit b = true) : Owned g v root := by
  have hne : ∀ r, root r ≠ 0 → r = (ino, 0) := fun r hr => by
    by_contra hc
    exact hr (by rw [hroot, if_neg hc])
  refine owned_of_direct (fun r hr => ?_) (fun r r' hr heq => ?_) hmeta
  · rw [hroot, if_pos (hne r hr), hne r hr]
    exact ⟨Nat.zero_lt_succ 11, hb⟩
  · rw [hne r hr, hne r' (heq ▸ hr)]

lemma path_of_mapPath (ino : Nat) (h : mapPath g.addrs k = some (s, p)) :
    Path lvl g.addrs (ino, s) p ∧ p.length = lvl (ino, s) :=
  have := mapPath_spec (addrs_pos g) h
  ⟨⟨this.2.1.le, this.2.2⟩, this.2.1⟩

lemma contents_of_leaf (h : ∀ s p, mapPath g.addrs k = some (s, p) →
    (v'.at_ root' ino s p = v.at_ root ino s p ∧
      (v.at_ root ino s p ≠ 0 → v'.data (v.at_ root ino s p) = v.data (v.at_ root ino s p))) ∨
    (v.at_ root ino s p = 0 ∧ v'.data (v'.at_ root' ino s p) = Bytes.zero)) :
    v'.contents g root' ino k = v.contents g root ino k := by
  cases hm : mapPath g.addrs k with
  | none => simp [contents, leaf, hm]
  | some sp =>
    obtain ⟨s, p⟩ := sp
    simp only [contents, leaf, hm]
    rcases h s p hm with ⟨heq, hd⟩ | ⟨h0, hd⟩
    · rw [heq]
      split
      · rfl
      rename_i hne
      exact hd hne
    · rw [if_pos h0, hd]
      split <;> rfl

lemma contents_of_data (h : v'.data = v.data) :
    v'.contents g root ino k = v.contents g root ino k :=
  contents_of_leaf fun s p _ => .inl ⟨by rw [at_, at_, h], fun _ => by rw [h]⟩

lemma contents_of_image (h : v'.toImage = v.toImage) :
    v'.contents g root ino k = v.contents g root ino k := contents_of_data (congrArg Image.data h)

variable (g) in
/-- What allocating does: nothing is lost, nothing is shared, and no file reads differently. -/
structure Grew (v : Vol) (root : Roots) (v' : Vol) (root' : Roots) : Prop where
  owned : Owned g v' root'
  contents : ∀ ino k, v'.contents g root' ino k = v.contents g root ino k
  kept : ∀ r p, Path lvl g.addrs r p → node (ptrs v.data) root r p ≠ 0 →
    node (ptrs v'.data) root' r p = node (ptrs v.data) root r p
  beside : Beside v v'

lemma Grew.trans {w : Vol} {root''} (h : Grew g v root v' root')
    (h' : Grew g v' root' w root'') : Grew g v root w root'' := by
  refine ⟨h'.owned, fun ino k => (h'.contents ino k).trans (h.contents ino k), fun r p hp hne => ?_,
    h.beside.trans h'.beside⟩
  rw [h'.kept r p hp (by rwa [h.kept r p hp hne]), h.kept r p hp hne]

lemma Grew.leaf (h : Grew g v root v' root') (ino k) (hk : v.leaf g root ino k ≠ 0) :
    v'.leaf g root' ino k = v.leaf g root ino k := by
  cases hm : mapPath g.addrs k with
  | none => exact absurd (by rw [Vol.leaf, hm]) hk
  | some sp =>
    simp only [Vol.leaf, hm] at hk ⊢
    exact h.kept _ _ (path_of_mapPath ino hm).1 hk

variable (h : Owned g v root)

include h

lemma Owned.grew_congr (hb : v'.bit = v.bit) (hd : v'.data = v.data) (hs : Beside v v') :
    Grew g v root v' root :=
  ⟨h.congr hb hd, fun _ _ => contents_of_data hd, fun _ _ _ _ => by rw [hd], hs⟩

lemma Owned.grew_of_image (hi : v'.toImage = v.toImage) :
    Grew g v root v' root := h.grew_congr (by rw [hi]) (by rw [hi]) (.of_image hi)

variable {x : Nat} {r : Nat × Nat}

lemma Owned.grew_attach {r0 : Nat × Nat} {p0 : List Nat}
    (ht : Took g v v1 x) (hbit : v'.bit = v1.bit) (hbeside : Beside v1 v')
    (hzero : v'.data x = Bytes.zero)
    (hdata : ∀ r p, Path lvl g.addrs r p → p.length = lvl r → node (ptrs v.data) root r p ≠ 0 →
      v'.data (node (ptrs v.data) root r p) = v.data (node (ptrs v.data) root r p))
    (hat : Attached lvl g.addrs (ptrs v.data) root (ptrs v'.data) root' r0 p0 x) :
    Grew g v root v' root' := by
  have hx : ¬ v.Good g x := fun hg => by
    rw [Good, ht.free] at hg
    exact nomatch hg.1
  have hbits : ∀ c, v'.bit c = true ↔ v.bit c = true ∨ c = x := by
    intro c
    rw [hbit, ht.bit, update_apply]
    split <;> simp_all
  have hmeta : ¬ g.Meta x := fun hm => by
    have := h.metaTaken x hm
    rw [ht.free] at this
    cases this
  refine ⟨⟨h.owns.attach hx hat ?_, fun b hb => (hbits b).2 (.inl (h.metaTaken b hb))⟩,
    fun ino k => ?_,
    fun r p hp hne => ?_, ht.beside.trans hbeside⟩
  · rintro c (hc | rfl)
    · exact ⟨(hbits c).2 (.inl hc.1), hc.2⟩
    · exact ⟨(hbits c).2 (.inr rfl), ht.inside, hmeta⟩
  · refine contents_of_leaf fun s p hm => ?_
    obtain ⟨hp, hlen⟩ := path_of_mapPath (g := g) ino hm
    rcases hat (ino, s) p hp with heq | ⟨-, -, h0, hnew⟩
    · exact .inl ⟨heq, hdata _ p hp hlen⟩
    refine .inr ⟨h0, ?_⟩
    rw [at_, hnew, hzero]
  · rcases hat r p hp with heq | ⟨-, -, h0, -⟩
    · exact heq
    · exact absurd h0 hne

lemma Owned.ne_of_took (ht : Took g v v1 b) (hp : Path lvl g.addrs r p)
    (hne : node (ptrs v.data) root r p ≠ 0) :
    node (ptrs v.data) root r p ≠ b := by
  intro heq
  have := (h.owns.held r p hp hne).1
  rw [heq, ht.free] at this
  cases this

lemma Owned.grew_root (ht : Took g v v1 b) (h0 : root (ino, s) = 0) :
    Grew g v root (v1.bgetZero b) (update root (ino, s) b) := by
  have hdata : (v1.bgetZero b).data = update v.data b Bytes.zero := by
    simp [bgetZero, setData, ht.data]
  refine h.grew_attach ht (by simp [bgetZero, setData]) ?_ (by rw [hdata, update_self]) ?_
    (attached_root h.owns h0 (fun hg => ?_) (fun c hc => ?_) fun i _ => ?_)
  · constructor <;> simp [bgetZero, setData]
  · intro r p hp _ hne
    rw [hdata, update_of_ne (h.ne_of_took ht hp hne)]
  · rw [Good, ht.free] at hg
    exact nomatch hg.1
  · funext i
    rw [hdata, ptrs_update]
    exact if_neg hc
  · rw [hdata, ptrs_update]
    simp [Bytes.le32]

omit h

/-- A fresh block, zeroed, hung from the table at the end of path `q`. -/
lemma Owned.grew_ptr (v' : Vol) (h : Owned g v root) (ht : Took g v v1 x)
    (hq : Path lvl g.addrs r (q ++ [i])) (hb : node (ptrs v.data) root r q = b) (hb0 : b ≠ 0)
    (h0 : ptrs v.data b i = 0) (hbit : v'.bit = v1.bit) (hbeside : Beside v1 v')
    (hdata : v'.data = update (update v.data x Bytes.zero) b ((v.data b).putLe32 (4 * i) x)) :
    Grew g v root v' root ∧ node (ptrs v'.data) root r (q ++ [i]) = x := by
  subst hb
  have hbx : node (ptrs v.data) root r q ≠ x := h.ne_of_took ht hq.of_append hb0
  have hx : x < 2 ^ 32 := Nat.lt_trans ht.inside.2 g.blocksCount_lt
  have hput : ptrs v'.data = setPtr (ptrs (update v.data x Bytes.zero))
      (node (ptrs v.data) root r q) i x := by
    rw [hdata, ← ptrs_putLe32 _ hx, update_of_ne hbx]
  have hgrew : Grew g v root v' root := by
    refine h.grew_attach ht hbit hbeside ?_ ?_
      (attached_ptr h.owns hq hb0 h0 (fun hg => ?_) (fun c hc => ?_) fun j _ => ?_)
    · rw [hdata, update_of_ne hbx.symm, update_self]
    · -- a file's block is no table
      intro r' p hp hlen hne
      rw [hdata, update_of_ne fun heq => ?_, update_of_ne (h.ne_of_took ht hp hne)]
      obtain ⟨rfl, rfl⟩ := h.owns.apart r' p r q hp hq.of_append hne heq
      have := hq.1
      rw [length_append, length_singleton] at this
      omega
    · rw [Good, ht.free] at hg
      exact nomatch hg.1
    · funext j
      rw [hput, setPtr, setPtr, ptrs_update]
      simp only [if_neg hc]
    · rw [hput, setPtr, if_neg fun hc => hbx hc.1.symm, ptrs_update]
      simp [Bytes.le32]
  refine ⟨hgrew, ?_⟩
  rw [node_append, hgrew.kept r q hq.of_append hb0, walk_cons hb0, walk_nil, hput, setPtr,
    if_pos ⟨rfl, rfl⟩]

/-! ## What `bmap` does -/

section Bmap

variable {ei ei' : Einode} {res : Except Errno Nat}

variable {r : Nat × Nat}

lemma Owned.lt_count (h : Owned g v root) (hp : Path lvl g.addrs r q)
    (hb : node (ptrs v.data) root r q = b)
    (hb0 : b ≠ 0) : ¬ g.blocksCount ≤ b := by
  subst hb
  exact Nat.not_le.2 (h.owns.held r q hp hb0).2.1.2

/-- The rest of a path, read: nothing is allocated where something is. -/
lemma descend_read (alloc : Bool) (h : Owned g v root)
    (hp : Path lvl g.addrs r (q ++ p)) (hb : node (ptrs v.data) root r q = b) (hb0 : b ≠ 0)
    (hmapped : alloc = true → node (ptrs v.data) root r (q ++ p) ≠ 0) :
    ∃ v', v.descend g alloc p b ei = (v', ei, .ok (node (ptrs v.data) root r (q ++ p))) ∧
    v'.toImage = v.toImage := by
  induction p generalizing q b v with
  | nil => exact ⟨v, by rw [descend, append_nil, hb], rfl⟩
  | cons i p ih =>
    have hin := h.lt_count hp.of_append hb hb0
    rw [append_cons] at hp hmapped ⊢
    have hnext : node (ptrs v.data) root r (q ++ [i]) = (v.touch.data b).le32 (4 * i) := by
      rw [node_append, hb, walk_cons hb0, walk_nil, touch_toImage]
      rfl
    simp only [descend, if_neg hin]
    split
    · rename_i hne
      obtain ⟨v', hv', himg⟩ := ih (v := v.touch) (h.of_image (touch_toImage v))
        hp (by rw [← hnext, touch_toImage]) hne (by rwa [touch_toImage])
      exact ⟨v', by rw [hv', touch_toImage], himg.trans (touch_toImage v)⟩
    rename_i h0
    have hzero : node (ptrs v.data) root r (q ++ [i] ++ p) = 0 := by
      rw [node_append, hnext, not_not.1 h0, walk_zero]
    rw [if_pos (by simpa using fun ha => hmapped ha hzero)]
    exact ⟨v.touch, by rw [hzero], touch_toImage v⟩

/-- **`bmap` reads the map**, and when it may allocate does so only for a hole. -/
lemma bmap_mapped (alloc : Bool) (h : Owned g v root)
    (hroot : ∀ s < 15, root (ino, s) = ei.block s) (hm : mapPath g.addrs k = some (s, p))
    (hmapped : alloc = true → v.at_ root ino s p ≠ 0) :
    ∃ v', v.bmap g ei k alloc = (v', ei, .ok (v.at_ root ino s p)) ∧ v'.toImage = v.toImage := by
  have hs := (mapPath_spec (addrs_pos g) hm).1
  simp only [bmap, hm]
  split
  · rename_i hne
    exact descend_read (q := []) alloc h (path_of_mapPath ino hm).1 (hroot s hs) hne hmapped
  rename_i h0
  have hzero : v.at_ root ino s p = 0 := by rw [at_, node, hroot s hs, not_not.1 h0, walk_zero]
  rw [if_pos (by simpa using fun ha => hmapped ha hzero)]
  exact ⟨v, by rw [hzero], rfl⟩

lemma bmap_read (h : Owned g v root) (hroot : ∀ s < 15, root (ino, s) = ei.block s)
    (hm : mapPath g.addrs k = some (s, p)) :
    ∃ v', v.bmap g ei k false = (v', ei, .ok (v.at_ root ino s p)) ∧ v'.toImage = v.toImage :=
  bmap_mapped false h hroot hm nofun

/-- How an allocating walk ends: at block `c`, or for want of a block. -/
def Outcome (v v' : Vol) (res : Except Errno Nat) (c : Nat) : Prop :=
  (res = .ok c ∧ c ≠ 0 ∧ v'.dry = v.dry) ∨ (res = .error .enospc ∧ v'.dry = true)

lemma Outcome.of_dry {c : Nat} (h : Outcome v1 v' res c) (hd : v1.dry = v.dry) :
    Outcome v v' res c :=
  h.imp_left fun ⟨h1, h2, h3⟩ => ⟨h1, h2, h3.trans hd⟩

lemma descend_grew (h : Owned g v root) (hp : Path lvl g.addrs r (q ++ p))
    (hb : node (ptrs v.data) root r q = b) (hb0 : b ≠ 0)
    (hres : v.descend g true p b ei = (v', ei', res)) :
    Grew g v root v' root ∧ (ei' = { ei with blocks := ei'.blocks } ∧ ei.blocks ≤ ei'.blocks) ∧
      Outcome v v' res (node (ptrs v'.data) root r (q ++ p)) := by
  induction p generalizing q b v ei with
  | nil =>
    cases hres
    refine ⟨h.grew_of_image rfl, ⟨rfl, Nat.le_refl _⟩, .inl ⟨?_, ?_, rfl⟩⟩
    · rw [append_nil, hb]
    · rwa [append_nil, hb]
  | cons i p ih =>
    have hin := h.lt_count hp.of_append hb hb0
    rw [append_cons] at hp ⊢
    have htouch := h.grew_of_image (touch_toImage v)
    have hb1 : node (ptrs v.touch.data) root r q = b := by rw [touch_toImage, hb]
    have hnext : node (ptrs v.touch.data) root r (q ++ [i]) = (v.touch.data b).le32 (4 * i) := by
      rw [node_append, hb1, walk_cons hb0, walk_nil]
      rfl
    simp only [descend, if_neg hin] at hres
    split at hres
    · rename_i hne
      obtain ⟨hg, hei, hout⟩ := ih htouch.owned hp hnext hne hres
      exact ⟨htouch.trans hg, hei, hout.of_dry (by rw [touch_toImage])⟩
    rename_i h0
    rcases blockAlloc_took htouch.owned.zeroTaken
        (Prod.mk.eta).symm with ⟨hx, himg⟩ | ⟨hx, ht⟩
    · rw [if_pos hx] at hres
      cases hres
      have hg : Grew g v.touch root (v.touch.blockAlloc g b).1 root :=
        htouch.owned.grew_congr (by rw [himg]) (by rw [himg]) (by constructor <;> rw [himg])
      exact ⟨htouch.trans hg, ⟨rfl, Nat.le_refl _⟩, .inr ⟨rfl, by rw [himg]⟩⟩
    rw [if_neg hx] at hres
    generalize v.touch.blockAlloc g b = a at *
    have hbx : b ≠ a.2 := by
      rw [← hb1]
      exact htouch.owned.ne_of_took ht hp.of_append.of_append (hb1 ▸ hb0)
    have hstep := htouch.owned.grew_ptr ((a.1.bgetZero a.2).touch.setData b
        (((a.1.bgetZero a.2).touch.data b).putLe32 (4 * i) a.2)).dirty
      ht hp.of_append hb1 hb0 (not_not.1 h0)
      (by simp [bgetZero, setData]) (by constructor <;> simp [bgetZero, setData])
      (by simp [bgetZero, setData, ht.data, update_of_ne hbx])
    obtain ⟨hg1, hnode⟩ := hstep
    obtain ⟨hg, ⟨hei, hle⟩, hout⟩ := ih hg1.owned hp hnode hx hres
    refine ⟨htouch.trans (hg1.trans hg), ⟨hei, ?_⟩, hout.of_dry ?_⟩
    · have : ei.blocks + g.blockSize / 512 ≤ ei'.blocks := hle
      omega
    · simp [bgetZero, setData, ht.dry]

/-- An entry of the map that leads somewhere still does. -/
def Kept (ei ei' : Einode) : Prop :=
  ei' = { ei with block := ei'.block, blocks := ei'.blocks } ∧ ei.blocks ≤ ei'.blocks ∧
    ∀ s, ei.block s ≠ 0 → ei'.block s = ei.block s

/-- **What `bmap` does when it allocates.** -/
lemma bmap_grew (h : Owned g v (setRoots root ino ei.block))
    (hres : v.bmap g ei k true = (v', ei', res)) (hm : mapPath g.addrs k = some (s, p)) :
    Grew g v (setRoots root ino ei.block) v' (setRoots root ino ei'.block) ∧ Kept ei ei' ∧
      Outcome v v' res (v'.at_ (setRoots root ino ei'.block) ino s p) := by
  have hs := (mapPath_spec (addrs_pos g) hm).1
  have hp := (path_of_mapPath ino hm).1
  simp only [bmap, hm] at hres
  split at hres
  · rename_i hne
    obtain ⟨hg, ⟨hei, hle⟩, hout⟩ := descend_grew (q := []) h hp
      (show setRoots root ino ei.block (ino, s) = _ from setRoots_self hs) hne hres
    have hblock : ei'.block = ei.block := by rw [hei]
    rw [hblock]
    refine ⟨hg, ⟨?_, hle, fun s' _ => by rw [hblock]⟩, hout⟩
    rw [hei]
  rename_i h0
  generalize (if ei.block 0 ≠ 0 then (ei.block 0 + k) % 2 ^ 32 else v.allocGoal) = goal at hres
  rcases blockAlloc_took h.zeroTaken (Prod.mk.eta).symm with
    ⟨hx, himg⟩ | ⟨hx, ht⟩
  · rw [if_pos hx] at hres
    cases hres
    exact ⟨h.grew_congr (by rw [himg]) (by rw [himg]) (by constructor <;> rw [himg]),
      ⟨rfl, Nat.le_refl _, fun _ _ => rfl⟩, .inr ⟨rfl, by rw [himg]⟩⟩
  rw [if_neg hx] at hres
  generalize v.blockAlloc g goal = a at *
  have h0 : ei.block s = 0 := not_not.1 h0
  have hroots : setRoots root ino (ei.setBlock s a.2).block =
      update (setRoots root ino ei.block) (ino, s) a.2 := setRoots_update hs
  have hg1 := h.grew_root ht ((setRoots_self hs).trans h0)
  rw [← hroots] at hg1
  obtain ⟨hg, ⟨hei, hle⟩, hout⟩ := descend_grew (q := []) hg1.owned hp
    (show setRoots root ino _ (ino, s) = a.2 by rw [hroots, update_self]) hx hres
  have hblock : ei'.block = (ei.setBlock s a.2).block := by rw [hei]
  rw [hblock]
  refine ⟨hg1.trans hg, ⟨by rw [hei]; rfl, ?_, fun s' hs' => ?_⟩, hout.of_dry ?_⟩
  · have : ei.blocks + g.blockSize / 512 ≤ ei'.blocks := hle
    omega
  · have hne : s' ≠ s := fun heq => hs' (by rw [heq, h0])
    rw [hblock]
    exact update_of_ne hne _ _
  · simp [bgetZero, setData, ht.dry]

end Bmap

/-! ## A small volume -/

def oneGroup : Geometry where
  blockSize := 1024
  inodesCount := 16
  blocksCount := 64
  firstDataBlock := 1
  blocksPerGroup := 8192
  inodesPerGroup := 16
  groupCount := 1
  firstIno := 11
  inodeSize := 128
  blockBitmap _ := 3
  inodeBitmap _ := 4
  inodeTable _ := 5
  blockSize_eq := .inl rfl
  blocksPerGroup_pos := by decide
  inodesPerGroup_pos := by decide
  blocksCount_le := by decide
  lt_blocksCount := by decide
  blocksCount_lt := by decide
  lt_blockBitmap := by decide
  groupCount_pos := by decide

/-- Its metadata and block 40 are marked, and no inode is in use. -/
def small : Vol where
  bit b := decide (b < 7) || b == 40
  data _ := Bytes.zero
  inode _ := .clear
  ibit _ := false
  freeBlocks := 56
  freeInodes := 5
  gdFreeBlocks _ := 56
  gdFreeInodes _ := 5
  gdUsedDirs _ := 0
  lastOrphan := 0
  allocGoal := 0
  opened _ := 0
  journalOn := true
  reused := []
  dry := false
  txnOpen := false
  txnFreed := some fun _ => none
  pages _ := true
  asked := 0
  turns _ := false
  turn := 0
  stale _ := Bytes.zero
  drops := 0
  freed _ := false
  missed _ := false

lemma small_metaTaken : ∀ b, oneGroup.Meta b → small.bit b = true := by
  rintro b ⟨i, hi, hm⟩
  simp only [oneGroup, Geometry.tableBlocks, Geometry.base] at hi hm
  simp [small]
  omega

end Vol

end Sage040.Fs
