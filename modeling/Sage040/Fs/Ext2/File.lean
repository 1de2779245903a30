import Sage040.Fs.Ext2.Prune

/-!
# A file is an array of bytes

`ByteFile` is what a file is for: a size, and bytes of which those past the size are zero. `Holds`
says that an inode, with the blocks that hang from its map, is such an array, and
`FileOp.run_refines` that `inode_write`, `inode_set_size` and `inode_read` then answer as the array
does, one after the other and as long as blocks can be had, while no other file changes.

Two things in the sources are narrower than the sizes they accept. The first block that
`inode_set_size` gives back is `(len + block_size - 1) / block_size` in 32 bits, which is block `0`
when `len` is in the last block below `2 ^ 32`: `set_size_wraps` is a file cut by a few bytes that
loses all of them. And the counts are returned as `s32`. `FileOp.Clean` leaves both out.
-/

namespace Sage040.Fs

open Function Forest List

/-! ## The array -/

/-- The bytes `l` put over `f` from `pos` on. -/
def splice (f : Nat → UInt8) (pos : Nat) (l : List UInt8) : Nat → UInt8 := fun i =>
  if pos ≤ i ∧ i < pos + l.length then l.getD (i - pos) 0 else f i

lemma splice_nil (f : Nat → UInt8) (pos i : Nat) : splice f pos [] i = f i := if_neg (by simp)

lemma splice_append (f : Nat → UInt8) (pos : Nat) (l m : List UInt8) :
    splice (splice f pos l) (pos + l.length) m = splice f pos (l ++ m) := by
  funext i
  simp only [splice, length_append]
  by_cases hm : pos + l.length ≤ i ∧ i < pos + l.length + m.length
  · rw [if_pos hm, if_pos (by omega), getD_append_right _ _ _ _ (by omega), Nat.sub_sub]
  rw [if_neg hm]
  by_cases hl : pos ≤ i ∧ i < pos + l.length
  · rw [if_pos hl, if_pos (by omega), getD_append _ _ _ _ (by omega)]
  · rw [if_neg hl, if_neg (by omega)]

/-- A file as its readers see it. -/
@[ext]
structure ByteFile where
  size : Nat
  byte : Nat → UInt8
  past : ∀ i, size ≤ i → byte i = 0

namespace ByteFile

variable (f : ByteFile)

def write (pos : Nat) (l : List UInt8) : ByteFile where
  size := if l = [] then f.size else max f.size (pos + l.length)
  byte := splice f.byte pos l
  past i hi := by
    by_cases hl : l = []
    · rw [if_pos hl] at hi
      rw [splice, hl, if_neg (by simp), f.past i hi]
    · rw [if_neg hl] at hi
      rw [splice, if_neg (by omega), f.past i (by omega)]

/-- What is cut off does not come back when the file grows again. -/
def setSize (len : Nat) : ByteFile where
  size := len
  byte i := if i < len then f.byte i else 0
  past _ hi := if_neg (Nat.not_lt.2 hi)

def read (pos len : Nat) : List UInt8 :=
  (List.range (min len (f.size - pos))).map fun i => f.byte (pos + i)

end ByteFile

/-! ## Offsets in a block -/

variable {n pos i : Nat}

lemma add_div_mod (h : pos % n + i < n) : (pos + i) / n = pos / n ∧
    (pos + i) % n = pos % n + i := by
  have hpos : pos + i = n * (pos / n) + (pos % n + i) := by
    have := Nat.div_add_mod pos n
    omega
  constructor
  · rw [hpos, Nat.mul_add_div (by omega), Nat.div_eq_of_lt h, Nat.add_zero]
  · rw [hpos, Nat.mul_add_mod, Nat.mod_eq_of_lt h]

lemma stretch_iff {len : Nat} (h : pos % n + len ≤ n) :
    (i / n = pos / n ∧ pos % n ≤ i % n ∧ i % n < pos % n + len) ↔ pos ≤ i ∧ i < pos + len := by
  constructor
  · rintro ⟨hd, hlo, hhi⟩
    have hi := Nat.div_add_mod i n
    have hp := Nat.div_add_mod pos n
    rw [hd] at hi
    omega
  rintro ⟨hlo, hhi⟩
  obtain ⟨d, rfl⟩ := Nat.exists_eq_add_of_le hlo
  obtain ⟨hd, hm⟩ := add_div_mod (show pos % n + d < n by omega)
  rw [hd, hm]
  omega

/-! ## One block of a file -/

/-- Every offset below `2 ^ 32` has a place in the map. -/
lemma mapPath_isSome (g : Geometry) (h : pos < 2 ^ 32) : ∃ s p,
    mapPath g.addrs (pos / g.blockSize) = some (s, p) := by
  have hpath : ∀ n k, k < 12 + n + n * n + n * (n * n) → ∃ s p, mapPath n k = some (s, p) := by
    intro n k hk
    simp only [mapPath]
    iterate 3
      split
      · exact ⟨_, _, rfl⟩
    refine ⟨_, _, if_pos ?_⟩
    rw [Nat.div_div_eq_div_mul]
    exact Nat.div_lt_of_lt_mul (by rw [Nat.mul_assoc]; omega)
  refine hpath _ _ ?_
  rw [Geometry.addrs]
  rcases g.blockSize_eq with hb | hb | hb <;> rw [hb] <;> omega

namespace Vol

variable {g : Geometry} {v v' : Vol} {root root' : Roots} {ino s b k : Nat}
  {p : List Nat} {c : Bytes}
  {ei ei' : Einode}

/-- **A block of a file is written**, and nothing else changes. -/
lemma Owned.leafWrite (v') (h : Owned g v root) (hm : mapPath g.addrs k = some (s, p))
    (hb : v.at_ root ino s p = b) (hb0 : b ≠ 0) (hbit : v'.bit = v.bit)
    (hdata : v'.data = update v.data b c) : Owned g v' root ∧ v'.contents g root ino k = c ∧
      (∀ ino' k', (ino', k') ≠ (ino, k) → v'.contents g root ino' k' = v.contents g root ino' k') ∧
      ∀ ino' k', v'.leaf g root ino' k' = v.leaf g root ino' k' := by
  obtain ⟨hp, hlen⟩ := path_of_mapPath ino hm
  -- what is written is no table
  have hnode : ∀ r q, Path lvl g.addrs r q →
      node (ptrs v'.data) root r q = node (ptrs v.data) root r q := by
    intro r q hq
    refine node_congr (fun q' hq' hlt hne i _ => ?_) hq
    rw [hdata, ptrs_update]
    refine if_neg fun heq => ?_
    obtain ⟨rfl, rfl⟩ := h.owns.apart r q' (ino, s) p hq' hp hne (heq.trans hb.symm)
    omega
  refine ⟨⟨h.owns.congr hnode fun r q hq hne => ?_,
    fun b hm => by rw [hbit]; exact h.metaTaken b hm⟩,
    ?_, fun ino' k' hne => contents_of_leaf fun s' p' hm' => .inl ⟨hnode _ _ ?_, fun hne0 => ?_⟩,
    fun ino' k' => ?_⟩
  · have := h.owns.held r q hq hne
    rwa [Good, hbit]
  · have hleaf : v'.leaf g root ino k = b := by
      rw [leaf, hm]
      exact (hnode _ _ hp).trans hb
    rw [contents, hleaf, if_neg hb0, hdata, update_self]
  · exact (path_of_mapPath ino' hm').1
  · rw [hdata, update_of_ne]
    intro heq
    obtain ⟨hr, rfl⟩ := h.owns.apart (ino', s') p' (ino, s) p (path_of_mapPath ino' hm').1 hp
      hne0 (heq.trans hb.symm)
    obtain ⟨rfl, rfl⟩ := Prod.mk.inj hr
    exact hne (by rw [mapPath_inj hm' hm])
  · cases hm' : mapPath g.addrs k' with
    | none => simp only [leaf, hm']
    | some sp =>
      simp only [leaf, hm']
      exact hnode _ _ (path_of_mapPath ino' hm').1

lemma Cut.contents {start : Nat} (h : Cut g v root v' root' ino
    fun s i => decide (firstOf g.addrs s + i < start)) (ino' k) : v'.contents g root' ino' k =
      if ino' = ino ∧ start ≤ k then Bytes.zero else v.contents g root ino' k := by
  cases hm : mapPath g.addrs k with
  | none => simp [Vol.contents, Vol.leaf, hm]
  | some sp =>
    obtain ⟨s, p⟩ := sp
    obtain ⟨hp, hlen⟩ := path_of_mapPath ino' hm
    obtain ⟨hleaf, hdata⟩ := h.leaf (ino', s) p hp hlen
    simp only [decide_eq_false_iff_not, Nat.not_lt, ← mapPath_index hm] at hleaf
    simp only [Vol.contents, Vol.leaf, hm, at_]
    split at hleaf
    · rename_i hc
      rw [hleaf, if_pos rfl, if_pos hc]
    rename_i hc
    split
    · rename_i h0
      rw [if_pos (hleaf.symm.trans h0)]
    · rename_i h0
      rw [if_neg (hleaf ▸ h0), ← hdata h0, hleaf]

/-! ## What writing leaves alone -/

variable (g) in
/-- No file but `ino` reads differently. -/
def Others (v : Vol) (root : Roots) (v' : Vol) (root' : Roots) (ino : Nat) : Prop :=
  ∀ ino' ≠ ino, ∀ k, v'.contents g root' ino' k = v.contents g root ino' k

variable {w : Vol}

lemma Others.trans {root''} (h : Others g v root v' root' ino)
    (h' : Others g v' root' w root'' ino) : Others g v root w root'' ino :=
  fun ino' hne k => (h' ino' hne k).trans (h ino' hne k)

variable (g) in
/-- Blocks and bytes were added to a file. -/
structure Extended (v : Vol) (root : Roots) (ino : Nat) (ei : Einode) (v' : Vol) (ei' : Einode) :
    Prop where
  owned : Owned g v' (setRoots root ino ei'.block)
  others : Others g v (setRoots root ino ei.block) v' (setRoots root ino ei'.block) ino
  kind : ei'.kind = ei.kind
  links : ei'.links = ei.links
  dtime : ei'.dtime = ei.dtime
  blocks : ei.blocks ≤ ei'.blocks
  kept : ∀ s, ei.block s ≠ 0 → ei'.block s = ei.block s
  leaf : ∀ ino' k, v.leaf g (setRoots root ino ei.block) ino' k ≠ 0 →
    v'.leaf g (setRoots root ino ei'.block) ino' k = v.leaf g (setRoots root ino ei.block) ino' k
  beside : Beside v v'
  dry : v'.dry = false → v.dry = false

lemma Extended.trans {ei''} (h : Extended g v root ino ei v' ei')
    (h' : Extended g v' root ino ei' w ei'') : Extended g v root ino ei w ei'' where
  owned := h'.owned
  others := h.others.trans h'.others
  kind := h'.kind.trans h.kind
  links := h'.links.trans h.links
  dtime := h'.dtime.trans h.dtime
  blocks := h.blocks.trans h'.blocks
  kept s hs := by rw [h'.kept s (by rwa [h.kept s hs]), h.kept s hs]
  leaf ino' k hk := by rw [h'.leaf ino' k (by rwa [h.leaf ino' k hk]), h.leaf ino' k hk]
  beside := h.beside.trans h'.beside
  dry hd := h.dry (h'.dry hd)

lemma Owned.extended_refl (h : Owned g v (setRoots root ino ei.block)) :
    Extended g v root ino ei v ei :=
  ⟨h, fun _ _ _ => rfl, rfl, rfl, rfl, Nat.le_refl _, fun _ _ => rfl, fun _ _ _ => rfl,
    .of_image rfl, id⟩

/-- `bmap` extends a file, and says where its block is. -/
lemma bmap_extended {res : Except Errno Nat} (h : Owned g v (setRoots root ino ei.block))
    (hres : v.bmap g ei k true = (v', ei', res)) : Extended g v root ino ei v' ei' ∧
    ei'.size = ei.size ∧
      (∀ k', v'.contents g (setRoots root ino ei'.block) ino k' =
      v.contents g (setRoots root ino ei.block) ino k') ∧
      ((∃ b s p, res = .ok b ∧ mapPath g.addrs k = some (s, p) ∧
          v'.at_ (setRoots root ino ei'.block) ino s p = b ∧ b ≠ 0 ∧ b < g.blocksCount) ∨
        (res = .error .enospc ∧ v'.dry = true) ∨ (res = .error .efbig ∧
        mapPath g.addrs k = none)) := by
  cases hm : mapPath g.addrs k with
  | none =>
    simp only [bmap, hm] at hres
    cases hres
    exact ⟨h.extended_refl, rfl, fun _ => rfl, .inr (.inr ⟨rfl, rfl⟩)⟩
  | some sp =>
    obtain ⟨s, p⟩ := sp
    obtain ⟨hg, ⟨halike, hblocks, hkept⟩, hout⟩ := bmap_grew h hres hm
    refine ⟨⟨hg.owned, fun ino' _ k' => hg.contents ino' k', by rw [halike], by rw [halike],
      by rw [halike], hblocks, hkept, hg.leaf, hg.beside, fun hd => ?_⟩, by rw [halike],
      hg.contents ino, ?_⟩
    · rcases hout with ⟨-, -, h1⟩ | ⟨-, h1⟩
      · exact h1 ▸ hd
      rw [h1] at hd
      cases hd
    rcases hout with ⟨h1, h2, -⟩ | h1
    · have hin := (hg.owned.owns.held (ino, s) p (path_of_mapPath ino hm).1 h2).2.1.2
      exact .inl ⟨_, s, p, h1, rfl, rfl, h2, hin⟩
    · exact .inr (.inl h1)

/-! ## A file that holds an array -/

variable (g) in
def byteAt (v : Vol) (root : Roots) (ino i : Nat) : UInt8 :=
  v.contents g root ino (i / g.blockSize) (i % g.blockSize)

variable (g) in
/-- **What an inode and its blocks stand for.** -/
structure Holds (v : Vol) (root : Roots) (ino : Nat) (ei : Einode) (f : ByteFile) : Prop where
  owned : Owned g v (setRoots root ino ei.block)
  size : ei.size = f.size
  bytes : ∀ i, v.byteAt g (setRoots root ino ei.block) ino i = f.byte i

variable {f : ByteFile} {pos len fuel : Nat} {got rest : List UInt8}

lemma Holds.of_image (h : Holds g v root ino ei f) (hi : v'.toImage = v.toImage) :
    Holds g v' root ino ei f := by
  refine ⟨h.owned.of_image hi, h.size, fun i => ?_⟩
  rw [byteAt, contents_of_image hi]
  exact h.bytes i

lemma stretch_spec (pos) (hlen : len ≠ 0) : 0 < stretch g pos len ∧ stretch g pos len ≤ len ∧
      pos % g.blockSize + stretch g pos len ≤ g.blockSize := by
  have hpos : 0 < g.blockSize := by
    have := addrs_pos g
    rw [Geometry.addrs] at this
    omega
  have := Nat.mod_lt pos hpos
  rw [stretch]
  omega

lemma readLoop_read (got) (h : Owned g v (setRoots root ino ei.block)) (hfuel : len ≤ fuel)
    (hpos : pos + len ≤ 2 ^ 32) : ∃ v', v.readLoop g ei fuel pos len got =
    (v', got ++ (List.range len).map
        (fun i => v.byteAt g (setRoots root ino ei.block) ino (pos + i)), none) ∧
        v'.toImage = v.toImage := by
  induction fuel generalizing pos len got v with
  | zero =>
    rw [Nat.le_zero.1 hfuel]
    exact ⟨v, by simp [readLoop], rfl⟩
  | succ fuel ih =>
    by_cases hlen : len = 0
    · rw [hlen]
      exact ⟨v, by simp [readLoop], rfl⟩
    obtain ⟨hn0, hnle, hoff⟩ := stretch_spec pos hlen
    obtain ⟨s, p, hm⟩ := mapPath_isSome g (show pos < 2 ^ 32 by omega)
    obtain ⟨v1, hv1, himg⟩ := bmap_read h (fun s hs => setRoots_self hs) hm
    have himg1 := (touch_toImage v1).trans himg
    simp only [readLoop, if_neg hlen, hv1]
    generalize stretch g pos len = n at *
    have hin : ¬ (v.at_ (setRoots root ino ei.block) ino s p ≠ 0 ∧
        g.blocksCount ≤ v.at_ (setRoots root ino ei.block) ino s p) := by
      rintro ⟨hne, hge⟩
      exact h.lt_count (path_of_mapPath ino hm).1 rfl hne hge
    have hpart : (range n).map (fun i => (if v.at_ (setRoots root ino ei.block) ino s p = 0
        then Bytes.zero else v1.data (v.at_ (setRoots root ino ei.block) ino s p))
          (pos % g.blockSize + i)) =
        (range n).map fun i => v.byteAt g (setRoots root ino ei.block) ino (pos + i) := by
      refine map_congr_left fun i hi => ?_
      have hlt := mem_range.1 hi
      obtain ⟨hd, hmod⟩ := add_div_mod (show pos % g.blockSize + i < g.blockSize by omega)
      rw [byteAt, hd, hmod, contents, leaf, hm, himg]
    have hbyte : v1.touch.byteAt g (setRoots root ino ei.block) ino =
        v.byteAt g (setRoots root ino ei.block) ino := by
      funext i
      rw [byteAt, byteAt, contents_of_image himg1]
    obtain ⟨v', hv', himg'⟩ := ih (got ++ (range n).map fun i =>
        v.byteAt g (setRoots root ino ei.block) ino (pos + i)) (h.of_image himg1)
      (show len - n ≤ fuel by omega) (show pos + n + (len - n) ≤ 2 ^ 32 by omega)
    refine ⟨v', ?_, himg'.trans himg1⟩
    have hsplit : range len = range n ++ (range (len - n)).map (n + ·) := by
      rw [← range_add, Nat.add_sub_cancel' hnle]
    rw [if_neg hin, hpart, hv', append_assoc, hbyte, hsplit, map_append, map_map]
    simp only [Function.comp_def, Nat.add_assoc]

/-- The contents of block `b` with the first `n` bytes of `rest` at `off`. -/
def patched (c : Bytes) (off n : Nat) (rest : List UInt8) : Bytes := fun i =>
  if off ≤ i ∧ i < off + n then rest.getD (i - off) 0 else c i

/-- The bytes of blocks `c` when a stretch of one of them is patched. -/
lemma patched_stretch {size pos n : Nat} {rest} (c : Nat → Bytes)
    (h : pos % size + n ≤ size) (hn : n ≤ rest.length) (i) :
    (if i / size = pos / size then patched (c (pos / size)) (pos % size) n rest else c (i / size))
      (i % size) = splice (fun i => c (i / size) (i % size)) pos (rest.take n) i := by
  rw [splice, length_take, Nat.min_eq_left hn]
  by_cases hin : pos ≤ i ∧ i < pos + n
  · obtain ⟨hd, hlo⟩ := (stretch_iff h).2 hin
    have hoff : i % size - pos % size = i - pos := by
      have hi := Nat.div_add_mod i size
      have hp := Nat.div_add_mod pos size
      rw [hd] at hi
      omega
    rw [if_pos hd, patched, if_pos hlo, if_pos hin, hoff]
    simp only [getD_eq_getElem?_getD]
    rw [getElem?_take_of_lt (by omega)]
  · rw [if_neg hin]
    split
    · rename_i hd
      rw [patched, if_neg fun hlo => hin ((stretch_iff h).1 ⟨hd, hlo⟩), hd]
    · rfl

lemma Extended.setLeaf (size : Nat) (h : Extended g v root ino ei v' ei')
    (hm : mapPath g.addrs k = some (s, p)) (hb : v'.at_ (setRoots root ino ei'.block) ino s p = b)
    (hb0 : b ≠ 0) (hw : w.toImage = { v'.toImage with data := update v'.data b c }) :
    Extended g v root ino ei w { ei' with size := size } ∧
      (∀ k', w.contents g (setRoots root ino ei'.block) ino k' =
        if k' = k then c else v'.contents g (setRoots root ino ei'.block) ino k') ∧
      ∀ ino' k', w.leaf g (setRoots root ino ei'.block) ino' k' =
        v'.leaf g (setRoots root ino ei'.block) ino' k' := by
  obtain ⟨howned, hself, hother, hleaf⟩ :=
    h.owned.leafWrite w hm hb hb0 (by rw [hw]) (by rw [hw])
  refine ⟨⟨howned, fun ino' hne k' => ?_, h.kind, h.links, h.dtime, h.blocks, h.kept,
    fun ino' k' hk' => (hleaf ino' k').trans (h.leaf ino' k' hk'),
    h.beside.trans (by constructor <;> rw [hw]), fun hd => h.dry (by rwa [hw] at hd)⟩,
      fun k' => ?_, hleaf⟩
  · rw [hother ino' k' (by simp [hne]), h.others ino' hne k']
  split
  · rename_i hk
    rw [hk, hself]
  · rename_i hk
    exact hother ino k' (by simp [hk])

lemma Extended.patch (off n size : Nat) (rest)
    (h : Extended g v root ino ei v' ei') (hm : mapPath g.addrs k = some (s, p))
    (hb : v'.at_ (setRoots root ino ei'.block) ino s p = b) (hb0 : b ≠ 0)
    (hw : w.toImage = v'.toImage) :
    Extended g v root ino ei (w.setData b (patched (w.data b) off n rest))
    { ei' with size := size } ∧
      ∀ k', (w.setData b (patched (w.data b) off n rest)).contents g
        (setRoots root ino ei'.block) ino k' =
        if k' = k then patched (v'.contents g (setRoots root ino ei'.block) ino k) off n rest
        else v'.contents g (setRoots root ino ei'.block) ino k' := by
  have hold : v'.contents g (setRoots root ino ei'.block) ino k = v'.data b := by
    simp only [contents, Vol.leaf, hm, hb, if_neg hb0]
  obtain ⟨hext, hcont, -⟩ := h.setLeaf (w := w.setData b (patched (w.data b) off n rest))
    size hm hb hb0
    (by rw [setData_toImage, hw])
  exact ⟨hext, fun k' => by rw [hcont, hold]⟩

/-- **What was added may be dropped**: if the inode in memory is not written back the file is as it
was, and the blocks that hang from its new entries are nobody's. -/
lemma Extended.dropped (h : Extended g v root ino ei v' ei') :
    Owned g v' (setRoots root ino ei.block) ∧ ∀ ino' k,
        v'.leaf g (setRoots root ino ei.block) ino' k =
        v'.leaf g (setRoots root ino ei'.block) ino' k ∨
          v'.leaf g (setRoots root ino ei.block) ino' k = 0 ∧
          v.leaf g (setRoots root ino ei.block) ino' k = 0 := by
  have hroot : ∀ r, setRoots root ino ei.block r = 0 ∨
      setRoots root ino ei.block r = setRoots root ino ei'.block r := by
    intro r
    simp only [setRoots]
    split
    · split
      · by_cases h0 : ei.block r.2 = 0
        · exact .inl h0
        · exact .inr (h.kept r.2 h0).symm
      · exact .inl rfl
    · exact .inr rfl
  have hnode : ∀ r p, node (ptrs v'.data) (setRoots root ino ei.block) r p ≠ 0 →
      node (ptrs v'.data) (setRoots root ino ei.block) r p =
        node (ptrs v'.data) (setRoots root ino ei'.block) r p := by
    intro r p hne
    rcases hroot r with h0 | heq
    · exact absurd (by rw [node, h0, walk_zero]) hne
    · rw [node, node, heq]
  refine ⟨⟨h.owned.owns.sub (fun r p _ hne => hnode r p hne) fun r p hp hne => ?_,
    h.owned.metaTaken⟩, fun ino' k => ?_⟩
  · have heq := hnode r p hne
    rw [heq]
    exact h.owned.owns.held r p hp (heq ▸ hne)
  cases hm : mapPath g.addrs k with
  | none => simp [Vol.leaf, hm]
  | some sp =>
    simp only [Vol.leaf, hm, at_, node]
    rcases hroot (ino', sp.1) with h0 | heq
    · simp [h0, walk_zero]
    · exact .inl (by rw [heq])

lemma writeLoop_extended (fuel pos rest) (h : Owned g v (setRoots root ino ei.block)) :
    Extended g v root ino ei (v.writeLoop g fuel pos rest ei).1
    (v.writeLoop g fuel pos rest ei).2.1 := by
  induction fuel generalizing v ei pos rest with
  | zero => exact h.extended_refl
  | succ fuel ih =>
    rw [writeLoop]
    split
    · exact h.extended_refl
    simp only
    split
    · rename_i hres
      exact (bmap_extended h hres).1
    rename_i v1 ei1 b hres
    obtain ⟨hext, -, -, hout⟩ := bmap_extended h hres
    split
    · exact hext
    rcases hout with ⟨b', s, p, hb', hm, hat, hne, -⟩ | ⟨he, -⟩ | ⟨he, -⟩
    · cases hb'
      have hpatch := (hext.patch (pos % g.blockSize) (stretch g pos rest.length)
        (max ei1.size ((pos + stretch g pos rest.length) % 2 ^ 32)) rest hm hat hne
        (touch_toImage v1)).1
      exact hpatch.trans (ih _ _ hpatch.owned)
    · cases he
    · cases he

/-- The loop writes the first of the bytes, and all of them unless the volume is full. -/
lemma writeLoop_wrote (fuel) (h : Owned g v (setRoots root ino ei.block))
    (hpos : pos + rest.length < 2 ^ 32) :
    ∃ done left, rest = done ++ left ∧ (v.writeLoop g fuel pos rest ei).2.2 = left ∧
      (v.writeLoop g fuel pos rest ei).2.1.size =
      (if done = [] then ei.size else max ei.size (pos + done.length)) ∧
      (∀ i, (v.writeLoop g fuel pos rest ei).1.byteAt g
          (setRoots root ino (v.writeLoop g fuel pos rest ei).2.1.block) ino i =
        splice (v.byteAt g (setRoots root ino ei.block) ino) pos done i) ∧
      (rest.length ≤ fuel → (v.writeLoop g fuel pos rest ei).1.dry = false → left = []) := by
  induction fuel generalizing v ei pos rest with
  | zero =>
    exact ⟨[], rest, rfl, rfl, rfl, fun i => (splice_nil _ pos i).symm,
      fun hfuel _ => length_eq_zero_iff.1 (Nat.le_zero.1 hfuel)⟩
  | succ fuel ih =>
    rw [writeLoop]
    split
    · rename_i hrest
      exact ⟨[], rest, rfl, rfl, rfl, fun i => (splice_nil _ pos i).symm, fun _ _ => hrest⟩
    rename_i hrest
    have hlen : rest.length ≠ 0 := fun h0 => hrest (length_eq_zero_iff.1 h0)
    obtain ⟨hn0, hnle, hoff⟩ := stretch_spec pos hlen
    obtain ⟨s, p, hm⟩ := mapPath_isSome g (show pos < 2 ^ 32 by omega)
    simp only
    generalize hn : stretch g pos rest.length = n at *
    rcases hres : v.bmap g ei (pos / g.blockSize) true with ⟨v1, ei1, res⟩
    obtain ⟨hext, hsize, hcont, hout⟩ := bmap_extended h hres
    rcases hout with ⟨b, s, p, rfl, hm, hat, hne, hlt⟩ | ⟨rfl, hd⟩ | ⟨rfl, hnone⟩
    · dsimp only
      rw [if_neg (Nat.not_le.2 hlt), Nat.mod_eq_of_lt (show pos + n < 2 ^ 32 by omega)]
      obtain ⟨hpatch, hbytes⟩ := hext.patch (pos % g.blockSize) n (max ei1.size (pos + n))
        rest hm hat hne
        (touch_toImage v1)
      obtain ⟨done, left, hrest', hleft, hsize', hbytes', hall⟩ := ih hpatch.owned
        (show pos + n + (rest.drop n).length < 2 ^ 32 by rw [length_drop]; omega)
      have htake : (rest.take n).length = n := length_take_of_le hnle
      refine ⟨rest.take n ++ done, left, ?_, hleft, hsize'.trans ?_, fun i => (hbytes' i).trans ?_,
        fun hfuel => hall (by rw [length_drop]; omega)⟩
      · rw [append_assoc, ← hrest', take_append_drop]
      · have hsome : rest.take n ++ done ≠ [] := fun hnil => by
          have hzero := congrArg length hnil
          rw [length_append, htake, length_nil] at hzero
          omega
        rw [if_neg hsome, length_append, htake, hsize]
        dsimp only
        split
        · rename_i hnil
          rw [hnil, length_nil, Nat.add_zero]
        · omega
      · rw [← splice_append, htake]
        refine congrFun (congrArg (splice · (pos + n) done) (funext fun i => ?_)) i
        simp only [byteAt, hbytes, hcont]
        exact patched_stretch _ hoff hnle i
    · refine ⟨[], rest, rfl, rfl, hsize, fun i => ?_,
        fun _ hdry => absurd (hd.symm.trans hdry) (by decide)⟩
      rw [splice_nil, byteAt, hcont, byteAt]
    · rw [hm] at hnone
      cases hnone

lemma writeLoop_holds (h : Holds g v root ino ei f) (hfuel : rest.length ≤ fuel)
    (hpos : pos + rest.length < 2 ^ 32) (hdry : (v.writeLoop g fuel pos rest ei).1.dry = false) :
    (v.writeLoop g fuel pos rest ei).2.2 = [] ∧
      Holds g (v.writeLoop g fuel pos rest ei).1 root ino (v.writeLoop g fuel pos rest ei).2.1
      (f.write pos rest) := by
  obtain ⟨done, left, hrest, hleft, hsize, hbytes, hall⟩ := writeLoop_wrote fuel h.owned hpos
  obtain rfl := hall hfuel hdry
  rw [append_nil] at hrest
  subst hrest
  refine ⟨hleft, (writeLoop_extended fuel pos rest h.owned).owned, ?_, fun i => ?_⟩
  · rw [hsize, h.size]
    rfl
  · rw [hbytes, funext h.bytes]
    rfl

/-! ## Cutting a file -/

lemma clearTail_spec (h : Owned g v (setRoots root ino ei.block)) (hlen : len < 2 ^ 32) :
    Owned g (v.clearTail g ei len) (setRoots root ino ei.block) ∧
      Others g v (setRoots root ino ei.block) (v.clearTail g ei len)
      (setRoots root ino ei.block) ino ∧
      Beside v (v.clearTail g ei len) ∧ (v.clearTail g ei len).dry = v.dry ∧
      ∀ k, (v.clearTail g ei len).contents g (setRoots root ino ei.block) ino k =
        if k = len / g.blockSize ∧ len % g.blockSize ≠ 0 then
          zeroTail (v.contents g (setRoots root ino ei.block) ino k) (len % g.blockSize)
        else v.contents g (setRoots root ino ei.block) ino k := by
  rw [clearTail]
  split
  · rename_i h0
    exact ⟨h, fun _ _ _ => rfl, .of_image rfl, rfl, fun k => (if_neg fun hc => hc.2 h0).symm⟩
  rename_i hoff
  obtain ⟨s, p, hm⟩ := mapPath_isSome g hlen
  obtain ⟨v1, hv1, himg⟩ := bmap_read h (fun s hs => setRoots_self hs) hm
  rw [hv1]
  generalize hb : v.at_ (setRoots root ino ei.block) ino s p = b
  have hold : v.contents g (setRoots root ino ei.block) ino (len / g.blockSize) =
      if b = 0 then Bytes.zero else v.data b := by
    simp only [contents, leaf, hm, hb]
  by_cases hb0 : b = 0
  · simp only [if_pos (Or.inl hb0)]
    refine ⟨h.of_image himg, fun _ _ _ => contents_of_image himg, .of_image himg,
      by rw [himg], fun k => ?_⟩
    rw [contents_of_image himg]
    split
    · rename_i hk
      rw [hk.1, hold, if_pos hb0]
      exact (funext fun i => ite_self 0).symm
    · rfl
  simp only [if_neg (not_or.2 ⟨hb0, h.lt_count (path_of_mapPath ino hm).1 hb hb0⟩)]
  obtain ⟨howned, hself, hother, -⟩ := h.leafWrite
    (v1.touch.setData b (zeroTail (v1.touch.data b) (len % g.blockSize)))
    (c := zeroTail (v.data b) (len % g.blockSize)) hm hb hb0 (by simp [setData, himg])
    (by simp [setData, himg])
  refine ⟨howned, fun ino' hne k => hother ino' k (by simp [hne]), ?_,
    by simp [setData, himg], fun k => ?_⟩
  · constructor <;> simp [setData, himg]
  split
  · rename_i hk
    rw [hk.1, hself, hold, if_neg hb0]
  · rename_i hk
    exact hother ino k (by simpa using fun heq => hk ⟨heq, hoff⟩)

/-- What is given back when a file is cut. -/
structure Shrunk (g : Geometry) (v : Vol) (root : Roots) (ino : Nat) (ei : Einode) (v' : Vol)
    (ei' : Einode) : Prop where
  owned : Owned g v' (setRoots root ino ei'.block)
  others : Others g v (setRoots root ino ei.block) v' (setRoots root ino ei'.block) ino
  kind : ei'.kind = ei.kind
  links : ei'.links = ei.links
  dtime : ei'.dtime = ei.dtime
  beside : Beside v v'
  dry : v'.dry = v.dry

lemma inodeSetSize_shrunk (h : Owned g v (setRoots root ino ei.block)) (hlen : len < 2 ^ 32) :
    Shrunk g v root ino ei (v.inodeSetSize g ei len).1 (v.inodeSetSize g ei len).2 := by
  rw [inodeSetSize]
  split
  · obtain ⟨howned, hothers, hbeside, hdry, -⟩ := clearTail_spec h hlen
    have hcut := truncateBlocks_cut howned ((len + g.blockSize - 1) % 2 ^ 32 / g.blockSize)
    have halike := truncateBlocks_alike (g := g) (v.clearTail g ei len) ei
      ((len + g.blockSize - 1) % 2 ^ 32 / g.blockSize)
    refine ⟨hcut.owned, hothers.trans fun ino' hne k => ?_, ?_, ?_, ?_, hbeside.trans hcut.beside,
      hcut.dry.trans hdry⟩
    · rw [hcut.contents, if_neg fun hc => hne hc.1]
    · show (truncateBlocks g _ ei _).2.kind = _
      rw [halike]
    · show (truncateBlocks g _ ei _).2.links = _
      rw [halike]
    · show (truncateBlocks g _ ei _).2.dtime = _
      rw [halike]
  · exact ⟨h, fun _ _ _ => rfl, rfl, rfl, rfl, .of_image rfl, rfl⟩

/-- Which bytes are left when the blocks from `first` on and the tail before them are gone. -/
lemma kept_iff (g : Geometry) {len i} : (¬ (len + g.blockSize - 1) / g.blockSize ≤ i / g.blockSize ∧
      ¬ ((i / g.blockSize = len / g.blockSize ∧ len % g.blockSize ≠ 0) ∧
        len % g.blockSize ≤ i % g.blockSize)) ↔ i < len := by
  rcases g.blockSize_eq with hb | hb | hb <;> rw [hb] <;> omega

lemma inodeSetSize_bytes (h : Owned g v (setRoots root ino ei.block)) (hlt : len < ei.size)
    (hlast : len + g.blockSize ≤ 2 ^ 32) (i : Nat) : (v.inodeSetSize g ei len).1.byteAt g
      (setRoots root ino (v.inodeSetSize g ei len).2.block) ino i =
        if i < len then v.byteAt g (setRoots root ino ei.block) ino i else 0 := by
  have hsize : 0 < g.blockSize := by
    rcases g.blockSize_eq with hb | hb | hb <;> omega
  obtain ⟨howned, -, -, -, hclear⟩ := clearTail_spec h (show len < 2 ^ 32 by omega)
  have hcut := truncateBlocks_cut howned ((len + g.blockSize - 1) % 2 ^ 32 / g.blockSize)
  rw [inodeSetSize, if_pos hlt]
  rw [Nat.mod_eq_of_lt (by omega)] at hcut ⊢
  rw [byteAt, byteAt, hcut.contents, hclear]
  by_cases hi : i < len
  · obtain ⟨hfirst, htail⟩ := (kept_iff g).2 hi
    rw [if_neg fun hc => hfirst hc.2, if_pos hi]
    split
    · rename_i hlastblock
      exact if_neg fun hge => htail ⟨hlastblock, hge⟩
    · rfl
  rw [if_neg hi]
  by_cases hfirst : (len + g.blockSize - 1) / g.blockSize ≤ i / g.blockSize
  · rw [if_pos ⟨rfl, hfirst⟩]
    rfl
  have htail := not_not.1 fun htail => hi ((kept_iff g).1 ⟨hfirst, htail⟩)
  rw [if_neg fun hc => hfirst hc.2, if_pos htail.1]
  exact if_pos htail.2

lemma inodeSetSize_holds (h : Holds g v root ino ei f) (hlen : len < 2 ^ 32)
    (hlast : len < ei.size → len + g.blockSize ≤ 2 ^ 32) :
    Holds g (v.inodeSetSize g ei len).1 root ino (v.inodeSetSize g ei len).2 (f.setSize len) := by
  have howned := (inodeSetSize_shrunk h.owned hlen).owned
  by_cases hlt : len < ei.size
  · refine ⟨howned, ?_, fun i => ?_⟩
    · rw [inodeSetSize, if_pos hlt]
      rfl
    rw [inodeSetSize_bytes h.owned hlt (hlast hlt) i, h.bytes]
    rfl
  rw [inodeSetSize, if_neg hlt]
  refine ⟨h.owned, rfl, fun i => (h.bytes i).trans ?_⟩
  show _ = if i < len then f.byte i else 0
  split
  · rfl
  · exact f.past i (by have := h.size; omega)

end Vol

/-! ## Whole sequences -/

inductive FileOp
  | write (pos : Nat) (bytes : List UInt8)
  | setSize (len : Nat)
  | read (pos len : Nat)

namespace FileOp

variable (g : Geometry)

/-- What a call leaves in the caller's buffer, and what it returns. -/
abbrev Answer := List UInt8 × Except Errno Int

/-- Offsets and lengths are `u32`, and so is where a call ends. -/
def InRange : FileOp → Prop
  | write pos bytes => pos + bytes.length < 2 ^ 32
  | setSize len => len < 2 ^ 32
  | read pos len => pos + len < 2 ^ 32

/-- Calls whose count fits the `s32` returned, and that do not cut a file inside the last block
below `2 ^ 32`. -/
def Clean (ei : Einode) : FileOp → Prop
  | write _ bytes => bytes.length < 2 ^ 31
  | setSize len => len < ei.size → len + g.blockSize ≤ 2 ^ 32
  | read pos len => min len (ei.size - pos) < 2 ^ 31

def exec : FileOp → Vol × Einode → (Vol × Einode) × Answer
  | write pos bytes, s =>
    let r := s.1.inodeWrite g s.2 pos bytes
    ((r.1, r.2.1), [], r.2.2)
  | setSize len, s => (s.1.inodeSetSize g s.2 len, [], .ok 0)
  | read pos len, s =>
    let r := s.1.inodeRead g s.2 pos len
    ((r.1, s.2), r.2)

def apply : FileOp → ByteFile → ByteFile × Answer
  | write pos bytes, f => (f.write pos bytes, [], .ok bytes.length)
  | setSize len, f => (f.setSize len, [], .ok 0)
  | read pos len, f => (f, f.read pos len, .ok (f.read pos len).length)

/-- One call after the other, with all their answers. -/
def run : List FileOp → Vol × Einode → (Vol × Einode) × List Answer
  | [], s => (s, [])
  | op :: ops, s => ((run ops (op.exec g s).1).1, (op.exec g s).2 :: (run ops (op.exec g s).1).2)

def applyAll : List FileOp → ByteFile → ByteFile × List Answer
  | [], f => (f, [])
  | op :: ops, f =>
    ((applyAll ops (op.apply f).1).1, (op.apply f).2 :: (applyAll ops (op.apply f).1).2)

/-- Every call of a run is in range and clean when its turn comes. -/
def AllClean : List FileOp → Vol × Einode → Prop
  | [], _ => True
  | op :: ops, s => (op.InRange ∧ op.Clean g s.2) ∧ AllClean ops (op.exec g s).1

variable {g} {s : Vol × Einode} {root : Roots} {ino : Nat} {f : ByteFile} {op : FileOp}

open Vol

lemma exec_steady (h : Owned g s.1 (setRoots root ino s.2.block)) (hr : op.InRange) :
    Owned g (op.exec g s).1.1 (setRoots root ino (op.exec g s).1.2.block) ∧
      Others g s.1 (setRoots root ino s.2.block) (op.exec g s).1.1
      (setRoots root ino (op.exec g s).1.2.block) ino ∧
      (op.exec g s).1.1.inode = s.1.inode ∧ ((op.exec g s).1.1.dry = false → s.1.dry = false) := by
  cases op with
  | write pos bytes =>
    have hext := writeLoop_extended bytes.length pos bytes h
    exact ⟨hext.owned, hext.others, hext.beside.inode, hext.dry⟩
  | setSize len =>
    have hcut := inodeSetSize_shrunk h hr
    exact ⟨hcut.owned, hcut.others, hcut.beside.inode, fun hd => hcut.dry ▸ hd⟩
  | read pos len =>
    have himg : (exec g (read pos len) s).1.1.toImage = s.1.toImage := by
      simp only [exec, inodeRead]
      split
      · rfl
      have hend : pos + min len (s.2.size - pos) ≤ 2 ^ 32 := by
        have : pos + len < 2 ^ 32 := hr
        omega
      obtain ⟨v', hv', himg⟩ := readLoop_read [] h (Nat.min_le_left _ _) hend
      rw [hv']
      exact himg
    exact ⟨h.of_image himg, fun _ _ _ => contents_of_image himg, by rw [himg], fun hd => himg ▸ hd⟩

/-- **A call answers as the array does.** -/
lemma exec_holds (h : Holds g s.1 root ino s.2 f) (hr : op.InRange) (hc : op.Clean g s.2)
    (hdry : (op.exec g s).1.1.dry = false) : (op.exec g s).2 = (op.apply f).2 ∧
      Holds g (op.exec g s).1.1 root ino (op.exec g s).1.2 (op.apply f).1 := by
  cases op with
  | write pos bytes =>
    obtain ⟨hnil, hholds⟩ := writeLoop_holds h (Nat.le_refl _) hr hdry
    refine ⟨?_, hholds⟩
    simp only [exec, apply, inodeWrite, hnil, length_nil, Nat.sub_zero]
    rw [if_neg fun hz => hz.2 (length_eq_zero_iff.1 hz.1), toS32_of_lt hc]
  | setSize len => exact ⟨rfl, inodeSetSize_holds h hr hc⟩
  | read pos len =>
    simp only [exec, apply, inodeRead, ByteFile.read, ← h.size]
    split
    · rename_i hge
      rw [Nat.sub_eq_zero_of_le hge]
      exact ⟨by simp, h⟩
    have hend : pos + min len (s.2.size - pos) ≤ 2 ^ 32 := by
      have : pos + len < 2 ^ 32 := hr
      omega
    obtain ⟨v', hv', himg⟩ := readLoop_read [] h.owned (Nat.min_le_left _ _) hend
    rw [hv']
    have hlt : min len (s.2.size - pos) < 2 ^ 31 := hc
    exact ⟨by simp [h.bytes, toS32_of_lt hlt], h.of_image himg⟩

lemma not_dry_of_run {ops : List FileOp} (h : Owned g s.1 (setRoots root ino s.2.block))
    (hops : AllClean g ops s) (hdry : (run g ops s).1.1.dry = false) : s.1.dry = false := by
  induction ops generalizing s with
  | nil => exact hdry
  | cons op ops ih =>
    obtain ⟨howned, -, -, hstep⟩ := exec_steady h hops.1.1
    exact hstep (ih howned hops.2 hdry)

/-- **A file refines an array of bytes**, over every sequence of clean calls for which blocks can be
had. -/
theorem run_refines {ops : List FileOp} (h : Holds g s.1 root ino s.2 f) (hops : AllClean g ops s)
    (hdry : (run g ops s).1.1.dry = false) : (run g ops s).2 = (applyAll ops f).2 ∧
      Holds g (run g ops s).1.1 root ino (run g ops s).1.2 (applyAll ops f).1 ∧
      Others g s.1 (setRoots root ino s.2.block) (run g ops s).1.1
      (setRoots root ino (run g ops s).1.2.block) ino ∧
      (run g ops s).1.1.inode = s.1.inode := by
  induction ops generalizing s f with
  | nil => exact ⟨rfl, h, fun _ _ _ => rfl, rfl⟩
  | cons op ops ih =>
    obtain ⟨⟨hr, hc⟩, hrest⟩ := hops
    obtain ⟨howned, hothers, hinode, -⟩ := exec_steady h.owned hr
    obtain ⟨hans, hholds⟩ := exec_holds h hr hc (not_dry_of_run howned hrest hdry)
    obtain ⟨hanss, hholds', hothers', hinode'⟩ := ih hholds hrest hdry
    refine ⟨?_, hholds', hothers.trans hothers', hinode'.trans hinode⟩
    rw [run, applyAll, hans, hanss]

/-! ### A file cut by a kilobyte -/

/-- A file of `2 ^ 32 - 1` bytes, the first an `A` and all others a hole. -/
def sparse : Einode := ⟨.reg, 1, 0xFFFFFFFF, 2, 0, fun s => if s = 0 then 40 else 0⟩

def sparseFile : ByteFile where
  size := 0xFFFFFFFF
  byte i := if i = 0 then 65 else 0
  past i hi := if_neg (by omega)

def sparseVol : Vol :=
  { small with data := fun b i => if b = 40 ∧ i = 0 then 65 else 0 }

lemma sparse_roots (r : Nat × Nat) :
    setRoots (fun _ => 0) 12 sparse.block r = if r = (12, 0) then 40 else 0 := by
  obtain ⟨ino, s⟩ := r
  simp only [setRoots, sparse, Prod.mk.injEq]
  split <;> split <;> simp_all
  omega

lemma sparse_leaf (k) :
    sparseVol.leaf oneGroup (setRoots (fun _ => 0) 12 sparse.block) 12 k = if k = 0 then
    40 else 0 := by
  cases hm : mapPath oneGroup.addrs k with
  | none =>
    have hk : k ≠ 0 := by
      rintro rfl
      cases hm
    rw [leaf, hm, if_neg hk]
  | some sp =>
    obtain ⟨s, p⟩ := sp
    simp only [leaf, hm, at_, node, sparse_roots, Prod.mk.injEq, true_and]
    by_cases hs : s = 0
    · subst hs
      have hlen := (mapPath_spec (by decide) hm).2.1
      obtain rfl := length_eq_zero_iff.1 hlen
      rw [if_pos rfl, walk_nil, if_pos (by rw [mapPath_index hm]; rfl)]
    have hk : k ≠ 0 := by
      rintro rfl
      cases hm
      exact hs rfl
    rw [if_neg hs, if_neg hk, walk_zero]

lemma sparse_holds : Holds oneGroup sparseVol (fun _ => 0) 12 sparse sparseFile := by
  refine ⟨owned_of_single sparse_roots ⟨by decide, by decide, by decide⟩ small_metaTaken,
    rfl, fun i => ?_⟩
  · rw [byteAt, contents, sparse_leaf]
    show _ = if i = 0 then 65 else 0
    by_cases hk : i / 1024 = 0
    · rw [show i / oneGroup.blockSize = 0 from hk, if_pos rfl, if_neg (by decide)]
      have hi : i % oneGroup.blockSize = i := Nat.mod_eq_of_lt
        (Nat.lt_of_div_eq_zero (by decide) hk)
      simp [sparseVol, hi]
    · rw [if_neg (show ¬ i / oneGroup.blockSize = 0 from hk), if_pos rfl, if_neg (by omega)]
      rfl

/-- **A file cut inside its last block below `2 ^ 32` loses every byte**: it is cut by `1022` bytes,
and the first no longer reads as it was. -/
theorem set_size_wraps : Holds oneGroup sparseVol (fun _ => 0) 12 sparse sparseFile ∧
      (∀ op ∈ [setSize 0xFFFFFC01, read 0 1], op.InRange) ∧
      (run oneGroup [setSize 0xFFFFFC01, read 0 1] (sparseVol, sparse)).1.1.dry = false ∧
      (run oneGroup [setSize 0xFFFFFC01, read 0 1] (sparseVol, sparse)).2 =
      [([], .ok 0), ([0], .ok 1)] ∧
      (applyAll [setSize 0xFFFFFC01, read 0 1] sparseFile).2 = [([], .ok 0), ([65], .ok 1)] := by
  refine ⟨sparse_holds, ?_, by decide +kernel, by decide +kernel, by decide +kernel⟩
  simp [InRange]

/-- The same file cut a block earlier, and read and written. -/
theorem run_refines_sparse : (run oneGroup [setSize 0xFFFFFC00, read 0 1,
    write 1023 [66, 67], read 1022 4]
        (sparseVol, sparse)).2 =
      (applyAll [setSize 0xFFFFFC00, read 0 1, write 1023 [66, 67], read 1022 4] sparseFile).2 := by
  refine (run_refines sparse_holds ?_ (by decide +kernel)).1
  simp only [AllClean, InRange, Clean]
  decide +kernel

end FileOp

end Sage040.Fs
