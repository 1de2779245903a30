import Sage040.Fs.Ext2.Dirent
import Sage040.Fs.Ext2.File

/-!
# A directory is a finite map

The directory calls of `fs/ext2.c` over a volume: `dir_lookup`, `dir_grow`, `dir_add`, `dir_del`,
`dir_is_empty` and `dir_nth`. Four of them walk a directory block by block and stop at what they
look for; `eachBlock` is that walk.

`Directory` says that the blocks of a directory are all there and tiled, and that no two names are
the same. `dirEntries` is then the list of its names in the order of the walk, and each call is an
operation on that list: `dirAdd_spec` puts a name somewhere in it, `dirDel_spec` takes one out, and
`dirNth_spec` reads it by index. `DirOp.directory_refines` puts them together into the map from
names to inodes and types.
-/

namespace Sage040.Fs

open Function Forest List Einode Dirent

/-- `"."` or `".."`. -/
def isDots (name : Name) : Bool := name == [46] || name == [46, 46]

namespace Vol

variable (g : Geometry) (v : Vol)

/-- The blocks that `off < di.size` runs over. -/
def dirBlocks (di : Einode) : Nat := (di.size + g.blockSize - 1) / g.blockSize

/-- A walk of a directory's blocks, which ends where `visit` finds something. A hole is passed over,
and a block that cannot be mapped too when `skip` says so. -/
def eachBlock {α σ : Type} (di : Einode) (skip : Bool) (visit : Nat → Bytes → σ → α ⊕ σ) :
    List Nat → σ → Vol → Vol × Except Errno (α ⊕ σ)
  | [], s, v => (v, .ok (.inr s))
  | k :: ks, s, v =>
    match v.bmap g di k false with
    | (v, _, .error e) => if skip then eachBlock di skip visit ks s v else (v, .error e)
    | (v, _, .ok b) =>
      if b = 0 then eachBlock di skip visit ks s v
      else if g.blocksCount ≤ b then (v, .error .eio)
      else match visit b (v.touch.data b) s with
        | .inl a => (v.touch, .ok (.inl a))
        | .inr s => eachBlock di skip visit ks s v.touch

def dirLookup (dino : Nat) (name : Name) : Vol × Except Errno (Nat × UInt8) :=
  match v.iread g dino with
  | .error e => (v, .error e)
  | .ok di =>
    if di.kind ≠ .dir then (v.touch, .error .enotdir)
    else
      let r := v.touch.eachBlock g di false (fun _ c _ =>
        match (slots g.blockSize c).find? (isName c name) with
        | some p => .inl (inoAt c p, c (p + 7))
        | none => .inr ()) (List.range (dirBlocks g di)) ()
      (r.1, match r.2 with
        | .error e => .error e
        | .ok (.inl found) => .ok found
        | .ok (.inr _) => .error .enoent)

/-- `dir_grow`: one more block, a single free slot. -/
def dirGrow (di : Einode) : Vol × Einode × Except Errno Nat :=
  match v.bmap g di (di.size / g.blockSize) true with
  | (v, di, .error e) => (v, di, .error e)
  | (v, di, .ok b) =>
    if g.blocksCount ≤ b then (v, di, .error .eio)
    else ((v.touch.setData b (freshBlock g.blockSize)).dirty,
      { di with size := (di.size + g.blockSize) % 2 ^ 32 }, .ok b)

/-- Slot `p` has room for `need` bytes. -/
def hasRoom (need : Nat) (c : Bytes) (p : Nat) : Bool := decide (need ≤ roomAt c p)

/-- The slot that a name goes to, by block and offset. A block that was added has one at its start
(`find_freshBlock`). -/
def addLoop (need : Nat) : List Nat → Vol → Einode → Vol × Einode × Except Errno (Nat × Nat)
  | [], v, di =>
    match v.dirGrow g di with
    | (v, di, .error e) => (v, di, .error e)
    | (v, di, .ok b) => (v.touch, di, .ok (b, 0))
  | k :: ks, v, di =>
    match v.bmap g di k true with
    | (v, di, .error e) => (v, di, .error e)
    | (v, di, .ok b) =>
      if g.blocksCount ≤ b then (v, di, .error .eio)
      else
        match (slots g.blockSize (v.data b)).find? (hasRoom need (v.data b)) with
        | some p => (v.touch, di, .ok (b, p))
        | none => addLoop need ks v.touch di

def dirAdd (dino : Nat) (e : Dirent) : Vol × Except Errno Unit :=
  if e.name.length = 0 ∨ 255 < e.name.length then (v, .error .enametoolong)
  else match v.iread g dino with
    | .error err => (v, .error err)
    | .ok di =>
      match v.touch.addLoop g (deLen e.name.length) (List.range (dirBlocks g di)) di with
      | (v, _, .error err) => (v, .error err)
      | (v, di, .ok (b, p)) => ((v.setData b (linkAt (v.data b) p e)).dirty.iwrite dino di, .ok ())

/-- `dir_del`: what the name led to. -/
def dirDel (dino : Nat) (name : Name) : Vol × Except Errno Nat :=
  match v.iread g dino with
  | .error e => (v, .error e)
  | .ok di =>
    let r := v.touch.eachBlock g di false (fun b c _ =>
      match findSlot (isName c name) none (slots g.blockSize c) with
      | some (prev, p) => .inl (b, prev, p)
      | none => .inr ()) (List.range (dirBlocks g di)) ()
    match r.2 with
    | .error e => (r.1, .error e)
    | .ok (.inr _) => (r.1, .error .enoent)
    | .ok (.inl (b, prev, p)) =>
      ((r.1.setData b (unlinkAt (r.1.data b) prev p)).dirty.iwrite dino di,
        .ok (inoAt (r.1.data b) p))

def dirIsEmpty (dino : Nat) : Vol × Except Errno Bool :=
  match v.iread g dino with
  | .error e => (v, .error e)
  | .ok di =>
    let r := v.touch.eachBlock g di true (fun _ c _ =>
      if (entriesIn c (slots g.blockSize c)).all fun e => isDots e.name then
        Sum.inr () else .inl ())
      (List.range (dirBlocks g di)) ()
    (r.1, r.2.map Sum.isRight)

/-- `dir_nth`; `n` names have been passed when a block is come to. -/
def dirNth (dino index : Nat) : Vol × Except Errno Dirent :=
  match v.iread g dino with
  | .error e => (v, .error e)
  | .ok di =>
    if di.kind ≠ .dir then (v.touch, .error .enotdir)
    else
      let r := v.touch.eachBlock g di false (fun _ c n =>
        match (entriesIn c (slots g.blockSize c))[index - n]? with
        | some e => .inl e
        | none => .inr (n + (entriesIn c (slots g.blockSize c)).length))
        (List.range (dirBlocks g di)) 0
      (r.1, match r.2 with
        | .error e => .error e
        | .ok (.inl found) => .ok found
        | .ok (.inr _) => .error .enoent)

/-! ## What a directory says -/

def blockEntries (c : Bytes) : List Dirent := entriesIn c (slots g.blockSize c)

/-- The names in the first blocks of a directory, in the order of a walk. -/
def entriesBefore (dino n : Nat) : List Dirent :=
  (List.range n).flatMap fun k => blockEntries g (v.contents g (rootOf v.inode) dino k)

def dirEntries (dino : Nat) : List Dirent :=
  entriesBefore g v dino ((v.inode dino).size / g.blockSize)

/-- The names of a block up to the slot that has room. -/
def entriesUpTo (need : Nat) (c : Bytes) : List Dirent :=
  entriesIn c ((slots g.blockSize c).take ((slots g.blockSize c).findIdx (hasRoom need c) + 1))

/-- How many names come before one that is added. -/
def addIndex (dino need : Nat) : Nat :=
  match (List.range ((v.inode dino).size / g.blockSize)).find? fun k =>
      (slots g.blockSize (v.contents g (rootOf v.inode) dino k)).any
        (hasRoom need (v.contents g (rootOf v.inode) dino k)) with
  | some k =>
    (entriesBefore g v dino k).length + (entriesUpTo g need
      (v.contents g (rootOf v.inode) dino k)).length
  | none => (dirEntries g v dino).length

/-- **A well-formed directory.** -/
structure Directory (v : Vol) (dino : Nat) : Prop where
  owned : Owned g v (rootOf v.inode)
  number : dino ≠ 0 ∧ dino ≤ g.inodesCount
  dir : (v.inode dino).kind = .dir
  size : (v.inode dino).size < 2 ^ 32
  aligned : (v.inode dino).size % g.blockSize = 0
  mapped : ∀ k < (v.inode dino).size / g.blockSize, v.leaf g (rootOf v.inode) dino k ≠ 0
  tiled : ∀ k < (v.inode dino).size / g.blockSize, ∃ l,
    Tiles (v.contents g (rootOf v.inode) dino k) 0 l g.blockSize
  distinct : ((dirEntries g v dino).map Dirent.name).Nodup

variable {l : List Nat} {e : Dirent} {c : Bytes}

lemma ino_ne_zero {v} {dino : Nat} (h : e ∈ dirEntries g v dino) : e.ino ≠ 0 := by
  obtain ⟨k, -, he⟩ := mem_flatMap.1 h
  obtain ⟨p, -, hlive⟩ := mem_filterMap.1 he
  rw [← (liveAt_eq hlive).1]
  intro h0
  rw [liveAt, if_pos h0] at hlive
  cases hlive

def scan {α σ : Type} (visit : Nat → Bytes → σ → α ⊕ σ) : List (Nat × Bytes) → σ → α ⊕ σ
  | [], s => .inr s
  | x :: xs, s => match visit x.1 x.2 s with
    | .inl a => .inl a
    | .inr s => scan visit xs s

variable {g} {v v' : Vol} {root : Roots} {di : Einode} {dino k b : Nat} {ks : List Nat}
  {name : Name}

lemma leaf_eq {s : Nat} {p : List Nat} (hm : mapPath g.addrs k = some (s, p)) :
    v.leaf g root dino k = v.at_ root dino s p := by
  rw [leaf, hm]

lemma mapPath_of_leaf (h : v.leaf g root dino k ≠ 0) : ∃ s p, mapPath g.addrs k = some (s, p) := by
  cases hm : mapPath g.addrs k with
  | none => exact absurd (by rw [leaf, hm]) h
  | some sp => exact ⟨sp.1, sp.2, rfl⟩

lemma contents_of_mapped (h : v.leaf g root dino k ≠ 0) :
    v.contents g root dino k = v.data (v.leaf g root dino k) := if_neg h

lemma Owned.leaf_inside (h : Owned g v root) (hk : v.leaf g root dino k ≠ 0) :
    v.leaf g root dino k < g.blocksCount := by
  obtain ⟨s, p, hm⟩ := mapPath_of_leaf hk
  rw [leaf_eq hm] at hk ⊢
  exact (h.owns.held (dino, s) p (path_of_mapPath dino hm).1 hk).2.1.2

/-- A mapped block is found, whether or not one may be allocated. -/
lemma bmap_leaf (alloc : Bool) (h : Owned g v root) (hroot : ∀ s < 15, root (dino, s) = di.block s)
    (hk : v.leaf g root dino k ≠ 0) :
    ∃ v', v.bmap g di k alloc = (v', di, .ok (v.leaf g root dino k)) ∧ v'.toImage = v.toImage := by
  obtain ⟨s, p, hm⟩ := mapPath_of_leaf hk
  rw [leaf_eq hm] at hk ⊢
  exact bmap_mapped alloc h hroot hm fun _ => hk

lemma leaf_of_data (hd : v'.data = v.data) : v'.leaf g root dino k = v.leaf g root dino k := by
  simp only [leaf, at_, hd]

lemma leaf_of_image (hi : v'.toImage = v.toImage) : v'.leaf g root dino k = v.leaf g root dino k :=
  leaf_of_data (by rw [hi])

lemma eachBlock_eq {α σ : Type} (ks) (skip : Bool) (visit : Nat → Bytes → σ → α ⊕ σ) (s : σ)
    (h : Owned g v root) (hroot : ∀ s < 15, root (dino, s) = di.block s)
    (hks : ∀ k ∈ ks, v.leaf g root dino k ≠ 0) :
    ∃ v', v.eachBlock g di skip visit ks s = (v', .ok (scan visit
        (ks.map fun k => (v.leaf g root dino k, v.contents g root dino k)) s)) ∧
        v'.toImage = v.toImage := by
  induction ks generalizing v s with
  | nil => exact ⟨v, rfl, rfl⟩
  | cons k ks ih =>
    have hk := hks k mem_cons_self
    obtain ⟨v1, hv1, himg⟩ := bmap_leaf false h hroot hk
    have himg1 := (touch_toImage v1).trans himg
    simp only [eachBlock, hv1, if_neg hk, if_neg (Nat.not_le.2 (h.leaf_inside hk)), map_cons, scan,
      contents_of_mapped hk, himg1]
    split
    · exact ⟨v1.touch, rfl, himg1⟩
    rename_i s' _
    obtain ⟨v', hv', himg'⟩ := ih s' (h.of_image himg1) fun k' hk' => by
      rw [leaf_of_image himg1]
      exact hks k' (mem_cons_of_mem k hk')
    refine ⟨v', ?_, himg'.trans himg1⟩
    simpa only [leaf_of_image himg1, contents_of_image himg1] using hv'

/-! ## Looking -/

variable (g) in
/-- A directory's blocks, with what they hold. -/
def dirContents (v : Vol) (dino : Nat) : List (Nat × Bytes) :=
  (List.range ((v.inode dino).size / g.blockSize)).map fun k =>
    (v.leaf g (rootOf v.inode) dino k, v.contents g (rootOf v.inode) dino k)

lemma dirEntries_eq (v dino) : dirEntries g v dino =
    (dirContents g v dino).flatMap fun x => blockEntries g x.2 := by
  rw [dirEntries, entriesBefore, dirContents, flatMap_map]

lemma hasMap_of_dir (h : di.kind = .dir) : di.hasMap = true := by
  simp [hasMap, fastSymlink, isDevice, h]

lemma dirBlocks_eq (h : di.size % g.blockSize = 0) : dirBlocks g di = di.size / g.blockSize := by
  rw [dirBlocks]
  rcases g.blockSize_eq with hb | hb | hb <;> rw [hb] at h ⊢ <;> omega

variable {xs : List (Nat × Bytes)}

lemma scan_lookup (name) (xs) :
    scan (fun _ c (_ : Unit) => match (slots g.blockSize c).find? (isName c name) with
        | some p => .inl (inoAt c p, c (p + 7))
        | none => .inr ()) xs () =
      match (xs.flatMap fun x => blockEntries g x.2).find? fun e => e.name == name with
        | some e => .inl (e.ino, e.type)
        | none => .inr () := by
  induction xs with
  | nil => rfl
  | cons x xs ih =>
    rw [scan, flatMap_cons, find?_append, blockEntries, find_entriesIn]
    cases hp : (slots g.blockSize x.2).find? (isName x.2 name) with
    | none => simpa using ih
    | some p =>
      obtain ⟨e, he, -⟩ := isName_iff.1 (find?_some hp)
      simp [he, (liveAt_eq he).1, (liveAt_eq he).2]

lemma scan_empty (xs) : scan (fun _ c (_ : Unit) => if (entriesIn c (slots g.blockSize c)).all
    fun e => isDots e.name
        then Sum.inr () else .inl ()) xs () =
      if (xs.flatMap fun x => blockEntries g x.2).all fun e => isDots e.name
        then Sum.inr () else .inl () := by
  induction xs with
  | nil => rfl
  | cons x xs ih =>
    rw [scan, flatMap_cons, all_append, ← blockEntries]
    cases (blockEntries g x.2).all fun e => isDots e.name with
    | true =>
      exact ih
    | false => rfl

lemma scan_nth (index : Nat) (xs) (n : Nat) (hn : n ≤ index) :
    scan (fun _ c n => match (entriesIn c (slots g.blockSize c))[index - n]? with
        | some e => .inl e
        | none => .inr (n + (entriesIn c (slots g.blockSize c)).length)) xs n =
      match (xs.flatMap fun x => blockEntries g x.2)[index - n]? with
        | some e => .inl e
        | none => .inr (n + (xs.flatMap fun x => blockEntries g x.2).length) := by
  induction xs generalizing n with
  | nil => rfl
  | cons x xs ih =>
    rw [scan, List.flatMap_cons, ← blockEntries]
    cases hx : (blockEntries g x.2)[index - n]? with
    | some e =>
      rw [List.getElem?_append_left (List.getElem?_eq_some_iff.1 hx).1, hx]
    | none =>
      have hle := List.getElem?_eq_none_iff.1 hx
      simp only
      rw [ih _ (by omega), List.getElem?_append_right hle, List.length_append, Nat.sub_sub,
        Nat.add_assoc]

lemma blockSize_bounds (g : Geometry) : 264 ≤ g.blockSize ∧ g.blockSize < 2 ^ 16 := by
  rcases g.blockSize_eq with hb | hb | hb <;> rw [hb] <;> decide

lemma blockEntries_of_tiles (h : Tiles c 0 l g.blockSize) : blockEntries g c = entriesIn c l := by
  rw [blockEntries, slots_of_tiles h]

/-- A number below `n`, the ones before it and the ones after it. -/
lemma range_split {n k : Nat} (hk : k < n) : ∃ l,
    List.range n = List.range k ++ k :: l ∧ k ∉ l := by
  refine ⟨(range (n - (k + 1))).map (k + 1 + ·), ?_, ?_⟩
  · rw [append_cons, ← range_succ, ← range_add, Nat.add_sub_cancel' hk]
  rw [mem_map]
  rintro ⟨i, -, hi⟩
  omega

variable (h : Directory g v dino)

include h

lemma Directory.iread : v.iread g dino = .ok (v.inode dino) := if_neg (by have := h.number; omega)

lemma Directory.roots : ∀ s < 15, rootOf v.inode (dino, s) = (v.inode dino).block s :=
  fun _ hs => if_pos ⟨hasMap_of_dir h.dir, hs⟩

lemma Directory.eachBlock {α σ : Type} (skip : Bool) (visit : Nat → Bytes → σ → α ⊕ σ) (s : σ) :
    ∃ v', v.touch.eachBlock g (v.inode dino) skip visit
        (List.range (dirBlocks g (v.inode dino))) s =
        (v', .ok (scan visit (dirContents g v dino) s)) ∧
      v'.toImage = v.toImage := by
  have himg := touch_toImage v
  obtain ⟨v', hv', himg'⟩ := eachBlock_eq (range (dirBlocks g (v.inode dino))) skip visit s
    (h.owned.of_image himg) h.roots fun k hk => by
      rw [leaf_of_image himg]
      exact h.mapped k (by rwa [mem_range, dirBlocks_eq h.aligned] at hk)
  refine ⟨v', ?_, himg'.trans himg⟩
  rw [hv', dirContents, dirBlocks_eq h.aligned]
  simp only [leaf_of_image himg, contents_of_image himg]

/-- **`dir_lookup` finds the name.** -/
lemma dirLookup_spec (name) : ∃ v', v.dirLookup g dino name =
        (v', match (dirEntries g v dino).find? fun e => e.name == name with
          | some e => .ok (e.ino, e.type)
          | none => .error .enoent) ∧
      v'.toImage = v.toImage := by
  obtain ⟨v', hv', himg⟩ := h.eachBlock false (fun _ c (_ : Unit) =>
    match (slots g.blockSize c).find? (isName c name) with
    | some p => .inl (inoAt c p, c (p + 7))
    | none => .inr ()) ()
  refine ⟨v', ?_, himg⟩
  simp only [dirLookup, h.iread, if_neg (not_not.2 h.dir), hv', scan_lookup, ← dirEntries_eq]
  cases (dirEntries g v dino).find? fun e => e.name == name <;> rfl

/-- **`dir_is_empty` says whether there is any name but `"."` and `".."`.** -/
lemma dirIsEmpty_spec : ∃ v', v.dirIsEmpty g dino =
        (v', .ok ((dirEntries g v dino).all fun e => isDots e.name)) ∧ v'.toImage = v.toImage := by
  obtain ⟨v', hv', himg⟩ := h.eachBlock true (fun _ c (_ : Unit) =>
    if (entriesIn c (slots g.blockSize c)).all fun e => isDots e.name
      then Sum.inr () else .inl ()) ()
  refine ⟨v', ?_, himg⟩
  simp only [dirIsEmpty, h.iread, hv', scan_empty, ← dirEntries_eq]
  cases (dirEntries g v dino).all fun e => isDots e.name <;> rfl

/-- **`dir_nth` reads the list by index.** -/
lemma dirNth_spec (index : Nat) : ∃ v', v.dirNth g dino index =
        (v', match (dirEntries g v dino)[index]? with
          | some e => .ok e
          | none => .error .enoent) ∧
      v'.toImage = v.toImage := by
  obtain ⟨v', hv', himg⟩ := h.eachBlock false (fun _ c n =>
    match (entriesIn c (slots g.blockSize c))[index - n]? with
    | some e => .inl e
    | none => .inr (n + (entriesIn c (slots g.blockSize c)).length)) 0
  refine ⟨v', ?_, himg⟩
  simp only [dirNth, h.iread, if_neg (not_not.2 h.dir), hv', scan_nth index _ 0 (Nat.zero_le _),
    ← dirEntries_eq, Nat.sub_zero]
  cases (dirEntries g v dino)[index]? <;> rfl

variable {w v1 : Vol} {di1 : Einode}

/-- **A block of a directory is rewritten**: its names are replaced in the list, and it is a
directory still if no name occurs twice. -/
lemma Directory.rewrite (hk : k < (v.inode dino).size / g.blockSize) (himg : w.toImage = v.toImage)
    (hc : Tiles c 0 l g.blockSize)
    (hw : v' = (w.setData (v.leaf g (rootOf v.inode) dino k) c).dirty.iwrite dino (v.inode dino)) :
    v'.inode = v.inode ∧
      (∃ E2, dirEntries g v dino =
          entriesBefore g v dino k ++ (blockEntries g (v.contents g (rootOf v.inode) dino k) ++
          E2) ∧
        dirEntries g v' dino = entriesBefore g v dino k ++ (entriesIn c l ++ E2)) ∧
      (((dirEntries g v' dino).map Dirent.name).Nodup → Directory g v' dino) := by
  have hmapped := h.mapped k hk
  obtain ⟨s, p, hm⟩ := mapPath_of_leaf hmapped
  have hinode : v'.inode = v.inode := by
    rw [hw]
    simp [himg]
  obtain ⟨howned, hself, hother, hleaf⟩ := h.owned.leafWrite v' (c :=
    c) hm (leaf_eq hm).symm hmapped
    (by rw [hw]; simp [himg]) (by rw [hw]; simp [himg])
  obtain ⟨l2, hl, hk2⟩ := range_split hk
  have hblocks : ∀ l : List Nat, k ∉ l →
    (l.flatMap fun k => blockEntries g (v'.contents g (rootOf v.inode) dino k)) =
        l.flatMap fun k => blockEntries g (v.contents g (rootOf v.inode) dino k) := by
    intro l hkl
    refine flatMap_congr fun k' hk' => ?_
    rw [hother dino k' fun heq => hkl ((Prod.mk.inj heq).2 ▸ hk')]
  refine ⟨hinode, ⟨l2.flatMap fun k => blockEntries g (v.contents g (rootOf v.inode) dino k), ?_,
    ?_⟩,
    fun hdistinct => ⟨?_, h.number, ?_, ?_, ?_, fun k' hk' => ?_, fun k' hk' => ?_, hdistinct⟩⟩
  · rw [dirEntries, entriesBefore, hl, flatMap_append, flatMap_cons, entriesBefore]
  · rw [dirEntries, entriesBefore, hinode, hl, flatMap_append, flatMap_cons, hself,
      hblocks _ not_mem_range_self, hblocks l2 hk2, blockEntries_of_tiles hc, entriesBefore]
  · rwa [hinode]
  · rw [hinode, h.dir]
  · rw [hinode]
    exact h.size
  · rw [hinode]
    exact h.aligned
  · rw [hinode] at hk' ⊢
    rw [hleaf]
    exact h.mapped k' hk'
  · rw [hinode] at hk' ⊢
    by_cases hkk : k' = k
    · rw [hkk, hself]
      exact ⟨l, hc⟩
    · rw [hother dino k' (by simp [hkk])]
      exact h.tiled k' hk'

omit h in
lemma scan_del (leaf : Nat → Nat) (cont : Nat → Bytes) (name : Name) (ks : List Nat) :
    (scan (fun b c (_ : Unit) => match findSlot (isName c name) none (slots g.blockSize c) with
        | some (prev, p) => .inl (b, prev, p)
        | none => .inr ()) (ks.map fun k => (leaf k, cont k)) () = .inr () ∧
      ∀ k ∈ ks, ∀ p ∈ slots g.blockSize (cont k), isName (cont k) name p = false) ∨
    ∃ k ∈ ks, ∃ prev p,
      scan (fun b c (_ : Unit) => match findSlot (isName c name) none (slots g.blockSize c) with
        | some (prev, p) => .inl (b, prev, p)
        | none => .inr ()) (ks.map fun k => (leaf k, cont k)) () = .inl (leaf k, prev, p) ∧
      findSlot (isName (cont k) name) none (slots g.blockSize (cont k)) = some (prev, p) := by
  induction ks with
  | nil => exact .inl ⟨rfl, nofun⟩
  | cons k ks ih =>
    rw [map_cons, scan]
    cases hf : findSlot (isName (cont k) name) none (slots g.blockSize (cont k)) with
    | some x =>
      exact .inr ⟨k, mem_cons_self, x.1, x.2, rfl, hf⟩
    | none =>
      rcases ih with ⟨heq, hnone⟩ | ⟨k', hk', prev, p, heq, hfind⟩
      · refine .inl ⟨heq, ?_⟩
        rintro k' (_ | ⟨_, hk'⟩)
        · exact findSlot_none hf
        · exact hnone k' hk'
      · exact .inr ⟨k', mem_cons_of_mem k hk', prev, p, heq, hfind⟩

/-- **`dir_del` takes the name out of the list.** -/
lemma dirDel_spec (name : Name) : (∃ v' E1 e E2, v.dirDel g dino name = (v', .ok e.ino) ∧
    e.name = name ∧
      dirEntries g v dino = E1 ++ e :: E2 ∧ dirEntries g v' dino = E1 ++ E2 ∧
      Directory g v' dino ∧ v'.inode = v.inode) ∨
    (∃ v', v.dirDel g dino name = (v', .error .enoent) ∧ v'.toImage = v.toImage ∧
      ∀ e ∈ dirEntries g v dino, e.name ≠ name) := by
  obtain ⟨w, hw, himg⟩ := h.eachBlock false (fun b c (_ : Unit) =>
    match findSlot (isName c name) none (slots g.blockSize c) with
    | some (prev, p) => .inl (b, prev, p)
    | none => .inr ()) ()
  rw [dirContents] at hw
  rcases scan_del (g := g) (v.leaf g (rootOf v.inode) dino)
    (v.contents g (rootOf v.inode) dino) name
    (range ((v.inode dino).size / g.blockSize)) with ⟨heq, hnone⟩ | ⟨k, hk, prev, p, heq, hfind⟩
  · refine .inr ⟨w, ?_, himg, fun e he hname => ?_⟩
    · simp only [dirDel, h.iread, hw, heq]
    obtain ⟨k, hk, he⟩ := mem_flatMap.1 he
    obtain ⟨p, hp, hlive⟩ := mem_filterMap.1 he
    have := hnone k hk p hp
    rw [isName_iff.2 ⟨e, hlive, hname⟩] at this
    cases this
  have hk := mem_range.1 hk
  obtain ⟨l, hl⟩ := h.tiled k hk
  have hdata : w.data (v.leaf g (rootOf v.inode) dino k) = v.contents g (rootOf v.inode) dino k :=
      by
    rw [himg, contents_of_mapped (h.mapped k hk)]
  generalize hcont : v.contents g (rootOf v.inode) dino k = c at hl hfind hdata
  obtain ⟨l1, l2, hsplit, hname, -, hprev⟩ := findSlot_spec hfind
  rw [slots_of_tiles hl] at hsplit
  have hprev : prev = l1.getLast? := by
    rw [hprev]
    split
    · rename_i h0
      rw [h0]
      rfl
    · rfl
  subst hsplit hprev
  obtain ⟨e, hlive, hename⟩ := isName_iff.1 hname
  obtain ⟨l', hl', hentries⟩ := tiles_unlinkAt hl (blockSize_bounds g).2
  obtain ⟨hinode, ⟨E2, hE, hE'⟩, hdir⟩ := h.rewrite hk himg hl' rfl
  generalize entriesBefore g v dino k = E1 at hE hE'
  rw [hcont, blockEntries_of_tiles hl, entriesIn_append, entriesIn_cons, hlive] at hE
  rw [hentries] at hE'
  refine .inl ⟨_, E1 ++ entriesIn c l1, e, entriesIn c l2 ++ E2, ?_, hename, ?_, ?_,
    hdir ?_, hinode⟩
  · simp only [dirDel, h.iread, hw, heq, hdata, (liveAt_eq hlive).1]
  · rw [hE]
    simp
  · rw [hE']
    simp
  have hsub : List.Sublist (E1 ++ (entriesIn c l1 ++ entriesIn c l2 ++ E2)) (dirEntries g v dino) :=
      by
    rw [hE]
    simp
  rw [hE']
  exact h.distinct.sublist (hsub.map Dirent.name)

/-! ## Adding a name -/

omit h in
/-- What `dir_grow` does: one more block, or nothing for want of one. -/
lemma dirGrow_extended (h : Owned g v (setRoots root dino di.block))
    {r : Vol × Einode × Except Errno Nat}
    (hr : v.dirGrow g di = r) : Extended g v root dino di r.1 r.2.1 ∧
      ((∃ b, r.2.2 = .ok b ∧ r.2.1.size = (di.size + g.blockSize) % 2 ^ 32 ∧ b ≠ 0 ∧
          r.1.leaf g (setRoots root dino r.2.1.block) dino (di.size / g.blockSize) = b ∧
          ∀ k, r.1.contents g (setRoots root dino r.2.1.block) dino k =
            if k = di.size / g.blockSize then freshBlock g.blockSize
            else v.contents g (setRoots root dino di.block) dino k) ∨
        ((r.2.2 = .error .enospc ∧ r.1.dry = true) ∨
          (r.2.2 = .error .efbig ∧ mapPath g.addrs (di.size / g.blockSize) = none)) ∧
        ∀ k, r.1.contents g (setRoots root dino r.2.1.block) dino k =
          v.contents g (setRoots root dino di.block) dino k) := by
  subst hr
  rw [dirGrow]
  rcases hres : v.bmap g di (di.size / g.blockSize) true with ⟨v1, di1, res⟩
  obtain ⟨hext, hsize, hcont, hout⟩ := bmap_extended h hres
  rcases hout with ⟨b, s, p, rfl, hm, hat, hne, hlt⟩ | ⟨rfl, hd⟩ | ⟨rfl, hnone⟩
  · simp only [if_neg (Nat.not_le.2 hlt)]
    obtain ⟨hext', hcont', hleaf⟩ := hext.setLeaf
      (w := (v1.touch.setData b (freshBlock g.blockSize)).dirty)
      ((di1.size + g.blockSize) % 2 ^ 32) hm hat hne
      (by rw [dirty_toImage, setData_toImage, touch_toImage])
    refine ⟨hext', .inl ⟨b, rfl, by rw [hsize], hne, ?_, fun k => ?_⟩⟩
    · rw [hleaf, leaf_eq hm, hat]
    · rw [hcont', hcont]
  · exact ⟨hext, .inr ⟨.inl ⟨rfl, hd⟩, hcont⟩⟩
  · exact ⟨hext, .inr ⟨.inr ⟨rfl, hnone⟩, hcont⟩⟩

abbrev hasSlot (g : Geometry) (v : Vol) (root : Nat × Nat → Nat) (dino need k : Nat) : Bool :=
  (slots g.blockSize (v.contents g root dino k)).any (hasRoom need (v.contents g root dino k))

omit h in
lemma hasSlot_of_image {need : Nat} (hi : v'.toImage = v.toImage) :
    hasSlot g v' root dino need = hasSlot g v root dino need := by
  funext k
  rw [hasSlot, hasSlot, contents_of_image hi]

omit h in
/-- The slot that a name goes to: in a block that is there, or in a new one. -/
lemma addLoop_mapped (need : Nat) (ks) (h : Owned g v root)
    (hroot : ∀ s < 15, root (dino, s) = di.block s) (hks : ∀ k ∈ ks, v.leaf g root dino k ≠ 0) :
    (∃ v' k p, v.addLoop g need ks di = (v', di, .ok (v.leaf g root dino k, p)) ∧
      v'.toImage = v.toImage ∧ ks.find? (hasSlot g v root dino need) = some k ∧
      (slots g.blockSize (v.contents g root dino k)).find?
      (hasRoom need (v.contents g root dino k)) = some p) ∨
    ∃ v' : Vol, v'.toImage = v.toImage ∧ v.addLoop g need ks di = v'.addLoop g need [] di ∧
      ks.find? (hasSlot g v root dino need) = none := by
  induction ks generalizing v with
  | nil => exact .inr ⟨v, rfl, rfl, rfl⟩
  | cons k ks ih =>
    have hk := hks k mem_cons_self
    obtain ⟨v1, hv1, himg⟩ := bmap_leaf true h hroot hk
    have himg1 := (touch_toImage v1).trans himg
    have hdata : v1.data (v.leaf g root dino k) = v.contents g root dino k := by
      rw [himg, contents_of_mapped hk]
    simp only [addLoop, hv1, if_neg (Nat.not_le.2 (h.leaf_inside hk)), hdata]
    split
    · rename_i p hp
      have hany : hasSlot g v root dino need k = true :=
        any_eq_true.2 ⟨p, mem_of_find?_eq_some hp, find?_some hp⟩
      exact .inl ⟨v1.touch, k, p, rfl, himg1, find?_cons_of_pos hany, hp⟩
    rename_i hp
    have hany : ¬ hasSlot g v root dino need k = true := fun hany => by
      obtain ⟨q, hq, hroom⟩ := any_eq_true.1 hany
      exact find?_eq_none.1 hp q hq hroom
    rw [find?_cons_of_neg hany]
    have hih := ih (h.of_image himg1) fun k' hk' => by
      rw [leaf_of_image himg1]
      exact hks k' (mem_cons_of_mem k hk')
    simp only [hasSlot_of_image himg1, contents_of_image himg1, leaf_of_image himg1] at hih
    rcases hih with ⟨v', k', p, hv', himg', hfind, hp⟩ | ⟨v', himg', hv', hnone⟩
    · exact .inl ⟨v', k', p, hv', himg'.trans himg1, hfind, hp⟩
    · exact .inr ⟨v', himg'.trans himg1, hv', hnone⟩

omit h in
lemma Directory.congr (v' : Vol) (h : Directory g v dino) (hinode : v'.inode = v.inode)
    (howned : Owned g v' (rootOf v.inode)) (hleaf : ∀ k < (v.inode dino).size / g.blockSize,
      v'.leaf g (rootOf v.inode) dino k = v.leaf g (rootOf v.inode) dino k)
    (hcont : ∀ k < (v.inode dino).size / g.blockSize,
      v'.contents g (rootOf v.inode) dino k = v.contents g (rootOf v.inode) dino k) :
    Directory g v' dino ∧ dirEntries g v' dino = dirEntries g v dino := by
  have hentries : dirEntries g v' dino = dirEntries g v dino := by
    rw [dirEntries, dirEntries, entriesBefore, entriesBefore, hinode]
    refine flatMap_congr fun k hk => ?_
    rw [hcont k (mem_range.1 hk)]
  refine ⟨⟨by rwa [hinode], h.number, by rw [hinode, h.dir], by rw [hinode]; exact h.size,
    by rw [hinode]; exact h.aligned, fun k hk => ?_, fun k hk => ?_, by rw [hentries]; exact h.distinct⟩,
    hentries⟩
  · rw [hinode] at hk ⊢
    rw [hleaf k hk]
    exact h.mapped k hk
  rw [hinode] at hk ⊢
  rw [hcont k hk]
  exact h.tiled k hk

lemma Directory.of_image (hi : v'.toImage = v.toImage) :
    Directory g v' dino ∧ dirEntries g v' dino = dirEntries g v dino :=
  h.congr v' (by rw [hi]) (h.owned.of_image hi) (fun _ _ => leaf_of_image hi)
    fun _ _ => contents_of_image hi

lemma Directory.ownRoots : setRoots (rootOf v.inode) dino (v.inode dino).block = rootOf v.inode :=
  setRoots_rootOf (hasMap_of_dir h.dir)

omit h in
lemma nodup_insert {E1 E2 : List Dirent} (h : ((E1 ++ E2).map Dirent.name).Nodup)
    (hnew : ∀ e' ∈ E1 ++ E2, e'.name ≠ e.name) : ((E1 ++ e :: E2).map Dirent.name).Nodup := by
  have hperm : List.Perm ((E1 ++ e :: E2).map name) (e.name :: (E1 ++ E2).map name) :=
    perm_middle.map name
  rw [hperm.nodup_iff, nodup_cons]
  refine ⟨fun hmem => ?_, h⟩
  obtain ⟨e', he', hname⟩ := mem_map.1 hmem
  exact hnew e' he' hname

/-- A directory for which there was no block: what was allocated on the way is dropped. -/
lemma Directory.dropped (himg : w.toImage = v.toImage)
    (hext : Extended g w (rootOf v.inode) dino (v.inode dino) v1 di1)
    (hcont : ∀ k, v1.contents g (setRoots (rootOf v.inode) dino di1.block) dino k =
      v.contents g (rootOf v.inode) dino k) : Directory g v1 dino ∧
      dirEntries g v1 dino = dirEntries g v dino := by
  obtain ⟨howned, hleaf⟩ := hext.dropped
  rw [h.ownRoots] at howned hleaf
  have hleafw : ∀ k, w.leaf g (rootOf v.inode) dino k = v.leaf g (rootOf v.inode) dino k :=
    fun _ => leaf_of_image himg
  have hnew : ∀ k < (v.inode dino).size / g.blockSize, v1.leaf g (rootOf v.inode) dino k =
      v1.leaf g (setRoots (rootOf v.inode) dino di1.block) dino k :=
    fun k hk => (hleaf dino k).resolve_right fun h0 => h.mapped k hk (hleafw k ▸ h0.2)
  have hold : ∀ k < (v.inode dino).size / g.blockSize, v1.leaf g (rootOf v.inode) dino k =
      v.leaf g (rootOf v.inode) dino k := fun k hk => by
    rw [hnew k hk, hext.leaf dino k (by rw [h.ownRoots, hleafw]; exact h.mapped k hk),
      h.ownRoots, hleafw]
  refine h.congr v1 (hext.beside.inode.trans (by rw [himg])) howned hold fun k hk => ?_
  rw [← hcont k, contents, contents, hnew k hk]

lemma Directory.grown (himg : w.toImage = v.toImage)
    (hext : Extended g w (rootOf v.inode) dino (v.inode dino) v1 di1)
    (hsize : di1.size = (v.inode dino).size + g.blockSize) (hlt : di1.size < 2 ^ 32) (hb0 : b ≠ 0)
    (hleaf : v1.leaf g (setRoots (rootOf v.inode) dino di1.block) dino
      ((v.inode dino).size / g.blockSize) = b) (hcont : ∀ k < (v.inode dino).size / g.blockSize,
      v1.contents g (setRoots (rootOf v.inode) dino di1.block) dino k =
      v.contents g (rootOf v.inode) dino k)
    (hc : Tiles c 0 l g.blockSize) (hv' : v' = (v1.touch.setData b c).dirty.iwrite dino di1)
    (hnodup : ((dirEntries g v dino ++ entriesIn c l).map Dirent.name).Nodup) :
    Directory g v' dino ∧ dirEntries g v' dino = dirEntries g v dino ++ entriesIn c l := by
  obtain ⟨s, p, hm⟩ := mapPath_of_leaf (hleaf.trans_ne hb0)
  obtain ⟨hext', hcont', hleaf'⟩ := hext.setLeaf (c := c) di1.size hm
    (by rw [← leaf_eq hm]; exact hleaf) hb0 (by rw [dirty_toImage, setData_toImage, touch_toImage])
  have hkind : di1.kind = .dir := hext.kind.trans h.dir
  have hself : v'.inode dino = di1 := by
    rw [hv']
    simp
  have hroots : rootOf v'.inode = setRoots (rootOf v.inode) dino di1.block := by
    rw [hv', iwrite_toImage]
    rw [dirty_toImage, setData_toImage, touch_toImage, hext.beside.inode, himg,
      rootOf_update _ (hasMap_of_dir hkind)]
  have hdata : v'.data = (v1.touch.setData b c).dirty.data := by
    rw [hv', iwrite_toImage]
  have hblocks : di1.size / g.blockSize = (v.inode dino).size / g.blockSize + 1 := by
    rw [hsize]
    exact Nat.add_div_right _ (by have := blockSize_bounds g; omega)
  have hleafs : ∀ k, v'.leaf g (rootOf v'.inode) dino k =
      v1.leaf g (setRoots (rootOf v.inode) dino di1.block) dino k := fun k => by
    rw [hroots, leaf_of_data hdata]
    exact hleaf' dino k
  have hconts : ∀ k, v'.contents g (rootOf v'.inode) dino k = if k = (v.inode dino).size /
    g.blockSize then c
      else v1.contents g (setRoots (rootOf v.inode) dino di1.block) dino k := fun k => by
    rw [hroots, contents_of_data hdata]
    exact hcont' k
  have hentries : dirEntries g v' dino = dirEntries g v dino ++ entriesIn c l := by
    rw [dirEntries, entriesBefore, hself, hblocks, range_succ, flatMap_append,
      flatMap_singleton, hconts, if_pos rfl, blockEntries_of_tiles hc, dirEntries, entriesBefore]
    refine congrArg (· ++ _) (flatMap_congr fun k hk => ?_)
    have hk := mem_range.1 hk
    rw [hconts, if_neg (Nat.ne_of_lt hk), hcont k hk]
  refine ⟨⟨?_, h.number, by
    rw [hself, hkind], by rw [hself]; exact hlt, ?_, fun k hk => ?_, fun k hk => ?_,
    by rwa [hentries]⟩, hentries⟩
  · rw [hroots]
    exact hext'.owned.congr (by rw [hv']; simp) hdata
  · rw [hself, hsize, Nat.add_mod_right, h.aligned]
  · rw [hself, hblocks] at hk
    rw [hleafs]
    by_cases hkn : k = (v.inode dino).size / g.blockSize
    · rw [hkn, hleaf]
      exact hb0
    have hmapped := h.mapped k (by omega)
    rw [← leaf_of_image himg, ← h.ownRoots] at hmapped
    rw [hext.leaf dino k hmapped]
    exact hmapped
  · rw [hself, hblocks] at hk
    rw [hconts]
    split
    · exact ⟨l, hc⟩
    rw [hcont k (by omega)]
    exact h.tiled k (by omega)

omit h in
lemma take_findIdx {f : Nat → Bool} {p : Nat} {l1 l2 : List Nat} (h : ∀ q ∈ l1, (!f q) = true)
    (hp : f p = true) : (l1 ++ p :: l2).take ((l1 ++ p :: l2).findIdx f + 1) = l1 ++ [p] := by
  induction l1 with
  | nil => simp [findIdx_cons, hp]
  | cons q l1 ih =>
    have hq : f q = false := by simpa using h q mem_cons_self
    simp only [cons_append, findIdx_cons, hq, cond_false, take_succ_cons]
    rw [ih fun q' hq' => h q' (mem_cons_of_mem q hq')]

/-- **`dir_add` puts the name in the list**, or leaves the directory as it was for want of a block.
-/
lemma dirAdd_spec (hname : 0 < e.name.length ∧ e.name.length ≤ 255)
    (hino : e.ino ≠ 0 ∧ e.ino < 2 ^ 32) (hnew : ∀ e' ∈ dirEntries g v dino, e'.name ≠ e.name)
    (hsize : (v.inode dino).size + g.blockSize < 2 ^ 32) :
    (∃ v' E1 E2, v.dirAdd g dino e = (v', .ok ()) ∧ dirEntries g v dino = E1 ++ E2 ∧
      dirEntries g v' dino = E1 ++ e :: E2 ∧ Directory g v' dino ∧
      E1.length = addIndex g v dino (deLen e.name.length)) ∨
    (∃ v', v.dirAdd g dino e = (v', .error .enospc) ∧ v'.dry = true ∧ Directory g v' dino ∧
      dirEntries g v' dino = dirEntries g v dino) := by
  have himg := touch_toImage v
  have hmapped : ∀ k ∈ range (dirBlocks g (v.inode dino)),
      v.touch.leaf g (rootOf v.inode) dino k ≠ 0 := by
    intro k hk
    rw [leaf_of_image himg]
    exact h.mapped k (by rwa [mem_range, dirBlocks_eq h.aligned] at hk)
  have hloop := addLoop_mapped (deLen e.name.length) _ (h.owned.of_image himg) h.roots hmapped
  simp only [hasSlot_of_image himg, contents_of_image himg, leaf_of_image himg] at hloop
  rcases hloop with ⟨w, k, p, hw, himgw, hfind, hp⟩ | ⟨w, himgw, hw, hnone⟩
  · rw [dirBlocks_eq h.aligned] at hfind
    have hk : k < (v.inode dino).size / g.blockSize := mem_range.1 (mem_of_find?_eq_some hfind)
    have himgw := himgw.trans himg
    have hdata : w.data (v.leaf g (rootOf v.inode) dino k) = v.contents g (rootOf v.inode) dino k :=
        by
      rw [himgw, contents_of_mapped (h.mapped k hk)]
    obtain ⟨l, hl⟩ := h.tiled k hk
    have hindex : addIndex g v dino (deLen e.name.length) = (entriesBefore g v dino k).length +
        (entriesUpTo g (deLen e.name.length) (v.contents g (rootOf v.inode) dino k)).length := by
      rw [addIndex, hfind]
    generalize hc : v.contents g (rootOf v.inode) dino k = c at hl hp hdata hindex
    rw [slots_of_tiles hl] at hp
    obtain ⟨hroom, l1, l2, rfl, hbefore⟩ := find?_eq_some_iff_append.1 hp
    rw [entriesUpTo, slots_of_tiles hl, take_findIdx hbefore hroom] at hindex
    obtain ⟨l', hl', hentries⟩ := tiles_linkAt hl (blockSize_bounds g).2 (of_decide_eq_true hroom)
      hname.2 hino.1 hino.2
    obtain ⟨hinode, ⟨E2, hE, hE'⟩, hdir⟩ := h.rewrite hk himgw hl' rfl
    generalize entriesBefore g v dino k = E1 at hE hE' hindex
    have hsplit : dirEntries g v dino = (E1 ++ entriesIn c (l1 ++ [p])) ++ (entriesIn c l2 ++ E2) :=
        by
      rw [hE, hc, blockEntries_of_tiles hl, append_cons, entriesIn_append]
      simp only [append_assoc]
    rw [hentries] at hE'
    refine .inl ⟨_, E1 ++ entriesIn c (l1 ++ [p]), entriesIn c l2 ++ E2, ?_, hsplit, ?_, hdir ?_,
      by rw [hindex, length_append]⟩
    · rw [dirAdd, if_neg (by omega), h.iread]
      simp only [hw, hdata]
    · rw [hE']
      simp
    · rw [hE', show E1 ++ (entriesIn c (l1 ++ [p]) ++ e :: entriesIn c l2 ++ E2) =
        (E1 ++ entriesIn c (l1 ++ [p])) ++ e :: (entriesIn c l2 ++ E2) by simp]
      exact nodup_insert (hsplit ▸ h.distinct) (hsplit ▸ hnew)
  have himgw := himgw.trans himg
  have howned : Owned g w (setRoots (rootOf v.inode) dino (v.inode dino).block) := by
    rw [h.ownRoots]
    exact h.owned.of_image himgw
  rcases hr : w.dirGrow g (v.inode dino) with ⟨v1, di1, res⟩
  obtain ⟨hext, hcases⟩ := dirGrow_extended howned hr
  have hinode : v1.inode = v.inode := hext.beside.inode.trans (by rw [himgw])
  simp only [h.ownRoots, contents_of_image himgw] at hext hcases
  rcases hcases with ⟨b, rfl, hsize1, hb0, hleafb, hcont1⟩ | ⟨hfail, hcont1⟩
  · rw [Nat.mod_eq_of_lt hsize] at hsize1
    obtain ⟨h264, h16⟩ := blockSize_bounds g
    have hfresh : v1.touch.data b = freshBlock g.blockSize := by
      have hself := hcont1 ((v.inode dino).size / g.blockSize)
      rwa [if_pos rfl, contents_of_mapped (hleafb.trans_ne hb0), hleafb,
        ← touch_toImage v1] at hself
    have hneed := deLen_le hname.2
    have h8 : 8 ≤ g.blockSize := Nat.le_trans (by decide) h264
    have hroom := find?_some (find_freshBlock (hneed.trans h264) h8 h16)
    have htiles : Tiles (freshBlock g.blockSize) 0 ([] ++ 0 :: []) g.blockSize :=
      tiles_freshBlock h8 h16
    obtain ⟨l, hl, hentries⟩ := tiles_linkAt htiles h16 (of_decide_eq_true hroom) hname.2
      hino.1 hino.2
    have hnodup : ((dirEntries g v dino ++ e :: []).map name).Nodup :=
      nodup_insert (by rw [append_nil]; exact h.distinct) (by rw [append_nil]; exact hnew)
    obtain ⟨hdir, hE⟩ := h.grown himgw hext hsize1 (hsize1 ▸ hsize) hb0 hleafb
      (fun k hk => by rw [hcont1, if_neg (Nat.ne_of_lt hk)]) hl rfl (by rw [hentries]; exact hnodup)
    rw [dirBlocks_eq h.aligned] at hnone
    refine .inl ⟨_, dirEntries g v dino, [], ?_, (append_nil _).symm, ?_, hdir,
      by rw [addIndex, hnone]⟩
    · rw [dirAdd, if_neg (by omega), h.iread]
      simp only [hw, addLoop, hr, hfresh]
    · rw [hE, hentries]
      rfl
  · -- what was allocated on the way is dropped
    rcases hfail with ⟨rfl, hd⟩ | ⟨rfl, hnone⟩
    · obtain ⟨hdir, hE⟩ := h.dropped himgw hext hcont1
      refine .inr ⟨v1, ?_, hd, hdir, hE⟩
      rw [dirAdd, if_neg (by omega), h.iread]
      simp only [hw, addLoop, hr]
    · obtain ⟨s, p, hm⟩ := mapPath_isSome g h.size
      rw [hm] at hnone
      cases hnone

end Vol

/-! ## Whole sequences -/

/-- What a directory is for. -/
abbrev DirMap := Name → Option (Nat × UInt8)

def lookupIn (l : List Dirent) : DirMap := fun name =>
  (l.find? fun e => e.name == name).map fun e => (e.ino, e.type)

/-- A call that changes a directory or looks a name up. -/
inductive DirOp
  | add (e : Dirent)
  | del (name : Name)
  | lookup (name : Name)

namespace DirOp

variable (g : Geometry) (dino : Nat)

inductive Answer
  | added (r : Except Errno Unit)
  | removed (r : Except Errno Nat)
  | found (r : Except Errno (Nat × UInt8))

def exec : DirOp → Vol → Vol × Answer
  | add e, v => ((v.dirAdd g dino e).1, .added (v.dirAdd g dino e).2)
  | del name, v => ((v.dirDel g dino name).1, .removed (v.dirDel g dino name).2)
  | lookup name, v => ((v.dirLookup g dino name).1, .found (v.dirLookup g dino name).2)

def answer (m : DirMap) (name : Name) : Except Errno (Nat × UInt8) :=
  match m name with
  | some x => .ok x
  | none => .error .enoent

/-- What a call answers and leaves, for the map `m`. Only for want of a block is a name not added.
-/
def Refines (m : DirMap) (dry : Bool) (m' : DirMap) : DirOp → Answer → Prop
  | add e, .added (.ok ()) => m' = update m e.name (some (e.ino, e.type))
  | add _, .added (.error err) => err = .enospc ∧ dry = true ∧ m' = m
  | del name, .removed r => r = (answer m name).map Prod.fst ∧ m' = update m name none
  | lookup name, .found r => r = answer m name ∧ m' = m
  | _, _ => False

/-- The calls that only look, against the map. -/
structure Reads (v : Vol) (m : DirMap) : Prop where
  lookup : ∀ name, (v.dirLookup g dino name).2 = answer m name
  isEmpty : ∃ r, (v.dirIsEmpty g dino).2 = .ok r ∧
    (r = true ↔ ∀ name, m name ≠ none → name = [46] ∨ name = [46, 46])
  nth : ∃ l : List Dirent, (l.map Dirent.name).Nodup ∧
    (∀ i, (v.dirNth g dino i).2 = match l[i]? with
      | some e => .ok e
      | none => .error .enoent) ∧
    ∀ name x, m name = some x ↔ ∃ e ∈ l, e.name = name ∧ (e.ino, e.type) = x

/-- A name that is added is new and no longer than a name may be, leads to an inode, and does not
make the directory four gigabytes long. -/
def Proper (v : Vol) : DirOp → Prop
  | add e => (0 < e.name.length ∧ e.name.length ≤ 255) ∧ (e.ino ≠ 0 ∧ e.ino < 2 ^ 32) ∧
      (∀ e' ∈ Vol.dirEntries g v dino, e'.name ≠ e.name) ∧
      (v.inode dino).size + g.blockSize < 2 ^ 32
  | _ => True

def AllProper : List DirOp → Vol → Prop
  | [], _ => True
  | op :: ops, v => op.Proper g dino v ∧ AllProper ops (op.exec g dino v).1

/-- From `v` on the directory is a map, which starts as `m`: it is well formed, it reads as the map,
and every call does to the map what it says. -/
def Simulates : List DirOp → Vol → DirMap → Prop
  | [], v, m => Vol.Directory g v dino ∧ Reads g dino v m
  | op :: ops, v, m => Vol.Directory g v dino ∧ Reads g dino v m ∧
      ∃ m', op.Refines m (op.exec g dino v).1.dry m' (op.exec g dino v).2 ∧
      Simulates ops (op.exec g dino v).1 m'

variable {g dino} {v : Vol} {l : List Dirent}

open Vol

variable {name : Name} {E1 E2 : List Dirent} {e : Dirent}

lemma lookupIn_eq_none : lookupIn l name = none ↔ ∀ e ∈ l, e.name ≠ name := by
  simp [lookupIn, find?_eq_none]

lemma lookupIn_eq_some (h : (l.map Dirent.name).Nodup) {x : Nat × UInt8} :
    lookupIn l name = some x ↔ ∃ e ∈ l, e.name = name ∧ (e.ino, e.type) = x := by
  constructor
  · intro hx
    obtain ⟨e, he, rfl⟩ := Option.map_eq_some_iff.1 hx
    exact ⟨e, mem_of_find?_eq_some he, by simpa using find?_some he, rfl⟩
  rintro ⟨e, he, rfl, rfl⟩
  cases hf : l.find? fun e' => e'.name == e.name with
  | none => exact absurd (find?_eq_none.1 hf e he) (by simp)
  | some e' =>
    have hname : e'.name = e.name := by simpa using find?_some hf
    have := inj_on_of_nodup_map h (mem_of_find?_eq_some hf) he hname
    rw [lookupIn, hf, this]
    rfl

lemma lookupIn_insert (hnew : ∀ e' ∈ E1 ++ E2, e'.name ≠ e.name) :
    lookupIn (E1 ++ e :: E2) = update (lookupIn (E1 ++ E2)) e.name (some (e.ino, e.type)) := by
  funext name
  by_cases hname : name = e.name
  · have h1 : E1.find? (fun e' => e'.name == name) = none := by
      rw [find?_eq_none]
      intro e' he'
      simpa [hname] using hnew e' (mem_append_left _ he')
    rw [hname, update_self, ← hname, lookupIn, find?_append, h1]
    simp [hname]
  · rw [update_of_ne hname]
    have : (e.name == name) = false := by simpa using fun h => hname h.symm
    simp [lookupIn, find?_append, this]

lemma lookupIn_remove (h : ((E1 ++ e :: E2).map Dirent.name).Nodup) :
    lookupIn (E1 ++ E2) = update (lookupIn (E1 ++ e :: E2)) e.name none := by
  have hperm : List.Perm ((E1 ++ e :: E2).map name) (e.name :: (E1 ++ E2).map name) :=
    perm_middle.map name
  rw [hperm.nodup_iff, nodup_cons] at h
  have hnew : ∀ e' ∈ E1 ++ E2, e'.name ≠ e.name :=
    fun e' he' heq => h.1 (heq ▸ mem_map_of_mem he')
  rw [lookupIn_insert hnew, update_idem, ← lookupIn_eq_none.2 hnew, update_eq_self]

lemma answer_lookupIn (l name) : answer (lookupIn l) name =
    match l.find? fun e => e.name == name with
      | some e => .ok (e.ino, e.type)
      | none => .error .enoent := by
  rw [answer, lookupIn]
  cases l.find? fun e => e.name == name <;> rfl

lemma reads (h : Directory g v dino) : Reads g dino v (lookupIn (dirEntries g v dino)) where
  lookup name := by
    obtain ⟨v', hv', -⟩ := dirLookup_spec h name
    rw [hv', answer_lookupIn]
  isEmpty := by
    obtain ⟨v', hv', -⟩ := dirIsEmpty_spec h
    refine ⟨_, by rw [hv'], ?_⟩
    simp only [all_eq_true, isDots, Bool.or_eq_true, beq_iff_eq]
    constructor
    · intro hall name hname
      by_contra hdots
      refine hname (lookupIn_eq_none.2 fun e he heq => hdots ?_)
      exact heq ▸ hall e he
    · intro hall e he
      exact hall e.name fun hnone => lookupIn_eq_none.1 hnone e he rfl
  nth := by
    refine ⟨dirEntries g v dino, h.distinct, fun i => ?_, fun name x => lookupIn_eq_some h.distinct⟩
    obtain ⟨v', hv', -⟩ := dirNth_spec h i
    rw [hv']

lemma exec_refines {op : DirOp} (h : Directory g v dino) (hop : op.Proper g dino v) :
    Directory g (op.exec g dino v).1 dino ∧ op.Refines (lookupIn (dirEntries g v dino))
    (op.exec g dino v).1.dry
        (lookupIn (dirEntries g (op.exec g dino v).1 dino)) (op.exec g dino v).2 := by
  cases op with
  | add e =>
    obtain ⟨hname, hino, hnew, hsize⟩ := hop
    rcases dirAdd_spec h hname hino hnew hsize with ⟨v', E1, E2, hv', hE, hE', hdir, -⟩ | ⟨v', hv',
      hd, hdir, hE⟩
    · simp only [exec, hv', Refines]
      rw [hE] at hnew
      exact ⟨hdir, by rw [hE', hE, lookupIn_insert hnew]⟩
    · simp only [exec, hv', Refines]
      exact ⟨hdir, trivial, hd, by rw [hE]⟩
  | del name =>
    rcases dirDel_spec h name with ⟨v', E1, e, E2, hv', rfl, hE, hE', hdir, -⟩ | ⟨v',
      hv', himg, hnone⟩
    · have hd := h.distinct
      rw [hE] at hd
      have hfound : lookupIn (E1 ++ e :: E2) e.name = some (e.ino, e.type) :=
        (lookupIn_eq_some hd).2 ⟨e, by simp, rfl, rfl⟩
      simp only [exec, hv', Refines, hE, hE', answer, hfound]
      exact ⟨hdir, rfl, lookupIn_remove hd⟩
    · have hnone' : lookupIn (dirEntries g v dino) name = none := lookupIn_eq_none.2 hnone
      have hcongr := h.of_image himg
      simp only [exec, hv', Refines, hcongr.2, answer, hnone']
      exact ⟨hcongr.1, rfl, by rw [← hnone', update_eq_self]⟩
  | lookup name =>
    obtain ⟨v', hv', himg⟩ := dirLookup_spec h name
    have hcongr := h.of_image himg
    simp only [exec, hv', Refines, hcongr.2, answer_lookupIn]
    exact ⟨hcongr.1, trivial, trivial⟩

/-- **A directory refines a finite map**, over every sequence of calls. -/
theorem directory_refines {ops : List DirOp} (h : Directory g v dino)
    (hops : AllProper g dino ops v) :
    Simulates g dino ops v (lookupIn (dirEntries g v dino)) := by
  induction ops generalizing v with
  | nil => exact ⟨h, reads h⟩
  | cons op ops ih =>
    obtain ⟨hdir, href⟩ := exec_refines h hops.1
    exact ⟨h, reads h, _, href, ih hdir hops.2⟩

/-! ### A slot that is not a multiple of four bytes -/

/-- The chain covers the block and every name is inside its slot, with no room for the rounding up
of `de_len`. -/
def LooseTiles (c : Bytes) : Nat → List Nat → Nat → Prop
  | a, [], b => a = b
  | a, p :: l, b => p = a ∧ 8 ≤ recLen c a ∧ (inoAt c a ≠ 0 → 8 + nameLen c a ≤ recLen c a) ∧
      LooseTiles c (a + recLen c a) l b

/-- `"."` in twelve bytes, `"a"` in nine or twelve, and the rest free. -/
def dotAndA (short : Bool) : Bytes := fun i =>
  (([12, 0, 0, 0, 12, 0, 1, 2, 46, 0, 0, 0] : List UInt8) ++
    (if short then [13, 0, 0, 0, 9, 0, 1, 1, 97, 0, 0, 0, 0, 0xEB, 3]
      else [13, 0, 0, 0, 12, 0, 1, 1, 97, 0, 0, 0, 0, 0, 0, 0, 0xE8, 3])).getD i 0

def dirVol (short : Bool) : Vol :=
  { small with
    data := fun b => if b = 40 then dotAndA short else Bytes.zero
    inode := fun ino => if ino = 12 then ⟨.dir, 2, 1024, 2, 0,
      fun s => if s = 0 then 40 else 0⟩ else .clear }

lemma dirVol_roots (short : Bool) (r : Nat × Nat) :
    rootOf (dirVol short).inode r = if r = (12, 0) then 40 else 0 := by
  obtain ⟨ino, s⟩ := r
  simp only [rootOf, dirVol, Prod.mk.injEq]
  by_cases hino : ino = 12
  · by_cases hs : s = 0 <;> simp [hino, hs, hasMap, fastSymlink, isDevice]
  · simp [hino, clear]

lemma dirVol_owned (short : Bool) : Owned oneGroup (dirVol short) (rootOf (dirVol short).inode) :=
  owned_of_single (dirVol_roots short) ⟨rfl, by decide, by decide⟩ small_metaTaken

/-- **A name is lost in a slot of nine bytes.**  `de_len` asks for twelve, `rec - used` wraps, and
what is linked there ends the chain: `dir_add` returns `0` and `dir_lookup` does not find the name.
-/
theorem dirAdd_short_slot : Owned oneGroup (dirVol true) (rootOf (dirVol true).inode) ∧
      ((dirVol true).inode 12).kind = .dir ∧ ((dirVol true).inode 12).size = 1024 ∧
      LooseTiles ((dirVol true).contents oneGroup (rootOf (dirVol true).inode) 12 0) 0 [0,
      12, 21] 1024 ∧
      dirEntries oneGroup (dirVol true) 12 = [⟨[46], 12, 2⟩, ⟨[97], 13, 1⟩] ∧
      ((dirVol true).dirAdd oneGroup 12 ⟨[98], 14, 1⟩).2 = .ok () ∧
      (((dirVol true).dirAdd oneGroup 12 ⟨[98], 14, 1⟩).1.dirLookup oneGroup 12 [98]).2 =
      .error .enoent := by
  refine ⟨dirVol_owned true, rfl, rfl, ?_, by decide +kernel, by decide +kernel, by decide +kernel⟩
  simp only [LooseTiles]
  decide +kernel

lemma dirVol_directory : Directory oneGroup (dirVol false) 12 where
  owned := dirVol_owned false
  number := by decide
  dir := rfl
  size := by decide
  aligned := rfl
  mapped := by decide +kernel
  tiled k hk := by
    obtain rfl : k = 0 := Nat.lt_one_iff.1 hk
    refine ⟨[0, 12, 24], ?_⟩
    simp only [Tiles]
    decide +kernel
  distinct := by decide +kernel

/-- The same directory with a slot of twelve bytes. -/
theorem directory_refines_dotAndA : Simulates oneGroup 12 [add ⟨[98], 14, 1⟩, del [97], lookup [98]]
    (dirVol false)
      (lookupIn (dirEntries oneGroup (dirVol false) 12)) := by
  refine directory_refines dirVol_directory ?_
  simp only [AllProper, Proper]
  decide +kernel

end DirOp

end Sage040.Fs
