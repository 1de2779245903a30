import Sage040.Fs.Ext2.Seen
import Sage040.Fs.Jail

/-!
# A chroot is a jail

A volume whose directories are a tree (`Hierarchy`) shows that tree to a walk (`Hierarchy.shows`),
so that what `Jail.lean` says of walks holds of `path_walk`, `path_resolve_nofollow` and
`path_resolve` on the volume: `chroot_jail`. The path that `ext2_dir_path` finds for a directory
leads back to it, up to 64 names and 1023 bytes. A directory further down has none, although a walk
may well come to it: `deep_unnamed`.
-/

namespace Sage040.Fs

open Function Exits Vol Except List Prod

namespace Vol

variable (g : Geometry)

def IsDir (v : Vol) (d : Nat) : Prop := (d ≠ 0 ∧ d ≤ g.inodesCount) ∧ (v.inode d).kind = .dir
  deriving Decidable

/-- **The directories of a volume are a tree.** -/
structure Hierarchy (v : Vol) (rank : Nat → Nat) : Prop where
  directory : ∀ d, IsDir g v d → Directory g v d
  names : ∀ d, IsDir g v d → ∀ e ∈ dirEntries g v d, e.name ≠ [] ∧ slash ∉ e.name ∧ 0 ∉ e.name
  dot : ∀ d, IsDir g v d → ∀ e ∈ dirEntries g v d, e.name = Fs.dot → e.ino = d
  /-- `".."` is the parent. -/
  up : ∀ d, IsDir g v d → ∀ e ∈ dirEntries g v d, Plain e.name → IsDir g v e.ino →
    ∃ e' ∈ dirEntries g v e.ino, e'.name = dotdot ∧ e'.ino = d
  /-- A directory has one name. -/
  only : ∀ d, IsDir g v d → ∀ e ∈ dirEntries g v d, ∀ e' ∈ dirEntries g v d, Plain e.name →
    Plain e'.name →
    IsDir g v e.ino → e.ino = e'.ino → e.name = e'.name
  /-- It is one step further down than its parent. -/
  rank : ∀ d, IsDir g v d → ∀ e ∈ dirEntries g v d, Plain e.name → IsDir g v e.ino →
    rank e.ino = rank d + 1
  type : ∀ d, IsDir g v d → ∀ e ∈ dirEntries g v d, Plain e.name → IsDir g v e.ino →
    e.type = ftDir ∨ e.type = ftUnknown

def tree (v : Vol) : Tree where
  look d n :=
    match v.iread g d with
    | .error e => .error e
    | .ok di =>
      if di.kind ≠ .dir then .error .enotdir else DirOp.answer (lookupIn (dirEntries g v d)) n
  kind ino := (v.iread g ino).map Einode.kind

variable {g} {v w : Vol} {rank : Nat → Nat} {d ino : Nat} {n : Name} {x : Nat × UInt8}

lemma iread_ok_iff : (∃ ei, v.iread g ino = .ok ei) ↔ ino ≠ 0 ∧ ino ≤ g.inodesCount := by
  rw [iread]
  split
  · constructor
    · rintro ⟨ei, hei⟩
      contradiction
    · omega
  · exact ⟨fun _ => by omega, fun _ => ⟨_, rfl⟩⟩

lemma tree_kind : (v.tree g).kind ino = .ok .dir ↔ IsDir g v ino := by
  simp only [tree, Vol.iread, IsDir]
  split
  · simp only [Except.map, reduceCtorEq, false_iff]
    omega
  simp only [Except.map, Except.ok.injEq]
  constructor
  · exact fun hkind => ⟨by omega, hkind⟩
  · exact fun hdir => hdir.2

lemma tree_look (hd : IsDir g v d) : (v.tree g).look d n =
    DirOp.answer (lookupIn (dirEntries g v d)) n := by
  have hread : v.iread g d = .ok (v.inode d) := if_neg (by have := hd.1; omega)
  simp only [tree, hread]
  exact if_neg (not_not.2 hd.2)

lemma isDir_of_look (h : (v.tree g).look d n = .ok x) : IsDir g v d := by
  simp only [tree, iread] at h
  split at h
  · contradiction
  · next ei hei =>
    split at hei
    · contradiction
    obtain rfl := ok.inj hei
    split at h
    · contradiction
    · next hnum hkind => exact ⟨by omega, not_not.1 hkind⟩

lemma entry_of_look (hv : Hierarchy g v rank) (h : (v.tree g).look d n = .ok x) :
    ∃ e ∈ dirEntries g v d, e.name = n ∧ (e.ino, e.type) = x := by
  have hd := isDir_of_look h
  rw [tree_look hd, DirOp.answer] at h
  split at h
  · next y hy =>
    obtain rfl := ok.inj h
    exact (DirOp.lookupIn_eq_some (hv.directory d hd).distinct).1 hy
  · contradiction

lemma look_of_entry (hv : Hierarchy g v rank) (hd : IsDir g v d) {e : Dirent}
    (he : e ∈ dirEntries g v d) :
    (v.tree g).look d e.name = .ok (e.ino, e.type) := by
  have hsome := (DirOp.lookupIn_eq_some (hv.directory d hd).distinct).2 ⟨e, he, rfl, rfl⟩
  rw [tree_look hd, DirOp.answer, hsome]

lemma name_length {e : Dirent} (h : e ∈ dirEntries g v d) : e.name.length ≤ nameMax := by
  obtain ⟨k, -, he⟩ := mem_flatMap.1 h
  obtain ⟨p, -, hlive⟩ := mem_filterMap.1 he
  rw [liveAt] at hlive
  split at hlive
  · contradiction
  obtain rfl := Option.some.inj hlive
  rw [direntAt, nameAt, length_map, length_range]
  exact nameLen_le _ p

lemma Hierarchy.sound (hv : Hierarchy g v rank) : (v.tree g).Sound rank where
  dir h := tree_kind.2 (isDir_of_look h)
  dot h := by
    obtain ⟨e, he, hname, heq⟩ := entry_of_look hv h
    rw [← hv.dot _ (isDir_of_look h) e he hname]
    exact (congrArg Prod.fst heq).symm
  up hn h hc := by
    obtain ⟨e, he, rfl, heq⟩ := entry_of_look hv h
    obtain ⟨rfl, rfl⟩ := Prod.mk.inj heq
    have hc := tree_kind.1 hc
    obtain ⟨e', he', hname, rfl⟩ := hv.up _ (isDir_of_look h) e he hn hc
    have hlook := look_of_entry hv hc he'
    rw [hname] at hlook
    exact ⟨e'.type, hlook⟩
  only hn hn' h h' hc := by
    obtain ⟨e, he, rfl, heq⟩ := entry_of_look hv h
    obtain ⟨e', he', rfl, heq'⟩ := entry_of_look hv h'
    obtain ⟨rfl, rfl⟩ := Prod.mk.inj heq
    exact hv.only _ (isDir_of_look h) e he e' he' hn hn' (tree_kind.1 hc)
      (congrArg Prod.fst heq').symm
  rank hn h hc := by
    obtain ⟨e, he, rfl, heq⟩ := entry_of_look hv h
    obtain ⟨rfl, rfl⟩ := Prod.mk.inj heq
    exact hv.rank _ (isDir_of_look h) e he hn (tree_kind.1 hc)
  name h := by
    obtain ⟨e, he, rfl, -⟩ := entry_of_look hv h
    obtain ⟨hne, hslash, -⟩ := hv.names _ (isDir_of_look h) e he
    exact ⟨hne, hslash, name_length he⟩
  type hn h hc := by
    obtain ⟨e, he, rfl, heq⟩ := entry_of_look hv h
    obtain ⟨rfl, rfl⟩ := Prod.mk.inj heq
    exact hv.type _ (isDir_of_look h) e he hn (tree_kind.1 hc)

/-! ## What is looked at -/

lemma slotsFrom_length (size : Nat) (c : Bytes) (fuel p : Nat) :
    (slotsFrom size c fuel p).length ≤ fuel := by
  induction fuel generalizing p with
  | zero => exact Nat.le_refl 0
  | succ fuel ih =>
    rw [slotsFrom]
    split
    · split
      · exact Nat.zero_le _
      · exact Nat.succ_le_succ (ih _)
    · exact Nat.zero_le _

lemma dirEntries_length (v d) : (Vol.dirEntries g v d).length ≤ (v.inode d).size / g.blockSize *
    g.blockSize := by
  have hblock : ∀ c, (blockEntries g c).length ≤ g.blockSize := fun c =>
    (length_filterMap_le _ _).trans (slotsFrom_length ..)
  rw [dirEntries, entriesBefore]
  induction (v.inode d).size / g.blockSize with
  | zero => exact Nat.zero_le _
  | succ k ih =>
    rw [range_succ, flatMap_append, length_append, flatMap_singleton, Nat.succ_mul]
    have hlast := hblock (v.contents g (rootOf v.inode) d k)
    omega

end Vol

namespace Ext2

open Vol

variable {g : Geometry} {v w : Vol} {rank : Nat → Nat}

lemma isDots_eq_false {n} : isDots n = false ↔ Plain n := by
  simp [isDots, Plain, Fs.dot, dotdot]

/-- The names of a directory are looked through from `i` on. -/
lemma nameInLoop_spec (hv : Hierarchy g v rank) {d} (hd : IsDir g v d) (c fuel i : Nat)
    (hfuel : (Vol.dirEntries g v d).length < i + fuel) (hw : Seen g v w) {e : Dirent}
    (he : e ∈ (Vol.dirEntries g v d).drop i) (hino : e.ino = c) (hplain : Plain e.name) :
    Ends (nameInLoop g d c fuel i) w fun w' r => Seen g v w' ∧
      ∃ e' ∈ Vol.dirEntries g v d, r = .ok e'.name ∧ e'.ino = c ∧ Plain e'.name := by
  have hlt : i < (dirEntries g v d).length := by
    have hlen := length_pos_of_mem he
    rw [length_drop] at hlen
    omega
  induction fuel generalizing i w with
  | zero => omega
  | succ fuel ih =>
    obtain ⟨hdir, hsame⟩ := (hv.directory d hd).of_image hw.image
    have hnth : (w.dirNth g d i).2 = .ok (dirEntries g v d)[i] := by
      obtain ⟨w', hw', -⟩ := dirNth_spec hdir i
      rw [hw', hsame, getElem?_eq_getElem hlt]
    have hread : Ends (attempt (dirNth g d i)) w fun w' r => Seen g v w' ∧
        r = .ok (.ok (dirEntries g v d)[i]) := by
      rw [ends_attempt, dirNth, ends_lift, hnth]
      exact ⟨(hw.dirNth hw d i).1, rfl⟩
    rw [nameInLoop]
    refine hread.bind (fun w' r hr => ?_) fun w' e he => ?_
    · obtain rfl := ok.inj hr.2
      refine .ite (fun hfound => ?_) fun hother => ?_
      · exact ⟨hr.1, _, getElem_mem hlt, rfl, hfound.1, isDots_eq_false.1 hfound.2⟩
      rw [drop_eq_getElem_cons hlt, mem_cons] at he
      rcases he with rfl | he
      · exact absurd ⟨hino, isDots_eq_false.2 hplain⟩ hother
      have hlt' : i + 1 < (dirEntries g v d).length := by
        have hlen := length_pos_of_mem he
        rw [length_drop] at hlen
        omega
      exact ih (i + 1) (by omega) hr.1 he hlt'
    · have herr := he.2
      contradiction

lemma shows (hv : Hierarchy g v rank) : (walker g).Shows (Seen g v) (v.tree g) where
  lookup w hw d n := by
    refine ends_lift.2 ⟨hw.dirLookup, ?_⟩
    have hread : w.iread g d = v.iread g d := by rw [Vol.iread, Vol.iread, hw.inode]
    by_cases hd : IsDir g v d
    · obtain ⟨hdir, hsame⟩ := (hv.directory d hd).of_image hw.image
      obtain ⟨w', hw', -⟩ := dirLookup_spec hdir n
      rw [hw', hsame, tree_look hd, DirOp.answer_lookupIn]
    simp only [Vol.dirLookup, Vol.tree, hread]
    rcases hei : v.iread g d with e | ei
    · rfl
    have hkind : ei.kind ≠ .dir := by
      intro hkind
      have hnum := iread_ok_iff.1 ⟨ei, hei⟩
      rw [Vol.iread, if_neg (by omega)] at hei
      obtain rfl := Except.ok.inj hei
      exact hd ⟨hnum, hkind⟩
    dsimp only
    rw [if_pos hkind, if_pos hkind]
  kind w hw ino := by
    have hread : Ends (iread g ino) w fun w' r => Seen g v w' ∧ r = v.iread g ino := by
      rw [iread, ends_lift]
      have hsame : w.iread g ino = v.iread g ino := by rw [Vol.iread, Vol.iread, hw.inode]
      rw [hsame]
      rcases v.iread g ino with e | ei
      · exact ⟨hw, rfl⟩
      · exact ⟨hw.touch, rfl⟩
    refine hread.bind (fun w' ei hei => ?_) fun w' e he => ?_
    · refine ⟨hei.1, ?_⟩
      simp only [Vol.tree, ← hei.2]
      rfl
    refine ⟨he.1, ?_⟩
    simp only [Vol.tree, ← he.2]
    rfl
  readLink := (keeps_walker g v).readLink
  nameIn w hw d n c ty hn hlook := by
    have hd := isDir_of_look hlook
    obtain ⟨e, he, rfl, heq⟩ := entry_of_look hv hlook
    obtain ⟨rfl, rfl⟩ := mk.inj heq
    have hlen := dirEntries_length (g := g) v d
    have hfuel : (Vol.dirEntries g v d).length < 0 + (dirBlocks g (w.inode d) * g.blockSize + 1) :=
        by
      rw [hw.inode, dirBlocks_eq (hv.directory d hd).aligned]
      omega
    have hloop := nameInLoop_spec hv hd e.ino _ 0 hfuel hw he rfl hn
    refine Ends.bind (R := fun w' r => w' = w ∧ r = .ok w) (ends_get.2 ⟨rfl, rfl⟩)
      (fun w' a ha => ?_) fun w' a ha => ?_
    · obtain ⟨rfl, ha⟩ := ha
      obtain rfl := Except.ok.inj ha
      refine hloop.mono fun w' r hr => ⟨hr.1, ?_⟩
      obtain ⟨-, e', he', rfl, hino, hplain⟩ := hr
      have hlook' := look_of_entry hv hd he'
      rw [hino] at hlook'
      exact ⟨e'.name, e'.type, rfl, hplain, hlook'⟩
    · have herr := ha.2
      contradiction
  keeps := (keeps_walker g v).nameIn

/-! ## The jail -/

section Jail

variable (g)

/-- An inode that one of the three functions returns. -/
def Returns (v : Vol) (t : Task) (path : List UInt8) (x : Nat) : Prop :=
  (∃ last, (finish (pathWalk (walker g) t path) v).2 = .ok (x, last)) ∨
    (finish (pathResolveNofollow (walker g) t path) v).2 = .ok x ∨
    (finish (pathResolve (walker g) t symlinkMaxDepth path) v).2 = .ok x

/-- `ext2_dir_path` has a path for the directory, which leads back to it. -/
def Named (v : Vol) (t : Task) (x : Nat) : Prop :=
  ∃ p, (finish (dirPath (walker g) t x) v).2 = .ok p ∧
    (finish (pathResolve (walker g) t symlinkMaxDepth p) v).2 = .ok x

/-- Below the task's root, it is 64 names and 1023 bytes down at the most. -/
def Shallow (v : Vol) (t : Task) (x : Nat) : Prop :=
  ∃ l, (v.tree g).Descends t.root l x ∧ l.length ≤ 64 ∧ (joinPath l).length ≤ 1023

variable {g}

/-- **A chroot is a jail, and the directories in it have names** down to where there is room for
them. -/
theorem chroot_jail (hv : Hierarchy g v rank) (t : Task) (hcwd : (v.tree g).Below t.root t.cwd)
    (path : List UInt8)
    (x : Nat) (hx : Returns g v t path x) :
    (v.tree g).Below t.root x ∧ (IsDir g v x → (Named g v t x ↔ Shallow g v t x)) := by
  have hs := shows hv
  have hT := hv.sound
  have hv₀ := Seen.refl g v
  have hbelow : (v.tree g).Below t.root x := by
    rcases hx with ⟨last, hx⟩ | hx | hx
    · exact ((hs.pathWalk_within hT hcwd path hv₀).2 _ hx).1
    · exact (hs.resolveNofollow_within hT hcwd path hv₀).2 _ hx
    · exact (hs.resolve_within hT hcwd _ path hv₀).2 _ hx
  refine ⟨hbelow, fun hdir => ?_⟩
  obtain ⟨l, hl⟩ := hbelow
  have hkind := tree_kind.2 hdir
  obtain ⟨-, hroom, hfull⟩ := hs.dirPath_named hT hv₀ hl hkind
  constructor
  · rintro ⟨p, hp, -⟩
    by_contra hdeep
    obtain ⟨e, he⟩ := hfull fun hand => hdeep ⟨l, hl, hand⟩
    rw [hp] at he
    contradiction
  · rintro ⟨l', hl', hshallow⟩
    obtain rfl := hT.descends_unique hl hl' hkind
    obtain ⟨p, hp, hback⟩ := hroom hshallow
    exact ⟨p, hp, (hback v hv₀ symlinkMaxDepth).2⟩

end Jail

/-! ### Four directories with long names -/

/-- A directory's block: `"."`, `".."` and, but for `child = 0`, a name of 255 bytes. -/
def deepBlock (self parent child : UInt8) : Bytes := fun i =>
  if i < 32 then
    (([self, 0, 0, 0, 12, 0, 1, 2, 46, 0, 0, 0, parent, 0, 0, 0] : List UInt8) ++
      (if child = 0 then [0xF4, 3, 2, 2, 46, 46, 0, 0]
        else [12, 0, 2, 2, 46, 46, 0, 0, child, 0, 0, 0, 0xE8, 3, 255, 2])).getD i 0
  else if child ≠ 0 ∧ i < 287 then 97 else 0

/-- The directories `2`, `12`, `13`, `14` and `15`, each in the one before it. -/
def deepVol : Vol :=
  { small with
    bit := fun b => decide (b < 7) || decide (40 ≤ b ∧ b ≤ 44)
    data := fun b =>
      if b = 40 then deepBlock 2 2 12
      else if b = 41 then deepBlock 12 2 13
      else if b = 42 then deepBlock 13 12 14
      else if b = 43 then deepBlock 14 13 15
      else if b = 44 then deepBlock 15 14 0
      else Bytes.zero
    inode := fun ino =>
      if ino = 2 then ⟨.dir, 2, 1024, 2, 0, fun s => if s = 0 then 40 else 0⟩
      else if 12 ≤ ino ∧ ino ≤ 15 then ⟨.dir, 2, 1024, 2, 0, fun s => if s = 0 then ino + 29 else 0⟩
      else .clear }

def deepRank (ino : Nat) : Nat := ino - 11

def longName : Name := List.replicate 255 97

instance (n : Name) : Decidable (Plain n) := inferInstanceAs (Decidable (n ≠ Fs.dot ∧ n ≠ dotdot))

instance decidableTiles (c : Bytes) : ∀ a l b, Decidable (Tiles c a l b)
  | a, [], b => inferInstanceAs (Decidable (a = b))
  | a, p :: l, b =>
    have := decidableTiles c (a + recLen c a) l b
    inferInstanceAs (Decidable (p = a ∧ 8 ≤ recLen c a ∧
      (inoAt c a ≠ 0 → deLen (nameLen c a) ≤ recLen c a) ∧ _))

/-- What is to be checked of a small volume: its directories are `ds`, each of one block. -/
structure Checks (v : Vol) (rank : Nat → Nat) (ds : List Nat) : Prop where
  bits : ∀ b, small.bit b = true → v.bit b = true
  clear : ∀ ino, 17 ≤ ino → v.inode ino = .clear
  dirs : ∀ d < 17, IsDir oneGroup v d → d ∈ ds
  roots : ∀ ino < 17, ∀ s < 15, rootOf v.inode (ino, s) = 0 ∨ s = 0 ∧ ino ∈ ds
  blocks : ∀ d ∈ ds, (v.bit (rootOf v.inode (d, 0)) = true ∧
    oneGroup.Inside (rootOf v.inode (d, 0)) ∧
      ¬oneGroup.Meta (rootOf v.inode (d, 0))) ∧
    ∀ d' ∈ ds, rootOf v.inode (d, 0) = rootOf v.inode (d', 0) → d = d'
  size : ∀ d ∈ ds, (v.inode d).size = 1024 ∧ v.leaf oneGroup (rootOf v.inode) d 0 ≠ 0
  tiled : ∀ d ∈ ds, ∃ l ∈ [[0, 12], [0, 12, 24], [0, 12, 24, 36]],
    Tiles (v.contents oneGroup (rootOf v.inode) d 0) 0 l 1024
  distinct : ∀ d ∈ ds, ((dirEntries oneGroup v d).map Dirent.name).Nodup
  names : ∀ d ∈ ds, ∀ e ∈ dirEntries oneGroup v d,
    (e.name ≠ [] ∧ slash ∉ e.name ∧ 0 ∉ e.name) ∧ (e.name = Fs.dot → e.ino = d)
  up : ∀ d ∈ ds, ∀ e ∈ dirEntries oneGroup v d, Plain e.name → IsDir oneGroup v e.ino →
    (∃ e' ∈ dirEntries oneGroup v e.ino, e'.name = dotdot ∧ e'.ino = d) ∧ rank e.ino = rank d + 1 ∧
      e.type = ftDir
  only : ∀ d ∈ ds, ∀ e ∈ dirEntries oneGroup v d, ∀ e' ∈ dirEntries oneGroup v d,
    Plain e.name → Plain e'.name → e.ino = e'.ino → e.name = e'.name

variable {rank : Nat → Nat} {ds : List Nat} {v : Vol}

lemma Checks.mem (h : Checks v rank ds) {d} (hd : IsDir oneGroup v d) : d ∈ ds := by
  have hle : d ≤ 16 := hd.1.2
  exact h.dirs d (by omega) hd

lemma Checks.owned (h : Checks v rank ds) : Owned oneGroup v (rootOf v.inode) := by
  have hroot : ∀ r, rootOf v.inode r ≠ 0 → r.2 = 0 ∧ r.1 ∈ ds := by
    rintro ⟨ino, s⟩ hr
    have hs : s < 15 := by
      by_contra hge
      exact hr (if_neg fun hlt => hge hlt.2)
    by_cases hino : ino < 17
    · exact (h.roots ino hino s hs).resolve_left hr
    rw [rootOf, h.clear ino (Nat.le_of_not_lt hino)] at hr
    exact absurd (ite_self 0) hr
  refine owned_of_direct (fun r hr => ?_) (fun r r' hr heq => ?_) fun b hb => h.bits b
    (small_metaTaken b hb)
  · obtain ⟨hs, hd⟩ := hroot r hr
    refine ⟨by omega, ?_⟩
    rw [show r = (r.1, 0) from Prod.ext rfl hs]
    exact (h.blocks r.1 hd).1
  obtain ⟨hs, hd⟩ := hroot r hr
  obtain ⟨hs', hd'⟩ := hroot r' (heq ▸ hr)
  rw [show r = (r.1, 0) from Prod.ext rfl hs, show r' = (r'.1, 0) from Prod.ext rfl hs'] at heq ⊢
  rw [(h.blocks r.1 hd).2 r'.1 hd' heq]

lemma Checks.hierarchy (h : Checks v rank ds) : Hierarchy oneGroup v rank where
  directory d hd := by
    obtain ⟨hsize, hleaf⟩ := h.size d (h.mem hd)
    have hone : ∀ k < (v.inode d).size / oneGroup.blockSize, k = 0 := fun k hk => by
      rw [hsize] at hk
      exact Nat.lt_one_iff.1 hk
    refine ⟨h.owned, hd.1, hd.2,
      by rw [hsize]; decide, by rw [hsize]; rfl, fun k hk => ?_, fun k hk => ?_,
      h.distinct d (h.mem hd)⟩
    · rw [hone k hk]
      exact hleaf
    rw [hone k hk]
    obtain ⟨l, -, hl⟩ := h.tiled d (h.mem hd)
    exact ⟨l, hl⟩
  names d hd e he := (h.names d (h.mem hd) e he).1
  dot d hd e he := (h.names d (h.mem hd) e he).2
  up d hd e he hp hdir := (h.up d (h.mem hd) e he hp hdir).1
  only d hd e he e' he' hp hp' _ := h.only d (h.mem hd) e he e' he' hp hp'
  rank d hd e he hp hdir := (h.up d (h.mem hd) e he hp hdir).2.1
  type d hd e he hp hdir := .inl (h.up d (h.mem hd) e he hp hdir).2.2

lemma deep_checks : Checks deepVol deepRank [2, 12, 13, 14, 15] where
  bits b hb := by
    simp only [small, Bool.or_eq_true, decide_eq_true_eq, beq_iff_eq] at hb
    simp only [deepVol, Bool.or_eq_true, decide_eq_true_eq]
    omega
  clear ino hino := by
    simp only [deepVol]
    rw [if_neg (by omega), if_neg (by omega)]
  dirs := by decide +kernel
  roots := by decide +kernel
  blocks := by decide +kernel
  size := by decide +kernel
  tiled := by decide +kernel
  distinct := by decide +kernel
  names := by decide +kernel
  up := by decide +kernel
  only := by decide +kernel

lemma deep_hierarchy : Hierarchy oneGroup deepVol deepRank := deep_checks.hierarchy

lemma deep_descends : (deepVol.tree oneGroup).Descends 2 [longName, longName] 13 := by
  have hlook : (deepVol.tree oneGroup).look 2 longName = .ok (12, 2) ∧
      (deepVol.tree oneGroup).look 12 longName = .ok (13, 2) := by decide +kernel
  have hplain : Plain longName := by decide
  exact ⟨12, 2, hplain, hlook.1, 13, 2, hplain, hlook.2, rfl⟩

theorem chroot_jail_deep : (deepVol.tree oneGroup).Below 2 13 ∧
    Named oneGroup deepVol ⟨2, 2⟩ 13 := by
  have hreturns : Returns oneGroup deepVol ⟨2, 2⟩ (joinPath [longName, longName]) 13 :=
    .inr (.inr (by decide +kernel))
  have hjail := chroot_jail deep_hierarchy ⟨2, 2⟩ (.refl _ 2) _ 13 hreturns
  have hshallow : Shallow oneGroup deepVol ⟨2, 2⟩ 13 :=
    ⟨_, deep_descends, by decide, by decide +kernel⟩
  exact ⟨hjail.1, (hjail.2 (by decide +kernel)).2 hshallow⟩

/-- **The fourth directory down has no path**: `ext2_dir_path` answers `ERANGE`. -/
theorem deep_unnamed : Hierarchy oneGroup deepVol deepRank ∧ (deepVol.tree oneGroup).Below 2 13 ∧
      Returns oneGroup deepVol ⟨13, 2⟩ (longName ++ slash :: longName) 15 ∧
      IsDir oneGroup deepVol 15 ∧
      ¬Named oneGroup deepVol ⟨13, 2⟩ 15 := by
  refine ⟨deep_hierarchy, ⟨_, deep_descends⟩, .inr (.inr (by decide +kernel)),
    by decide +kernel, ?_⟩
  rintro ⟨p, hp, -⟩
  have herr : (finish (dirPath (walker oneGroup) ⟨13, 2⟩ 15) deepVol).2 = .error .erange := by
    decide +kernel
  rw [herr] at hp
  contradiction

end Ext2

end Sage040.Fs
