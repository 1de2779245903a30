import Sage040.Fs.Ext2.Enter
import Sage040.Vfs.Perm

/-!
# Names are made where the caller may write

The calls that make a name, with what the VFS asks before them and up to the name's being there. The
VFS asks for the directory that a path names an entry in, by the path with its last component cut
off. The file system puts the name where `path_walk` and the links have led it.

* `made_iff`: that the directory with the new name grants writing and searching, whatever the owners
and modes of the tree are, comes down to the question whether it is the one that was asked for. It
  is, if the last component of the path is no symbolic link.
* `made_elsewhere`: with a link to a name that is not there yet, it is not.
-/

namespace Sage040.Vfs

open Exits Fs Fs.Ext2 Fs.Vol List

/-- The calls that make a name. -/
inductive Creating
  | openFile (fl : Flags) (path : List UInt8)
  | mkdir (path : List UInt8)
  | mknodFile (path : List UInt8)
  | mknodFifo (path : List UInt8)
  | symlink (target linkpath : List UInt8)
  | link (source dest : List UInt8)
  | rename (source dest : List UInt8)

/-- `O_CREAT | O_EXCL | O_WRONLY`. -/
def mknodFlags : Flags := ⟨⟨true, true, true, false, false, false⟩, false, false⟩

section Calls

variable (g : Geometry) (env : Env) (swap : Option (Nat → Bool)) (who : Who)

/-- `fd_open_mode_raw`, up to the name that it makes, if it makes one. -/
def openMakes (fl : Flags) (path : List UInt8) : Io (Option (Nat × Name)) := do
  match ← openDoor (walker g) env.toTask who swap fl path with
  | .file _ => do
    let r ← openEnter g env fl.toOpenFlags 8 path
    pure r.1
  | _ => pure none

/-- Where a name was entered. -/
def placed (m : Io Entered) : Io (Option (Nat × Name)) := do
  let e ← m
  pure (some (e.dir, e.name))

/-- The name that a call makes, and in which directory. -/
def Creating.makes : Creating → Io (Option (Nat × Name))
  | .openFile fl path => openMakes g env swap who fl path
  | .mkdir path =>
    vfsMkdir (walker g) env.toTask who path (placed (makeEnter g env path .dir ftDir))
  | .mknodFile path => openMakes g env swap who mknodFlags path
  | .mknodFifo path =>
    vfsMake (walker g) env.toTask who path (placed (makeEnter g env path .fifo ftFifo))
  | .symlink target linkpath =>
    vfsMake (walker g) env.toTask who linkpath (if target.length = 0 then throw .enoent
      else if pathMax - 1 < target.length then throw .enametoolong
      else placed (makeEnter g env linkpath .lnk ftSymlink))
  | .link source dest =>
    vfsLink (walker g) env.toTask who source dest (placed (linkEnter g env source dest))
  | .rename source dest => vfsRename (walker g) env.toTask who swap source dest (do
      let r ← renameEnter g env source dest
      pure (r.map fun e => (e.1.dir, e.1.name)))

/-- The path that the name is made at. -/
def Creating.path : Creating → List UInt8
  | .openFile _ path => path
  | .mkdir path => path
  | .mknodFile path => path
  | .mknodFifo path => path
  | .symlink _ linkpath => linkpath
  | .link _ dest => dest
  | .rename _ dest => dest

/-- The paths that are given. -/
def Creating.asked : Creating → List (List UInt8)
  | .rename source dest => [source, dest]
  | c => [c.path]

/-- The call makes the name `p.2` in the directory `p.1`. -/
def Makes (v : Vol) (c : Creating) (p : Nat × Name) : Prop := ∃ v',
    Gives (c.makes g env swap who) v (some p) v'

end Calls

variable {p : Nat × Name}

section Made

variable {g : Geometry} {env : Env} {swap : Option (Nat → Bool)} {v : Vol} {rank : Nat → Nat}

/-- The questions of a call that has made a name. -/
def Creating.questions : Creating → List (List UInt8 × Nat)
  | .mkdir path => parentAsks path xOk ++ parentAsks path wxOk
  | .link source dest => searches source ++ parentAsks dest wxOk
  | .rename source dest => parentAsks source wxOk ++ parentAsks dest wxOk
  | c => parentAsks c.path wxOk

lemma mem_parentAsks (path : List UInt8) (want : Nat) :
    (parentPath path, want) ∈ parentAsks path want :=
  mem_append_right _ (mem_singleton_self _)

lemma Creating.writes_iff (c : Creating) (q : List UInt8 × Nat) :
    q ∈ c.questions ∧ q.2 &&& wOk ≠ 0 ↔ ∃ path ∈ c.asked, q = (parentPath path, wxOk) := by
  have hsearch : ∀ path, q ∈ searches path → ¬q.2 &&& wOk ≠ 0 := by
    intro path hq
    obtain ⟨dir, -, rfl⟩ := mem_map.1 hq
    simp [xOk, wOk]
  have hparent : ∀ path, q ∈ parentAsks path wxOk ∧ q.2 &&& wOk ≠ 0 ↔
      q = (parentPath path, wxOk) := by
    intro path
    constructor
    · rintro ⟨hq, hw⟩
      rcases mem_append.1 hq with hq | hq
      · exact absurd hw (hsearch _ hq)
      · exact mem_singleton.1 hq
    · rintro rfl
      exact ⟨mem_parentAsks path wxOk, by simp [wxOk, wOk, xOk]⟩
  have hlook : ∀ path, ¬(q ∈ parentAsks path xOk ∧ q.2 &&& wOk ≠ 0) := by
    rintro path ⟨hq, hw⟩
    rcases mem_append.1 hq with hq | hq
    · exact absurd hw (hsearch _ hq)
    obtain rfl := mem_singleton.1 hq
    exact absurd hw (by simp [xOk, wOk])
  cases c with
  | mkdir path =>
    simp only [Creating.questions, Creating.asked, Creating.path, mem_append, or_and_right, hparent,
      hlook, false_or,
      mem_singleton, exists_eq_left]
  | link source dest =>
    have hno : ¬(q ∈ searches source ∧ q.2 &&& wOk ≠ 0) := fun hand => hsearch source hand.1 hand.2
    simp only [Creating.questions, Creating.asked, Creating.path, mem_append, or_and_right, hparent,
      hno, false_or,
      mem_singleton, exists_eq_left]
  | rename source dest =>
    simp only [Creating.questions, Creating.asked, mem_append, or_and_right, hparent, mem_cons,
      not_mem_nil, or_false, exists_or, exists_eq_left]
  | _ =>
    simp only [Creating.questions, Creating.asked, Creating.path, hparent, mem_singleton,
      exists_eq_left]

variable (hv : Hierarchy g v rank) (ht : Typed g v) (hcwd : (v.linked g).Below env.root env.cwd)

include hv ht

/-- An `open` that makes a name has asked for its directory. -/
lemma openMakes_gives {who} {fl : Flags} {path : List UInt8} :
    (∃ v', Gives (openMakes g env swap who fl path) v (some p) v') ↔
      ∃ v1 ino v', Gives (openDoor (walker g) env.toTask who swap fl path) v (.file false) v1 ∧
      fl.creat = true ∧
        Gives (openEnter g env fl.toOpenFlags 8 path) v1 (some p, ino) v' := by
  constructor
  · rintro ⟨v', h⟩
    obtain ⟨door, v1, hdoor, h⟩ := gives_bind.1 h
    have hseen : Seen g v v1 :=
      hdoor.of_ends (keeps_openDoor (follows hv) swap fl path who v (Seen.refl g v))
    rcases door with ino | ino | present
    iterate 2
      · have hnone := (gives_pure.1 h).1
        contradiction
    obtain ⟨⟨place, ino⟩, v2, hopen, h⟩ := gives_bind.1 h
    obtain ⟨rfl, rfl⟩ := gives_pure.1 h
    obtain ⟨hcreat, ⟨e, herr⟩, -⟩ := openEnter_found hv ht hseen hopen
    rcases present with _ | _
    · exact ⟨v1, ino, v2, hdoor, hcreat, hopen⟩
    -- what is there is opened and not made
    obtain ⟨st, hstat⟩ := stat_of_present hdoor
    have hend : Ends (vfsStat (walker g) env.toTask path) v fun _ r => ∃ e, r = .error e := by
      refine Ends.bind (R := fun _ r => r = .error e) herr (fun _ _ hok => ?_) fun _
        e' _ => ⟨e', rfl⟩
      contradiction
    obtain ⟨e', he'⟩ := hend
    rw [hstat] at he'
    contradiction
  · rintro ⟨v1, ino, v', hdoor, -, hopen⟩
    exact ⟨v', gives_bind.2 ⟨_, v1, hdoor, gives_bind.2 ⟨_, v', hopen, gives_pure.2 ⟨rfl, rfl⟩⟩⟩⟩

include hcwd

/-- **What is asked is all that stands between a call and the name that it makes.** -/
lemma makes_iff {who} (hwho : who.cred.euid ≠ 0) (c : Creating) (p) : Makes g env swap who v c p ↔
      Makes g env swap anyone v c p ∧ Cleared.All (v.linked g) env.toTask who c.questions := by
  have hf := follows hv
  have hL := truthful hv ht
  have hT := hv.sound
  have hs := Seen.refl g v
  have hopen : ∀ fl path, (∃ v', Gives (openMakes g env swap who fl path) v (some p) v') ↔
      (∃ v', Gives (openMakes g env swap anyone fl path) v (some p) v') ∧
        Cleared.All (v.linked g) env.toTask who (parentAsks path wxOk) := by
    intro fl path
    have hdoor := guarded_openDoor hf hL hT hcwd swap fl path
    rw [openMakes_gives hv ht, openMakes_gives hv ht]
    constructor
    · rintro ⟨v1, ino, v', hgives, hcreat, hthen⟩
      obtain ⟨hgives, hall⟩ := (hdoor.gives hwho hs).1 hgives
      rw [openAsks, if_pos hcreat] at hall
      exact ⟨⟨v1, ino, v', hgives, hcreat, hthen⟩, hall⟩
    rintro ⟨⟨v1, ino, v', hgives, hcreat, hthen⟩, hall⟩
    refine ⟨v1, ino, v', (hdoor.gives hwho hs).2 ⟨hgives, ?_⟩, hcreat, hthen⟩
    rw [openAsks, if_pos hcreat]
    exact hall
  -- the other calls ask the same whatever comes of them
  have hcall : ∀ {m : Who → Io (Option (Nat × Name))} {qs},
    Guarded (v.linked g) env.toTask (Seen g v) m (fun _ => qs) →
      ((∃ v', Gives (m who) v (some p) v') ↔
        (∃ v', Gives (m anyone) v (some p) v') ∧ Cleared.All (v.linked g) env.toTask who qs) := by
    intro m qs hm
    simp only [hm.gives hwho hs, exists_and_right]
  cases c with
  | openFile fl path => exact hopen fl path
  | mkdir path => exact hcall (guarded_vfsMkdir hf hL hT hcwd _ path)
  | mknodFile path => exact hopen mknodFlags path
  | mknodFifo path => exact hcall (guarded_vfsMake hf hL hT hcwd _ path)
  | symlink target linkpath => exact hcall (guarded_vfsMake hf hL hT hcwd _ linkpath)
  | link source dest => exact hcall (guarded_vfsLink hf hL hT hcwd _ source dest)
  | rename source dest => exact hcall (guarded_vfsRename hf hL hT hcwd _ swap source dest)

variable {who : Who} {c : Creating} {d : Nat} {n : Name}

/-- Where a call makes a name: at its path, or behind a link at the end of it. -/
lemma makes_found (h : Makes g env swap who v c (d, n)) :
    ParentFound (v.linked g) env.toTask c.path ∧
      FoundFrom g env v c.path d n := by
  have hf := follows hv
  have hL := truthful hv ht
  have hT := hv.sound
  have hs := Seen.refl g v
  have hopen : ∀ fl path, (∃ v', Gives (openMakes g env swap who fl path) v (some (d, n)) v') →
      ParentFound (v.linked g) env.toTask path ∧
        FoundFrom g env v path d n := by
    intro fl path hgo
    obtain ⟨v1, ino, v', hdoor, hcreat, hthen⟩ := (openMakes_gives hv ht).1 hgo
    have hs1 : Seen g v v1 := hdoor.of_ends (keeps_openDoor hf swap fl path who v hs)
    exact ⟨openDoor_arrives hf hL hT hcwd hcreat hs hdoor, (openEnter_found hv ht hs1 hthen).2.2⟩
  have hplaced : ∀ {m : Io Entered} {path v1 v'},
    (∀ {e v'}, Gives m v1 e v' → Found g env v path e.dir e.name) →
      Gives (placed m) v1 (some (d, n)) v' → Found g env v path d n := by
    intro m path v1 v' hfound hgo
    obtain ⟨e, v2, hm, hgo⟩ := gives_bind.1 hgo
    have heq := Option.some.inj (gives_pure.1 hgo).1
    obtain ⟨rfl, rfl⟩ := Prod.mk.inj heq
    exact hfound hm
  obtain ⟨v', h⟩ := h
  cases c with
  | openFile fl path => exact hopen fl path ⟨v', h⟩
  | mkdir path =>
    obtain ⟨hx, v1, hs1, hgo⟩ := vfsMkdir_gives hf hL hT hcwd hs h
    exact ⟨hx, path, hplaced (makeEnter_found hs1) hgo, .inl rfl⟩
  | mknodFile path => exact hopen mknodFlags path ⟨v', h⟩
  | mknodFifo path =>
    obtain ⟨hx, v1, hs1, hgo⟩ := vfsMake_gives hf hL hT hcwd hs h
    exact ⟨hx, path, hplaced (makeEnter_found hs1) hgo, .inl rfl⟩
  | symlink target linkpath =>
    obtain ⟨hx, v1, hs1, hgo⟩ := vfsMake_gives hf hL hT hcwd hs h
    iterate 2
      split at hgo
      · exact absurd hgo not_gives_throw
    exact ⟨hx, linkpath, hplaced (makeEnter_found hs1) hgo, .inl rfl⟩
  | link source dest =>
    obtain ⟨hx, v1, hs1, hgo⟩ := vfsLink_gives hf hL hT hcwd hs h
    exact ⟨hx, dest, hplaced (linkEnter_found hs1) hgo, .inl rfl⟩
  | rename source dest =>
    obtain ⟨hx, v1, hs1, hgo⟩ := vfsRename_gives hf hL hT hcwd hs h
    obtain ⟨r, v2, hr, hgo⟩ := gives_bind.1 hgo
    obtain ⟨⟨e, x⟩, rfl, heq⟩ := Option.map_eq_some_iff.1 (gives_pure.1 hgo).1
    obtain ⟨rfl, rfl⟩ := Prod.mk.inj heq
    exact ⟨hx, dest, renameEnter_found hs1 hr, .inl rfl⟩

variable (hroot : IsDir g v env.root) (hdir : IsDir g v env.cwd)

include hroot hdir

omit hcwd in
lemma found_dir {path : List UInt8} (h : Found g env v path d n) :
    (v.linked g).kind d = .ok .dir := by
  refine (h.comes hv ht).1.dir (tree_kind.2 hroot) ?_
  rw [Task.start, startOf]
  split
  · exact tree_kind.2 hroot
  · exact tree_kind.2 hdir

/-- **A new name is in a directory that its maker may write and search, whatever the owners and
modes are, if and only if a link at the end of the path, if there is one, leads to a directory that
was asked for.** -/
theorem made_iff (swap : Option (Nat → Bool)) (c : Creating) (d : Nat) (n : Name)
    (hmakes : ∃ who : Who, who.cred.euid ≠ 0 ∧ Makes g env swap who v c (d, n)) :
    (∀ who : Who, who.cred.euid ≠ 0 → Makes g env swap who v c (d, n) →
    who.may (d, .dir) wxOk = true) ↔
      ((v.linked g).EndsInLink env.root (env.toTask.start c.path) (names c.path) →
        ∃ path ∈ c.asked, (v.linked g).Leads env.root (env.toTask.start (parentPath path),
        names (parentPath path))
          (d, [])) := by
  obtain ⟨who₀, hwho₀, hmakes⟩ := hmakes
  obtain ⟨⟨x, hx⟩, path, hfound, hpath⟩ := makes_found hv ht hcwd hmakes
  have hd := found_dir hv ht hroot hdir hfound
  have hany := ((makes_iff hv ht hcwd hwho₀ c (d, n)).1 hmakes).1
  constructor
  · intro hall _
    -- the questions alone have to see to it
    obtain ⟨q, hq, hw, hlead⟩ := (cleared_iff (b := wOk) hd (.inl rfl)).1 fun who hwho hcleared =>
      may_bit hwho (.inl rfl) (by decide) (hall who hwho
        ((makes_iff hv ht hcwd hwho c (d, n)).2 ⟨hany, hcleared⟩))
    obtain ⟨path, hasked, rfl⟩ := (c.writes_iff q).1 ⟨hq, hw⟩
    exact ⟨path, hasked, hlead⟩
  intro hcond who hwho hmake
  obtain ⟨path', hasked, hlead⟩ : ∃ path ∈ c.asked,
      (v.linked g).Leads env.root (env.toTask.start (parentPath path),
          names (parentPath path)) (d, []) := by
    by_cases hlink : (v.linked g).EndsInLink env.root (env.toTask.start c.path) (names c.path)
    · exact hcond hlink
    obtain rfl := hpath.resolve_right hlink
    have hslash : c.path.getLast? ≠ some slash := by
      intro hslash
      obtain ⟨w, w', hw, hwalk⟩ := hfound
      have htrail := (hwalk.of_ends ((follows hv).pathWalk_trailing (truthful hv ht) hw hslash)).2 _
        rfl
      rcases htrail with hnone | hlast
      · contradiction
      · exact hlink hlast
    have hmem : c.path ∈ c.asked := by cases c <;> simp [Creating.asked, Creating.path]
    exact ⟨c.path, hmem, parentPath_leads hv.sound (tree_kind.2 hdir) (hfound.comes hv ht).1
      hslash hlink hx⟩
  have hcleared := ((makes_iff hv ht hcwd hwho c (d, n)).1 hmake).2
  obtain ⟨hq, -⟩ := (c.writes_iff (parentPath path', wxOk)).2 ⟨path', hasked, rfl⟩
  exact hcleared _ hq d .dir (.inl hlead) hd

end Made

/-! ### Two directories, and links from one to the other -/

/-- The block of a directory with one or two names of one byte, after `"."` and `".."`. -/
def pairBlock (self : UInt8) (rest : List UInt8) : Bytes := fun i =>
  (([self, 0, 0, 0, 12, 0, 1, 2, 46, 0, 0, 0, 2, 0, 0, 0, 12, 0, 2, 2, 46, 46, 0, 0] :
    List UInt8) ++ rest).getD i 0

/-- `/p` with the links `l`, to `/s/n`, and `k`, to `/s/f`; and `/s` with the file `f`. -/
def pairVol : Vol :=
  { small with
    bit := fun b => decide (b < 7) || decide (40 ≤ b ∧ b ≤ 42)
    ibit := fun i => decide (i ≤ 16 ∧ i ≠ 11)
    freeInodes := 1
    gdFreeInodes := fun _ => 1
    data := fun b =>
      if b = 40 then pairBlock 2 [12, 0, 0, 0, 12, 0, 1, 2, 112, 0, 0, 0, 13, 0, 0, 0, 0xDC,
        3, 1, 2, 115]
      else if b = 41 then pairBlock 12 [14, 0, 0, 0, 12, 0, 1, 7, 108, 0, 0, 0, 16, 0, 0, 0, 0xDC,
        3, 1, 7, 107]
      else if b = 42 then pairBlock 13 [15, 0, 0, 0, 0xE8, 3, 1, 1, 102]
      else Bytes.zero
    inode := fun ino =>
      if ino = 2 then ⟨.dir, 4, 1024, 2, 0, fun s => if s = 0 then 40 else 0⟩
      else if ino = 12 then ⟨.dir, 2, 1024, 2, 0, fun s => if s = 0 then 41 else 0⟩
      else if ino = 13 then ⟨.dir, 2, 1024, 2, 0, fun s => if s = 0 then 42 else 0⟩
      else if ino = 14 then ⟨.lnk, 1, 4, 0, 0, wordOf [47, 115, 47, 110]⟩
      else if ino = 15 then ⟨.reg, 1, 0, 0, 0, fun _ => 0⟩
      else if ino = 16 then ⟨.lnk, 1, 4, 0, 0, wordOf [47, 115, 47, 102]⟩
      else .clear }

/-- A rank by which a directory is above what is in it. -/
def pairRank (ino : Nat) : Nat := if ino = 2 then 0 else 1

lemma pair_checks : Checks pairVol pairRank [2, 12, 13] where
  bits b hb := by
    simp only [small, Bool.or_eq_true, decide_eq_true_eq, beq_iff_eq] at hb
    simp only [pairVol, Bool.or_eq_true, decide_eq_true_eq]
    omega
  clear ino hino := by
    simp only [pairVol]
    rw [if_neg (by omega), if_neg (by omega), if_neg (by omega), if_neg (by omega),
      if_neg (by omega),
      if_neg (by omega)]
  dirs := by decide +kernel
  roots := by decide +kernel
  blocks := by decide +kernel
  size := by decide +kernel
  tiled := by decide +kernel
  distinct := by decide +kernel
  names := by decide +kernel
  up := by decide +kernel
  only := by decide +kernel

lemma pair_hierarchy : Hierarchy oneGroup pairVol pairRank := pair_checks.hierarchy

lemma pair_typed : Typed oneGroup pairVol := by
  have hall : ∀ d ∈ [2, 12, 13], ∀ e ∈ dirEntries oneGroup pairVol d, e.type = ftDir →
      IsDir oneGroup pairVol e.ino := by
    decide +kernel
  exact fun d hd => hall d (pair_checks.mem hd)

/-- In `/`, and not confined. -/
def pairEnv : Env := ⟨⟨2, 2⟩, 1000, false⟩

/-- A task that may write `/p`, and may only read and search elsewhere. -/
def pairWho : Who := ⟨⟨1000, 1000, []⟩, fun ino => if ino = 12 then ⟨0o777, 0, 0⟩ else
    ⟨0o755, 0, 0⟩⟩

/-- `O_CREAT | O_WRONLY`. -/
def creatFlags : Flags := ⟨⟨true, true, false, false, false, false⟩, false, false⟩

lemma makes_of_finish {g env swap who v c}
    (h : (finish (c.makes g env swap who) v).2 = .ok (some p)) : Makes g env swap who v c p :=
  ⟨(finish (c.makes g env swap who) v).1, gives_of_finish (Prod.ext rfl h)⟩

/-- A new directory in `/p`. -/
theorem made_iff_mkdir : pairWho.may (12, .dir) wxOk = true := by
  have hmakes : Makes oneGroup pairEnv none pairWho pairVol (.mkdir [47, 112, 47, 110]) (12,
      [110]) :=
    makes_of_finish (by decide +kernel)
  have hiff := made_iff pair_hierarchy pair_typed (.refl _ 2) (by decide +kernel)
    (by decide +kernel) none
    (.mkdir [47, 112, 47, 110]) 12 [110] ⟨pairWho, by decide, hmakes⟩
  have hlead : (pairVol.linked oneGroup).Leads 2 (2, [[112]]) (12, []) := by
    have hlook : (pairVol.linked oneGroup).look 2 [112] = .ok (12, 2) ∧
        (pairVol.linked oneGroup).kind 12 = .ok .dir := by
      decide +kernel
    exact .single (Linked.next_dir (by decide) hlook.1 hlook.2)
  exact hiff.2 (fun _ => ⟨_, mem_singleton_self _, hlead⟩) pairWho (by decide) hmakes

/-- **A name is made in a directory that the task may not write**: it opens the link in `/p` to
create a file, and the file is in `/s`. -/
theorem made_elsewhere : Hierarchy oneGroup pairVol pairRank ∧ pairWho.cred.euid ≠ 0 ∧
      Makes oneGroup pairEnv none pairWho pairVol (.openFile creatFlags [47, 112, 47, 108])
      (13, [110]) ∧
      pairWho.may (13, .dir) wxOk = false :=
  ⟨pair_hierarchy, by decide, makes_of_finish (by decide +kernel), by decide⟩

end Sage040.Vfs
