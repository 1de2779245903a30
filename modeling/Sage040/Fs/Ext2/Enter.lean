import Sage040.Fs.Ext2.Linked

/-!
# Where a name is entered

Each of the calls that make a name is cut in two, after its `dir_add`: what comes before finds a
directory and a name and enters it there, and says where (`mkdir_eq` and the like put the halves
together again). Where it is, is what `path_walk` has made of the call's path (`Found`), but for
`open`: that one follows a symbolic link at the end of the path to a name that is not there, and
begins again with another path (`openEnter_found`).
-/

namespace Sage040.Fs

open Exits

namespace Ext2

variable (g : Geometry) (env : Env)

/-- A name that was entered: in which directory, and for which inode. -/
structure Entered where
  dir : Nat
  name : Name
  ino : Nat

/-! ## The halves -/

def freeName (path : List UInt8) : Io (Nat × Name) := do
  let walked ← pathWalk (walker g) env.toTask path
  if env.rdonly = true then throw .erofs
  else match walked.2 with
    | none => throw .eexist
    | some name =>
      match ← attempt (dirLookup g walked.1 name) with
      | .ok _ => throw .eexist
      | .error _ => pure (walked.1, name)

def makeEnter (path : List UInt8) (kind : Kind) (ftype : UInt8) : Io Entered := do
  let free ← freeName g env path
  let ino ← makeInode g free.1 free.2 kind ftype
  pure ⟨free.1, free.2, ino⟩

/-- `ext2_mkdir`, once the name is there. -/
def mkdirRest (e : Entered) : Io Unit := do
  let ei ← iread g e.ino
  let r ← take fun v => v.bmap g ei 0 true
  match r.2 with
  | .error e => throw e
  | .ok b => do
    act fun v => (v.touch.setData b (dotsBlock g.blockSize e.ino e.dir)).dirty
    iwrite g e.ino { r.1 with size := g.blockSize, links := 2 }
    let pe ← iread g e.dir
    iwrite g e.dir pe.linked

/-- `ext2_symlink`, once the name is there. -/
def symlinkRest (target : List UInt8) (e : Entered) : Io Unit := do
  match ← attempt (putTarget g e.ino target) with
  | .error err => do
    let _ ← attempt (dirDel g e.dir e.name)
    let _ ← attempt (inodeRelease g env e.ino)
    throw err
  | .ok _ => pure ()

/-- `ext2_link`, which ends with its `dir_add`. -/
def linkEnter (source dest : List UInt8) : Io Entered := do
  let src ← pathWalk (walker g) env.toTask source
  match src.2 with
  | none => throw .einval
  | some fname => do
    let dst ← pathWalk (walker g) env.toTask dest
    if env.rdonly = true then throw .erofs
    else match dst.2 with
      | none => throw .einval
      | some tname => do
        let found ← dirLookup g src.1 fname
        let fe ← iread g found.1
        if fe.kind = .dir then throw .eperm
        else if fe.links = 0 then throw .enoent
        else match ← attempt (dirLookup g dst.1 tname) with
          | .ok _ => throw .eexist
          | .error _ => do
            iwrite g found.1 fe.linked
            match ← attempt (dirAdd g dst.1 ⟨tname, found.1, found.2⟩) with
            | .error e => do
              iwrite g found.1 { fe with links := (fe.linked.links + 65535) % 65536 }
              throw e
            | .ok _ => pure ⟨dst.1, tname, found.1⟩

/-- `ext2_rename` up to its `dir_add`, if it comes to it; with what it moves, and from where. -/
def renameEnter (source dest : List UInt8) : Io (Option (Entered × Einode × Nat × Name)) := do
  let src ← pathWalk (walker g) env.toTask source
  match src.2 with
  | none => throw .einval
  | some fname => do
    let dst ← pathWalk (walker g) env.toTask dest
    if env.rdonly = true then throw .erofs
    else match dst.2 with
      | none => throw .einval
      | some tname => do
        let found ← dirLookup g src.1 fname
        let fe ← iread g found.1
        if src.1 = dst.1 ∧ fname = tname then pure none
        else do
          let within ← movesWithin g env fe found.1 dst.1
          if within = true then throw .einval
          else do
            let target ← attempt (dirLookup g dst.1 tname)
            if target.toOption.map Prod.fst = some found.1 then pure none
            else do
              clearWay g env dst.1 tname fe target
              dirAdd g dst.1 ⟨tname, found.1, found.2⟩
              pure (some (⟨dst.1, tname, found.1⟩, fe, src.1, fname))

/-- `ext2_rename`, once the new name is there. -/
def renameRest : Option (Entered × Einode × Nat × Name) → Io Unit
  | none => pure ()
  | some (e, fe, fdir, fname) => do
    let _ ← dirDel g fdir fname
    reparent g fe e.ino fdir e.dir
    adjust g e.ino some

/-- `ext2_open` for one path: `make` a name that is not there, go on with what is `there`, or begin
`again` with the path that a dangling link leads to, unless there were too many of them. -/
def openStep {α : Type} (fl : OpenFlags) (make : Nat → Name → Io α) (there : Nat → Io α)
    (again : Option (List UInt8 → Io α)) (path : List UInt8) : Io α := do
  let walked ← pathWalk (walker g) env.toTask path
  match walked.2 with
  | none => throw .eisdir
  | some name =>
    match ← attempt (dirLookup g walked.1 name) with
    | .error .enoent =>
      if fl.creat = false then throw .enoent
      else if fl.write = false then throw .eacces
      else if env.rdonly = true then throw .erofs
      else make walked.1 name
    | .error e => throw e
    | .ok found =>
      if fl.excl = true then throw .eexist
      else do
        let ei ← iread g found.1
        if ei.kind = .lnk then
          if fl.nofollow = true then throw .eloop
          else match ← attempt (pathResolve (walker g) env.toTask symlinkMaxDepth path) with
            | .error e =>
              if e = .enoent ∧ fl.creat = true then
                match again with
                | none => throw .eloop
                | some again => do
                  let target ← readLink g pathMax found.1
                  if target.head? ≠ some slash ∧ pathMax < (dirPart path).length + target.length + 1
                  then throw .enametoolong
                  else again (danglingPath path target)
              else throw e
            | .ok ino => do
              let ei ← iread g ino
              if ei.kind = .lnk then throw .eloop
              else if ei.kind = .dir then throw .eisdir
              else there ino
        else if ei.kind = .dir then throw .eisdir
        else there found.1

/-- `ext2_open` up to the inode that is opened, and where a name was entered for it. -/
def openEnter (fl : OpenFlags) : Nat → List UInt8 → Io (Option (Nat × Name) × Nat)
  | 0 => openStep g env fl (fun d name => do
      let ino ← makeInode g d name .reg ftRegFile
      pure (some (d, name), ino)) (fun ino => pure (none, ino)) none
  | depth + 1 => openStep g env fl (fun d name => do
      let ino ← makeInode g d name .reg ftRegFile
      pure (some (d, name), ino)) (fun ino => pure (none, ino)) (some (openEnter fl depth))

/-! ## And together -/

variable {ε σ α β : Type}

lemma throw_bind (e : ε) (k : α → EStateM ε σ β) : (throw e : EStateM ε σ α) >>= k = throw e := rfl

lemma ite_bind' (c : Prop) [Decidable c] (m m' : EStateM ε σ α) (k : α → EStateM ε σ β) :
    (if c then m else m') >>= k = if c then m >>= k else m' >>= k := by
  split <;> rfl

variable {kind : Kind} {ftype : UInt8} {fl : OpenFlags}

/-- A call that looks for a free name and makes an inode for it. -/
lemma makeEnter_bind (path : List UInt8) (kind) (ftype) (k : Entered → Io α) :
    makeEnter g env path kind ftype >>= k = (do
      let walked ← pathWalk (walker g) env.toTask path
      if env.rdonly = true then throw .erofs
      else match walked.2 with
        | none => throw .eexist
        | some name =>
          match ← attempt (dirLookup g walked.1 name) with
          | .ok _ => throw .eexist
          | .error _ => do
            let ino ← makeInode g walked.1 name kind ftype
            k ⟨walked.1, name, ino⟩) := by
  simp only [makeEnter, freeName, bind_assoc, ite_bind', throw_bind]
  refine bind_congr fun walked => ?_
  split
  · rfl
  rcases walked with ⟨d, _ | name⟩
  · rfl
  simp only [bind_assoc]
  refine bind_congr fun r => ?_
  rcases r with e | found
  · simp
  · rfl

lemma mkdir_eq (path : List UInt8) : mkdir g env path = makeEnter g env path .dir ftDir >>=
    mkdirRest g := by
  rw [makeEnter_bind]
  rfl

lemma mknod_eq (path : List UInt8) :
    mknod g env path .fifo = makeEnter g env path .fifo ftFifo >>= fun _ => pure () := by
  rw [makeEnter_bind]
  exact if_neg (by decide)

lemma symlink_eq (target linkpath : List UInt8) : symlink g env target linkpath =
      if target.length = 0 then throw .enoent
      else if pathMax - 1 < target.length then throw .enametoolong
      else makeEnter g env linkpath .lnk ftSymlink >>= symlinkRest g env target := by
  rw [makeEnter_bind]
  rfl

lemma link_eq (source dest : List UInt8) : link g env source dest = linkEnter g env source dest >>=
    fun _ => pure () := by
  simp only [link, linkEnter, bind_assoc]
  refine bind_congr fun src => ?_
  rcases src with ⟨sd, _ | fname⟩
  · rfl
  simp only [bind_assoc, ite_bind', throw_bind]
  refine bind_congr fun dst => ?_
  split
  · rfl
  rcases dst with ⟨dd, _ | tname⟩
  · rfl
  simp only [bind_assoc, ite_bind', throw_bind]
  refine bind_congr fun found => bind_congr fun fe => ?_
  split
  · rfl
  split
  · rfl
  refine bind_congr fun r => ?_
  rcases r with e | hit
  · simp only [bind_assoc]
    refine bind_congr fun _ => bind_congr fun r => ?_
    rcases r with e | _
    · simp only [bind_assoc, throw_bind]
    · rfl
  · rfl

lemma rename_eq (source dest : List UInt8) :
    rename g env source dest = renameEnter g env source dest >>= renameRest g := by
  simp only [rename, renameEnter, bind_assoc]
  refine bind_congr fun src => ?_
  rcases src with ⟨sd, _ | fname⟩
  · rfl
  simp only [bind_assoc, ite_bind', throw_bind]
  refine bind_congr fun dst => ?_
  split
  · rfl
  rcases dst with ⟨dd, _ | tname⟩
  · rfl
  simp only [bind_assoc, ite_bind', throw_bind, pure_bind]
  refine bind_congr fun found => bind_congr fun fe => ?_
  rfl

lemma openStep_bind {α β} (fl) (make : Nat → Name → Io α) (there : Nat → Io α)
    (again : Option (List UInt8 → Io α)) (path : List UInt8) (k : α → Io β) :
    openStep g env fl make there again path >>= k =
    openStep g env fl (fun d name => make d name >>= k)
      (fun ino => there ino >>= k) (again.map fun f path => f path >>= k) path := by
  simp only [openStep, bind_assoc]
  refine bind_congr fun walked => ?_
  rcases walked with ⟨d, _ | name⟩
  · rfl
  simp only [bind_assoc]
  refine bind_congr fun r => ?_
  rcases r with e | found
  · by_cases he : e = .enoent
    · subst he
      simp only [ite_bind', throw_bind]
    · cases e <;> first | exact absurd rfl he | rfl
  simp only [bind_assoc, ite_bind', throw_bind]
  split
  · rfl
  refine bind_congr fun ei => ?_
  split
  · split
    · rfl
    refine bind_congr fun r => ?_
    rcases r with e | ino
    · simp only [ite_bind', throw_bind]
      split
      · rcases again with _ | again
        · rfl
        · simp only [bind_assoc, ite_bind', throw_bind, Option.map_some]
      · rfl
    · simp only [bind_assoc, ite_bind', throw_bind]
  · rfl

/-- `ext2_open` is one such step after another. -/
lemma openFile_step (fl) (depth : Nat) (path : List UInt8) :
    openFile g env fl depth path = openStep g env fl (fun d name => do
      let ino ← makeInode g d name .reg ftRegFile
      openInode g env fl ino) (openInode g env fl)
      (match depth with
        | 0 => none
        | depth + 1 => some (openFile g env fl depth)) path := by
  delta openFile openStep
  rcases depth with _ | depth
  all_goals dsimp only [Nat.brecOn, Nat.brecOn.go]
  all_goals
    delta openFile._f
    refine bind_congr fun walked => ?_
    rcases walked with ⟨d, _ | name⟩
    · rfl
    refine bind_congr fun r => ?_
    rcases r with e | found
    · rfl
    · rfl

lemma openFile_eq (fl) (depth : Nat) (path : List UInt8) :
    openFile g env fl depth path = openEnter g env fl depth path >>=
    fun r => openInode g env fl r.2 := by
  induction depth generalizing path with
  | zero =>
    rw [openFile_step, openEnter, openStep_bind]
    simp
  | succ depth ih =>
    rw [openFile_step, openEnter, openStep_bind]
    simp only [bind_assoc, pure_bind, Option.map_some, ← ih]

/-! ## Where -/

section Found

open Vol

variable {g env} {v w w' : Vol} {rank : Nat → Nat} {d : Nat} {n : Name} {path : List UInt8}

variable (g env) in
/-- `path_walk` has come to the name `n` in `d`, for the call's path and on what is still the volume
`v`. -/
def Found (v : Vol) (path : List UInt8) (d : Nat) (n : Name) : Prop :=
  ∃ w w', Seen g v w ∧ Gives (pathWalk (walker g) env.toTask path) w (d, some n) w'

variable (g env) in
/-- The name is at the call's path, or behind a link at the end of it. -/
abbrev FoundFrom (v : Vol) (path : List UInt8) (d : Nat) (n : Name) : Prop :=
  ∃ path', Found g env v path' d n ∧
    (path' = path ∨ (v.linked g).EndsInLink env.root (env.toTask.start path) (names path))

variable (hw : Seen g v w)

include hw

lemma freeName_found {p : Nat × Name} (h : Gives (freeName g env path) w p w') :
    Found g env v path p.1 p.2 := by
  obtain ⟨walked, w1, hwalk, h⟩ := gives_bind.1 h
  replace h := h.guard.2
  rcases walked with ⟨d, _ | n⟩
  · exact absurd h not_gives_throw
  obtain ⟨r, w2, -, h⟩ := gives_bind.1 h
  rcases r with e | found
  · obtain ⟨rfl, -⟩ := gives_pure.1 h
    exact ⟨w, w1, hw, hwalk⟩
  · exact absurd h not_gives_throw

variable {e : Entered} {source dest : List UInt8} {fl : OpenFlags}

lemma makeEnter_found (h : Gives (makeEnter g env path kind ftype) w e w') :
    Found g env v path e.dir e.name := by
  obtain ⟨free, w1, hfree, h⟩ := gives_bind.1 h
  obtain ⟨ino, w2, -, h⟩ := gives_bind.1 h
  obtain ⟨rfl, -⟩ := gives_pure.1 h
  exact freeName_found hw hfree

lemma seen_pathWalk {a : Nat × Option Name} (h :
    Gives (pathWalk (walker g) env.toTask source) w a w') : Seen g v w' :=
  h.of_ends ((keeps_walker g v).pathWalk env.toTask source w hw)

lemma linkEnter_found (h : Gives (linkEnter g env source dest) w e w') :
    Found g env v dest e.dir e.name := by
  obtain ⟨src, w1, hsrc, h⟩ := gives_bind.1 h
  rcases src with ⟨sd, _ | fname⟩
  · exact absurd h not_gives_throw
  obtain ⟨dst, w2, hdst, h⟩ := gives_bind.1 h
  replace h := h.guard.2
  rcases dst with ⟨dd, _ | tname⟩
  · exact absurd h not_gives_throw
  obtain ⟨found, w3, -, h⟩ := gives_bind.1 h
  obtain ⟨fe, w4, -, h⟩ := gives_bind.1 h
  obtain ⟨r, w5, -, h⟩ := gives_bind.1 h.guard.2.guard.2
  rcases r with _ | hit
  · obtain ⟨-, w6, -, h⟩ := gives_bind.1 h
    obtain ⟨r, w7, -, h⟩ := gives_bind.1 h
    rcases r with err | _
    · obtain ⟨-, w8, -, h⟩ := gives_bind.1 h
      exact absurd h not_gives_throw
    · obtain ⟨rfl, -⟩ := gives_pure.1 h
      exact ⟨w1, w2, seen_pathWalk hw hsrc, hdst⟩
  · exact absurd h not_gives_throw

lemma renameEnter_found {x : Einode × Nat × Name}
    (h : Gives (renameEnter g env source dest) w (some (e, x)) w') :
    Found g env v dest e.dir e.name := by
  obtain ⟨src, w1, hsrc, h⟩ := gives_bind.1 h
  rcases src with ⟨sd, _ | fname⟩
  · exact absurd h not_gives_throw
  obtain ⟨dst, w2, hdst, h⟩ := gives_bind.1 h
  replace h := h.guard.2
  rcases dst with ⟨dd, _ | tname⟩
  · exact absurd h not_gives_throw
  obtain ⟨found, w3, -, h⟩ := gives_bind.1 h
  obtain ⟨fe, w4, -, h⟩ := gives_bind.1 h
  split at h
  · have hnone := (gives_pure.1 h).1
    contradiction
  obtain ⟨within, w5, -, h⟩ := gives_bind.1 h
  obtain ⟨target, w6, -, h⟩ := gives_bind.1 h.guard.2
  split at h
  · have hnone := (gives_pure.1 h).1
    contradiction
  obtain ⟨-, w7, -, h⟩ := gives_bind.1 h
  obtain ⟨-, w8, -, h⟩ := gives_bind.1 h
  have hsome := Option.some.inj (gives_pure.1 h).1
  obtain ⟨rfl, -⟩ := Prod.mk.inj hsome
  exact ⟨w1, w2, seen_pathWalk hw hsrc, hdst⟩

omit hw

variable (hv : Hierarchy g v rank)

include hv

/-- The way that `path_walk` took. -/
lemma Found.comes (ht : Typed g v) (h : Found g env v path d n) :
    (v.linked g).Comes env.root (env.toTask.start path, names path) (d, some n) := by
  obtain ⟨w, w', hw, hwalk⟩ := h
  exact (hwalk.of_ends ((follows hv).pathWalk_comes (truthful hv ht) path hw)).2 _ rfl

lemma Found.resolve_error {e : Errno} (h : Found g env v path d n)
    (hlook : (v.linked g).look d n = .error e) :
    ∃ e, (finish (pathResolve (walker g) env.toTask symlinkMaxDepth path) v).2 = .error e := by
  obtain ⟨w, w', hw, hwalk⟩ := h
  have hend : Ends (pathResolve (walker g) env.toTask symlinkMaxDepth path) v fun _ r => ∃ e,
      r = .error e := by
    have hsteady := (follows hv).steady.pathWalk (composes_steady _) env.toTask path
    rw [pathResolve.eq_def]
    refine (hsteady.ends hw (Seen.refl g v)).bind (fun w1 walked hwalked => ?_) fun _
      e _ => ⟨e, rfl⟩
    rw [hwalk.finish, Except.ok.injEq] at hwalked
    obtain ⟨hw1, rfl⟩ := hwalked
    refine ((follows hv).lookup w1 hw1 d n).bind (fun w2 found hfound => ?_) fun _ e _ => ⟨e, rfl⟩
    have herr := hfound.2.trans hlook
    contradiction
  exact hend

/-- **Opening a path makes a name only if nothing is behind it**: the name that `path_walk` has come
to, or another one behind a link at the end of the path. -/
lemma openStep_made {α} {make : Nat → Name → Io α} {there : Nat → Io α}
    {again : Option (List UInt8 → Io α)} {a : α} (ht : Typed g v) (hw : Seen g v w)
    (h : Gives (openStep g env fl make there again path) w a w') :
    (∃ ino w1, Gives (there ino) w1 a w') ∨
    fl.creat = true ∧ (∃ e, (finish (pathResolve (walker g) env.toTask symlinkMaxDepth path) v).2 =
    .error e) ∧
      ((∃ d n w1, Found g env v path d n ∧ Gives (make d n) w1 a w') ∨
        (v.linked g).EndsInLink env.root (env.toTask.start path) (names path) ∧
          ∃ f path' w1, again = some f ∧ Seen g v w1 ∧ Gives (f path') w1 a w') := by
  have hfol := follows hv
  obtain ⟨walked, w1, hwalk, h⟩ := gives_bind.1 h
  have hw1 := seen_pathWalk hw hwalk
  rcases walked with ⟨d, _ | n⟩
  · exact absurd h not_gives_throw
  have hfound : Found g env v path d n := ⟨w, w1, hw, hwalk⟩
  obtain ⟨r, w2, hlook, h⟩ := gives_bind.1 h
  obtain ⟨hw2, hlooked⟩ : Seen g v w2 ∧ r = (v.linked g).look d n :=
    hlook.of_attempt (hfol.lookup w1 hw1 d n)
  rcases r with e | found
  · -- nothing has the name
    by_cases he : e = .enoent
    · subst he
      obtain ⟨hcreat, h⟩ := h.guard
      exact .inr ⟨by simpa using hcreat, hfound.resolve_error hv hlooked.symm,
        .inl ⟨d, n, w2, hfound, h.guard.2.guard.2⟩⟩
    · cases e <;> first | exact absurd rfl he | exact absurd h not_gives_throw
  obtain ⟨ei, w3, hread, h⟩ := gives_bind.1 h.guard.2
  obtain ⟨hw3, hkind⟩ : Seen g v w3 ∧ .ok ei.kind = (v.linked g).kind found.1 := by
    have hgives : Gives ((walker g).kind found.1) w2 ei.kind w3 :=
      gives_bind.2 ⟨ei, w3, hread, gives_pure.2 ⟨rfl, rfl⟩⟩
    exact hgives.of_ends (hfol.kind w2 hw2 found.1)
  split at h
  · next hlnk =>
    rw [hlnk] at hkind
    obtain ⟨r, w4, hres, h⟩ := gives_bind.1 h.guard.2
    have hsteady := hfol.steady.pathResolve (composes_steady _) env.toTask symlinkMaxDepth path
    obtain ⟨hw4, hsame⟩ := hres.of_attempt (hsteady.ends (Seen.refl g v) hw3)
    rcases r with e | ino
    · -- a link to nothing
      dsimp only at h
      split at h
      · next hand =>
        rcases again with _ | f
        · exact absurd h not_gives_throw
        obtain ⟨target, w5, htarget, h⟩ := gives_bind.1 h
        have hw5 : Seen g v w5 := htarget.of_ends ((keeps_walker g v).readLink found.1 w4 hw4)
        have hlast := Linked.endsInLink_of_leads (hfound.comes hv ht).1 hlooked.symm hkind.symm
        exact .inr ⟨hand.2, ⟨e, hsame.symm⟩, .inr ⟨hlast, f, _, w5, rfl, hw5, h.guard.2⟩⟩
      · exact absurd h not_gives_throw
    · obtain ⟨ei, w5, -, h⟩ := gives_bind.1 h
      exact .inl ⟨ino, w5, h.guard.2.guard.2⟩
  · exact .inl ⟨found.1, w3, h.guard.2⟩

lemma openEnter_found {depth ino : Nat} (ht : Typed g v) (hw : Seen g v w)
    (h : Gives (openEnter g env fl depth path) w (some (d, n), ino) w') :
    fl.creat = true ∧ (∃ e, (finish (pathResolve (walker g) env.toTask symlinkMaxDepth path) v).2 =
    .error e) ∧
      FoundFrom g env v path d n := by
  have hmake : ∀ {d' n' w1}, Gives (do
      let ino ← makeInode g d' n' .reg ftRegFile
      pure (some (d', n'), ino)) w1 (some (d, n), ino) w' → (d', n') = (d, n) := by
    intro d' n' w1 h
    obtain ⟨ino', w2, -, h⟩ := gives_bind.1 h
    exact Option.some.inj (Prod.mk.inj (gives_pure.1 h).1).1
  have hthere : ∀ {ino' w1}, ¬Gives (pure (none, ino') :
      Io (Option (Nat × Name) × Nat)) w1 (some (d, n), ino) w' := by
    intro ino' w1 h
    have hnone := (Prod.mk.inj (gives_pure.1 h).1).1
    contradiction
  induction depth generalizing path w with
  | zero =>
    rcases openStep_made hv ht hw h with ⟨ino', w1, h⟩ | ⟨hcreat, herr,
      ⟨d', n', w1, hfound, h⟩ | ⟨-, f, path', w1, hnone, -⟩⟩
    · exact absurd h hthere
    · obtain ⟨rfl, rfl⟩ := Prod.mk.inj (hmake h)
      exact ⟨hcreat, herr, path, hfound, .inl rfl⟩
    · contradiction
  | succ depth ih =>
    rcases openStep_made hv ht hw h with ⟨ino', w1, h⟩ | ⟨hcreat, herr,
      ⟨d', n', w1, hfound, h⟩ | ⟨hlink, f, path', w1, hf, hw1, h⟩⟩
    · exact absurd h hthere
    · obtain ⟨rfl, rfl⟩ := Prod.mk.inj (hmake h)
      exact ⟨hcreat, herr, path, hfound, .inl rfl⟩
    obtain rfl := Option.some.inj hf
    obtain ⟨-, -, path'', hfound, -⟩ := ih hw1 h
    exact ⟨hcreat, herr, path'', hfound, .inr hlink⟩

end Found

end Ext2

end Sage040.Fs
