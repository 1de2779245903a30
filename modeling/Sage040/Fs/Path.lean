import Sage040.Fs.Ext2.Dirent
import Sage040.Fs.Ext2.Volume
import Sage040.Lib.Exits

/-!
# Walking a path

`path_walk`, `path_resolve` and `ext2_dir_path` of `fs/ext2.c`, over whatever keeps the directories.
What they ask of it is a `Walker`: to look a name up in a directory, to say what an inode is, to
read a symbolic link, and to find the name of a directory in its parent.

A walk goes along the components of a path. Where it comes to a link, the target and what is left of
the path become the path, and it goes on from the root or from where it is; `walkLinks` counts how
often. What all four questions keep, a walk keeps (`Walker.Keeps`).
-/

namespace Sage040.Fs

open Exits

/-- `'/'`. -/
def slash : UInt8 := 47

/-- `"."`. -/
def dot : Name := [46]

/-- `".."`. -/
def dotdot : Name := [46, 46]

def pathMax : Nat := 1024

def nameMax : Nat := 255

def symlinkMaxDepth : Nat := 40

/-- The types of a directory entry that a walk tells apart. -/
def ftUnknown : UInt8 := 0
def ftRegFile : UInt8 := 1
def ftDir : UInt8 := 2
def ftFifo : UInt8 := 5
def ftSymlink : UInt8 := 7

/-- The components of a path, each with all that comes after it; `acc` is the start of one,
backwards. -/
def components : List UInt8 → List UInt8 → List (Name × List UInt8)
  | [], acc => if acc = [] then [] else [(acc.reverse, [])]
  | c :: cs, acc =>
    if c = slash then
      if acc = [] then components cs [] else (acc.reverse, c :: cs) :: components cs []
    else components cs (c :: acc)

/-- Where a task is, and what it has for `/`. -/
structure Task where
  cwd : Nat
  root : Nat

structure Walker (σ : Type) where
  lookup : Nat → Name → EStateM Errno σ (Nat × UInt8)
  kind : Nat → EStateM Errno σ Kind
  /-- The target, up to the first `'\0'`. -/
  readLink : Nat → EStateM Errno σ (List UInt8)
  /-- The name, other than `"."` and `".."`, by which a directory is in its parent. -/
  nameIn : Nat → Nat → EStateM Errno σ Name

/-- How far a walk gets on its own: to its end, in a directory and with the last name unless there
is none; or to a link in `d`, with `rest` to go. -/
inductive Reached
  | done (d : Nat) (last : Option Name)
  | link (d ino : Nat) (rest : List UInt8)

section Walk

variable {σ : Type} (fs : Walker σ) (t : Task)

/-- `path_walk` up to the next link. -/
def walkComps : List (Name × List UInt8) → Nat → EStateM Errno σ Reached
  | [], d => pure (.done d none)
  | (comp, rest) :: more, d =>
    if nameMax < comp.length then throw .enametoolong
    -- ".." at the root is the root
    else if d = t.root ∧ comp = dotdot then
      if more = [] then pure (.done d none) else walkComps more d
    else if rest = [] then pure (.done d (some comp))
    else do
      let found ← fs.lookup d comp
      if found.2 = ftUnknown then
        let kind ← fs.kind found.1
        if kind = .lnk then throw .eloop
        else if kind = .dir then walkComps more found.1
        else throw .enotdir
      else if found.2 = ftSymlink then pure (.link d found.1 (rest.dropWhile (· == slash)))
      else if found.2 = ftDir then walkComps more found.1
      else throw .enotdir

/-- `path_walk`'s loop, which may follow as many links as it is given. -/
def walkLinks : Nat → List (Name × List UInt8) → Nat → EStateM Errno σ (Nat × Option Name)
  | links, comps, d => do
    match ← walkComps fs t comps d with
    | .done d last => pure (d, last)
    | .link d ino rest =>
      match links with
      | 0 => throw .eloop
      | links + 1 => do
        let target ← fs.readLink ino
        if pathMax < target.length + 1 + rest.length + 1 then throw .enametoolong
        else
          walkLinks links (components (if rest = [] then target else target ++ slash :: rest) [])
            (if target.head? = some slash then t.root else d)

/-- `path_walk`: the directory, and the last name unless the path ends in a slash. -/
def pathWalk (path : List UInt8) : EStateM Errno σ (Nat × Option Name) :=
  walkLinks fs t symlinkMaxDepth (components path [])
    (if path.head? = some slash then t.root else t.cwd)

def pathResolveNofollow (path : List UInt8) : EStateM Errno σ Nat := do
  let walked ← pathWalk fs t path
  match walked.2 with
  | none => pure walked.1
  | some name => return (← fs.lookup walked.1 name).1

/-- The loop of `ext2_dir_path`, which has come up to `cur` and has put `path` together. -/
def dirPathLoop : Nat → Nat → List UInt8 → EStateM Errno σ (List UInt8)
  | depth, cur, path =>
    if cur = t.root then pure path
    else match depth with
      | 0 => throw .eloop
      | depth + 1 => do
        let parent ← fs.lookup cur dotdot
        -- the real root, below a chroot
        if parent.1 = cur then pure path
        else
          let name ← fs.nameIn parent.1 cur
          if pathMax - 1 - path.length < name.length + 1 then throw .erange
          else dirPathLoop depth parent.1 (slash :: (name ++ path))

/-- `ext2_dir_path`: a directory's path from the root down. -/
def dirPath (ino : Nat) : EStateM Errno σ (List UInt8) := do
  let path ← dirPathLoop fs t 64 ino []
  pure (if path = [] then [slash] else path)

/-- `path_resolve`: the inode that a path leads to, with a link at its end followed. -/
def pathResolve : Nat → List UInt8 → EStateM Errno σ Nat
  | links, path => do
    let walked ← pathWalk fs t path
    match walked.2 with
    | none => pure walked.1
    | some name => do
      let got ← fs.lookup walked.1 name
      let kind ← fs.kind got.1
      if kind ≠ .lnk then pure got.1
      else match links with
        | 0 => throw .eloop
        | links + 1 => do
          let target ← fs.readLink got.1
          if target.head? = some slash then pathResolve links target
          else
            -- a link is relative to the directory that it is in
            let dir ← dirPath fs t walked.1
            let dir := if dir.getLast? = some slash then dir.dropLast else dir
            if pathMax < dir.length + 1 + target.length + 1 then throw .enametoolong
            else pathResolve links (dir ++ slash :: target)

end Walk

/-! ## What a walk keeps -/

variable {comps : List (Name × List UInt8)} {d links : Nat}

section Each

variable {σ : Type} {fs : Walker σ} {Q : ∀ α : Type, EStateM Errno σ α → Prop}

variable (Q) in
/-- All four questions are `Q`. -/
structure Walker.Each (fs : Walker σ) : Prop where
  lookup : ∀ d name, Q _ (fs.lookup d name)
  kind : ∀ ino, Q _ (fs.kind ino)
  readLink : ∀ ino, Q _ (fs.readLink ino)
  nameIn : ∀ d ino, Q _ (fs.nameIn d ino)

variable (h : fs.Each Q) (hQ : Composes Q) (t : Task)

include h hQ

lemma Walker.Each.walkComps (comps) (d) : Q _ (walkComps fs t comps d) := by
  induction comps generalizing d with
  | nil => exact hQ.pure _
  | cons c comps ih =>
    rw [Fs.walkComps]
    refine hQ.ite (hQ.throw _) (hQ.ite (hQ.ite (hQ.pure _) (ih d)) (hQ.ite (hQ.pure _) ?_))
    refine hQ.bind (h.lookup d c.1) fun found => hQ.ite ?_
      (hQ.ite (hQ.pure _) (hQ.ite (ih _) (hQ.throw _)))
    exact hQ.bind (h.kind _) fun kind => hQ.ite (hQ.throw _) (hQ.ite (ih _) (hQ.throw _))

lemma Walker.Each.walkLinks (links) (comps) (d) : Q _ (walkLinks fs t links comps d) := by
  induction links using Nat.strong_induction_on generalizing comps d with | _ links ih
  rw [walkLinks.eq_def]
  refine hQ.bind (h.walkComps hQ t comps d) fun r => ?_
  rcases r with ⟨d, last⟩ | ⟨d, ino, rest⟩
  · exact hQ.pure _
  cases links with
  | zero => exact hQ.throw _
  | succ links =>
    exact hQ.bind (h.readLink ino) fun target => hQ.ite (hQ.throw _)
      (ih links (Nat.lt_succ_self _) _ _)

lemma Walker.Each.pathWalk (path : List UInt8) : Q _ (pathWalk fs t path) := h.walkLinks hQ t _ _ _

lemma Walker.Each.pathResolveNofollow (path : List UInt8) :
    Q _ (pathResolveNofollow fs t path) := by
  refine hQ.bind (h.pathWalk hQ t path) fun walked => ?_
  cases walked.2 with
  | none => exact hQ.pure _
  | some name => exact hQ.bind (h.lookup _ _) fun _ => hQ.pure _

lemma Walker.Each.dirPath (ino : Nat) : Q _ (dirPath fs t ino) := by
  have hloop : ∀ depth cur path, Q _ (dirPathLoop fs t depth cur path) := by
    intro depth
    induction depth with
    | zero =>
      intro cur path
      rw [dirPathLoop]
      exact hQ.ite (hQ.pure _) (hQ.throw _)
    | succ depth ih =>
      intro cur path
      rw [dirPathLoop]
      refine hQ.ite (hQ.pure _) (hQ.bind (h.lookup _ _) fun parent => hQ.ite (hQ.pure _) ?_)
      exact hQ.bind (h.nameIn _ _) fun name => hQ.ite (hQ.throw _) (ih _ _)
  exact hQ.bind (hloop 64 ino []) fun _ => hQ.pure _

lemma Walker.Each.pathResolve (links) (path : List UInt8) : Q _ (pathResolve fs t links path) := by
  induction links using Nat.strong_induction_on generalizing path with | _ links ih
  rw [pathResolve.eq_def]
  refine hQ.bind (h.pathWalk hQ t path) fun walked => ?_
  rcases walked with ⟨d, _ | name⟩
  · exact hQ.pure _
  refine hQ.bind (h.lookup _ _) fun got => hQ.bind (h.kind _) fun kind => hQ.ite (hQ.pure _) ?_
  cases links with
  | zero => exact hQ.throw _
  | succ links =>
    specialize ih links (Nat.lt_succ_self links)
    refine hQ.bind (h.readLink _) fun target => hQ.ite (ih _) ?_
    exact hQ.bind (h.dirPath hQ t _) fun dir => hQ.ite (hQ.throw _) (ih _)

end Each

section Keep

variable {σ : Type} {fs : Walker σ} {P : σ → Prop}

variable (P) in
/-- All four questions keep `P`. -/
structure Walker.Keeps (fs : Walker σ) : Prop where
  lookup : ∀ d name, Exits.Keeps P (fs.lookup d name)
  kind : ∀ ino, Exits.Keeps P (fs.kind ino)
  readLink : ∀ ino, Exits.Keeps P (fs.readLink ino)
  nameIn : ∀ d ino, Exits.Keeps P (fs.nameIn d ino)

variable (h : fs.Keeps P) (t : Task)

include h

lemma Walker.Keeps.each : fs.Each fun _ m => Exits.Keeps P m :=
    ⟨h.lookup, h.kind, h.readLink, h.nameIn⟩

lemma Walker.Keeps.walkLinks (links) (comps) (d) : Exits.Keeps P (walkLinks fs t links comps d) :=
  h.each.walkLinks (composes_keeps P) t links comps d

lemma Walker.Keeps.pathWalk (path : List UInt8) : Exits.Keeps P (pathWalk fs t path) :=
  h.each.pathWalk (composes_keeps P) t path

lemma Walker.Keeps.dirPath (ino : Nat) : Exits.Keeps P (dirPath fs t ino) :=
    h.each.dirPath (composes_keeps P) t ino

lemma Walker.Keeps.pathResolve (links) (path : List UInt8) :
    Exits.Keeps P (pathResolve fs t links path) :=
  h.each.pathResolve (composes_keeps P) t links path

end Keep

end Sage040.Fs
