import Sage040.Vfs.Create

/-!
# Directories are searched by those who may search them

The calls that resolve a path, with what the VFS asks before them. `walk_ok` asks for the
directories that the prefixes of the path lead to; the file system passes through the directories
that the path itself leads through: the one that it begins in, and those on the way to the target of
a link, are not among the first unless a prefix happens to lead there. To open a directory nothing
is asked.

* `searched_iff`: that every directory passed through grants searching, whatever the owners and
modes are, comes down to every one of them being asked for.
* `searched_unasked`: behind a link, one is not.
-/

namespace Sage040.Vfs

open Exits Fs Fs.Ext2 Fs.Vol

inductive Resolving
  | may (path : List UInt8) (want : Nat)
  | chdir (path : List UInt8)
  | openFile (fl : Flags) (path : List UInt8)
  | unlink (path : List UInt8)
  | rename (source dest : List UInt8)

section Calls

variable (g : Geometry) (env : Env) (swap : Option (Nat → Bool)) (who : Who)

/-- `ext2_dir_ino`: the inode of a directory. -/
def dirIno (path : List UInt8) : Io Nat := do
  let ino ← pathResolve (walker g) env.toTask symlinkMaxDepth path
  let ei ← iread g ino
  if ei.kind ≠ .dir then throw .enotdir else pure ino

/-- `ext2_chdir`: the new working directory and its path. -/
def ext2Chdir (path : List UInt8) : Io (Nat × List UInt8) := do
  let ino ← dirIno g env path
  let cwd ← dirPath (walker g) env.toTask ino
  pure (ino, cwd)

def openBehind (fl : Flags) (path : List UInt8) : Door → Io Unit
  | .directory _ => do
    let _ ← dirIno g env path
    pure ()
  | .fifo _ => pure ()
  | .file _ => do
    let _ ← Ext2.openFile g env fl.toOpenFlags 8 path
    pure ()

def Resolving.run : Resolving → Io Unit
  | .may path want => vfsMay (walker g) env.toTask who path want
  | .chdir path => vfsChdir (walker g) env.toTask who path (do
      let _ ← ext2Chdir g env path
      pure ())
  | .openFile fl path => do
      let door ← openDoor (walker g) env.toTask who swap fl path
      openBehind g env fl path door
  | .unlink path => vfsUnlink (walker g) env.toTask who swap path (Ext2.unlink g env path)
  | .rename source dest =>
    vfsRename (walker g) env.toTask who swap source dest (Ext2.rename g env source dest)

def Succeeds (v : Vol) (c : Resolving) : Prop := ∃ v', Gives (c.run g env swap who) v () v'

/-- A directory in which a name of the path, or of the target of a link, is looked for. -/
def Through (v : Vol) (path : List UInt8) (d : Nat) : Prop :=
  ∃ m k, (v.linked g).Leads env.root (env.toTask.start path, names path) (d, m :: k)

/-- The same for a call that does not follow a link at the end: on the way to where `path_walk`
ends. -/
def ThroughWalk (v : Vol) (path : List UInt8) (d : Nat) : Prop :=
  ∃ e n, (finish (pathWalk (walker g) env.toTask path) v).2 = .ok (e, some n) ∧
    ∃ m k, (v.linked g).Leads env.root (env.toTask.start path, names path) (d, m :: k) ∧
      (v.linked g).Leads env.root (d, m :: k) (e, [n])

/-- The directories that the call passes through. -/
def Resolving.Passes (v : Vol) (d : Nat) : Resolving → Prop
  | .may path _ => Through g env v path d
  | .chdir path => Through g env v path d
  | .openFile _ path => Through g env v path d
  | .unlink path => ThroughWalk g env v path d
  | .rename source dest => ThroughWalk g env v source d ∨ ThroughWalk g env v dest d

/-- What opening asks, by what `stat` says of the path. -/
def statAsks (fl : Flags) (path : List UInt8) : Except Errno (Nat × Kind) → List (List UInt8 × Nat)
  | .ok st =>
    if st.2 = .dir then [] else if st.2 = .fifo then mayAsks path fl.fifoWant else
    mayAsks path fl.want
  | .error _ => if fl.creat then parentAsks path wxOk else []

def Resolving.asks (v : Vol) : Resolving → List (List UInt8 × Nat)
  | .may path want => mayAsks path want
  | .chdir path => mayAsks path xOk
  | .openFile fl path => statAsks fl path (finish (vfsStat (walker g) env.toTask path) v).2
  | .unlink path => parentAsks path wxOk
  | .rename source dest => parentAsks source wxOk ++ parentAsks dest wxOk

end Calls

variable {who : Who} {swap : Option (Nat → Bool)}

/-- The door is the one that `stat` has shown. -/
lemma openDoor_asks {σ : Type} {fs : Walker σ} {t : Task} {fl : Flags}
    {path : List UInt8} {door : Door} {s s' : σ}
    (h : Gives (openDoor fs t who swap fl path) s door s') :
    openAsks fl path door = statAsks fl path (finish (vfsStat fs t path) s).2 := by
  rcases openDoor_stat h with ⟨e, s1, hstat, rfl, -⟩ | ⟨st, s1, hstat, rfl⟩
  · rw [hstat]
    rfl
  rw [hstat]
  simp only [doorOf, statAsks]
  split_ifs <;> rfl

section Searched

variable {g : Geometry} {env : Env} {swap : Option (Nat → Bool)} {v : Vol} {rank : Nat → Nat}
  {c : Resolving} {d : Nat}

variable (hv : Hierarchy g v rank) (ht : Typed g v) (hcwd : (v.linked g).Below env.root env.cwd)

include hv ht hcwd

/-- **What is asked is all that stands between a call and its success.** -/
lemma succeeds_iff {who} (hwho : who.cred.euid ≠ 0) (c) : Succeeds g env swap who v c ↔
      Succeeds g env swap anyone v c ∧ Cleared.All (v.linked g) env.toTask who (c.asks g env v) :=
      by
  have hf := follows hv
  have hL := truthful hv ht
  have hT := hv.sound
  have hs := Seen.refl g v
  have hcall : ∀ {m : Who → Io Unit} {qs}, Guarded (v.linked g) env.toTask (Seen g v) m
    (fun _ => qs) →
      ((∃ v', Gives (m who) v () v') ↔
        (∃ v', Gives (m anyone) v () v') ∧ Cleared.All (v.linked g) env.toTask who qs) := by
    intro m qs hm
    simp only [hm.gives hwho hs, exists_and_right]
  cases c with
  | may path want => exact hcall (guarded_vfsMay hf hL hT hcwd path want)
  | chdir path => exact hcall (guarded_vfsChdir hf hL hT hcwd _ path)
  | openFile fl path =>
    have hdoor := guarded_openDoor hf hL hT hcwd swap fl path
    constructor
    · rintro ⟨v', h⟩
      obtain ⟨door, v1, hgives, h⟩ := gives_bind.1 h
      obtain ⟨hany, hall⟩ := (hdoor.gives hwho hs).1 hgives
      rw [openDoor_asks hany] at hall
      exact ⟨⟨v', gives_bind.2 ⟨door, v1, hany, h⟩⟩, hall⟩
    · rintro ⟨⟨v', h⟩, hall⟩
      obtain ⟨door, v1, hany, h⟩ := gives_bind.1 h
      rw [Resolving.asks, ← openDoor_asks hany] at hall
      exact ⟨v', gives_bind.2 ⟨door, v1, (hdoor.gives hwho hs).2 ⟨hany, hall⟩, h⟩⟩
  | unlink path => exact hcall (guarded_vfsUnlink hf hL hT hcwd _ swap path)
  | rename source dest => exact hcall (guarded_vfsRename hf hL hT hcwd _ swap source dest)

variable (hroot : IsDir g v env.root) (hdir : IsDir g v env.cwd)

include hroot hdir

omit hv ht hcwd in
lemma passes_dir (h : c.Passes g env v d) : (v.linked g).kind d = .ok .dir := by
  have hstart : ∀ path, (v.linked g).kind (env.toTask.start path) = .ok .dir := by
    intro path
    rw [Task.start, startOf]
    split
    · exact tree_kind.2 hroot
    · exact tree_kind.2 hdir
  have hthrough : ∀ path, Through g env v path d → (v.linked g).kind d = .ok .dir := by
    rintro path ⟨m, k, hlead⟩
    exact hlead.dir (tree_kind.2 hroot) (hstart path)
  have hwalk : ∀ path, ThroughWalk g env v path d → (v.linked g).kind d = .ok .dir := by
    rintro path ⟨-, -, -, m, k, hlead, -⟩
    exact hthrough path ⟨m, k, hlead⟩
  cases c with
  | may path want => exact hthrough path h
  | chdir path => exact hthrough path h
  | openFile fl path => exact hthrough path h
  | unlink path => exact hwalk path h
  | rename source dest => exact h.elim (hwalk source) (hwalk dest)

/-- **Every directory that a call passes through grants searching to its caller, whatever the owners
and modes are, if and only if every one of them is asked for.** -/
theorem searched_iff (swap : Option (Nat → Bool)) (c : Resolving)
    (hsucceeds : ∃ who : Who, who.cred.euid ≠ 0 ∧ Succeeds g env swap who v c) :
    (∀ who : Who, who.cred.euid ≠ 0 → Succeeds g env swap who v c → ∀ d, c.Passes g env v d →
      who.may (d, .dir) xOk = true) ↔ ∀ d, c.Passes g env v d → ∃ q ∈ c.asks g env v,
      q.2 &&& xOk ≠ 0 ∧
        (v.linked g).Leads env.root (env.toTask.start q.1, names q.1) (d, []) := by
  obtain ⟨who₀, hwho₀, hsucceeds⟩ := hsucceeds
  have hany := ((succeeds_iff hv ht hcwd hwho₀ c).1 hsucceeds).1
  constructor
  · intro hall d hd
    refine (cleared_iff (passes_dir hroot hdir hd) (.inr rfl)).1 fun who hwho hcleared => ?_
    exact hall who hwho ((succeeds_iff hv ht hcwd hwho c).2 ⟨hany, hcleared⟩) d hd
  intro hasked who hwho hgo d hd
  have hcleared := ((succeeds_iff hv ht hcwd hwho c).1 hgo).2
  exact (cleared_iff (passes_dir hroot hdir hd) (.inr rfl)).2 (hasked d hd) who hwho hcleared

end Searched

/-! ### Through a link -/

/-- A task that may do anything but search `/s`. -/
def unsearching : Who := ⟨⟨1000, 1000, []⟩, fun ino => if ino = 13 then ⟨0o666, 0, 0⟩ else
    ⟨0o777, 0, 0⟩⟩

/-- `O_RDONLY`. -/
def readFlags : Flags := ⟨⟨false, false, false, false, false, false⟩, true, false⟩

lemma succeeds_of_finish {g env v c} (h : (finish (c.run g env swap who) v).2 = .ok ()) :
    Succeeds g env swap who v c :=
  ⟨(finish (c.run g env swap who) v).1, gives_of_finish (Prod.ext rfl h)⟩

lemma pair_next : (pairVol.linked oneGroup).next 2 (2, [[112], [107]]) = some (12, [[107]]) ∧
    (pairVol.linked oneGroup).next 2 (12, [[107]]) = some (2, [[115], [102]]) ∧
    (pairVol.linked oneGroup).next 2 (2, [[115], [102]]) = some (13, [[102]]) := by decide +kernel

/-- **A directory is passed through that the task may not search**: it opens the link in `/p` for
reading, and reads `/s/f`. -/
theorem searched_unasked : Hierarchy oneGroup pairVol pairRank ∧ unsearching.cred.euid ≠ 0 ∧
      Succeeds oneGroup pairEnv none unsearching pairVol (.openFile readFlags [47, 112, 47, 107]) ∧
      (Resolving.openFile readFlags [47, 112, 47, 107]).Passes oneGroup pairEnv pairVol 13 ∧
      unsearching.may (13, .dir) xOk = false := by
  refine ⟨pair_hierarchy, by
    decide, succeeds_of_finish (by decide +kernel), ⟨[102], [], ?_⟩, by decide⟩
  exact .head pair_next.1 (.head pair_next.2.1 (.single pair_next.2.2))

/-- In `/p`. -/
def inPair : Env := ⟨⟨12, 2⟩, 1000, false⟩

/-- `chdir(".")` asks for the one directory that it passes through. -/
theorem searched_iff_dot : Resolving.Passes oneGroup inPair pairVol 12 (.chdir dot) ∧
    pairWho.may (12, .dir) xOk = true := by
  have hsucceeds : Succeeds oneGroup inPair none pairWho pairVol (.chdir dot) :=
    succeeds_of_finish (by decide +kernel)
  have hnext : (pairVol.linked oneGroup).next 2 (12, [dot]) = some (12, []) := by decide +kernel
  have hlook : (pairVol.linked oneGroup).look 2 [112] = .ok (12, 2) := by decide +kernel
  have hbelow : (pairVol.linked oneGroup).Below 2 12 := (Tree.Below.refl _ 2).step (by decide) hlook
  have hpass : Resolving.Passes oneGroup inPair pairVol 12 (.chdir dot) := ⟨dot, [], .refl⟩
  have hiff := searched_iff pair_hierarchy pair_typed hbelow (by decide +kernel) (by decide +kernel)
    none (.chdir dot)
    ⟨pairWho, by decide, hsucceeds⟩
  refine ⟨hpass, hiff.2 (fun d hd => ⟨(dot, xOk), by decide, by decide, ?_⟩) pairWho (by decide)
    hsucceeds 12 hpass⟩
  obtain ⟨m, k, hlead⟩ := hd
  rcases Relation.ReflTransGen.cases_head hlead with heq | ⟨q, hq, hon⟩
  · obtain ⟨rfl, -⟩ := Prod.mk.inj heq
    exact .single hnext
  obtain rfl := Option.some.inj (hnext.symm.trans hq)
  have hnil := Linked.Leads.eq_of_nil hon
  simp at hnil

end Sage040.Vfs
