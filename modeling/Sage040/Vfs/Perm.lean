import Sage040.Fs.Ext2.Calls
import Sage040.Fs.Trail

/-!
# Who may do what

`perm_ok`, `walk_ok`, `vfs_may` and `vfs_may_parent` of `vfs.c`, and the calls that ask them, over
whatever keeps the directories. The file system itself asks nothing: each call stats the paths that
it wants permission on, one after the other and each from its first name on, and then hands the path
to the file system.

The questions that a call asks are paths and wants (`searches`, `mayAsks`, `parentAsks`). `Guarded`
says what they amount to: that a call succeeds for a task, who is not root, exactly if it does for
whoever may do anything, and the task is `Cleared` on each of the questions. Of what the task may do
elsewhere nothing follows: if no question leads to a directory, everything else can be allowed while
that directory is not (`cleared_iff`).
-/

namespace Sage040.Vfs

open Exits Fs Fs.Ext2 List

/-! ## Permission -/

/-- Who asks. -/
structure Cred where
  euid : Nat
  egid : Nat
  groups : List Nat

/-- What `stat` says of a file, in what `perm_ok` looks at. -/
structure Attr where
  mode : Nat
  uid : Nat
  gid : Nat

/-- `R_OK`, `W_OK` and `X_OK`. -/
def rOk : Nat := 4
/-- `W_OK`. -/
def wOk : Nat := 2
/-- `X_OK`. -/
def xOk : Nat := 1

/-- To make a name in a directory. -/
def wxOk : Nat := wOk ||| xOk

/-- The three bits of a mode that are for the task: the first set that matches. -/
def modeBits (c : Cred) (a : Attr) : Nat :=
  if c.euid = a.uid then a.mode >>> 6 &&& 7
  else if c.egid = a.gid ∨ a.gid ∈ c.groups then a.mode >>> 3 &&& 7
  else a.mode &&& 7

/-- The bits that are wanted are all there. -/
def hasBits (bits want : Nat) : Bool :=
  !(decide (want &&& rOk ≠ 0) && decide (bits &&& 4 = 0)) &&
    !(decide (want &&& wOk ≠ 0) && decide (bits &&& 2 = 0)) &&
    !(decide (want &&& xOk ≠ 0) && decide (bits &&& 1 = 0))

/-- `perm_ok`. -/
def permOk (c : Cred) (kind : Kind) (a : Attr) (want : Nat) : Bool :=
  if c.euid = 0 then
    -- root may do anything, but run what nobody may
    if want &&& xOk ≠ 0 then decide (kind = .dir) || decide (a.mode &&& 0o111 ≠ 0) else true
  else hasBits (modeBits c a) want

/-- A task, and the owners and modes of all inodes. -/
structure Who where
  cred : Cred
  attr : Nat → Attr

/-- May the task, with what `stat` says. -/
def Who.may (w : Who) (st : Nat × Kind) (want : Nat) : Bool := permOk w.cred st.2 (w.attr st.1) want

/-! ## The questions -/

/-- The paths before each slash but one at the very beginning. -/
def prefixes (path : List UInt8) : List (List UInt8) :=
  (List.range path.length).filterMap fun i => if i ≠ 0 ∧
    path[i]? = some slash then some (path.take i) else none

/-- The directory that a path names an entry in, for `vfs_may_parent`. -/
def parentPath (path : List UInt8) : List UInt8 :=
  if dirPart path = [] then dot
  else if (dirPart path).dropLast = [] then [slash]
  else (dirPart path).dropLast

section Ask

variable {σ : Type} (fs : Walker σ) (t : Task) (who : Who) (path : List UInt8)

/-- `vfs_stat`. -/
def vfsStat : EStateM Errno σ (Nat × Kind) := do
  let ino ← pathResolve fs t symlinkMaxDepth path
  let kind ← fs.kind ino
  pure (ino, kind)

/-- `vfs_lstat`. -/
def vfsLstat : EStateM Errno σ (Nat × Kind) := do
  let ino ← pathResolveNofollow fs t path
  let kind ← fs.kind ino
  pure (ino, kind)

/-- The loop of `walk_ok`. -/
def walkOkLoop : List (List UInt8) → EStateM Errno σ Unit
  | [] => pure ()
  | dir :: dirs =>
    if pathMax ≤ dir.length then throw .enametoolong
    else do
      let st ← vfsStat fs t dir
      if st.2 ≠ .dir then throw .enotdir
      else if who.may st xOk = false then throw .eacces
      else walkOkLoop dirs

/-- `walk_ok`: root need not be asked. -/
def walkOk : EStateM Errno σ Unit :=
  if who.cred.euid = 0 then pure () else walkOkLoop fs t who (prefixes path)

/-- `vfs_may`. -/
def vfsMay (want : Nat) : EStateM Errno σ Unit := do
  walkOk fs t who path
  let st ← vfsStat fs t path
  if who.may st want = false then throw .eacces else pure ()

/-- `vfs_may_parent`. -/
def vfsMayParent (want : Nat) : EStateM Errno σ Unit :=
  if pathMax < (dirPart path).length then throw .enametoolong else
    vfsMay fs t who (parentPath path) want

/-- `path_is_swapfile`; `swap` has the inodes of the swap files while swapping is on. -/
def pathIsSwapfile (swap : Option (Nat → Bool)) (path : List UInt8) : EStateM Errno σ Bool :=
  match swap with
  | none => pure false
  | some holds => do
    match ← attempt (vfsStat fs t path) with
    | .error _ => pure false
    | .ok st => pure (decide (st.2 = .reg) && holds st.1)

/-! ## The calls -/

variable {α : Type} (swap : Option (Nat → Bool))

/-- `vfs_mkdir_mode_raw`; `make` is the file system's call. -/
def vfsMkdir (path : List UInt8) (make : EStateM Errno σ α) : EStateM Errno σ α := do
  vfsMayParent fs t who path xOk
  match ← attempt (vfsLstat fs t path) with
  | .ok _ => throw .eexist
  | .error _ => do
    vfsMayParent fs t who path wxOk
    make

/-- `vfs_symlink_raw`, and `vfs_mknod_raw` for a FIFO. -/
def vfsMake (path : List UInt8) (make : EStateM Errno σ α) : EStateM Errno σ α := do
  vfsMayParent fs t who path wxOk
  make

/-- `vfs_link_raw`. -/
def vfsLink (source dest : List UInt8) (link : EStateM Errno σ α) : EStateM Errno σ α := do
  walkOk fs t who source
  let _ ← vfsLstat fs t source
  vfsMayParent fs t who dest wxOk
  link

/-- `vfs_unlink_raw`. -/
def vfsUnlink (path : List UInt8) (unlink : EStateM Errno σ α) : EStateM Errno σ α := do
  let swapped ← pathIsSwapfile fs t swap path
  if swapped = true then throw .etxtbsy
  else do
    vfsMayParent fs t who path wxOk
    unlink

/-- `vfs_rename_raw`. -/
def vfsRename (source dest : List UInt8) (rename : EStateM Errno σ α) : EStateM Errno σ α := do
  let swapped ← pathIsSwapfile fs t swap source
  if swapped = true then throw .etxtbsy
  else do
    let swapped ← pathIsSwapfile fs t swap dest
    if swapped = true then throw .etxtbsy
    else do
      vfsMayParent fs t who source wxOk
      vfsMayParent fs t who dest wxOk
      rename

/-- `vfs_chdir_disk`. -/
def vfsChdir (path : List UInt8) (chdir : EStateM Errno σ α) : EStateM Errno σ α := do
  vfsMay fs t who path xOk
  chdir

/-- The flags of `open`, with those that only the VFS looks at. -/
structure Flags extends OpenFlags where
  read : Bool
  directory : Bool

/-- The access that the flags of an `open` ask for. -/
def Flags.want (fl : Flags) : Nat := (if fl.read then rOk else 0) |||
    (if fl.write || fl.trunc then wOk else 0)

/-- The same of a FIFO. -/
def Flags.fifoWant (fl : Flags) : Nat := if fl.write = false then rOk else if fl.read = false then
    wOk else rOk ||| wOk

/-- What an `open` goes on with: a directory, a FIFO, or the file system's own `open`, of what is
there or of what is not. -/
inductive Door
  | directory (ino : Nat)
  | fifo (ino : Nat)
  | file (present : Bool)
  deriving DecidableEq

/-- What is opened there. -/
def doorOf (st : Nat × Kind) : Door :=
  if st.2 = .dir then .directory st.1 else if st.2 = .fifo then .fifo st.1 else .file true

/-- Whether a swap file would be cut. -/
def cutsSwapfile (fl : Flags) (path : List UInt8) : EStateM Errno σ Bool :=
  if fl.trunc = true then pathIsSwapfile fs t swap path else pure false

/-- `fd_open_mode_raw`, up to the file system's call. -/
def openDoor (fl : Flags) (path : List UInt8) : EStateM Errno σ Door :=
  if path = [] then throw .einval
  else if pathMax < path.length then throw .enametoolong
  else do
    match ← attempt (vfsStat fs t path) with
    | .ok st =>
      if st.2 = .dir then
        if fl.write = true ∨ fl.creat = true then throw .eisdir else pure (.directory st.1)
      else if st.2 = .fifo then
        if fl.creat = true ∧ fl.excl = true then throw .eexist
        else do
          vfsMay fs t who path fl.fifoWant
          pure (.fifo st.1)
      else if fl.directory = true then throw .enotdir
      else if fl.creat = true ∧ fl.excl = true then throw .eexist
      else do
        let swapped ← cutsSwapfile fs t swap fl path
        if swapped = true then throw .etxtbsy
        else do
          vfsMay fs t who path fl.want
          pure (.file true)
    | .error _ =>
      if fl.directory = true then throw .enoent
      else if fl.creat = true then do
        -- a file that is not there is a change to the directory
        vfsMayParent fs t who path wxOk
        pure (.file false)
      else pure (.file false)

end Ask

/-! ## What is asked -/

/-- Every directory on the way is searched. -/
def searches (path : List UInt8) : List (List UInt8 × Nat) :=
    (prefixes path).map fun dir => (dir, xOk)

/-- What `vfs_may` asks. -/
def mayAsks (path : List UInt8) (want : Nat) : List (List UInt8 × Nat) :=
    searches path ++ [(path, want)]

/-- What `vfs_may_parent` asks. -/
def parentAsks (path : List UInt8) (want : Nat) : List (List UInt8 × Nat) :=
    mayAsks (parentPath path) want

/-- What `open` asks. -/
def openAsks (fl : Flags) (path : List UInt8) : Door → List (List UInt8 × Nat)
  | .directory _ => []
  | .fifo _ => mayAsks path fl.fifoWant
  | .file true => mayAsks path fl.want
  | .file false => if fl.creat then parentAsks path wxOk else []

section Clear

variable (L : Linked) (t : Task)

/-- What the path leads to, the task may. -/
def Cleared (who : Who) (q : List UInt8 × Nat) : Prop :=
  ∀ x kind, L.Arrives t.root (t.start q.1, names q.1) x → L.kind x = .ok kind →
    who.may (x, kind) q.2 = true

/-- Whoever asks has all of these. -/
def Cleared.All (who : Who) (qs : List (List UInt8 × Nat)) : Prop := ∀ q ∈ qs, Cleared L t who q

/-- Somebody who may do anything and is not root. -/
def anyone : Who := ⟨⟨1, 1, []⟩, fun _ => ⟨0o777, 0, 0⟩⟩

/-- **What a call asks is all that stands between it and its success.** -/
structure Guarded {σ α : Type} (P : σ → Prop) (m : Who → EStateM Errno σ α)
    (asks : α → List (List UInt8 × Nat)) :
    Prop where
  gives : ∀ {who s a s'}, who.cred.euid ≠ 0 → P s →
    (Gives (m who) s a s' ↔ Gives (m anyone) s a s' ∧ Cleared.All L t who (asks a))

variable {L t} {σ α β : Type} {P : σ → Prop} {m : Who → EStateM Errno σ α}
  {k : Who → α → EStateM Errno σ β}
  {A : List (List UInt8 × Nat)} {B : β → List (List UInt8 × Nat)} {asks : α →
    List (List UInt8 × Nat)}

lemma anyone_may (st : Nat × Kind) (want : Nat) : anyone.may st want = true := by
  simp [Who.may, permOk, anyone, modeBits, hasBits]

lemma Guarded.const (m : EStateM Errno σ α) : Guarded L t P (fun _ => m) fun _ => [] :=
  ⟨fun _ _ => ⟨fun h => ⟨h, fun _ hq => absurd hq not_mem_nil⟩, And.left⟩⟩

lemma Guarded.pure {a : α} (ha : asks a = []) : Guarded L t P (fun _ => Pure.pure a) asks := by
  refine ⟨fun {who s b s'} _ _ => ?_⟩
  rw [gives_pure]
  constructor
  · rintro ⟨rfl, rfl⟩
    rw [ha]
    exact ⟨⟨rfl, rfl⟩, fun q hq => absurd hq not_mem_nil⟩
  · exact And.left

lemma Guarded.throw (e : Errno) : Guarded L t P (fun _ => throw e) asks :=
  ⟨fun _ _ => iff_of_false not_gives_throw fun h => not_gives_throw h.1⟩

lemma Guarded.ite {c : Prop} [Decidable c] {m'} (h : c → Guarded L t P m asks)
    (h' : ¬c → Guarded L t P m' asks) : Guarded L t P (fun who => if c then m who else
    m' who) asks := by
  by_cases hc : c
  · simp only [if_pos hc]
    exact h hc
  · simp only [if_neg hc]
    exact h' hc

lemma Guarded.bind (hkeep : ∀ who, Keeps P (m who)) (hm : Guarded L t P m fun _ => A)
    (hk : ∀ a, Guarded L t P (fun who => k who a) B) :
    Guarded L t P (fun who => m who >>= k who) fun b => A ++ B b := by
  refine ⟨fun {who s b s'} hwho hs => ?_⟩
  simp only [gives_bind]
  constructor
  · rintro ⟨a, s1, hfirst, hthen⟩
    have hs1 : P s1 := hfirst.of_ends (hkeep who s hs)
    obtain ⟨hfirst, hA⟩ := (hm.gives hwho hs).1 hfirst
    obtain ⟨hthen, hB⟩ := ((hk a).gives hwho hs1).1 hthen
    exact ⟨⟨a, s1, hfirst, hthen⟩, fun q hq => (mem_append.1 hq).elim (hA q) (hB q)⟩
  · rintro ⟨⟨a, s1, hfirst, hthen⟩, hall⟩
    have hs1 : P s1 := hfirst.of_ends (hkeep anyone s hs)
    refine ⟨a, s1, (hm.gives hwho hs).2 ⟨hfirst, fun q hq => hall q (mem_append_left _ hq)⟩, ?_⟩
    exact ((hk a).gives hwho hs1).2 ⟨hthen, fun q hq => hall q (mem_append_right _ hq)⟩

lemma Guarded.after {m : EStateM Errno σ α} (hm : Keeps P m)
    (hk : ∀ a, Guarded L t P (fun who => k who a) B) :
    Guarded L t P (fun who => m >>= k who) B :=
  (Guarded.const m).bind (fun _ => hm) hk

lemma Guarded.before {op : EStateM Errno σ β} (hkeep : ∀ who, Keeps P (m who))
    (hm : Guarded L t P m fun _ => A) :
    Guarded L t P (fun who => m who >>= fun _ => op) fun _ => A := by
  have hgo := hm.bind hkeep fun _ => Guarded.const op
  simp only [append_nil] at hgo
  exact hgo

lemma Guarded.answer {b : β} (hm : Guarded L t P m fun _ => A) (hb : B b = A) :
    Guarded L t P (fun who => m who >>= fun _ => Pure.pure b) B := by
  refine ⟨fun {who s b' s'} hwho hs => ?_⟩
  simp only [gives_bind, gives_pure]
  constructor
  · rintro ⟨a, s1, hfirst, rfl, rfl⟩
    obtain ⟨hfirst, hA⟩ := (hm.gives hwho hs).1 hfirst
    exact ⟨⟨a, s1, hfirst, rfl, rfl⟩, hb ▸ hA⟩
  · rintro ⟨⟨a, s1, hfirst, rfl, rfl⟩, hall⟩
    exact ⟨a, s1, (hm.gives hwho hs).2 ⟨hfirst, hb ▸ hall⟩, rfl, rfl⟩

end Clear

/-! ## The calls are guarded -/

section Guards

variable {σ : Type} {fs : Walker σ} {P : σ → Prop} {L : Linked} {rank : Nat → Nat} {t : Task}

variable (h : fs.Follows P L) (hL : L.Truthful) (hT : L.Sound rank) (hcwd : L.Below t.root t.cwd)

include h

lemma keeps_vfsStat (path) : Keeps P (vfsStat fs t path) :=
  (h.keepsAll.pathResolve t _ path).bind fun ino => (h.keepsAll.kind ino).bind fun _ => .pure _

lemma keeps_vfsLstat (path) : Keeps P (vfsLstat fs t path) :=
  (h.keepsAll.each.pathResolveNofollow (composes_keeps P) t path).bind fun ino =>
    (h.keepsAll.kind ino).bind fun _ => .pure _

lemma keeps_pathIsSwapfile (swap path) : Keeps P (pathIsSwapfile fs t swap path) := by
  rcases swap with _ | holds
  · exact .pure _
  refine (keeps_vfsStat h path).attempt.bind fun r => ?_
  rcases r with e | st
  · exact .pure _
  · exact .pure _

lemma keeps_walkOkLoop (who) (dirs : List (List UInt8)) : Keeps P (walkOkLoop fs t who dirs) := by
  induction dirs with
  | nil => exact .pure _
  | cons dir dirs ih =>
    exact .ite (.throw _) ((keeps_vfsStat h dir).bind fun _ => .ite (.throw _) (.ite (.throw _) ih))

lemma keeps_walkOk (path who) : Keeps P (walkOk fs t who path) :=
  .ite (.pure _) (keeps_walkOkLoop h who _)

lemma keeps_vfsMay (path) (want : Nat) (who) : Keeps P (vfsMay fs t who path want) :=
  (keeps_walkOk h path who).bind fun _ => (keeps_vfsStat h path).bind fun _ => .ite
    (.throw _) (.pure _)

lemma keeps_vfsMayParent (path) (want : Nat) (who) : Keeps P (vfsMayParent fs t who path want) :=
  .ite (.throw _) (keeps_vfsMay h _ want who)

lemma keeps_openDoor (swap) (fl : Flags) (path who) : Keeps P (openDoor fs t who swap fl path) := by
  refine .ite (.throw _) (.ite (.throw _) ((keeps_vfsStat h path).attempt.bind fun r => ?_))
  rcases r with e | st
  · exact .ite (.throw _) (.ite ((keeps_vfsMayParent h path wxOk who).bind fun _ => .pure _)
      (.pure _))
  refine .ite (.ite (.throw _) (.pure _)) (.ite
    (.ite (.throw _) ((keeps_vfsMay h path _ who).bind fun _ => .pure _))
    (.ite (.throw _) (.ite (.throw _) ?_)))
  exact Keeps.bind (.ite (keeps_pathIsSwapfile h swap path) (.pure _)) fun _ =>
    .ite (.throw _) ((keeps_vfsMay h path _ who).bind fun _ => .pure _)

variable {swap : Option (Nat → Bool)}

variable {fl : Flags} {u : Unit} {source dest : List UInt8}

omit h in
/-- The way in is the one that `stat` has shown. -/
lemma openDoor_stat {path who} {door : Door} {s s' : σ}
    (hgo : Gives (openDoor fs t who swap fl path) s door s') :
    (∃ e s1, finish (vfsStat fs t path) s = (s1, .error e) ∧ door = .file false ∧
      (fl.creat = true → ∃ u s2, Gives (vfsMayParent fs t who path wxOk) s1 u s2)) ∨
    ∃ st s1, finish (vfsStat fs t path) s = (s1, .ok st) ∧ door = doorOf st := by
  obtain ⟨-, hgo⟩ := hgo.guard
  obtain ⟨r, s1, hstat, hgo⟩ := gives_bind.1 hgo.guard.2
  rw [gives_attempt] at hstat
  rcases r with e | st
  · refine .inl ⟨e, s1, hstat, ?_⟩
    replace hgo := hgo.guard.2
    split at hgo
    · obtain ⟨u, s2, hmay, hgo⟩ := gives_bind.1 hgo
      exact ⟨(gives_pure.1 hgo).1.symm, fun _ => ⟨u, s2, hmay⟩⟩
    · exact ⟨(gives_pure.1 hgo).1.symm, fun hc => absurd hc ‹_›⟩
  refine .inr ⟨st, s1, hstat, ?_⟩
  dsimp only at hgo
  rw [doorOf]
  split at hgo
  · rw [if_pos ‹_›, (gives_pure.1 hgo.guard.2).1]
  rw [if_neg ‹_›]
  split at hgo
  · obtain ⟨_, s2, -, hgo⟩ := gives_bind.1 hgo.guard.2
    rw [if_pos ‹_›, (gives_pure.1 hgo).1]
  obtain ⟨_, s2, -, hgo⟩ := gives_bind.1 hgo.guard.2.guard.2
  obtain ⟨_, s3, -, hgo⟩ := gives_bind.1 hgo.guard.2
  rw [if_neg ‹_›, (gives_pure.1 hgo).1]

omit h in
/-- The file system is asked to open what is there, if `stat` has found it. -/
lemma stat_of_present {path who} {s s' : σ}
    (hdoor : Gives (openDoor fs t who swap fl path) s (.file true) s') : ∃ st,
    (finish (vfsStat fs t path) s).2 = .ok st := by
  rcases openDoor_stat hdoor with ⟨e, s1, -, hfile, -⟩ | ⟨st, s1, hstat, -⟩
  · simp at hfile
  · exact ⟨st, by rw [hstat]⟩

include hL hT hcwd

variable (path : List UInt8)

/-- `stat` arrives where the path leads. -/
lemma vfsStat_arrives {s : σ} (hs : P s) : Ends (vfsStat fs t path) s
    (OkIs P fun st => L.Arrives t.root (t.start path, names path) st.1 ∧ L.kind st.1 = .ok st.2) :=
    by
  refine (h.pathResolve_arrives hL hT hcwd _ path hs).bind (fun s1 ino hino => ?_) fun s1 e
    he => okIs_error he.1
  refine (h.kind s1 hino.1 ino).bind (fun s2 kind hkind => ?_) fun s2 e he => okIs_error he.1
  exact okIs_ok hkind.1 ⟨hino.2 _ rfl, hkind.2.symm⟩

/-- A permission on what a path leads to is one question, whatever is looked at before. -/
lemma guarded_grant (want : Nat) (c : Nat × Kind → Prop) [DecidablePred c] (e : Errno) {α}
    {k : Who → Nat × Kind → EStateM Errno σ α} {B : α → List (List UInt8 × Nat)}
    (hk : ∀ st, Guarded L t P (fun who => k who st) B) : Guarded L t P (fun who => do
      let st ← vfsStat fs t path
      if c st then throw e else if who.may st want = false then throw .eacces else k who st)
      fun a => (path, want) :: B a := by
  refine ⟨fun {who s a s'} hwho hs => ?_⟩
  simp only [gives_bind, anyone_may, Bool.true_eq_false, if_false]
  constructor
  · rintro ⟨st, s1, hst, hthen⟩
    obtain ⟨hs1, hspec⟩ := hst.of_ends (vfsStat_arrives h hL hT hcwd path hs)
    obtain ⟨harrives, hkind⟩ := hspec _ rfl
    obtain ⟨hc, hthen⟩ := hthen.guard
    obtain ⟨hmay, hthen⟩ := hthen.guard
    obtain ⟨hthen, hB⟩ := ((hk st).gives hwho hs1).1 hthen
    refine ⟨⟨st, s1, hst, (if_neg hc).symm ▸ hthen⟩, fun q hq => ?_⟩
    rcases mem_cons.1 hq with rfl | hq
    · intro x kind hx hxk
      -- the path leads to one inode only
      obtain rfl := hx.unique harrives
      rw [hkind, Except.ok.injEq] at hxk
      rw [← hxk]
      simpa using hmay
    · exact hB q hq
  · rintro ⟨⟨st, s1, hst, hthen⟩, hall⟩
    obtain ⟨hs1, hspec⟩ := hst.of_ends (vfsStat_arrives h hL hT hcwd path hs)
    obtain ⟨harrives, hkind⟩ := hspec _ rfl
    have hmay : who.may st want = true := hall _ mem_cons_self _ _ harrives hkind
    refine ⟨st, s1, hst, ?_⟩
    split at hthen
    · exact absurd hthen not_gives_throw
    · next hc =>
      rw [hmay, if_neg hc, if_neg (by simp)]
      exact ((hk st).gives hwho hs1).2 ⟨hthen, fun q hq => hall q (mem_cons_of_mem _ hq)⟩

lemma guarded_walkOk : Guarded L t P (fun who => walkOk fs t who path) fun _ => searches path := by
  have hloop : ∀ dirs, Guarded L t P (fun who => walkOkLoop fs t who dirs) fun _ => dirs.map
      fun dir => (dir, xOk) := by
    intro dirs
    induction dirs with
    | nil => exact .pure rfl
    | cons dir dirs ih =>
      simp only [walkOkLoop]
      exact .ite (fun _ => .throw _) fun _ => guarded_grant h hL hT hcwd dir xOk (fun st => st.2 ≠
        .dir) .enotdir fun _ => ih
  refine ⟨fun {who s a s'} hwho hs => ?_⟩
  rw [walkOk, walkOk, if_neg hwho, if_neg (by decide)]
  exact (hloop _).gives hwho hs

lemma guarded_vfsMay (want : Nat) :
    Guarded L t P (fun who => vfsMay fs t who path want) fun _ => mayAsks path want := by
  have hgrant := guarded_grant h hL hT hcwd path want (fun _ => False) .eacces
    (fun _ => Guarded.const (Pure.pure ()))
  simp only [if_false] at hgrant
  exact (guarded_walkOk h hL hT hcwd path).bind (keeps_walkOk h path) fun _ => hgrant

lemma guarded_vfsMayParent (want : Nat) :
    Guarded L t P (fun who => vfsMayParent fs t who path want) fun _ => parentAsks path want :=
  .ite (fun _ => .throw _) fun _ => guarded_vfsMay h hL hT hcwd _ want

variable {path}

section Calls

variable {α : Type} (op : EStateM Errno σ α)

lemma guarded_vfsMake (path) : Guarded L t P (fun who => vfsMake fs t who path op)
    fun _ => parentAsks path wxOk :=
  (guarded_vfsMayParent h hL hT hcwd path wxOk).before (keeps_vfsMayParent h path wxOk)

lemma guarded_vfsMkdir (path) :
    Guarded L t P (fun who => vfsMkdir fs t who path op) fun _ => parentAsks path xOk ++
    parentAsks path wxOk := by
  refine (guarded_vfsMayParent h hL hT hcwd path xOk).bind (keeps_vfsMayParent h path xOk) fun _ =>
    .after (keeps_vfsLstat h path).attempt fun r => ?_
  rcases r with e | st
  · exact guarded_vfsMake h hL hT hcwd op path
  · exact .throw _

lemma guarded_vfsLink (source dest) :
    Guarded L t P (fun who => vfsLink fs t who source dest op) fun _ => searches source ++
    parentAsks dest wxOk :=
  (guarded_walkOk h hL hT hcwd source).bind (keeps_walkOk h source) fun _ => .after
      (keeps_vfsLstat h source) fun _ =>
    guarded_vfsMake h hL hT hcwd op dest

lemma guarded_vfsUnlink (swap path) :
    Guarded L t P (fun who => vfsUnlink fs t who swap path op) fun _ => parentAsks path wxOk :=
  .after (keeps_pathIsSwapfile h swap path) fun _ => .ite (fun _ => .throw _)
    fun _ => guarded_vfsMake h hL hT hcwd op path

lemma guarded_vfsRename (swap source dest) : Guarded L t P
    (fun who => vfsRename fs t who swap source dest op)
      fun _ => parentAsks source wxOk ++ parentAsks dest wxOk :=
  .after (keeps_pathIsSwapfile h swap source) fun _ => .ite (fun _ => .throw _) fun _ =>
    .after (keeps_pathIsSwapfile h swap dest) fun _ => .ite (fun _ => .throw _) fun _ =>
      (guarded_vfsMayParent h hL hT hcwd source wxOk).bind
          (keeps_vfsMayParent h source wxOk) fun _ =>
        guarded_vfsMake h hL hT hcwd op dest

lemma guarded_vfsChdir (path) : Guarded L t P (fun who => vfsChdir fs t who path op)
    fun _ => mayAsks path xOk :=
  (guarded_vfsMay h hL hT hcwd path xOk).before (keeps_vfsMay h path xOk)

end Calls

lemma guarded_openDoor (swap fl path) :
    Guarded L t P (fun who => openDoor fs t who swap fl path) (openAsks fl path) := by
  refine .ite (fun _ => .throw _) fun _ => .ite (fun _ => .throw _) fun _ => .after
    (keeps_vfsStat h path).attempt fun r => ?_
  rcases r with e | st
  · refine .ite (fun _ => .throw _) fun _ => .ite (fun hcreat => ?_) fun hcreat => .pure
      (if_neg hcreat)
    exact (guarded_vfsMayParent h hL hT hcwd path wxOk).answer (if_pos hcreat)
  refine .ite (fun _ => .ite (fun _ => .throw _) fun _ => .pure rfl) fun _ => .ite
      (fun _ => .ite (fun _ => .throw _) fun _ =>
    (guarded_vfsMay h hL hT hcwd path fl.fifoWant).answer rfl) fun _ => .ite
        (fun _ => .throw _) fun _ =>
    .ite (fun _ => .throw _) fun _ => .after (Keeps.ite (keeps_pathIsSwapfile h swap path)
        (.pure _)) fun _ =>
    .ite (fun _ => .throw _) fun _ => (guarded_vfsMay h hL hT hcwd path fl.want).answer rfl

/-! ### What has been asked leads somewhere -/

variable {α : Type} {op : EStateM Errno σ α} {who : Who} {path : List UInt8} {want : Nat}
  {a : α} {s s' : σ}

lemma vfsMay_arrives (hs : P s) (hgo : Gives (vfsMay fs t who path want) s u s') :
    P s' ∧ ∃ x, L.Arrives t.root (t.start path, names path) x := by
  refine ⟨hgo.of_ends (keeps_vfsMay h path want who s hs), ?_⟩
  obtain ⟨_, s1, hs1, hgo⟩ := (keeps_walkOk h path who).gives_bind hs hgo
  obtain ⟨st, s2, hstat, -⟩ := gives_bind.1 hgo
  exact ⟨st.1, ((hstat.of_ends (vfsStat_arrives h hL hT hcwd path hs1)).2 _ rfl).1⟩

/-- The path up to its last name leads somewhere. -/
abbrev ParentFound (L : Linked) (t : Task) (path : List UInt8) : Prop :=
  ∃ x, L.Arrives t.root (t.start (parentPath path), names (parentPath path)) x

lemma vfsMayParent_arrives (hs : P s) (hgo : Gives (vfsMayParent fs t who path want) s u s') :
    P s' ∧ ParentFound L t path := by
  rw [vfsMayParent] at hgo
  exact vfsMay_arrives h hL hT hcwd hs hgo.guard.2

/-- The file system is called once the directory has been asked for. -/
lemma vfsMake_gives (hs : P s) (hgo : Gives (vfsMake fs t who path op) s a s') :
    ParentFound L t path ∧ ∃ s1, P s1 ∧ Gives op s1 a s' := by
  obtain ⟨_, s1, hmay, hgo⟩ := gives_bind.1 hgo
  obtain ⟨hs1, hx⟩ := vfsMayParent_arrives h hL hT hcwd hs hmay
  exact ⟨hx, s1, hs1, hgo⟩

lemma vfsMkdir_gives (hs : P s) (hgo : Gives (vfsMkdir fs t who path op) s a s') :
    ParentFound L t path ∧ ∃ s1, P s1 ∧ Gives op s1 a s' := by
  obtain ⟨_, s1, hs1, hgo⟩ := (keeps_vfsMayParent h path xOk who).gives_bind hs hgo
  obtain ⟨r, s2, hs2, hgo⟩ := (keeps_vfsLstat h path).attempt.gives_bind hs1 hgo
  rcases r with e | st
  · exact vfsMake_gives h hL hT hcwd hs2 hgo
  · exact absurd hgo not_gives_throw

lemma vfsLink_gives (hs : P s) (hgo : Gives (vfsLink fs t who source dest op) s a s') :
    ParentFound L t dest ∧ ∃ s1, P s1 ∧ Gives op s1 a s' := by
  obtain ⟨_, s1, hs1, hgo⟩ := (keeps_walkOk h source who).gives_bind hs hgo
  obtain ⟨st, s2, hs2, hgo⟩ := (keeps_vfsLstat h source).gives_bind hs1 hgo
  exact vfsMake_gives h hL hT hcwd hs2 hgo

lemma vfsRename_gives (hs : P s) (hgo : Gives (vfsRename fs t who swap source dest op) s a s') :
    ParentFound L t dest ∧ ∃ s1, P s1 ∧ Gives op s1 a s' := by
  obtain ⟨b, s1, hs1, hgo⟩ := (keeps_pathIsSwapfile h swap source).gives_bind hs hgo
  obtain ⟨b, s2, hs2, hgo⟩ := (keeps_pathIsSwapfile h swap dest).gives_bind hs1 hgo.guard.2
  obtain ⟨_, s3, hs3, hgo⟩ := (keeps_vfsMayParent h source wxOk who).gives_bind hs2 hgo.guard.2
  exact vfsMake_gives h hL hT hcwd hs3 hgo

lemma openDoor_arrives (hcreat : fl.creat = true) (hs : P s)
    (hgo : Gives (openDoor fs t who swap fl path) s (.file false) s') : ParentFound L t path := by
  rcases openDoor_stat hgo with ⟨e, s1, hstat, -, hmay⟩ | ⟨st, s1, -, hfile⟩
  · have hs1 : P s1 := (gives_attempt.2 hstat).of_ends ((keeps_vfsStat h path).attempt s hs)
    obtain ⟨u, s2, hmay⟩ := hmay hcreat
    exact (vfsMayParent_arrives h hL hT hcwd hs1 hmay).2
  -- what `stat` has found is not made
  simp only [doorOf] at hfile
  split_ifs at hfile
  simp at hfile

end Guards

/-! ## The directory that a path names an entry in -/

section Parent

variable {path : List UInt8}

lemma dirPart_append (path) : ∃ base, slash ∉ base ∧ path = dirPart path ++ base := by
  refine ⟨(path.reverse.takeWhile (· != slash)).reverse, fun hmem => ?_, ?_⟩
  · have hall := mem_takeWhile_imp (mem_reverse.1 hmem)
    simp at hall
  · rw [dirPart, ← reverse_append, takeWhile_append_dropWhile, reverse_reverse]

lemma dirPart_eq (h : dirPart path ≠ []) : dirPart path = (dirPart path).dropLast ++ [slash] := by
  have hhead := head?_dropWhile_not (· != slash) path.reverse
  rcases hdrop : path.reverse.dropWhile (· != slash) with _ | ⟨c, l⟩
  · rw [dirPart, hdrop] at h
    exact absurd rfl h
  rw [hdrop] at hhead
  have hc : c = slash := by simpa using hhead
  rw [dirPart, hdrop, hc, reverse_cons, dropLast_concat]

variable {L : Linked} {rank : Nat → Nat} {t : Task} {d x : Nat} {n : Name}

/-- **The lexical parent of a path leads to the directory that its last name is looked for in**,
unless the last name is a link, or there is a slash after it. -/
lemma parentPath_leads (hT : L.Sound rank) (hcwd : L.kind t.cwd = .ok .dir)
    (hlead : L.Leads t.root (t.start path, names path) (d, [n]))
    (hslash : path.getLast? ≠ some slash)
    (hno : ¬L.EndsInLink t.root (t.start path) (names path))
    (hx : L.Arrives t.root (t.start (parentPath path), names (parentPath path)) x) :
    L.Leads t.root (t.start (parentPath path), names (parentPath path)) (d, []) := by
  obtain ⟨l, hl, hd⟩ := hlead.last hno
  obtain ⟨base, hbase, hpath⟩ := dirPart_append path
  have hne : base ≠ [] := by
    rintro rfl
    rw [append_nil] at hpath
    by_cases hnil : dirPart path = []
    · rw [hpath, hnil] at hl
      simp [names, components] at hl
    refine hslash ?_
    rw [hpath, dirPart_eq hnil]
    exact getLast?_concat
  have hnames := names_name hne hbase
  by_cases hnil : dirPart path = []
  · -- a bare name is in the working directory
    rw [hnil, nil_append] at hpath
    have hstart : t.start path = t.cwd := by
      rw [Task.start, startOf, if_neg]
      rw [hpath]
      exact fun hhead => hbase (mem_of_head? hhead)
    rw [hpath, hnames] at hl
    have hl' : [] ++ [base] = l ++ [n] := hl
    obtain ⟨rfl, -⟩ := append_inj' hl' rfl
    have hparent : parentPath path = dot := if_pos hnil
    have hdot : names dot = [dot] := rfl
    rw [hparent, hdot] at hx ⊢
    have heq := hd.eq_of_nil
    rw [hstart, Prod.mk.injEq] at heq
    rw [heq.1]
    exact hx.dot hT hcwd
  have hdir := dirPart_eq hnil
  rw [hdir, append_assoc, singleton_append] at hpath
  have hl' : names (dirPart path).dropLast ++ [base] = l ++ [n] := by
    rw [← hl, ← hnames, ← names_append_slash, ← hpath]
  obtain ⟨hl', -⟩ := append_inj' hl' rfl
  by_cases htop : (dirPart path).dropLast = []
  · have hparent : parentPath path = [slash] := by rw [parentPath, if_neg hnil, if_pos htop]
    have hstart : t.start path = t.start [slash] := by
      rw [htop] at hpath
      rw [hpath]
      rfl
    rw [htop] at hl'
    rw [hparent, ← hstart]
    exact hl' ▸ hd
  have hparent : parentPath path = (dirPart path).dropLast := by
    rw [parentPath, if_neg hnil, if_neg htop]
  have hstart : t.start path = t.start (dirPart path).dropLast := by
    have hhead : path.head? = (dirPart path).dropLast.head? := by
      rw [← head?_append_of_ne_nil _ htop, ← hpath]
    rw [Task.start, Task.start, startOf, startOf]
    simp only [hhead]
  rw [hparent, ← hstart, hl']
  exact hd

end Parent

/-! ## What follows for a directory -/

section Grants

variable {L : Linked} {t : Task} {qs : List (List UInt8 × Nat)} {d b : Nat}

/-- Everything is allowed, but for one thing in one place. -/
def allBut (d b : Nat) : Who := ⟨⟨1, 1, []⟩, fun ino => ⟨if ino = d then 7 - b else 7, 0, 0⟩⟩

lemma allBut_may (hb : b = wOk ∨ b = xOk) (ino : Nat) (kind : Kind) (want) :
    (allBut d b).may (ino, kind) want = true ↔ (ino = d → want &&& b = 0) := by
  by_cases hd : ino = d
  · rcases hb with rfl | rfl
    · by_cases hw : want &&& 2 = 0 <;> simp [Who.may, permOk, allBut, modeBits,
        hasBits, hd, wOk, hw]
    · by_cases hw : want &&& 1 = 0 <;> simp [Who.may, permOk, allBut, modeBits,
        hasBits, hd, xOk, hw]
  · simp [Who.may, permOk, allBut, modeBits, hasBits, hd]

lemma may_bit {who : Who} {st : Nat × Kind} {want} (hwho : who.cred.euid ≠ 0)
    (hb : b = wOk ∨ b = xOk)
    (hbit : want &&& b ≠ 0) (h : who.may st want = true) : who.may st b = true := by
  rw [Who.may, permOk, if_neg hwho] at h ⊢
  simp only [hasBits, Bool.and_eq_true, Bool.not_eq_true', Bool.and_eq_false_iff,
    decide_eq_false_iff_not] at h ⊢
  rcases hb with rfl | rfl
  iterate 2 · simp_all [rOk, wOk, xOk]

/-- **A task that is cleared on some questions may do a thing to a directory, whatever else it may
not, if and only if one of the questions is about that thing and leads to the directory.** -/
lemma cleared_iff (hd : L.kind d = .ok .dir) (hb : b = wOk ∨ b = xOk) :
    (∀ who : Who, who.cred.euid ≠ 0 → Cleared.All L t who qs → who.may (d, .dir) b = true) ↔
      ∃ q ∈ qs, q.2 &&& b ≠ 0 ∧ L.Leads t.root (t.start q.1, names q.1) (d, []) := by
  constructor
  · intro hall
    by_contra hnone
    have hcleared : Cleared.All L t (allBut d b) qs := by
      intro q hq x kind hx hkind
      rw [allBut_may hb]
      rintro rfl
      by_contra hbit
      exact hnone ⟨q, hq, hbit, hx.leads hd⟩
    have hmay := (allBut_may hb d .dir b).1 (hall (allBut d b) Nat.one_ne_zero hcleared) rfl
    rcases hb with rfl | rfl <;> contradiction
  · rintro ⟨q, hq, hbit, hlead⟩ who hwho hall
    exact may_bit hwho hb hbit (hall q hq d .dir (.inl hlead) hd)

end Grants

end Sage040.Vfs
