import Sage040.Kernel.Exec.Stack

/-!
# exec, task by task

A call of `exec_spawn` or `exec_replace` goes through six phases: the script line is followed, the
file is asked whose identity the program takes up, it is opened, its image is loaded, its
interpreter is loaded and the auxiliary vector made, and the stack is filled. Each is a `Coop`
program over what the tasks share, and the machine below runs any number of them, one stretch of
one task at a time. Between any two stretches another task may run: one that is executing
something itself, or one that renames, unlinks, writes or changes the mode of files.

The calls' arguments have been fetched by `args_fetch` (`kernel/syscall.c`) into pages of their own,
which bounds them: `Call` carries those bounds.
-/

namespace Sage040.Exec

open Coop Function

/-! ## The calls -/

/-- `ARG_BYTES`, less the two arrays of pointers at its start: the room for strings. -/
def argRoom : Nat := 8 * pageSize - ((execMaxArgs + 1) + (execMaxEnv + 1)) * 4

/-- A call of `exec_spawn` or `exec_replace`: what `args_fetch` and `fetch_str` got for it, and who
makes it. -/
structure Call where
  path : CStr
  argv : List CStr
  envp : List CStr
  cred : Cred
  path_le : path.length < pathMax
  argc_le : argv.length ≤ execMaxArgs
  envc_le : envp.length ≤ execMaxEnv
  room : bytesOf argv + bytesOf envp ≤ argRoom
  noNul : NoNul (path :: argv ++ envp)

/-- `(u32)-1`: no new id. -/
def noId : Nat := 2 ^ 32 - 1

/-- What is to be loaded, and the ids the program takes up. -/
structure Target where
  path : CStr
  argv : List CStr
  newEuid : Nat
  newEgid : Nat

/-- The ids, from the file's mode and owner. -/
def Target.of (path : CStr) (argv : List CStr) (st : Inode) : Target where
  path := path
  argv := argv
  newEuid := if st.mode &&& 0o4000 ≠ 0 then st.uid else noId
  newEgid := if st.mode &&& 0o2000 ≠ 0 then st.gid else noId

/-- The credentials after a successful exec: of the caller, or of the task it made. -/
def Target.takeUp (r : Target) (cred : Cred) : Cred :=
  let cred := if r.newEuid ≠ noId then
    { cred with user := { cred.user with effective := r.newEuid, saved := r.newEuid } } else cred
  if r.newEgid ≠ noId then
    { cred with group := { cred.group with effective := r.newEgid, saved := r.newEgid } } else cred

/-! ## `build` -/

def pause : Prog Unit := look fun _ => .ok ()

/-- Up to the file's descriptor. Before it come `task_group_kill` (in `exec_replace`) and
`vm_create`. -/
def openProgram (c : Call) (r : Target) : Prog Nat := do
  pause
  mayRefuse
  fdOpen c.cred r.path

def loadProgram (ino : Nat) : Prog Loaded := loadImage .prog ino userVaBase userVaEnd Bytes.zero

/-- The interpreter's name in an image: `""` for a static program. -/
def Image.interpName (img : Image) : CStr := cstr ((List.range interpMax).map img.interp)

def auxvOf (prog : Image) : List Nat :=
  [3, prog.phdr, 4, phdrSize, 5, prog.phnum, 6, pageSize,
    7, if prog.interpName ≠ [] then ldsoBase else 0, 8, 0, 9, prog.entry, 0, 0]

/-- What `build` knows before it fills the stack. -/
structure Built where
  brkStart : Nat
  entry : Nat
  auxv : List Nat
  mem : Bytes
  sources : List Source

/-- The interpreter: where the program is entered, and the memory with it loaded. -/
def loadInterp (cred : Cred) (name : CStr) (mem : Bytes) : Prog (Nat × Bytes) := do
  let ino ← (fdOpen cred name).errorMap fun e => if e = .enoent then .elibacc else e
  let l ← (loadImage .interp ino ldsoBase ldsoEnd mem).errorMap fun e =>
    if e = .enoexec then .elibbad else e
  let entry ← look fun s =>
    -- an interpreter that names one of its own is refused
    if s.interp.interpName ≠ [] then .error .elibbad else .ok s.interp.entry
  pure (entry, l.mem)

/-- A dynamically linked program is entered at its interpreter. -/
def startPoint (cred : Cred) (name : CStr) (entry : Nat) (mem : Bytes) : Prog (Nat × Bytes) :=
  if name = [] then pure (entry, mem) else loadInterp cred name mem

/-- From the loaded program to the auxiliary vector. -/
def linkProgram (cred : Cred) (l : Loaded) : Prog Built := do
  let (brkStart, entry) ← look fun s => .ok (pageAlignUp s.prog.end_, s.prog.entry)
  pause                                      -- `vfs_abspath`
  let name ← stretch fun s =>
    (.ok s.prog.interpName, s.setImg .interp { s.interp with entry := 0 })
  let (entry, mem) ← startPoint cred name entry l.mem
  let auxv ← look fun s => .ok (auxvOf s.prog)
  pure ⟨brkStart, entry, auxv, mem, l.sources⟩

def fillStack (c : Call) (r : Target) (b : Built) : Prog Stack := do
  mayRefuse
  setupStack r.argv c.envp b.auxv b.mem

/-! ## The machine -/

inductive Phase
  | idle
  | resolving (c : Call) (p : Prog (CStr × List CStr))
  | statting (c : Call) (path : CStr) (argv : List CStr)
  | opening (c : Call) (r : Target) (p : Prog Nat)
  | loading (c : Call) (r : Target) (ino : Nat) (p : Prog Loaded)
  | linking (c : Call) (r : Target) (p : Prog Built)
  | stacking (c : Call) (r : Target) (b : Built) (p : Prog Stack)
  | started (c : Call) (r : Target) (b : Built) (st : Stack)
  | failed (e : Errno)

/-- One stretch of a phase's program: the phase goes on, the next one begins, or exec fails. -/
def runStretch {α : Type} (p : Prog α) (same : Prog α → Phase) (next : α → Phase) (s : Shared) :
    Phase × Shared :=
  match p with
  | .ret a => (next a, s)
  | .fail e => (.failed e, s)
  | .step f k =>
    (match k s with
      | .ret a => next a
      | .fail e => .failed e
      | q => same q, f s)

def Phase.go (s : Shared) : Phase → Phase × Shared
  | resolving c p => runStretch p (.resolving c) (fun (path, argv) => .statting c path argv) s
  | statting c path argv =>
    match s.ask (s.files.stat path) with
    | .error e => (.failed e, s)
    | .ok st => (.opening c (.of path argv st) (openProgram c (.of path argv st)), s)
  | opening c r p => runStretch p (.opening c r) (fun ino => .loading c r ino (loadProgram ino)) s
  | loading c r ino p =>
    runStretch p (.loading c r ino) (fun l => .linking c r (linkProgram c.cred l)) s
  | linking c r p => runStretch p (.linking c r) (fun b => .stacking c r b (fillStack c r b)) s
  | stacking c r b p => runStretch p (.stacking c r b) (.started c r b) s
  | ph => (ph, s)

inductive FileOp
  | rename (old new : CStr)
  | unlink (path : CStr)
  | write (ino : Nat) (data : Contents)
  | chmod (path : CStr) (mode : Nat)

def Files.setInode (fs : Files) (ino : Nat) (f : Inode → Inode) : Files :=
  { fs with inodes := update fs.inodes ino (f (fs.inodes ino)) }

def Files.apply (fs : Files) : FileOp → Files
  | .rename old new =>
    match fs.names old with
    | none => fs
    | some ino => { fs with names := update (update fs.names old none) new ino }
  | .unlink path => { fs with names := update fs.names path none }
  | .write ino data => fs.setInode ino fun x => { x with data := data }
  | .chmod path mode =>
    match fs.names path with
    | none => fs
    | some ino => fs.setInode ino fun x => { x with mode := mode }

structure Machine where
  shared : Shared
  tasks : Nat → Phase

inductive Event
  /-- A task calls `exec_spawn` or `exec_replace`. -/
  | exec (i : Nat) (c : Call)
  /-- A task inside one of them runs to the next place where it may sleep. -/
  | go (i : Nat)
  /-- The disk and the page allocator change their mind. -/
  | trouble (e : Option Errno)
  /-- Another task changes a file or a name. -/
  | files (op : FileOp)

def Phase.free : Phase → Bool
  | idle | started .. | failed _ => true
  | _ => false

def Machine.apply (m : Machine) : Event → Machine
  | .exec i c =>
    let start := .resolving c (scriptResolve c.cred scriptDepth c.path c.argv)
    if (m.tasks i).free then { m with tasks := update m.tasks i start } else m
  | .go i =>
    let (ph, s) := (m.tasks i).go m.shared
    ⟨s, update m.tasks i ph⟩
  | .trouble e => { m with shared := { m.shared with trouble := e } }
  | .files op => { m with shared := { m.shared with files := m.shared.files.apply op } }

end Sage040.Exec
