import Sage040.Lib.Bytes
import Sage040.Lib.Coop
import Sage040.Kernel.Cred

/-!
# What exec asks the file system

A program is started from a path name, and `kernel/exec.c` looks that name up again and again: to
see whether the caller may execute the file, to read its first line, to find out whose identity
the program takes up, and to load it. Every one of these is a separate call of `kernel/vfs.c`,
and a task that makes it may sleep for the file system's lock, for the disk or for a page. So
each is a stretch of a `Coop` program over the state the kernel's tasks share.

`Shared` is that state: the files, and the four static buffers the loader keeps its results in
(`struct image prog, interp` in `build`, `uargv` and `uenv` in `setup_stack`). Whether the disk
and the page allocator have something to complain about is in it too, as `trouble`: any request
may be refused, and nothing here says when.

Names lead to regular files; devices, `/proc`, directories and the search permission on them are
left to `trouble`. A file that is open stays what it is when its name goes (the orphan list of
`kernel/fs/ext2.c`), so an open file is its inode number.
-/

namespace Sage040.Exec

/-- The bytes of a C string, without the NUL. -/
abbrev CStr := List UInt8

/-- A string constant of the source. -/
def ascii (s : String) : CStr := s.toList.map fun c => UInt8.ofNat c.toNat

structure Contents where
  size : Nat
  bytes : Bytes

structure Inode where
  mode : Nat
  uid : Nat
  gid : Nat
  data : Contents

structure Files where
  names : CStr → Option Nat
  inodes : Nat → Inode

/-- `struct image`: what loading a file learned. -/
structure Image where
  entry : Nat
  phdr : Nat
  phnum : Nat
  /-- One past the highest byte of any segment (`end`). -/
  end_ : Nat
  start : Nat
  codeLo : Nat
  codeHi : Nat
  dataLo : Nat
  dataHi : Nat
  /-- `char interp[INTERP_MAX]`. -/
  interp : Bytes

/-- After `memset(img, 0, sizeof(*img))`. -/
def Image.zero : Image := ⟨0, 0, 0, 0, 0, 0, 0, 0, 0, Bytes.zero⟩

/-- What the tasks of the kernel share, as far as exec is concerned. -/
structure Shared where
  files : Files
  prog : Image
  interp : Image
  uargv : Nat → Nat
  uenv : Nat → Nat
  /-- The error the disk, the page allocator or a table that is full answers with now, if any. -/
  trouble : Option Errno

/-- A part of exec, for one task. -/
abbrev Prog := Coop Errno Shared

open Coop

def Shared.ask {α : Type} (s : Shared) (x : Except Errno α) : Except Errno α :=
  match s.trouble with
  | some e => .error e
  | none => x

lemma Shared.ask_eq_ok {α : Type} {s : Shared} {x : Except Errno α} {a : α} (h : s.ask x = .ok a) :
    x = .ok a := by
  rw [Shared.ask] at h
  cases ht : s.trouble with
  | none => simpa only [ht] using h
  | some e => simp only [ht, reduceCtorEq] at h

/-- A place where a page is allocated, or the task sleeps for another reason. -/
def mayRefuse : Prog Unit := look fun s => s.ask (.ok ())

/-! ## Permission -/

inductive Access
  | read
  | execute
  deriving DecidableEq

/-- The bit of a permission triple that grants it. -/
def Access.bit : Access → Nat
  | read => 4
  | execute => 1

/-- `perm_ok`, on a regular file. -/
def permOk (cred : Cred) (st : Inode) (want : Access) : Bool :=
  if cred.euid = 0 then
    -- root may read anything, and execute what somebody could
    want = .read || st.mode &&& 0o111 != 0
  else
    let bits :=
      if cred.euid = st.uid then st.mode >>> 6
      else if cred.group.effective = st.gid || st.gid ∈ cred.groups then st.mode >>> 3
      else st.mode
    bits &&& want.bit != 0

/-! ## The calls -/

def Files.stat (fs : Files) (path : CStr) : Except Errno Inode :=
  match fs.names path with
  | some ino => .ok (fs.inodes ino)
  | none => .error .enoent

def vfsStat (path : CStr) : Prog Inode := look fun s => s.ask (s.files.stat path)

def vfsMay (cred : Cred) (path : CStr) (want : Access) : Prog Unit := do
  let st ← vfsStat path
  if permOk cred st want then pure () else fail .eacces

def pathMax : Nat := 1024

/-- `fs->open`: the name is looked up once more. -/
def fsOpen (path : CStr) : Prog Nat := look fun s =>
  s.ask (match s.files.names path with
    | some ino => .ok ino
    | none => .error .enoent)

/-- `fd_open(path, O_RDONLY)`. -/
def fdOpen (cred : Cred) (path : CStr) : Prog Nat :=
  if path = [] then fail .einval
  else if pathMax < path.length then fail .enametoolong
  else do
    let exists_ ← look fun s => .ok (s.files.names path).isSome
    if exists_ then vfsMay cred path .read
    fsOpen path

/-- The first `n` bytes of a file, or all of it. -/
def Contents.head (d : Contents) (n : Nat) : List UInt8 :=
  (List.range (min n d.size)).map d.bytes

/-- `fd_read` on a file just opened. -/
def fdRead (ino len : Nat) : Prog (List UInt8) := look fun s =>
  s.ask (.ok ((s.files.inodes ino).data.head len))

/-- `read_at`: all of `len` bytes at `offset`, or `ENOEXEC`. An offset that is negative as an
`s32` is refused by the seek. -/
def Contents.readAt (d : Contents) (offset len : Nat) : Except Errno Bytes :=
  if 2 ^ 31 ≤ offset then .error .eio
  else if offset + len ≤ d.size then .ok fun i => d.bytes (offset + i)
  else .error .enoexec

end Sage040.Exec
