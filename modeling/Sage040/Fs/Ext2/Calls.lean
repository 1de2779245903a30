import Sage040.Fs.Ext2.Dir
import Sage040.Fs.Path

/-!
# The calls of the filesystem

What the VFS calls in `fs/ext2.c`: opening, creating, writing, cutting and closing files, and
making, linking, moving and removing names. Each is a program over the volume with the error exits
that the source has, and leaves behind whatever it had done when it takes one.

There is one volume, so no walk crosses a mount. A file handle is its inode's number and a position.
`op_flush` asks for a commit that comes later or writes the cache out; neither changes what the
volume holds, and commits may come between any two calls and within them.
-/

namespace Sage040.Fs

open Function Exits

/-- The calling task, the clock, and how the volume is mounted. -/
structure Env extends Task where
  now : Nat
  rdonly : Bool

/-- The flags of `open` that mean something here. -/
structure OpenFlags where
  write : Bool
  creat : Bool
  excl : Bool
  trunc : Bool
  append : Bool
  nofollow : Bool

/-- The links of an inode, a `u16`, are one more. -/
def Einode.linked (ei : Einode) : Einode := { ei with links := (ei.links + 1) % 65536 }

/-- They are one fewer, if there are any. -/
def Einode.unlinked (ei : Einode) : Einode := { ei with links := ei.links - 1 }

abbrev Io := EStateM Errno Vol

namespace Ext2

variable (g : Geometry)

/-! ## Inodes and directories as statements -/

def iread (ino : Nat) : Io Einode :=
  lift fun v => match v.iread g ino with
    | .error e => (v, .error e)
    | .ok ei => (v.touch, .ok ei)

def iwrite (ino : Nat) (ei : Einode) : Io Unit :=
  if ino = 0 ∨ g.inodesCount < ino then throw .einval else modify fun v => v.iwrite ino ei

def dirLookup (dino : Nat) (name : Name) : Io (Nat × UInt8) := lift fun v => v.dirLookup g dino name

def dirAdd (dino : Nat) (e : Dirent) : Io Unit := lift fun v => v.dirAdd g dino e

def dirDel (dino : Nat) (name : Name) : Io Nat := lift fun v => v.dirDel g dino name

def dirIsEmpty (dino : Nat) : Io Bool := lift fun v => v.dirIsEmpty g dino

def dirNth (dino index : Nat) : Io Dirent := lift fun v => v.dirNth g dino index

def act (f : Vol → Vol) : Io Unit := modify f

/-- The volume is changed, and something is handed back. -/
def take {α : Type} (f : Vol → Vol × α) : Io α := lift fun v => ((f v).1, .ok (f v).2)

/-! ## Symbolic links -/

/-- Byte `i` of a target that is kept in the words of `i_block`. -/
def wordByte (block : Nat → Nat) (i : Nat) : UInt8 := UInt8.ofNat (block (i / 4) / 256 ^ (i % 4))

/-- Word `s` of `i_block` with a target in it. -/
def wordOf (target : List UInt8) (s : Nat) : Nat :=
  (target.getD (4 * s) 0).toNat + 256 * (target.getD (4 * s + 1) 0).toNat +
    65536 * (target.getD (4 * s + 2) 0).toNat + 16777216 * (target.getD (4 * s + 3) 0).toNat

def symlinkFastMax : Nat := 60

/-- `read_link`, for a buffer of `size` bytes: the target as a string. -/
def readLink (size ino : Nat) : Io (List UInt8) := do
  let ei ← iread g ino
  if ei.kind ≠ .lnk then throw .einval
  else if ei.size = 0 ∨ size ≤ ei.size then throw .enametoolong
  else if ei.blocks = 0 then
    pure (((List.range ei.size).map (wordByte ei.block)).takeWhile (· != 0))
  else do
    let r ← take fun v => v.inodeRead g ei 0 ei.size
    match r.2 with
    | .error e => throw e
    | .ok _ => if r.1.length ≠ ei.size then throw .eio else pure (r.1.takeWhile (· != 0))

/-- The names of a directory from index `i` on, for one that leads to `child`. -/
def nameInLoop (parent child : Nat) : Nat → Nat → Io Name
  | 0, _ => throw .enoent
  | fuel + 1, i => do
    match ← attempt (dirNth g parent i) with
    | .error _ => throw .enoent
    | .ok e =>
      if e.ino = child ∧ isDots e.name = false then pure e.name
      else nameInLoop parent child fuel (i + 1)

/-- A directory has fewer names than bytes. -/
def nameIn (parent child : Nat) : Io Name := do
  let v ← get
  nameInLoop g parent child (Vol.dirBlocks g (v.inode parent) * g.blockSize + 1) 0

def walker : Walker Vol where
  lookup := dirLookup g
  kind ino := do
    let ei ← iread g ino
    pure ei.kind
  readLink := readLink g pathMax
  nameIn := nameIn g

/-! ## Open files -/

/-- `EXT2_MAX_OPEN`. -/
def maxOpen : Nat := 256

def openRef (ino : Nat) : Io Unit := do
  let v ← get
  if v.opened ino = 0 ∧
      maxOpen ≤ ((List.range (g.inodesCount + 1)).filter fun i => v.opened i != 0).length then
    throw .enfile
  else act fun v => { v with opened := update v.opened ino (v.opened ino + 1) }

def openUnref (ino : Nat) : Io Unit :=
  act fun v => { v with opened := update v.opened ino (v.opened ino - 1) }

variable (env : Env) (ino : Nat)

/-- `inode_release`: the blocks go, and the inode. -/
def inodeRelease : Io Unit := do
  let ei ← iread g ino
  let cut ← take fun v => if ei.fastSymlink then (v, { ei with block := fun _ => 0 })
    else Vol.truncateBlocks g v ei 0
  iwrite g ino { cut with size := 0, dtime := env.now, links := 0 }
  act fun v => v.inodeFree g ino (ei.kind = .dir)

def orphanAdd : Io Unit := do
  let ei ← iread g ino
  let v ← get
  iwrite g ino { ei with dtime := v.lastOrphan }
  act fun v => { v with lastOrphan := ino }

/-- What becomes of an inode without names: it waits for the last handle, or goes. -/
def orphanOrRelease : Io Unit := do
  let v ← get
  if 0 < v.opened ino then orphanAdd g ino else inodeRelease g env ino

def dropLink : Io Unit := do
  let ei ← iread g ino
  iwrite g ino ei.unlinked
  if ei.unlinked.links = 0 then orphanOrRelease g env ino else pure ()

/-! ## Files -/

/-- `make_inode`: a new inode under `name`. -/
def makeInode (dino : Nat) (name : Name) (kind : Kind) (ftype : UInt8) : Io Nat := do
  let ino ← take fun v => v.inodeAlloc g (kind = .dir) ((dino - 1) / g.inodesPerGroup)
  if ino = 0 then throw .enospc
  else if g.inodesCount < ino then do
    act fun v => v.inodeFree g ino (kind = .dir)
    throw .einval
  else do
    iwrite g ino .clear
    -- the parent's group, for a setgid directory
    let _ ← attempt (iread g dino)
    iwrite g ino { Einode.clear with kind := kind, links := 1 }
    match ← attempt (dirAdd g dino ⟨name, ino, ftype⟩) with
    | .error e => do
      act fun v => v.inodeFree g ino (kind = .dir)
      throw e
    | .ok _ => pure ino

/-- `ext2_file_write`. -/
def fileWrite (ino pos : Nat) (append : Bool) (bytes : List UInt8) : Io Int := do
  let ei ← iread g ino
  if ei.kind = .dir then throw .eisdir
  else do
    let r ← take fun v => v.inodeWrite g ei (if append then ei.size else pos) bytes
    match r.2 with
    | .error e => throw e
    | .ok n =>
      if 0 < n then do
        iwrite g ino r.1
        pure n
      else pure n

/-- `ext2_file_truncate`. -/
def fileTruncate (write : Bool) (len : Nat) : Io Unit :=
  if write = false then throw .einval
  else do
    let ei ← iread g ino
    if ei.kind = .dir then throw .eisdir
    else do
      let ei ← take fun v => v.inodeSetSize g ei len
      iwrite g ino ei

/-- The end of `ext2_open`: the handle's inode and position. -/
def openInode (fl : OpenFlags) (ino : Nat) : Io (Nat × Nat) :=
  if env.rdonly = true ∧ (fl.write = true ∨ fl.trunc = true) then throw .erofs
  else do
    openRef g ino
    let cut ← attempt (do
      if fl.trunc = true ∧ fl.write = true then
        let ei ← iread g ino
        if ei.size ≠ 0 then
          let ei ← take fun v => v.inodeSetSize g ei 0
          iwrite g ino ei
        else pure ()
      else pure ())
    match cut with
    | .error e => do
      openUnref ino
      throw e
    | .ok _ =>
      if fl.append = true then
        match ← attempt (iread g ino) with
        | .ok ei => pure (ino, ei.size)
        | .error _ => pure (ino, 0)
      else pure (ino, 0)

/-- A path up to and with its last slash. -/
def dirPart (path : List UInt8) : List UInt8 := (path.reverse.dropWhile (· != slash)).reverse

/-- The path that a dangling link at `path` names. -/
def danglingPath (path target : List UInt8) : List UInt8 :=
  if target.head? = some slash then target else dirPart path ++ target

/-- `ext2_open`, which follows `depth` more dangling links to make their targets. -/
def openFile (fl : OpenFlags) : Nat → List UInt8 → Io (Nat × Nat)
  | depth, path => do
    let walked ← pathWalk (walker g) env.toTask path
    match walked.2 with
    | none => throw .eisdir
    | some name =>
      match ← attempt (dirLookup g walked.1 name) with
      | .error .enoent =>
        if fl.creat = false then throw .enoent
        else if fl.write = false then throw .eacces
        else if env.rdonly = true then throw .erofs
        else do
          let ino ← makeInode g walked.1 name .reg ftRegFile
          openInode g env fl ino
      | .error e => throw e
      | .ok found =>
        if fl.excl = true then throw .eexist
        else do
          let ei ← iread g found.1
          if ei.kind = .lnk then
            if fl.nofollow = true then throw .eloop
            else match ← attempt (pathResolve (walker g) env.toTask symlinkMaxDepth path) with
              | .error e =>
                if e = .enoent ∧ fl.creat = true then
                  match depth with
                  | 0 => throw .eloop
                  | depth + 1 => do
                    let target ← readLink g pathMax found.1
                    if target.head? ≠ some slash ∧ pathMax < (dirPart path).length +
                    target.length + 1
                    then throw .enametoolong
                    else openFile fl depth (danglingPath path target)
                else throw e
              | .ok ino => do
                let ei ← iread g ino
                if ei.kind = .lnk then throw .eloop
                else if ei.kind = .dir then throw .eisdir
                else openInode g env fl ino
          else if ei.kind = .dir then throw .eisdir
          else openInode g env fl found.1

/-! ## Names -/

/-- `ext2_unlink`. -/
def unlink (path : List UInt8) : Io Unit := do
  let walked ← pathWalk (walker g) env.toTask path
  if env.rdonly = true then throw .erofs
  else match walked.2 with
    | none => throw .eisdir
    | some name => do
      let found ← dirLookup g walked.1 name
      let ei ← iread g found.1
      if ei.kind = .dir then throw .eisdir
      else do
        let _ ← dirDel g walked.1 name
        dropLink g env found.1

def dotsBlock (size ino dino : Nat) : Bytes :=
  let c := (setEntry Bytes.zero 0 ⟨dot, ino, ftDir⟩).putLe16 4 12
  (setEntry c 12 ⟨dotdot, dino, ftDir⟩).putLe16 16 (size - 12)

/-- `ext2_mkdir`. -/
def mkdir (path : List UInt8) : Io Unit := do
  let walked ← pathWalk (walker g) env.toTask path
  if env.rdonly = true then throw .erofs
  else match walked.2 with
    | none => throw .eexist
    | some name =>
      match ← attempt (dirLookup g walked.1 name) with
      | .ok _ => throw .eexist
      | .error _ => do
        let ino ← makeInode g walked.1 name .dir ftDir
        let ei ← iread g ino
        let r ← take fun v => v.bmap g ei 0 true
        match r.2 with
        | .error e => throw e
        | .ok b => do
          act fun v => (v.touch.setData b (dotsBlock g.blockSize ino walked.1)).dirty
          iwrite g ino { r.1 with size := g.blockSize, links := 2 }
          let pe ← iread g walked.1
          iwrite g walked.1 pe.linked

/-- `ext2_link`. -/
def link (source dest : List UInt8) : Io Unit := do
  let src ← pathWalk (walker g) env.toTask source
  match src.2 with
  | none => throw .einval
  | some fname => do
    let dst ← pathWalk (walker g) env.toTask dest
    if env.rdonly = true then throw .erofs
    else match dst.2 with
      | none => throw .einval
      | some tname => do
        let found ← dirLookup g src.1 fname
        let fe ← iread g found.1
        if fe.kind = .dir then throw .eperm
        else if fe.links = 0 then throw .enoent
        else match ← attempt (dirLookup g dst.1 tname) with
          | .ok _ => throw .eexist
          | .error _ => do
            -- the count first: too high is the lesser damage
            iwrite g found.1 fe.linked
            match ← attempt (dirAdd g dst.1 ⟨tname, found.1, found.2⟩) with
            | .error e => do
              iwrite g found.1 { fe with links := (fe.linked.links + 65535) % 65536 }
              throw e
            | .ok _ => pure ()

/-- `ext2_mknod`. -/
def mknod (path : List UInt8) (kind : Kind) : Io Unit :=
  if kind ≠ .fifo then throw .eperm
  else do
    let walked ← pathWalk (walker g) env.toTask path
    if env.rdonly = true then throw .erofs
    else match walked.2 with
      | none => throw .eexist
      | some name =>
        match ← attempt (dirLookup g walked.1 name) with
        | .ok _ => throw .eexist
        | .error _ => do
          let _ ← makeInode g walked.1 name .fifo ftFifo
          pure ()

/-- The target of a new link is put in its inode, or in its blocks. -/
def putTarget (target : List UInt8) : Io Unit := do
  let ei ← iread g ino
  if target.length ≤ symlinkFastMax then
    iwrite g ino { ei with block := wordOf target, size := target.length, blocks := 0 }
  else do
    let r ← take fun v => v.inodeWrite g ei 0 target
    match r.2 with
    | .error e => throw e
    | .ok n =>
      if n ≠ target.length then throw .eio
      else do
        let ei ← take fun v => v.inodeSetSize g r.1 target.length
        iwrite g ino ei

/-- `ext2_symlink`. -/
def symlink (target linkpath : List UInt8) : Io Unit :=
  if target.length = 0 then throw .enoent
  else if pathMax - 1 < target.length then throw .enametoolong
  else do
    let walked ← pathWalk (walker g) env.toTask linkpath
    if env.rdonly = true then throw .erofs
    else match walked.2 with
      | none => throw .eexist
      | some name =>
        match ← attempt (dirLookup g walked.1 name) with
        | .ok _ => throw .eexist
        | .error _ => do
          let ino ← makeInode g walked.1 name .lnk ftSymlink
          match ← attempt (putTarget g ino target) with
          | .error e => do
            -- the name and the inode both go
            let _ ← attempt (dirDel g walked.1 name)
            let _ ← attempt (inodeRelease g env ino)
            throw e
          | .ok _ => pure ()

/-- `dir_is_within`: whether `anc` is met on the way up from `c`, in `guard` steps. -/
def dirIsWithin (anc : Nat) : Nat → Nat → Io Bool
  | 0, c => pure (c = anc)
  | guard + 1, c =>
    if c = env.root then pure (c = anc)
    else if c = anc then pure true
    else do
      match ← attempt (dirLookup g c dotdot) with
      | .error _ => pure (c = anc)
      | .ok parent => if parent.1 = c then pure (c = anc) else dirIsWithin anc guard parent.1

/-- An inode is changed in place, and nobody looks at an error. -/
def adjust (f : Einode → Option Einode) : Io Unit := do
  match ← attempt (iread g ino) with
  | .error _ => pure ()
  | .ok ei =>
    match f ei with
    | none => pure ()
    | some ei => do
      let _ ← attempt (iwrite g ino ei)
      pure ()

def unlinkQuietly : Io Unit :=
  adjust g ino fun pe => if 0 < pe.links then some pe.unlinked else none

/-- Whether what is in the way may go: a directory has to be empty. -/
def replaceable (te : Einode) (tino : Nat) : Io Bool :=
  if te.kind = .dir then dirIsEmpty g tino else pure true

/-- What `rename` does to the name that is in the way. -/
def replace (tdir : Nat) (tname : Name) (fe : Einode) (tino : Nat) : Io Unit := do
  let te ← iread g tino
  if te.kind = .dir ∧ fe.kind ≠ .dir then throw .eisdir
  else if te.kind ≠ .dir ∧ fe.kind = .dir then throw .enotdir
  else do
    let empty ← replaceable g te tino
    if empty = false then throw .enotempty
    else do
      let _ ← dirDel g tdir tname
      if te.kind = .dir then do
        let _ ← attempt (iwrite g tino { te with links := 0 })
        let _ ← attempt (orphanOrRelease g env tino)
        unlinkQuietly g tdir
      else dropLink g env tino

/-- The second entry of the block is `".."`. -/
def dotdotSecond (size : Nat) (c : Bytes) : Bool :=
  decide (recLen c 0 + 8 ≤ size) && nameAt c (recLen c 0) == dotdot

/-- The `".."` of a moved directory is put right. -/
def fixDotdot (fino tdir : Nat) : Io Unit := do
  match ← attempt (iread g fino) with
  | .error _ => pure ()
  | .ok fe => do
    let r ← take fun v => v.bmap g fe 0 false
    match r.2 with
    | .error _ => pure ()
    | .ok b =>
      if b = 0 ∨ g.blocksCount ≤ b then pure ()
      else do
        act Vol.touch
        let v ← get
        if dotdotSecond g.blockSize (v.data b) then
          act fun v => (v.setData b ((v.data b).putLe32 (recLen (v.data b) 0) tdir)).dirty
        else pure ()

/-- The parents of a moved directory: one has a link less, one has a link more. -/
def moveLinks (fdir tdir : Nat) : Io Unit := do
  unlinkQuietly g fdir
  adjust g tdir fun ne => some ne.linked

/-- Whether a directory would be moved into itself. -/
def movesWithin (fe : Einode) (fino tdir : Nat) : Io Bool :=
  if fe.kind = .dir then dirIsWithin g env fino 255 tdir else pure false

/-- The name that a thing is moved to is cleared. -/
def clearWay (tdir : Nat) (tname : Name) (fe : Einode) : Except Errno (Nat × UInt8) → Io Unit
  | .ok t => replace g env tdir tname fe t.1
  | .error _ => pure ()

def reparent (fe : Einode) (fino fdir tdir : Nat) : Io Unit :=
  if fe.kind = .dir ∧ fdir ≠ tdir then do
    fixDotdot g fino tdir
    moveLinks g fdir tdir
  else pure ()

/-- `ext2_rename`. -/
def rename (source dest : List UInt8) : Io Unit := do
  let src ← pathWalk (walker g) env.toTask source
  match src.2 with
  | none => throw .einval
  | some fname => do
    let dst ← pathWalk (walker g) env.toTask dest
    if env.rdonly = true then throw .erofs
    else match dst.2 with
      | none => throw .einval
      | some tname => do
        let found ← dirLookup g src.1 fname
        let fe ← iread g found.1
        if src.1 = dst.1 ∧ fname = tname then pure ()
        else do
          let within ← movesWithin g env fe found.1 dst.1
          if within = true then throw .einval
          else do
            let target ← attempt (dirLookup g dst.1 tname)
            if target.toOption.map Prod.fst = some found.1 then pure ()
            else do
              clearWay g env dst.1 tname fe target
              dirAdd g dst.1 ⟨tname, found.1, found.2⟩
              let _ ← dirDel g src.1 fname
              reparent g fe found.1 src.1 dst.1
              -- its ctime
              adjust g found.1 some

end Ext2

end Sage040.Fs
