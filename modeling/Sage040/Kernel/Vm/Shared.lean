import Sage040.Kernel.FileKey
import Sage040.Kernel.Vm.Page

/-!
# Shared mappings of files

`MAP_SHARED` of a file puts one physical page into every mapping of it (`kernel/textcache.c`), and
the page goes back to the file when it is synced and when the last mapping goes. This is the part of
`kernel/mmap.c`, `kernel/vm.c` and `kernel/textcache.c` that makes, changes, copies, moves and ends
mappings of files, one page after the other, as the calls do.

The cache knows a file by its key (`vfs_file_key`), which another file can have too; then it is one
page for both, and it goes back to the file that was mapped first.

Every byte carries where it comes from: which file, or a store through a mapping, with the file and
the access mode of the descriptor that mapping was made through. That label is carried along and
read by nobody. The pages a reference counter counts are named by their holders, the mappings and
the cache. Swap, devices and the limit on the cache's size are left out.
-/

namespace Sage040.Vm

open Function
open FileKey (FileId)

/-! ## The state -/

/-- `O_ACCMODE`. -/
inductive Mode
  | rdonly | wronly | rdwr
  deriving DecidableEq

/-- A descriptor of a file: which file, and how it was opened. -/
abbrev Handle := FileId × Mode

/-- Where a byte comes from: a page of zeros, a file (or past its end), or a store through a
mapping. -/
inductive Origin
  | zero
  | file (f : FileId)
  | stored (shared : Bool) (via : Option Handle)
  deriving DecidableEq

/-- A byte, with where it comes from. -/
abbrev Cell := UInt8 × Origin

/-- A file, in what the calls look at. -/
structure File where
  size : Nat
  /-- On a FAT volume, whose driver refuses writes through a descriptor open for reading. -/
  fat : Bool
  data : Nat → Cell

/-- `struct tc_entry`: the page, its shared mappings, and the open file it is written back
through. -/
structure Entry where
  page : Nat
  shared : Nat
  dirty : Bool
  file : Option Handle

/-- One more shared mapping; the first is what the page is written back through. -/
def Entry.share (e : Entry) (file : Handle) (writable : Bool) : Entry :=
  { e with
    shared := e.shared + 1
    file := if e.shared = 0 then some file else e.file
    dirty := e.dirty || writable }

/-- Who has a reference to a page. -/
inductive Holder
  | cache (ino : BitVec 32) (idx : Nat)
  | map (pid v : Nat)
  deriving DecidableEq

/-- A page's descriptor, and what the page was mapped through, if it is of a file. -/
structure Mapped where
  desc : Desc
  via : Option Handle

/-- Nothing is mapped. -/
def Mapped.empty : Mapped := ⟨Desc.empty, none⟩

/-- The files, the cache, the pages and who has them mapped. -/
structure World where
  files : FileId → File
  /-- By process and descriptor. -/
  fds : Nat → Nat → Option Handle
  /-- By the key of a file and page of it. -/
  cache : BitVec 32 → Nat → Option Entry
  /-- `pbuckets`: the entry a physical page belongs to. -/
  byPage : Nat → Option (BitVec 32 × Nat)
  ram : Nat → Nat → Cell
  holders : Nat → Finset Holder
  free : List Nat
  /-- By process and page number. -/
  table : Nat → Nat → Mapped
  /-- The processes there are. -/
  used : Nat → Bool

/-- `desc_owned` and `desc_has_page`. -/
def Desc.owned (d : Desc) : Bool := d.resident || d.cow || d.lazy || d.swap
/-- `desc_has_page`. -/
def Desc.hasPage (d : Desc) : Bool := d.resident || (d.cow && !(d.lazy || d.swap))

/-- A page that is there, with or without the right to write. -/
def Desc.of (p : Nat) (write shared : Bool) : Desc :=
  { Desc.present p (!write) with shared := shared }

/-- A page that is there and may not be touched. -/
def Desc.none_ (p : Nat) (shared : Bool) : Desc :=
  { Desc.empty with page := p, cow := true, shared := shared }

namespace World

variable (w : World)

/-- One entry of a page table is replaced. -/
def setDesc (pid v : Nat) (d : Mapped) : World :=
  { w with table := update w.table pid (update (w.table pid) v d) }

/-- One entry of the cache is replaced. -/
def setEntry (ino : BitVec 32) (idx : Nat) (e : Option Entry) : World :=
  { w with cache := update w.cache ino (update (w.cache ino) idx e) }

/-- The bytes of a file are replaced. -/
def setData (f : FileId) (data : Nat → Cell) : World :=
  { w with files := update w.files f { w.files f with data := data } }

/-- The holders of a page are replaced. -/
def setHolders (p : Nat) (hs : Finset Holder) : World :=
  { w with holders := update w.holders p hs }

/-- The bytes of a page are replaced. -/
def setPage (p : Nat) (data : Nat → Cell) : World := { w with ram := update w.ram p data }

/-! ## Pages -/

/-- `pmm_alloc`: a page of zeros. -/
def alloc (h : Holder) : Option (Nat × World) :=
  match w.free with
  | [] => none
  | p :: free =>
    some (p, ({ w with free := free }.setHolders p {h}).setPage p fun _ => (0, .zero))

/-- `pmm_ref`: unless 65536 hold it already. -/
def ref (p : Nat) (h : Holder) : Option World :=
  if (w.holders p).card < 65536 then
    some (w.setHolders p (insert h (w.holders p)))
  else none

/-- `pmm_free`: one holder fewer. -/
def unref (p : Nat) (h : Holder) : World :=
  let hs := (w.holders p).erase h
  { w.setHolders p hs with free := if hs.card = 0 then p :: w.free else w.free }

/-! ## `textcache.c` -/

/-- A page of a file, zero past its end. -/
def filePage (f : FileId) (idx : Nat) : Nat → Cell := fun o =>
  if idx * pageSize + o < (w.files f).size then
    (w.files f).data (idx * pageSize + o) else (0, .file f)

/-- `insert`, of a page that the cache holds already. -/
def insertEntry (ino : BitVec 32) (idx p : Nat) : World :=
  { w.setEntry ino idx (some ⟨p, 0, false, none⟩) with
    byPage := update w.byPage p (some (ino, idx)) }

/-- What a driver says to a write through the descriptor. -/
def mayPwrite (file : Handle) : Bool := !((w.files file.1).fat && file.2 == .rdonly)

/-- `write_back`: to the file that the entry was first mapped through. -/
def writeBack (idx : Nat) (e : Entry) : World :=
  match e.file with
  | none => w
  | some (f, mode) =>
    if w.mayPwrite (f, mode) then
      w.setData f fun o =>
        if o / pageSize = idx ∧ o < (w.files f).size then w.ram e.page (o % pageSize) else
          (w.files f).data o
    else w

/-- The entry for a page of a file, read in if none has the file's key. -/
def lookup (f : FileId) (idx : Nat) : Option World :=
  match w.cache f.key idx with
  | some _ => some w
  | none =>
    match w.alloc (.cache f.key idx) with
    | none => none
    | some (p, w') => some ((w'.setPage p (w.filePage f idx)).insertEntry f.key idx p)

/-- `textcache_get_shared`. -/
def getShared (file : Handle) (idx : Nat) (writable : Bool) (h : Holder) : Option (Nat × World) :=
  match w.lookup file.1 idx with
  | none => none
  | some w =>
    match w.cache file.1.key idx with
    | none => none
    | some e =>
      match w.ref e.page h with
      | none => none
      | some w => some (e.page, w.setEntry file.1.key idx (some (e.share file writable)))

/-- `textcache_get`: for a mapping that is private and cannot be written. -/
def getPrivate (f : FileId) (idx : Nat) (h : Holder) : Option (Nat × World) :=
  match w.cache f.key idx with
  | some e =>
    match w.ref e.page h with
    | some w => some (e.page, w)
    | none => (w.alloc h).map fun (p, w') => (p, w'.setPage p (w.filePage f idx))
  | none =>
    match w.alloc h with
    | none => none
    | some (p, w') =>
      match (w'.setPage p (w.filePage f idx)).ref p (.cache f.key idx) with
      | none => none
      | some w' => some (p, w'.insertEntry f.key idx p)

/-- `textcache_share_dup`. -/
def shareDup (p : Nat) : World :=
  match w.byPage p with
  | none => w
  | some (ino, idx) =>
    match w.cache ino idx with
    | none => w
    | some e =>
      if e.shared ≠ 0 then w.setEntry ino idx (some { e with shared := e.shared + 1 }) else w

/-- `textcache_share_dirty`. -/
def shareDirty (p : Nat) : World :=
  match w.byPage p with
  | none => w
  | some (ino, idx) =>
    match w.cache ino idx with
    | none => w
    | some e => if e.shared ≠ 0 then w.setEntry ino idx (some { e with dirty := true }) else w

/-- `textcache_share_release`: the last one writes the page back. -/
def shareRelease (p : Nat) : World :=
  match w.byPage p with
  | none => w
  | some (ino, idx) =>
    match w.cache ino idx with
    | none => w
    | some e =>
      if e.shared = 0 then w
      else if e.shared = 1 then
        (if e.dirty then w.writeBack idx e else w).setEntry ino idx
          (some { e with shared := 0, dirty := false, file := none })
      else w.setEntry ino idx (some { e with shared := e.shared - 1 })

/-- `textcache_sync_page`. -/
def syncPage (p : Nat) : World :=
  match w.byPage p with
  | none => w
  | some (ino, idx) =>
    match w.cache ino idx with
    | none => w
    | some e => if e.shared ≠ 0 ∧ e.dirty then w.writeBack idx e else w

/-- `sync_ino`: every dirty shared page of the key, each to its file. -/
def syncIno (ino : BitVec 32) : World :=
  { w with
    files f := { w.files f with
      data o :=
        match w.cache ino (o / pageSize) with
        | none => (w.files f).data o
        | some e =>
          if e.shared ≠ 0 ∧ e.dirty ∧ o < (w.files f).size ∧
              e.file.any (fun file => file.1 = f && w.mayPwrite file) then
            w.ram e.page (o % pageSize)
          else (w.files f).data o } }

/-- A page that only the cache holds is given up. -/
def shrink (ino : BitVec 32) (idx : Nat) : World :=
  match w.cache ino idx with
  | none => w
  | some e =>
    if (w.holders e.page).card = 1 then
      { w.setEntry ino idx none with byPage := update w.byPage e.page none }.unref e.page
        (.cache ino idx)
    else w

/-! ## `vm.c` -/

/-- `vm_unmap`, with `desc_release`. -/
def vmUnmap (pid v : Nat) : World :=
  let d := (w.table pid v).desc
  if !d.owned then w
  else
    let w := w.setDesc pid v .empty
    if d.hasPage then
      (if d.shared then w.shareRelease d.page else w).unref d.page (.map pid v)
    else w

/-- `vm_map_lazy`: a page of zeros, when it is touched. -/
def vmMapLazy (pid v : Nat) (write none_ : Bool) : World :=
  w.setDesc pid v ⟨{ Desc.empty with lazy := true, wp := !write, cow := none_ }, none⟩

/-- A page of one's own, with the contents of another. -/
def copyPage (p pid v : Nat) : Option (Nat × World) :=
  match w.alloc (.map pid v) with
  | none => none
  | some (q, w') => some (q, (w'.setPage q (w'.ram p)).unref p (.map pid v))

/-- `vm_protect`, of one page. -/
def vmProtect (pid v : Nat) (write none_ : Bool) : Option World :=
  let m := w.table pid v
  let d := m.desc
  let set (w : World) (p : Nat) : World :=
    w.setDesc pid v ⟨if none_ then Desc.none_ p d.shared else Desc.of p write d.shared, m.via⟩
  if !d.owned then none
  else if !d.hasPage then some (w.setDesc pid v ⟨{ d with wp := !write, cow := none_ }, m.via⟩)
  else if d.shared then some (set (if write && !none_ then w.shareDirty d.page else w) d.page)
  else if write && !none_ && 1 < (w.holders d.page).card then
    match w.copyPage d.page pid v with
    | none => none
    | some (q, w) => some (set w q)
  else some (set w d.page)

/-- `vm_move`, of one page. -/
def vmMove (pid src dst : Nat) : World :=
  let m := w.table pid src
  if !m.desc.owned then w
  else
    let w := (w.setDesc pid dst m).setDesc pid src .empty
    -- the reference goes along: it is another page's now
    if m.desc.hasPage then
      w.setHolders m.desc.page
        (insert (.map pid dst) ((w.holders m.desc.page).erase (.map pid src)))
    else w

/-- One page of `vm_clone`. -/
def clonePage (pid child v : Nat) : World :=
  let m := w.table pid v
  let d := m.desc
  if !d.owned then w
  else if !d.hasPage then w.setDesc child v m
  else
    match w.ref d.page (.map child v) with
    | some w =>
      if d.shared then (w.shareDup d.page).setDesc child v m
      else if d.resident && (!d.wp || d.cow) then
        let m := { m with desc := { d with wp := true, cow := true } }
        (w.setDesc pid v m).setDesc child v m
      else w.setDesc child v m
    | none =>
      -- 65536 hold it already: a copy
      match w.alloc (.map child v) with
      | none => w
      | some (q, w') => (w'.setPage q (w'.ram d.page)).setDesc child v
          { m with desc := { d with page := q, cow := false } }

end World

/-! ## The calls -/

/-- What `mmap` and `mprotect` are asked for. -/
structure Prot where
  read : Bool
  write : Bool
  exec : Bool
  deriving DecidableEq

/-- `PROT_NONE`. -/
def Prot.isNone (prot : Prot) : Bool := !(prot.read || prot.write || prot.exec)

/-- The page numbers of the user range, and of a part of it. -/
@[irreducible] def userPages : List Nat := (List.range 0x10000).map (0x10000 + ·)
def pagesFrom (v n : Nat) : List Nat := (List.range n).map (v + ·)

/-- `range_ok`, in pages. -/
def rangeOk (v n : Nat) : Bool := 0x10000 ≤ v && v + n ≤ 0x20000

namespace World

variable (w : World)

/-- `vm_unmap`, page after page. -/
def unmapAll (pid : Nat) (vs : List Nat) : World := vs.foldl (fun w v => w.vmUnmap pid v) w

/-- Every page is there. -/
def ownsAll (pid : Nat) (vs : List Nat) : Bool := vs.all fun v => (w.table pid v).desc.owned
/-- No page is there. -/
def ownsNone (pid : Nat) (vs : List Nat) : Bool := vs.all fun v => !(w.table pid v).desc.owned

/-- Page after page, from the `i`th on; if one cannot be mapped, those before it are unmapped
again. -/
def mapEach (pid v : Nat) (f : Nat → World → Option World) : Nat → Nat → World → World × Bool
  | _, 0, w => (w, true)
  | i, n + 1, w =>
    match f i w with
    | some w => mapEach pid v f (i + 1) n w
    | none => (w.unmapAll pid (pagesFrom v i).reverse, false)

/-- Every page, until one cannot be had: `do_mprotect`'s loop. -/
def protectEach (pid : Nat) (write none_ : Bool) : List Nat → World → World
  | [], w => w
  | v :: vs, w =>
    match w.vmProtect pid v write none_ with
    | some w => protectEach pid write none_ vs w
    | none => w

/-- One page of a shared mapping. -/
def mapShared (pid v : Nat) (file : Handle) (idx : Nat) (write : Bool) : Option World :=
  (w.getShared file idx write (.map pid v)).map fun (p, w) =>
    w.setDesc pid v ⟨.of p write true, some file⟩

/-- One page of a private mapping that cannot be written. -/
def mapPrivate (pid v : Nat) (file : Handle) (idx : Nat) : Option World :=
  (w.getPrivate file.1 idx (.map pid v)).map fun (p, w) =>
    w.setDesc pid v ⟨.of p false false, some file⟩

/-- One page of any other private mapping: a copy, read in now. -/
def mapCopy (pid v : Nat) (file : Handle) (idx : Nat) : Option World :=
  (w.alloc (.map pid v)).map fun (p, w') =>
    (w'.setPage p (w.filePage file.1 idx)).setDesc pid v ⟨.of p true false, some file⟩

/-- `do_mmap` of a file. -/
def mmapFile (pid v n : Nat) (prot : Prot) (shared : Bool) (file : Handle) (idx : Nat) : World :=
  if shared then
    let (w, ok) := mapEach pid v
      (fun i w => w.mapShared pid (v + i) file (idx + i) prot.write) 0 n w
    if ok && prot.isNone then protectEach pid false true (pagesFrom v n) w else w
  else if !prot.write && (prot.read || prot.exec) then
    (mapEach pid v (fun i w => w.mapPrivate pid (v + i) file (idx + i)) 0 n w).1
  else
    let (w, ok) := mapEach pid v (fun i w => w.mapCopy pid (v + i) file (idx + i)) 0 n w
    if ok && !prot.write then protectEach pid false prot.isNone (pagesFrom v n) w else w

/-- `do_mmap`, at the address it has settled on. -/
def doMmap (pid v n : Nat) (prot : Prot) (shared anon : Bool) (fd idx : Nat) : World :=
  if !w.used pid || n = 0 || !rangeOk v n then w
  else if anon then
    (pagesFrom v n).foldl (fun w v => w.vmMapLazy pid v prot.write prot.isNone)
      (w.unmapAll pid (pagesFrom v n))
  else
    match w.fds pid fd with
    | none => w
    | some file =>
      if file.2 = .wronly ∨ (shared ∧ prot.write ∧ file.2 ≠ .rdwr) then w
      else (w.unmapAll pid (pagesFrom v n)).mmapFile pid v n prot shared file idx

/-- `do_munmap`. -/
def doMunmap (pid v n : Nat) : World :=
  if rangeOk v n then w.unmapAll pid (pagesFrom v n) else w

/-- `do_mprotect`: every page must exist before any is changed. -/
def doMprotect (pid v n : Nat) (prot : Prot) : World :=
  if rangeOk v n && w.ownsAll pid (pagesFrom v n) then
    protectEach pid prot.write prot.isNone (pagesFrom v n) w
  else w

/-- `do_msync`: every shared page that is there. -/
def doMsync (pid v n : Nat) : World :=
  if rangeOk v n && w.ownsAll pid (pagesFrom v n) then
    (pagesFrom v n).foldl (fun w v =>
      let d := (w.table pid v).desc
      if d.shared && d.hasPage then w.syncPage d.page else w) w
  else w

/-- `fsync`: `textcache_sync_file`. -/
def doFsync (pid fd : Nat) : World :=
  match w.fds pid fd with
  | none => w
  | some (f, _) => w.syncIno f.key

/-- The moving and growing part of `do_mremap`: the pages added are anonymous, with the protection
of the last old one. -/
def remapTo (pid old n new dst : Nat) : World :=
  let last := (w.table pid (old + n - 1)).desc
  let write := if last.resident then !last.wp || last.cow else !last.wp && !last.cow
  let none_ := !last.resident && last.cow
  let keep := min n new
  let w := if dst = old then w
    else ((List.range keep).foldl (fun w i => w.vmMove pid (old + i) (dst + i)) w).unmapAll pid
      (pagesFrom (old + keep) (n - keep))
  (pagesFrom (dst + n) (new - n)).foldl (fun w v => w.vmMapLazy pid v write none_) w

/-- `do_mremap`. Where `find_free` would look for a place, `dst` is the one it finds. -/
def doMremap (pid old n new : Nat) (fixed : Bool) (dst : Nat) : World :=
  if n = 0 || new = 0 || !rangeOk old n || !w.ownsAll pid (pagesFrom old n) then w
  else if fixed then
    if rangeOk dst new && (old + n ≤ dst || dst + new ≤ old) then
      (w.unmapAll pid (pagesFrom dst new)).remapTo pid old n new dst
    else w
  else if new ≤ n then w.unmapAll pid (pagesFrom (old + new) (n - new))
  else if rangeOk dst new &&
      (if dst = old then w.ownsNone pid (pagesFrom (old + n) (new - n))
        else w.ownsNone pid (pagesFrom dst new)) then
    w.remapTo pid old n new dst
  else w

/-- `fork`, with `vm_clone`. -/
def fork (pid child : Nat) : World :=
  if w.used pid && !w.used child then
    userPages.foldl (fun w v => w.clonePage pid child v)
      { w with
        used := update w.used child true
        fds := update w.fds child (w.fds pid) }
  else w

/-- `exit`. -/
def exit (pid : Nat) : World :=
  { w.unmapAll pid userPages with
    used := update w.used pid false
    fds := update w.fds pid fun _ => none }

/-- `open`, which has granted the mode. -/
def openFile (pid fd : Nat) (file : Handle) : World :=
  { w with fds := update w.fds pid (update (w.fds pid) fd (some file)) }

/-- The byte is stored, and labelled with the mapping it came through. -/
def storeByte (p o : Nat) (b : UInt8) (m : Mapped) : World :=
  w.setPage p (update (w.ram p) o (b, .stored m.desc.shared m.via))

/-- A store by the program, with the fault it may take. -/
def store (pid a : Nat) (b : UInt8) : World :=
  let v := a / pageSize
  let o := a % pageSize
  let m := w.table pid v
  let d := m.desc
  if d.resident then
    if !d.wp then w.storeByte d.page o b m
    else if !d.cow then w
    else if 1 < (w.holders d.page).card then
      match w.copyPage d.page pid v with
      | none => w
      | some (q, w) =>
        (w.setDesc pid v ⟨.of q true false, m.via⟩).storeByte q o b ⟨.of q true false, m.via⟩
    else
      (w.setDesc pid v ⟨.of d.page true false, m.via⟩).storeByte d.page o b
        ⟨.of d.page true false, m.via⟩
  else if d.lazy && !d.cow && !d.wp then
    match w.alloc (.map pid v) with
    | none => w
    | some (q, w) =>
      (w.setDesc pid v ⟨.of q true false, m.via⟩).storeByte q o b ⟨.of q true false, m.via⟩
  else w

end World

/-- The calls, a store, and the cache's own doing. -/
inductive Event
  | openFile (pid fd : Nat) (file : Handle)
  | mmap (pid v n : Nat) (prot : Prot) (shared anon : Bool) (fd idx : Nat)
  | munmap (pid v n : Nat)
  | mprotect (pid v n : Nat) (prot : Prot)
  | mremap (pid old n new : Nat) (fixed : Bool) (dst : Nat)
  | fork (pid child : Nat)
  | store (pid a : Nat) (b : UInt8)
  | msync (pid v n : Nat)
  | fsync (pid fd : Nat)
  | exit (pid : Nat)
  /-- The cache gives up a page that nobody maps. -/
  | shrink (ino : BitVec 32) (idx : Nat)

/-- One event. -/
def World.apply (w : World) : Event → World
  | .openFile pid fd file => w.openFile pid fd file
  | .mmap pid v n prot shared anon fd idx => w.doMmap pid v n prot shared anon fd idx
  | .munmap pid v n => w.doMunmap pid v n
  | .mprotect pid v n prot => w.doMprotect pid v n prot
  | .mremap pid old n new fixed dst => w.doMremap pid old n new fixed dst
  | .fork pid child => w.fork pid child
  | .store pid a b => w.store pid a b
  | .msync pid v n => w.doMsync pid v n
  | .fsync pid fd => w.doFsync pid fd
  | .exit pid => w.exit pid
  | .shrink ino idx => w.shrink ino idx

end Sage040.Vm
