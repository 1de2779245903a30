import Sage040.Fs.Ext2.Calls
import Sage040.Kernel.Pipe.Atomic

/-!
# Read-only descriptors

Whether a descriptor may be written through is decided in three places. `fd_pwrite` looks at the
access mode itself, `ext2_file_truncate` asks `can_write`, and `fd_write` leaves it to the driver:
"fat16's write checks the flags". `ext2_file_write` does not, so `write` and `writev` go through a
descriptor that was opened `O_RDONLY` (`write_through_readonly`). And `fd_write` and `vfs_ftruncate`
first write back what shared mappings have made of the file (`beforeIo`), whether anything is
refused afterwards or not. The other calls leave the file alone, and so do those that are refused
before any of that: `run_unchanged`.
-/

namespace Sage040.Vfs

open Fs Exits Pipe Function

/-! ## Files and user memory -/

/-- `O_ACCMODE`. -/
def oAccmode : BitVec 32 := 0x0003

/-- `O_RDONLY`. -/
def oRdonly : BitVec 32 := 0x0000

/-- `O_APPEND`. -/
def oAppend : BitVec 32 := 0x0400

/-- `O_NONBLOCK`. -/
def oNonblock : BitVec 32 := 0x0800

/-- `struct file`, in what the calls look at. -/
structure Opened where
  ino : Nat
  pos : Nat
  flags : BitVec 32

/-- `can_write`. -/
def canWrite (flags : BitVec 32) : Bool := flags &&& oAccmode == 1 || flags &&& oAccmode == 2

/-- A buffer that a call is given: by a program, which cannot read all addresses, or by the kernel.
-/
structure UserBuf where
  ubuf : Nat
  len : Nat
  data : Nat → UInt8
  readable : Nat → Bool
  program : Bool

/-- `n` bytes of a buffer. -/
def UserBuf.bytes (b : UserBuf) (off n : Nat) : List UInt8 :=
    (List.range n).map fun i => b.data (off + i)

/-- The first byte of the buffer cannot be read. -/
def UserBuf.Refused (b : UserBuf) : Prop := b.program = true ∧ b.readable (b.ubuf % 2 ^ 32) = false

/-- What holds of the first buffer of a `writev` that is not empty, if it comes to one. -/
def OfFirst (P : UserBuf → Prop) : List (Option UserBuf) → Prop
  | [] => True
  | none :: _ => True
  | some b :: rest => if b.len = 0 then OfFirst P rest else P b

lemma ofFirst_of_forall {P : UserBuf → Prop} (h : ∀ b, P b) : ∀ iov : List (Option UserBuf),
    OfFirst P iov
  | [] => trivial
  | none :: _ => trivial
  | some b :: rest => by
    rw [OfFirst]
    split
    · exact ofFirst_of_forall h rest
    · exact h b

/-- `total > 0 ? total : -err`. -/
def orElse (total : Int) (err : Errno) : Except Errno Int :=
    if 0 < total then .ok total else .error err

section Loops

variable {σ : Type}

/-- The loop of `rw_user` and `prw_user` for a program: `one` is given a page at a time. -/
def userLoop (b : UserBuf) (one : Int → List UInt8 → σ → σ × Except Errno Int) :
    Nat → Nat → Int → σ → σ × Except Errno Int
  | 0, _, total, s => (s, .ok total)
  | fuel + 1, off, total, s =>
    if b.len ≤ off then (s, .ok total)
    else
      let uva := (b.ubuf + off) % 2 ^ 32
      if b.readable uva then
        let n := Pipe.chunkLen uva (b.len - off)
        match one total (b.bytes off n) s with
        | (s, .error e) => (s, orElse total e)
        | (s, .ok got) =>
          if got.toNat < n then (s, .ok (total + got)) else
            userLoop b one fuel (off + n) (total + got) s
      else (s, orElse total .efault)

/-- `rw_user` and `prw_user`. -/
def rwUser (b : UserBuf) (one : Int → List UInt8 → σ → σ × Except Errno Int) (s : σ) :
    σ × Except Errno Int :=
  if b.program then userLoop b one b.len 0 0 s else one 0 (b.bytes 0 b.len) s

/-- `IOV_MAX_K`. -/
def iovMaxK : Nat := 1024

/-- The loop of `rwv_user`. An `iovec` that cannot be read is `none`. -/
def iovLoop (one : UserBuf → σ → σ × Except Errno Int) : List (Option UserBuf) → Int → σ →
    σ × Except Errno Int
  | [], total, s => (s, .ok total)
  | none :: _, total, s => (s, orElse total .efault)
  | some b :: rest, total, s =>
    if b.len = 0 then iovLoop one rest total s
    else
      match one b s with
      | (s, .error e) => (s, orElse total e)
      | (s, .ok got) =>
        if got.toNat < b.len then (s, .ok (total + got)) else iovLoop one rest (total + got) s

end Loops

/-! ## The calls -/

/-- A page of the text cache that is mapped shared, `struct tc_entry`: `file` is the open file that
it is written back through. On one volume a file's key is as good as its inode number. -/
structure SharedPage where
  ino : Nat
  off : Nat
  file : Nat
  dirty : Bool
  data : Nat → UInt8

/-- A volume, its files' times of modification, the open files and who has them. -/
structure Access where
  vol : Vol
  mtime : Nat → Nat
  files : Nat → Opened
  /-- The descriptors of all tasks. -/
  fds : Nat → Option Nat
  /-- `swap_holds`. -/
  swap : Nat → Bool
  shared : List SharedPage

namespace Access

variable (g : Geometry) (s : Access) (now : Nat)

/-- One open file is replaced. -/
def setFile (f : Nat) (x : Opened) : Access := { s with files := update s.files f x }

/-- Where `ext2_file_write` begins. -/
def writePos (o : Opened) : Nat :=
  match s.vol.iread g o.ino with
  | .error _ => o.pos
  | .ok ei => if ei.kind ≠ .dir ∧ o.flags &&& oAppend ≠ 0 then ei.size else o.pos

/-- `ext2_file_write`, with the position and the time. -/
def ext2FileWrite (f : Nat) (bytes : List UInt8) : Access × Except Errno Int :=
  let o := s.files f
  let r := finish (Ext2.fileWrite g o.ino o.pos (o.flags &&& oAppend != 0) bytes) s.vol
  let s' := { s.setFile f { o with pos := s.writePos g o } with vol := r.1 }
  match r.2 with
  | .error e => (s', .error e)
  | .ok n =>
    if 0 < n then
      ({ s'.setFile f { o with pos := s.writePos g o + n.toNat } with
        mtime := update s.mtime o.ino now }, .ok n)
    else (s', .ok n)

/-- `ext2_file_truncate`, with the time. -/
def ext2FileTruncate (f len : Nat) : Access × Except Errno Unit :=
  let o := s.files f
  let r := finish (Ext2.fileTruncate g o.ino (canWrite o.flags) len) s.vol
  match r.2 with
  | .error e => ({ s with vol := r.1 }, .error e)
  | .ok _ => ({ s with vol := r.1, mtime := update s.mtime o.ino now }, .ok ())

/-- `is_swapfile`. -/
def isSwapfile (d : Nat) : Bool :=
  match s.fds d with
  | none => false
  | some f =>
    match s.vol.iread g (s.files f).ino with
    | .error _ => false
    | .ok ei => ei.kind == .reg && s.swap (s.files f).ino

/-- `file_pio`, for writing. -/
def filePio (f off : Nat) (bytes : List UInt8) : Access × Except Errno Int :=
  let o := s.files f
  let r := (s.setFile f { o with pos := off, flags := o.flags &&& ~~~oAppend }).ext2FileWrite
    g now f bytes
  (r.1.setFile f { r.1.files f with pos := o.pos, flags := o.flags }, r.2)

/-- `write_back`: as much of the page as the file holds. -/
def writeBack (e : SharedPage) : Access :=
  match s.vol.iread g (s.files e.file).ino with
  | .error _ => s
  | .ok ei =>
    if ei.size ≤ e.off then s
    else (s.filePio g now e.file e.off ((List.range (min (ei.size - e.off) 4096)).map e.data)).1

/-- The number of a regular file, `ino_of`. -/
def inoOf (f : Nat) : Option Nat :=
  match s.vol.iread g (s.files f).ino with
  | .error _ => none
  | .ok ei => if ei.kind = .reg then some (s.files f).ino else none

/-- `textcache_before_io`: what shared mappings have made of the file is written back. -/
def beforeIo (f : Nat) : Access :=
  match s.inoOf g f with
  | none => s
  | some ino =>
    (s.shared.filter fun e => e.dirty && e.ino == ino).foldl (fun s e => s.writeBack g now e) s

/-- `textcache_after_change`: the pages that are mapped shared read the file again. -/
def afterChange (f : Nat) : Access :=
  match s.inoOf g f with
  | none => s
  | some ino =>
    let fill off i := if off + i < (s.vol.inode ino).size then
      s.vol.byteAt g (rootOf s.vol.inode) ino (off + i) else 0
    { s with shared := s.shared.map fun e => if e.ino = ino then
      { e with data := fill e.off } else e }

/-- The end of a call that wrote: `textcache_after_change` if that came to something. -/
def changed (f : Nat) : Access × Except Errno Int → Access × Except Errno Int
  | (s, .error e) => (s, .error e)
  | (s, .ok n) => (if 0 < n then s.afterChange g f else s, .ok n)

/-- `fd_write`. -/
def fdWrite (d : Nat) (bytes : List UInt8) : Access × Except Errno Int :=
  match s.fds d with
  | none => (s, .error .ebadf)
  | some f =>
    if s.isSwapfile g d then (s, .error .etxtbsy) else
      changed g f ((s.beforeIo g now f).ext2FileWrite g now f bytes)

/-- `fd_pwrite`. -/
def fdPwrite (d : Nat) (bytes : List UInt8) (off : Nat) : Access × Except Errno Int :=
  match s.fds d with
  | none => (s, .error .ebadf)
  | some f =>
    if (s.files f).flags &&& oAccmode = oRdonly then (s, .error .ebadf)
    else if s.isSwapfile g d then (s, .error .etxtbsy)
    else changed g f ((s.beforeIo g now f).filePio g now f off bytes)

/-- `vfs_ftruncate`. -/
def vfsFtruncate (d len : Nat) : Access × Except Errno Unit :=
  match s.fds d with
  | none => (s, .error .ebadf)
  | some f =>
    if s.isSwapfile g d then (s, .error .etxtbsy)
    else
      let r := (s.beforeIo g now f).ext2FileTruncate g now f len
      (r.1.afterChange g f, r.2)

/-- `fd_fcntl` with `F_SETFL`. -/
def setfl (d : Nat) (arg : BitVec 32) : Access × Except Errno Unit :=
  match s.fds d with
  | none => (s, .error .ebadf)
  | some f =>
    let o := s.files f
    (s.setFile f { o with flags := (o.flags &&& ~~~(oNonblock ||| oAppend)) |||
      (arg &&& (oNonblock ||| oAppend)) },
      .ok ())

end Access

/-- The calls on a descriptor. -/
inductive Call
  | write (d : Nat) (b : UserBuf)
  | writev (d : Nat) (iov : List (Option UserBuf))
  /-- The offset is in two registers. -/
  | pwrite64 (d : Nat) (b : UserBuf) (high off : Nat)
  | ftruncate (d len : Nat)
  | setfl (d : Nat) (arg : BitVec 32)
  /-- A duplicate, or a child's copy. -/
  | dup (d d' : Nat)

/-- The descriptor that a call is made on. -/
def Call.fd : Call → Nat
  | .write d _ | .writev d _ | .pwrite64 d _ _ _ | .ftruncate d _ | .setfl d _ | .dup d _ => d

namespace Access

variable (g : Geometry)

/-- A call that is made when the clock says `now`. -/
def step (s : Access) (e : Nat × Call) : Access :=
  match e.2 with
  | .write d b => (rwUser b (fun _ bytes s => s.fdWrite g e.1 d bytes) s).1
  | .writev d iov =>
    if iovMaxK < iov.length then s
    else (iovLoop (fun b => rwUser b fun _ bytes s => s.fdWrite g e.1 d bytes) iov 0 s).1
  | .pwrite64 d b high off =>
    if high ≠ 0 ∨ 2 ^ 31 ≤ off then s
    else (rwUser b (fun total bytes s => s.fdPwrite g e.1 d bytes ((off + total.toNat) % 2 ^ 32))
      s).1
  | .ftruncate d len => if 2 ^ 31 ≤ len then s else (s.vfsFtruncate g e.1 d len).1
  | .setfl d arg => (s.setfl d arg).1
  | .dup d d' => { s with fds := update s.fds d' (s.fds d) }

/-- One call after the other, each at its time. -/
def run (s : Access) (calls : List (Nat × Call)) : Access := calls.foldl (step g) s

/-- What can be seen of a file. -/
structure Sight where
  size : Nat
  byte : Nat → UInt8
  mtime : Nat

/-- What can be seen of an inode. -/
def sight (s : Access) (ino : Nat) : Sight where
  size := (s.vol.inode ino).size
  byte := s.vol.byteAt g (rootOf s.vol.inode) ino
  mtime := s.mtime ino

/-! ## What a call leaves alone -/

/-- Nothing on the volume changes, nor how `f` is open. -/
structure Unchanged (f : Nat) (s s' : Access) : Prop where
  image : s'.vol.toImage = s.vol.toImage
  mtime : s'.mtime = s.mtime
  acc : (s'.files f).flags &&& oAccmode = (s.files f).flags &&& oAccmode

variable {g} {s s' : Access} {f d now : Nat}

lemma Unchanged.refl (f s) : Unchanged f s s := ⟨rfl, rfl, rfl⟩

lemma Unchanged.sight (h : Unchanged f s s') (ino : Nat) : s'.sight g ino = s.sight g ino := by
  have hinode : s'.vol.inode = s.vol.inode := congrArg Image.inode h.image
  have hbyte : s'.vol.byteAt g (rootOf s'.vol.inode) ino =
      s.vol.byteAt g (rootOf s.vol.inode) ino := by
    funext i
    rw [hinode, Vol.byteAt, Vol.byteAt, Vol.contents_of_image h.image]
  rw [Access.sight, Access.sight, hbyte, hinode, h.mtime]

/-- No shared mapping has changed the file. -/
def Clean (s : Access) (d : Nat) : Prop := ∀ f ∈ s.fds d, ∀ e ∈ s.shared, e.dirty = true →
    e.ino ≠ (s.files f).ino

/-- **A write comes to nothing before the driver is asked**: there is nothing to write, the buffer
cannot be read, or the file is the swap file. A write of nothing by the kernel, and an `ftruncate`
that is not refused for its length or the swap file, also find nothing to write back. The other
calls need nothing. -/
def Quiet (g : Geometry) (s : Access) : Call → Prop
  | .write d b => s.isSwapfile g d = true ∨ b.len = 0 ∧ (b.program = true ∨ s.Clean d) ∨ b.Refused
  | .writev d iov => iovMaxK < iov.length ∨ s.isSwapfile g d = true ∨ OfFirst UserBuf.Refused iov
  | .ftruncate d len => 2 ^ 31 ≤ len ∨ s.isSwapfile g d = true ∨ s.Clean d
  | _ => True

lemma beforeIo_clean (hfd : s.fds d = some f) (h : s.Clean d) (now) : s.beforeIo g now f = s := by
  rw [beforeIo]
  rcases hino : s.inoOf g f with _ | ino
  · rfl
  have hsame : ino = (s.files f).ino := by
    rw [inoOf] at hino
    split at hino
    · cases hino
    split at hino
    · exact (Option.some.inj hino).symm
    · cases hino
  have hnone : s.shared.filter (fun e => e.dirty && e.ino == ino) = [] := by
    refine List.filter_eq_nil_iff.2 fun e he hdirty => ?_
    rw [Bool.and_eq_true, beq_iff_eq] at hdirty
    exact h f hfd e he hdirty.1 (hdirty.2.trans hsame)
  dsimp only
  rw [hnone]
  rfl

lemma Unchanged.afterChange (h : Unchanged f s s') (f') : Unchanged f s (s'.afterChange g f') := by
  rw [Access.afterChange]
  split
  · exact h
  · exact ⟨h.image, h.mtime, h.acc⟩

lemma Unchanged.changed {r : Access × Except Errno Int} (h : Unchanged f s r.1) (f') :
    Unchanged f s (Access.changed g f' r).1 := by
  obtain ⟨s', e | n⟩ := r
  · exact h
  · rw [Access.changed]
    split
    · exact h.afterChange f'
    · exact h

/-- `ext2_file_write` of nothing. -/
lemma fileWrite_nil (ino pos : Nat) (append : Bool) (v : Vol) :
    Ends (Ext2.fileWrite g ino pos append []) v fun v' r => v'.toImage = v.toImage ∧ ∀ n,
    r = .ok n → n = 0 := by
  have hread : Ends (Ext2.iread g ino) v fun v' _ => v'.toImage = v.toImage := by
    rw [Ext2.iread, ends_lift]
    cases v.iread g ino with
    | error e => rfl
    | ok ei => exact Vol.touch_toImage v
  refine hread.bind (fun v1 ei himg => Ends.ite (fun _ => ?_) fun _ => ?_) fun v1 e himg => ⟨himg,
    fun n hn => ?_⟩
  · exact ends_throw.2 ⟨himg, fun n hn => by contradiction⟩
  · exact ⟨himg, fun n hn => (Except.ok.inj hn).symm⟩
  · contradiction

lemma unchanged_write_nil (s f now) : Unchanged f s (s.ext2FileWrite g now f []).1 := by
  obtain ⟨himg, hzero⟩ := fileWrite_nil (g := g) (s.files f).ino (s.files f).pos
    ((s.files f).flags &&& oAppend != 0) s.vol
  rw [ext2FileWrite]
  rcases hr : (finish (Ext2.fileWrite g (s.files f).ino (s.files f).pos ((s.files f).flags &&&
    oAppend != 0) [])
    s.vol).2 with e | n
  · exact ⟨himg, rfl, by simp [setFile]⟩
  have hn := hzero n hr
  subst hn
  exact ⟨himg, rfl, by simp [setFile]⟩

lemma fdWrite_swapfile (hswap : s.isSwapfile g d = true) (bytes : List UInt8) :
    ∃ e, s.fdWrite g now d bytes = (s, .error e) := by
  rw [fdWrite]
  rcases s.fds d with _ | f
  · exact ⟨_, rfl⟩
  · exact ⟨_, if_pos hswap⟩

variable {one : Int → List UInt8 → Access → Access × Except Errno Int}

lemma rwUser_error (hone : ∀ bytes, ∃ e, one 0 bytes s = (s, .error e)) (b : UserBuf)
    (hlen : b.len ≠ 0) :
    ∃ e, rwUser b one s = (s, .error e) := by
  rw [rwUser]
  split
  · obtain ⟨n, hn⟩ := Nat.exists_eq_succ_of_ne_zero hlen
    rw [hn, userLoop, if_neg (by omega)]
    dsimp only
    split
    · obtain ⟨e, he⟩ := hone (b.bytes 0 (Pipe.chunkLen ((b.ubuf + 0) % 2 ^ 32) (b.len - 0)))
      rw [he]
      exact ⟨e, rfl⟩
    · exact ⟨_, rfl⟩
  · exact hone _

lemma rwUser_refused {b : UserBuf} (h : b.Refused) (hlen : b.len ≠ 0) (one) :
    rwUser b one s = (s, .error .efault) := by
  obtain ⟨n, hn⟩ := Nat.exists_eq_succ_of_ne_zero hlen
  rw [rwUser, if_pos h.1, hn, userLoop, if_neg (by omega), Nat.add_zero]
  rw [if_neg (by rw [h.2]; exact Bool.false_ne_true)]
  rfl

lemma iovLoop_error {one : UserBuf → Access → Access × Except Errno Int} {P : UserBuf → Prop}
    (hone : ∀ b : UserBuf, b.len ≠ 0 → P b → ∃ e, one b s = (s, .error e)) :
    ∀ iov : List (Option UserBuf), OfFirst P iov → (iovLoop one iov 0 s).1 = s
  | [], _ => rfl
  | none :: _, _ => rfl
  | some b :: rest, h => by
    rw [OfFirst] at h
    rw [iovLoop]
    split at h
    · next hlen =>
      rw [if_pos hlen]
      exact iovLoop_error hone rest h
    · next hlen =>
      obtain ⟨e, he⟩ := hone b hlen h
      rw [if_neg hlen, he]

/-- `F_SETFL` leaves the access mode as it is. -/
lemma setfl_accmode (flags arg : BitVec 32) :
    ((flags &&& ~~~(oNonblock ||| oAppend)) ||| (arg &&& (oNonblock ||| oAppend))) &&& oAccmode =
      flags &&& oAccmode := by
  have hmask : oAccmode &&& (oNonblock ||| oAppend) = 0#32 := by decide
  have hrest : oAccmode &&& ~~~(oNonblock ||| oAppend) = oAccmode := by decide
  rw [BitVec.and_comm _ oAccmode, BitVec.and_or_distrib_left, ← BitVec.and_assoc,
    ← BitVec.and_assoc,
    BitVec.and_comm oAccmode flags, BitVec.and_comm oAccmode arg, BitVec.and_assoc,
      BitVec.and_assoc, hrest, hmask,
    BitVec.and_zero, BitVec.or_zero]

lemma rwUser_same (b : UserBuf) (hone : ∀ bytes, ∃ e, one 0 bytes s = (s, .error e)) :
    (rwUser b one s).1 = s := by
  by_cases hlen : b.len = 0
  · rw [rwUser, hlen]
    split
    · rfl
    obtain ⟨e, he⟩ := hone (b.bytes 0 0)
    rw [he]
  · obtain ⟨e, he⟩ := rwUser_error hone b hlen
    rw [he]

lemma step_unchanged (hro : (s.files f).flags &&& oAccmode = oRdonly) (now) (c : Call)
    (hfd : s.fds c.fd = some f) (hquiet : s.Quiet g c) : Unchanged f s (s.step g (now, c)) := by
  have same : ∀ {s'}, s' = s → Unchanged f s s' := fun h => h ▸ .refl f s
  rcases c with ⟨d, b⟩ | ⟨d, iov⟩ | ⟨d, b, high, off⟩ | ⟨d, len⟩ | ⟨d, arg⟩ | ⟨d, d'⟩
  · rw [step]
    dsimp only
    rcases hquiet with hswap | hlen | hrefused
    · exact same (rwUser_same b (fdWrite_swapfile hswap))
    · rw [rwUser, hlen.1]
      split
      · exact .refl f s
      rename_i hkernel
      have hfd : s.fds d = some f := hfd
      rw [fdWrite, hfd]
      dsimp only
      rw [beforeIo_clean hfd (hlen.2.resolve_left hkernel)]
      split
      · exact .refl f s
      · exact (unchanged_write_nil s f now).changed f
    · by_cases hlen : b.len = 0
      · rw [rwUser, hlen, if_pos hrefused.1]
        exact .refl f s
      · rw [rwUser_refused hrefused hlen]
        exact .refl f s
  · rw [step]
    dsimp only
    split
    · exact .refl f s
    rcases hquiet with hlong | hswap | hrefused
    · contradiction
    · exact same (iovLoop_error (fun b hlen _ => rwUser_error (fdWrite_swapfile hswap) b hlen) iov
        (ofFirst_of_forall (P := fun _ => True) (fun _ => trivial) iov))
    · exact same (iovLoop_error (fun b hlen hb => ⟨_, rwUser_refused hb hlen _⟩) iov hrefused)
  · rw [step]
    dsimp only
    split
    · exact .refl f s
    have hfd : s.fds d = some f := hfd
    refine same (rwUser_same b fun bytes => ⟨.ebadf, ?_⟩)
    rw [fdPwrite, hfd]
    dsimp only
    rw [if_pos hro]
  · rw [step]
    dsimp only
    split
    · exact .refl f s
    have hfd : s.fds d = some f := hfd
    have hcan : canWrite (s.files f).flags = false := by rw [canWrite, hro]; decide
    rw [vfsFtruncate, hfd]
    dsimp only
    split
    · exact .refl f s
    rename_i hlen hswap
    rw [beforeIo_clean hfd ((hquiet.resolve_left hlen).resolve_left hswap), ext2FileTruncate, hcan]
    exact Unchanged.afterChange (.refl f s) f
  · have hfd : s.fds d = some f := hfd
    rw [step]
    dsimp only
    rw [setfl, hfd]
    refine ⟨rfl, rfl, ?_⟩
    have hself : ∀ x, ((s.setFile f x).files f) = x := fun x => update_self ..
    rw [hself]
    exact setfl_accmode _ arg
  · exact ⟨rfl, rfl, rfl⟩

/-- **Calls on descriptors of a file that is open `O_RDONLY` leave every file as it was**, when the
writes among them come to nothing before the driver is asked and there is nothing to write back. -/
theorem run_unchanged (g : Geometry) (f : Nat) (calls : List (Nat × Call)) (s : Access)
    (hro : (s.files f).flags &&& oAccmode = oRdonly)
    (hcalls : Runs.Every (step g) (fun s e => s.fds e.2.fd = some f ∧ s.Quiet g e.2) calls s)
    (ino : Nat) :
    (s.run g calls).sight g ino = s.sight g ino := by
  have hrun : ((s.run g calls).files f).flags &&& oAccmode = oRdonly ∧
      (s.run g calls).sight g ino = s.sight g ino := by
    refine Runs.induction_on
      (I := fun r => (r.files f).flags &&& oAccmode = oRdonly ∧ r.sight g ino = s.sight g ino)
      (fun r e hr he => ?_) calls ⟨hro, rfl⟩ hcalls
    have hstep := step_unchanged hr.1 e.1 e.2 he.1 he.2
    exact ⟨hstep.acc.trans hr.1, (hstep.sight ino).trans hr.2⟩
  exact hrun.2

/-! ### A file that is open for reading, and written -/

/-- An empty file, open `O_RDONLY` on descriptor `3`. -/
def readOnly : Access where
  vol := { Vol.small with inode := fun ino => if ino = 12 then
    { Einode.clear with kind := .reg, links := 1 } else Einode.clear }
  mtime _ := 0
  files _ := ⟨12, 0, oRdonly⟩
  fds d := if d = 3 then some 0 else none
  swap _ := false
  shared := []

/-- A byte that can be read. -/
def oneByte : UserBuf := ⟨0x10000, 1, fun _ => 65, fun _ => true, true⟩

/-- Calls that are refused, and a `write` of nothing through a duplicate. -/
def refusals : List (Nat × Call) :=
  [(1, .pwrite64 3 oneByte 0 0), (2, .ftruncate 3 7), (3, .setfl 3 oAppend), (4, .dup 3 4),
    (5, .write 4 { oneByte with len := 0 })]

theorem run_unchanged_refusals :
    (readOnly.run Vol.oneGroup refusals).sight Vol.oneGroup 12 = readOnly.sight Vol.oneGroup 12 :=
  have hcalls : Runs.Every (step Vol.oneGroup) (fun s e => s.fds e.2.fd = some 0 ∧
    s.Quiet Vol.oneGroup e.2)
      refusals readOnly :=
    ⟨⟨rfl, trivial⟩, ⟨rfl, .inr (.inr fun _ _ _ he => by cases he)⟩, ⟨rfl, trivial⟩, ⟨rfl, trivial⟩,
      ⟨rfl, .inr (.inl ⟨rfl, .inl rfl⟩)⟩, trivial⟩
  run_unchanged Vol.oneGroup 0 refusals readOnly (by decide) hcalls 12

/-- `write` of one byte: the file has it. -/
theorem write_through_readonly : (readOnly.files 0).flags &&& oAccmode = oRdonly ∧
      ((readOnly.run Vol.oneGroup [(1, .write 3 oneByte)]).sight Vol.oneGroup 12).size = 1 ∧
      ((readOnly.run Vol.oneGroup [(1, .write 3 oneByte)]).sight Vol.oneGroup 12).byte 0 = 65 ∧
      ((readOnly.run Vol.oneGroup [(1, .write 3 oneByte)]).sight Vol.oneGroup 12).mtime = 1 ∧
      (readOnly.sight Vol.oneGroup 12).size = 0 := by
  decide +kernel

end Access

end Sage040.Vfs
