import Sage040.Kernel.Exec.Script
import Sage040.Kernel.Uaccess

/-!
# Loading an ELF file

`load_image` of `kernel/exec.c` reads the headers of a file and its loadable segments, one read at a
time, and keeps what it learns in a `struct image` that its caller owns. The callers' structures
are static: the image under construction is in the shared state, and a read that sleeps leaves it
there for others to find.

`imageOf` is what the image comes to when nobody else touches it: a function of the file's
contents. `loadImage_sat` says so: as long as the files and the two images are left alone, an image
that loads is the one `imageOf` gives.

The contents of the segments go into the new address space, which belongs to the task. Each read
is noted with the file it was made from and that file's mode and owner at the moment (`Source`);
nothing looks at these notes, they are for saying where a program came from.
-/

namespace Sage040.Exec

open Coop

/-! ## The format -/

def userVaBase : Nat := 0x10000000
def userVaEnd : Nat := 0x20000000
def userVaStackTop : Nat := userVaEnd - 16
def userStackPages : Nat := 256

/-- `LDSO_BASE` and `LDSO_END`: where an interpreter may live. -/
def ldsoBase : Nat := 0x1fe00000
def ldsoEnd : Nat := userVaEnd - (userStackPages + 1) * pageSize

def ehdrSize : Nat := 52
def phdrSize : Nat := 32
def interpMax : Nat := 64
def allOnes : Nat := 0xffffffff

/-- `check_ident`: an ELF32 big-endian m68k executable. -/
def checkIdent (e : Bytes) : Bool :=
  e 0 == 0x7f && e 1 == 69 && e 2 == 76 && e 3 == 70 && e 4 == 1 && e 5 == 2 &&
    e.be16 16 == 2 && e.be16 18 == 4 && e.be32 20 == 1

structure Table where
  phoff : Nat
  phnum : Nat
  phentsize : Nat

/-- A read of the file, and what is done with it to the image. -/
def onRead {α : Type} (x : Except Errno Bytes) (f : Bytes → Image → Except Errno α × Image)
    (img : Image) : Except Errno α × Image :=
  match x with
  | .error e => (.error e, img)
  | .ok b => f b img

lemma onRead_ok {α : Type} {x : Except Errno Bytes} {f : Bytes → Image → Except Errno α × Image}
    {img img' : Image} {a : α} (h : onRead x f img = (.ok a, img')) : ∃ b, x = .ok b ∧
    f b img = (.ok a, img') := by
  cases x with
  | error e => cases h
  | ok b => exact ⟨b, rfl, h⟩

/-- The file's header, and what is stored of it even where it is refused. -/
def checkEhdr (lo hi : Nat) (e : Bytes) (img : Image) : Except Errno Table × Image :=
  if !checkIdent e then (.error .enoexec, img)
  else
    let t : Table := ⟨e.be32 28, e.be16 44, e.be16 42⟩
    let img := { img with entry := e.be32 24 }
    if t.phoff = 0 || t.phnum = 0 || t.phentsize < phdrSize then (.error .enoexec, img)
    else if img.entry < lo || hi ≤ img.entry then (.error .enoexec, img)
    else
      (.ok t, { img with phnum := t.phnum, start := allOnes, codeLo := allOnes, dataLo := allOnes })

def readEhdr (d : Contents) (lo hi : Nat) : Image → Except Errno Table × Image :=
  onRead (d.readAt 0 ehdrSize) (checkEhdr lo hi)

structure Phdr where
  type : Nat
  offset : Nat
  vaddr : Nat
  filesz : Nat
  memsz : Nat
  flags : Nat

def Phdr.of (p : Bytes) : Phdr :=
  ⟨p.be32 0, p.be32 4, p.be32 8, p.be32 16, p.be32 20, p.be32 24⟩

/-- `vaddr + memsz`, in a `u32`. -/
def Phdr.top (ph : Phdr) : Nat := (ph.vaddr + ph.memsz) % 2 ^ 32

inductive Action
  | skip
  | interp (offset filesz : Nat)
  | segment (ph : Phdr)

/-- A program header, up to the next thing that has to be read. -/
def phdrAction (lo hi phoff : Nat) (ph : Phdr) (img : Image) : Except Errno Action × Image :=
  if ph.type = 3 then
    if ph.filesz < 2 || interpMax < ph.filesz then (.error .enoexec, img)
    else (.ok (.interp ph.offset ph.filesz), img)
  else if ph.type = 6 then (.ok .skip, { img with phdr := ph.vaddr })
  else if ph.type ≠ 1 then (.ok .skip, img)
  else
    -- headers inside a segment are loaded with it, which is where they are without a PT_PHDR
    let img :=
      if img.phdr = 0 && ph.offset ≤ phoff && phoff < (ph.offset + ph.filesz) % 2 ^ 32 then
        { img with phdr := (ph.vaddr + (phoff - ph.offset)) % 2 ^ 32 }
      else img
    if ph.memsz < ph.filesz then (.error .enoexec, img)
    else if ph.vaddr < lo || hi < ph.top || ph.top < ph.vaddr then (.error .enoexec, img)
    else if userVaStackTop - userStackPages * pageSize < ph.top then (.error .enomem, img)
    else (.ok (.segment ph), img)

/-- Program header `i`. -/
def readPhdr (d : Contents) (lo hi : Nat) (t : Table) (i : Nat) : Image →
    Except Errno Action × Image :=
  onRead (d.readAt ((t.phoff + i * t.phentsize) % 2 ^ 32) phdrSize) fun p =>
    phdrAction lo hi t.phoff (.of p)

/-- The interpreter's name goes straight into the image, as much of it as the file has. -/
def readInterp (d : Contents) (offset filesz : Nat) (img : Image) : Except Errno Unit × Image :=
  if 2 ^ 31 ≤ offset then (.error .eio, img)
  else
    let img := { img with interp := img.interp.blit 0 d.bytes offset (min filesz (d.size - offset)) }
    if d.size < offset + filesz then (.error .enoexec, img)
    else if img.interp (filesz - 1) ≠ 0 then (.error .enoexec, img)
    else (.ok (), img)

/-- The bounds that a loaded segment moves. -/
def noteSegment (ph : Phdr) (img : Image) : Image :=
  let img := { img with start := min img.start ph.vaddr }
  if ph.flags % 2 = 0 then
    { img with dataLo := min img.dataLo ph.vaddr, dataHi := max img.dataHi ph.top }
  else { img with codeLo := min img.codeLo ph.vaddr, codeHi := max img.codeHi ph.top }

def finish (imageEnd : Nat) (img : Image) : Image :=
  let img := { img with end_ := imageEnd }
  let img := if img.codeHi < img.codeLo then { img with codeLo := 0, codeHi := 0 } else img
  if img.dataHi < img.dataLo then { img with dataLo := 0, dataHi := 0 } else img

/-! ## The image of a file -/

/-- The program headers from number `i` on, `left` of them. -/
def imageFrom (d : Contents) (lo hi : Nat) (t : Table) : Nat → Nat → Nat → Nat → Image →
    Except Errno Image
  | 0, _, imageEnd, loaded, img => if loaded = 0 then .error .enoexec else .ok (finish imageEnd img)
  | left + 1, i, imageEnd, loaded, img => do
    let (r, img) := readPhdr d lo hi t i img
    match ← r with
    | .skip => imageFrom d lo hi t left (i + 1) imageEnd loaded img
    | .interp offset filesz =>
      let (r, img) := readInterp d offset filesz img
      let _ ← r
      imageFrom d lo hi t left (i + 1) imageEnd loaded img
    | .segment ph =>
      imageFrom d lo hi t left (i + 1) (max imageEnd ph.top) (loaded + 1) (noteSegment ph img)

/-- The image of a file whose segments have to lie between `lo` and `hi`. -/
def imageOf (d : Contents) (lo hi : Nat) : Except Errno Image := do
  let (r, img) := readEhdr d lo hi Image.zero
  let t ← r
  imageFrom d lo hi t t.phnum 0 0 0 img

/-- Numbers the image passes on to the program fit their words. -/
structure Image.Fits (entry : Nat) (img : Image) : Prop where
  entry : img.entry = entry
  phdr : img.phdr < 2 ^ 32
  phnum : img.phnum < 2 ^ 32

section ImageOf

variable {d : Contents} {lo hi entry : Nat} {t : Table} {img img' : Image}

lemma readPhdr_fits {i : Nat} {a : Action} (h : readPhdr d lo hi t i img = (.ok a, img'))
    (hf : img.Fits entry) : img'.Fits entry := by
  obtain ⟨he, hp, hn⟩ := hf
  obtain ⟨p, -, h⟩ := onRead_ok h
  simp only [phdrAction] at h
  split at h
  · split at h
    · cases h
    cases h
    exact ⟨he, hp, hn⟩
  split at h
  · cases h
    exact ⟨he, p.be32_lt 8, hn⟩
  split at h
  · cases h
    exact ⟨he, hp, hn⟩
  iterate 3
    split at h
    · cases h
  obtain ⟨-, rfl⟩ := Prod.mk.inj h
  split
  · exact ⟨he, Nat.mod_lt _ (by decide), hn⟩
  · exact ⟨he, hp, hn⟩

lemma readInterp_fits {offset filesz : Nat} {u : Unit}
    (h : readInterp d offset filesz img = (.ok u, img')) (hf : img.Fits entry) :
    img'.Fits entry := by
  simp only [readInterp] at h
  iterate 3
    split at h
    · cases h
  obtain ⟨-, rfl⟩ := Prod.mk.inj h
  exact ⟨hf.entry, hf.phdr, hf.phnum⟩

lemma noteSegment_fits (ph : Phdr) (hf : img.Fits entry) : (noteSegment ph img).Fits entry := by
  simp only [noteSegment]
  split <;> exact ⟨hf.entry, hf.phdr, hf.phnum⟩

lemma finish_fits (imageEnd : Nat) (hf : img.Fits entry) : (finish imageEnd img).Fits entry := by
  simp only [finish]
  split <;> split <;> exact ⟨hf.entry, hf.phdr, hf.phnum⟩

lemma imageFrom_fits {left i imageEnd loaded : Nat}
    (h : imageFrom d lo hi t left i imageEnd loaded img = .ok img') (hf : img.Fits entry) :
    img'.Fits entry := by
  induction left generalizing i imageEnd loaded img with
  | zero =>
    rw [imageFrom] at h
    split at h
    · cases h
    cases h
    exact finish_fits imageEnd hf
  | succ left ih =>
    rw [imageFrom] at h
    rcases hr : readPhdr d lo hi t i img with ⟨x, img1⟩
    rw [hr] at h
    rcases x with e | a
    · cases h
    have hf1 := readPhdr_fits hr hf
    cases a with
    | skip => exact ih h hf1
    | interp offset filesz =>
      rcases hr2 : readInterp d offset filesz img1 with ⟨y, img2⟩
      simp only [bind, Except.bind, hr2] at h
      rcases y with e | u
      · cases h
      · exact ih h (readInterp_fits hr2 hf1)
    | segment ph => exact ih h (noteSegment_fits ph hf1)

/-- The entry point of an image is its file's `e_entry`. -/
lemma imageOf_fits (h : imageOf d lo hi = .ok img) : img.Fits (d.bytes.be32 24) := by
  rw [imageOf] at h
  rcases hr : readEhdr d lo hi Image.zero with ⟨x, img1⟩
  rw [hr] at h
  rcases x with e | t
  · cases h
  refine imageFrom_fits h ?_
  obtain ⟨e, he, hr⟩ := onRead_ok hr
  have hbytes : e = d.bytes := by
    simp only [Contents.readAt] at he
    split at he
    · cases he
    split at he
    · cases he
      simp
    · cases he
  subst hbytes
  simp only [checkEhdr] at hr
  iterate 3
    split at hr
    · cases hr
  obtain ⟨-, rfl⟩ := Prod.mk.inj hr
  exact ⟨rfl, show 0 < 2 ^ 32 by decide, (Bytes.be16_lt _ _).trans (by decide)⟩

end ImageOf

/-! ## Loading it -/

inductive Slot
  | prog
  | interp

def Shared.img (s : Shared) : Slot → Image
  | .prog => s.prog
  | .interp => s.interp

def Shared.setImg (s : Shared) : Slot → Image → Shared
  | .prog, img => { s with prog := img }
  | .interp, img => { s with interp := img }

/-- A file that was read, and what it was at that moment. -/
structure Source where
  ino : Nat
  mode : Nat
  uid : Nat
  gid : Nat
  deriving DecidableEq

def Files.source (fs : Files) (ino : Nat) : Source :=
  ⟨ino, (fs.inodes ino).mode, (fs.inodes ino).uid, (fs.inodes ino).gid⟩

/-- What a load has done for its task: the address space filled so far, and where from. -/
structure Loaded where
  mem : Bytes
  sources : List Source

/-- A read of the open file, and what is done with it before the next one. -/
def readThen {α : Type} (slot : Slot) (ino : Nat) (f : Contents → Image → Except Errno α × Image)
    (l : Loaded) : Prog (α × Loaded) :=
  stretch fun s =>
    match s.trouble with
    | some e => (.error e, s)
    | none =>
      let (r, img) := f (s.files.inodes ino).data (s.img slot)
      (r.map fun a => (a, { l with sources := l.sources ++ [s.files.source ino] }),
        s.setImg slot img)

/-- `read_into`, a page at a time. -/
def readInto (ino off va len : Nat) (l : Loaded) : Prog Loaded :=
  (chunks va len).foldlM (fun l c => look fun s => s.ask
    (((s.files.inodes ino).data.readAt ((off + c.1) % 2 ^ 32) c.2).map fun b =>
      ⟨l.mem.blit (va + c.1) b 0 c.2, l.sources ++ [s.files.source ino]⟩)) l

/-- `load_image` from program header `i` on, `left` of them. -/
def loadFrom (slot : Slot) (ino lo hi : Nat) (t : Table) : Nat → Nat → Nat → Nat →
    Loaded → Prog Loaded
  | 0, _, imageEnd, loaded, l =>
    if loaded = 0 then fail .enoexec
    else do
      change fun s => s.setImg slot (finish imageEnd (s.img slot))
      pure l
  | left + 1, i, imageEnd, loaded, l => do
    let (a, l) ← readThen slot ino (readPhdr · lo hi t i) l
    match a with
    | .skip => loadFrom slot ino lo hi t left (i + 1) imageEnd loaded l
    | .interp offset filesz => do
      let (_, l) ← readThen slot ino (readInterp · offset filesz) l
      loadFrom slot ino lo hi t left (i + 1) imageEnd loaded l
    | .segment ph => do
      mayRefuse                              -- `reserve`
      let l ← readInto ino ph.offset ph.vaddr ph.filesz l
      change fun s => s.setImg slot (noteSegment ph (s.img slot))
      loadFrom slot ino lo hi t left (i + 1) (max imageEnd ph.top) (loaded + 1) l

/-- `load_image`, of the open file `ino` into an address space that already holds `mem`. -/
def loadImage (slot : Slot) (ino lo hi : Nat) (mem : Bytes) : Prog Loaded := do
  change fun s => s.setImg slot Image.zero
  let (t, l) ← readThen slot ino (readEhdr · lo hi) ⟨mem, []⟩
  loadFrom slot ino lo hi t t.phnum 0 0 0 l

/-! ## What loading gives while the images are left alone -/

/-- What a task in the middle of a load relies on. -/
def Shared.images (s : Shared) : Files × Image × Image := (s.files, s.prog, s.interp)

def Shared.besideImages (s : Shared) : Files × (Nat → Nat) × (Nat → Nat) :=
  (s.files, s.uargv, s.uenv)

section Images

variable {s t : Shared} {slot : Slot} {img img' : Image} {ino lo hi : Nat}

@[simp] lemma img_setImg : (s.setImg slot img).img slot = img := by cases slot <;> rfl

@[simp] lemma setImg_setImg : (s.setImg slot img).setImg slot img' = s.setImg slot img' := by
  cases slot <;> rfl

@[simp] lemma setImg_files : (s.setImg slot img).files = s.files := by cases slot <;> rfl

@[simp] lemma setImg_besideImages : (s.setImg slot img).besideImages = s.besideImages := by
  cases slot <;> rfl

lemma files_of_images (h : t.images = s.images) : t.files = s.files := congrArg Prod.fst h

lemma img_of_images (h : t.images = s.images) : t.img slot = s.img slot := by
  cases slot with
  | prog => exact congrArg (fun x => x.2.1) h
  | interp => exact congrArg (fun x => x.2.2) h

lemma images_setImg (h : t.images = s.images) :
    (t.setImg slot img).images = (s.setImg slot img).images := by
  simp only [Shared.images, Prod.mk.injEq] at h
  obtain ⟨hf, hp, hi⟩ := h
  cases slot with
  | prog => simp only [Shared.images, Shared.setImg, hf, hi]
  | interp => simp only [Shared.images, Shared.setImg, hf, hp]

section

variable (h : t.images = (s.setImg slot img).images)
include h

/-- What the task finds in its image, having left `img` there. -/
lemma images_found : t.files = s.files ∧ t.img slot = img := by
  refine ⟨?_, ?_⟩
  · rw [files_of_images h, setImg_files]
  · rw [img_of_images h, img_setImg]

lemma images_store :
    (t.setImg slot img').images = (s.setImg slot img').images := by
  rw [images_setImg h, setImg_setImg]

/-- Nobody else stored into the image, so what is there is what this task left. -/
lemma readThen_sat {α : Type} {f : Contents → Image → Except Errno α × Image} {l : Loaded} :
    (readThen slot ino f l).Sat Shared.images Shared.besideImages
      (fun r u => ∃ img', f (s.files.inodes ino).data img = (.ok r.1, img') ∧
        u.images = (s.setImg slot img').images) t := by
  refine sat_stretch (fun u hu => ?_) fun u hu r hr v hv => ?_
  · cases ht : u.trouble with
    | some e => rfl
    | none => exact setImg_besideImages
  obtain ⟨hf, hi⟩ := images_found (hu.trans h)
  cases ht : u.trouble with
  | some e => simp only [ht, reduceCtorEq] at hr
  | none =>
    simp only [ht, hf, hi] at hr hv
    cases hfd : f (s.files.inodes ino).data img with
    | mk x img' =>
      rw [hfd] at hr hv
      cases x with
      | error e => cases hr
      | ok a =>
        cases hr
        exact ⟨img', rfl, hv.trans (images_store (hu.trans h))⟩

end

lemma changeImg_sat (g : Image → Image) (h : t.images = (s.setImg slot img).images) :
    (change fun s => s.setImg slot (g (s.img slot)) : Prog Unit).Sat Shared.images
      Shared.besideImages (fun _ u => u.images = (s.setImg slot (g img)).images) t := by
  refine sat_change (fun u hu => setImg_besideImages) fun u hu v hv => ?_
  obtain ⟨-, hi⟩ := images_found (hu.trans h)
  rw [hv, hi]
  exact images_store (hu.trans h)

lemma readInto_sat {γ : Type} {rest : Shared → γ} (off va len : Nat) (l : Loaded) :
    (readInto ino off va len l).Sat Shared.images rest (fun _ u => u.images = t.images) t := by
  suffices h : ∀ u, u.images = t.images →
      (readInto ino off va len l).Sat Shared.images rest (fun _ u => u.images = t.images) u from
    h t rfl
  rw [readInto]
  induction chunks va len generalizing l with
  | nil => exact fun u hu => sat_ret fun v hv => hv.trans hu
  | cons c cs ih =>
    intro u hu
    rw [List.foldlM_cons]
    exact Sat.bind (sat_ask fun v hv _ _ w hw => ih _ w (hw.trans (hv.trans hu)))

lemma loadFrom_sat (tb : Table) (left i imageEnd loaded : Nat) (l : Loaded)
    (h : t.images = (s.setImg slot img).images) :
    (loadFrom slot ino lo hi tb left i imageEnd loaded l).Sat Shared.images Shared.besideImages
      (fun _ u => ∃ img', imageFrom (s.files.inodes ino).data lo hi tb left i imageEnd loaded img =
        .ok img' ∧ u.images = (s.setImg slot img').images) t := by
  induction left generalizing i imageEnd loaded l t img with
  | zero =>
    rw [loadFrom, imageFrom]
    split
    · exact sat_fail _
    exact Sat.bind ((changeImg_sat (finish imageEnd) h).mono fun _ u hu =>
      sat_ret fun v hv => ⟨_, rfl, hv.trans hu⟩)
  | succ left ih =>
    rw [loadFrom]
    refine Sat.bind ((readThen_sat h).mono fun r u ⟨img', hr, hu⟩ => ?_)
    obtain ⟨a, l'⟩ := r
    cases a with
    | skip =>
      refine (ih (i + 1) imageEnd loaded l' hu).mono fun _ v ⟨m, hm, hv⟩ => ⟨m, ?_, hv⟩
      rw [imageFrom, hr]
      exact hm
    | interp offset filesz =>
      refine Sat.bind ((readThen_sat hu).mono fun r v ⟨img2, hr2, hv⟩ => ?_)
      refine (ih (i + 1) imageEnd loaded r.2 hv).mono fun _ w ⟨m, hm, hw⟩ => ⟨m, ?_, hw⟩
      rw [imageFrom, hr]
      simp only [bind, Except.bind, hr2]
      exact hm
    | segment ph =>
      refine Sat.bind (mayRefuse_sat.mono fun _ v hv => ?_)
      refine Sat.bind ((readInto_sat _ _ _ l').mono fun l2 w hw => ?_)
      refine Sat.bind ((changeImg_sat (noteSegment ph) (hw.trans (hv.trans hu))).mono
        fun _ x hx => ?_)
      refine (ih (i + 1) (max imageEnd ph.top) (loaded + 1) l2 hx).mono
        fun _ y ⟨m, hm, hy⟩ => ⟨m, ?_, hy⟩
      rw [imageFrom, hr]
      exact hm

/-- An image that loads while its owner alone uses the two static images is the file's own. -/
lemma loadImage_sat (slot) (ino lo hi : Nat) (mem : Bytes) (s) :
    (loadImage slot ino lo hi mem).Sat Shared.images Shared.besideImages
      (fun _ t => ∃ img, imageOf (s.files.inodes ino).data lo hi = .ok img ∧
        t.images = (s.setImg slot img).images) s := by
  have hzero : (change fun s => s.setImg slot Image.zero : Prog Unit).Sat Shared.images
      Shared.besideImages (fun _ t => t.images = (s.setImg slot Image.zero).images) s :=
    sat_change (fun u hu => setImg_besideImages) fun u hu v hv => hv.trans (images_setImg hu)
  refine Sat.bind (hzero.mono fun _ t ht => ?_)
  refine Sat.bind ((readThen_sat ht).mono fun r u ⟨img, hr, hu⟩ => ?_)
  refine (loadFrom_sat r.1 r.1.phnum 0 0 0 r.2 hu).mono fun _ v ⟨m, hm, hv⟩ => ⟨m, ?_, hv⟩
  rw [imageOf, hr]
  exact hm

end Images

end Sage040.Exec
