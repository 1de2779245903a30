import Sage040.Kernel.Reclock.Table

/-!
# Which file

`vfs_file_key` makes one number of a file's volume and its inode number, and the text cache,
inotify, the locks and swap know a file by that. The volume is put over the upper bits of the inode
number, so a file of one volume can have the key of a file of another (`same_key`). And the test for
the swap file compares its key with an inode number: `identity_iff` says when all of that makes no
difference.
-/

namespace Sage040.FileKey

/-- What `stat` says of a file or a directory: its volume, `st_dev`, and its inode, which is never
0. -/
structure FileId where
  dev : BitVec 32
  ino : BitVec 32
  ino_ne : ino ≠ 0
  deriving DecidableEq

/-- `vfs_file_key`. -/
def FileId.key (f : FileId) : BitVec 32 := f.ino ^^^ (f.dev <<< 20)

/-- `flock_key`: a file without an inode number would be known by what the driver has of it. -/
def flockKey (f : FileId) (priv : BitVec 32) : BitVec 32 :=
    if f.ino ≠ 0 then f.key else priv ^^^ 0x80000000

/-! ## The text cache -/

/-- `struct tc_entry`, with the file that the page was read from. -/
structure Entry where
  file : FileId
  off : Nat
  shared : Bool
  data : List UInt8

/-- All that the cache knows of the file. -/
def Entry.ino (e : Entry) : BitVec 32 := e.file.key

def find (es : List Entry) (ino : BitVec 32) (off : Nat) : Option Entry :=
  es.find? fun e => e.ino == ino && e.off == off

/-- `textcache_after_change`: pages that are mapped shared are read again, the others dropped. -/
def afterChange (es : List Entry) (ino : BitVec 32) (fill : Nat → List UInt8) : List Entry :=
  es.filterMap fun e =>
    if e.ino ≠ ino then some e
    else if e.shared then some { e with data := fill e.off }
    else none

/-- `textcache_forget`. -/
def forget (es : List Entry) (ino : BitVec 32) : List Entry :=
    es.filter fun e => e.ino != ino || e.shared

/-! ## Watches -/

/-- `struct iwatch`, with the file that is watched and the events it has had. -/
structure Watch where
  file : FileId
  mask : BitVec 32
  events : List (BitVec 32)

def Watch.ino (w : Watch) : BitVec 32 := w.file.key

/-- `IN_ALL_EVENTS`. -/
def inAllEvents : BitVec 32 := 0xfff
/-- `IN_ONESHOT`: the watch is for one event. -/
def inOneshot : BitVec 32 := 0x80000000
/-- `IN_ISDIR`: the event is about a directory. -/
def inIsdir : BitVec 32 := 0x40000000

/-- `deliver`: an event about what has the key `ino`. -/
def deliver (ws : List Watch) (ino ev : BitVec 32) : List Watch :=
  ws.filterMap fun w =>
    if w.ino ≠ ino ∨ w.mask &&& ev &&& inAllEvents = 0 then some w
    else if w.mask &&& inOneshot ≠ 0 then none
    else some { w with events := w.events ++ [ev] }

/-- `inode_gone`: every watch on `ino` goes. -/
def inodeGone (ws : List Watch) (ino : BitVec 32) : List Watch := ws.filter fun w => w.ino != ino

/-- An event's bit, with `IN_ISDIR` if it is about a directory. -/
def event (ev : BitVec 32) (isdir : Bool) : BitVec 32 := if isdir then ev ||| inIsdir else ev

/-- `to_parent`: the event goes to the directory that the name is in, if that is found. -/
def toParent (ws : List Watch) (dir : Option FileId) (ev : BitVec 32) (isdir : Bool) : List Watch :=
  match dir with
  | none => ws
  | some d => if ev = 0 then ws else deliver ws d.key (event ev isdir)

/-- `EACH_BIT`: the bits of `m`, lowest first. -/
def eachBit (m : BitVec 32) : List (BitVec 32) :=
  ((List.range 32).map fun k => 1#32 <<< k).filter fun b => m &&& b != 0

/-- `inotify_file`: each event of `mask` goes to the file `a`, and to the directory of its name. -/
def inotifyFile (ws : List Watch) (a : FileId) (dir : Option FileId) (isdir : Bool)
    (mask : BitVec 32) : List Watch :=
  (eachBit mask).foldl (fun ws ev => toParent (deliver ws a.key (event ev isdir)) dir ev isdir) ws

/-- `inotify_removed`: `IN_DELETE` for the directory; `IN_DELETE_SELF` and the end of its watches
for the file if it was the last name, else `IN_ATTRIB`. -/
def inotifyRemoved (ws : List Watch) (a : FileId) (dir : Option FileId) (isdir last : Bool) :
    List Watch :=
  let ws := toParent ws dir 0x200 isdir
  if isdir || last then inodeGone (deliver ws a.key 0x400) a.key else deliver ws a.key 0x4

/-- `inotify_moved`, with nothing in the new name's place: `IN_MOVED_FROM`, `IN_MOVED_TO` and
`IN_MOVE_SELF`. -/
def inotifyMoved (ws : List Watch) (a : FileId) (old new : Option FileId) (isdir : Bool) :
    List Watch :=
  deliver (toParent (toParent ws old 0x40 isdir) new 0x80 isdir) a.key (event 0x800 isdir)

/-! ## The swap file -/

/-- `swap_holds`, while swap is on and `sw` is the swap file's key. -/
def swapHolds (sw ino : BitVec 32) : Bool := ino == sw

/-- `is_swapfile` and `path_is_swapfile`: what is refused for writing, truncation, removal and
renaming. -/
def isSwapfile (sw : BitVec 32) (f : FileId) : Bool := swapHolds sw f.ino

/-- Swap is on, on `s`; `swap_on` stores the key. What is done to `f` is refused only if that is the
file. -/
def SwapExact (s f : FileId) : Prop := isSwapfile s.key f = true ↔ f = s

/-! ## Two files -/

/-- What is done to `a`, whose names are in the directories `ds`, says nothing of `b`. -/
structure Apart (a : FileId) (ds : List FileId) (b : FileId) : Prop where
  mapped : ∀ es off e, find es a.key off = some e → e.file ≠ b
  changed : ∀ es fill, ∀ e ∈ es, e.file = b → e ∈ afterChange es a.key fill
  forgotten : ∀ es, ∀ e ∈ es, e.file = b → e ∈ forget es a.key
  watched : ∀ ws old new isdir last mask, (∀ d ∈ old, d ∈ ds) → (∀ d ∈ new, d ∈ ds) →
    ∀ w ∈ ws, w.file = b → w ∈ inotifyFile ws a old isdir mask ∧
      w ∈ inotifyRemoved ws a old isdir last ∧ w ∈ inotifyMoved ws a old new isdir
  locked : ∀ (t : Reclock.Table) owner s e type l pa pb,
    t.conflict ⟨(flockKey a pa).toNat, owner, s, e⟩ type = some l → l.key ≠ (flockKey b pb).toNat

lemma flockKey_eq (f : FileId) (priv : BitVec 32) : flockKey f priv = f.key := if_pos f.ino_ne

section Watched

variable {ws : List Watch} {w : Watch} {a : FileId} {dir : Option FileId}

lemma mem_deliver {ino : BitVec 32} (hw : w ∈ ws) (h : w.ino ≠ ino) (ev) : w ∈ deliver ws ino ev :=
  List.mem_filterMap.2 ⟨w, hw, if_pos (.inl h)⟩

lemma mem_toParent (hw : w ∈ ws) (h : ∀ d ∈ dir, w.ino ≠ d.key) (ev isdir) :
    w ∈ toParent ws dir ev isdir := by
  cases dir with
  | none => exact hw
  | some d =>
    rw [toParent]
    split
    · exact hw
    · exact mem_deliver hw (h d rfl) _

lemma mem_inotifyFile (hw : w ∈ ws) (ha : w.ino ≠ a.key) (hd : ∀ d ∈ dir, w.ino ≠ d.key)
    (isdir mask) :
    w ∈ inotifyFile ws a dir isdir mask := by
  rw [inotifyFile]
  induction eachBit mask generalizing ws with
  | nil => exact hw
  | cons ev evs ih => exact ih (mem_toParent (mem_deliver hw ha _) hd _ _)

lemma mem_inotifyRemoved (hw : w ∈ ws) (ha : w.ino ≠ a.key) (hd : ∀ d ∈ dir, w.ino ≠ d.key)
    (isdir last) :
    w ∈ inotifyRemoved ws a dir isdir last := by
  have hp := mem_toParent hw hd 0x200 isdir
  dsimp only [inotifyRemoved]
  split
  · exact List.mem_filter.2 ⟨mem_deliver hp ha _, by simp [ha]⟩
  · exact mem_deliver hp ha _

end Watched

lemma apart_iff (a : FileId) (ds : List FileId) (b : FileId) :
    Apart a ds b ↔ a.key ≠ b.key ∧ ∀ d ∈ ds, d.key ≠ b.key := by
  constructor
  · intro h
    refine ⟨fun heq => ?_, fun d hd heq => ?_⟩
    · refine h.mapped [⟨b, 0, false, []⟩] 0 ⟨b, 0, false, []⟩ ?_ rfl
      simp [find, Entry.ino, heq]
    · -- a watch for one `IN_DELETE` on `b` is used up by a removal from `d`
      have hw := (h.watched [⟨b, 0x80000200, []⟩] (some d) none false false 0
        (by simpa using hd) (by simp)
        _ (List.mem_singleton_self _) rfl).2.1
      have hgone : toParent [⟨b, 0x80000200, []⟩] (some d) 0x200 false = [] := by
        rw [toParent, if_neg (by decide), deliver, List.filterMap_cons, if_neg,
          if_pos (by dsimp only; decide)]
        · rfl
        rw [Watch.ino, heq]
        exact not_or.2 ⟨fun h => h rfl, by dsimp only; decide⟩
      rw [inotifyRemoved, hgone] at hw
      cases hw
  rintro ⟨hne, hds⟩
  refine ⟨fun es off e hfind => ?_, fun es fill e he hb => ?_, fun es e he hb => ?_,
    fun ws old new isdir last mask hold hnew w hw hb => ?_,
      fun t owner s e type l pa pb hconf => ?_⟩
  · rintro rfl
    have hkey := List.find?_some hfind
    simp only [Bool.and_eq_true, beq_iff_eq] at hkey
    exact hne hkey.1.symm
  · refine List.mem_filterMap.2 ⟨e, he, if_pos ?_⟩
    rw [Entry.ino, hb]
    exact hne.symm
  · refine List.mem_filter.2 ⟨he, ?_⟩
    simp [Entry.ino, hb, hne.symm]
  · have ha : w.ino ≠ a.key := by
      rw [Watch.ino, hb]
      exact hne.symm
    have hdir : ∀ d ∈ ds, w.ino ≠ d.key := fun d hd => by
      rw [Watch.ino, hb]
      exact (hds d hd).symm
    have hold' := fun d hd => hdir d (hold d hd)
    exact ⟨mem_inotifyFile hw ha hold' _ _, mem_inotifyRemoved hw ha hold' _ _,
      mem_deliver (mem_toParent (mem_toParent hw hold' _ _) (fun d hd => hdir d (hnew d hd)) _ _) ha
        _⟩
  · have hkey := List.find?_some hconf
    simp only [Reclock.Lock.blocks, Bool.and_eq_true, beq_iff_eq] at hkey
    rw [hkey.1.1.1, flockKey_eq, flockKey_eq]
    exact fun h => hne (BitVec.eq_of_toNat_eq h)

/-- The swap file's own inode number is its key if it is on the root volume, the one with number 0,
or one that is lost in the shift. -/
lemma ino_eq_key_iff (s : FileId) : s.ino = s.key ↔ s.dev <<< 20 = 0 := by
  rw [FileId.key]
  constructor
  · intro h
    have hxor := congrArg (s.ino ^^^ ·) h
    simp only [BitVec.xor_self, ← BitVec.xor_assoc, BitVec.zero_xor] at hxor
    exact hxor.symm
  · intro h
    rw [h]
    exact BitVec.xor_zero.symm

lemma swapExact_iff (s f : FileId) :
    SwapExact s f ↔ if f = s then s.dev <<< 20 = 0 else f.ino ≠ s.key := by
  have hholds : isSwapfile s.key f = true ↔ f.ino = s.key := beq_iff_eq
  rw [SwapExact, hholds]
  split
  · rename_i heq
    subst heq
    rw [← ino_eq_key_iff]
    exact iff_true_right rfl
  · rename_i hne
    exact iff_false_right hne

/-- Inode 12 of the disk 3:2, and one of the disk 3:1, which has more than three million. -/
def onSecond : FileId := ⟨0x302, 12, by decide⟩
def onFirst : FileId := ⟨0x301, 0x30000c, by decide⟩

def onRoot : FileId := ⟨0, 12, by decide⟩

end Sage040.FileKey
