import Sage040.Fs.Ext2.Dir

/-!
# Listing a directory while it changes

`vfs_getdents64` fills a buffer with records, one for each turn of its loop, and a descriptor's
position is the index of the entry that comes next. Each turn takes the file system's lock for
itself, so names may come and go between any two turns, and so may calls on anything else. The
records are gathered in `dents_buf`, which is one for all tasks: that no other `getdents64` runs
meanwhile is taken for granted.

The index counts names, so it moves against them when one before it is removed or put in: with `"a"`
returned and unlinked, the name after it is skipped (`getdents_skips`). When every change is made
ahead of the position, what has been returned stays the start of the directory, and a listing that
comes to its end has returned every name once (`listsAll_of_ahead`).
-/

namespace Sage040.Fs

open Function List DirOp

/-- The string in a buffer that holds the name. -/
def Name.cstr (name : Name) : Name := name.takeWhile (· != 0)

/-- `struct linux_dirent64`. -/
structure Record where
  ino : Nat
  off : Nat
  reclen : Nat
  type : Nat
  name : Name
  deriving DecidableEq, Repr

/-- `DT_DIR`, `DT_LNK` or `DT_REG`. -/
def dType : Kind → Nat
  | .dir => 4
  | .lnk => 10
  | _ => 8

/-- How a turn of `vfs_getdents64`'s loop ends. -/
inductive Turn
  | record (r : Record)
  | full
  | ended
  | failed (e : Errno)

namespace Vol

variable (g : Geometry)

/-- `ext2_readdir_in`. -/
def readdirIn (v : Vol) (dino index : Nat) : Vol × Except Errno (Dirent × Einode) :=
  match v.dirNth g dino index with
  | (v, .error err) => (v, .error err)
  | (v, .ok e) =>
    match v.iread g e.ino with
    | .error err => (v, .error err)
    | .ok ei => (v.touch, .ok (e, ei))

/-- One turn of the loop, with `used` of `len` bytes used. -/
def getdentsTurn (v : Vol) (dino pos used len : Nat) : Vol × Turn :=
  match v.readdirIn g dino pos with
  | (v, .error .enoent) => (v, .ended)
  | (v, .error err) => (v, .failed err)
  | (v, .ok (e, ei)) =>
    let name := e.name.cstr
    let reclen := (19 + name.length + 1 + 7) / 8 * 8
    if len < used + reclen then (v, .full)
    else (v, .record ⟨if e.ino = 0 then 1 else e.ino, pos + 1, reclen, dType ei.kind, name⟩)

end Vol

/-- A descriptor of a directory, from when it is opened. -/
structure Listing where
  v : Vol
  pos : Nat
  /-- The call that is running: the length of its buffer, and what of it is used. -/
  call : Option (Nat × Nat)
  /-- Every record returned so far. -/
  returned : List Record
  /-- A call has returned `0`. -/
  ended : Bool

/-- What happens between two turns, and the turns. -/
inductive ListEvent
  | call (len : Nat)
  | turn
  | change (op : DirOp)
  /-- Calls that have nothing to do with the directory, and are no `getdents64` of another task. -/
  | beside (v : Vol)

namespace ListEvent

open Vol

variable (g : Geometry) (dino : Nat)

def turnOf (s : Listing) (len used : Nat) : Listing :=
  match s.v.getdentsTurn g dino s.pos used len with
  | (v, .record r) =>
    { s with
      v := v
      pos := s.pos + 1
      call := some (len, used + r.reclen)
      returned := s.returned ++ [r] }
  | (v, .full) => { s with v := v, call := none }
  | (v, .failed _) => { s with v := v, call := none }
  | (v, .ended) => { s with v := v, call := none, ended := used == 0 }

/-- After the `0` that ends it a listing is over. -/
def apply (s : Listing) (ev : ListEvent) : Listing :=
  if s.ended then s
  else match ev, s.call with
    | call len, none => { s with call := some (len, 0) }
    | call _, some _ => s
    | turn, none => s
    | turn, some (len, used) => turnOf g dino s len used
    | change op, _ => { s with v := (op.exec g dino s.v).1 }
    | beside v, _ => { s with v := v }

def run (evs : List ListEvent) (s : Listing) : Listing := evs.foldl (apply g dino) s

def NulFree (l : List Dirent) : Prop := ∀ e ∈ l, (0 : UInt8) ∉ e.name

structure Start (s : Listing) : Prop where
  dir : Directory g s.v dino
  nul : NulFree (dirEntries g s.v dino)
  pos : s.pos = 0
  call : s.call = none
  returned : s.returned = []
  ended : s.ended = false

/-- What may happen: names that are added are proper ones, and other calls leave the directory
alone. -/
def Legal (s : Listing) : ListEvent → Prop
  | change (.add e) => (DirOp.add e).Proper g dino s.v ∧ (0 : UInt8) ∉ e.name
  | beside v => Directory g v dino ∧ dirEntries g v dino = dirEntries g s.v dino
  | _ => True

/-- A name that is removed has not been returned, and one that is added comes after those that have.
-/
def Ahead (s : Listing) : ListEvent → Prop
  | change (.add e) => s.pos ≤ addIndex g s.v dino (deLen e.name.length)
  | change (.del name) => s.pos ≤ (dirEntries g s.v dino).findIdx fun e => e.name == name
  | _ => True

/-- Every event of a run meets a condition when its turn comes. -/
def All (P : Listing → ListEvent → Prop) : List ListEvent → Listing → Prop
  | [], _ => True
  | ev :: evs, s => P s ev ∧ All P evs (apply g dino s ev)

/-- The entry is there from the first state of a run to the last. -/
def Stays (e : Dirent) : List ListEvent → Listing → Prop
  | [], s => e ∈ dirEntries g s.v dino
  | ev :: evs, s => e ∈ dirEntries g s.v dino ∧ Stays e evs (apply g dino s ev)

/-- **Nothing is missed**: an entry that was there all the time was returned once. -/
def ListsAll (evs : List ListEvent) (s : Listing) : Prop :=
  (run g dino evs s).ended = true → ∀ e, Stays g dino e evs s →
    ∃ r, (run g dino evs s).returned.filter (fun r => r.name == e.name) = [r] ∧ r.ino = e.ino

/-! ## What has been returned -/

/-- What has been returned is the start of the directory. -/
structure Inv (s : Listing) : Prop where
  dir : Directory g s.v dino
  nul : NulFree (dirEntries g s.v dino)
  pos : s.pos ≤ (dirEntries g s.v dino).length
  returned : s.returned.map (fun r => (r.name, r.ino)) =
    ((dirEntries g s.v dino).take s.pos).map fun e => (e.name, e.ino)
  ended : s.ended = true → s.pos = (dirEntries g s.v dino).length

variable {g dino} {s : Listing}

lemma Start.inv (h : Start g dino s) : Inv g dino s where
  dir := h.dir
  nul := h.nul
  pos := by rw [h.pos]; exact Nat.zero_le _
  returned := by rw [h.returned, h.pos]; rfl
  ended hover := by rw [h.ended] at hover; cases hover

lemma cstr_of_nulFree {name : Name} (h : (0 : UInt8) ∉ name) : name.cstr = name := by
  rw [Name.cstr, takeWhile_eq_self_iff]
  intro b hb
  rw [bne_iff_ne]
  rintro rfl
  exact h hb

variable {v : Vol} {evs : List ListEvent} {e : Dirent}

/-- **A turn of the loop**: the entry at the position is returned, or nothing is. -/
lemma getdentsTurn_spec (h : Directory g v dino) (pos used len : Nat) :
    ∃ v' t, v.getdentsTurn g dino pos used len = (v', t) ∧ v'.toImage = v.toImage ∧
      ((∃ r e, t = .record r ∧ (dirEntries g v dino)[pos]? = some e ∧ r.name = e.name.cstr ∧
      r.ino = e.ino) ∨
        (t = .ended ∧ (dirEntries g v dino)[pos]? = none) ∨ t = .full ∨ ∃ err, t = .failed err) :=
        by
  obtain ⟨v1, hv1, himg⟩ := dirNth_spec h pos
  cases he : (dirEntries g v dino)[pos]? with
  | none =>
    rw [he] at hv1
    refine ⟨v1, .ended, ?_, himg, .inr (.inl ⟨rfl, rfl⟩)⟩
    simp only [getdentsTurn, readdirIn, hv1]
  | some e =>
    rw [he] at hv1
    have hino := ino_ne_zero g (mem_of_getElem? he)
    by_cases hin : g.inodesCount < e.ino
    · refine ⟨v1, .failed .einval, ?_, himg, .inr (.inr (.inr ⟨_, rfl⟩))⟩
      simp only [getdentsTurn, readdirIn, hv1, iread, if_pos (Or.inr hin)]
    have himg' := (touch_toImage v1).trans himg
    simp only [getdentsTurn, readdirIn, hv1, iread, if_neg (not_or.2 ⟨hino, hin⟩), if_neg hino]
    split
    · exact ⟨_, _, rfl, himg', .inr (.inr (.inl rfl))⟩
    · exact ⟨_, _, rfl, himg', .inl ⟨_, e, rfl, rfl, rfl, rfl⟩⟩

lemma Inv.of_entries (h : Inv g dino s) (hdir : Directory g v dino)
    (he : dirEntries g v dino = dirEntries g s.v dino) (call : Option (Nat × Nat)) :
    Inv g dino { s with v := v, call := call } where
  dir := hdir
  nul := by rw [he]; exact h.nul
  pos := by rw [he]; exact h.pos
  returned := by rw [he]; exact h.returned
  ended := by rw [he]; exact h.ended

lemma Inv.turn (h : Inv g dino s) (hover : s.ended = false) (len used : Nat) :
    Inv g dino (turnOf g dino s len used) := by
  obtain ⟨v', t, hv', himg, hcases⟩ := getdentsTurn_spec h.dir s.pos used len
  obtain ⟨hdir, hE⟩ := h.dir.of_image himg
  rw [turnOf, hv']
  rcases hcases with ⟨r, e, rfl, he, hname, hino⟩ | ⟨rfl, hnone⟩ | rfl | ⟨err, rfl⟩
  · have hlt := (List.getElem?_eq_some_iff.1 he).1
    have hnul := h.nul e (List.mem_of_getElem? he)
    refine ⟨hdir, by rw [hE]; exact h.nul, ?_, ?_, fun ho => ?_⟩
    · rw [hE]
      exact hlt
    · simp only [List.map_append, h.returned, hE, List.take_add_one, he]
      simp [hname, hino, cstr_of_nulFree hnul]
    · rw [hover] at ho
      cases ho
  · have hinv := h.of_entries hdir hE none
    refine ⟨hdir, hinv.nul, hinv.pos, hinv.returned, fun _ => ?_⟩
    rw [hE]
    exact Nat.le_antisymm h.pos (List.getElem?_eq_none_iff.1 hnone)
  iterate 2 · exact h.of_entries hdir hE none

lemma Inv.splice {E1 E3 : List Dirent} (E2 E4 : List Dirent) (h : Inv g dino s)
    (hover : s.ended = false)
    (hdir : Directory g v dino) (hnul : NulFree (dirEntries g v dino))
    (hE : dirEntries g s.v dino = E1 ++ (E2 ++ E3)) (hE' : dirEntries g v dino = E1 ++ (E4 ++ E3))
    (hpos : s.pos ≤ E1.length) : Inv g dino { s with v := v } := by
  refine ⟨hdir, hnul, ?_, ?_, fun ho => ?_⟩
  · rw [hE', length_append]
    exact hpos.trans (Nat.le_add_right _ _)
  · rw [h.returned, hE, hE', take_append_of_le_length hpos, take_append_of_le_length hpos]
  · rw [hover] at ho
    cases ho

lemma Inv.changed {op : DirOp} (h : Inv g dino s) (hover : s.ended = false)
    (hlegal : Legal g dino s (.change op)) (hahead : Ahead g dino s (.change op)) :
    Inv g dino { s with v := (op.exec g dino s.v).1 } := by
  cases op with
  | add e =>
    obtain ⟨⟨hname, hino, hnew, hsize⟩, hnul⟩ := hlegal
    rcases dirAdd_spec h.dir hname hino hnew hsize with
      ⟨v', E1, E2, hv', hE, hE', hdir, hindex⟩ | ⟨v', hv', -, hdir, hE⟩
    · simp only [exec, hv']
      refine h.splice [] [e] hover hdir ?_ hE hE' (by rw [hindex]; exact hahead)
      rw [hE']
      intro e' he'
      rcases mem_append.1 he' with h1 | h2
      · exact h.nul e' (by rw [hE]; exact mem_append_left _ h1)
      rcases mem_cons.1 h2 with rfl | h2
      · exact hnul
      · exact h.nul e' (by rw [hE]; exact mem_append_right _ h2)
    · simp only [exec, hv']
      exact h.of_entries hdir hE s.call
  | del name =>
    rcases dirDel_spec h.dir name with
      ⟨v', E1, e, E2, hv', hname, hE, hE', hdir, -⟩ | ⟨v', hv', himg, -⟩
    · simp only [exec, hv']
      refine h.splice [e] [] hover hdir (fun e' he' => h.nul e' ?_) hE hE' (hahead.trans ?_)
      · rw [hE]
        rw [hE'] at he'
        exact List.Sublist.mem he' (by simp)
      -- the name is found no later than here
      rw [hE]
      by_contra hlt
      have := not_of_lt_findIdx (Nat.not_le.1 hlt)
      simp [hname] at this
    · simp only [exec, hv']
      obtain ⟨hdir, hE⟩ := h.dir.of_image himg
      exact h.of_entries hdir hE s.call
  | lookup name =>
    obtain ⟨v', hv', himg⟩ := dirLookup_spec h.dir name
    simp only [exec, hv']
    obtain ⟨hdir, hE⟩ := h.dir.of_image himg
    exact h.of_entries hdir hE s.call

lemma Inv.apply {ev : ListEvent} (h : Inv g dino s) (hlegal : ev.Legal g dino s)
    (hahead : ev.Ahead g dino s) : Inv g dino (apply g dino s ev) := by
  rw [ListEvent.apply.eq_def]
  split
  · exact h
  rename_i hover
  have hover : s.ended = false := by simpa using hover
  cases ev with
  | call len =>
    cases s.call with
    | none => exact h.of_entries h.dir rfl _
    | some _ => exact h
  | turn =>
    cases s.call with
    | none => exact h
    | some c => exact h.turn hover c.1 c.2
  | change op => exact h.changed hover hlegal hahead
  | beside v => exact h.of_entries hlegal.1 hlegal.2 s.call

lemma inv_run (h : Inv g dino s) (hlegal : All g dino (Legal g dino) evs s)
    (hahead : All g dino (Ahead g dino) evs s) : Inv g dino (run g dino evs s) := by
  induction evs generalizing s with
  | nil => exact h
  | cons ev evs ih => exact ih (h.apply hlegal.1 hahead.1) hlegal.2 hahead.2

lemma Stays.last (h : Stays g dino e evs s) : e ∈ dirEntries g (run g dino evs s).v dino := by
  induction evs generalizing s with
  | nil => exact h
  | cons ev evs ih => exact ih h.2

lemma filter_returned {l : List Record} {E : List Dirent} (hnodup : (E.map Dirent.name).Nodup)
    (hl : l.map (fun r => (r.name, r.ino)) = E.map fun e => (e.name, e.ino)) (he : e ∈ E) :
    ∃ r, l.filter (fun r => r.name == e.name) = [r] ∧ r.ino = e.ino := by
  induction E generalizing l with
  | nil => cases he
  | cons a E ih =>
    obtain ⟨r, l, rfl, hr, hl⟩ := map_eq_cons_iff.1 hl
    obtain ⟨hname, hino⟩ := Prod.mk.inj hr
    obtain ⟨hnew, hnodup⟩ := nodup_cons.1 hnodup
    have hnames : l.map Record.name = E.map Dirent.name := by
      have := congrArg (map Prod.fst) hl
      rwa [map_map, map_map] at this
    rcases mem_cons.1 he with rfl | he
    · refine ⟨r, ?_, hino⟩
      rw [filter_cons_of_pos (by simpa using hname), filter_eq_nil_iff.2]
      intro r' hr' heq
      rw [← hnames] at hnew
      exact hnew ((beq_iff_eq.1 heq) ▸ mem_map_of_mem hr')
    · rw [filter_cons_of_neg]
      · exact ih hnodup hl he
      rw [beq_iff_eq, hname]
      exact fun heq => hnew (heq ▸ mem_map_of_mem he)

/-- **A listing misses nothing when every change is ahead of it.** -/
theorem listsAll_of_ahead {evs : List ListEvent} (h : Start g dino s)
    (hlegal : All g dino (Legal g dino) evs s) (hahead : All g dino (Ahead g dino) evs s) :
    ListsAll g dino evs s := by
  intro hover e hstays
  have hinv := inv_run h.inv hlegal hahead
  have hreturned := hinv.returned
  rw [hinv.ended hover, take_length] at hreturned
  exact filter_returned hinv.dir.distinct hreturned hstays.last

/-! ### A name that is skipped -/

/-- The directory with `"."`, `"a"` and `"b"`. -/
def abListing : Listing where
  v := ((DirOp.dirVol false).dirAdd oneGroup 12 ⟨[98], 14, 1⟩).1
  pos := 0
  call := none
  returned := []
  ended := false

lemma add_b_proper : DirOp.Proper oneGroup 12 (DirOp.dirVol false) (.add ⟨[98], 14, 1⟩) := by
  simp only [DirOp.Proper]
  decide +kernel

lemma abListing_start : Start oneGroup 12 abListing where
  dir := (exec_refines dirVol_directory add_b_proper).1
  nul := by
    simp only [NulFree]
    decide +kernel
  pos := rfl
  call := rfl
  returned := rfl
  ended := rfl

/-- A buffer that takes two records, and `"a"` unlinked once it has been returned. -/
def unlinking : List ListEvent := [call 48, turn, turn, turn, change (.del [97]), call 48, turn]

/-- **`rm -r` loses a name**: only a name that was returned is unlinked, and `"b"`, which was there
all the time, is never returned. -/
theorem getdents_skips : Start oneGroup 12 abListing ∧
    All oneGroup 12 (Legal oneGroup 12) unlinking abListing ∧
      ¬ ListsAll oneGroup 12 unlinking abListing := by
  refine ⟨abListing_start, ?_, fun h => ?_⟩
  · simp only [All, unlinking, Legal, and_true]
  have hstays : Stays oneGroup 12 ⟨[98], 14, 1⟩ unlinking abListing := by
    simp only [Stays, unlinking]
    decide +kernel
  obtain ⟨r, hr, -⟩ := h (by decide +kernel) ⟨[98], 14, 1⟩ hstays
  have hnone : (run oneGroup 12 unlinking abListing).returned.filter (fun r => r.name == [98]) =
      [] := by
    decide +kernel
  cases hr

/-- The same with `"b"` unlinked before the listing comes to it. -/
theorem listsAll_of_unlink_ahead :
    ListsAll oneGroup 12 [call 48, turn, turn, change (.del [98]), turn, call 48, turn] abListing :=
    by
  refine listsAll_of_ahead abListing_start ?_ ?_
  · simp only [All, Legal, and_true]
  simp only [All, Ahead, true_and, and_true]
  decide +kernel

end ListEvent

end Sage040.Fs
