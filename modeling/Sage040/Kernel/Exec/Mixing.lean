import Sage040.Kernel.Exec.Build

/-!
# Concurrent execs

Two tasks may be inside exec at once. What each of them starts should be its own program: entered
where its own file (or that file's interpreter) says, with the heap behind its own image, its own
auxiliary vector and the strings its own caller passed. `Own` says that of a started program.

The static buffers of `build` and `setup_stack` are in the way. Their comments say that nothing
sleeps while they are in use, but every read of the file and every copy to the new stack may, and
`mixed_entry` is a run of two tasks in which one starts at the other's entry point.

`own_of_exclusive_run` is what does hold: in every run in which no two tasks are between the load
of a program and its auxiliary vector at once, nor two inside `setup_stack`, every program started
is its caller's own. The invariant is that each task's remaining program does what it should
(`Coop.Sat`) as long as the part of the shared state it uses is left alone (`PhaseOk`); a stretch of
another task leaves it alone because that task is somewhere else.
-/

namespace Sage040.Exec

open Coop Relation Function Sat List Phase Machine

/-! ## A program of one's own -/

/-- Where the program of the file `ino` with the image `img` is entered. -/
structure EntryOf (fs : Files) (ino : Nat) (img : Image) (entry : Nat) : Prop where
  static : img.interpName = [] → entry = (fs.inodes ino).data.bytes.be32 24
  dynamic : img.interpName ≠ [] → ∃ ino', fs.names img.interpName = some ino' ∧
    entry = (fs.inodes ino').data.bytes.be32 24

/-- The file a call leads to, and its image. -/
structure FileOf (fs : Files) (c : Call) (r : Target) (ino : Nat) : Prop where
  leads : ∃ n ≤ scriptDepth, Leads fs n c.path c.argv r.path r.argv
  name : fs.names r.path = some ino

/-- What `build` has made is this file's: its entry point, its heap and its auxiliary vector. -/
structure BuiltOf (fs : Files) (ino : Nat) (b : Built) (img : Image) : Prop where
  image : imageOf (fs.inodes ino).data userVaBase userVaEnd = .ok img
  entry : EntryOf fs ino img b.entry
  heap : b.brkStart = pageAlignUp img.end_
  auxv : b.auxv = auxvOf img

/-- **A started program is its caller's own.** -/
structure Own (fs : Files) (c : Call) (r : Target) (b : Built) (st : Stack) (ino : Nat)
    (img : Image) : Prop where
  file : FileOf fs c r ino
  built : BuiltOf fs ino b img
  stack : StackOf st.2 st.1 r.argv c.envp (auxvOf img)

/-! ## Runs -/

/-- Between the load of the program and the auxiliary vector. -/
def Phase.inImage : Phase → Bool
  | loading .. | linking .. => true
  | _ => false

/-- Inside `setup_stack`. -/
def Phase.inStack : Phase → Bool
  | stacking .. => true
  | _ => false

/-- No two tasks use the same static buffers. -/
structure Exclusive (m : Machine) : Prop where
  image : ∀ i j, (m.tasks i).inImage = true → (m.tasks j).inImage = true → i = j
  stack : ∀ i j, (m.tasks i).inStack = true → (m.tasks j).inStack = true → i = j

/-- A step of a machine on which tasks only execute programs. -/
def ExecStep (m m' : Machine) : Prop := ∃ ev, (∀ op, ev ≠ .files op) ∧ m' = m.apply ev

/-- Such a step that takes no task where another one is. -/
def ExclusiveStep (m m' : Machine) : Prop := ExecStep m m' ∧ Exclusive m'

def Machine.Idle (m : Machine) : Prop := ∀ i, m.tasks i = .idle

/-! ## What each phase gives -/

section Phases

variable {s : Shared} {c : Call} {r : Target}

lemma pause_sat {ω γ : Type} {own : Shared → ω} {rest : Shared → γ} :
    pause.Sat own rest (fun _ t => own t = own s) s :=
  sat_look fun _ ht _ _ _ hu => hu.trans ht

lemma openProgram_sat {γ : Type} {rest : Shared → γ} : (openProgram c r).Sat Shared.files rest
    (fun ino t => t.files = s.files ∧ s.files.names r.path = some ino) s := by
  refine bind (pause_sat.mono fun _ t ht => ?_)
  refine bind (mayRefuse_sat.mono fun _ u hu => ?_)
  refine fdOpen_sat.mono fun ino v ⟨hv, w, hw, hino⟩ => ⟨hv.trans (hu.trans ht), ?_⟩
  rw [← ht, ← hu, ← hw, hino]

/-- The image a task left in `prog`, with the files as they were. -/
def Holds (fs : Files) (img : Image) (s : Shared) : Prop := s.files = fs ∧ s.prog = img

variable {img : Image}

lemma Holds.stable {fs : Files} {s t : Shared} (h : Holds fs img s) (ht : t.images = s.images) :
    Holds fs img t :=
  ⟨(files_of_images ht).trans h.1, (show t.img .prog = s.img .prog from img_of_images ht).trans h.2⟩

lemma loadProgram_sat (ino : Nat) : (loadProgram ino).Sat Shared.images Shared.besideImages
    (fun _ t => ∃ img, imageOf (s.files.inodes ino).data userVaBase userVaEnd = .ok img ∧
    Holds s.files img t) s := by
  refine (loadImage_sat .prog ino _ _ _ s).mono fun _ t ⟨img, himg, ht⟩ => ⟨img, himg, ?_⟩
  exact images_found ht

section Link

variable {fs : Files} {img : Image} {cred : Cred}

lemma loadInterp_sat (h : Holds fs img s) (name : CStr) (mem : Bytes) :
    (loadInterp cred name mem).Sat Shared.images Shared.besideImages
      (fun x t => Holds fs img t ∧ ∃ ino, fs.names name = some ino ∧
      x.1 = (fs.inodes ino).data.bytes.be32 24) s := by
  refine bind ((fdOpen_sat.errorMap _).mono fun ino t ⟨ht, u, hu, hino⟩ => ?_)
  rw [(h.stable hu).1] at hino
  have htfs : t.files = fs := (h.stable ht).1
  refine bind (((loadImage_sat .interp ino _ _ mem t).errorMap _).mono
    fun l v ⟨img', himg', hv⟩ => ?_)
  rw [htfs] at himg'
  -- the program's image is the other one, and still there
  have hprog : Holds fs img v := by
    refine ⟨(images_found hv).1.trans htfs, ?_⟩
    have hvp : v.prog = (t.setImg .interp img').prog := congrArg (fun x => x.2.1) hv
    exact hvp.trans (h.stable ht).2
  refine bind (sat_look fun w hw entry hentry x hx => sat_ret fun y hy => ?_)
  have hwi : w.interp = img' :=
    (show w.img .interp = v.img .interp from img_of_images hw).trans (images_found hv).2
  refine ⟨hprog.stable (hy.trans (hx.trans hw)), ino, hino, ?_⟩
  split at hentry
  · cases hentry
  rw [← (imageOf_fits himg').entry, ← hwi]
  exact (Except.ok.inj hentry).symm

lemma linkProgram_sat {ino : Nat} (h : Holds fs img s)
    (himg : imageOf (fs.inodes ino).data userVaBase userVaEnd = .ok img) (l : Loaded) :
    (linkProgram cred l).Sat Shared.images Shared.besideImages
    (fun b _ => BuiltOf fs ino b img) s := by
  refine bind (sat_look fun t ht be hbe u hu => ?_)
  have hu := h.stable (hu.trans ht)
  obtain rfl : (pageAlignUp img.end_, img.entry) = be := by
    have ht := h.stable ht
    rw [← ht.2]
    exact Except.ok.inj hbe
  refine bind (pause_sat.mono fun _ v hv => ?_)
  have hv := hu.stable hv
  -- `interp.entry = 0` touches the other image only
  have hname : (stretch fun s => (.ok s.prog.interpName,
      s.setImg .interp { s.interp with entry := 0 }) : Prog CStr).Sat Shared.images
      Shared.besideImages (fun name t => name = img.interpName ∧ Holds fs img t) v := by
    refine sat_stretch (fun _ _ => setImg_besideImages) fun w hw name hn x hx => ?_
    have hw := hv.stable hw
    refine ⟨?_, Holds.stable ⟨?_, ?_⟩ hx⟩
    · rw [← hw.2]
      exact (Except.ok.inj hn).symm
    · exact setImg_files.trans hw.1
    · exact hw.2
  refine bind (hname.mono fun name w ⟨hn, hw⟩ => ?_)
  have hmem : (startPoint cred name img.entry l.mem).Sat Shared.images Shared.besideImages
      (fun x t => Holds fs img t ∧ EntryOf fs ino img x.1) w := by
    rw [startPoint, hn]
    split
    · rename_i hnone
      refine sat_ret fun t ht => ⟨hw.stable ht, fun _ => (imageOf_fits himg).entry, fun hne => ?_⟩
      exact absurd hnone hne
    rename_i hsome
    exact (loadInterp_sat hw _ _).mono fun x t ⟨ht, hino⟩ =>
      ⟨ht, fun hnone => absurd hnone hsome, fun _ => hino⟩
  refine bind (hmem.mono fun x t ⟨ht, hentry⟩ => ?_)
  refine bind (sat_look fun y hy auxv hauxv z _ => sat_ret fun _ _ => ?_)
  refine ⟨himg, hentry, rfl, ?_⟩
  rw [← (ht.stable hy).2]
  exact (Except.ok.inj hauxv).symm

end Link

lemma auxvOf_lt {d : Contents} (h : imageOf d userVaBase userVaEnd = .ok img) : ∀ w ∈ auxvOf img,
    w < 2 ^ 32 := by
  obtain ⟨he, hp, hn⟩ := imageOf_fits h
  have hentry : img.entry < 2 ^ 32 := he ▸ Bytes.be32_lt _ _
  have hbase : (if img.interpName ≠ [] then ldsoBase else 0) < 2 ^ 32 := by
    split <;> decide
  intro w hw
  simp only [auxvOf, mem_cons, not_mem_nil, or_false] at hw
  rcases hw with rfl | rfl | rfl | rfl | rfl | rfl | rfl | rfl | rfl | rfl | rfl | rfl | rfl | rfl |
    rfl | rfl <;> first | assumption | decide

/-- The arguments fit the stack, those a script has added included. -/
lemma fillStack_sat {fs} {ino : Nat} {b : Built} (hf : FileOf fs c r ino)
    (hb : BuiltOf fs ino b img) : (fillStack c r b).Sat Shared.arrays Shared.besideArrays
      (fun st _ => StackOf st.2 st.1 r.argv c.envp (auxvOf img)) s := by
  refine bind (mayRefuse_sat.mono fun _ t _ => ?_)
  obtain ⟨n, hn, hleads⟩ := hf.leads
  have hnul := c.noNul
  rw [cons_append] at hnul
  have hargv := hleads.noNul (hnul _ mem_cons_self)
    fun a ha => hnul a (mem_cons_of_mem _ (mem_append_left _ ha))
  have hsize := hleads.size c.path_le.le
  have hroom := c.room
  have hroom' : argRoom = 27640 := by decide
  have hlevel : 2 * (scriptLineMax + 1) + (pathMax + 1) = 1537 := by decide
  have hdepth : scriptDepth = 4 := rfl
  rw [hlevel] at hsize
  rw [hb.auxv]
  refine setupStack_sat _ t (fun a ha => ?_) (hleads.length c.argc_le) c.envc_le ?_ rfl
    (auxvOf_lt hb.image)
  · rcases mem_append.1 ha with ha | ha
    · exact hargv a ha
    · exact hnul a (mem_cons_of_mem _ (mem_append_right _ ha))
  · omega

end Phases

/-! ## The invariant -/

/-- Everything the static buffers and the files hold. -/
def Shared.statics (s : Shared) : (Files × Image × Image) × (Nat → Nat) × (Nat → Nat) :=
  (s.images, s.arrays)

/-- A task's exec, from where it is, comes out right if its part of the shared state is left
alone. -/
def PhaseOk (fs : Files) (s : Shared) : Phase → Prop
  | .idle => True
  | .resolving c p => p.Sat Shared.files Shared.statics
      (fun x _ => ∃ n ≤ scriptDepth, Leads fs n c.path c.argv x.1 x.2) s
  | .statting c path argv => ∃ n ≤ scriptDepth, Leads fs n c.path c.argv path argv
  | .opening c r p => p.Sat Shared.files Shared.statics
      (fun ino t => t.files = fs ∧ FileOf fs c r ino) s
  | .loading c r ino p => FileOf fs c r ino ∧ p.Sat Shared.images Shared.besideImages
      (fun _ t => ∃ img, imageOf (fs.inodes ino).data userVaBase userVaEnd = .ok img ∧
      Holds fs img t) s
  | .linking c r p => ∃ ino, FileOf fs c r ino ∧ p.Sat Shared.images Shared.besideImages
      (fun b _ => ∃ img, BuiltOf fs ino b img) s
  | .stacking c r b p =>
    ∃ ino img, FileOf fs c r ino ∧ BuiltOf fs ino b img ∧ p.Sat Shared.arrays Shared.besideArrays
        (fun st _ => StackOf st.2 st.1 r.argv c.envp (auxvOf img)) s
  | .started c r b st => ∃ ino img, Own fs c r b st ino img
  | .failed _ => True

variable {m : Machine} {fs : Files}

variable {ph : Phase} {evs : List Event}

lemma PhaseOk.stable {s t : Shared} (h : PhaseOk fs s ph)
    (hfiles : t.files = s.files) (himages : ph.inImage = true → t.images = s.images)
    (harrays : ph.inStack = true → t.arrays = s.arrays) : PhaseOk fs t ph := by
  cases ph with
  | idle => trivial
  | resolving c p => exact stable h hfiles
  | statting c path argv => exact h
  | opening c r p => exact stable h hfiles
  | loading c r ino p => exact ⟨h.1, h.2.stable (himages rfl)⟩
  | linking c r p =>
    obtain ⟨ino, hf, hp⟩ := h
    exact ⟨ino, hf, hp.stable (himages rfl)⟩
  | stacking c r b p =>
    obtain ⟨ino, img, hf, hb, hp⟩ := h
    exact ⟨ino, img, hf, hb, hp.stable (harrays rfl)⟩
  | started c r b st => exact h
  | failed e => trivial

/-- What a stretch of a task in phase `ph` leaves alone. -/
structure Untouched (ph : Phase) (s t : Shared) : Prop where
  files : t.files = s.files
  images : ph.inImage = false → t.images = s.images
  arrays : ph.inStack = false → t.arrays = s.arrays

section Go

variable {s t : Shared} {ph : Phase}

lemma untouched_of_statics (h : t.statics = s.statics) : Untouched ph s t := by
  obtain ⟨h1, h2⟩ := Prod.mk.inj h
  exact ⟨files_of_images h1, fun _ => h1, fun _ => h2⟩

lemma untouched_of_besideImages (hp : ph.inImage = true) (h : t.besideImages = s.besideImages) :
    Untouched ph s t := by
  obtain ⟨h1, h2⟩ := Prod.mk.inj h
  exact ⟨h1, fun hn => absurd hp (by rw [hn]; decide), fun _ => h2⟩

lemma untouched_of_besideArrays (hp : ph.inStack = true) (h : t.besideArrays = s.besideArrays) :
    Untouched ph s t :=
  ⟨files_of_images h, fun _ => h, fun hn => absurd hp (by rw [hn]; decide)⟩

/-- A phase's program does its stretch, and its successor is right if the phase ends. -/
lemma runStretch_ok {α ω γ : Type} {own : Shared → ω} {rest : Shared → γ}
    {Q : α → Shared → Prop} {p : Prog α} {same : Prog α → Phase} {next : α → Phase}
    (Ok : Shared → Phase → Prop) (h : p.Sat own rest Q s)
    (hsame : ∀ q t, q.Sat own rest Q t → Ok t (same q)) (hnext : ∀ a t, Q a t → Ok t (next a))
    (hfail : ∀ e t, Ok t (.failed e)) : Ok (runStretch p same next s).2
    (runStretch p same next s).1 ∧
      rest (runStretch p same next s).2 = rest s := by
  cases p with
  | ret a => exact ⟨hnext a s h.done, rfl⟩
  | fail e => exact ⟨hfail e s, rfl⟩
  | step f k =>
    obtain ⟨hrest, hk⟩ := h.go
    refine ⟨?_, hrest⟩
    simp only [runStretch]
    cases hq : k s with
    | ret a =>
      rw [hq] at hk
      exact hnext a _ hk.done
    | fail e => exact hfail e _
    | step f' k' =>
      rw [hq] at hk
      exact hsame _ _ hk

lemma Phase.go_ok {fs} (h : PhaseOk fs s ph) (hfs : s.files = fs) :
    PhaseOk fs (ph.go s).2 (ph.go s).1 ∧ Untouched ph s (ph.go s).2 := by
  have hfail : ∀ e t, PhaseOk fs t (.failed e) := fun _ _ => trivial
  cases ph with
  | idle => exact ⟨h, untouched_of_statics rfl⟩
  | started c r b st => exact ⟨h, untouched_of_statics rfl⟩
  | failed e => exact ⟨h, untouched_of_statics rfl⟩
  | resolving c p =>
    rw [go]
    refine And.imp_right untouched_of_statics (runStretch_ok (PhaseOk fs) h ?_ ?_ hfail)
    · exact fun _ _ hq => hq
    · exact fun _ _ hx => hx
  | statting c path argv =>
    rw [go]
    cases hst : s.ask (s.files.stat path) with
    | error e => exact ⟨trivial, untouched_of_statics rfl⟩
    | ok st =>
      refine ⟨mono openProgram_sat fun ino t ⟨ht, hino⟩ => ?_, untouched_of_statics rfl⟩
      rw [hfs] at ht hino
      exact ⟨ht, h, hino⟩
  | opening c r p =>
    rw [go]
    refine And.imp_right untouched_of_statics (runStretch_ok (PhaseOk fs) h ?_ ?_ hfail)
    · exact fun _ _ hq => hq
    rintro ino t ⟨rfl, hf⟩
    exact ⟨hf, loadProgram_sat ino⟩
  | loading c r ino p =>
    rw [go]
    refine And.imp_right (untouched_of_besideImages rfl)
      (runStretch_ok (PhaseOk fs) h.2 ?_ ?_ hfail)
    · exact fun _ _ hq => ⟨h.1, hq⟩
    rintro l t ⟨img, himg, ht⟩
    exact ⟨ino, h.1, (linkProgram_sat ht himg l).mono fun _ _ hb => ⟨img, hb⟩⟩
  | linking c r p =>
    obtain ⟨ino, hf, hp⟩ := h
    rw [go]
    refine And.imp_right (untouched_of_besideImages rfl) (runStretch_ok (PhaseOk fs) hp ?_ ?_ hfail)
    · exact fun _ _ hq => ⟨ino, hf, hq⟩
    rintro b t ⟨img, hb⟩
    exact ⟨ino, img, hf, hb, fillStack_sat hf hb⟩
  | stacking c r b p =>
    obtain ⟨ino, img, hf, hb, hp⟩ := h
    rw [go]
    refine And.imp_right (untouched_of_besideArrays rfl) (runStretch_ok (PhaseOk fs) hp ?_ ?_ hfail)
    · exact fun _ _ hq => ⟨ino, img, hf, hb, hq⟩
    · exact fun st _ hst => ⟨ino, img, hf, hb, hst⟩

end Go

/-- Nobody's buffers are in use twice, and every exec under way comes out right. -/
structure Inv (fs : Files) (m : Machine) : Prop where
  exclusive : Exclusive m
  files : m.shared.files = fs
  tasks : ∀ i, PhaseOk fs m.shared (m.tasks i)

lemma inv_idle (h : m.Idle) : Inv m.shared.files m where
  exclusive := ⟨fun i j hi _ => by
    simp [h i, inImage] at hi, fun i j hi _ => by simp [h i, inStack] at hi⟩
  files := rfl
  tasks i := by
    rw [h i]
    trivial

lemma Inv.go (h : Inv fs m) (i : Nat) (hex : Exclusive (m.apply (.go i))) :
    Inv fs (m.apply (.go i)) := by
  obtain ⟨hok, hfiles, himages, harrays⟩ := go_ok (h.tasks i) h.files
  refine ⟨hex, hfiles.trans h.files, fun j => ?_⟩
  by_cases hj : j = i
  · subst hj
    simpa only [apply, update_self] using hok
  simp only [apply, update_of_ne hj]
  refine (h.tasks j).stable hfiles (fun hin => himages ?_) fun hin => harrays ?_
  · by_contra hi
    exact hj (h.exclusive.image j i hin (by simpa using hi))
  · by_contra hi
    exact hj (h.exclusive.stack j i hin (by simpa using hi))

lemma Inv.step {m m'} (h : Inv fs m) (hs : ExclusiveStep m m') : Inv fs m' := by
  obtain ⟨⟨ev, hev, rfl⟩, hex⟩ := hs
  cases ev with
  | files op => exact absurd rfl (hev op)
  | go i => exact h.go i hex
  | trouble e => exact ⟨hex, h.files, fun i => (h.tasks i).stable rfl (fun _ => rfl) fun _ => rfl⟩
  | exec i c =>
    refine ⟨hex, ?_, fun j => ?_⟩
    · rw [apply]
      split <;> exact h.files
    rw [apply]
    split
    · show PhaseOk fs m.shared (update m.tasks i _ j)
      by_cases hj : j = i
      · subst hj
        rw [update_self]
        refine (scriptResolve_sat scriptDepth c.path c.argv m.shared).mono fun x t hx => ?_
        rw [← h.files]
        exact hx.2
      · rw [update_of_ne hj]
        exact h.tasks j
    · exact h.tasks j

lemma Inv.of_run {m0 m : Machine} (h : m0.Idle) (hrun : ReflTransGen ExclusiveStep m0 m) :
    Inv m0.shared.files m := by
  induction hrun with
  | refl => exact inv_idle h
  | tail _ hs ih => exact ih.step hs

/-- **Execs that do not share a buffer do not mix.**  In every run of tasks that execute programs,
from a machine on which none does yet, in which no two tasks are ever between the load of a program
and its auxiliary vector, nor two inside `setup_stack`: every program that is started is its
caller's own. -/
theorem own_of_exclusive_run {m₀ m : Machine} (h₀ : m₀.Idle)
    (hrun : ReflTransGen ExclusiveStep m₀ m) {i : Nat} {c : Call} {r : Target} {b : Built}
    {st : Stack} (hi : m.tasks i = .started c r b st) : ∃ ino img,
    Own m₀.shared.files c r b st ino img := by
  have h := (Inv.of_run h₀ hrun).tasks i
  rw [hi] at h
  exact h

/-! ## Two programs

Two files of one empty segment each, that differ in their entry points, and a task for each. -/

def tinyElf (entry : Nat) : Contents where
  size := 84
  bytes := (((((((((((((Bytes.zero.putBe32 0 0x7f454c46).putBe16 4 0x0102).putBe16 16 2).putBe16
    18 4).putBe32 20 1).putBe32 24 entry).putBe32 28 52).putBe16 42 32).putBe16 44 1).putBe32
    52 1).putBe32 60 0x10000000).putBe32 72 0x1000).putBe32 76 5)

def twoFiles : Files where
  names path := if path = ascii "/a" then some 1 else if path = ascii "/b" then some 2 else none
  inodes ino := ⟨0o755, 0, 0, tinyElf (if ino = 1 then 0x10000000 else 0x10000100)⟩

/-- A machine with these files, on which nothing is being executed. -/
def quiet (fs : Files) : Machine where
  shared := ⟨fs, Image.zero, Image.zero, fun _ => 0, fun _ => 0, none⟩
  tasks _ := .idle

def plainCall (path : CStr) (cred : Cred) (h : path.length < pathMax) (hn : NoNul [path, path])
    (hroom : bytesOf [path] + bytesOf [] ≤ argRoom) : Call :=
  ⟨path, [path], [], cred, h, show 1 ≤ execMaxArgs by
    decide, show 0 ≤ execMaxEnv by decide, hroom, hn⟩

lemma slash_a_lt : (ascii "/a").length < pathMax := by decide

lemma slash_a_noNul : NoNul [ascii "/a", ascii "/a"] := by decide

lemma slash_a_room : bytesOf [ascii "/a"] + bytesOf [] ≤ argRoom := by decide

def callA : Call := plainCall (ascii "/a") Cred.root slash_a_lt slash_a_noNul slash_a_room

def callB : Call := plainCall (ascii "/b") Cred.root (by decide) (by decide) (by decide)

/-- The program a task has started, and where it is entered. -/
def Phase.entered : Phase → Option (CStr × Nat)
  | started _ r b _ => some (r.path, b.entry)
  | _ => none

lemma Phase.started_of_entered {path : CStr} {entry : Nat} (h : ph.entered = some (path, entry)) :
    ∃ c r b st, ph = .started c r b st ∧ r.path = path ∧ b.entry = entry := by
  cases ph with
  | started c r b st =>
    obtain ⟨h1, h2⟩ := Prod.mk.inj (Option.some.inj h)
    exact ⟨c, r, b, st, rfl, h1, h2⟩
  | _ => cases h

def Machine.run (m : Machine) (evs : List Event) : Machine := evs.foldl Machine.apply m

/-- A call by task `i`, and `n` stretches of it. -/
def calls (i : Nat) (c : Call) (n : Nat) : List Event := .exec i c :: List.replicate n (.go i)

/-- Task 0 has read the header of `/a` and waits for the disk; task 1 gets as far with `/b`; then
task 0 goes on to the end. -/
def mixedEvents : List Event := calls 0 callA 13 ++ calls 1 callB 13 ++ List.replicate 17 (.go 0)

lemma execSteps_run (m) (h : ∀ ev ∈ evs, ∀ op, ev ≠ .files op) :
    ReflTransGen ExecStep m (m.run evs) := by
  induction evs generalizing m with
  | nil => exact .refl
  | cons ev evs ih =>
    exact .head ⟨ev, h ev mem_cons_self, rfl⟩
      (ih (m.apply ev) fun e he => h e (mem_cons_of_mem _ he))

/-- Task 0 has started `/a`, at the entry point of `/b`. -/
lemma mixedEvents_entered : (((quiet twoFiles).run mixedEvents).tasks 0).entered = some (ascii "/a", 0x10000100) := by
  decide +kernel

/-- **A program started at another one's entry point.** -/
theorem mixed_entry : ∃ m, ReflTransGen ExecStep (quiet twoFiles) m ∧
    ∃ c r b st, m.tasks 0 = .started c r b st ∧ ¬ ∃ ino img, Own twoFiles c r b st ino img := by
  have hrun : ReflTransGen ExecStep (quiet twoFiles) ((quiet twoFiles).run mixedEvents) := by
    refine execSteps_run _ fun ev hev op hop => ?_
    subst hop
    simp [mixedEvents, calls] at hev
  obtain ⟨c, r, b, st, hst, hpath, hentry⟩ := started_of_entered mixedEvents_entered
  refine ⟨_, hrun, c, r, b, st, hst, ?_⟩
  rintro ⟨ino, img, hown⟩
  obtain rfl : 1 = ino := by
    have hname := hown.file.name
    rw [hpath] at hname
    exact Option.some.inj hname
  -- `/a` is a static program, so it has to be entered where its own header says
  have hstatic : img.interpName = [] := by
    have h : (imageOf (twoFiles.inodes 1).data userVaBase userVaEnd).toOption.map Image.interpName =
        some [] := by decide +kernel
    rw [hown.built.image] at h
    exact Option.some.inj h
  have hown' := hown.built.entry.static hstatic
  rw [hentry] at hown'
  exact absurd hown' (by decide +kernel)

lemma exclusiveSteps_run (h : ∀ j, j ≠ 0 → m.tasks j = .idle)
    (hev : ∀ ev ∈ evs, ev = .go 0 ∨ ∃ c, ev = .exec 0 c) :
    ReflTransGen ExclusiveStep m (m.run evs) := by
  induction evs generalizing m with
  | nil => exact .refl
  | cons ev evs ih =>
    have hidle : ∀ j, j ≠ 0 → (m.apply ev).tasks j = .idle := by
      intro j hj
      rcases hev ev mem_cons_self with rfl | ⟨c, rfl⟩
      · exact (update_of_ne hj _ _).trans (h j hj)
      rw [apply]
      split
      · exact (update_of_ne hj _ _).trans (h j hj)
      · exact h j hj
    have hzero : ∀ {p : Phase → Bool}, p .idle = false → ∀ i, p ((m.apply ev).tasks i) = true →
        i = 0 := by
      intro p hp i hi
      by_contra hne
      rw [hidle i hne, hp] at hi
      cases hi
    refine .head ⟨⟨ev, ?_, rfl⟩, fun i j hi hj => ?_, fun i j hi hj => ?_⟩
      (ih hidle fun e he => hev e (mem_cons_of_mem _ he))
    · rintro op rfl
      rcases hev _ mem_cons_self with h | ⟨c, h⟩ <;> cases h
    · rw [hzero (p := inImage) rfl i hi, hzero (p := inImage) rfl j hj]
    · rw [hzero (p := inStack) rfl i hi, hzero (p := inStack) rfl j hj]

/-- One task that executes `/a` starts it as it should. -/
theorem own_of_one_exec : ∃ c r b st,
    ((quiet twoFiles).run (calls 0 callA 30)).tasks 0 = .started c r b st ∧ b.entry = 0x10000000 ∧
      ∃ ino img, Own twoFiles c r b st ino img := by
  obtain ⟨c, r, b, st, hst, -, hentry⟩ := started_of_entered
    (show (((quiet twoFiles).run (calls 0 callA 30)).tasks 0).entered = some (ascii "/a", 0x10000000) by decide +kernel)
  refine ⟨c, r, b, st, hst, hentry, own_of_exclusive_run (fun _ => rfl)
    (exclusiveSteps_run (m := quiet twoFiles) (fun _ _ => rfl) fun ev hev => ?_) hst⟩
  rcases mem_cons.1 hev with rfl | hev
  · exact .inr ⟨_, rfl⟩
  · exact .inl (eq_of_mem_replicate hev)

end Sage040.Exec
