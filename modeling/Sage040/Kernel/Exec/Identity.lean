import Sage040.Kernel.Exec.Mixing

/-!
# Whose identity a program takes up

Exec asks a path whose identity the program takes up, and later opens the path to load the program.
Between the two it sleeps, and another task may have the path lead somewhere else, or change the
mode of the file it leads to. `Lawful` is what set-user-id is supposed to mean: whoever gains an
effective id by executing a program gains it from the file the program was read from, as that
file was when it was read.

`stolen_identity` is a run in which it fails: an ordinary user executes a set-user-id program, and
a rename between the question and the open puts another file in its place, which then runs as
root. `lawful_of_settled_run` is what holds: in every run in which nobody else changes what a path
names while a task is between the question and the open of it, nor the mode of the file while that
task reads it, every program started is lawful.
-/

namespace Sage040.Exec

open Coop Relation Function Sat List Phase

/-! ## The rule -/

/-- The ids that a file with this mode and owner gives. -/
structure IdsOf (r : Target) (src : Source) : Prop where
  uid : r.newEuid = if src.mode &&& 0o4000 ≠ 0 then src.uid else noId
  gid : r.newEgid = if src.mode &&& 0o2000 ≠ 0 then src.gid else noId

/-- **A new effective id comes from the image.**  If the program runs with an effective uid its
caller did not have, every piece of it was read from a file that was set-user-id and had that
owner at the time, and there is such a piece; and the same for groups. -/
structure Lawful (c : Call) (r : Target) (b : Built) : Prop where
  uid : (r.takeUp c.cred).user.effective ≠ c.cred.user.effective → b.sources ≠ [] ∧
    ∀ src ∈ b.sources, src.mode &&& 0o4000 ≠ 0 ∧ src.uid = (r.takeUp c.cred).user.effective
  gid : (r.takeUp c.cred).group.effective ≠ c.cred.group.effective → b.sources ≠ [] ∧
    ∀ src ∈ b.sources, src.mode &&& 0o2000 ≠ 0 ∧ src.gid = (r.takeUp c.cred).group.effective

lemma takeUp_user (r : Target) (cred : Cred) : (r.takeUp cred).user.effective =
    if r.newEuid ≠ noId then r.newEuid else cred.user.effective := by
  simp only [Target.takeUp]
  split_ifs <;> rfl

lemma takeUp_group (r : Target) (cred : Cred) : (r.takeUp cred).group.effective =
    if r.newEgid ≠ noId then r.newEgid else cred.group.effective := by
  simp only [Target.takeUp]
  split_ifs <;> rfl

/-- The pieces of a program all come from `src`, and there are some. -/
structure ReadFrom (src : Source) (sources : List Source) : Prop where
  some : sources ≠ []
  all : ∀ x ∈ sources, x = src

lemma owner_of_taken {bit mode owner new old : Nat}
    (hnew : new = if mode &&& bit ≠ 0 then owner else noId)
    (hne : (if new ≠ noId then new else old) ≠ old) :
    mode &&& bit ≠ 0 ∧ owner = if new ≠ noId then new else old := by
  by_cases hid : new ≠ noId
  · rw [if_pos hid]
    by_cases hmode : mode &&& bit ≠ 0
    · rw [if_pos hmode] at hnew
      exact ⟨hmode, hnew.symm⟩
    · rw [if_neg hmode] at hnew
      exact absurd hnew hid
  · rw [if_neg hid] at hne
    exact absurd rfl hne

lemma lawful_of_readFrom {c : Call} {r : Target} {b : Built} {src : Source} (hids : IdsOf r src)
    (hb : ReadFrom src b.sources) : Lawful c r b := by
  refine ⟨fun hne => ⟨hb.some, fun x hx => ?_⟩, fun hne => ⟨hb.some, fun x hx => ?_⟩⟩
  · rw [hb.all x hx]
    rw [takeUp_user] at hne ⊢
    exact owner_of_taken hids.uid hne
  rw [hb.all x hx]
  rw [takeUp_group] at hne ⊢
  exact owner_of_taken hids.gid hne

/-! ## Runs -/

/-- The file a path names, and its mode and owner. -/
def Files.stamp (fs : Files) (path : CStr) : Option Source := (fs.names path).map fs.source

/-- With these files instead, nothing has changed for a task in this phase. -/
def Phase.Settled (fs fs' : Files) : Phase → Prop
  | .opening _ r _ => fs'.stamp r.path = fs.stamp r.path
  | .loading _ _ ino _ => fs'.source ino = fs.source ino
  | _ => True

/-- A step of the machine, whatever its tasks do. -/
def AnyStep (m m' : Machine) : Prop := ∃ ev, m' = m.apply ev

/-- A step at which no other task changes what a path names while a task is between its questions
about the path and its open of it, nor the mode or owner of a file that is being loaded. -/
def SettledStep (m m' : Machine) : Prop :=
  ∃ ev, m' = m.apply ev ∧ ∀ op, ev = .files op → ∀ i,
    (m.tasks i).Settled m.shared.files (m.shared.files.apply op)

/-! ## No task of exec changes a file -/

section Keeps

variable {cred : Cred} {path : CStr}

lemma vfsMay_keeps (want : Access) : (vfsMay cred path want).Keeps Shared.files := by
  refine (keeps_look _).bind fun st => ?_
  split
  · exact keeps_ret _
  · exact keeps_fail _

lemma fdOpen_keeps : (fdOpen cred path).Keeps Shared.files := by
  rw [fdOpen]
  split
  · exact keeps_fail _
  split
  · exact keeps_fail _
  refine (keeps_look _).bind fun ex => ?_
  split
  · exact (vfsMay_keeps .read).bind fun _ => keeps_look _
  · exact keeps_look _

lemma scriptResolve_keeps (left : Nat) (path) (argv : List CStr) :
    (scriptResolve cred left path argv).Keeps Shared.files := by
  have hline : ∀ path, (firstLine cred path).Keeps Shared.files := fun path =>
    (vfsMay_keeps .execute).bind fun _ => fdOpen_keeps.bind fun _ => keeps_look _
  induction left generalizing path argv with
  | zero =>
    rw [scriptResolve]
    refine (hline path).bind fun line => ?_
    split
    · exact keeps_ret _
    · exact keeps_fail _
  | succ left ih =>
    rw [scriptResolve]
    refine (hline path).bind fun line => ?_
    split
    · exact keeps_ret _
    cases scriptLine line with
    | none => exact keeps_fail _
    | some ia =>
      refine (keeps_look _).bind fun _ => ?_
      split
      · exact keeps_fail _
      · exact ih _ _

variable {slot : Slot} {l : Loaded} {a : Arr}

lemma readThen_keeps {α : Type} (slot) (ino : Nat)
    (f : Contents → Image → Except Errno α × Image) (l) :
    (readThen slot ino f l).Keeps Shared.files := by
  refine keeps_stretch fun s => ?_
  cases hs : s.trouble with
  | none => exact setImg_files
  | some e => rfl

lemma loadFrom_keeps (slot) (ino lo hi : Nat) (t : Table) (left i imageEnd loaded : Nat) (l) :
    (loadFrom slot ino lo hi t left i imageEnd loaded l).Keeps Shared.files := by
  induction left generalizing i imageEnd loaded l with
  | zero =>
    rw [loadFrom]
    split
    · exact keeps_fail _
    · exact (keeps_change fun _ => setImg_files).bind fun _ => keeps_ret _
  | succ left ih =>
    rw [loadFrom]
    refine (readThen_keeps slot ino _ l).bind fun r => ?_
    obtain ⟨a, l'⟩ := r
    cases a with
    | skip => exact ih _ _ _ _
    | interp offset filesz => exact (readThen_keeps slot ino _ l').bind fun _ => ih _ _ _ _
    | segment ph =>
      refine (keeps_look _).bind fun _ => ?_
      refine (keeps_foldlM (fun _ _ => keeps_look _) _ _).bind fun l2 => ?_
      exact (keeps_change fun _ => setImg_files).bind fun _ => ih _ _ _ _

lemma loadImage_keeps (slot) (ino lo hi : Nat) (mem : Bytes) :
    (loadImage slot ino lo hi mem).Keeps Shared.files :=
  (keeps_change fun _ => setImg_files).bind fun _ =>
    (readThen_keeps slot ino _ _).bind fun _ => loadFrom_keeps slot ino lo hi _ _ _ _ _ _

lemma linkProgram_keeps (l) : (linkProgram cred l).Keeps Shared.files := by
  refine (keeps_look _).bind fun _ => (keeps_look _).bind fun _ => ?_
  refine (keeps_stretch fun _ => setImg_files).bind fun name => ?_
  refine Keeps.bind ?_ fun _ => (keeps_look _).bind fun _ => keeps_ret _
  rw [startPoint]
  split
  · exact keeps_ret _
  exact (fdOpen_keeps.errorMap _).bind fun _ =>
    ((loadImage_keeps _ _ _ _ _).errorMap _).bind fun _ => (keeps_look _).bind fun _ => keeps_ret _

lemma setArr_files {s : Shared} {i v : Nat} : (s.setArr a i v).files = s.files := by
  cases a <;> rfl

lemma pushStrings_keeps (a) (i : Nat) (l : List CStr) (st : Stack) :
    (pushStrings a i l st).Keeps Shared.files := by
  induction l generalizing i with
  | nil => exact keeps_ret _
  | cons str strs ih =>
    refine (ih (i + 1)).bind fun _ => ?_
    refine (keeps_foldlM (fun _ _ => keeps_look _) _ _).bind fun _ => ?_
    exact (keeps_change fun _ => setArr_files).bind fun _ => keeps_ret _

lemma fillStack_keeps (c : Call) (r : Target) (b : Built) :
    (fillStack c r b).Keeps Shared.files := by
  have hcopy : ∀ va src len mem, (copyOut va src len mem).Keeps Shared.files := fun _ _ _ _ =>
    keeps_foldlM (fun _ _ => keeps_look _) _ _
  refine (keeps_look _).bind fun _ => (pushStrings_keeps _ _ _ _).bind fun _ => ?_
  refine (keeps_change fun _ => setArr_files).bind fun _ => ?_
  iterate 2 refine ((hcopy _ _ _ _).bind fun _ => keeps_ret _).bind fun _ => ?_
  refine (pushStrings_keeps _ _ _ _).bind fun _ => (keeps_change fun _ => setArr_files).bind
    fun _ => ?_
  refine ((hcopy _ _ _ _).bind fun _ => keeps_ret _).bind fun _ => ?_
  exact (hcopy _ _ _ _).bind fun _ => keeps_ret _

end Keeps

/-! ## Where the pieces come from -/

section Sources

variable {s : Shared} {c : Call} {r : Target} {src : Source} {ino : Nat} {l : Loaded}

lemma stamp_eq_some {fs : Files} {path} (h : fs.stamp path = some src) :
    fs.names path = some src.ino ∧ fs.source src.ino = src := by
  obtain ⟨n, hn, hsrc⟩ := Option.map_eq_some_iff.1 h
  obtain rfl : n = src.ino := congrArg Source.ino hsrc
  exact ⟨hn, hsrc⟩

/-- While the path names the same file, that is the one opened. -/
lemma openProgram_stamp (h : s.files.stamp r.path = some src) :
    (openProgram c r).Sat (fun s => s.files.stamp r.path) (fun _ => ())
      (fun ino t => ino = src.ino ∧ t.files.source ino = src) s := by
  refine bind (pause_sat.mono fun _ t ht => ?_)
  refine bind (mayRefuse_sat.mono fun _ u hu => ?_)
  refine fdOpen_sat.mono fun ino v ⟨hv, w, hw, hino⟩ => ?_
  have hs : u.files.stamp r.path = some src := (hu.trans ht).trans h
  have hwino := (stamp_eq_some (hw.trans hs)).1
  obtain rfl : ino = src.ino := Option.some.inj (hino.symm.trans hwino)
  exact ⟨rfl, (stamp_eq_some (hv.trans hs)).2⟩

variable {slot : Slot}

lemma readFrom_append {x : Source} {xs : List Source} (hxs : ∀ y ∈ xs, y = src) (hx : x = src) :
    ReadFrom src (xs ++ [x]) := by
  refine ⟨append_ne_nil_of_right_ne_nil _ (cons_ne_nil _ _), fun y hy => ?_⟩
  rcases mem_append.1 hy with hy | hy
  · exact hxs y hy
  · exact (mem_singleton.1 hy).trans hx

lemma readThen_source {α : Type} {f : Contents → Image → Except Errno α × Image}
    (h : s.files.source ino = src) (hl : ∀ x ∈ l.sources, x = src) :
    (readThen slot ino f l).Sat (fun s => s.files.source ino) (fun _ => ())
      (fun r t => t.files.source ino = src ∧ ReadFrom src r.2.sources) s := by
  refine sat_stretch (fun _ _ => rfl) fun t ht r hr u hu => ?_
  have ht : t.files.source ino = src := ht.trans h
  cases hs : t.trouble with
  | some e => simp only [hs, reduceCtorEq] at hr
  | none =>
    simp only [hs, setImg_files] at hr hu
    refine ⟨hu.trans ht, ?_⟩
    cases hx : (f (t.files.inodes ino).data (t.img slot)).1 with
    | error e =>
      rw [hx] at hr
      cases hr
    | ok a =>
      rw [hx] at hr
      cases hr
      exact readFrom_append hl ht

lemma readInto_source (off va len : Nat) (h : s.files.source ino = src)
    (hl : ReadFrom src l.sources) :
    (readInto ino off va len l).Sat (fun s => s.files.source ino) (fun _ => ())
      (fun l t => t.files.source ino = src ∧ ReadFrom src l.sources) s := by
  rw [readInto]
  induction chunks va len generalizing l s with
  | nil => exact sat_ret fun t ht => ⟨ht.trans h, hl⟩
  | cons ch cs ih =>
    rw [foldlM_cons]
    refine bind (sat_ask fun t ht l' hl' u hu => ?_)
    have ht : t.files.source ino = src := ht.trans h
    refine ih (hu.trans ht) ?_
    cases hx : (t.files.inodes ino).data.readAt ((off + ch.1) % 2 ^ 32) ch.2 with
    | error e =>
      rw [hx] at hl'
      cases hl'
    | ok b =>
      rw [hx] at hl'
      cases hl'
      exact readFrom_append hl.all ht

lemma change_source (g : Shared → Image) (h : s.files.source ino = src) :
    (change fun s => s.setImg slot (g s) : Prog Unit).Sat (fun s => s.files.source ino)
    (fun _ => ())
      (fun _ t => t.files.source ino = src) s :=
  sat_change (fun _ _ => rfl) fun t ht u hu => by
    have hu : u.files.source ino = (t.setImg slot (g t)).files.source ino := hu
    rw [hu, setImg_files]
    exact ht.trans h

lemma loadFrom_source {lo hi : Nat} (tb : Table) (left i imageEnd loaded : Nat)
    (h : s.files.source ino = src) (hl : ReadFrom src l.sources) :
    (loadFrom slot ino lo hi tb left i imageEnd loaded l).Sat (fun s => s.files.source ino)
      (fun _ => ()) (fun l _ => ReadFrom src l.sources) s := by
  induction left generalizing i imageEnd loaded l s with
  | zero =>
    rw [loadFrom]
    split
    · exact sat_fail _
    · exact bind ((change_source _ h).mono fun _ _ _ => sat_ret fun _ _ => hl)
  | succ left ih =>
    rw [loadFrom]
    refine bind ((readThen_source h hl.all).mono fun r t hread => ?_)
    obtain ⟨a, l'⟩ := r
    obtain ⟨ht, hr⟩ := hread
    cases a with
    | skip => exact ih _ _ _ ht hr
    | interp offset filesz =>
      exact bind ((readThen_source ht hr.all).mono fun _ u hu => ih _ _ _ hu.1 hu.2)
    | segment ph =>
      refine bind (mayRefuse_sat.mono fun _ u hu => ?_)
      refine bind ((readInto_source _ _ _ (hu.trans ht) hr).mono fun l2 v hv => ?_)
      exact bind ((change_source _ hv.1).mono fun _ w hw => ih _ _ _ hw hv.2)

lemma loadProgram_source (h : s.files.source ino = src) :
    (loadProgram ino).Sat (fun s => s.files.source ino) (fun _ => ())
    (fun l _ => ReadFrom src l.sources) s := by
  refine bind ((change_source _ h).mono fun _ t ht => ?_)
  refine bind ((readThen_source ht fun x hx => absurd hx not_mem_nil).mono
    fun r u ⟨hu, hr⟩ => ?_)
  exact loadFrom_source _ _ _ _ _ hu hr

/-- Nothing that happens later is read as part of the program. -/
lemma linkProgram_sources {ω : Type} (own : Shared → ω) (cred l s) :
    (linkProgram cred l).Sat own (fun _ => ()) (fun b _ => b.sources = l.sources) s := by
  iterate 4 refine bind ((sat_trivial _ _ _).mono fun _ _ _ => ?_)
  exact bind ((sat_trivial _ _ _).mono fun _ _ _ => sat_ret fun _ _ => rfl)

end Sources

/-! ## The invariant -/

/-- A task's exec, from where it is, comes out lawful as long as the files stay settled for it. -/
def SourcesOk (s : Shared) : Phase → Prop
  | .resolving _ p => p.Sat (fun _ => ()) Shared.files (fun _ _ => True) s
  | .opening _ r p => ∃ src, IdsOf r src ∧ p.Sat (fun s => s.files.stamp r.path) Shared.files
      (fun ino t => ino = src.ino ∧ t.files.source ino = src) s
  | .loading _ r ino p => ∃ src, IdsOf r src ∧ p.Sat (fun s => s.files.source ino) Shared.files
      (fun l _ => ReadFrom src l.sources) s
  | .linking _ r p => ∃ src, IdsOf r src ∧ p.Sat (fun _ => ()) Shared.files
      (fun b _ => ReadFrom src b.sources) s
  | .stacking _ r b p => ∃ src, IdsOf r src ∧ ReadFrom src b.sources ∧
      p.Sat (fun _ => ()) Shared.files (fun _ _ => True) s
  | .started _ r b _ => ∃ src, IdsOf r src ∧ ReadFrom src b.sources
  | _ => True

variable {ph : Phase}

lemma SourcesOk.stable {s t : Shared} (h : SourcesOk s ph) (hs : ph.Settled s.files t.files) :
    SourcesOk t ph := by
  cases ph with
  | resolving c p => exact stable h rfl
  | opening c r p =>
    obtain ⟨src, hids, hp⟩ := h
    exact ⟨src, hids, hp.stable hs⟩
  | loading c r ino p =>
    obtain ⟨src, hids, hp⟩ := h
    exact ⟨src, hids, hp.stable hs⟩
  | linking c r p =>
    obtain ⟨src, hids, hp⟩ := h
    exact ⟨src, hids, hp.stable rfl⟩
  | stacking c r b p =>
    obtain ⟨src, hids, hb, hp⟩ := h
    exact ⟨src, hids, hb, hp.stable rfl⟩
  | started c r b st => exact h
  | _ => trivial

lemma Phase.settled_of_eq {fs fs' : Files} (ph : Phase) (h : fs' = fs) : ph.Settled fs fs' := by
  subst h
  cases ph <;> first | rfl | trivial

lemma Phase.go_sources {s} (h : SourcesOk s ph) : SourcesOk (ph.go s).2 (ph.go s).1 ∧
    (ph.go s).2.files = s.files := by
  have hfail : ∀ e t, SourcesOk t (.failed e) := fun _ _ => trivial
  cases ph with
  | idle => exact ⟨trivial, rfl⟩
  | started c r b st => exact ⟨h, rfl⟩
  | failed e => exact ⟨trivial, rfl⟩
  | resolving c p =>
    rw [go]
    refine runStretch_ok SourcesOk h ?_ ?_ hfail
    · exact fun _ _ hq => hq
    · exact fun _ _ _ => trivial
  | statting c path argv =>
    rw [go]
    cases hst : s.ask (s.files.stat path) with
    | error e => exact ⟨trivial, rfl⟩
    | ok st =>
      -- the answer is that of the file the path names now
      obtain ⟨ino, hino, rfl⟩ : ∃ ino, s.files.names path = some ino ∧ s.files.inodes ino = st := by
        have hstat := Shared.ask_eq_ok hst
        rw [Files.stat] at hstat
        cases hn : s.files.names path with
        | none => simp only [hn, reduceCtorEq] at hstat
        | some ino =>
          simp only [hn, Except.ok.injEq] at hstat
          exact ⟨ino, rfl, hstat⟩
      refine ⟨⟨s.files.source ino, ⟨rfl, rfl⟩, ?_⟩, rfl⟩
      refine (openProgram_stamp ?_).keeping ?_
      · show (s.files.names path).map s.files.source = _
        rw [hino, Option.map_some]
      · exact (keeps_look _).bind fun _ => (keeps_look _).bind fun _ => fdOpen_keeps
  | opening c r p =>
    obtain ⟨src, hids, hp⟩ := h
    rw [go]
    refine runStretch_ok SourcesOk hp ?_ ?_ hfail
    · exact fun _ _ hq => ⟨src, hids, hq⟩
    rintro ino t ⟨-, hsrc⟩
    exact ⟨src, hids, (loadProgram_source hsrc).keeping (loadImage_keeps _ _ _ _ _)⟩
  | loading c r ino p =>
    obtain ⟨src, hids, hp⟩ := h
    rw [go]
    refine runStretch_ok SourcesOk hp ?_ ?_ hfail
    · exact fun _ _ hq => ⟨src, hids, hq⟩
    intro l t hl
    refine ⟨src, hids, keeping (mono (linkProgram_sources _ _ l t) ?_)
      (linkProgram_keeps l)⟩
    intro b _ hb
    rw [hb]
    exact hl
  | linking c r p =>
    obtain ⟨src, hids, hp⟩ := h
    rw [go]
    refine runStretch_ok SourcesOk hp ?_ ?_ hfail
    · exact fun _ _ hq => ⟨src, hids, hq⟩
    · exact fun b t hb => ⟨src, hids, hb, (sat_trivial _ _ _).keeping (fillStack_keeps c r b)⟩
  | stacking c r b p =>
    obtain ⟨src, hids, hb, hp⟩ := h
    rw [go]
    refine runStretch_ok SourcesOk hp ?_ ?_ hfail
    · exact fun _ _ hq => ⟨src, hids, hb, hq⟩
    · exact fun _ _ _ => ⟨src, hids, hb⟩

lemma sourcesOk_step {m m' : Machine} (h : ∀ i, SourcesOk m.shared (m.tasks i))
    (hs : SettledStep m m') : ∀ i, SourcesOk m'.shared (m'.tasks i) := by
  obtain ⟨ev, rfl, hsettled⟩ := hs
  intro j
  cases ev with
  | files op => exact (h j).stable (hsettled op rfl j)
  | trouble e => exact (h j).stable ((m.tasks j).settled_of_eq rfl)
  | go i =>
    obtain ⟨hok, hfiles⟩ := go_sources (h i)
    by_cases hj : j = i
    · subst hj
      simpa only [Machine.apply, update_self] using hok
    · simp only [Machine.apply, update_of_ne hj]
      exact (h j).stable ((m.tasks j).settled_of_eq hfiles)
  | exec i c =>
    rw [Machine.apply]
    split
    · show SourcesOk m.shared (update m.tasks i _ j)
      by_cases hj : j = i
      · subst hj
        rw [update_self]
        exact (sat_trivial _ _ _).keeping (scriptResolve_keeps scriptDepth c.path c.argv)
      · rw [update_of_ne hj]
        exact h j
    · exact h j

lemma sourcesOk_of_run {m0 m : Machine} (h : m0.Idle) (hrun : ReflTransGen SettledStep m0 m) :
    ∀ i, SourcesOk m.shared (m.tasks i) := by
  induction hrun with
  | refl =>
    intro i
    rw [h i]
    trivial
  | tail _ hs ih => exact sourcesOk_step ih hs

/-- **Settled files give lawful identities.**  In every run, from a machine on which nothing is
being executed, in which no other task changes what a path names while a task is between its
question about it and its open of it, nor the mode of a file that is being loaded: whenever exec
leaves a task with a new effective id, the program was read from a file that carried it. -/
theorem lawful_of_settled_run {m₀ m : Machine} (h₀ : m₀.Idle)
    (hrun : ReflTransGen SettledStep m₀ m) {i : Nat} {c : Call} {r : Target} {b : Built}
    {st : Stack} (hi : m.tasks i = .started c r b st) : Lawful c r b := by
  have h := sourcesOk_of_run h₀ hrun i
  rw [hi] at h
  obtain ⟨src, hids, hb⟩ := h
  exact lawful_of_readFrom hids hb

/-! ## A set-user-id program, and a file to put in its place -/

/-- `/a` is set-user-id and root's, `/b` an ordinary program of user 1000. -/
def setuidFiles : Files where
  names path := if path = ascii "/a" then some 1 else if path = ascii "/b" then some 2 else none
  inodes ino := if ino = 1 then ⟨0o4755, 0, 0, tinyElf 0x10000000⟩
    else ⟨0o755, 1000, 1000, tinyElf 0x10000100⟩

/-- User 1000 executes `/a`. -/
def userCall : Call :=
  plainCall (ascii "/a") ⟨⟨1000, 1000, 1000⟩, ⟨1000, 1000, 1000⟩, []⟩ slash_a_lt slash_a_noNul slash_a_room

/-- The effective uid before and after, and the modes and owners of the files the program was read
from. -/
def Phase.identity : Phase → Option (Nat × Nat × List (Nat × Nat))
  | started c r b _ => some (c.cred.user.effective, (r.takeUp c.cred).user.effective,
      b.sources.map fun src => (src.mode, src.uid))
  | _ => none

lemma Phase.started_of_identity {old new : Nat} {srcs : List (Nat × Nat)}
    (h : ph.identity = some (old, new, srcs)) : ∃ c r b st, ph = .started c r b st ∧
      c.cred.user.effective = old ∧ (r.takeUp c.cred).user.effective = new ∧
      b.sources.map (fun src => (src.mode, src.uid)) = srcs := by
  cases ph with
  | started c r b st =>
    obtain ⟨h1, h2⟩ := Prod.mk.inj (Option.some.inj h)
    obtain ⟨h2, h3⟩ := Prod.mk.inj h2
    exact ⟨c, r, b, st, rfl, h1, h2, h3⟩
  | _ => cases h

/-- The task has asked whose identity `/a` gives; then `/b` is renamed over it. -/
def swapEvents : List Event :=
  calls 0 userCall 6 ++ .files (.rename (ascii "/b") (ascii "/a")) :: List.replicate 24 (.go 0)

lemma anySteps_run (m : Machine) (evs : List Event) : ReflTransGen AnyStep m (m.run evs) := by
  induction evs generalizing m with
  | nil => exact .refl
  | cons ev evs ih => exact .head ⟨ev, rfl⟩ (ih (m.apply ev))

/-- It runs as root, and what it runs is the file of user 1000. -/
lemma swapEvents_identity : (((quiet setuidFiles).run swapEvents).tasks 0).identity =
    some (1000, 0, [(0o755, 1000), (0o755, 1000)]) := by
  decide +kernel

/-- **Root's identity, for another file.** -/
theorem stolen_identity : ∃ m, ReflTransGen AnyStep (quiet setuidFiles) m ∧
    ∃ c r b st, m.tasks 0 = .started c r b st ∧ ¬ Lawful c r b := by
  obtain ⟨c, r, b, st, hst, hold, hnew, hsrc⟩ := started_of_identity swapEvents_identity
  refine ⟨_, anySteps_run _ swapEvents, c, r, b, st, hst, fun hlaw => ?_⟩
  obtain ⟨hne, hall⟩ := hlaw.uid (by rw [hold, hnew]; decide)
  obtain ⟨src, hmem⟩ := exists_mem_of_ne_nil _ hne
  have hmode : src.mode = 0o755 := by
    have h := mem_map_of_mem (f := fun src : Source => (src.mode, src.uid)) hmem
    rw [hsrc] at h
    simp only [mem_cons, Prod.mk.injEq, not_mem_nil, or_false, or_self] at h
    exact h.1
  have hbit := (hall src hmem).1
  rw [hmode] at hbit
  exact hbit (by decide)

/-- Left alone, the same call takes up root's identity lawfully. -/
theorem lawful_of_setuid_exec : ∃ c r b st,
    ((quiet setuidFiles).run (calls 0 userCall 30)).tasks 0 = .started c r b st ∧
      c.cred.user.effective = 1000 ∧ (r.takeUp c.cred).user.effective = 0 ∧ Lawful c r b := by
  obtain ⟨c, r, b, st, hst, hold, hnew, -⟩ := started_of_identity
    (show (((quiet setuidFiles).run (calls 0 userCall 30)).tasks 0).identity =
      some (1000, 0, [(0o4755, 0), (0o4755, 0)]) by decide +kernel)
  have hrun : ∀ (m : Machine) (evs : List Event), (∀ ev ∈ evs, ∀ op, ev ≠ .files op) →
      ReflTransGen SettledStep m (m.run evs) := by
    intro m evs hev
    induction evs generalizing m with
    | nil => exact .refl
    | cons ev evs ih =>
      exact .head ⟨ev, rfl, fun op hop => absurd hop (hev ev mem_cons_self op)⟩
        (ih (m.apply ev) fun e he => hev e (mem_cons_of_mem _ he))
  refine ⟨c, r, b, st, hst, hold, hnew,
    lawful_of_settled_run (fun _ => rfl) (hrun (quiet setuidFiles) _ fun ev hev op hop => ?_) hst⟩
  subst hop
  simp [calls] at hev

end Sage040.Exec
