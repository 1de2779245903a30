import Sage040.Lib.Runs
import Sage040.Lib.Tally

/-!
# How long a pty pair lives

Opening and closing the two ends of a pair of `kernel/pty.c`. The close of the master gives the pair
back when no slave is open; the close of a slave never does. So a pair whose master goes first is in
use for ever (`hung_up`), and pairs are in use exactly while they are open as long as no slave
outlives its master (`given_of_orderly`).
-/

namespace Sage040.PtyPair

open Function

open Tally (tally)

def ptyMax : Nat := 8

abbrev fileMax : Nat := 256

inductive Side
  | master
  | slave
  deriving DecidableEq

/-- What `struct pty` says of its users, and whether its `pts/N` is among the devices. -/
structure Pty where
  used : Bool := false
  masterOpen : Nat := 0
  slaveOpen : Nat := 0
  registered : Bool := false

/-- A `struct file` on one end of a pair, which `refs` descriptors share. -/
structure File where
  pair : Nat
  side : Side
  refs : Nat

structure Ptys where
  pty : Nat → Pty := fun _ => {}
  file : Nat → File := fun _ => ⟨0, .master, 0⟩

def Pty.num (p : Pty) : Side → Nat
  | .master => p.masterOpen
  | .slave => p.slaveOpen

/-- `pty_slave_close` and `pty_master_close`. -/
def Pty.close (p : Pty) : Side → Pty
  | .slave => { p with slaveOpen := p.slaveOpen - 1 }
  | .master =>
    if p.masterOpen - 1 = 0 ∧ p.slaveOpen = 0 then ⟨false, 0, 0, false⟩
    else { p with masterOpen := p.masterOpen - 1 }

/-- Whether a file is open on an end of pair `i`. -/
def File.on (i : Nat) (side : Side) (f : File) : Nat := if f.pair = i ∧ f.side = side ∧
    f.refs ≠ 0 then 1 else 0

namespace Ptys

variable {s : Ptys} {i : Nat} {k : Fin fileMax} {p : Pty} {f : File} {side : Side}

def put (s : Ptys) (k : Nat) (f : File) (p : Pty) : Ptys :=
  ⟨update s.pty f.pair p, update s.file k f⟩

def fileAlloc (s : Ptys) : Option (Fin fileMax) :=
    (List.finRange fileMax).find? fun k => (s.file k).refs = 0

/-- The open of `/dev/ptmx`, by `pty_open_master`, with the pair that it gives out. -/
def openMaster (s : Ptys) : Ptys × Option Nat :=
  match s.fileAlloc, (List.range ptyMax).find? fun i => !(s.pty i).used with
  | some k, some i =>
    -- dev_register_char refuses a name that is there
    if (s.pty i).registered then (s, none) else (s.put k ⟨i, .master, 1⟩ ⟨true, 1, 0, true⟩, some i)
  | _, _ => (s, none)

/-- The open of `/dev/pts/i`, which `pty_slave_opened` counts. -/
def openSlave (s : Ptys) (i : Nat) : Ptys :=
  match s.fileAlloc with
  | some k =>
    if (s.pty i).registered then
      s.put k ⟨i, .slave, 1⟩
        (if (s.pty i).used then { s.pty i with slaveOpen := (s.pty i).slaveOpen + 1 } else s.pty i)
    else s
  | none => s

inductive Event
  | openMaster
  | openSlave (i : Nat)
  /-- One more descriptor for a file: `dup`, or `fork` for each descriptor of the parent. -/
  | dup (k : Fin fileMax)
  /-- One descriptor less. With the last one goes the file. -/
  | close (k : Fin fileMax)

def step (s : Ptys) : Event → Ptys
  | .openMaster => s.openMaster.1
  | .openSlave i => s.openSlave i
  | .dup k =>
    match s.file k with
    | ⟨_, _, 0⟩ => s
    | ⟨i, side, n + 1⟩ => s.put k ⟨i, side, n + 2⟩ (s.pty i)
  | .close k =>
    match s.file k with
    | ⟨_, _, 0⟩ => s
    | ⟨i, side, 1⟩ => s.put k ⟨i, side, 0⟩ ((s.pty i).close side)
    | ⟨i, side, n + 2⟩ => s.put k ⟨i, side, n + 1⟩ (s.pty i)

def held (s : Ptys) (i : Nat) (side : Side) : Nat := tally fileMax (File.on i side) s.file

def Open (s : Ptys) (i : Nat) : Prop := s.held i .master + s.held i .slave ≠ 0

/-- Pairs are in use, and have a device, exactly while they are open, and one that is not can be
had. -/
def Given (s : Ptys) : Prop :=
  (∀ i, ((s.pty i).used ↔ s.Open i) ∧ (s.pty i).registered = (s.pty i).used) ∧
  (s.fileAlloc ≠ none → s.openMaster.2 = none → ∀ i < ptyMax, s.Open i)

/-- No slave outlives its master: the last one is closed while the master is open. -/
def orderly (s : Ptys) : Event → Bool
  | .close k =>
    !decide ((s.file k).side = .slave ∧ (s.file k).refs = 1 ∧ s.held (s.file k).pair .slave = 1 ∧
      s.held (s.file k).pair .master = 0)
  | _ => true

/-- The counters of each pair are those of its open files. -/
structure Counted (s : Ptys) : Prop where
  num : ∀ i side, (s.pty i).num side = s.held i side
  registered : ∀ i, (s.pty i).registered = (s.pty i).used
  used : ∀ i, (s.pty i).used = true ↔ (s.pty i).masterOpen + (s.pty i).slaveOpen ≠ 0

lemma Counted.given (h : s.Counted) : s.Given := by
  have hopen : ∀ i, (s.pty i).used = true ↔ s.Open i := fun i => by
    rw [h.used, Open, ← h.num, ← h.num, Pty.num, Pty.num]
  refine ⟨fun i => ⟨hopen i, h.registered i⟩, fun hk hnone i hi => (hopen i).1 ?_⟩
  rw [openMaster] at hnone
  split at hnone
  · rename_i j _ hfind
    have hu := List.find?_some hfind
    rw [if_neg (by rw [h.registered j]; simpa using hu)] at hnone
    cases hnone
  rename_i hno
  obtain ⟨k, hk⟩ := Option.ne_none_iff_exists'.1 hk
  by_contra hu
  cases hj : (List.range ptyMax).find? fun i => !(s.pty i).used with
  | none => exact absurd (List.find?_eq_none.1 hj i (List.mem_range.2 hi)) (by simpa using hu)
  | some j => exact hno k j hk hj

lemma Counted.put (h : s.Counted) (hold : (s.file k).refs ≠ 0 → (s.file k).pair = f.pair)
    (hnum : ∀ side, p.num side + (s.file k).on f.pair side = (s.pty f.pair).num side +
    f.on f.pair side)
    (hreg : p.registered = p.used) (hused : p.used = true ↔ p.masterOpen + p.slaveOpen ≠ 0) :
    (s.put k f p).Counted := by
  have hself : (s.put k f p).pty f.pair = p := update_self ..
  have hother : ∀ i, i ≠ f.pair → (s.put k f p).pty i = s.pty i := fun i hi => update_of_ne hi ..
  have hheld : ∀ i side, (s.put k f p).held i side + (s.file k).on i side = s.held i side +
      f.on i side :=
    fun i side => Tally.tally_update (File.on i side) s.file k.2 f
  refine ⟨fun i side => ?_, fun i => ?_, fun i => ?_⟩ <;>
    rcases eq_or_ne i f.pair with rfl | hi <;> first | rw [hself] | rw [hother i hi]
  · have := hheld f.pair side
    have := hnum side
    have := h.num f.pair side
    omega
  · have := hheld i side
    have hon : f.on i side = 0 := if_neg fun hc => hi hc.1.symm
    have hon' : (s.file k).on i side = 0 := if_neg fun hc => hi (hc.1.symm.trans (hold hc.2.2))
    rw [h.num]
    omega
  · exact hreg
  · exact h.registered i
  · exact hused
  · exact h.used i

lemma Counted.share {n m : Nat} (h : s.Counted) (hk : s.file k = ⟨i, side, n + 1⟩) :
    (s.put k ⟨i, side, m + 1⟩ (s.pty i)).Counted :=
  h.put (by simp [hk]) (by simp [hk, File.on]) (h.registered i) (h.used i)

lemma Counted.close (h : s.Counted) (hk : s.file k = ⟨i, side, 1⟩) (ho : s.orderly (.close k)) :
    (s.put k ⟨i, side, 0⟩ ((s.pty i).close side)).Counted := by
  have hle : 1 ≤ (s.pty i).num side := by
    rw [h.num]
    exact (by simp [hk, File.on] : 1 ≤ (s.file k).on i side).trans (Tally.le_tally _ _ k.2)
  have hu : (s.pty i).used = true := (h.used i).2
    (by cases side <;> simp only [Pty.num] at hle <;> omega)
  cases side with
  | master =>
    simp only [Pty.num, Pty.close] at hle ⊢
    split
    · refine h.put (by simp [hk]) (fun side => ?_) rfl (by decide)
      cases side <;> simp [Pty.num, hk, File.on] <;> omega
    refine h.put (by simp [hk]) (fun side => ?_) (h.registered i)
      (iff_of_true hu (by simp only; omega))
    cases side <;> simp [Pty.num, hk, File.on]
    omega
  | slave =>
    have ho : (s.pty i).slaveOpen ≠ 1 ∨ (s.pty i).masterOpen ≠ 0 := by
      simpa [orderly, hk, ← h.num, Pty.num] using ho
    simp only [Pty.num, Pty.close] at hle ⊢
    refine h.put (by simp [hk]) (fun side => ?_) (h.registered i)
      (iff_of_true hu (by simp only; omega))
    cases side <;> simp [Pty.num, hk, File.on]
    omega

lemma Counted.step (h : s.Counted) {e : Event} (ho : s.orderly e) : (s.step e).Counted := by
  have halloc : ∀ {k}, s.fileAlloc = some k → (s.file k).refs = 0 :=
    fun hk => by simpa using List.find?_some hk
  cases e with
  | openMaster =>
    rw [Ptys.step, openMaster]
    split
    · rename_i i hk hfind
      have hu : (s.pty i).used = false := by simpa using List.find?_some hfind
      rw [if_neg (by rw [h.registered, hu]; nofun)]
      have hzero : (s.pty i).masterOpen = 0 ∧ (s.pty i).slaveOpen = 0 := by
        simpa [hu] using h.used i
      refine h.put (fun hr => absurd (halloc hk) hr) (fun side => ?_) rfl (by decide)
      cases side <;> simp [Pty.num, File.on, halloc hk, hzero]
    · exact h
  | openSlave i =>
    rw [Ptys.step, openSlave]
    split
    · rename_i hk
      split
      · rename_i hreg
        rw [h.registered] at hreg
        rw [if_pos hreg]
        refine h.put (fun hr => absurd (halloc hk) hr) (fun side => ?_) (h.registered i)
          (by simp [hreg])
        cases side <;> simp [Pty.num, File.on, halloc hk]
      · exact h
    · exact h
  | dup k =>
    rw [Ptys.step]
    split
    · exact h
    · exact h.share ‹_›
  | close k =>
    rw [Ptys.step]
    split
    · exact h
    · exact h.close ‹_› ho
    · exact h.share ‹_›

/-- **Pairs are in use exactly while they are open** when no slave outlives its master. -/
theorem given_of_orderly (evs : List Event) (h : Runs.Every step (orderly · ·) evs {}) :
    (evs.foldl step {}).Given := by
  have hzero : ({} : Ptys).Counted :=
    ⟨fun i side => by cases side <;> simp [held, Tally.tally_const, File.on, Pty.num], fun _ => rfl, fun _ => by simp⟩
  exact (Runs.induction_on (fun s e hs ho => hs.step ho) evs hzero h).given

/-- Two sessions, one with two slaves. -/
theorem given_of_orderly_sessions :
    ([.openMaster, .openSlave 0, .dup 1, .openMaster, .openSlave 0, .close 1, .close 1, .close 3,
    .close 0].foldl
      step {}).Given :=
  given_of_orderly _ (by decide +kernel)

/-- Eight sessions whose masters were closed first: nothing is open, and there is no pair left. -/
theorem hung_up :
    let s := ((List.finRange 8).flatMap fun i =>
      [Event.openMaster, .openSlave i, .close 0, .close 1]).foldl step {}
    (∀ k : Fin fileMax, (s.file k).refs = 0) ∧ (∀ i < 8, (s.pty i).used ∧ (s.pty i).registered) ∧
      s.openMaster.2 = none := by
  decide +kernel

end Ptys

end Sage040.PtyPair
