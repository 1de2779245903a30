import Sage040.Lib.RingBuffer
import Sage040.Lib.Runs

/-!
# What a pty's slave writes

`pty_slave_write` and `pty_master_read` of `kernel/pty.c`, and the ring between them, while the
terminal does not echo. `ring_put` drops what does not fit, and the write says all the same that it
has written everything (`overflow`). So what comes out of the master is what the writes have
reported exactly as long as every one of them fits (`came_iff`).
-/

namespace Sage040.Pty

open List RingBuffer UInt32

def ptyBuf : Nat := 2048

/-- `struct ptyring`. The head and the tail count bytes, and wrap around. -/
structure PtyRing where
  buf : Nat → UInt8
  head : UInt32
  tail : UInt32

namespace PtyRing

variable {r : PtyRing}

def ringUsed (r : PtyRing) : Nat := (r.head - r.tail).toNat

def ringFull (r : PtyRing) : Bool := ptyBuf ≤ r.ringUsed

def ringPut (r : PtyRing) (c : UInt8) : PtyRing :=
  if r.ringFull then r
  else { r with buf := Function.update r.buf (r.head.toNat % ptyBuf) c, head := r.head + 1 }

def ringGet (r : PtyRing) : Option (UInt8 × PtyRing) :=
  if r.head = r.tail then none else some (r.buf (r.tail.toNat % ptyBuf),
    { r with tail := r.tail + 1 })

/-- One byte of `pty_slave_write`: with `ONLCR`, a newline has a carriage return before it. -/
def slavePut (onlcr : Bool) (r : PtyRing) (c : UInt8) : PtyRing :=
  (if c = 10 ∧ onlcr = true then r.ringPut 13 else r).ringPut c

/-- `pty_slave_write`, with what it returns. -/
def slaveWrite (onlcr : Bool) (r : PtyRing) (data : List UInt8) : PtyRing × Nat :=
  (data.foldl (slavePut onlcr) r, data.length)

/-- The loop of `pty_master_read`. Where there is nothing, the call fails or sleeps before it gets
here. -/
def masterRead : Nat → PtyRing → List UInt8 × PtyRing
  | 0, r => ([], r)
  | len + 1, r =>
    match r.ringGet with
    | none => ([], r)
    | some (c, r') => (c :: (masterRead len r').1, (masterRead len r').2)

/-- The ring as a head and a count. -/
def toRing (r : PtyRing) : RingBuffer UInt8 := ⟨r.buf, r.tail.toNat % ptyBuf, r.ringUsed⟩

def held (r : PtyRing) : List UInt8 := r.toRing.contents ptyBuf

lemma length_held (r : PtyRing) : r.held.length = r.ringUsed := length_contents ..

lemma toRing_ringPut (h : r.ringUsed < ptyBuf) (c : UInt8) :
    (r.ringPut c).toRing = r.toRing.push ptyBuf c := by
  have hlt := r.head.toNat_lt
  have htl := r.tail.toNat_lt
  rw [ringPut, ringFull, if_neg (by simpa using h)]
  simp only [toRing, RingBuffer.push, RingBuffer.mk.injEq, true_and]
  rw [ringUsed, ptyBuf, UInt32.toNat_sub] at *
  refine ⟨?_, ?_⟩
  · congr 1
    omega
  rw [ringUsed, UInt32.toNat_sub, UInt32.toNat_add]
  simp only [UInt32.toNat_one]
  omega

lemma toRing_ringGet {c : UInt8} {r'} (h : r.ringGet = some (c, r')) :
    r'.toRing = r.toRing.advance ptyBuf 1 ∧ r.held = c :: r'.held := by
  have hlt := r.head.toNat_lt
  have htl := r.tail.toNat_lt
  rw [ringGet] at h
  split at h
  · cases h
  rename_i hne
  cases h
  have hne' : r.head.toNat ≠ r.tail.toNat := fun heq => hne (UInt32.toNat_inj.1 heq)
  have hpos : 0 < r.ringUsed := by
    rw [ringUsed, UInt32.toNat_sub]
    omega
  have hadv : ({ r with tail := r.tail + 1 } : PtyRing).toRing = r.toRing.advance ptyBuf 1 := by
    simp only [toRing, RingBuffer.advance, RingBuffer.mk.injEq, true_and, ringUsed, ptyBuf,
      UInt32.toNat_sub,
      UInt32.toNat_add, UInt32.toNat_one]
    omega
  refine ⟨hadv, ?_⟩
  rw [held, held, hadv, RingBuffer.contents_advance]
  have hhead : (r.toRing.contents ptyBuf).head? = some (r.buf (r.tail.toNat % ptyBuf)) := by
    obtain ⟨n, hn⟩ := Nat.exists_eq_add_of_lt hpos
    rw [RingBuffer.contents, toRing, hn, Nat.zero_add, range_succ_eq_map]
    simp
  obtain ⟨tl, htl'⟩ := head?_eq_some_iff.1 hhead
  rw [htl', drop_one, tail_cons]

lemma held_foldl_ringPut (cs : List UInt8) (hok : r.ringUsed ≤ ptyBuf) :
    (cs.foldl ringPut r).ringUsed ≤ ptyBuf ∧ (cs.foldl ringPut r).held = r.held ++
    cs.take (ptyBuf - r.ringUsed) := by
  induction cs generalizing r with
  | nil => exact ⟨hok, by rw [take_nil, append_nil]; rfl⟩
  | cons c cs ih =>
    rw [foldl_cons]
    by_cases hfull : r.ringUsed < ptyBuf
    · have hring := toRing_ringPut hfull c
      have hused : (r.ringPut c).ringUsed = r.ringUsed + 1 := congrArg count hring
      obtain ⟨hok', hheld⟩ := ih (r := r.ringPut c) (hused.trans_le hfull)
      refine ⟨hok', ?_⟩
      obtain ⟨n, hn⟩ : ∃ n, ptyBuf - r.ringUsed = n + 1 := ⟨ptyBuf - r.ringUsed - 1, by omega⟩
      rw [hheld, hused, hn, take_succ_cons, show ptyBuf - (r.ringUsed + 1) =
        n by omega, held, hring,
        contents_push hfull, append_assoc]
      rfl
    · have hsame : r.ringPut c = r := if_pos (decide_eq_true (Nat.le_of_not_lt hfull))
      have hnone : ptyBuf - r.ringUsed = 0 := by omega
      have hrest := ih hok
      rw [hsame, hnone] at *
      exact hrest

lemma held_masterRead (len : Nat) (hok : r.ringUsed ≤ ptyBuf) :
    (masterRead len r).2.ringUsed ≤ ptyBuf ∧ r.held = (masterRead len r).1 ++
    (masterRead len r).2.held := by
  induction len generalizing r with
  | zero => exact ⟨hok, rfl⟩
  | succ len ih =>
    rw [masterRead]
    split
    · exact ⟨hok, rfl⟩
    rename_i r' hget
    obtain ⟨hring, hheld⟩ := toRing_ringGet hget
    have hused : r'.ringUsed = r.ringUsed - 1 := congrArg count hring
    obtain ⟨hok', hrest⟩ := ih (r := r') (hused.trans_le ((Nat.sub_le _ _).trans hok))
    refine ⟨hok', ?_⟩
    rw [hheld, cons_append, ← hrest]

end PtyRing

/-- The output transformation of a list of bytes. -/
def opost (onlcr : Bool) (data : List UInt8) : List UInt8 :=
  data.flatMap fun c => if c = 10 ∧ onlcr = true then [13, c] else [c]

lemma slaveWrite_eq (onlcr : Bool) (r) (data : List UInt8) :
    (r.slaveWrite onlcr data).1 = (opost onlcr data).foldl PtyRing.ringPut r := by
  have hput : PtyRing.slavePut onlcr =
      fun r c => (if c = 10 ∧ onlcr = true then [13, c] else [c]).foldl PtyRing.ringPut r := by
    funext r c
    rw [PtyRing.slavePut]
    split <;> rfl
  rw [opost, foldl_flatMap, PtyRing.slaveWrite, hput]

/-! ## Runs -/

/-- A terminal, with what the master has read so far, and what it should get for the bytes that the
writes have reported. -/
structure Line where
  ring : PtyRing
  onlcr : Bool
  read : List UInt8
  reported : List UInt8

inductive Event
  | write (data : List UInt8)
  | read (len : Nat)
  /-- Other settings. -/
  | tcsets (onlcr : Bool)

namespace Line

variable {s : Line}

def step (s : Line) : Event → Line
  | .write data =>
    let w := s.ring.slaveWrite s.onlcr data
    { s with ring := w.1, reported := s.reported ++ opost s.onlcr (data.take w.2) }
  | .read len =>
    let m := s.ring.masterRead len
    { s with ring := m.2, read := s.read ++ m.1 }
  | .tcsets onlcr => { s with onlcr := onlcr }

/-- What was read and what is held is what the writes have reported. -/
def Came (s : Line) : Prop := s.read ++ s.ring.held = s.reported

def Fits (s : Line) : Event → Prop
  | .write data => s.ring.ringUsed + (opost s.onlcr data).length ≤ ptyBuf
  | _ => True

instance (s : Line) : ∀ e, Decidable (s.Fits e)
  | .write _ => inferInstanceAs (Decidable (_ ≤ _))
  | .read _ | .tcsets _ => isTrue trivial

structure Fresh (s : Line) : Prop where
  ring : s.ring.head = s.ring.tail
  read : s.read = []
  reported : s.reported = []

lemma step_used (hok : s.ring.ringUsed ≤ ptyBuf) (e : Event) :
    (s.step e).ring.ringUsed ≤ ptyBuf := by
  cases e with
  | write data =>
    rw [step, slaveWrite_eq]
    exact (PtyRing.held_foldl_ringPut _ hok).1
  | read len => exact (PtyRing.held_masterRead len hok).1
  | tcsets onlcr => exact hok

/-- **One step**: a write that does not fit loses bytes, and nothing else does. -/
lemma Came.step_iff (h : s.Came) (hok : s.ring.ringUsed ≤ ptyBuf) (e : Event) : (s.step e).Came ↔
    s.Fits e := by
  cases e with
  | write data =>
    rw [Came, step, slaveWrite_eq, Fits]
    dsimp only [PtyRing.slaveWrite]
    rw [(PtyRing.held_foldl_ringPut _ hok).2, take_length, ← append_assoc, h, append_right_inj,
      take_eq_self_iff]
    omega
  | read len =>
    refine iff_of_true ?_ trivial
    rw [Came, step, append_assoc, ← (PtyRing.held_masterRead len hok).2]
    exact h
  | tcsets onlcr => exact iff_of_true h trivial

lemma Fresh.came (h : s.Fresh) : s.Came ∧ s.ring.ringUsed ≤ ptyBuf := by
  have hused : s.ring.ringUsed = 0 := by rw [PtyRing.ringUsed, h.ring, sub_self]; rfl
  refine ⟨?_, by omega⟩
  rw [Came, h.read, h.reported, nil_append]
  exact eq_nil_of_length_eq_zero ((PtyRing.length_held _).trans hused)

/-- **What is written to the slave comes out of the master**, in every state of a run, exactly if
every write of the run fits. -/
theorem came_iff (s : Line) (h : s.Fresh) (evs : List Event) :
    Runs.Every step (fun s e => (s.step e).Came) evs s ↔ Runs.Every step Fits evs s := by
  obtain ⟨hcame, hok⟩ := h.came
  clear h
  induction evs generalizing s with
  | nil => exact Iff.rfl
  | cons e evs ih =>
    rw [Runs.Every, Runs.Every, hcame.step_iff hok e]
    exact and_congr_right fun hfits => ih _ ((hcame.step_iff hok e).2 hfits) (step_used hok e)

def idleLine : Line := ⟨⟨fun _ => 0, 0, 0⟩, false, [], []⟩

lemma idleLine_fresh : idleLine.Fresh := ⟨rfl, rfl, rfl⟩

theorem came_iff_newline : Runs.Every step (fun s e => (s.step e).Came)
    [.tcsets true, .write [104, 105, 10], .read 2, .write [10], .read 9] idleLine :=
  (came_iff idleLine idleLine_fresh _).2 (by decide)

/-- A write of one byte more than the ring has room for: it reports all of them. -/
theorem overflow : (idleLine.ring.slaveWrite false (List.replicate 2049 97)).2 = 2049 ∧
    (idleLine.step (.write (List.replicate 2049 97))).ring.ringUsed ≤ 2048 ∧
    ¬ (idleLine.step (.write (List.replicate 2049 97))).Came := by
  obtain ⟨hcame, hok⟩ := idleLine_fresh.came
  refine ⟨length_replicate, step_used hok _, fun h => ?_⟩
  exact absurd ((hcame.step_iff hok _).1 h) (by decide +kernel)

end Line

end Sage040.Pty
