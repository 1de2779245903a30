import Sage040.Kernel.Pty

/-!
# Typing at a pty

`pty_input`, `line_ready` and `pty_slave_read` of `kernel/pty.c` in canonical mode, without the
echo. The line being typed is the end of the ring that holds the finished lines: an erase or a kill
finds where it begins by the newline before it, and takes an end-of-file mark for a part of it
(`erased_mark`); a ring that is full drops a newline too. While neither happens, what is read is the
text that the keys have edited (`edited_lines`).
-/

namespace Sage040.Pty

open List

/-- What of a `struct termios` matters here. A control character of 0 is off. -/
structure Termios where
  icrnl : Bool
  inlcr : Bool
  isig : Bool
  vintr : UInt8
  vquit : UInt8
  vsusp : UInt8
  verase : UInt8
  vkill : UInt8
  veof : UInt8

/-- What a byte is to `pty_input`. -/
inductive Key
  | signal
  | erase
  | kill
  | put (c : UInt8)
  deriving DecidableEq

def isChar (cc c : UInt8) : Bool := cc ≠ 0 && c = cc

namespace Termios

variable (tio : Termios)

def translate (c : UInt8) : UInt8 :=
  if tio.icrnl ∧ c = 13 then 10 else if tio.inlcr ∧ c = 10 then 13 else c

def key (c : UInt8) : Key :=
  let c := tio.translate c
  if tio.isig ∧ (isChar tio.vintr c ∨ isChar tio.vquit c ∨ isChar tio.vsusp c) then .signal
  else if isChar tio.verase c ∨ c = 8 then .erase
  else if isChar tio.vkill c then .kill
  else .put c

/-- A newline or an end-of-file mark. -/
def ends (c : UInt8) : Bool := c = 10 || isChar tio.veof c

end Termios

namespace PtyRing

variable (r : PtyRing)

def last : UInt8 := r.buf ((r.head - 1).toNat % ptyBuf)

def back : PtyRing := { r with head := r.head - 1 }

def killLoop : Nat → PtyRing → PtyRing
  | 0, r => r
  | n + 1, r => if r.head = r.tail ∨ r.last = 10 then r else killLoop n r.back

def ptyInput (tio : Termios) (c : UInt8) : PtyRing :=
  match tio.key c with
  | .signal => r
  | .erase => if r.head = r.tail ∨ r.last = 10 then r else r.back
  | .kill => killLoop r.ringUsed r
  | .put c => r.ringPut c

def lineReady (tio : Termios) : Bool := r.held.any tio.ends

/-- The loop of `pty_slave_read`. -/
def readLoop (tio : Termios) : Nat → PtyRing → List UInt8 × PtyRing
  | 0, r => ([], r)
  | len + 1, r =>
    match r.ringGet with
    | none => ([], r)
    | some (c, r') =>
      if isChar tio.veof c then ([], r')
      else if c = 10 then ([c], r')
      else (c :: (readLoop tio len r').1, (readLoop tio len r').2)

/-- `pty_slave_read`; where no line is ready it waits or fails. -/
def slaveRead (tio : Termios) (len : Nat) : List UInt8 × PtyRing :=
  if r.lineReady tio then readLoop tio len r else ([], r)

variable {r} {n : Nat} {x : UInt8} {e l line : List UInt8}

lemma held_back (hne : r.head ≠ r.tail) (hok : r.ringUsed ≤ ptyBuf) :
    r.back.ringUsed ≤ ptyBuf ∧ r.held = r.back.held ++ [r.last] := by
  have hlt := r.head.toNat_lt
  have htl := r.tail.toNat_lt
  have hne' : r.head.toNat ≠ r.tail.toNat := fun h => hne (UInt32.toNat_inj.1 h)
  have hused : r.ringUsed = r.back.ringUsed + 1 := by
    simp only [ringUsed, back, UInt32.toNat_sub, UInt32.toNat_one]
    omega
  refine ⟨by omega, ?_⟩
  simp only [held, RingBuffer.contents, toRing, hused, range_succ, map_append, map_singleton, last]
  congr 3
  simp only [ringUsed, back, ptyBuf, UInt32.toNat_sub, UInt32.toNat_one] at *
  omega

lemma held_nil (h : r.head = r.tail) : r.held = [] := by
  refine eq_nil_of_length_eq_zero ?_
  rw [length_held, ringUsed, h, UInt32.sub_self]
  rfl

lemma held_of_last (hok : r.ringUsed ≤ ptyBuf) (h : r.held = l ++ [x]) :
    r.head ≠ r.tail ∧ r.last = x ∧
    r.back.held = l ∧ r.back.ringUsed ≤ ptyBuf := by
  have hne : r.head ≠ r.tail := fun heq => by simp [held_nil heq] at h
  obtain ⟨hok', hheld⟩ := held_back hne hok
  obtain ⟨hl, hc⟩ := append_inj' (hheld.symm.trans h) rfl
  exact ⟨hne, (cons.inj hc).1, hl, hok'⟩

/-- Where the last byte is a newline, or there is none, nothing is erased. -/
lemma held_stop (hok : r.ringUsed ≤ ptyBuf) (h : r.held = e) (he : ∀ x ∈ e.getLast?, x = 10) :
    r.head = r.tail ∨ r.last = 10 := by
  obtain rfl | ⟨l, x, rfl⟩ := eq_nil_or_concat' e
  · refine .inl (by_contra fun hne => ?_)
    have := (held_back hne hok).2
    simp [h] at this
  · obtain ⟨-, hlast, -⟩ := held_of_last hok h
    exact .inr (hlast.trans (he x (by simp)))

lemma killLoop_held (hok : r.ringUsed ≤ ptyBuf) (h : r.held = e ++ line)
    (he : ∀ x ∈ e.getLast?, x = 10) (hline : ∀ c ∈ line, c ≠ 10) (hn : line.length ≤ n) :
    (killLoop n r).ringUsed ≤ ptyBuf ∧ (killLoop n r).held = e := by
  induction n generalizing r line with
  | zero =>
    rw [length_eq_zero_iff.1 (Nat.le_zero.1 hn), append_nil] at h
    exact ⟨hok, h⟩
  | succ n ih =>
    rw [killLoop]
    obtain rfl | ⟨l, c, rfl⟩ := eq_nil_or_concat' line
    · rw [append_nil] at h
      rw [if_pos (held_stop hok h he)]
      exact ⟨hok, h⟩
    · rw [← append_assoc] at h
      obtain ⟨hne, hlast, hheld, hok'⟩ := held_of_last hok h
      rw [if_neg (by simp [hne, hlast, hline])]
      exact ih hok' hheld (fun x hx => hline x (by simp [hx])) (by simpa using hn)

end PtyRing

/-- What of finished lines a read of `len` bytes takes: no more than the rest of the first one. -/
def cut (tio : Termios) : Nat → List UInt8 → List UInt8
  | len + 1, c :: l => if tio.ends c then [c] else c :: cut tio len l
  | _, _ => []

variable {tio : Termios} {e line : List UInt8}

lemma readLoop_cut (len : Nat) {r : PtyRing} (hok : r.ringUsed ≤ ptyBuf) (h : r.held = e ++ line)
    (he : e.any tio.ends = true) :
    (r.readLoop tio len).1 = (cut tio len e).filter (fun c => !isChar tio.veof c) ∧
      (r.readLoop tio len).2.ringUsed ≤ ptyBuf ∧ (r.readLoop tio len).2.held =
      e.drop (cut tio len e).length ++ line := by
  induction len generalizing r e with
  | zero => exact ⟨rfl, hok, h⟩
  | succ len ih =>
    cases e with
    | nil => cases he
    | cons a e =>
      rw [PtyRing.readLoop, cut]
      cases hget : r.ringGet with
      | none =>
        rw [PtyRing.ringGet, ite_eq_left_iff] at hget
        rw [PtyRing.held_nil (by_contra fun hne => by cases hget hne)] at h
        cases h
      | some p =>
        obtain ⟨c, r'⟩ := p
        obtain ⟨hring, hheld⟩ := PtyRing.toRing_ringGet hget
        obtain ⟨rfl, hheld'⟩ := cons.inj (h.symm.trans hheld)
        have hused : r'.ringUsed = r.ringUsed - 1 := congrArg RingBuffer.count hring
        have hok' : r'.ringUsed ≤ ptyBuf := by omega
        dsimp only
        split
        · rename_i heof
          rw [if_pos (by simp [Termios.ends, heof])]
          exact ⟨by simp [heof], hok', hheld'.symm⟩
        rename_i heof
        split
        · rename_i hnl
          rw [if_pos (by simp [Termios.ends, hnl])]
          exact ⟨by simp [heof], hok', hheld'.symm⟩
        rename_i hnl
        have hends : tio.ends a = false := by simp [Termios.ends, heof, hnl]
        obtain ⟨hout, hused', hheld''⟩ := ih hok' hheld'.symm (by simpa [hends] using he)
        rw [if_neg (by simp [hends])]
        exact ⟨by simp [hout, heof], hused', hheld''⟩

/-! ## Runs -/

/-- A terminal, with the text that was typed: the finished lines that were not read, and the line
being edited. -/
structure Typing where
  ring : PtyRing
  pending : List UInt8
  line : List UInt8

inductive Stroke
  | type (c : UInt8)
  | read (len : Nat)

namespace Typing

variable (tio : Termios) (s : Typing)

def edit : Key → List UInt8 × List UInt8
  | .signal => (s.pending, s.line)
  | .erase => (s.pending, s.line.dropLast)
  | .kill => (s.pending, [])
  | .put c => if tio.ends c then (s.pending ++ s.line ++ [c], []) else (s.pending, s.line ++ [c])

def step : Stroke → Typing
  | .type c => ⟨s.ring.ptyInput tio c, (s.edit tio (tio.key c)).1, (s.edit tio (tio.key c)).2⟩
  | .read len =>
    ⟨(s.ring.slaveRead tio len).2, s.pending.drop (cut tio len s.pending).length, s.line⟩

/-- There is room for the byte, and an erase or a kill comes to no end-of-file mark. -/
def Clean : Stroke → Prop
  | .type c => match tio.key c with
    | .signal => True
    | .erase => s.line = [] → ∀ x ∈ s.pending.getLast?, x = 10
    | .kill => ∀ x ∈ s.pending.getLast?, x = 10
    | .put _ => s.ring.ringUsed < ptyBuf
  | .read _ => True

/-- A read is given what it takes of the text, but for an end-of-file mark, and a newline makes a
line ready. -/
def Faithful : Stroke → Prop
  | .type c => tio.key c = .put 10 → (s.step tio (.type c)).ring.lineReady tio = true
  | .read len =>
    (s.ring.slaveRead tio len).1 = (cut tio len s.pending).filter fun c => !isChar tio.veof c

structure Inv : Prop where
  used : s.ring.ringUsed ≤ ptyBuf
  held : s.ring.held = s.pending ++ s.line
  pending : ∀ x ∈ s.pending.getLast?, tio.ends x = true
  line : ∀ c ∈ s.line, tio.ends c = false

variable {tio s}

lemma Inv.type (h : s.Inv tio) (c : UInt8) (hc : s.Clean tio (.type c)) :
    (s.step tio (.type c)).Inv tio := by
  obtain ⟨hok, hheld, hlast, hline⟩ := h
  have hne : ∀ x ∈ s.line, x ≠ 10 := fun x hx h => by simpa [h, Termios.ends] using hline x hx
  rw [step, PtyRing.ptyInput, Clean] at *
  cases hkey : tio.key c with
  | signal => exact ⟨hok, hheld, hlast, hline⟩
  | erase =>
    rw [hkey] at hc
    dsimp only [edit]
    obtain hnil | ⟨l, x, hl⟩ := eq_nil_or_concat' s.line
    · rw [hnil, append_nil] at hheld
      rw [if_pos (PtyRing.held_stop hok hheld (hc hnil)), hnil]
      exact ⟨hok, by simpa using hheld, hlast, by simp⟩
    · rw [hl] at hline hne ⊢
      rw [hl, ← append_assoc] at hheld
      obtain ⟨hpos, hx, hback, hok'⟩ := PtyRing.held_of_last hok hheld
      rw [if_neg (by simp [hpos, hx, hne]), dropLast_concat]
      exact ⟨hok', hback, hlast, fun c hc => hline c (mem_append_left _ hc)⟩
  | kill =>
    rw [hkey] at hc
    have hlen : s.line.length ≤ s.ring.ringUsed := by
      rw [← PtyRing.length_held, hheld, length_append]
      omega
    obtain ⟨hok', hheld'⟩ := PtyRing.killLoop_held hok hheld hc hne hlen
    exact ⟨hok', by simpa [edit] using hheld', hlast, by simp [edit]⟩
  | put c =>
    rw [hkey] at hc
    have hput := PtyRing.toRing_ringPut hc c
    have hused : (s.ring.ringPut c).ringUsed = s.ring.ringUsed + 1 := congrArg RingBuffer.count hput
    have hheld' : (s.ring.ringPut c).held = s.pending ++ s.line ++ [c] := by
      rw [PtyRing.held, hput, RingBuffer.contents_push hc, ← hheld]
      rfl
    dsimp only [edit]
    split
    · rename_i hends
      exact ⟨hused.trans_le hc, by simp [hheld'], by simp [hends], by simp⟩
    · rename_i hends
      refine ⟨hused.trans_le hc, by simp [hheld'], hlast, fun x hx => ?_⟩
      obtain hx | hx := mem_append.1 hx
      · exact hline x hx
      · rwa [mem_singleton.1 hx, ← Bool.not_eq_true]

lemma Inv.read (h : s.Inv tio) (len : Nat) : (s.step tio (.read len)).Inv tio ∧
    s.Faithful tio (.read len) := by
  have hnone : s.line.any tio.ends = false := by simpa using h.line
  have hdrop : ∀ n, ∀ x ∈ (s.pending.drop n).getLast?, tio.ends x = true := by
    intro n x hx
    rw [getLast?_drop] at hx
    split at hx
    · cases hx
    · exact h.pending x hx
  have hready : s.ring.lineReady tio = s.pending.any tio.ends := by
    rw [PtyRing.lineReady, h.held, any_append, hnone, Bool.or_false]
  rw [Faithful, step, PtyRing.slaveRead, hready]
  split
  · rename_i hany
    obtain ⟨hout, hok, hheld⟩ := readLoop_cut len h.used h.held hany
    exact ⟨⟨hok, hheld, hdrop _, h.line⟩, hout⟩
  · rename_i hany
    obtain hnil | ⟨l, x, hl⟩ := eq_nil_or_concat' s.pending
    · simp only [hnil, cut, drop_nil]
      exact ⟨⟨h.used, hnil ▸ h.held, nofun, h.line⟩, rfl⟩
    · exact absurd (by simp [hl, h.pending x]) hany

lemma Inv.newline (h : (s.step tio (.type c)).Inv tio) : s.Faithful tio (.type c) := by
  intro hkey
  rw [PtyRing.lineReady, h.held, step, hkey, edit, if_pos (by simp [Termios.ends])]
  simp [Termios.ends]

def fresh : Typing := ⟨⟨fun _ => 0, 0, 0⟩, [], []⟩

lemma fresh_inv : fresh.Inv tio := ⟨by decide, rfl, nofun, nofun⟩

/-- **A pty in canonical mode delivers edited lines**, while there is room and no end-of-file mark
is erased. -/
theorem edited_lines (tio : Termios) (strokes : List Stroke)
    (h : Runs.Every (step tio) (Clean tio) strokes fresh) :
    Runs.Every (step tio) (Faithful tio) strokes fresh := by
  refine Runs.every_of_invariant (I := Inv tio) (fun s a hs ha => ?_) strokes fresh_inv h
  cases a with
  | type c => exact ⟨hs.type c ha, (hs.type c ha).newline⟩
  | read len => exact hs.read len

/-- Ctrl-D ends a file, and DEL erases. -/
def usual : Termios := ⟨true, false, true, 3, 28, 26, 127, 21, 4⟩

theorem edited_lines_erase : Runs.Every (step usual) (Clean usual)
    [.type 97, .type 127, .type 10, .read 9] fresh ∧
    Runs.Every (step usual) (Faithful usual) [.type 97, .type 127, .type 10, .read 9] fresh :=
  have h := ⟨(by decide : 0 < ptyBuf), nofun, (by decide : 0 < ptyBuf), trivial, trivial⟩
  ⟨h, edited_lines _ _ h⟩

/-- The erase takes the mark that has ended the line, and the line is not there to be read. -/
theorem erased_mark : ¬ Faithful usual ([.type 97, .type 4, .type 127].foldl (step usual) fresh)
    (.read 9) := by
  unfold Faithful
  decide

end Typing

end Sage040.Pty
