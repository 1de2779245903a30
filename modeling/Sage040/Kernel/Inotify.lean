import Sage040.Lib.Runs

/-!
# The queue of an inotify

`iq_put` and `in_read` of `kernel/events.c`. The page is the list of the records in it, and `n` and
`last` count bytes of it as the source does. The mark of an overflow is queued once, until the queue
has been emptied: after a read that takes the mark and leaves something behind it, events are
dropped and nothing tells of it (`dropped_unmarked`).
-/

namespace Sage040.Inotify

open List

/-- `struct inotify_event`, with the name behind it. -/
structure Record where
  wd : BitVec 32
  mask : BitVec 32
  cookie : BitVec 32
  name : List UInt8
  deriving DecidableEq

namespace Record

/-- The name with its terminator, filled up to a multiple of 16. -/
def len (e : Record) : Nat := if e.name = [] then 0 else (e.name.length + 1 + 15) / 16 * 16

/-- The size of a record with its name. -/
def size (e : Record) : Nat := 16 + e.len

end Record

/-- `IN_Q_OVERFLOW`. -/
def overflow : Record := ⟨-1, 0x4000, 0, []⟩

/-- `struct inotify`. -/
structure Queue where
  q : List Record
  n : Nat
  last : Nat
  overflowed : Bool

/-- What becomes of an event. -/
inductive Fate
  | merged
  /-- Dropped, and the mark of it queued. -/
  | marked
  | dropped
  | queued
  deriving DecidableEq

/-- The record at an offset of the page. -/
def recordAt : List Record → Nat → Option Record
  | [], _ => none
  | e :: q, k => if k = 0 then some e else recordAt q (k - e.size)

/-- The size of all of them. -/
def total (q : List Record) : Nat := (q.map Record.size).sum

namespace Queue

variable (i : Queue) (e : Record)

/-- The record is put at the end. -/
def add : Queue := { i with q := i.q ++ [e], n := i.n + e.size, last := i.n }

/-- `iq_put`. -/
def iqPut : Queue × Fate :=
  if i.n ≠ 0 ∧ recordAt i.q i.last = some e then (i, .merged)
  else if 4096 - 16 < i.n + e.size then
    if i.overflowed then (i, .dropped) else ({ i.add overflow with overflowed := true }, .marked)
  else (i.add e, .queued)

/-- The records that `len` bytes have room for. -/
def whole (len : Nat) : Nat → List Record → List Record
  | _, [] => []
  | done, e :: q => if len < done + e.size then [] else e :: whole len (done + e.size) q

/-- `in_read`: nothing is taken while there is nothing, or not even the first one fits. -/
def inRead (len : Nat) : List Record × Queue :=
  let out := whole len 0 i.q
  let done := total out
  if done = 0 then ([], i)
  else (out, { q := i.q.drop out.length, n := i.n - done, last :=
    if done ≤ i.last then i.last - done else 0,
               overflowed := i.overflowed && i.n - done ≠ 0 })

/-- The counts are those of the records, and there is always room for the mark. -/
structure Inv : Prop where
  n_eq : i.n = total i.q
  last_eq : ∀ q e, i.q = q ++ [e] → i.last = total q
  room : i.n ≤ if i.overflowed then 4096 else 4080

variable {i e}

lemma total_append (q q' : List Record) : total (q ++ q') = total q + total q' := by simp [total]

lemma total_cons (q : List Record) : total (e :: q) = 16 + e.len + total q := by
  simp [total, Record.size]

lemma recordAt_total (q : List Record) : recordAt (q ++ [e]) (total q) = some e := by
  induction q with
  | nil => rfl
  | cons a q ih =>
    rw [cons_append, recordAt, total_cons, if_neg (by omega), Record.size,
      Nat.add_sub_cancel_left, ih]

lemma iqPut_cases (i : Queue) (e) : i.iqPut e = (i, .merged) ∧ i.n ≠ 0 ∧
    recordAt i.q i.last = some e ∨
    i.iqPut e = (i, .dropped) ∧ i.overflowed = true ∨
    i.iqPut e = ({ i.add overflow with overflowed := true }, .marked) ∧ i.overflowed = false ∨
    i.iqPut e = (i.add e, .queued) ∧ i.n + e.size ≤ 4080 := by
  rw [iqPut]
  split_ifs with hsame hroom ho
  · exact .inl ⟨rfl, hsame⟩
  · exact .inr (.inl ⟨rfl, ho⟩)
  · exact .inr (.inr (.inl ⟨rfl, Bool.not_eq_true _ ▸ ho⟩))
  · exact .inr (.inr (.inr ⟨rfl, Nat.le_of_not_lt hroom⟩))

lemma Inv.add (h : i.Inv) (o : Bool) (hroom : i.n + e.size ≤ if o then 4096 else 4080) :
    ({ i.add e with overflowed := o } : Queue).Inv where
  n_eq := by simp [Queue.add, h.n_eq, total]
  last_eq q e' hq := by
    rw [Queue.add, (append_inj' hq rfl).1.symm, ← h.n_eq]
  room := hroom

lemma Inv.iqPut (h : i.Inv) (e) : (i.iqPut e).1.Inv := by
  obtain ⟨heq, -⟩ | ⟨heq, -⟩ | ⟨heq, ho⟩ | ⟨heq, hroom⟩ := iqPut_cases i e <;> rw [heq]
  · exact h
  · exact h
  · have hroom := h.room
    rw [ho] at hroom
    exact h.add true (Nat.add_le_add_right hroom 16)
  · refine h.add _ (hroom.trans ?_)
    split <;> decide

lemma whole_isPrefix (len done : Nat) (q : List Record) : whole len done q <+: q := by
  induction q generalizing done with
  | nil => exact nil_prefix
  | cons e q ih =>
    rw [whole]
    split
    · exact nil_prefix
    · exact prefix_cons_inj e |>.2 (ih _)

/-- What a read takes with the mark is at least what is before it, and the mark. -/
lemma le_of_mem_whole {len : Nat} {q : List Record} (done : Nat) (h : overflow ∈ whole len done q) :
    done + (total (q.takeWhile fun e => e != overflow) + overflow.size) ≤ len := by
  induction q generalizing done with
  | nil => cases h
  | cons e q ih =>
    rw [whole] at h
    split at h
    · cases h
    rename_i hfits
    by_cases he : e = overflow
    · subst he
      simp only [takeWhile_cons, bne_self_eq_false, Bool.false_eq_true, if_false]
      rw [total, map_nil, sum_nil]
      omega
    · rw [takeWhile_cons, if_pos (bne_iff_ne.2 he), total_cons]
      have hq := ih _ ((mem_cons.1 h).resolve_left (Ne.symm he))
      rw [Record.size] at hq
      omega

/-- With room for all of them all are taken. -/
lemma whole_of_le {len : Nat} {q : List Record} (done : Nat) (h : done + total q ≤ len) :
    whole len done q = q := by
  induction q generalizing done with
  | nil => rfl
  | cons e q ih =>
    rw [total_cons, ← Record.size] at h
    rw [whole, if_neg (by omega), ih _ (by omega)]

lemma Inv.inRead (h : i.Inv) (len) : (i.inRead len).2.Inv ∧
    (i.inRead len).1 ++ (i.inRead len).2.q = i.q ∧
    ((i.inRead len).2.overflowed = true → i.overflowed = true ∧
    ((i.inRead len).1 = [] ∨ (i.inRead len).2.q ≠ [])) := by
  rw [Queue.inRead]
  split
  · exact ⟨h, rfl, fun ho => ⟨ho, .inl rfl⟩⟩
  have hq := prefix_iff_eq_append.1 (whole_isPrefix len 0 i.q)
  generalize whole len 0 i.q = out at hq ⊢
  have hn : i.n - total out = total (i.q.drop out.length) := by
    rw [h.n_eq, ← congrArg total hq, total_append, Nat.add_sub_cancel_left]
  refine ⟨⟨hn, fun q e heq => ?_, ?_⟩, hq, fun ho => ?_⟩
  · have hlast := h.last_eq (out ++ q) e (by rw [append_assoc, ← heq, hq])
    rw [total_append] at hlast
    exact (if_pos (by omega)).trans (by omega)
  · have hroom := h.room
    cases ho : i.overflowed <;> simp [ho] at hroom ⊢
    · omega
    · split <;> omega
  · simp only [Bool.and_eq_true, decide_eq_true_eq] at ho
    exact ⟨ho.1, .inr fun hnil => ho.2 (hn.trans (congrArg total hnil))⟩

lemma mem_whole_of_inRead {len : Nat} (h : e ∈ (i.inRead len).1) : e ∈ whole len 0 i.q := by
  rw [Queue.inRead] at h
  split at h
  · cases h
  · exact h

lemma inRead_of_le {len : Nat} (h : total i.q ≤ len) : (i.inRead len).2.q = [] := by
  rw [Queue.inRead, whole_of_le 0 (by omega)]
  split
  · rename_i hzero
    cases hq : i.q with
    | nil => rfl
    | cons e q =>
      rw [hq, total_cons] at hzero
      omega
  · exact drop_length

end Queue

/-! ## Runs -/

/-- An inotify, with all the records it has queued and all that reads were given. -/
structure Watch where
  i : Queue
  put : List Record
  got : List Record

/-- An event arrives, or the queue is read. -/
inductive Act
  | put (e : Record)
  | read (len : Nat)

namespace Watch

variable (s : Watch)

/-- What an event leaves in the queue. -/
def left (e : Record) : Fate → List Record
  | .queued => [e]
  | .marked => [overflow]
  | _ => []

/-- One event or one read, with what was put and read so far. -/
def step : Act → Watch
  | .put e => { s with i := (s.i.iqPut e).1, put := s.put ++ left e (s.i.iqPut e).2 }
  | .read len => { s with i := (s.i.inRead len).2, got := s.got ++ (s.i.inRead len).1 }

/-- An event that was merged is the last one, which is unread, over again; of one that was dropped
an unread mark tells. -/
def Told : Act → Prop
  | .put e => ((s.i.iqPut e).2 = .merged → s.i.q.getLast? = some e) ∧
    ((s.i.iqPut e).2 = .marked ∨ (s.i.iqPut e).2 = .dropped → overflow ∈ (s.i.iqPut e).1.q)
  | .read _ => True

/-- A read of a queue with the mark in it is too short for the mark, or long enough for all there
is. -/
def Emptied : Act → Prop
  | .put _ => True
  | .read len => overflow ∈ s.i.q →
    len < total (s.i.q.takeWhile fun e => e != overflow) + overflow.size ∨ s.i.n ≤ len

instance (a : Act) : Decidable (s.Emptied a) := by
  cases a <;> unfold Emptied <;> infer_instance

/-- Nothing has happened yet. -/
def fresh : Watch := ⟨⟨[], 0, 0, false⟩, [], []⟩

/-- Every record is unread or was read once, in the order they were queued. -/
structure Kept : Prop where
  inv : s.i.Inv
  order : s.got ++ s.i.q = s.put

variable {s}

lemma Kept.step (h : s.Kept) (a : Act) : (s.step a).Kept := by
  cases a with
  | put e =>
    refine ⟨h.inv.iqPut e, ?_⟩
    have horder := h.order
    obtain ⟨heq, -⟩ | ⟨heq, -⟩ | ⟨heq, -⟩ | ⟨heq, -⟩ := s.i.iqPut_cases e <;>
      simp [Watch.step, heq, left, Queue.add, ← horder]
  | read len =>
    obtain ⟨hinv, hq, -⟩ := h.inv.inRead len
    exact ⟨hinv, by rw [Watch.step, append_assoc, hq, h.order]⟩

/-- The flag stands for a mark that was not read. -/
def Marked (s : Watch) : Prop := s.Kept ∧ (s.i.overflowed = true → overflow ∈ s.i.q)

lemma Marked.told (h : s.Marked) (a : Act) : s.Told a := by
  cases a with
  | put e =>
    obtain ⟨heq, hn, hlast⟩ | ⟨heq, ho⟩ | ⟨heq, -⟩ | ⟨heq, -⟩ :=
      s.i.iqPut_cases e <;> rw [Told, heq]
    · refine ⟨fun _ => ?_, fun h => by simp at h⟩
      obtain hq | ⟨q, e', hq⟩ := eq_nil_or_concat' s.i.q
      · exact absurd (by rw [h.1.inv.n_eq, hq]; rfl) hn
      · rw [h.1.inv.last_eq q e' hq, hq, Queue.recordAt_total] at hlast
        rw [hq, getLast?_concat, hlast]
    · exact ⟨nofun, fun _ => h.2 ho⟩
    · exact ⟨nofun, fun _ => mem_concat_self⟩
    · exact ⟨nofun, fun h => by simp at h⟩
  | read len => trivial

lemma Marked.step (h : s.Marked) (a : Act) (ha : s.Emptied a) : (s.step a).Marked := by
  refine ⟨h.1.step a, ?_⟩
  cases a with
  | put e =>
    obtain ⟨heq, -⟩ | ⟨heq, ho⟩ | ⟨heq, -⟩ | ⟨heq, -⟩ :=
      s.i.iqPut_cases e <;> simp only [Watch.step, heq]
    · exact h.2
    · exact h.2
    · simp [Queue.add]
    · exact fun ho => mem_append_left _ (h.2 ho)
  | read len =>
    obtain ⟨-, hq, hover⟩ := h.1.inv.inRead len
    intro ho
    obtain ⟨ho, hleft⟩ := hover ho
    have hmem := h.2 ho
    rw [← hq] at hmem
    refine (mem_append.1 hmem).resolve_left fun hout => ?_
    obtain hnil | hne := hleft
    · rw [hnil] at hout
      cases hout
    obtain hshort | hlong := ha (h.2 ho)
    · have hle := Queue.le_of_mem_whole 0 (Queue.mem_whole_of_inRead hout)
      omega
    · rw [h.1.inv.n_eq] at hlong
      exact hne (Queue.inRead_of_le hlong)

lemma fresh_marked : fresh.Marked := ⟨⟨⟨rfl, fun q e h => by simp [fresh] at h, by decide⟩, rfl⟩,
    nofun⟩

/-- **No event is lost in silence**, in a run in which a read with room for the mark has room for
all there is. In every run what was
read and what is queued are the records in their order, and they fit in the page. -/
theorem no_silent_loss (acts : List Act) :
    ((acts.foldl step fresh).got ++ (acts.foldl step fresh).i.q = (acts.foldl step fresh).put ∧
      (acts.foldl step fresh).i.n ≤ 4096) ∧
    (Runs.Every step Emptied acts fresh → Runs.Every step Told acts fresh) := by
  refine ⟨?_, Runs.every_of_invariant (fun s a h ha => ⟨h.step a ha, h.told a⟩) acts fresh_marked⟩
  have hkept : (acts.foldl step fresh).Kept :=
    foldlRecOn acts step fresh_marked.1 fun _ h a _ => h.step a
  refine ⟨hkept.order, hkept.inv.room.trans ?_⟩
  split <;> decide

/-- An event with a name of 255 bytes; the cookie tells them apart. -/
def big (cookie : Nat) : Act := .put ⟨1, 2, .ofNat 32 cookie, replicate 255 97⟩

/-- An event without a name. -/
def small : Act := .put ⟨1, 2, 0, []⟩

/-- The page is filled, an event is dropped and marked, a read of a page takes all, and the next one
is queued. -/
theorem no_silent_loss_page :
    let acts := (range 16).map big ++ [.read 4096, big 16]
    Runs.Every step Emptied acts fresh ∧ overflow ∈ (acts.foldl step fresh).got ∧
        Runs.Every step Told acts fresh := by
  have h : Runs.Every step Emptied ((range 16).map big ++ [.read 4096, big 16]) fresh := by
    decide +kernel
  exact ⟨h, by decide +kernel, (no_silent_loss _).2 h⟩

/-- The mark is read, what came after it is not, and the next event that finds no room is dropped
without one. -/
theorem dropped_unmarked : ¬ Told
    (([small] ++ (range 15).map big ++ [small, .read 3840] ++ (range 14).map big).foldl step fresh)
    (big 14) :=
  fun h => absurd (h.2 (.inr (by decide +kernel))) (by decide +kernel)

end Watch

end Sage040.Inotify
