import Sage040.Kernel.Pipe.Ring
import Sage040.Lib.Runs

/-!
# Small writes

`write` of a program comes to the ring through `rw_user`, which hands over the buffer one page at a
time. The ring puts what it is given whole or not at all, as long as that is no more than `PIPE_BUF`
bytes, so a small write whose buffer is in one page is atomic: `run_atomic`. A small write that
straddles two pages comes to the ring as two, and `straddle_mixed` is what can then happen: somebody
else's bytes between them, or a count that is neither all nor nothing.
-/

namespace Sage040.Pipe

open List Prod

def pageSize : Nat := 4096

/-- `chunk_len`: what is left of a page. -/
def chunkLen (uva len : Nat) : Nat := min len (pageSize - uva % pageSize)

/-- A `write` of a program: its buffer, which of its addresses can be read, and how its file is
open. -/
structure UserWrite where
  ubuf : Nat
  len : Nat
  data : Nat → UInt8
  readable : Nat → Bool
  how : How

/-- Where a `write` is: in `ring_write`, at byte `done` of the chunk that starts at byte `total`, or
back with its answer. -/
inductive Phase
  | asleep (total done : Nat)
  | returned (ret : Except Errno Int)

namespace UserWrite

variable (u : UserWrite)

/-- The chunk that starts at byte `total`. -/
def chunk (total : Nat) : Nat := chunkLen ((u.ubuf + total) % 2 ^ 32) (u.len - total)

lemma chunk_pos {u : UserWrite} {total : Nat} (h : total < u.len) : 0 < u.chunk total := by
  have : (u.ubuf + total) % 2 ^ 32 % pageSize < pageSize := Nat.mod_lt _ (by decide)
  rw [chunk, chunkLen]
  omega

/-- A stretch in `ring_write`. -/
def put (s : Stream) (i : Nat) (sig : Bool) (total done : Nat) : Stream × Nat × Option Ended :=
  s.write i (fun k => u.data (total + k)) (u.chunk total) u.how sig done

/-- What `rw_user` makes of a chunk: where the call then is, or nothing when it goes on. -/
def settle (total : Nat) (r : Nat × Option Ended) : Option Phase :=
  match r.2 with
  | none => some (.asleep total r.1)
  | some a =>
    match a.ret with
    | .error e => some (.returned (Ring.sofar total e))
    | .ok got => if got < u.chunk total then some (.returned (.ok (toS32 total + got))) else none

/-- The loop of `rw_user` from byte `total` on. -/
def rwUser (s : Stream) (i : Nat) (sig : Bool) (total : Nat) : Stream × Phase :=
  if total < u.len then
    if u.readable ((u.ubuf + total) % 2 ^ 32) then
      let r := u.put s i sig total 0
      match u.settle total r.2 with
      | some p => (r.1, p)
      | none => rwUser r.1 i sig (total + u.chunk total)
    else (s, .returned (Ring.sofar total .efault))
  else (s, .returned (.ok (toS32 total)))
termination_by u.len - total
decreasing_by
  have := chunk_pos ‹total < u.len›
  omega

/-- A `write` that slept goes on with its chunk, and then with the next. -/
def resume (s : Stream) (i : Nat) (sig : Bool) (total done : Nat) : Stream × Phase :=
  let r := u.put s i sig total done
  match u.settle total r.2 with
  | some p => (r.1, p)
  | none => u.rwUser r.1 i sig (total + u.chunk total)

end UserWrite

/-! ## Many programs on one pipe -/

/-- A pipe, and the `write`s that were made on it. -/
structure Users extends Stream where
  calls : List (UserWrite × Phase)

inductive UserEvent
  | write (u : UserWrite) (sig : Bool)
  | resume (i : Nat) (sig : Bool)
  | read (i len : Nat) (how : How) (sig : Bool)
  | ends (readers writers : Int)

namespace Users

def start (buf : Nat → UInt8) (readers writers : Int) : Users :=
  ⟨⟨⟨⟨buf, 0, 0⟩, readers, writers⟩, [], []⟩, []⟩

def step (t : Users) : UserEvent → Users
  | .write u sig =>
    let r := u.rwUser t.toStream t.calls.length sig 0
    ⟨r.1, t.calls ++ [(u, r.2)]⟩
  | .resume i sig =>
    match t.calls[i]? with
    | some (u, .asleep total done) =>
      let r := u.resume t.toStream i sig total done
      ⟨r.1, t.calls.set i (u, r.2)⟩
    | _ => t
  | .read i len how sig => { t with toStream := (t.toStream.read i len how sig).1 }
  | .ends readers writers =>
    { t with ring := { t.ring with readers := readers, writers := writers } }

def run (evs : List UserEvent) (t : Users) : Users := evs.foldl step t

end Users

/-- The bytes of call `i` stand together, and are `bytes`. -/
def Together (i : Nat) (bytes : List UInt8) (log : List (Nat × UInt8)) : Prop :=
  ∃ before after, log = before ++ tagged i bytes ++ after ∧ (∀ x ∈ before, x.1 ≠ i) ∧
    ∀ x ∈ after, x.1 ≠ i

/-- All of a write of at most `PIPE_BUF` bytes is in the stream, in one piece, or nothing of it is;
and one that may not wait returns its length or `EAGAIN`. -/
def Atomic (log : List (Nat × UInt8)) (i : Nat) (u : UserWrite) (p : Phase) : Prop :=
  u.len ≤ pipeBuf → (Together i [] log ∨ Together i (slice u.data 0 u.len) log) ∧
    ∀ ret, p = .returned ret → u.how.nonblock = true → ret = .ok u.len ∨ ret = .error .eagain

/-- What a program can see to: a small buffer is in one page, and for a write that may not wait it
can be read and somebody has the pipe open for reading. -/
def Fits (t : Users) : UserEvent → Prop
  | .write u _ => u.len ≤ pipeBuf → u.ubuf % pageSize + u.len ≤ pageSize ∧
      (u.how.nonblock = true → u.readable (u.ubuf % 2 ^ 32) = true ∧ t.ring.readers ≠ 0)
  | _ => True

/-! ## One page at a time -/

section Together

variable {i j : Nat} {bytes bytes' : List UInt8} {log : List (Nat × UInt8)}

lemma together_nil (h : ∀ x ∈ log, x.1 ≠ i) : Together i [] log :=
  ⟨log, [], by simp [tagged], h, nofun⟩

lemma Together.append (h : Together i bytes log) (hne : j ≠ i) (bytes') :
    Together i bytes (log ++ tagged j bytes') := by
  obtain ⟨before, after, rfl, hbefore, hafter⟩ := h
  refine ⟨before, after ++ tagged j bytes', by simp only [append_assoc], hbefore, fun x hx => ?_⟩
  rcases mem_append.1 hx with hx | hx
  · exact hafter x hx
  obtain ⟨b, -, rfl⟩ := mem_map.1 hx
  exact hne

/-- Only the window of a call's bytes has its bytes. -/
lemma Together.window (h : Together i bytes log) :
    ∃ k, ∀ n, (log.map Prod.fst)[n]? = some i → k ≤ n ∧ n < k + bytes.length := by
  obtain ⟨before, after, rfl, hbefore, hafter⟩ := h
  refine ⟨before.length, fun n hn => ?_⟩
  obtain ⟨x, hx, hxi⟩ := Option.map_eq_some_iff.1 ((getElem?_map ..).symm.trans hn)
  rw [append_assoc] at hx
  by_cases hlo : n < before.length
  · rw [getElem?_append_left hlo] at hx
    exact absurd hxi (hbefore x (mem_of_getElem? hx))
  refine ⟨by omega, ?_⟩
  by_contra hhi
  rw [getElem?_append_right (by omega), getElem?_append_right (by simp [tagged]; omega)] at hx
  exact hafter x (mem_of_getElem? hx) hxi

end Together

variable {r : Stream × Phase} {p : Phase}

namespace UserWrite

variable {u : UserWrite} {s : Stream} {i : Nat} {sig : Bool}

/-- What any stretch leaves: a pipe, with some bytes of this call more, and a chunk that is not
over. -/
structure Moved (u : UserWrite) (s : Stream) (i : Nat) (r : Stream × Phase) : Prop where
  fifo : r.1.Fifo
  put : ∃ bytes, r.1.put = s.put ++ tagged i bytes
  asleep : ∀ total done, r.2 = .asleep total done → done ≤ u.chunk total

lemma Moved.refl (h : s.Fifo) (ret : Except Errno Int) : Moved u s i (s, .returned ret) :=
  ⟨h, ⟨[], by simp [tagged]⟩, nofun⟩

lemma Moved.trans {s'} (h : ∃ bytes, s'.put = s.put ++ tagged i bytes) (h' : Moved u s' i r) :
    Moved u s i r := by
  obtain ⟨bytes, hput⟩ := h
  obtain ⟨bytes', hput'⟩ := h'.put
  refine ⟨h'.fifo, ⟨bytes ++ bytes', ?_⟩, h'.asleep⟩
  rw [hput', hput, tagged, tagged, tagged, map_append, append_assoc]

variable {total done : Nat}

lemma settle_asleep {r : Nat × Option Ended} {t d : Nat}
    (h : u.settle total r = some (.asleep t d)) : t = total ∧ d = r.1 := by
  rw [settle] at h
  split at h
  · obtain ⟨rfl, rfl⟩ := Phase.asleep.inj (Option.some.inj h)
    exact ⟨rfl, rfl⟩
  split at h
  · exact absurd h (by simp)
  · split at h <;> exact absurd h (by simp)

lemma put_moved (h : s.Fifo) (hdone : done ≤ u.chunk total)
    (hp : u.settle total (u.put s i sig total done).2 = some p) :
    Moved u s i ((u.put s i sig total done).1, p) := by
  refine ⟨h.write i _ u.how sig hdone, ⟨_, rfl⟩, fun t d heq => ?_⟩
  obtain ⟨rfl, rfl⟩ := settle_asleep (hp.trans (congrArg some heq))
  exact (s.ring.ringWrite_written _ _ u.how sig done h.ok hdone).hi

lemma rwUser_moved (u : UserWrite) (s i sig total) (h : s.Fifo) :
    Moved u s i (u.rwUser s i sig total) := by
  rw [rwUser]
  split
  · split
    · dsimp only
      split
      · rename_i hp
        exact put_moved h (Nat.zero_le _) hp
      · exact .trans ⟨_, rfl⟩ (rwUser_moved u _ i sig _ (h.write i _ u.how sig (Nat.zero_le _)))
    · exact .refl h _
  · exact .refl h _
termination_by u.len - total
decreasing_by
  have := chunk_pos ‹total < u.len›
  omega

lemma resume_moved (i sig) (h : s.Fifo) (hdone : done ≤ u.chunk total) :
    Moved u s i (u.resume s i sig total done) := by
  rw [resume]
  split
  · rename_i hp
    exact put_moved h hdone hp
  · exact .trans ⟨_, rfl⟩ (rwUser_moved u _ i sig _ (h.write i _ u.how sig hdone))

/-- What a small write in one page comes to: an error and nothing put, a sleep with nothing put, or
all of it. -/
inductive Whole (u : UserWrite) (s : Stream) (i : Nat) : Stream × Phase → Prop
  | failed (s' : Stream) (e : Errno) : s'.put = s.put →
      (s.ring.readers ≠ 0 → u.how.nonblock = true → e = .eagain) →
      Whole u s i (s', .returned (.error e))
  | asleep (s' : Stream) : s'.put = s.put → 0 < u.len → u.how.nonblock = false →
    Whole u s i (s', .asleep 0 0)
  | wrote (s' : Stream) : s'.put = s.put ++ tagged i (slice u.data 0 u.len) →
    Whole u s i (s', .returned (.ok u.len))

lemma chunk_zero (hpage : u.ubuf % pageSize + u.len ≤ pageSize) : u.chunk 0 = u.len := by
  rw [chunk, chunkLen, Nat.add_zero, Nat.mod_mod_of_dvd _ (by decide : pageSize ∣ 2 ^ 32)]
  omega

lemma resume_whole (hlen : u.len ≤ pipeBuf) (hpos : 0 < u.len)
    (hpage : u.ubuf % pageSize + u.len ≤ pageSize) : Whole u s i (u.resume s i sig 0 0) := by
  have hput : u.put s i sig 0 0 = s.write i u.data u.len u.how sig 0 := by
    simp only [UserWrite.put, chunk_zero hpage, Nat.zero_add]
  rw [resume, hput]
  rcases s.ring.ringWrite_small u.data u.how sig hlen hpos with ⟨e, b, hres,
    he⟩ | ⟨hblock, hres⟩ | hres
  · simp only [Stream.write, hres, settle]
    exact .failed _ e (by simp [slice_self, tagged]) he
  · simp only [Stream.write, hres, settle]
    exact .asleep _ (by simp [slice_self, tagged]) hpos hblock
  · simp only [Stream.write, hres, settle, chunk_zero hpage, Int.lt_irrefl, if_false, Nat.zero_add]
    rw [rwUser, if_neg (Nat.lt_irrefl _), toS32_of_lt (Nat.lt_of_le_of_lt hlen (by decide))]
    exact .wrote _ rfl

/-- `rw_user` from the start. -/
lemma rwUser_whole (s i sig) (hlen : u.len ≤ pipeBuf) (hpage : u.ubuf % pageSize + u.len ≤ pageSize)
    (hread : u.how.nonblock = true → u.readable (u.ubuf % 2 ^ 32) = true) :
    Whole u s i (u.rwUser s i sig 0) ∨
      (u.how.nonblock = false ∧ ∃ e, u.rwUser s i sig 0 = (s, .returned (.error e))) := by
  rw [rwUser]
  by_cases hpos : 0 < u.len
  · rw [if_pos hpos, Nat.add_zero]
    by_cases hok : u.readable (u.ubuf % 2 ^ 32) = true
    · rw [if_pos hok]
      exact .inl (resume_whole hlen hpos hpage)
    · rw [if_neg hok]
      exact .inr ⟨by simpa using mt hread hok, .efault, rfl⟩
  · have hzero : u.len = 0 := by omega
    rw [if_neg hpos]
    refine .inl ?_
    have := Whole.wrote (u := u) (s := s) (i := i) s (by simp [hzero, slice_self, tagged])
    rwa [hzero] at this

end UserWrite

/-! ## Over every run -/

namespace Users

/-- A small write in one page has put nothing while it sleeps, and everything or nothing once it is
back. -/
def SmallOk (log : List (Nat × UInt8)) (i : Nat) (u : UserWrite) : Phase → Prop
  | .asleep total done =>
    total = 0 ∧ done = 0 ∧ 0 < u.len ∧ u.how.nonblock = false ∧ ∀ x ∈ log, x.1 ≠ i
  | .returned ret => (Together i [] log ∨ Together i (slice u.data 0 u.len) log) ∧
      (u.how.nonblock = true → ret = .ok u.len ∨ ret = .error .eagain)

structure Sound (t : Users) : Prop where
  fifo : t.Fifo
  putBy : ∀ x ∈ t.put, x.1 < t.calls.length
  asleep : ∀ (i : Nat) (u : UserWrite) (total done : Nat),
    t.calls[i]? = some (u, .asleep total done) → done ≤ u.chunk total
  small : ∀ (i : Nat) (u : UserWrite) (p : Phase), t.calls[i]? = some (u, p) → u.len ≤ pipeBuf →
    u.ubuf % pageSize + u.len ≤ pageSize ∧ SmallOk t.put i u p

variable {i : Nat} {u : UserWrite}

lemma SmallOk.append {log j} (h : SmallOk log i u p) (hne : j ≠ i) (bytes) :
    SmallOk (log ++ tagged j bytes) i u p := by
  match p with
  | .asleep total done =>
    obtain ⟨ht, hd, hpos, hblock, hnone⟩ := h
    refine ⟨ht, hd, hpos, hblock, fun x hx => ?_⟩
    rcases mem_append.1 hx with hx | hx
    · exact hnone x hx
    obtain ⟨b, -, rfl⟩ := mem_map.1 hx
    exact hne
  | .returned ret => exact ⟨h.1.imp (·.append hne bytes) (·.append hne bytes), h.2⟩

/-- A call that had put nothing, after a stretch that puts everything or nothing. -/
lemma SmallOk.of_whole {s} (h : UserWrite.Whole u s i r) (hnone : ∀ x ∈ s.put, x.1 ≠ i)
    (hreaders : u.how.nonblock = true → s.ring.readers ≠ 0) : SmallOk r.1.put i u r.2 := by
  rcases h with ⟨s', e, hput, he⟩ | ⟨s', hput, hpos, hblock⟩ | ⟨s', hput⟩
  · rw [hput]
    exact ⟨.inl (together_nil hnone), fun hnb => .inr (by rw [he (hreaders hnb) hnb])⟩
  · rw [hput]
    exact ⟨rfl, rfl, hpos, hblock, hnone⟩
  · exact ⟨.inr ⟨s.put, [], by simpa using hput, hnone, nofun⟩, fun _ => .inl rfl⟩

variable {t : Users}

lemma Sound.start (buf : Nat → UInt8) (readers writers : Int) : (start buf readers writers).Sound :=
  ⟨⟨⟨(by decide : 0 < pipeSize), Nat.zero_le _⟩, rfl⟩, nofun, nofun, nofun⟩

lemma Sound.write (h : t.Sound) (u sig) (hfits : Fits t (.write u sig)) :
    (t.step (.write u sig)).Sound := by
  have hnone : ∀ x ∈ t.put, x.1 ≠ t.calls.length := fun x hx => Nat.ne_of_lt (h.putBy x hx)
  have hmoved := u.rwUser_moved t.toStream t.calls.length sig 0 h.fifo
  obtain ⟨bytes, hput⟩ := hmoved.put
  refine ⟨hmoved.fifo, fun x hx => ?_, fun i u' total done hi => ?_, fun i u' p hi hlen => ?_⟩
  · simp only [step, hput] at hx
    simp only [step, List.length_append, List.length_singleton]
    exact lt_of_mem_tagged (fun x hx => Nat.lt_succ_of_lt (h.putBy x hx)) (Nat.lt_succ_self _) hx
  · rcases getElem?_concat_cases hi with hi | ⟨rfl, heq⟩
    · exact h.asleep i u' total done hi
    obtain ⟨rfl, hp⟩ := Prod.mk.inj heq
    exact hmoved.asleep total done hp.symm
  rcases getElem?_concat_cases hi with hi' | ⟨rfl, heq⟩
  · have hlt : i < t.calls.length := (List.getElem?_eq_some_iff.1 hi').1
    simp only [step, hput]
    exact ⟨(h.small i u' p hi' hlen).1, (h.small i u' p hi' hlen).2.append (Nat.ne_of_gt hlt) bytes⟩
  obtain ⟨rfl, rfl⟩ := Prod.mk.inj heq
  obtain ⟨hpage, hnb⟩ := hfits hlen
  refine ⟨hpage, ?_⟩
  rcases UserWrite.rwUser_whole t.toStream t.calls.length sig hlen hpage
    (fun hn => (hnb hn).1) with hw | ⟨hblock, e, hres⟩
  · exact .of_whole hw hnone fun hn => (hnb hn).2
  simp only [step, hres]
  exact ⟨.inl (together_nil hnone), fun hn => absurd (hblock.symm.trans hn) Bool.false_ne_true⟩

lemma Sound.resume (h : t.Sound) (i sig) : (t.step (.resume i sig)).Sound := by
  rw [step]
  split
  · rename_i u total done hi
    have hlt : i < t.calls.length := (List.getElem?_eq_some_iff.1 hi).1
    have hmoved := UserWrite.resume_moved i sig h.fifo (h.asleep i u total done hi)
    obtain ⟨bytes, hput⟩ := hmoved.put
    refine ⟨hmoved.fifo, fun x hx => ?_, fun j u' total' done' hj => ?_, fun j u' p hj hlen => ?_⟩
    · simp only [hput] at hx
      rw [List.length_set]
      exact lt_of_mem_tagged h.putBy hlt hx
    · rw [List.getElem?_set] at hj
      split at hj
      · obtain ⟨rfl, hp⟩ := Prod.mk.inj (Option.some.inj hj)
        exact hmoved.asleep total' done' hp
      · exact h.asleep j u' total' done' hj
    rw [List.getElem?_set] at hj
    split at hj
    · rename_i hij
      subst hij
      obtain ⟨rfl, rfl⟩ := Prod.mk.inj (Option.some.inj hj)
      obtain ⟨hpage, rfl, rfl, hpos, hblock, hnone⟩ := h.small i u _ hi hlen
      exact ⟨hpage, .of_whole (UserWrite.resume_whole hlen hpos hpage) hnone fun hn =>
        absurd (hblock.symm.trans hn) Bool.false_ne_true⟩
    · rename_i hij
      simp only [hput]
      exact ⟨(h.small j u' p hj hlen).1, (h.small j u' p hj hlen).2.append hij bytes⟩
  · exact h

lemma Sound.step (h : t.Sound) (ev : UserEvent) (hfits : Fits t ev) : (t.step ev).Sound := by
  match ev with
  | .write u sig => exact h.write u sig hfits
  | .resume i sig => exact h.resume i sig
  | .read i len how sig => exact ⟨h.fifo.read i len how sig, h.putBy, h.asleep, h.small⟩
  | .ends readers writers => exact ⟨h.fifo.ends readers writers, h.putBy, h.asleep, h.small⟩

/-- **A small write is atomic**, in every run in which small writes have their buffers in one page.
The stream the readers see is what was put, in that order. -/
theorem run_atomic (buf : Nat → UInt8) (readers writers : Int) (evs : List UserEvent)
    (hfits : Runs.Every step Fits evs (start buf readers writers)) :
    let t := run evs (start buf readers writers)
    t.taken.map snd ++ t.ring.held = t.put.map snd ∧
      ∀ i u p, t.calls[i]? = some (u, p) → Atomic t.put i u p := by
  intro t
  have h : t.Sound := Runs.induction_on (fun _ ev hs hev => hs.step ev hev) evs
    (Sound.start buf readers writers) hfits
  refine ⟨h.fifo.order, fun i u p hi hlen => ?_⟩
  have hsmall := (h.small i u p hi hlen).2
  match p with
  | .asleep total done => exact ⟨.inl (together_nil hsmall.2.2.2.2), nofun⟩
  | .returned ret =>
    refine ⟨hsmall.1, fun ret' heq hnb => ?_⟩
    obtain rfl := Phase.returned.inj heq
    exact hsmall.2 hnb

def sevens (ubuf len : Nat) (nonblock : Bool) : UserWrite :=
  ⟨ubuf, len, fun _ => 7, fun _ => true, ⟨nonblock, false, false⟩⟩

/-- What a call that is done has returned, if it did not fail. -/
def count : Phase → Option Int
  | .returned (.ok n) => some n
  | _ => none

/-- With one byte free a write of two sleeps, and nothing of it is in the ring. -/
theorem run_atomic_sevens :
    let t := run [.write (sevens 0 4095 true) false, .write (sevens 0 2 false) false]
      (start (fun _ => 0) 1 1)
    (t.calls.map fun c => count c.2) = [some 4095, none] ∧ t.put.length = 4095 ∧
      ∀ i u p, t.calls[i]? = some (u, p) → Atomic t.put i u p := by
  intro t
  have hcalls : (t.calls.map fun c => count c.2) = [some 4095, none] := by decide +kernel
  have hput : t.put.length = 4095 := by decide +kernel
  exact ⟨hcalls, hput, (run_atomic (fun _ => 0) 1 1
    [.write (sevens 0 4095 true) false, .write (sevens 0 2 false) false]
    ⟨fun _ => ⟨by decide, fun _ => ⟨rfl, by decide⟩⟩,
      fun _ => ⟨by decide, fun h => by cases h⟩, trivial⟩).2⟩

/-- One byte short of a full ring, a write of two bytes on two pages. Its first byte fills the ring
and it sleeps; when everything was read another program's byte goes in before the second. And if it
may not wait it returns `1`. -/
theorem straddle_mixed :
    let t := run [.write (sevens 0 4095 false) false, .write (sevens 4095 2 false) false,
      .read 0 4096 ⟨false, false, false⟩ false, .write (sevens 0 1 false) false, .resume 1 false]
      (start (fun _ => 0) 1 1)
    let t' := run [.write (sevens 0 4095 false) false, .write (sevens 4095 2 true) false]
      (start (fun _ => 0) 1 1)
    (∃ u p, t.calls[1]? = some (u, p) ∧ ¬ Atomic t.put 1 u p) ∧
      ∃ u p, t'.calls[1]? = some (u, p) ∧ ¬ Atomic t'.put 1 u p := by
  intro t t'
  constructor
  · have hu : (t.calls[1]?.map fun c => c.1.len) = some 2 := by decide +kernel
    have hfirst : (t.put.map Prod.fst)[4095]? = some 1 := by decide +kernel
    have hthird : (t.put.map Prod.fst)[4097]? = some 1 := by decide +kernel
    obtain ⟨⟨u, p⟩, hget, hlen⟩ := Option.map_eq_some_iff.1 hu
    have hlen' : u.len = 2 := hlen
    refine ⟨u, p, hget, fun hatomic => ?_⟩
    rcases (hatomic (by rw [hlen']; decide)).1 with htogether | htogether
    · obtain ⟨k, hk⟩ := htogether.window
      have := hk 4095 hfirst
      rw [length_nil] at this
      omega
    obtain ⟨k, hk⟩ := htogether.window
    have h1 := hk 4095 hfirst
    have h3 := hk 4097 hthird
    rw [length_slice, hlen'] at h1 h3
    omega
  have hu : (t'.calls[1]?.map fun c => (c.1.len, c.1.how.nonblock, count c.2)) =
      some (2, true, some 1) := by
    decide +kernel
  obtain ⟨⟨u, p⟩, hget, hres⟩ := Option.map_eq_some_iff.1 hu
  obtain ⟨hlen, hres⟩ := Prod.mk.inj hres
  obtain ⟨hnb, hcount⟩ := Prod.mk.inj hres
  have hlen' : u.len = 2 := hlen
  refine ⟨u, p, hget, fun hatomic => ?_⟩
  have hret : p = .returned (.ok 1) := by
    rcases p with ⟨_, _⟩ | ⟨_ | n⟩
    · cases hcount
    · cases hcount
    · rw [Option.some.inj hcount]
  rcases (hatomic (by rw [hlen']; decide)).2 _ hret hnb with hok | herr
  · rw [hlen'] at hok
    exact absurd (Except.ok.inj hok) (by decide)
  · cases herr

end Users

end Sage040.Pipe
