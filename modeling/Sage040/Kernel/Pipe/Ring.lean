import Sage040.Basic
import Sage040.Lib.RingBuffer

/-!
# A pipe's ring

`ring_read` and `ring_write` of `kernel/pipe.c`. A task is not switched away from until it sleeps,
so a call is a stretch that ends with an answer or asleep, and further stretches after that; a read
that slept starts over, and a write goes on with the byte it had come to.

A `Stream` is a ring with the bytes that went in and out, each with the call that moved it. `Fifo`
is the one equation that makes it a pipe: what was taken, followed by what the ring holds, is what
was put. `run_fifo` has it for every interleaving of calls, with what the calls return.
-/

namespace Sage040.Pipe

open List RingBuffer Option

def pipeSize : Nat := 4096

def pipeBuf : Nat := 4096

/-- `struct pipe`: the ring, and how many open files there are on each end. -/
structure Ring extends RingBuffer UInt8 where
  readers : Int
  writers : Int

/-- `RW_NONBLOCK`, `RW_PEEK` and `RW_NOSIGNAL`. -/
structure How where
  nonblock : Bool
  peek : Bool
  nosignal : Bool

/-- What `ring_write` returns, and whether it has sent `SIGPIPE`. -/
structure Ended where
  ret : Except Errno Int
  sigpipe : Bool

/-- The bytes from `i` up to `j`. -/
def slice (data : Nat → UInt8) (i j : Nat) : List UInt8 :=
    (List.range (j - i)).map fun k => data (i + k)

variable (data : Nat → UInt8)

lemma length_slice (i j : Nat) : (slice data i j).length = j - i := by
  simp [slice]

lemma slice_self (i : Nat) : slice data i i = [] := by simp [slice]

variable {i j : Nat}

lemma slice_succ (h : i < j) : slice data i j = data i :: slice data (i + 1) j := by
  obtain ⟨n, rfl⟩ : ∃ n, j = i + 1 + n := ⟨j - (i + 1), by omega⟩
  rw [slice, slice, show i + 1 + n - i = n + 1 by omega, show i + 1 + n - (i + 1) = n by omega,
    List.range_succ_eq_map, List.map_cons, List.map_map, Nat.add_zero]
  congr 1
  refine List.map_congr_left fun k _ => ?_
  simp only [Function.comp_apply]
  congr 1
  omega

lemma slice_append {k : Nat} (hij : i ≤ j) (hjk : j ≤ k) :
    slice data i j ++ slice data j k = slice data i k := by
  rw [slice, slice, slice, show k - i = (j - i) +
    (k - j) by omega, List.range_add, List.map_append, List.map_map]
  congr 1
  refine List.map_congr_left fun x _ => ?_
  simp only [Function.comp_apply]
  congr 1
  omega

variable {data}

variable {r : RingBuffer UInt8} {sig : Bool} {t' : Traffic}

namespace Ring

def held (p : Ring) : List UInt8 := p.contents pipeSize

/-- The copying loop of `ring_read`: the count, the next byte to read, and what was copied. -/
def copyOut (r : RingBuffer UInt8) (len n pos : Nat) (out : List UInt8) : Nat × Nat × List UInt8 :=
  if n < len ∧ n < r.count then
    copyOut r len (n + 1) ((pos + 1) % pipeSize) (out ++ [r.buf pos])
  else (n, pos, out)
termination_by r.count - n
decreasing_by omega

/-- A stretch of `ring_read`; with no answer it sleeps. -/
def ringRead (p : Ring) (len : Nat) (how : How) (sig : Bool) :
    Ring × Option (Except Errno Int × List UInt8) :=
  if len = 0 then (p, some (.ok 0, []))
  else if 0 < p.count then
    let c := copyOut p.toRingBuffer len 0 p.head []
    (if how.peek then p else { p with head := c.2.1, count := p.count - c.1 },
      some (.ok (toS32 c.1), c.2.2))
  else if p.writers = 0 then (p, some (.ok 0, []))
  else if how.nonblock then (p, some (.error .eagain, []))
  else if sig then (p, some (.error .eintr, []))
  else (p, none)

/-- The copying loop of `ring_write`. -/
def copyIn (data : Nat → UInt8) : Nat → Nat → RingBuffer UInt8 → RingBuffer UInt8
  | 0, _, r => r
  | want + 1, done, r => copyIn data want (done + 1) (r.push pipeSize (data done))

/-- There is no room for what a write must put at once. -/
def full (p : Ring) (len done : Nat) : Prop :=
  if len ≤ pipeBuf then pipeSize - p.count < len - done else pipeSize - p.count = 0

instance (p : Ring) (len done : Nat) : Decidable (p.full len done) :=
  inferInstanceAs (Decidable
    (if len ≤ pipeBuf then pipeSize - p.count < len - done else pipeSize - p.count = 0))

def want (p : Ring) (len done : Nat) : Nat := min (len - done) (pipeSize - p.count)

def sofar (done : Nat) (e : Errno) : Except Errno Int :=
    if 0 < done then .ok (toS32 done) else .error e

variable {p : Ring} {len done : Nat}

lemma want_pos (h : done < len) (hfull : ¬ p.full len done) : 0 < p.want len done := by
  rw [full] at hfull
  rw [want]
  split at hfull <;> omega

/-- A stretch of `ring_write` from byte `done` on: the byte it came to, and its answer unless it
sleeps. -/
def ringWrite (p : Ring) (data : Nat → UInt8) (len : Nat) (how : How) (sig : Bool) (done : Nat) :
    Ring × Nat × Option Ended :=
  if done < len then
    if p.readers = 0 then (p, done, some ⟨sofar done .epipe, !how.nosignal⟩)
    else if p.full len done then
      if how.nonblock then (p, done, some ⟨sofar done .eagain, false⟩)
      else if sig then (p, done, some ⟨sofar done .eintr, false⟩)
      else (p, done, none)
    else
      ringWrite { p with toRingBuffer := copyIn data (p.want len done) done p.toRingBuffer } data
        len how
        sig (done + p.want len done)
  else (p, done, some ⟨.ok (toS32 done), false⟩)
termination_by len - done
decreasing_by
  have := want_pos ‹done < len› ‹¬ p.full len done›
  omega

/-! ## What a stretch does -/

lemma copyIn_eq (data) (want done : Nat) (r) :
    copyIn data want done r = (slice data done (done + want)).foldl (RingBuffer.push pipeSize) r :=
    by
  induction want generalizing done r with
  | zero => rw [copyIn, Nat.add_zero, slice_self, foldl_nil]
  | succ want ih =>
    rw [copyIn, ih, slice_succ data (show done < done + (want + 1) by omega), foldl_cons,
      show done + 1 + want = done + (want + 1) by omega]

/-- What the copying loop of `ring_read` comes to. -/
lemma copyOut_eq (r) (len n : Nat) (out : List UInt8) (hn : n ≤ min len r.count) :
    copyOut r len n ((r.head + n) % pipeSize) out =
    (min len r.count, (r.head + min len r.count) % pipeSize,
        out ++ ((r.contents pipeSize).take (min len r.count)).drop n) := by
  by_cases h : n < len ∧ n < r.count
  · have hget : (r.contents pipeSize)[n]? = some (r.buf ((r.head + n) % pipeSize)) := by
      simp [contents, h.2]
    have hdrop : ((r.contents pipeSize).take (min len r.count)).drop n =
      r.buf ((r.head + n) % pipeSize) ::
          ((r.contents pipeSize).take (min len r.count)).drop (n + 1) := by
      refine (drop_eq_getElem?_toList_append ..).trans ?_
      rw [getElem?_take_of_lt (by omega), hget]
      rfl
    rw [copyOut, if_pos h, Nat.mod_add_mod, Nat.add_assoc,
      copyOut_eq r len (n + 1) _ (by omega), hdrop,
      append_assoc, singleton_append]
  · have hmin : n = min len r.count := by omega
    rw [copyOut, if_neg h, ← hmin, drop_eq_nil_of_le (by simp), append_nil]
termination_by r.count - n

/-- What a stretch of `ring_write` from byte `done` on has done. -/
structure Written (p : Ring) (data : Nat → UInt8) (len done : Nat) (r : Ring × Nat × Option Ended) :
    Prop where
  ok : r.1.toRingBuffer.Ok pipeSize
  held : r.1.held = p.held ++ slice data done r.2.1
  ends : r.1.readers = p.readers ∧ r.1.writers = p.writers
  lo : done ≤ r.2.1
  hi : r.2.1 ≤ len
  ret : ∀ a, r.2.2 = some a → a.ret = .ok (toS32 r.2.1) ∨ (r.2.1 = 0 ∧ ∃ e, a.ret = .error e)

lemma sofar_cases (done) (e : Errno) :
    sofar done e = .ok (toS32 done) ∨ (done = 0 ∧ ∃ e', sofar done e = .error e') := by
  rw [sofar]
  split
  · exact .inl rfl
  · exact .inr ⟨by omega, e, rfl⟩

lemma Written.stop {data} {ans : Option Ended} (hok : p.toRingBuffer.Ok pipeSize)
    (hdone : done ≤ len)
    (hret : ∀ a, ans = some a → a.ret = .ok (toS32 done) ∨ (done = 0 ∧ ∃ e, a.ret = .error e)) :
    Written p data len done (p, done, ans) :=
  ⟨hok, by rw [slice_self, append_nil], ⟨rfl, rfl⟩, Nat.le_refl _, hdone, hret⟩

lemma ringWrite_written (p data len) (how : How) (sig) (done) (hok : p.toRingBuffer.Ok pipeSize)
    (hdone : done ≤ len) :
    Written p data len done (p.ringWrite data len how sig done) := by
  rw [ringWrite]
  by_cases h : done < len
  · rw [if_pos h]
    by_cases hreaders : p.readers = 0
    · rw [if_pos hreaders]
      exact .stop hok hdone fun a ha => some.inj ha ▸ sofar_cases done _
    rw [if_neg hreaders]
    by_cases hfull : p.full len done
    · rw [if_pos hfull]
      iterate 2
        split
        · exact .stop hok hdone fun a ha => some.inj ha ▸ sofar_cases done _
      · exact .stop hok hdone nofun
    rw [if_neg hfull]
    have hpos := want_pos h hfull
    have hlen : done + p.want len done ≤ len := by
      rw [want]
      omega
    have hroom : p.count + (slice data done (done + p.want len done)).length ≤ pipeSize := by
      have := hok.count
      rw [length_slice, want]
      omega
    have hput := foldl_push (slice data done (done + p.want len done)) hok hroom
    rw [← copyIn_eq] at hput
    have hrest := ringWrite_written
      { p with toRingBuffer := copyIn data (p.want len done) done p.toRingBuffer } data len how sig
      (done + p.want len done) hput.1 hlen
    refine ⟨hrest.ok, ?_, hrest.ends, by have := hrest.lo; omega, hrest.hi, hrest.ret⟩
    rw [hrest.held, held, hput.2, append_assoc, slice_append data (by omega) hrest.lo]
    rfl
  · rw [if_neg h]
    exact .stop hok hdone fun a ha => .inl (some.inj ha ▸ rfl)
termination_by len - done

/-- **A small write goes in whole or not at all.** -/
lemma ringWrite_small (p : Ring) (data) (how : How) (sig) (hlen : len ≤ pipeBuf) (hpos : 0 < len) :
    (∃ e b, p.ringWrite data len how sig 0 = (p, 0, some ⟨.error e, b⟩) ∧
        (p.readers ≠ 0 → how.nonblock = true → e = .eagain)) ∨
      (how.nonblock = false ∧ p.ringWrite data len how sig 0 = (p, 0, none)) ∨
      ((p.ringWrite data len how sig 0).2 = (len, some ⟨.ok len, false⟩)) := by
  rw [ringWrite, if_pos hpos]
  by_cases hreaders : p.readers = 0
  · rw [if_pos hreaders]
    exact .inl ⟨.epipe, _, rfl, fun h => absurd hreaders h⟩
  rw [if_neg hreaders]
  by_cases hfull : p.full len 0
  · rw [if_pos hfull]
    split
    · exact .inl ⟨.eagain, _, rfl, fun _ _ => rfl⟩
    rename_i hblock
    split
    · exact .inl ⟨.eintr, _, rfl, fun _ h => absurd h hblock⟩
    · exact .inr (.inl ⟨by simpa using hblock, rfl⟩)
  -- the room is there, and the next turn of the loop finds the write done
  rw [if_neg hfull]
  have hwant : 0 + p.want len 0 = len := by
    rw [full, if_pos hlen] at hfull
    rw [want]
    omega
  refine .inr (.inr ?_)
  rw [hwant, ringWrite, if_neg (Nat.lt_irrefl len),
    toS32_of_lt (Nat.lt_of_le_of_lt hlen (by decide))]

/-- A stretch of `ring_read` with something to read. -/
lemma ringRead_pos (how : How) (sig) (hok : p.toRingBuffer.Ok pipeSize) (hlen : len ≠ 0)
    (hcount : 0 < p.count) : p.ringRead len how sig =
      (if how.peek then p else { p with toRingBuffer := p.advance pipeSize (min len p.count) },
        some (.ok (min len p.count : Nat), p.held.take (min len p.count))) := by
  have hcopy := copyOut_eq p.toRingBuffer len 0 [] (Nat.zero_le _)
  have hlt : min len p.count < 2 ^ 31 :=
    Nat.lt_of_le_of_lt (Nat.min_le_right _ _) (Nat.lt_of_le_of_lt hok.count (by decide))
  rw [Nat.add_zero, Nat.mod_eq_of_lt hok.head, nil_append, drop_zero] at hcopy
  rw [ringRead, if_neg hlen, if_pos hcount, hcopy, ← toS32_of_lt hlt]
  rfl

lemma ringRead_empty (how : How) (sig) (h : len = 0 ∨ p.count = 0) :
    p.ringRead len how sig = (p, some (.ok 0, [])) ∨ len ≠ 0 ∧
      ((∃ e, p.ringRead len how sig = (p, some (.error e, []))) ∨
        p.ringRead len how sig = (p, none) ∧ p.writers ≠ 0 ∧ how.nonblock = false ∧ sig = false) :=
        by
  rw [ringRead]
  split
  · exact .inl rfl
  rename_i hlen
  rw [if_neg (by omega)]
  split
  · exact .inl rfl
  rename_i hwriters
  refine .inr ⟨hlen, ?_⟩
  split
  · exact .inl ⟨_, rfl⟩
  rename_i hblock
  split
  · exact .inl ⟨_, rfl⟩
  · rename_i hsig
    exact .inr ⟨rfl, hwriters, by simpa using hblock, by simpa using hsig⟩

/-- What a stretch of `ring_read` has done: `out` was copied, and unless it only looked, taken. -/
lemma ringRead_cases (p : Ring) (len) (how : How) (sig) (hok : p.toRingBuffer.Ok pipeSize) :
    ((p.ringRead len how sig).2 = none ∧ (p.ringRead len how sig).1 = p) ∨
    (∃ e, (p.ringRead len how sig).2 = some (.error e, []) ∧ (p.ringRead len how sig).1 = p) ∨
    ∃ out, (p.ringRead len how sig).2 = some (.ok out.length, out) ∧
      (p.ringRead len how sig).1.toRingBuffer.Ok pipeSize ∧
      (how.peek = false → p.held = out ++ (p.ringRead len how sig).1.held) ∧
      (how.peek = true → (p.ringRead len how sig).1 = p) := by
  by_cases hempty : len = 0 ∨ p.count = 0
  · rcases ringRead_empty how sig hempty with hr | ⟨-, ⟨e, hr⟩ | ⟨hr, -⟩⟩ <;> rw [hr]
    · exact .inr (.inr ⟨[], rfl, hok, fun _ => rfl, fun _ => rfl⟩)
    · exact .inr (.inl ⟨e, rfl, rfl⟩)
    · exact .inl ⟨rfl, rfl⟩
  rw [ringRead_pos how sig hok (by omega) (by omega)]
  refine .inr (.inr ⟨p.held.take (min len p.count), ?_, ?_, fun hpeek => ?_,
    fun hpeek => if_pos hpeek⟩)
  · simp [held]
  · split
    · exact hok
    · exact hok.advance (min len p.count)
  · rw [if_neg (by simp [hpeek]), held, held, contents_advance]
    exact (take_append_drop _ _).symm

end Ring

/-! ## A ring and what went through it -/

def tagged (i : Nat) (bytes : List UInt8) : List (Nat × UInt8) := bytes.map (Prod.mk i)

def ofCall (i : Nat) (log : List (Nat × UInt8)) : List UInt8 :=
  (log.filter fun x => x.1 == i).map Prod.snd

section Log

variable {i j : Nat} {log log' : List (Nat × UInt8)} {bytes : List UInt8}

@[simp] lemma map_snd_tagged (i bytes) : (tagged i bytes).map Prod.snd = bytes := by
  simp [tagged, Function.comp_def]

@[simp] lemma ofCall_append (i log log') : ofCall i (log ++ log') = ofCall i log ++ ofCall i log' :=
    by
  simp [ofCall]

@[simp] lemma ofCall_tagged (i bytes) : ofCall i (tagged i bytes) = bytes := by
  have hall : (tagged i bytes).filter (fun x => x.1 == i) = tagged i bytes := by
    refine filter_eq_self.2 fun x hx => ?_
    obtain ⟨b, -, rfl⟩ := mem_map.1 hx
    exact beq_self_eq_true i
  rw [ofCall, hall, map_snd_tagged]

lemma ofCall_eq_nil (h : ∀ x ∈ log, x.1 ≠ i) : ofCall i log = [] := by
  rw [ofCall, filter_eq_nil_iff.2 fun x hx => by simpa using h x hx, map_nil]

lemma ofCall_tagged_ne (h : i ≠ j) (bytes) : ofCall i (tagged j bytes) = [] := by
  refine ofCall_eq_nil fun x hx => ?_
  obtain ⟨b, -, rfl⟩ := mem_map.1 hx
  exact h.symm

lemma lt_of_mem_tagged {n : Nat} {x : Nat × UInt8} (hlog : ∀ x ∈ log, x.1 < n) (hi : i < n)
    (hx : x ∈ log ++ tagged i bytes) : x.1 < n := by
  rcases mem_append.1 hx with hx | hx
  · exact hlog x hx
  obtain ⟨b, -, rfl⟩ := mem_map.1 hx
  exact hi

end Log

/-- A ring, all that was put into it and all that was taken from it. -/
structure Stream where
  ring : Ring
  put : List (Nat × UInt8)
  taken : List (Nat × UInt8)

namespace Stream

/-- A stretch of `ring_write` in call `i`. -/
def write (s : Stream) (i : Nat) (data : Nat → UInt8) (len : Nat) (how : How) (sig : Bool)
    (done : Nat) :
    Stream × Nat × Option Ended :=
  let r := s.ring.ringWrite data len how sig done
  ({ s with ring := r.1, put := s.put ++ tagged i (slice data done r.2.1) }, r.2)

/-- A stretch of `ring_read` in call `i`. -/
def read (s : Stream) (i : Nat) (len : Nat) (how : How) (sig : Bool) :
    Stream × Option (Except Errno Int × List UInt8) :=
  let r := s.ring.ringRead len how sig
  let out := if how.peek then [] else ((r.2.map Prod.snd).getD [])
  ({ s with ring := r.1, taken := s.taken ++ tagged i out }, r.2)

/-- **A pipe**: what was taken, and then what is held, is what was put. -/
structure Fifo (s : Stream) : Prop where
  ok : s.ring.toRingBuffer.Ok pipeSize
  order : s.taken.map Prod.snd ++ s.ring.held = s.put.map Prod.snd

variable {s : Stream}

lemma Fifo.write (h : s.Fifo) (i data) {len} (how : How) (sig)
    {done} (hdone : done ≤ len) : (s.write i data len how sig done).1.Fifo := by
  have hw := s.ring.ringWrite_written data len how sig done h.ok hdone
  refine ⟨hw.ok, ?_⟩
  simp only [Stream.write, map_append, map_snd_tagged, hw.held]
  rw [← append_assoc, h.order]

lemma Fifo.read (h : s.Fifo) (i len : Nat) (how : How) (sig) : (s.read i len how sig).1.Fifo := by
  have hcases := s.ring.ringRead_cases len how sig h.ok
  rw [Stream.read]
  revert hcases
  generalize s.ring.ringRead len how sig = r
  rintro (⟨hans, hsame⟩ | ⟨e, hans, hsame⟩ | ⟨out, hans, hok, htake, hpeek⟩)
  iterate 2
    · refine ⟨hsame ▸ h.ok, ?_⟩
      simpa [hans, hsame, tagged] using h.order
  refine ⟨hok, ?_⟩
  by_cases hp : how.peek = true
  · simpa [hp, hpeek hp, tagged] using h.order
  have hp' : how.peek = false := by simpa using hp
  simp only [hans, hp', Bool.false_eq_true, if_false, Option.map_some, Option.getD_some,
    map_append, map_snd_tagged, append_assoc]
  rw [← htake hp', h.order]

lemma Fifo.ends (h : s.Fifo) (readers writers : Int) :
    Fifo { s with ring := { s.ring with readers := readers, writers := writers } } :=
  ⟨h.ok, h.order⟩

end Stream

/-! ## Many calls on one ring -/

/-- A call of `ring_write`, as far as it has come. -/
structure Writing where
  data : Nat → UInt8
  len : Nat
  how : How
  done : Nat
  ans : Option Ended

/-- A call of `ring_read`, with what it has copied. -/
structure Reading where
  len : Nat
  how : How
  got : List UInt8
  ans : Option (Except Errno Int)

structure Traffic extends Stream where
  writes : List Writing
  reads : List Reading

/-- What happens: calls begin, sleepers run again, and ends are opened and closed. -/
inductive Event
  | write (data : Nat → UInt8) (len : Nat) (how : How) (sig : Bool)
  | read (len : Nat) (how : How) (sig : Bool)
  | resumeWrite (i : Nat) (sig : Bool)
  | resumeRead (i : Nat) (sig : Bool)
  | ends (readers writers : Int)

namespace Traffic

/-- A new ring, as `ring_alloc` leaves it. -/
def start (buf : Nat → UInt8) (readers writers : Int) : Traffic :=
  ⟨⟨⟨⟨buf, 0, 0⟩, readers, writers⟩, [], []⟩, [], []⟩

/-- A stretch of write call `i`, unless it has returned. -/
def goWrite (t : Traffic) (i : Nat) (sig : Bool) : Traffic :=
  match t.writes[i]? with
  | none => t
  | some w =>
    if w.ans.isSome then t
    else
      let r := t.toStream.write i w.data w.len w.how sig w.done
      { t with toStream := r.1, writes := t.writes.set i { w with done := r.2.1, ans := r.2.2 } }

/-- A stretch of read call `i`, unless it has returned. -/
def goRead (t : Traffic) (i : Nat) (sig : Bool) : Traffic :=
  match t.reads[i]? with
  | none => t
  | some c =>
    if c.ans.isSome then t
    else
      let r := t.toStream.read i c.len c.how sig
      { t with
        toStream := r.1
        reads := t.reads.set i { c with
          got := (r.2.map Prod.snd).getD []
          ans := r.2.map Prod.fst } }

def step (t : Traffic) : Event → Traffic
  | .write data len how sig =>
    goWrite { t with writes := t.writes ++ [⟨data, len, how, 0, none⟩] } t.writes.length sig
  | .read len how sig =>
    goRead { t with reads := t.reads ++ [⟨len, how, [], none⟩] } t.reads.length sig
  | .resumeWrite i sig => t.goWrite i sig
  | .resumeRead i sig => t.goRead i sig
  | .ends readers writers =>
    { t with ring := { t.ring with readers := readers, writers := writers } }

def run (evs : List Event) (t : Traffic) : Traffic := evs.foldl step t

/-- The bytes that write call `i` has put are its first ones, as many as it says. -/
structure WriteOk (t : Traffic) (i : Nat) (w : Writing) : Prop where
  hi : w.done ≤ w.len
  put : ofCall i t.put = slice w.data 0 w.done
  ret : ∀ a, w.ans = some a → a.ret = .ok (toS32 w.done) ∨ (w.done = 0 ∧ ∃ e, a.ret = .error e)

/-- The bytes that read call `i` has taken are those it returns, if it takes any. -/
structure ReadOk (t : Traffic) (i : Nat) (c : Reading) : Prop where
  taken : ofCall i t.taken = if c.how.peek then [] else c.got
  ret : ∀ a, c.ans = some a → a = .ok c.got.length ∨ (c.got = [] ∧ ∃ e, a = .error e)
  asleep : c.ans = none → c.got = []

structure Sound (t : Traffic) : Prop where
  fifo : t.Fifo
  putBy : ∀ x ∈ t.put, x.1 < t.writes.length
  takenBy : ∀ x ∈ t.taken, x.1 < t.reads.length
  writes : ∀ i w, t.writes[i]? = some w → t.WriteOk i w
  reads : ∀ i c, t.reads[i]? = some c → t.ReadOk i c

variable {t : Traffic} {i : Nat}

lemma WriteOk.of_put {w : Writing} (h : t.WriteOk i w)
    (hput : ofCall i t'.put = ofCall i t.put) : t'.WriteOk i w := ⟨h.hi, hput.trans h.put, h.ret⟩

lemma ReadOk.of_taken {c : Reading} (h : t.ReadOk i c)
    (htaken : ofCall i t'.taken = ofCall i t.taken) : t'.ReadOk i c :=
  ⟨htaken.trans h.taken, h.ret, h.asleep⟩

variable (h : t.Sound)

include h

lemma Sound.goWrite (i : Nat) (sig) : (t.goWrite i sig).Sound := by
  rw [Traffic.goWrite]
  rcases hw : t.writes[i]? with - | w
  · exact h
  dsimp only
  split
  · exact h
  have hlt : i < t.writes.length := (List.getElem?_eq_some_iff.1 hw).1
  have hok := h.writes i w hw
  have hwritten := t.ring.ringWrite_written w.data w.len w.how sig w.done h.fifo.ok hok.hi
  refine ⟨h.fifo.write i w.data w.how sig hok.hi, ?_, h.takenBy, fun j w' hj => ?_,
    fun j c hj => (h.reads j c hj).of_taken rfl⟩
  · intro x hx
    rw [List.length_set]
    exact lt_of_mem_tagged h.putBy hlt hx
  rw [List.getElem?_set] at hj
  split at hj
  · rename_i heq
    subst heq
    obtain rfl := Option.some.inj hj
    refine ⟨hwritten.hi, ?_, hwritten.ret⟩
    simp only [Stream.write, ofCall_append, ofCall_tagged, hok.put]
    exact slice_append w.data (Nat.zero_le _) hwritten.lo
  · rename_i hne
    refine (h.writes j w' hj).of_put ?_
    simp only [Stream.write, ofCall_append, ofCall_tagged_ne (Ne.symm hne), List.append_nil]

lemma Sound.goRead (i : Nat) (sig) : (t.goRead i sig).Sound := by
  rw [Traffic.goRead]
  rcases hc : t.reads[i]? with - | c
  · exact h
  dsimp only
  split
  · exact h
  rename_i hans
  have hlt : i < t.reads.length := (List.getElem?_eq_some_iff.1 hc).1
  have hok := h.reads i c hc
  have hnone : ofCall i t.taken = [] := by
    rw [hok.taken, hok.asleep (by simpa using hans), ite_self]
  refine ⟨h.fifo.read i c.len c.how sig, h.putBy, ?_, fun j w hj =>
    (h.writes j w hj).of_put rfl, fun j c' hj => ?_⟩
  · intro x hx
    rw [List.length_set]
    exact lt_of_mem_tagged h.takenBy hlt hx
  rw [List.getElem?_set] at hj
  split at hj
  · rename_i heq
    subst heq
    obtain rfl := Option.some.inj hj
    have hcases := t.ring.ringRead_cases c.len c.how sig h.fifo.ok
    simp only [Stream.read]
    refine ⟨by simp only [ofCall_append, hnone, ofCall_tagged, List.nil_append], ?_, ?_⟩
    all_goals rcases hcases with ⟨hr, -⟩ | ⟨e, hr, -⟩ | ⟨out, hr, -⟩ <;> simp [hr]
  · rename_i hne
    refine (h.reads j c' hj).of_taken ?_
    simp only [Stream.read, ofCall_append, ofCall_tagged_ne (Ne.symm hne), List.append_nil]

lemma Sound.newWrite (data : Nat → UInt8) (len) (how : How) :
    Sound { t with writes := t.writes ++ [⟨data, len, how, 0, none⟩] } := by
  refine ⟨h.fifo, fun x hx => ?_, h.takenBy, fun j w hj => ?_,
    fun j c hj => (h.reads j c hj).of_taken rfl⟩
  · have := h.putBy x hx
    simp only [length_append, length_singleton]
    omega
  rcases getElem?_concat_cases hj with hj | ⟨rfl, rfl⟩
  · exact (h.writes j w hj).of_put rfl
  refine ⟨Nat.zero_le _, ?_, nofun⟩
  rw [slice_self]
  exact ofCall_eq_nil fun x hx => Nat.ne_of_lt (h.putBy x hx)

lemma Sound.newRead (len : Nat) (how : How) :
    Sound { t with reads := t.reads ++ [⟨len, how, [], none⟩] } := by
  refine ⟨h.fifo, h.putBy, fun x hx => ?_, fun j w hj =>
    (h.writes j w hj).of_put rfl, fun j c hj => ?_⟩
  · have := h.takenBy x hx
    simp only [length_append, length_singleton]
    omega
  rcases getElem?_concat_cases hj with hj | ⟨rfl, rfl⟩
  · exact (h.reads j c hj).of_taken rfl
  refine ⟨?_, nofun, fun _ => rfl⟩
  rw [ite_self]
  exact ofCall_eq_nil fun x hx => Nat.ne_of_lt (h.takenBy x hx)

lemma Sound.step (ev : Event) : (t.step ev).Sound := by
  match ev with
  | .write data len how sig => exact (h.newWrite data len how).goWrite _ sig
  | .read len how sig => exact (h.newRead len how).goRead _ sig
  | .resumeWrite i sig => exact h.goWrite i sig
  | .resumeRead i sig => exact h.goRead i sig
  | .ends readers writers =>
    exact ⟨h.fifo.ends readers writers, h.putBy, h.takenBy,
      fun j w hj => (h.writes j w hj).of_put rfl,
      fun j c hj => (h.reads j c hj).of_taken rfl⟩

lemma Sound.run (evs : List Event) : (run evs t).Sound := by
  induction evs generalizing t with
  | nil => exact h
  | cons ev evs ih => exact ih (h.step ev)

omit h

lemma Sound.start (buf : Nat → UInt8) (readers writers : Int) : (start buf readers writers).Sound :=
  ⟨⟨⟨(by decide : 0 < pipeSize), Nat.zero_le _⟩, rfl⟩, nofun, nofun, nofun, nofun⟩

/-- **A pipe is a queue**, for every interleaving of reads and writes. Never more is held than fits;
what was taken, followed by what is held, is what was put; a write of less than `2 ^ 31` bytes
returns how many of its first bytes were put, or an error when none was; and a read that takes
returns how many it took, and took what it returns. -/
theorem run_fifo (buf : Nat → UInt8) (readers writers : Int) (evs : List Event) :
    let t := Traffic.run evs (Traffic.start buf readers writers)
    t.ring.count ≤ pipeSize ∧
    t.taken.map Prod.snd ++ t.ring.held = t.put.map Prod.snd ∧
    (∀ i w a, t.writes[i]? = some w → w.ans = some a → w.len < 2 ^ 31 →
      (∀ n, a.ret = .ok n → 0 ≤ n ∧ n ≤ w.len ∧ ofCall i t.put = slice w.data 0 n.toNat) ∧
      ∀ e, a.ret = .error e → ofCall i t.put = []) ∧
    ∀ i c a, t.reads[i]? = some c → c.ans = some a → c.how.peek = false →
      ofCall i t.taken = c.got ∧ (∀ n, a = .ok n → n = c.got.length) ∧
        ∀ e, a = .error e → c.got = [] := by
  intro t
  have h : t.Sound := (Sound.start buf readers writers).run evs
  refine ⟨h.fifo.ok.count, h.fifo.order, fun i w a hw ha hlen => ?_, fun i c a hc ha hpeek => ?_⟩
  · have hok := h.writes i w hw
    have hhi := hok.hi
    rcases hok.ret a ha with hret | ⟨hzero, e, hret⟩
    · rw [toS32_of_lt (Nat.lt_of_le_of_lt hhi hlen)] at hret
      refine ⟨fun n hn => ?_, fun e he => by rw [hret] at he; cases he⟩
      obtain rfl := Except.ok.inj (hret.symm.trans hn)
      exact ⟨Int.natCast_nonneg _, Int.ofNat_le.2 hhi, hok.put⟩
    · refine ⟨fun n hn => (by rw [hret] at hn; cases hn), fun _ _ => ?_⟩
      rw [hok.put, hzero, slice_self]
  · have hok := h.reads i c hc
    have htaken := hok.taken
    rw [hpeek] at htaken
    refine ⟨htaken, ?_⟩
    rcases hok.ret a ha with rfl | ⟨hgot, e, rfl⟩
    · exact ⟨fun n hn => (Except.ok.inj hn).symm, nofun⟩
    · exact ⟨nofun, fun _ _ => hgot⟩

/-! ### A long write -/

end Traffic

/-- A write that may sleep, into a ring with a reader, fills it or is done. -/
lemma Ring.ringWrite_fills (p : Ring) (data) {len done} (hreaders : p.readers ≠ 0)
    (hdone : done ≤ len) :
    ((p.ringWrite data len ⟨false, false, false⟩ false done).2.2 = none ∧
        (p.ringWrite data len ⟨false, false, false⟩ false done).1.full len
          (p.ringWrite data len ⟨false, false, false⟩ false done).2.1) ∨
      (p.ringWrite data len ⟨false, false, false⟩ false done).2 =
      (len, some ⟨.ok (toS32 len), false⟩) := by
  rw [ringWrite]
  by_cases hlt : done < len
  · rw [if_pos hlt, if_neg hreaders]
    by_cases hfull : p.full len done
    · rw [if_pos hfull]
      exact .inl ⟨rfl, hfull⟩
    have hpos := want_pos hlt hfull
    rw [if_neg hfull]
    exact ringWrite_fills _ data hreaders (by rw [want]; omega)
  · obtain rfl : done = len := by omega
    rw [if_neg hlt]
    exact .inr rfl
termination_by len - done

/-- A read of `PIPE_SIZE` empties the ring. -/
lemma Ring.ringRead_drains (p : Ring) (hok : p.toRingBuffer.Ok pipeSize) :
    (p.ringRead pipeSize ⟨false, false, false⟩ false).1.count = 0 ∧
      (p.ringRead pipeSize ⟨false, false, false⟩ false).1.readers = p.readers := by
  by_cases hcount : 0 < p.count
  · rw [ringRead_pos _ _ hok (by decide) hcount, Nat.min_eq_right hok.count]
    exact ⟨Nat.sub_self _, rfl⟩
  · rw [ringRead]
    split_ifs <;> exact ⟨Nat.eq_zero_of_not_pos hcount, rfl⟩

namespace Traffic

variable {t : Traffic} {data : Nat → UInt8} {len done : Nat}

/-- The only writer runs: it is done, or sleeps further on if there was room. -/
lemma goWrite_only (h : t.Sound) (hwrites : t.writes =
    [⟨data, len, ⟨false, false, false⟩, done, none⟩])
    (hreaders : t.ring.readers ≠ 0) : (t.goWrite 0 false).writes =
      [⟨data, len, ⟨false, false, false⟩, len, some ⟨.ok (toS32 len), false⟩⟩] ∨
    ∃ d, (t.goWrite 0 false).writes = [⟨data, len, ⟨false, false, false⟩, d, none⟩] ∧
      (t.goWrite 0 false).ring.readers ≠ 0 ∧ (t.ring.count = 0 → done < d) := by
  have hdone : done ≤ len := (h.writes 0 _ (by rw [hwrites]; rfl)).hi
  have hwritten := t.ring.ringWrite_written data len ⟨false, false,
    false⟩ false done h.fifo.ok hdone
  simp only [goWrite, hwrites, getElem?_cons_zero, Option.isSome_none, Bool.false_eq_true, if_false,
    set_cons_zero, Stream.write]
  rcases t.ring.ringWrite_fills data hreaders hdone with ⟨hnone, hfull⟩ | hres
  · refine .inr ⟨_, by rw [hnone], by rw [hwritten.ends.1]; exact hreaders, fun hcount => ?_⟩
    by_contra hle
    have hlo := hwritten.lo
    have hheld := congrArg length hwritten.held
    simp only [Ring.held, length_append, RingBuffer.length_contents, length_slice, hcount] at hheld
    rw [Ring.full, pipeBuf, pipeSize] at hfull
    split at hfull <;> omega
  · rw [hres]
    exact .inl rfl

/-- **Readers can take a write to its end**: they empty the ring, and the writer runs again. -/
lemma exists_written {t : Traffic} {done : Nat} (h : t.Sound)
    (hwrites : t.writes = [⟨data, len, ⟨false, false, false⟩, done, none⟩])
    (hreaders : t.ring.readers ≠ 0) : ∃ evs, (run evs t).writes =
      [⟨data, len, ⟨false, false, false⟩, len, some ⟨.ok (toS32 len), false⟩⟩] := by
  obtain ⟨hcount, hsome⟩ := t.ring.ringRead_drains h.fifo.ok
  have hsound := h.step (.read pipeSize ⟨false, false, false⟩ false)
  have hring : (t.step (.read pipeSize ⟨false, false, false⟩ false)).ring =
      (t.ring.ringRead pipeSize ⟨false, false, false⟩ false).1 ∧
      (t.step (.read pipeSize ⟨false, false, false⟩ false)).writes = t.writes := by
    simp [step, goRead, Stream.read]
  rw [← hring.1] at hcount hsome
  rcases goWrite_only hsound (hring.2.trans hwrites) (hsome ▸ hreaders) with hend | ⟨d,
    hnext, hsome, hlt⟩
  · exact ⟨[.read pipeSize ⟨false, false, false⟩ false, .resumeWrite 0 false], hend⟩
  have hd := hlt hcount
  have hle : d ≤ len := ((hsound.goWrite 0 false).writes 0 _ (by rw [hnext]; rfl)).hi
  obtain ⟨evs, hevs⟩ := exists_written (hsound.goWrite 0 false) hnext hsome
  exact ⟨.read pipeSize ⟨false, false, false⟩ false :: .resumeWrite 0 false :: evs, hevs⟩
termination_by len - done

/-- A write of `2 ^ 31` bytes that goes in whole returns a negative count. -/
theorem long_write_count : ∃ evs, ∃ w a, (run evs (start (fun _ => 0) 1 1)).writes[0]? = some w ∧
    w.ans = some a ∧
      a.ret = .ok (-2 ^ 31) ∧ (ofCall 0 (run evs (start (fun _ => 0) 1 1)).put).length = 2 ^ 31 :=
      by
  obtain ⟨evs, hend⟩ : ∃ evs, (run evs (start (fun _ => 0) 1 1)).writes =
      [⟨fun _ => 0, 2 ^ 31, ⟨false, false, false⟩, 2 ^ 31, some ⟨.ok (toS32 (2 ^ 31)), false⟩⟩] :=
          by
    have hnew := (Sound.start (fun _ => 0) 1 1).newWrite (fun _ => 0) (2 ^ 31) ⟨false, false, false⟩
    rcases goWrite_only hnew rfl (show (1 : Int) ≠ 0 by decide) with hend | ⟨d, hnext, hsome, -⟩
    · exact ⟨[.write (fun _ => 0) (2 ^ 31) ⟨false, false, false⟩ false], hend⟩
    obtain ⟨evs, hevs⟩ := exists_written (hnew.goWrite 0 false) hnext hsome
    exact ⟨.write (fun _ => 0) (2 ^ 31) ⟨false, false, false⟩ false :: evs, hevs⟩
  have hsound : (run evs (start (fun _ => 0) 1 1)).Sound := (Sound.start _ 1 1).run _
  have hget := congrArg (·[0]?) hend
  refine ⟨evs, _, _, hget, rfl, rfl, ?_⟩
  rw [(hsound.writes 0 _ hget).put, length_slice, Nat.sub_zero]

/-- A write of three bytes, of which a reader takes two. -/
theorem run_fifo_three :
    let t := run [.write (fun i => i.toUInt8) 3 ⟨false, false, false⟩ false,
      .read 2 ⟨false, false, false⟩ false] (start (fun _ => 0) 1 1)
    ∃ w a, t.writes[0]? = some w ∧ w.ans = some a ∧
      ∀ n, a.ret = .ok n → ofCall 0 t.put = slice w.data 0 n.toNat := by
  intro t
  have hw : (t.writes[0]?.map fun w => (w.len, w.ans.isSome)) = some (3, true) := by decide +kernel
  obtain ⟨w, hget, hw⟩ := map_eq_some_iff.1 hw
  obtain ⟨hlen, hans⟩ := Prod.mk.inj hw
  obtain ⟨a, ha⟩ := isSome_iff_exists.1 hans
  refine ⟨w, a, hget, ha, fun n hn => ?_⟩
  exact (((run_fifo (fun _ => 0) 1 1 _).2.2.1 0 w a hget ha (by rw [hlen]; decide)).1 n hn).2.2

end Traffic

end Sage040.Pipe
