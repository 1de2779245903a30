import Sage040.Kernel.Pipe.Ring

/-!
# Looking into a socket pair

`usock_recv` of `kernel/pipe.c`. With `MSG_WAITALL` it reads the ring until it has all that was
asked for; with `MSG_PEEK` nothing is taken from the ring, and what is read is read again.
-/

namespace Sage040.Pipe

open List Ring

/-- One end of a socket pair, as `usock_recv` knows it: the ring it reads, and the other one. -/
structure Uend where
  rx : Ring
  tx : Ring
  shutRd : Bool

/-- `MSG_DONTWAIT`, `MSG_PEEK` and `MSG_WAITALL`. -/
structure Msg where
  dontwait : Bool
  peek : Bool
  waitall : Bool

/-- What a stretch of `usock_recv` has put into the buffer, and its answer unless it sleeps. -/
abbrev Received := List UInt8 × Option (Except Errno Int)

/-- A stretch of the loop for `MSG_WAITALL`, which has come to byte `done`. -/
def recvAll (p : Ring) (len : Nat) (how : How) (sig : Bool) (done : Nat) (out : List UInt8) :
    Ring × Received :=
  if done < len then
    match p.ringRead (len - done) how sig with
    | (p, none) => (p, out, none)
    | (p, some (.error e, _)) =>
      (p, out, some (if 0 < toS32 done then .ok (toS32 done) else .error e))
    | (p, some (.ok n, bytes)) =>
      if n ≤ 0 then (p, out, some (.ok (if 0 < toS32 done then toS32 done else n)))
      else recvAll p len how sig (done + n.toNat) (out ++ bytes)
  else (p, out, some (.ok (toS32 done)))
termination_by len - done

/-- A stretch without `MSG_WAITALL`. -/
def recvSome (p : Ring) (len : Nat) (how : How) (sig : Bool) : Ring × Received :=
  let r := p.ringRead len how sig
  (r.1, (r.2.map Prod.snd).getD [], r.2.map Prod.fst)

namespace Uend

/-- A stretch of `usock_recv` with nothing read so far, once `shut_rd` was looked at. -/
def stretch (u : Uend) (nonblock : Bool) (len : Nat) (flags : Msg) (sig : Bool) : Uend × Received :=
  let how : How := ⟨nonblock || flags.dontwait, flags.peek, false⟩
  let r := if flags.waitall then recvAll u.rx len how sig 0 [] else recvSome u.rx len how sig
  ({ u with rx := r.1 }, r.2)

/-- `usock_recv`, up to its answer or its first sleep. -/
def usockRecv (u : Uend) (nonblock : Bool) (len : Nat) (flags : Msg) (sig : Bool) :
    Uend × Received :=
  if u.shutRd then (u, [], some (.ok 0)) else u.stretch nonblock len flags sig

/-- The stretches of a call that finds its end in these states, first and each time it is woken: the
state it answers in, the one it leaves, and the answer. `shut_rd` is not looked at again. -/
def stretches (nonblock : Bool) (len : Nat) (flags : Msg) :
    List (Uend × Bool) → Option (Uend × Uend × List UInt8 × Except Errno Int)
  | [] => none
  | (u, sig) :: woken =>
    match u.stretch nonblock len flags sig with
    | (u', out, some ans) => some (u, u', out, ans)
    | (_, _, none) => stretches nonblock len flags woken

/-- A whole call of `usock_recv` that begins in `u`. -/
def recvCall (u : Uend) (nonblock : Bool) (len : Nat) (flags : Msg) (sig : Bool)
    (woken : List (Uend × Bool)) :
    Option (Uend × Uend × List UInt8 × Except Errno Int) :=
  if u.shutRd then some (u, u, [], .ok 0) else stretches nonblock len flags ((u, sig) :: woken)

end Uend

variable {p : Ring} {len : Nat} {how : How} {sig : Bool}

lemma prefix_recvAll (p) (done : Nat) (out : List UInt8) :
    out <+: (recvAll p len how sig done out).2.1 := by
  fun_induction recvAll p len how sig done out with
  | case4 _ _ _ _ _ _ _ _ _ ih => exact (prefix_append _ _).trans ih
  | _ => exact prefix_rfl

section Ring

variable (hok : p.toRingBuffer.Ok pipeSize)

include hok

lemma take_prefix_recv (how : How) (sig) : p.held.take len <+: (recvAll p len how sig 0 []).2.1 ∧
      p.held.take len <+: (recvSome p len how sig).2.1 := by
  by_cases hpos : len ≠ 0 ∧ 0 < p.count
  · have htake : p.held.take len = p.held.take (min len p.count) := by
      simp [take_eq_take_iff, held]
    rw [recvAll, if_pos (Nat.pos_of_ne_zero hpos.1), recvSome, Nat.sub_zero,
      ringRead_pos how sig hok hpos.1 hpos.2, htake]
    dsimp only
    rw [if_neg (by omega)]
    exact ⟨prefix_recvAll .., prefix_rfl⟩
  have hnil : p.held.take len = [] := by
    rw [take_eq_nil_iff, ← length_eq_zero_iff, held, RingBuffer.length_contents]
    omega
  rw [hnil]
  exact .intro nil_prefix nil_prefix

variable (hpeek : how.peek = true)

include hpeek

/-- With all of it there, or nothing, `MSG_WAITALL` makes no difference to a peek. -/
lemma recvAll_peek (sig) (hall : len ≤ p.count ∨ p.count = 0) :
    recvAll p len how sig 0 [] = recvSome p len how sig := by
  rw [recvAll, recvSome, Nat.sub_zero]
  by_cases hempty : len = 0 ∨ p.count = 0
  · rcases ringRead_empty how sig hempty with h | ⟨hlen, ⟨e, h⟩ | ⟨h, -⟩⟩ <;> rw [h]
    · split <;> rfl
    iterate 2
      · rw [if_pos (by omega)]
        rfl
  have hle : len ≤ p.count := by omega
  have hlt : len < 2 ^ 31 := Nat.lt_of_le_of_lt (hle.trans hok.count) (by decide)
  rw [if_pos (by omega), ringRead_pos how sig hok (by omega) (by omega), if_pos hpeek,
    Nat.min_eq_left hle]
  dsimp only
  rw [if_neg (by omega), recvAll, if_neg (by omega), Int.toNat_natCast, Nat.zero_add,
    toS32_of_lt hlt]
  rfl

/-- A look leaves the ring, and sleeps only where it is empty. -/
lemma recvSome_peek {p'} {out : List UInt8} {ans : Option (Except Errno Int)}
    (h : recvSome p len how sig = (p', out, ans)) : p' = p ∧ out <+: p.held ∧
      (ans = none → p.count = 0 ∧ p.writers ≠ 0 ∧ how.nonblock = false ∧ sig = false) ∧
      ∀ n, ans = some (.ok n) → n = out.length := by
  rw [recvSome] at h
  by_cases hempty : len = 0 ∨ p.count = 0
  · rcases ringRead_empty how sig hempty with hr | ⟨hlen, ⟨e, hr⟩ | ⟨hr, hsleeps⟩⟩ <;>
      rw [hr] at h <;>
      cases h
    · exact ⟨rfl, nil_prefix, nofun, fun n hn => by cases hn; rfl⟩
    · exact ⟨rfl, nil_prefix, nofun, nofun⟩
    · exact ⟨rfl, nil_prefix, fun _ => ⟨hempty.resolve_left hlen, hsleeps⟩, nofun⟩
  rw [ringRead_pos how sig hok (by omega) (by omega), if_pos hpeek] at h
  cases h
  refine ⟨rfl, take_prefix _ _, nofun, fun n hn => ?_⟩
  cases hn
  simp [held]

/-- From a ring with something in it `MSG_WAITALL` looks until the length is reached, whatever there
is. -/
lemma recvAll_pos (sig) (hcount : 0 < p.count) (k : Nat) (out : List UInt8) (hk : k ≤ len) :
    ∃ more, recvAll p len how sig (len - k) out = (p, out ++ more, some (.ok (toS32 len))) ∧
    more.length = k := by
  induction k using Nat.strongRecOn generalizing out with
  | ind k ih =>
    rw [recvAll]
    by_cases hzero : k = 0
    · subst hzero
      exact ⟨[], by rw [if_neg (by omega), append_nil, Nat.sub_zero], rfl⟩
    rw [if_pos (by omega), show len - (len - k) =
      k by omega, ringRead_pos how sig hok hzero hcount, if_pos hpeek]
    dsimp only
    rw [if_neg (by omega), Int.toNat_natCast, show len - k + min k p.count = len -
      (k - min k p.count) by omega]
    obtain ⟨more, heq, hlen⟩ := ih (k - min k p.count) (by omega) (out ++
      p.held.take (min k p.count)) (by omega)
    refine ⟨p.held.take (min k p.count) ++ more, by rw [heq, append_assoc], ?_⟩
    rw [length_append, length_take, hlen, held, RingBuffer.length_contents]
    omega

omit hpeek

/-- A receive without `MSG_WAITALL` gets no more than there is. -/
lemma length_recvSome_le (how : How) (sig) (hcount : 0 < p.count) :
    (recvSome p len how sig).2.1.length ≤ p.count := by
  rw [recvSome]
  by_cases hlen : len = 0
  · simp [ringRead, hlen]
  · rw [ringRead_pos how sig hok hlen hcount]
    simp [held]

end Ring

section Stretch

variable {u : Uend} {nonblock : Bool} {flags : Msg} (hok : u.rx.toRingBuffer.Ok pipeSize)
  (hpeek : flags.peek = true)

/-- What was shown is what any receive after it that has room for it begins with. -/
def Uend.Shown (u : Uend) (nonblock : Bool) (out : List UInt8) : Prop :=
  ∀ len flags sig, flags.peek = false → out.length ≤ len →
    out <+: (u.usockRecv nonblock len flags sig).2.1

include hok

lemma shown_of_begins {out : List UInt8} (hshut : u.shutRd = false) (hout : out <+: u.rx.held) :
    u.Shown nonblock out := by
  intro len' flags' sig' _ hroom
  refine (prefix_take_iff.2 ⟨hout, hroom⟩).trans ?_
  rw [Uend.usockRecv, hshut, if_neg Bool.false_ne_true, Uend.stretch]
  dsimp only
  split
  · exact (take_prefix_recv hok ..).1
  · exact (take_prefix_recv hok ..).2

/-- More than there is cannot be what a read begins with, nor anything after a shutdown. -/
lemma not_shown {out : List UInt8} (hcount : 0 < u.rx.count) (hout : 0 < out.length)
    (h : u.shutRd = true ∨ u.rx.count < out.length) : ¬u.Shown nonblock out := by
  intro hshown
  have hpre := (hshown out.length ⟨false, false, false⟩ false rfl le_rfl).length_le
  rw [Uend.usockRecv] at hpre
  split at hpre
  · exact absurd hpre (Nat.not_le.2 hout)
  · rename_i hshut
    exact absurd (hpre.trans (length_recvSome_le hok _ _ hcount))
      (Nat.not_le.2 (h.resolve_left hshut))

include hpeek

/-- What one stretch of a peek comes to. -/
lemma stretch_peek (nonblock) (len sig) : ∃ out ans,
    u.stretch nonblock len flags sig = (u, out, ans) ∧
    (ans = none → u.rx.count = 0 ∧ u.rx.writers ≠ 0 ∧ (nonblock || flags.dontwait) = false ∧
    sig = false) ∧
    (∀ n, ans = some (.ok n) → n = toS32 out.length) ∧
    (u.Shown nonblock out ↔
      u.rx.count = 0 ∨ len = 0 ∨ u.shutRd = false ∧ (flags.waitall = true → len ≤ u.rx.count)) := by
  rw [Uend.stretch]
  set how : How := ⟨nonblock || flags.dontwait, flags.peek, false⟩
  by_cases hmore : flags.waitall = true ∧ u.rx.count < len ∧ 0 < u.rx.count
  · -- the bytes are shown again and again
    obtain ⟨hwait, hlt, hcount⟩ := hmore
    obtain ⟨out, heq, hlen⟩ := recvAll_pos hok (show how.peek = true from hpeek) sig hcount
      len [] le_rfl
    rw [Nat.sub_self, nil_append] at heq
    refine ⟨out, _, by rw [if_pos hwait, heq], by simp, fun n hn => ?_, ?_⟩
    · cases hn
      rw [hlen]
    · refine iff_of_false (not_shown hok hcount (by omega) (.inr (by omega))) ?_
      rintro (h | h | ⟨-, h⟩)
      · omega
      · omega
      · exact absurd (h hwait) (by omega)
  have hsome : (if flags.waitall then recvAll u.rx len how sig 0 [] else
    recvSome u.rx len how sig) =
      recvSome u.rx len how sig := by
    split
    · exact recvAll_peek hok hpeek sig
        (by rename_i hwait; simp only [hwait, true_and] at hmore; omega)
    · rfl
  rw [hsome]
  rcases hr : recvSome u.rx len how sig with ⟨p, out, ans⟩
  obtain ⟨rfl, hheld, hsleeps, hcount⟩ := recvSome_peek hok hpeek hr
  have hle : out.length ≤ pipeSize := by
    refine hheld.length_le.trans ?_
    rw [held, RingBuffer.length_contents]
    exact hok.count
  refine ⟨out, ans, rfl, hsleeps, fun n hn => ?_, ?_⟩
  · rw [hcount n hn, toS32_of_lt (Nat.lt_of_le_of_lt hle (by decide))]
  by_cases hempty : u.rx.count = 0 ∨ len = 0
  · have hnil : out = [] := by
      rw [recvSome] at hr
      rcases ringRead_empty how sig hempty.symm with h | ⟨-, ⟨e, h⟩ | ⟨h, -⟩⟩ <;> rw [h] at hr <;>
        cases hr <;> rfl
    rw [hnil]
    exact iff_of_true (fun _ _ _ _ _ => nil_prefix) (by omega)
  · have hpos : 0 < out.length := by
      rw [recvSome, ringRead_pos how sig hok (by omega) (by omega),
        if_pos (show how.peek = true from hpeek)] at hr
      cases hr
      simp [held]
      omega
    cases hshut : u.shutRd with
    | true => exact iff_of_false (not_shown hok (by omega) hpos (.inl hshut)) (by simp; omega)
    | false =>
      refine iff_of_true (shown_of_begins hok hshut hheld) (.inr (.inr ⟨rfl, fun hwait => ?_⟩))
      simp only [hwait, true_and] at hmore
      omega

end Stretch

/-- **A peek shows what a read will get** exactly if there was nothing to show, or the end is not
shut down when it answers and with `MSG_WAITALL` all that was asked for is there. It leaves both
rings, sleeps only while the ring is empty, and answers how many bytes it has shown. -/
theorem peek_shows_iff {nonblock : Bool} {flags : Msg} (hpeek : flags.peek = true)
    (u : Uend) (sig : Bool)
    (woken : List (Uend × Bool)) (hok : ∀ x ∈ (u, sig) :: woken, x.1.rx.toRingBuffer.Ok pipeSize) :
    (∀ x ∈ (u, sig) :: woken, (x.1.stretch nonblock len flags x.2).1 = x.1 ∧
      ((x.1.stretch nonblock len flags x.2).2.2 = none →
        x.1.rx.count = 0 ∧ x.1.rx.writers ≠ 0 ∧ (nonblock || flags.dontwait) = false ∧
        x.2 = false)) ∧
    ∀ v v' out ans, u.recvCall nonblock len flags sig woken = some (v, v', out, ans) →
      v' = v ∧ (∀ n, ans = .ok n → n = toS32 out.length) ∧
      (v'.Shown nonblock out ↔ u.shutRd = true ∨
        v.rx.count = 0 ∨ len = 0 ∨ v.shutRd = false ∧ (flags.waitall = true → len ≤ v.rx.count)) :=
        by
  refine ⟨fun x hx => ?_, fun v v' out ans h => ?_⟩
  · obtain ⟨out, ans, heq, hsleeps, -⟩ := stretch_peek (hok x hx) hpeek nonblock len x.2
    rw [heq]
    exact ⟨rfl, hsleeps⟩
  rw [Uend.recvCall] at h
  split at h
  · rename_i hshut
    cases h
    exact ⟨rfl, fun n hn => by
      cases hn; rfl, iff_of_true (fun _ _ _ _ _ => nil_prefix) (.inl hshut)⟩
  rename_i hshut
  rw [or_iff_right hshut]
  generalize (u, sig) :: woken = found at hok h
  -- the stretches that slept leave nothing behind
  induction found with
  | nil => cases h
  | cons x found ih =>
    obtain ⟨x, sig⟩ := x
    obtain ⟨out', ans', heq, -, hcount, hshown⟩ := stretch_peek
      (hok (x, sig) mem_cons_self) hpeek nonblock len sig
    rw [Uend.stretches, heq] at h
    cases ans' with
    | none => exact ih (fun y hy => hok y (mem_cons_of_mem _ hy)) h
    | some a =>
      cases h
      exact ⟨rfl, fun n hn => hcount n (by rw [hn]), hshown⟩

def twoBytes : Uend :=
  ⟨⟨⟨fun i => if i = 0 then 97 else 98, 0, 2⟩, 1, 1⟩, ⟨⟨fun _ => 0, 0, 0⟩, 1, 1⟩, false⟩

/-- **Of two bytes, four are shown**: the same two again, which a read does not get. -/
theorem peek_repeats : (twoBytes.usockRecv false 4 ⟨false, true, true⟩ false).2 =
    ([97, 98, 97, 98], some (.ok 4)) ∧
      (twoBytes.usockRecv false 4 ⟨false, false, false⟩ false).2 = ([97, 98], some (.ok 2)) := by
  decide +kernel

/-- Woken by two bytes, a peek for two shows them. -/
theorem peek_shows_iff_woken : (⟨twoBytes.tx, twoBytes.rx, false⟩ : Uend).recvCall false 2 ⟨false,
    true, true⟩ false
    [(twoBytes, false)] = some (twoBytes, twoBytes, [97, 98], .ok 2) ∧
    twoBytes.Shown false [97, 98] := by
  have h : (⟨twoBytes.tx, twoBytes.rx, false⟩ : Uend).recvCall false 2 ⟨false, true, true⟩ false
      [(twoBytes, false)] = some (twoBytes, twoBytes, [97, 98], .ok 2) := by
    simp [Uend.recvCall, Uend.stretches, Uend.stretch, recvAll, ringRead, copyOut, twoBytes,
      toS32, pipeSize]
  refine ⟨h, (((peek_shows_iff rfl _ _ _ ?_).2 _ _ _ _ h).2.2).2
    (.inr (.inr (.inr ⟨rfl, fun _ => le_rfl⟩)))⟩
  simp only [forall_mem_cons, not_mem_nil, false_imp_iff, implies_true, and_true]
  exact ⟨⟨by decide, by decide⟩, ⟨by decide, by decide⟩⟩

end Sage040.Pipe
