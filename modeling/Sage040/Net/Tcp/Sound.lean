import Sage040.Lib.Runs
import Sage040.Net.Tcp.Input

/-!
# The send side keeps every byte until it is acknowledged

`Snd.Sound` is the order of the send side: `snd_una`, `snd_nxt` and the scoreboard lie within what
the ring holds and the FIN after it, the ring is what was given and not acknowledged, and everything
below `snd_max` was sent. All of it is said with offsets from `snd_una`, which stay below `2 ^ 31`.

`ack_sent_data` takes any acknowledgement that is past `snd_una`. One that is past `snd_nxt` too,
which is what answers data sent before a timeout took `snd_nxt` back, leaves `snd_una` ahead of it
(`late_ack_times_out`). `run_sound` is for the runs in which no such acknowledgement arrives.
-/

namespace Sage040.Tcp

open List RingBuffer Snd SeqNum

open SeqNum (gt le ge off)

namespace Snd

variable {given : List UInt8} {s s' : Snd} {w w' : Wire} {st : Stamp} {tsOk : Bool} {p n o : Nat}
  {seq ack : SeqNum}

/-- How far `snd_max` is past `snd_una`. -/
def high (s : Snd) : Nat := off s.una s.sndMax

/-- A segment with byte `p` of the stream was sent. -/
def Carried (given : List UInt8) (w : Wire) (p : Nat) : Prop :=
  ∃ o ∈ w.out, o.pos ≤ p ∧ ∃ b, o.data[p - o.pos]? = some b ∧ given[p]? = some b

/-- While something is to be acknowledged: the FIN at least. -/
structure Open (s : Snd) : Prop where
  high : s.high ≤ s.len
  sent : min s.inflight s.len ≤ s.high
  sacked : ∀ r ∈ s.sacked, off s.una r.start < off s.una r.stop ∧ off s.una r.stop ≤ s.high

structure Shut (given : List UInt8) (s : Snd) : Prop where
  acked : s.acked = given.length + 1
  inflight : s.inflight = 0
  fin : s.finSent = true

structure Ordered (given : List UInt8) (w : Wire) (s : Snd) : Prop where
  ring : s.buf.Ok sndbufSize
  contents : s.buf.contents sndbufSize = given.drop s.acked
  inflight : s.inflight ≤ s.len + 1
  fin : s.inflight = s.len + 1 → s.finSent = true
  open_ : s.acked ≤ given.length → s.Open
  shut : given.length < s.acked → s.Shut given
  carried : ∀ p < given.length, p < s.acked + s.high ∨ given.length < s.acked → Carried given w p

/-- The timer runs only while something is not acknowledged. -/
structure Sound (given : List UInt8) (w : Wire) (s : Snd) : Prop extends Ordered given w s where
  armed : s.rexmitAt ≠ 0 → 0 < s.len ∨ s.finPending = true ∨
    (s.finSent = true ∧ s.acked ≤ given.length)

lemma Ordered.len_le (h : Ordered given w s) : s.len ≤ 65536 := h.ring.count

lemma Ordered.len_eq (h : Ordered given w s) : s.len = given.length - s.acked := by
  have := congrArg length h.contents
  rwa [length_contents, length_drop] at this

structure Same (s s' : Snd) : Prop where
  una : s'.una = s.una
  nxt : s'.nxt = s.nxt
  buf : s'.buf = s.buf
  sndMax : s'.sndMax = s.sndMax
  sacked : s'.sacked = s.sacked
  rexmitAt : s'.rexmitAt = s.rexmitAt
  finSent : s'.finSent = s.finSent
  finPending : s'.finPending = s.finPending
  acked : s'.acked = s.acked

lemma Same.trans {s''} (h : Same s s') (h' : Same s' s'') : Same s s'' :=
  ⟨h'.una.trans h.una, h'.nxt.trans h.nxt, h'.buf.trans h.buf, h'.sndMax.trans h.sndMax,
    h'.sacked.trans h.sacked, h'.rexmitAt.trans h.rexmitAt, h'.finSent.trans h.finSent,
    h'.finPending.trans h.finPending, h'.acked.trans h.acked⟩

lemma Open.of_eq (h : s.Open) (una : s'.una = s.una) (nxt : s'.nxt = s.nxt) (buf : s'.buf = s.buf)
    (sndMax : s'.sndMax = s.sndMax) (sacked : s'.sacked = s.sacked) : s'.Open := by
  have hhigh : s'.high = s.high := by rw [Snd.high, Snd.high, una, sndMax]
  have hinflight : s'.inflight = s.inflight := by rw [Snd.inflight, Snd.inflight, una, nxt]
  have hlen : s'.len = s.len := by rw [len, len, buf]
  refine ⟨?_, ?_, ?_⟩
  · rw [hhigh, hlen]
    exact h.high
  · rw [hhigh, hinflight, hlen]
    exact h.sent
  · rw [hhigh, una, sacked]
    exact h.sacked

lemma Ordered.of_same (h : Ordered given w s) (hs : Same s s') : Ordered given w s' := by
  have hhigh : s'.high = s.high := by rw [high, high, hs.una, hs.sndMax]
  have hinflight : s'.inflight = s.inflight := by rw [Snd.inflight, Snd.inflight, hs.una, hs.nxt]
  have hlen : s'.len = s.len := by rw [len, len, hs.buf]
  refine ⟨?_, ?_, ?_, ?_, fun ha => ?_, fun ha => ?_, ?_⟩
  · rw [hs.buf]
    exact h.ring
  · rw [hs.buf, hs.acked]
    exact h.contents
  · rw [hinflight, hlen]
    exact h.inflight
  · rw [hinflight, hlen, hs.finSent]
    exact h.fin
  · exact (h.open_ (hs.acked ▸ ha)).of_eq hs.una hs.nxt hs.buf hs.sndMax hs.sacked
  · have hsh := h.shut (hs.acked ▸ ha)
    exact ⟨hs.acked.trans hsh.acked, hinflight.trans hsh.inflight, hs.finSent.trans hsh.fin⟩
  · rw [hs.acked, hhigh]
    exact h.carried

lemma Ordered.frame (h : Ordered given w s) (rexmitAt) (finPending) :
    Ordered given w { s with rexmitAt, finPending } :=
  ⟨h.ring, h.contents, h.inflight, h.fin, fun ha => (h.open_ ha).of_eq rfl rfl rfl rfl rfl,
    fun ha => ⟨(h.shut ha).acked, (h.shut ha).inflight, (h.shut ha).fin⟩, h.carried⟩

lemma Sound.of_same (h : Sound given w s) (hs : Same s s') : Sound given w s' := by
  refine ⟨h.toOrdered.of_same hs, ?_⟩
  rw [hs.rexmitAt, len, hs.buf, hs.finPending, hs.finSent, hs.acked]
  exact h.armed

/-! ## What is sent -/

lemma Carried.mono (h : Carried given w p) (hw : ∀ o ∈ w.out, o ∈ w'.out) : Carried given w' p := by
  obtain ⟨o, ho, hpos, hb⟩ := h
  exact ⟨o, hw o ho, hpos, hb⟩

lemma put_out (w : Wire) (x : Out) : ∀ o ∈ w.out, o ∈ (w.put x).1.out := by
  intro o ho
  rw [Wire.put]
  split
  · exact mem_cons_of_mem x ho
  · exact ho

lemma Ordered.mono (h : Ordered given w s) (hw : ∀ o ∈ w.out, o ∈ w'.out) : Ordered given w' s :=
  ⟨h.ring, h.contents, h.inflight, h.fin, h.open_, h.shut,
    fun p hp hlt => (h.carried p hp hlt).mono hw⟩

lemma Sound.mono (h : Sound given w s) (hw : ∀ o ∈ w.out, o ∈ w'.out) : Sound given w' s :=
  ⟨h.toOrdered.mono hw, h.armed⟩

/-- `snd_copy` gives the bytes of the stream. -/
lemma copy_eq (h : Ordered given w s) (hn : o + n ≤ s.len) :
    s.copy o n = (given.drop (s.acked + o)).take n := by
  rw [← drop_drop, ← h.contents]
  refine ext_getElem ?_ fun i hi hi' => ?_
  · have hcount : s.buf.count = s.len := rfl
    simp only [copy, length_map, length_range, length_take, length_drop, length_contents, hcount]
    omega
  · simp only [copy, contents, getElem_map, getElem_range, getElem_take, getElem_drop,
      Nat.add_assoc]

/-- The segment that `send_range` makes. -/
def segment (st : Stamp) (s : Snd) (seq : SeqNum) (n : Nat) : Out :=
  ⟨seq, { ack := true, psh := true }, s.copy (off s.una seq) n, st.ack, st.window,
    s.acked + off s.una seq⟩

lemma carried_segment (h : Ordered given w s) (hn : off s.una seq + n ≤ s.len)
    (hw : segment st s seq n ∈ w'.out) (hp : s.acked + off s.una seq ≤ p)
    (hlt : p < s.acked + off s.una seq + n) : Carried given w' p := by
  have hplt : p < given.length := by
    have := h.len_eq
    omega
  refine ⟨_, hw, hp, given[p], ?_, getElem?_eq_getElem hplt⟩
  simp only [segment, copy_eq h hn]
  rw [getElem?_take_of_lt (by omega), getElem?_drop, Nat.add_sub_cancel' hp,
    getElem?_eq_getElem hplt]

lemma sendRange_out (st : Stamp) (s w seq n) : ∀ o ∈ w.out,
    o ∈ (sendRange st s w seq n).2.1.out := put_out w _

lemma mem_out_sendRange (hok : (sendRange st s w seq n).2.2 = true) :
    segment st s seq n ∈ (sendRange st s w seq n).2.1.out := by
  simp only [sendRange, Wire.put] at hok ⊢
  split at hok
  · rename_i htx
    rw [if_pos htx]
    exact mem_cons_self
  · cases hok

/-- Where `snd_max` goes. -/
lemma high_sendRange (st w seq n) (h : s.high < 2 ^ 31) (htop : off s.una seq + n < 2 ^ 31) :
    (sendRange st s w seq n).1.high =
      if (sendRange st s w seq n).2.2 then max s.high (off s.una seq + n) else s.high := by
  have hoff : off s.una (seq + BitVec.ofNat 32 n) = off s.una seq + n := SeqNum.off_add (by omega)
  have hgt := SeqNum.gt_iff_off s.una (x := seq + BitVec.ofNat 32 n) (y := s.sndMax) (by omega) h
  by_cases hok : (sendRange st s w seq n).2.2 = true
  · rw [if_pos hok]
    simp only [sendRange, high] at hok hgt ⊢
    simp only [hok, Bool.true_and]
    split
    · rename_i hlt
      have := hgt.1 hlt
      omega
    rename_i hge
    have := mt hgt.2 hge
    omega
  · rw [if_neg hok]
    simp only [sendRange, high] at hok ⊢
    simp only [hok, Bool.false_and, Bool.false_eq_true, if_false]

/-- A range within the ring that joins on to what was sent before. -/
lemma Ordered.sendRange (h : Ordered given w s) (st seq n) (hopen : s.acked ≤ given.length)
    (ho : off s.una seq ≤ s.high) (hn : off s.una seq + n ≤ s.len) :
    Ordered given (sendRange st s w seq n).2.1 (sendRange st s w seq n).1 := by
  have hlen := h.len_le
  have hop := h.open_ hopen
  have hle := hop.high
  have hhigh := high_sendRange (s := s) st w seq n (by omega) (by omega)
  have hge : s.high ≤ (Snd.sendRange st s w seq n).1.high := by
    rw [hhigh]
    split <;> omega
  have hold := h.mono (sendRange_out st s w seq n)
  refine ⟨h.ring, h.contents, h.inflight, h.fin, fun _ => ⟨?_, ?_, fun r hr => ?_⟩, fun ha => ?_,
    fun p hp hlt => ?_⟩
  · rw [hhigh]
    show _ ≤ s.len
    split <;> omega
  · exact Nat.le_trans hop.sent hge
  · exact ⟨(hop.sacked r hr).1, Nat.le_trans (hop.sacked r hr).2 hge⟩
  · exact absurd ha (Nat.not_lt.2 hopen)
  rcases Nat.lt_or_ge p (s.acked + s.high) with hlow | hgep
  · exact hold.carried p hp (.inl hlow)
  have hlt : p < s.acked + (Snd.sendRange st s w seq n).1.high :=
    hlt.resolve_right (Nat.not_lt.2 hopen)
  rw [hhigh] at hlt
  split at hlt
  · rename_i hok
    exact carried_segment h hn (mem_out_sendRange hok) (by omega) (by omega)
  · omega

/-- A number past `seq` that the peer holds all up to is the end of one of its ranges. -/
lemma sackedUntil_cases (s : Snd) (seq) : s.sackedUntil seq = seq ∨ ∃ r ∈ s.sacked,
    s.sackedUntil seq = r.stop := by
  rw [sackedUntil]
  split
  · rename_i r hr
    exact .inr ⟨r, mem_of_find?_eq_some hr, rfl⟩
  · exact .inl rfl

lemma cutAt_step (seq) (r : Range) (hn : n < 2 ^ 31) (hpos : 0 < n) :
    let n' := if gt r.start seq && gt (seq + BitVec.ofNat 32 n) r.start then
      (r.start - seq).toNat else n
    0 < n' ∧ n' ≤ n := by
  split
  · rename_i hgt
    rw [Bool.and_eq_true] at hgt
    simp only [gt, decide_eq_true_eq] at hgt
    have hofNat : (BitVec.ofNat 32 n).toNat = n := by
      rw [BitVec.toNat_ofNat, Nat.mod_eq_of_lt (by omega)]
    refine ⟨hgt.1.1, ?_⟩
    bv_omega
  · exact ⟨hpos, Nat.le_refl n⟩

lemma cutAt_spec (s : Snd) (seq) (hn : n < 2 ^ 31) (hpos : 0 < n) : 0 < s.cutAt seq n ∧
    s.cutAt seq n ≤ n := by
  rw [cutAt]
  induction s.sacked generalizing n with
  | nil => exact ⟨hpos, Nat.le_refl n⟩
  | cons r rs ih =>
    obtain ⟨hpos', hle⟩ := cutAt_step seq r hn hpos
    obtain ⟨h1, h2⟩ := ih (Nat.lt_of_le_of_lt hle hn) hpos'
    exact ⟨h1, Nat.le_trans h2 hle⟩

variable {fuel : Nat} {b : SeqNum × SeqNum}

/-- What the loop of `send_data` keeps: over what the peer holds, with a frame that did not go, and
with one that did. -/
lemma sendLoop_rule (st : Stamp) (tsOk) {I : Snd → Wire → Prop} (fuel)
    (hskip : ∀ s w nxt, I s w → s.inflight < s.len ∧ s.sackedUntil s.nxt ≠ s.nxt ∧
      nxt = (if gt (s.sackedUntil s.nxt) (s.una + BitVec.ofNat 32 s.len) then s.una +
      BitVec.ofNat 32 s.len
        else s.sackedUntil s.nxt) → I { s with nxt } w) (hfail : ∀ s w n, I s w → 0 < n ∧
        s.inflight + n ≤ s.len →
      I ((sendRange st s w s.nxt n).1.arm (sendRange st s w s.nxt n).2.1)
      (sendRange st s w s.nxt n).2.1)
    (hsent : ∀ s w n, I s w → 0 < n ∧ s.inflight + n ≤ s.len ∧
    (sendRange st s w s.nxt n).2.2 = true →
      I ((sendRange st s w s.nxt n).1.sent tsOk (sendRange st s w s.nxt n).2.1 n)
      (sendRange st s w s.nxt n).2.1)
    (h : I s w) : I (sendLoop st tsOk fuel s w).1 (sendLoop st tsOk fuel s w).2 := by
  induction fuel generalizing s w with
  | zero => exact h
  | succ fuel ih =>
    rw [sendLoop]
    dsimp only
    split
    · exact h
    rename_i hroom
    rw [not_or, Nat.not_le, Nat.not_le] at hroom
    split
    · exact ih (hskip s w _ h ⟨hroom.1, ‹_›, rfl⟩)
    obtain ⟨hpos, hcut⟩ := cutAt_spec s s.nxt
      (n := min (min s.usableWindow s.len - s.inflight) mss) (by rw [mss]; omega)
        (by rw [mss]; omega)
    generalize s.cutAt s.nxt (min (min s.usableWindow s.len - s.inflight) mss) = n at hpos hcut ⊢
    have hfail := hfail s w n h ⟨hpos, by omega⟩
    have hsent := fun hok => hsent s w n h ⟨hpos, by omega, hok⟩
    generalize sendRange st s w s.nxt n = res at hfail hsent ⊢
    obtain ⟨s1, w1, _ | _⟩ := res
    · exact hfail
    · exact ih (hsent rfl)

variable (h : Sound given w s)

include h

lemma Sound.sendRange (st seq n) (hopen : s.acked ≤ given.length)
    (ho : off s.una seq ≤ s.high) (hn : off s.una seq + n ≤ s.len) :
    Sound given (sendRange st s w seq n).2.1 (sendRange st s w seq n).1 :=
  ⟨h.toOrdered.sendRange st seq n hopen ho hn, h.armed⟩

/-- `snd_nxt` goes to a number that was sent. -/
lemma Sound.goTo {x : SeqNum} (hopen : s.acked ≤ given.length)
    (hlen : off s.una x ≤ s.len) (hhigh : off s.una x ≤ s.high) :
    Sound given w { s with nxt := x } := by
  have hop := h.open_ hopen
  have hinflight : ({ s with nxt := x } : Snd).inflight = off s.una x := rfl
  refine ⟨⟨h.ring, h.contents, ?_, ?_, fun _ => ⟨hop.high, ?_, hop.sacked⟩, fun ha => ?_,
    h.carried⟩, h.armed⟩
  · rw [hinflight]
    exact Nat.le_succ_of_le hlen
  · rw [hinflight]
    intro heq
    exact absurd (heq ▸ hlen) (Nat.not_succ_le_self _)
  · rw [hinflight]
    exact Nat.le_trans (Nat.min_le_left _ _) hhigh
  · exact absurd ha (Nat.not_lt.2 hopen)

/-- `snd_nxt` goes back to `snd_una`. -/
lemma Sound.rewind : Sound given w { s with nxt := s.una } := by
  rcases Nat.lt_or_ge given.length s.acked with hsh | hopen
  · have hnxt : s.una = s.nxt := (off_eq_zero.1 (h.shut hsh).inflight).symm
    exact h.of_same ⟨rfl, hnxt, rfl, rfl, rfl, rfl, rfl, rfl, rfl⟩
  · refine h.goTo hopen ?_ ?_ <;> rw [off_self] <;> exact Nat.zero_le _

lemma Sound.setTimer (hs : Same { s with rexmitAt := s'.rexmitAt } s')
    (howed : s'.rexmitAt ≠ 0 → s.rexmitAt ≠ 0) : Sound given w s' := by
  have hset : Sound given w { s with rexmitAt := s'.rexmitAt } :=
    ⟨h.toOrdered.frame _ s.finPending, fun hne => h.armed (howed hne)⟩
  exact hset.of_same hs

lemma Sound.wantFin : Sound given w { s with finPending := true } :=
  ⟨h.toOrdered.frame s.rexmitAt true, fun _ => .inr (.inl rfl)⟩

/-- What is given goes to the end of the ring, while no FIN was sent. -/
lemma Sound.give (hfin : s.finSent = false) {data : List UInt8}
    (hroom : s.len + data.length ≤ sndbufSize) :
    Sound (given ++ data) w { s with buf := data.foldl (RingBuffer.push sndbufSize) s.buf } := by
  have hopen : s.acked ≤ given.length := by
    refine Nat.le_of_not_lt fun hsh => ?_
    rw [(h.shut hsh).fin] at hfin
    cases hfin
  have hop := h.open_ hopen
  have hinflight : s.inflight ≤ s.len := by
    refine Nat.le_of_lt_succ (Nat.lt_of_le_of_ne h.inflight fun heq => ?_)
    rw [h.fin heq] at hfin
    cases hfin
  obtain ⟨hring, hcontents⟩ := foldl_push data h.ring hroom
  have hlen : (data.foldl (push sndbufSize) s.buf).count = s.len + data.length :=
    count_foldl_push sndbufSize data s.buf
  have hle : s.len ≤ (data.foldl (push sndbufSize) s.buf).count := by omega
  have hlen_eq := h.len_eq
  have hhigh := hop.high
  have hsent := hop.sent
  rw [Nat.min_eq_left hinflight] at hsent
  refine ⟨⟨hring, ?_, ?_, fun heq => ?_, fun _ => ⟨?_, ?_, hop.sacked⟩, fun ha => ?_,
    fun p hp hlt => ?_⟩,
    fun hne => ?_⟩
  · show _ = (given ++ data).drop s.acked
    rw [hcontents, h.contents, drop_append_of_le_length hopen]
  · exact Nat.le_trans h.inflight (Nat.succ_le_succ hle)
  · have heq' : s.inflight = (data.foldl (push sndbufSize) s.buf).count + 1 := heq
    omega
  · exact Nat.le_trans hhigh hle
  · exact Nat.le_trans (Nat.min_le_left _ _) hsent
  · have ha' : (given ++ data).length < s.acked := ha
    rw [length_append] at ha'
    omega
  · -- what was sent was given before
    have hlt' : p < s.acked + s.high ∨ (given ++ data).length < s.acked := hlt
    have hplt : p < given.length := by omega
    obtain ⟨o, ho, hpos, b, hb, hgiven⟩ := h.carried p hplt (.inl (by omega))
    exact ⟨o, ho, hpos, b, hb, by rw [getElem?_append_left hplt, hgiven]⟩
  · rcases h.armed hne with hpos | hpending | ⟨hsent, -⟩
    · refine .inl ?_
      show 0 < (data.foldl (push sndbufSize) s.buf).count
      omega
    · exact .inr (.inl hpending)
    · rw [hsent] at hfin
      cases hfin

lemma Sound.arm (howed : 0 < s.len ∨ s.finPending = true ∨
    (s.finSent = true ∧ s.acked ≤ given.length)) (w') : Sound given w (s.arm w') :=
  ⟨h.toOrdered.frame _ s.finPending, fun _ => howed⟩

lemma Sound.sent (tsOk) (hopen : s.acked ≤ given.length)
    (hlen : s.inflight + n ≤ s.len) (hhigh : s.inflight + n ≤ s.high) (hpos : 0 < s.len) (w') :
    Sound given w (s.sent tsOk w' n) := by
  have hle := h.len_le
  have hoff : off s.una (s.nxt + BitVec.ofNat 32 n) = s.inflight + n :=
    SeqNum.off_add (x := s.nxt) (by rw [off, ← Snd.inflight]; omega)
  have hgo := h.goTo hopen (hoff ▸ hlen) (hoff ▸ hhigh)
  have htimed : Sound given w { s with
      rttTiming := s.rttTiming || (!tsOk && !s.rttTiming)
      rttSeq := if !tsOk && !s.rttTiming then s.nxt + BitVec.ofNat 32 n else s.rttSeq
      rttStart := if !tsOk && !s.rttTiming then w'.now else s.rttStart
      nxt := s.nxt + BitVec.ofNat 32 n } :=
    hgo.of_same ⟨rfl, rfl, rfl, rfl, rfl, rfl, rfl, rfl, rfl⟩
  exact htimed.arm (.inl hpos) w'

/-! ## The loop of `send_data` -/

lemma Sound.sendLoop (st : Stamp) (tsOk) (fuel : Nat) (hopen : s.acked ≤ given.length) :
    Sound given (sendLoop st tsOk fuel s w).2 (sendLoop st tsOk fuel s w).1 ∧
      (sendLoop st tsOk fuel s w).1.acked = s.acked := by
  refine sendLoop_rule st tsOk (I := fun s' w' => Sound given w' s' ∧
    s'.acked = s.acked) fuel ?_ ?_ ?_ ⟨h, rfl⟩
  · -- what the peer holds is stepped over
    rintro s' w' nxt ⟨h, hacked⟩ ⟨-, hskip, rfl⟩
    have hlen := h.len_le
    have hop := h.open_ (hacked.trans_le hopen)
    have hhigh := hop.high
    obtain ⟨r, hr, hstop⟩ := (sackedUntil_cases s' s'.nxt).resolve_left hskip
    have hle := (hop.sacked r hr).2
    have htop : off s'.una (s'.una + BitVec.ofNat 32 s'.len) = s'.len :=
      SeqNum.off_base_add (by omega)
    have hngt : ¬ gt r.stop (s'.una + BitVec.ofNat 32 s'.len) = true := by
      rw [SeqNum.gt_iff_off s'.una (by omega) (by omega)]
      omega
    rw [hstop, if_neg hngt]
    exact ⟨h.goTo (hacked.trans_le hopen) (by omega) hle, hacked⟩
  · rintro s' w' n ⟨h, hacked⟩ ⟨hpos, hfit⟩
    have hsent := (h.open_ (hacked.trans_le hopen)).sent
    have hoff : off s'.una s'.nxt = s'.inflight := rfl
    have hsend := h.sendRange st s'.nxt n (hacked.trans_le hopen) (by omega) (by omega)
    exact ⟨hsend.arm (.inl (hpos.trans_le (le_of_add_le_right hfit))) _, hacked⟩
  · rintro s' w' n ⟨h, hacked⟩ ⟨hpos, hfit, hok⟩
    have hlen := h.len_le
    have hop := h.open_ (hacked.trans_le hopen)
    have hhigh := hop.high
    have hsent := hop.sent
    have hoff : off s'.una s'.nxt = s'.inflight := rfl
    have hsend := h.sendRange st s'.nxt n (hacked.trans_le hopen) (by omega) (by omega)
    have hraise := high_sendRange (s := s') st w' s'.nxt n (by omega) (by omega)
    rw [if_pos hok, hoff] at hraise
    exact ⟨hsend.sent (n := n) tsOk (hacked.trans_le hopen) hfit (hraise ▸ Nat.le_max_right ..)
      (hpos.trans_le (le_of_add_le_right hfit)) _, hacked⟩

lemma Sound.sendFin (hopen : s.acked ≤ given.length) :
    Sound given (sendFin st s w).2 (sendFin st s w).1 := by
  have hlen := h.len_le
  have hop := h.open_ hopen
  rw [Snd.sendFin]
  split
  · rename_i hfin
    have hout := put_out w ⟨s.nxt, { ack := true, fin := true }, [], st.ack, st.window,
      s.acked + s.inflight⟩
    split
    · rename_i w1 hput
      rw [hput] at hout
      have hinflight : ({ s with nxt := s.nxt + 1, finSent := true, finPending := false } :
        Snd).inflight =
          s.len + 1 := by
        have hoff : off s.una (s.nxt + BitVec.ofNat 32 1) = s.inflight + 1 :=
          SeqNum.off_add (x := s.nxt) (by rw [off, ← Snd.inflight]; omega)
        rw [← hfin.2]
        exact hoff
      have hfin' : Sound given w1
          { s with nxt := s.nxt + 1, finSent := true, finPending := false } := by
        refine ⟨⟨h.ring, h.contents, hinflight.le, fun _ => rfl,
          fun _ => ⟨hop.high, ?_, hop.sacked⟩,
          fun ha => absurd ha (Nat.not_lt.2 hopen), fun p hp hlt => (h.carried p hp hlt).mono hout⟩,
          fun _ => .inr (.inr ⟨rfl, hopen⟩)⟩
        rw [hinflight]
        have hsent := hop.sent
        rw [hfin.2, Nat.min_self] at hsent
        exact Nat.le_trans (Nat.min_le_right _ _) hsent
      exact hfin'.arm (.inr (.inr ⟨rfl, hopen⟩)) w1
    · rename_i hput
      rw [hput] at hout
      exact h.mono hout
  · exact h

lemma Sound.sendData (hopen : s.acked ≤ given.length) :
    Sound given (sendData st tsOk s w).2 (sendData st tsOk s w).1 := by
  obtain ⟨hloop, hacked⟩ := h.sendLoop st tsOk s.len hopen
  rw [Snd.sendData]
  exact hloop.sendFin (hacked ▸ hopen)

/-! ## The scoreboard -/

variable {m i : Nat} {una : SeqNum}

omit h in
lemma Open.merge {start stop : SeqNum} {rs rs' : List Range} (hm : m < 2 ^ 31)
    (hrs : ∀ r ∈ rs, off s.una r.start < off s.una r.stop ∧ off s.una r.stop ≤ m)
    (hnew : off s.una start < off s.una stop ∧ off s.una stop ≤ m)
    (h : sackMerge start stop rs = some rs') :
    ∀ r ∈ rs', off s.una r.start < off s.una r.stop ∧ off s.una r.stop ≤ m := by
  induction rs generalizing rs' with
  | nil => cases h
  | cons r rs ih =>
    have hr := hrs r mem_cons_self
    have htail : ∀ r ∈ rs, off s.una r.start < off s.una r.stop ∧
        off s.una r.stop ≤ m := fun r hr =>
      hrs r (mem_cons_of_mem _ hr)
    rw [sackMerge] at h
    split at h
    · cases h
      intro r' hr'
      rcases mem_cons.1 hr' with rfl | hr'
      · have h1 := gt_iff_off s.una (x := r.start) (y := start) (by omega) (by omega)
        have h2 := gt_iff_off s.una (x := stop) (y := r.stop) (by omega) (by omega)
        dsimp only
        split <;> split <;> rename_i hs ht <;> rw [h1] at hs <;> rw [h2] at ht <;> omega
      · exact htail r' hr'
    · obtain ⟨rs1, hrs1, rfl⟩ := Option.map_eq_some_iff.1 h
      intro r' hr'
      rcases mem_cons.1 hr' with rfl | hr'
      · exact hr
      · exact ih htail hrs1 r' hr'

variable {rs : List Range} {r : Range}

/-- The ranges may be any, as long as they lie below `snd_max`. -/
lemma Sound.setSacked (hrs : s.acked ≤ given.length →
      ∀ r ∈ rs, off s.una r.start < off s.una r.stop ∧ off s.una r.stop ≤ s.high) :
    Sound given w { s with sacked := rs } :=
  ⟨⟨h.ring, h.contents, h.inflight, h.fin, fun ha => ⟨(h.open_ ha).high, (h.open_ ha).sent, hrs ha⟩,
    fun ha => ⟨(h.shut ha).acked, (h.shut ha).inflight, (h.shut ha).fin⟩, h.carried⟩, h.armed⟩

omit h in
/-- A block that is taken, clipped at `snd_una`. -/
lemma sackAdd_range {max : SeqNum} (hlt : gt b.2 b.1 = true)
    (huna : gt b.2 una = true) (hmax : ¬ gt b.2 max = true) (hhigh : off una max < 2 ^ 31) :
    off una (if gt una b.1 then una else b.1) < off una b.2 ∧ off una b.2 ≤ off una max := by
  simp only [gt, off, decide_eq_true_eq] at *
  refine ⟨?_, by bv_omega⟩
  split <;> bv_omega

lemma Sound.sackAdd (b : SeqNum × SeqNum) : Sound given w (s.sackAdd b) := by
  rw [Snd.sackAdd]
  split
  · exact h
  rename_i hok
  simp only [Bool.or_eq_true, Bool.not_eq_true', not_or, Bool.not_eq_false] at hok
  obtain ⟨⟨hlt, huna⟩, hmax⟩ := hok
  have hlen := h.len_le
  have hnew : s.acked ≤ given.length → off s.una (if gt s.una b.1 then s.una else b.1) <
    off s.una b.2 ∧
        off s.una b.2 ≤ s.high := fun ha =>
    sackAdd_range hlt huna hmax (by have := (h.open_ ha).high; rw [Snd.high] at this; omega)
  dsimp only
  split
  · rename_i hrs
    refine h.setSacked fun ha => Open.merge ?_ (h.open_ ha).sacked (hnew ha) hrs
    have := (h.open_ ha).high
    omega
  split
  · refine h.setSacked fun ha r hr => ?_
    rcases mem_append.1 hr with hr | hr
    · exact (h.open_ ha).sacked r hr
    rw [mem_singleton.1 hr]
    exact hnew ha
  · exact h

omit h in
/-- What `sack_add` leaves alone. -/
lemma sackAdd_frame (s : Snd) (b) : ∃ rs, s.sackAdd b = { s with sacked := rs } := by
  rw [sackAdd]
  split
  · exact ⟨s.sacked, rfl⟩
  dsimp only
  split
  · exact ⟨_, rfl⟩
  split
  · exact ⟨_, rfl⟩
  · exact ⟨s.sacked, rfl⟩

omit h in
lemma foldl_sackAdd_frame (bs : List (SeqNum × SeqNum)) (s : Snd) :
    ∃ rs, bs.foldl Snd.sackAdd s = { s with sacked := rs } := by
  induction bs generalizing s with
  | nil => exact ⟨s.sacked, rfl⟩
  | cons b bs ih =>
    obtain ⟨rs, hrs⟩ := sackAdd_frame s b
    obtain ⟨rs', hrs'⟩ := ih (s.sackAdd b)
    refine ⟨rs', ?_⟩
    rw [foldl_cons, hrs', hrs]

omit h in
lemma scoreboard_frame (sackOk : Bool) (bs : List (SeqNum × SeqNum)) (s) :
    ∃ rs, (if sackOk then bs.foldl Snd.sackAdd s else s) = { s with sacked := rs } := by
  split
  · exact foldl_sackAdd_frame bs s
  · exact ⟨s.sacked, rfl⟩

lemma Sound.foldl_sackAdd (bs : List (SeqNum × SeqNum)) :
    Sound given w (bs.foldl Snd.sackAdd s) := by
  induction bs generalizing s with
  | nil => exact h
  | cons b bs ih => exact ih (h.sackAdd b)

omit h in
/-- The hole that is looked for starts below `2 ^ 31`. -/
lemma skipSacked_lt (hsacked : ∀ r ∈ s.sacked, off s.una r.stop < 2 ^ 31) (fuel)
    (h : off s.una seq < 2 ^ 31) : off s.una (s.skipSacked fuel seq) < 2 ^ 31 := by
  induction fuel generalizing seq with
  | zero => exact h
  | succ fuel ih =>
    rw [skipSacked]
    split
    · exact h
    rename_i hne
    obtain ⟨r, hr, hstop⟩ := (sackedUntil_cases s seq).resolve_left hne
    exact ih (hstop ▸ hsacked r hr)

omit h in
lemma foldl_top_le (rs : List Range) (hrs : ∀ r ∈ rs, off s.una r.stop ≤ m)
    (top : SeqNum) (htop : off s.una top ≤ m) :
    off s.una (rs.foldl (fun top r => if gt r.stop top then r.stop else top) top) ≤ m := by
  induction rs generalizing top with
  | nil => exact htop
  | cons r rs ih =>
    refine ih (fun r' hr' => hrs r' (mem_cons_of_mem r hr')) _ ?_
    dsimp only
    split
    · exact hrs r mem_cons_self
    · exact htop

/-- What `sack_rexmit_hole` leaves alone: all but `snd_max` and `high_rxt`. -/
structure Resent (s s' : Snd) : Prop where
  una : s'.una = s.una
  nxt : s'.nxt = s.nxt
  buf : s'.buf = s.buf
  sacked : s'.sacked = s.sacked
  rexmitAt : s'.rexmitAt = s.rexmitAt
  rtoMs : s'.rtoMs = s.rtoMs
  finSent : s'.finSent = s.finSent
  finPending : s'.finPending = s.finPending
  acked : s'.acked = s.acked
  wnd : s'.wnd = s.wnd
  cwnd : s'.cwnd = s.cwnd
  ssthresh : s'.ssthresh = s.ssthresh

omit h in
lemma Resent.refl (s) : Resent s s :=
  ⟨rfl, rfl, rfl, rfl, rfl, rfl, rfl, rfl, rfl, rfl, rfl, rfl⟩

omit h in
lemma sackRexmitHole_resent (st s w) : Resent s (sackRexmitHole st s w).1 := by
  rw [sackRexmitHole]
  split
  · exact Resent.refl s
  dsimp only
  split
  · exact Resent.refl s
  · split <;> exact ⟨rfl, rfl, rfl, rfl, rfl, rfl, rfl, rfl, rfl, rfl, rfl, rfl⟩

omit h in
lemma holeStart_lt (hsacked : ∀ r ∈ s.sacked, off s.una r.stop < 2 ^ 31) :
    off s.una s.holeStart < 2 ^ 31 := by
  refine skipSacked_lt hsacked _ ?_
  split
  · rename_i hrxt
    exact (gt_base_iff.1 hrxt).2
  · rw [off_self]
    decide

omit h in
lemma Ordered.sackRexmitHole (h : Ordered given w s)
    (hshut : given.length < s.acked → s.sacked = []) :
    Ordered given (sackRexmitHole st s w).2.1 (sackRexmitHole st s w).1 := by
  rw [Snd.sackRexmitHole]
  split
  · exact h
  rename_i hgt
  rw [Bool.not_eq_true', Bool.not_eq_false] at hgt
  have hlen := h.len_le
  rcases Nat.lt_or_ge given.length s.acked with hsh | hopen
  · -- nothing was SACKed, so there is no hole
    have hnil := hshut hsh
    have hskip := holeStart_lt (s := s) (by rw [hnil]; nofun)
    rw [sackedTop, hnil, foldl_nil,
      SeqNum.gt_iff_off s.una (by rw [SeqNum.off_self]; decide) hskip, SeqNum.off_self] at hgt
    exact absurd hgt (Nat.not_lt_zero _)
  have hop := h.open_ hopen
  have hhigh := hop.high
  have hskip := holeStart_lt (s := s) fun r hr => by have := (hop.sacked r hr).2; omega
  have htop : off s.una s.sackedTop ≤ s.high := foldl_top_le s.sacked
    (fun r hr => (hop.sacked r hr).2) s.una (by rw [SeqNum.off_self]; exact Nat.zero_le _)
  rw [SeqNum.gt_iff_off s.una (by omega) hskip] at hgt
  have hdist : (s.sackedTop - s.holeStart).toNat = off s.una s.sackedTop - off s.una s.holeStart :=
    SeqNum.sub_toNat (by omega)
  have hcut := (cutAt_spec s s.holeStart (n := (s.sackedTop - s.holeStart).toNat) (by omega)
    (by omega)).2
  dsimp only
  split
  · exact h
  have hsend := h.sendRange st s.holeStart
    (min mss (s.cutAt s.holeStart (s.sackedTop - s.holeStart).toNat)) hopen (by omega) (by omega)
  split
  · exact hsend.of_same ⟨rfl, rfl, rfl, rfl, rfl, rfl, rfl, rfl, rfl⟩
  · exact hsend

/-! ## Being acknowledged -/

variable {c : AckCtx}

lemma Sound.resent (ho : Ordered given w' s') (hs : Resent s s') : Sound given w' s' := by
  refine ⟨ho, ?_⟩
  rw [hs.rexmitAt, len, hs.buf, hs.finPending, hs.finSent, hs.acked]
  exact h.armed

lemma Sound.holeIf (hopen : s.acked ≤ given.length) :
    Sound given (holeIf c s w).2.1 (holeIf c s w).1 := by
  rw [Snd.holeIf]
  split
  · exact h.resent (h.toOrdered.sackRexmitHole fun ha => absurd ha (Nat.not_lt.2 hopen))
      (sackRexmitHole_resent c.stamp s w)
  · exact h

omit h in
lemma holeIf_resent (c s w) : Resent s (holeIf c s w).1 := by
  rw [holeIf]
  split
  · exact sackRexmitHole_resent c.stamp s w
  · exact Resent.refl s

omit h in
lemma enterRecovery_same (s) : Same s s.enterRecovery := by
  constructor <;> simp [enterRecovery, cwndOnLoss]

omit h in
lemma Ordered.acked_le (h : Ordered given w s) (hne : s.nxt ≠ s.una) : s.acked ≤ given.length := by
  rcases Nat.lt_or_ge given.length s.acked with hsh | hopen
  · exact absurd (off_eq_zero.1 (h.shut hsh).inflight) hne
  · exact hopen

omit h in
lemma dupAck_idle (h : s.nxt = s.una) : dupAck c s w = (s, w) := if_neg fun hdup => hdup.2.2.2 h

omit h in
/-- What a duplicate keeps. It is counted, and recovery may begin or the window open by a segment;
then a hole goes again, the first segment, or more data. -/
lemma dupAck_rule {P Q : Snd → Wire → Prop} (hdone : ∀ s w, P s w → Q s w) (hnone : Q s w)
    (hstart : s.nxt ≠ s.una → let s1 := { s with dupacks := (s.dupacks + 1) % 2 ^ 32 }
      P s1 w ∧ P s1.enterRecovery w ∧ P { s1 with cwnd := (s.cwnd + mss) % 2 ^ 32 } w)
    (hhole : ∀ s w, P s w → P (holeIf c s w).1 (holeIf c s w).2.1)
    (hfirst : ∀ s w, P s w → let q := sendRange c.stamp s w s.una (min s.len mss)
      Q { q.1 with highRxt := q.1.una + BitVec.ofNat 32 (min s.len mss) } q.2.1)
    (hdata : ∀ s w, P s w → Q (sendData c.stamp c.tsOk s w).1 (sendData c.stamp c.tsOk s w).2) :
    Q (dupAck c s w).1 (dupAck c s w).2 := by
  rw [dupAck]
  split
  · rename_i hdup
    obtain ⟨hcount, henter, hgrown⟩ := hstart hdup.2.2.2
    dsimp only
    split
    · rw [fastRetransmit]
      have hsent := hhole _ w henter
      split
      · exact hdone _ _ hsent
      · exact hfirst _ _ hsent
    split
    · rw [fastRecovery]
      have hsent := hhole _ w hgrown
      split
      · exact hdone _ _ hsent
      rw [sendDataIf]
      split
      · exact hdata _ _ hsent
      · exact hdone _ _ hsent
    · exact hdone _ _ hcount
  · exact hnone

lemma Sound.dupAck : Sound given (dupAck c s w).2 (dupAck c s w).1 := by
  have hsame : ∀ {s1}, Same s s1 → s.nxt ≠ s.una → Sound given w s1 ∧ s1.acked ≤ given.length :=
    fun hs hne => ⟨h.of_same hs, hs.acked ▸ h.acked_le hne⟩
  refine dupAck_rule (P := fun s w => Sound given w s ∧ s.acked ≤ given.length)
    (Q := fun s w => Sound given w s) (fun _ _ h => h.1) h (fun hne => ?_)
      (fun s w ⟨h, hopen⟩ => ?_)
    (fun s w ⟨h, hopen⟩ => ?_) fun s w ⟨h, hopen⟩ => h.sendData hopen
  · have hcount : Same s { s with dupacks := (s.dupacks + 1) % 2 ^ 32 } :=
      ⟨rfl, rfl, rfl, rfl, rfl, rfl, rfl, rfl, rfl⟩
    exact ⟨hsame hcount hne, hsame (hcount.trans (enterRecovery_same _)) hne,
      hsame ⟨rfl, rfl, rfl, rfl, rfl, rfl, rfl, rfl, rfl⟩ hne⟩
  · exact ⟨h.holeIf hopen, (holeIf_resent c s w).acked ▸ hopen⟩
  · have hsend := h.sendRange c.stamp s.una (min s.len mss) hopen
      (by rw [off_self]; exact Nat.zero_le _) (by rw [off_self]; omega)
    exact hsend.of_same ⟨rfl, rfl, rfl, rfl, rfl, rfl, rfl, rfl, rfl⟩

omit h

/-! ### What is acknowledged leaves the ring -/

lemma measure_same (c s w) : Same s (s.measure c w) := by
  rw [measure]
  split
  · dsimp only
    split <;> exact ⟨rfl, rfl, rfl, rfl, rfl, rfl, rfl, rfl, rfl⟩
  · split <;> exact ⟨rfl, rfl, rfl, rfl, rfl, rfl, rfl, rfl, rfl⟩

lemma openWindow_same (c s) : Same s (s.openWindow c) := by
  rw [openWindow]
  split
  · split <;> exact ⟨rfl, rfl, rfl, rfl, rfl, rfl, rfl, rfl, rfl⟩
  · exact ⟨rfl, rfl, rfl, rfl, rfl, rfl, rfl, rfl, rfl⟩

/-- A range that is past `una` and starts no earlier. -/
def Past (una : SeqNum) (r : Range) : Prop := le r.stop una = false ∧ gt una r.start = false

/-- A range of `rs`, or the part of one that is past `una`. -/
def PartOf (una : SeqNum) (rs : List Range) (r : Range) : Prop :=
  r ∈ rs ∨ (r.start = una ∧ ∃ q ∈ rs, q.stop = r.stop ∧ gt una q.start = true)

lemma gt_self (x : SeqNum) : gt x x = false := by simp [gt]

lemma past_of_done (hdone : ∀ j < i, ∀ q, rs[j]? = some q → Past una q) (hlen : rs.length ≤ i)
    (hr : r ∈ rs) :
    Past una r ∧ PartOf una rs r := by
  obtain ⟨j, hj, rfl⟩ := getElem_of_mem hr
  exact ⟨hdone j (by omega) _ (getElem?_eq_getElem hj), .inl hr⟩

/-- What `sack_trim` leaves. -/
lemma mem_sackTrim (hdone : ∀ j < i, ∀ q, rs[j]? = some q → Past una q)
    (hfuel : rs.length ≤ i + fuel) (h : r ∈ sackTrim una fuel i rs) : Past una r ∧
    PartOf una rs r := by
  induction fuel generalizing i rs with
  | zero => exact past_of_done hdone (by omega) h
  | succ fuel ih =>
    rw [sackTrim] at h
    split at h
    · rename_i hnone
      exact past_of_done hdone (List.getElem?_eq_none_iff.1 hnone) h
    rename_i q hq
    obtain ⟨hi, hqi⟩ := List.getElem?_eq_some_iff.1 hq
    have hqmem : q ∈ rs := hqi ▸ List.getElem_mem hi
    split at h
    · -- the last range takes the place of one that was acknowledged
      have hsub : ∀ x ∈ (rs.set i (rs.getLastD q)).dropLast, x ∈ rs := by
        intro x hx
        rcases List.mem_or_eq_of_mem_set (List.dropLast_subset _ hx) with hx | rfl
        · exact hx
        rw [List.getLastD_eq_getLast?]
        cases hlast : rs.getLast? with
        | none => exact hqmem
        | some x => exact List.mem_of_getLast? hlast
      have hbefore : ∀ j < i, ∀ x, (rs.set i (rs.getLastD q)).dropLast[j]? = some x →
          Past una x := by
        intro j hj x hx
        refine hdone j hj x ?_
        rw [List.getElem?_dropLast, List.length_set, if_pos (by omega),
          List.getElem?_set_ne (by omega)] at hx
        exact hx
      obtain ⟨hpast, hpart⟩ := ih hbefore (by simp; omega) h
      exact ⟨hpast, hpart.imp (hsub r) fun ⟨hs, q', hq', hrest⟩ => ⟨hs, q', hsub q' hq', hrest⟩⟩
    rename_i hstop
    rw [Bool.not_eq_true] at hstop
    split at h
    · -- a range that was acknowledged in part starts at `una` now
      rename_i hstart
      have hnext : ∀ j < i + 1, ∀ x, (rs.set i { q with start := una })[j]? = some x →
          Past una x := by
        intro j hj x hx
        by_cases hji : j = i
        · subst hji
          rw [List.getElem?_set_self hi] at hx
          cases hx
          exact ⟨hstop, gt_self una⟩
        · rw [List.getElem?_set_ne (Ne.symm hji)] at hx
          exact hdone j (by omega) x hx
      obtain ⟨hpast, hpart⟩ := ih hnext (by simp; omega) h
      refine ⟨hpast, ?_⟩
      rcases hpart with hr | ⟨hs, q', hq', hstop', hgt⟩
      · rcases List.mem_or_eq_of_mem_set hr with hr | rfl
        · exact .inl hr
        · exact .inr ⟨rfl, q, hqmem, rfl, hstart⟩
      rcases List.mem_or_eq_of_mem_set hq' with hq' | rfl
      · exact .inr ⟨hs, q', hq', hstop', hgt⟩
      rw [gt_self] at hgt
      cases hgt
    · rename_i hstart
      rw [Bool.not_eq_true] at hstart
      refine ih (fun j hj x hx => ?_) (by omega) h
      by_cases hji : j = i
      · subst hji
        rw [hq] at hx
        cases hx
        exact ⟨hstop, hstart⟩
      · exact hdone j (by omega) x hx

/-- An acknowledgement of something in flight. -/
structure Acks (s : Snd) (ack : SeqNum) : Prop where
  pos : 0 < off s.una ack
  le : off s.una ack ≤ s.inflight

/-- A range that `sack_trim` leaves ends past the acknowledgement. -/
lemma Open.lt_stop (h : s.Open) (hlen : s.len ≤ 65536) (hack : off s.una ack ≤ 65537)
    (hr : r ∈ sackTrim ack s.sacked.length 0 s.sacked) :
    off s.una ack ≤ off s.una r.start ∧ off s.una r.start < off s.una r.stop ∧
    off s.una r.stop ≤ s.high := by
  obtain ⟨⟨hstop, hstart⟩, hpart⟩ := mem_sackTrim (by omega) (by omega) hr
  have hhigh := h.high
  rcases hpart with hmem | ⟨hs, q, hq, hqstop, -⟩
  · have hsack := h.sacked r hmem
    refine ⟨?_, hsack⟩
    rw [← Bool.not_eq_true, gt_iff_off s.una (by omega) (by omega)] at hstart
    omega
  have hsack := h.sacked q hq
  rw [← Bool.not_eq_true, ← hqstop, le_iff_off s.una (by omega) (by omega)] at hstop
  rw [hs, ← hqstop]
  omega

lemma Ordered.release (h : Ordered given w s) (hack : Acks s ack) :
    Ordered given w (s.release ack) ∧
      (given.length < (s.release ack).acked → (s.release ack).sacked = []) := by
  have hpos := hack.pos
  have hle := hack.le
  have hinf := h.inflight
  have hlen := h.len_le
  have hopen : s.acked ≤ given.length := h.acked_le fun heq => by
    have hzero : s.inflight = 0 := off_eq_zero.2 heq
    omega
  have hop := h.open_ hopen
  have hhigh := hop.high
  have hsent := hop.sent
  have hleneq := h.len_eq
  have hacked : (s.release ack).acked = s.acked + off s.una ack := rfl
  have hlen' : (s.release ack).len = s.len - min (off s.una ack) s.len := rfl
  have hinflight : (s.release ack).inflight = s.inflight - off s.una ack :=
    off_rebase (x := s.nxt) hle
  have hhigh' : off s.una ack ≤ s.len → (s.release ack).high = s.high - off s.una ack := fun ha =>
    off_rebase (x := s.sndMax) (y := ack) (by rw [high] at hsent; omega)
  refine ⟨⟨h.ring.advance _, ?_, ?_, ?_, fun ha => ?_, fun ha => ?_, fun p hp hlt => ?_⟩,
    fun ha => ?_⟩
  · rw [hacked]
    show (s.buf.advance sndbufSize (min (off s.una ack) s.len)).contents sndbufSize = _
    rw [contents_advance, h.contents, drop_drop]
    rcases Nat.lt_or_ge s.len (off s.una ack) with hgt | hge
    · rw [drop_eq_nil_of_le (by omega), drop_eq_nil_of_le (by omega)]
    · rw [Nat.min_eq_left hge]
  · rw [hinflight, hlen']
    omega
  · rw [hinflight, hlen']
    intro heq
    exact h.fin (by omega)
  · rw [hacked] at ha
    have hhigh' := hhigh' (by omega)
    refine ⟨?_, ?_, fun r hr => ?_⟩
    · rw [hhigh', hlen']
      omega
    · rw [hhigh', hlen', hinflight]
      omega
    obtain ⟨h1, h2, h3⟩ := hop.lt_stop hlen (by omega) hr
    rw [hhigh', show (s.release ack).una = ack from rfl, off_rebase h1,
      off_rebase (Nat.le_trans h1 h2.le)]
    omega
  · rw [hacked] at ha
    refine ⟨?_, ?_, h.fin (by omega)⟩
    · rw [hacked]
      omega
    · rw [hinflight]
      omega
  · refine h.carried p hp (.inl ?_)
    rcases Nat.lt_or_ge s.len (off s.una ack) with hgt | hge
    · omega
    omega
  · rw [hacked] at ha
    refine eq_nil_iff_forall_not_mem.2 fun r hr => ?_
    have := hop.lt_stop hlen (by omega) hr
    omega

lemma newAck_sound (h : Sound given w s) (hack : Acks s c.ack) :
    Sound given (newAck c s w).2 (newAck c s w).1 := by
  rw [newAck]
  have hzero : Same s { s with dupacks := 0 } := ⟨rfl, rfl, rfl, rfl, rfl, rfl, rfl, rfl, rfl⟩
  have hsame : Same s ((({ s with dupacks := 0 } : Snd).measure c w).openWindow c) :=
    (hzero.trans (measure_same c { s with dupacks := 0 } w)).trans (openWindow_same c _)
  generalize (({ s with dupacks := 0 } : Snd).measure c w).openWindow c = s1 at hsame ⊢
  have hack1 : Acks s1 c.ack := by
    refine ⟨?_, ?_⟩
    · rw [hsame.una]
      exact hack.pos
    · rw [hsame.una, inflight, hsame.nxt, hsame.una]
      exact hack.le
  obtain ⟨hrel, hnil⟩ := (h.of_same hsame).toOrdered.release hack1
  generalize s1.release c.ack = s2 at hrel hnil ⊢
  have hhole : Ordered given (if s2.inRecovery then holeIf c s2 w else (s2, w, false)).2.1
      (if s2.inRecovery then holeIf c s2 w else (s2, w, false)).1 := by
    split
    · rw [holeIf]
      split
      · exact hrel.sackRexmitHole hnil
      · exact hrel
    · exact hrel
  generalize (if s2.inRecovery then holeIf c s2 w else (s2, w, false)) = r at hhole ⊢
  refine ⟨hhole.frame _ r.1.finPending, ?_⟩
  intro hne
  -- the timer is stopped if everything is acknowledged
  have hnxt : r.1.nxt ≠ r.1.una := fun heq => hne (if_pos heq.symm)
  have hopen := hhole.acked_le hnxt
  rcases Nat.eq_zero_or_pos r.1.len with hzero | hpos
  · have hinf : 0 < r.1.inflight := Nat.pos_of_ne_zero fun h0 => hnxt (off_eq_zero.1 h0)
    have := hhole.inflight
    exact .inr (.inr ⟨hhole.fin (by omega), hopen⟩)
  · exact .inl hpos

/-- **`ack_sent_data` keeps the order**, for an acknowledgement of nothing that is not in flight. -/
lemma Sound.ackSentData (h : Sound given w s)
    (hack : gt c.ack s.una = true → off s.una c.ack ≤ s.inflight) :
    Sound given (ackSentData c s w).2 (ackSentData c s w).1 := by
  have hsound : Sound given w (if c.sackOk then (c.opts.sack.take 4).foldl Snd.sackAdd s else s) :=
      by
    split
    · exact h.foldl_sackAdd _
    · exact h
  obtain ⟨rs, hrs⟩ := scoreboard_frame c.sackOk (c.opts.sack.take 4) s
  rw [Snd.ackSentData]
  rw [hrs] at hsound ⊢
  split
  · exact hsound.dupAck
  rename_i hgt
  rw [Bool.not_eq_true', Bool.not_eq_false] at hgt
  exact newAck_sound hsound ⟨(SeqNum.gt_base_iff.1 hgt).1, hack hgt⟩

end Snd

end Sage040.Tcp
