import Sage040.Net.Tcp.Block

/-!
# Sending, and being acknowledged

`send_data`, `ack_sent_data` and what they call, in the order of `net/tcp.c`. They work on the send
side and on the wire, and know the receive side by what is stamped on a segment. Both loops are cut
off after as many turns as they can take: `send_data` gets a byte further in each, and the search
for a hole leaves a range that was SACKed behind.
-/

namespace Sage040.Tcp

open SeqNum (gt le ge)

/-! ## Round trips and the congestion window -/

namespace Snd

variable (s : Snd)

/-- `rtt_update`: the estimate moves an eighth of the way to each sample. -/
def rttUpdate (ms : Nat) : Snd :=
  let (srtt, rttvar) :=
    if s.rttValid then
      let delta := if ms < s.srttMs then s.srttMs - ms else ms - s.srttMs
      ((7 * s.srttMs + ms) % 2 ^ 32 / 8, (3 * s.rttvarMs + delta) % 2 ^ 32 / 4)
    else (ms, ms / 2)
  { s with
    srttMs := srtt
    rttvarMs := rttvar
    rttValid := true
    rtoMs := min rtoMax (max rtoMin ((srtt + 4 * rttvar) % 2 ^ 32)) }

def usableWindow : Nat := min s.wnd s.cwnd

def cwndOnAck (acked : Nat) : Snd :=
  let cwnd :=
    if s.cwnd < s.ssthresh then s.cwnd + min acked mss
    else
      let inc := mss * mss / s.cwnd
      s.cwnd + if inc = 0 then 1 else inc
  { s with cwnd := min (256 * 1024) (cwnd % 2 ^ 32) }

def cwndOnLoss (timeout : Bool) : Snd :=
  let s := { s with ssthresh := max (2 * mss) (s.inflight / 2) }
  if timeout then { s with cwnd := mss, inRecovery := false, dupacks := 0 } else s

/-! ## Segments -/

/-- `snd_copy`: `n` bytes of the ring. -/
def copy (offset n : Nat) : List UInt8 :=
  (List.range n).map fun i => s.buf.buf ((s.buf.head + offset + i) % sndbufSize)

/-- The retransmission timer, if it is not running. -/
def arm (w : Wire) : Snd :=
  { s with rexmitAt := if s.rexmitAt = 0 then w.now + ticks s.rtoMs else s.rexmitAt }

/-- `send_range`: `n` bytes from `seq` on. -/
def sendRange (st : Stamp) (s : Snd) (w : Wire) (seq : SeqNum) (n : Nat) : Snd × Wire × Bool :=
  let offset := (seq - s.una).toNat
  let r := w.put
    ⟨seq, { ack := true, psh := true }, s.copy offset n, st.ack, st.window, s.acked + offset⟩
  let top := seq + BitVec.ofNat 32 n
  ({ s with sndMax := if r.2 && gt top s.sndMax then top else s.sndMax }, r.1, r.2)

/-- `sacked_until`: the end of the range that the peer holds `seq` in, or `seq`. -/
def sackedUntil (seq : SeqNum) : SeqNum :=
  match s.sacked.find? fun r => ge seq r.start && gt r.stop seq with
  | some r => r.stop
  | none => seq

/-- `n` bytes from `seq` on, but not into a range that was SACKed. -/
def cutAt (seq : SeqNum) (n : Nat) : Nat :=
  s.sacked.foldl (fun n r => if gt r.start seq && gt (seq + BitVec.ofNat 32 n) r.start then
    (r.start - seq).toNat else n) n

/-- One segment was sent, of `n` bytes. -/
def sent (tsOk : Bool) (w : Wire) (n : Nat) : Snd :=
  -- without timestamps, one segment at a time is timed
  let timed := !tsOk && !s.rttTiming
  { s with
    rttTiming := s.rttTiming || timed
    rttSeq := if timed then s.nxt + BitVec.ofNat 32 n else s.rttSeq
    rttStart := if timed then w.now else s.rttStart
    nxt := s.nxt + BitVec.ofNat 32 n }.arm w

/-- The loop of `send_data`. -/
def sendLoop (st : Stamp) (tsOk : Bool) : Nat → Snd → Wire → Snd × Wire
  | 0, s, w => (s, w)
  | fuel + 1, s, w =>
    let window := min s.usableWindow s.len
    -- everything held is out, or the peer's window is full
    if s.len ≤ s.inflight ∨ window ≤ s.inflight then (s, w)
    else
      let skip := s.sackedUntil s.nxt
      let top := s.una + BitVec.ofNat 32 s.len
      if skip ≠ s.nxt then
        sendLoop st tsOk fuel { s with nxt := if gt skip top then top else skip } w
      else
        let n := s.cutAt s.nxt (min (window - s.inflight) mss)
        match sendRange st s w s.nxt n with
        -- the frame did not go, and the timer still has to be armed
        | (s, w, false) => (s.arm w, w)
        | (s, w, true) => sendLoop st tsOk fuel (s.sent tsOk w n) w

/-- The FIN goes last, once every byte queued before `close()` is out. -/
def sendFin (st : Stamp) (s : Snd) (w : Wire) : Snd × Wire :=
  if (s.finPending || s.finSent) = true ∧ s.inflight = s.len then
    match w.put ⟨s.nxt, { ack := true, fin := true }, [], st.ack, st.window,
      s.acked + s.inflight⟩ with
    | (w, true) => ({ s with nxt := s.nxt + 1, finSent := true, finPending := false }.arm w, w)
    | (w, false) => (s, w)
  else (s, w)

/-- `send_data`, in a state in which it sends. -/
def sendData (st : Stamp) (tsOk : Bool) (s : Snd) (w : Wire) : Snd × Wire :=
  let (s, w) := sendLoop st tsOk s.len s w
  sendFin st s w

/-! ## The scoreboard -/

/-- A range joins one that it overlaps or touches. -/
def sackMerge (start stop : SeqNum) : List Range → Option (List Range)
  | [] => none
  | r :: rs =>
    if le start r.stop && ge stop r.start then
      some (⟨if gt r.start start then start else r.start,
      if gt stop r.stop then stop else r.stop⟩ :: rs)
    else (sackMerge start stop rs).map (r :: ·)

def sackAdd (b : SeqNum × SeqNum) : Snd :=
  if !gt b.2 b.1 || !gt b.2 s.una || gt b.2 s.sndMax then s
  else
    let start := if gt s.una b.1 then s.una else b.1
    match sackMerge start b.2 s.sacked with
    | some rs => { s with sacked := rs }
    | none =>
      if s.sacked.length < sackMax then { s with sacked := s.sacked ++ [⟨start, b.2⟩] } else s

/-- `sack_trim`, from place `i` on: a range that was acknowledged gives its place to the last. -/
def sackTrim (una : SeqNum) : Nat → Nat → List Range → List Range
  | 0, _, rs => rs
  | fuel + 1, i, rs =>
    match rs[i]? with
    | none => rs
    | some r =>
      if le r.stop una then
        sackTrim una fuel i ((rs.set i (rs.getLastD r)).dropLast)
      else sackTrim una fuel (i + 1) (if gt una r.start then
      rs.set i { r with start := una } else rs)

/-- The first number at or past `seq` that the peer does not hold. -/
def skipSacked (s : Snd) : Nat → SeqNum → SeqNum
  | 0, seq => seq
  | fuel + 1, seq =>
    let skip := s.sackedUntil seq
    if skip = seq then seq else skipSacked s fuel skip

/-- The highest number that the peer holds all up to from somewhere. -/
def sackedTop : SeqNum :=
  s.sacked.foldl (fun top r => if gt r.stop top then r.stop else top) s.una

/-- Where the next hole starts: at or past what was retransmitted last. -/
def holeStart : SeqNum :=
  s.skipSacked (s.sacked.length + 1) (if gt s.highRxt s.una then s.highRxt else s.una)

/-- `sack_rexmit_hole`: whether the next hole was sent. -/
def sackRexmitHole (st : Stamp) (s : Snd) (w : Wire) : Snd × Wire × Bool :=
  let top := s.sackedTop
  let seq := s.holeStart
  if !gt top seq then (s, w, false)
  else
    let n := min mss (s.cutAt seq (top - seq).toNat)
    if n = 0 then (s, w, false)
    else
      let r := sendRange st s w seq n
      if r.2.2 then ({ r.1 with highRxt := seq + BitVec.ofNat 32 n }, r.2.1, true)
      else (r.1, r.2.1, false)

end Snd

/-! ## Being acknowledged -/

/-- What `ack_sent_data` knows of a connection and of the segment. -/
structure AckCtx where
  stamp : Stamp
  /-- Whether `send_data` sends in the state that the connection is in. -/
  sends : Bool
  tsOk : Bool
  sackOk : Bool
  ack : SeqNum
  datalen : Nat
  window : Nat
  opts : Opts

namespace Snd

variable (c : AckCtx) (s : Snd) (w : Wire)

def sendDataIf : Snd × Wire :=
  if c.sends then sendData c.stamp c.tsOk s w else (s, w)

/-- The next hole, where SACK is agreed on: whether one was sent. -/
def holeIf : Snd × Wire × Bool :=
  if c.sackOk then sackRexmitHole c.stamp s w else (s, w, false)

/-- A segment is missing, and those after it arrive: the window is halved. -/
def enterRecovery : Snd :=
  let s := s.cwndOnLoss false
  { s with
    inRecovery := true
    recover := s.nxt
    cwnd := (s.ssthresh + 3 * mss) % 2 ^ 32
    rttTiming := false
    highRxt := s.una }

/-- The third duplicate: the one segment that the receiver is asking for is sent at once. -/
def fastRetransmit : Snd × Wire :=
  let r := holeIf c s.enterRecovery w
  let n := min r.1.len mss
  if r.2.2 = true ∨ n = 0 then (r.1, r.2.1)
  else
    let q := sendRange c.stamp r.1 r.2.1 r.1.una n
    ({ q.1 with highRxt := q.1.una + BitVec.ofNat 32 n }, q.2.1)

/-- A further duplicate: one more segment may be put into the network. -/
def fastRecovery : Snd × Wire :=
  let r := holeIf c { s with cwnd := (s.cwnd + mss) % 2 ^ 32 } w
  if r.2.2 then (r.1, r.2.1) else sendDataIf c r.1 r.2.1

/-- Nothing new is acknowledged; a duplicate may be counted. -/
def dupAck : Snd × Wire :=
  if c.ack = s.una ∧ c.datalen = 0 ∧ c.window = s.wnd ∧ s.nxt ≠ s.una then
    let s := { s with dupacks := (s.dupacks + 1) % 2 ^ 32 }
    if s.dupacks = 3 ∧ s.inRecovery = false then fastRetransmit c s w
    else if s.inRecovery then fastRecovery c s w
    else (s, w)
  else (s, w)

/-- The round trip is measured: by the echoed timestamp, or by the segment that is being timed. -/
def measure : Snd :=
  match (if c.tsOk then c.opts.ts else none).filter (·.2 ≠ 0) with
  | some (_, tsecr) =>
    let ms := (w.now * 10 - tsecr).toNat
    if ms < 60000 then s.rttUpdate (if ms = 0 then 1 else ms) else s
  | none =>
    if s.rttTiming ∧ ge c.ack s.rttSeq then
      let ms := ((w.now - s.rttStart) * 10).toNat
      { s.rttUpdate (if ms = 0 then 1 else ms) with rttTiming := false }
    else s

def openWindow : Snd :=
  if s.inRecovery then
    if ge c.ack s.recover then { s with inRecovery := false, cwnd := s.ssthresh } else s
  else s.cwndOnAck (c.ack - s.una).toNat

/-- What was acknowledged leaves the ring; the FIN has no place in it. -/
def release (ack : SeqNum) : Snd :=
  let acked := (ack - s.una).toNat
  { s with
    buf := s.buf.advance sndbufSize (min acked s.len)
    una := ack
    rexmits := 0
    sacked := sackTrim ack s.sacked.length 0 s.sacked
    acked := s.acked + acked }

def newAck : Snd × Wire :=
  let s := ((({ s with dupacks := 0 } : Snd).measure c w).openWindow c).release c.ack
  -- a partial acknowledgement in recovery: the next hole is due now
  let r := if s.inRecovery then holeIf c s w else (s, w, false)
  ({ r.1 with rexmitAt := if r.1.una = r.1.nxt then 0 else r.2.1.now + ticks r.1.rtoMs }, r.2.1)

def ackSentData : Snd × Wire :=
  let s := if c.sackOk then (c.opts.sack.take 4).foldl sackAdd s else s
  if !gt c.ack s.una then dupAck c s w else newAck c s w

end Snd

end Sage040.Tcp
