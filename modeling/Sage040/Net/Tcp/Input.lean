import Sage040.Net.Tcp.Output

/-!
# Segments that arrive, the timer, and the calls

`tcp_input` for a connection that was found, `tcp_timer` for one connection, and what the socket
layer calls. `tcp_input` is cut at the points where it returns: a reset, the answer to a SYN, a
segment that is too old by its timestamp, and then the acknowledgement, the data, the peer's FIN and
our own, in that order. `ip_output` neither sleeps in ARP nor has `tcp_input` entered again (see
`Wire`).
-/

namespace Sage040.Tcp

open SeqNum (gt le ge)

/-! ## The receive side -/

namespace Rcv

/-- `rcv_put`: as many of the bytes as there is room for. -/
def put (r : Rcv) (data : List UInt8) : Rcv :=
  { r with buf := (data.take r.free).foldl (RingBuffer.push rcvbufSize) r.buf }

/-- The bytes are taken, as far as there is room, and `rcv_nxt` goes on past them. -/
def take (r : Rcv) (data : List UInt8) : Rcv :=
  let n := min data.length r.free
  { r.put (data.take n) with nxt := r.nxt + BitVec.ofNat 32 n }

/-- `ooo_queue`: a segment that arrived ahead of a gap is held, if there is a place for it. -/
def oooQueue (r : Rcv) (seq : SeqNum) (data : List UInt8) : Rcv :=
  if data.length = 0 ∨ mss < data.length then r
  -- already held
  else if (List.range oooPerCb).any fun i => (r.ooo i).any (·.seq = seq) then r
  else match (List.range oooPerCb).find? fun i => (r.ooo i).isNone with
    | none => r
    | some i =>
      let r' := { r with asked := r.asked + 1 }
      if r.pool r.asked then { r' with ooo := Function.update r.ooo i (some ⟨seq, data⟩) } else r'

/-- A held segment that is no longer ahead: what is new of it is taken, and its place is free. -/
def drainAt (r : Rcv) (i : Nat) : Rcv × Bool :=
  match r.ooo i with
  | none => (r, false)
  | some o =>
    if le o.seq r.nxt then
      let skip := (r.nxt - o.seq).toNat
      let r := if skip < o.data.length then r.take (o.data.drop skip) else r
      ({ r with ooo := Function.update r.ooo i none }, true)
    else (r, false)

/-- One pass over the held segments. -/
@[irreducible] def drainPass (r : Rcv) : Rcv × Bool :=
  (List.range oooPerCb).foldl (fun p i =>
    let (r, progressed) := p.1.drainAt i
    (r, p.2 || progressed)) (r, false)

/-- Passes, until one finds nothing; each of the others frees a place. -/
def drain : Nat → Rcv → Rcv
  | 0, r => r
  | fuel + 1, r =>
    match r.drainPass with
    | (r, true) => drain fuel r
    | (r, false) => r

end Rcv

/-! ## `tcp_input` -/

namespace Tcb

variable (t : Tcb)

/-- `send_seg` with no data. The window in a SYN is not scaled. -/
def sendEmpty (seq : SeqNum) (flags : Flags) : Tcb :=
  let window := if flags.syn then min 65535 t.rcv.free else t.stamp.window
  { t with wire := (t.wire.put ⟨seq, flags, [], t.stamp.ack, window, 0⟩).1 }

def sendAck : Tcb := t.sendEmpty t.snd.nxt { ack := true }

def sendData : Tcb :=
  if t.state.sends then
    let r := Snd.sendData t.stamp t.tsOk t.snd t.wire
    { t with snd := r.1, wire := r.2 }
  else t

/-- `agree_opts`: an option is on if the peer offered it and this end does not refuse it. -/
def agreeOpts (o : Opts) (ws ts sack : Bool) : Tcb :=
  let wsOk := o.ws.isSome && ws
  { t with
    tsOk := o.ts.isSome && ts
    sackOk := o.sackPerm && sack
    sndWscale := if wsOk then o.ws.getD 0 else 0
    rcvWscale := if wsOk then wscale else 0
    rcv := { t.rcv with tsRecent := match o.ts with | some (v, _) => v | none => t.rcv.tsRecent } }

/-- A reset ends it, but for TIME_WAIT, which a reset must not cut short. -/
def onReset : Tcb :=
  if t.state = .timeWait then t else { t with reset := true, state := .closed }

def onSynSent (g : Seg) (ws ts sack : Bool) : Tcb :=
  if !g.flags.syn then t
  else if g.flags.ack then
    if g.ack ≠ t.snd.nxt then t
    else
      let t := { t with
        snd := { t.snd with una := g.ack, wnd := g.window.toNat, rexmitAt := 0 }
        rcv := { t.rcv with nxt := g.seq + 1 }
        state := .established
        lastRcv := t.wire.now }
      (t.agreeOpts g.opts ws ts sack).sendAck
  else
    let t := { t with rcv := { t.rcv with nxt := g.seq + 1 }, state := .synReceived }
    let t := t.agreeOpts g.opts ws ts sack
    t.sendEmpty t.snd.una { syn := true, ack := true }

/-- PAWS: a segment whose timestamp is older than the last one taken. -/
def tooOld (g : Seg) : Bool :=
  t.tsOk && match g.opts.ts with
    | some (tsval, _) => t.rcv.tsRecent ≠ 0 && !ge tsval t.rcv.tsRecent
    | none => false

def noteTs (g : Seg) : Tcb :=
  if t.tsOk && le g.seq t.rcv.nxt then
    { t with rcv := { t.rcv with tsRecent := match g.opts.ts with
      | some (tsval, _) => tsval
      | none => t.rcv.tsRecent } }
  else t

def windowOf (g : Seg) : Nat := g.window.toNat * 2 ^ t.sndWscale

/-- The peer is alive, and says what it will accept. -/
def noteWindow (g : Seg) : Tcb :=
  { t with lastRcv := t.wire.now, keepProbes := 0, snd := { t.snd with wnd := t.windowOf g } }

def ackSentData (g : Seg) : Tcb :=
  let r := Snd.ackSentData
    ⟨t.stamp, t.state.sends, t.tsOk, t.sackOk, g.ack, g.data.length, t.windowOf g,
      g.opts⟩ t.snd t.wire
  { t with snd := r.1, wire := r.2 }

/-- Every second segment is answered at once, and the first after a while. -/
def delayAck : Tcb :=
  let t := { t with rcv := { t.rcv with unackedSegs := t.rcv.unackedSegs + 1 } }
  if 2 ≤ t.rcv.unackedSegs then
    let t := t.sendAck
    { t with rcv := { t.rcv with unackedSegs := 0, delackAt := 0 } }
  else if t.rcv.delackAt = 0 then
    { t with rcv := { t.rcv with delackAt := t.wire.now + ticks delackMs } }
  else t

def onData (g : Seg) : Tcb :=
  if 0 < g.data.length then
    if g.seq = t.rcv.nxt then
      { t with rcv := (t.rcv.take g.data).drain (oooPerCb + 1) }.delayAck
    else if gt g.seq t.rcv.nxt then
      let t := { t with rcv := t.rcv.oooQueue g.seq g.data }.sendAck
      { t with rcv := { t.rcv with unackedSegs := 0, delackAt := 0 } }
    -- a retransmission of something already taken
    else t.sendAck
  -- an empty segment from before, which a keepalive probe is, is answered
  else if gt t.rcv.nxt g.seq && !(g.flags.syn || g.flags.fin) then t.sendAck
  else t

def enterTimeWait : Tcb :=
  { t with state := .timeWait, timewaitAt := t.wire.now + ticks timewaitMs }

def peerClosed : Tcb :=
  match t.state with
  | .established => { t with state := .closeWait }
  | .finWait1 => { t with state := .closing }
  | .finWait2 => t.enterTimeWait
  | .timeWait => t.sendAck.enterTimeWait
  | _ => t

def onFin (g : Seg) : Tcb :=
  if g.flags.fin && le g.seq t.rcv.nxt then
    let t := if t.rcv.finRcvd then t
      else { t with rcv := { t.rcv with finRcvd := true, nxt := t.rcv.nxt + 1 } }.sendAck
    t.peerClosed
  else t

def onFinAcked : Tcb :=
  if t.snd.finSent = true ∧ t.snd.una = t.snd.nxt then
    match t.state with
    | .finWait1 => if t.rcv.finRcvd then t.enterTimeWait else { t with state := .finWait2 }
    | .closing => t.enterTimeWait
    | .lastAck => { t with state := .closed }
    | _ => t
  else t

def afterAck (g : Seg) : Tcb := (((t.onData g).onFin g).onFinAcked).sendData

/-- An acceptable segment of a connection that is open. -/
def onAccepted (g : Seg) : Tcb :=
  if t.state = .synReceived then
    if g.ack ≠ t.snd.nxt then t
    else
      let t := { t with
        snd := { t.snd with una := g.ack, rexmitAt := 0 }
        state := .established
        pending := t.pending || t.listener.isSome }
      (t.ackSentData g).afterAck g
  else (t.ackSentData g).afterAck g

/-- `tcp_input`, for a connection in another state than LISTEN; `ws`, `ts` and `sack` are the
options that this end does not refuse. -/
def input (g : Seg) (ws ts sack : Bool) : Tcb :=
  if g.flags.rst then t.onReset
  else if t.state = .synSent then t.onSynSent g ws ts sack
  else if !g.flags.ack then t
  else if t.tooOld g then t.sendAck
  else ((t.noteTs g).noteWindow g).onAccepted g

/-! ## `tcp_timer` -/

/-- `(s32)(now - at) >= 0`. -/
def due (at_ : SeqNum) : Bool := ge t.wire.now at_

/-- The orphan that `tcp_timer` frees. -/
def reaped : Bool :=
  t.orphan && (t.state = .closed || decide (ticks orphanLimitMs ≤ t.wire.now - t.orphanSince ∧
    (t.wire.now - t.orphanSince).toNat < 2 ^ 31))

/-- Whether a keepalive probe may be due: nothing is outstanding, and nothing was heard. -/
def idle : Bool :=
  t.keepalive && (t.state = .established || t.state = .closeWait) && (t.snd.una == t.snd.nxt) &&
    decide (t.keepIdle * hz ≤ (t.wire.now - t.lastRcv).toNat ∧
      (t.wire.now - t.lastRcv).toNat < 2 ^ 31)

/-- Given up: ETIMEDOUT to whoever next reads it. -/
def giveUp : Tcb := { t with state := .closed, reset := true, timedOut := true }

/-- The keepalive; `none` if the peer is declared dead. -/
def keepaliveTick : Option Tcb :=
  if t.idle then
    let t := if t.keepProbes = 0 ∧ t.keepNext = 0 then { t with keepNext := t.wire.now } else t
    if t.due t.keepNext then
      if t.keepCnt ≤ t.keepProbes then none
      else
        let t := t.sendEmpty (t.snd.una - 1) { ack := true }
        some { t with
          keepProbes := t.keepProbes + 1
          keepNext := t.wire.now + BitVec.ofNat 32 (t.keepIntvl * hz) }
    else some t
  else some { t with keepNext := 0 }

/-- A delayed acknowledgement that has waited long enough. -/
def delackTick : Tcb :=
  if t.rcv.delackAt ≠ 0 ∧ t.due t.rcv.delackAt then
    let t := t.sendAck
    { t with rcv := { t.rcv with unackedSegs := 0, delackAt := 0 } }
  else t

/-- The window collapses to one segment, and the time to wait doubles. -/
def backOff : Tcb :=
  let s := t.snd.cwndOnLoss true
  let rto := min rtoMax (s.rtoMs * 2)
  { t with snd := { s with rttTiming := false, rtoMs := rto, rexmitAt := t.wire.now + ticks rto } }

def rexmitTick : Tcb :=
  if t.snd.rexmitAt = 0 ∨ !t.due t.snd.rexmitAt then t
  else
    let t := { t with snd := { t.snd with rexmits := t.snd.rexmits + 1 } }
    if rexmitLimit < t.snd.rexmits then { t with snd := { t.snd with rexmitAt := 0 } }.giveUp
    else
      let t := t.backOff
      match t.state with
      | .synSent => t.sendEmpty t.snd.una { syn := true }
      | .synReceived => t.sendEmpty t.snd.una { syn := true, ack := true }
      -- everything unacknowledged, from the start again
      | _ => { t with snd := { t.snd with nxt := t.snd.una } }.sendData

/-- `tcp_timer`, for a connection that it does not free. -/
def timer : Tcb :=
  if t.state = .timeWait then if t.due t.timewaitAt then { t with state := .closed } else t
  else match t.keepaliveTick with
    | none => t.giveUp
    | some t => t.delackTick.rexmitTick

/-! ## The calls -/

/-- `tcp_send`: how much was taken. -/
def send (data : List UInt8) : Tcb × Except Errno Nat :=
  if t.state = .closed ∨ t.reset = true then
    (t, .error (if t.timedOut then .etimedout else .econnreset))
  else if t.state ≠ .established ∧ t.state ≠ .closeWait then (t, .error .enotconn)
  else if t.snd.finSent || t.snd.finPending then (t, .error .epipe)
  else
    let room := sndbufSize - t.snd.len
    if room = 0 then (t, .ok 0)
    else
      let data := data.take room
      let t := { t with snd := { t.snd with buf := data.foldl (RingBuffer.push sndbufSize) t.snd.buf } }
      (t.sendData, .ok data.length)

/-- `tcp_recv`: what was read. -/
def recv (len : Nat) : Tcb × Except Errno (List UInt8) :=
  let data := (t.rcv.buf.contents rcvbufSize).take len
  if 0 < data.length then
    ({ t with rcv := { t.rcv with buf := t.rcv.buf.advance rcvbufSize data.length } }.sendAck,
      .ok data)
  else if t.reset then (t, .error (if t.timedOut then .etimedout else .econnreset))
  else if t.rcv.finRcvd then (t, .ok [])
  else if t.state = .closed then (t, .error .enotconn)
  else (t, .error .eagain)

/-- `tcp_close`, for a connection that has a FIN to send; in the other states it is freed or left.
-/
def close : Tcb :=
  let closing : State → Tcb := fun st =>
    { t with state := st, snd := { t.snd with finPending := true } }.sendData
  match t.state with
  | .established | .synReceived => closing .finWait1
  | .closeWait => closing .lastAck
  | _ => t

end Tcb

end Sage040.Tcp
