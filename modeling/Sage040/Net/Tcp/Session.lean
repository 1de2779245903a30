import Sage040.Net.Tcp.Sound

/-!
# A connection from ESTABLISHED on

A `Session` is a connection together with what was given to `tcp_send` so far. Its events are the
calls, the segments that arrive, whatever they say, and the timer; each happens at a time of its
own. Whether a segment can be sent is up to the wire; `ip_output` neither sleeps in ARP nor has
`tcp_input` entered again (see `Wire`).

`Session.Kept` is the invariant: the send side is in order, and once the FIN is acknowledged nothing
more is sent.
-/

namespace Sage040.Tcp

open List SeqNum

open SeqNum (gt le ge off)

inductive Call
  | send (data : List UInt8)
  | recv (len : Nat)
  | close
  | arrive (g : Seg)
  | timer

structure Event where
  now : SeqNum
  call : Call

structure Session where
  t : Tcb
  given : List UInt8

def Tcb.at_ (t : Tcb) (now : SeqNum) : Tcb := { t with wire := { t.wire with now := now } }

/-- What `tcp_send` took of what it was given. -/
def taken (data : List UInt8) : Except Errno Nat → List UInt8
  | .ok n => data.take n
  | .error _ => []

namespace Tcb

def on (t : Tcb) : Call → Tcb
  | .send data => (t.send data).1
  | .recv len => (t.recv len).1
  | .close => t.close
  | .arrive g => t.input g true true true
  | .timer => t.timer

def gives (t : Tcb) : Call → List UInt8
  | .send data => taken data (t.send data).2
  | _ => []

end Tcb

def Session.step (c : Session) (e : Event) : Session :=
  ⟨(c.t.at_ e.now).on e.call, c.given ++ (c.t.at_ e.now).gives e.call⟩

/-! ## What the receive side leaves alone -/

variable {w : Wire} {s : Snd}

namespace Tcb

variable {t : Tcb} {g : Seg}

/-- What was sent stays sent, and no FIN is sent. -/
structure Grows (w w' : Wire) : Prop where
  kept : ∀ o ∈ w.out, o ∈ w'.out
  fins : ∀ o ∈ w'.out, o.flags.fin = true → o ∈ w.out

lemma Grows.refl (w) : Grows w w := ⟨fun _ ho => ho, fun _ ho _ => ho⟩

lemma Grows.trans {w w' w''} (h : Grows w w') (h' : Grows w' w'') : Grows w w'' :=
  ⟨fun o ho => h'.kept o (h.kept o ho), fun o ho hfin => h.fins o (h'.fins o ho hfin) hfin⟩

lemma grows_put (w) {x : Out} (hx : x.flags.fin = false) : Grows w (w.put x).1 := by
  refine ⟨Snd.put_out w x, fun o ho hfin => ?_⟩
  rw [Wire.put] at ho
  split at ho
  · rcases mem_cons.1 ho with rfl | ho
    · rw [hx] at hfin
      cases hfin
    · exact ho
  · exact ho

/-- Nothing of the send side changes, nor the state; segments may be sent. -/
structure Quiet (t t' : Tcb) : Prop where
  snd : t'.snd = t.snd
  state : t'.state = t.state
  timedOut : t'.timedOut = t.timedOut
  grows : Grows t.wire t'.wire

lemma Quiet.refl (t) : Quiet t t := ⟨rfl, rfl, rfl, Grows.refl _⟩

lemma Quiet.trans {t' t''} (h : Quiet t t') (h' : Quiet t' t'') : Quiet t t'' :=
  ⟨h'.snd.trans h.snd, h'.state.trans h.state, h'.timedOut.trans h.timedOut, h.grows.trans h'.grows⟩

variable (t : Tcb)

lemma sendEmpty_quiet (seq : SeqNum) (flags : Flags) (hfin : flags.fin = false) :
    Quiet t (t.sendEmpty seq flags) := ⟨rfl, rfl, rfl, grows_put t.wire hfin⟩

lemma sendAck_quiet : Quiet t t.sendAck := sendEmpty_quiet t _ _ rfl

lemma quiet_rcv (r : Rcv) : Quiet t { t with rcv := r } := ⟨rfl, rfl, rfl, Grows.refl _⟩

lemma delayAck_quiet : Quiet t t.delayAck := by
  rw [delayAck]
  split
  · exact ((quiet_rcv t _).trans (sendAck_quiet _)).trans (quiet_rcv _ _)
  split
  · exact quiet_rcv t _
  · exact quiet_rcv t _

lemma onData_quiet (g) : Quiet t (t.onData g) := by
  rw [onData]
  split
  · split
    · exact (quiet_rcv t _).trans (delayAck_quiet _)
    split
    · exact ((quiet_rcv t _).trans (sendAck_quiet _)).trans (quiet_rcv _ _)
    · exact sendAck_quiet t
  · split
    · exact sendAck_quiet t
    · exact Quiet.refl t

lemma noteTs_quiet (g) : Quiet t (t.noteTs g) := by
  rw [noteTs]
  split
  · exact quiet_rcv t _
  · exact Quiet.refl t

lemma delackTick_quiet : Quiet t t.delackTick := by
  rw [delackTick]
  split
  · exact (sendAck_quiet t).trans (quiet_rcv _ _)
  · exact Quiet.refl t

variable {t}

/-- What becomes of an arriving segment. -/
@[elab_as_elim]
lemma input_rule {motive : Tcb → Prop} (ws ts sack : Bool) (same : motive t)
    (rst : g.flags.rst = true → motive { t with reset := true, state := .closed })
    (syn : g.flags.rst = false → t.state = .synSent → motive (t.onSynSent g ws ts sack)) (old :
      motive t.sendAck)
    (acc : g.flags.rst = false → t.state ≠ .synSent → g.flags.ack = true → t.tooOld g = false →
      motive (((t.noteTs g).noteWindow g).onAccepted g)) : motive (t.input g ws ts sack) := by
  rw [input]
  split_ifs with hrst hsyn hack hold
  · rw [onReset]
    split
    · exact same
    · exact rst hrst
  · exact syn (Bool.not_eq_true _ ▸ hrst) hsyn
  · exact same
  · exact old
  · exact acc (Bool.not_eq_true _ ▸ hrst) hsyn (by simpa using hack) (Bool.not_eq_true _ ▸ hold)

/-- The keepalive changes its own counters, and may send a probe. -/
lemma keepaliveTick_cases {t'} (h : t.keepaliveTick = some t') : ∃ next probes,
    t' = { t with keepNext := next, keepProbes := probes } ∨
      t' = { t.sendEmpty (t.snd.una - 1) { ack := true } with keepNext := next, keepProbes :=
          probes } := by
  have hnext : ∃ next, (if t.keepProbes = 0 ∧ t.keepNext = 0 then
    { t with keepNext := t.wire.now } else t) =
      { t with keepNext := next } := by
    split <;> exact ⟨_, rfl⟩
  rw [keepaliveTick] at h
  split at h
  · obtain ⟨next, hnext⟩ := hnext
    rw [hnext] at h
    dsimp only at h
    split at h
    · split at h
      · cases h
      cases h
      exact ⟨_, _, .inr rfl⟩
    · cases h
      exact ⟨next, t.keepProbes, .inl rfl⟩
  · cases h
    exact ⟨0, t.keepProbes, .inl rfl⟩

lemma keepaliveTick_quiet {t'} (h : t.keepaliveTick = some t') : Quiet t t' := by
  obtain ⟨next, probes, rfl | rfl⟩ := keepaliveTick_cases h
  · exact ⟨rfl, rfl, rfl, Grows.refl _⟩
  · exact ⟨rfl, rfl, rfl, grows_put t.wire rfl⟩

/-! ## What the timer and the calls come to -/

def backedOff (t : Tcb) : Tcb := backOff { t with snd :=
    { t.snd with rexmits := t.snd.rexmits + 1 } }

/-- The retransmission timer does not go off, or gives up, or sends the SYN again, or everything. -/
lemma rexmitTick_cases (t : Tcb) : t.rexmitTick = t ∨ (t.snd.rexmitAt ≠ 0 ∧
    ((t.due t.snd.rexmitAt = true ∧ rexmitLimit ≤ t.snd.rexmits ∧ t.rexmitTick =
        giveUp { t with snd := { t.snd with rexmits := t.snd.rexmits + 1, rexmitAt := 0 } }) ∨
      (∃ flags : Flags, flags.fin = false ∧ t.rexmitTick =
        t.backedOff.sendEmpty t.backedOff.snd.una flags) ∨
      ((t.state ≠ .synSent ∧ t.state ≠ .synReceived) ∧ t.rexmitTick =
        { t.backedOff with snd := { t.backedOff.snd with nxt :=
            t.backedOff.snd.una } }.sendData))) := by
  rw [rexmitTick]
  split
  · exact .inl rfl
  rename_i hdue
  rw [not_or, Bool.not_eq_true', Bool.not_eq_false] at hdue
  refine .inr ⟨hdue.1, ?_⟩
  dsimp only
  split
  · rename_i hlimit
    exact .inl ⟨hdue.2, Nat.lt_succ_iff.1 hlimit, rfl⟩
  refine .inr ?_
  split
  iterate 2 · exact .inl ⟨_, rfl, rfl⟩
  · rename_i hne1 hne2
    exact .inr ⟨⟨hne1, hne2⟩, rfl⟩

/-- The timer does nothing, or closes the connection, or looks at the other timers. -/
lemma timer_cases (t : Tcb) : t.timer = t ∨ t.timer = { t with state := .closed } ∨
    (t.keepaliveTick = none ∧ t.timer = t.giveUp) ∨
      ∃ t1, t.keepaliveTick = some t1 ∧ t.timer = t1.delackTick.rexmitTick := by
  rw [timer]
  split
  · split
    · exact .inr (.inl rfl)
    · exact .inl rfl
  split
  · rename_i hkeep
    exact .inr (.inr (.inl ⟨hkeep, rfl⟩))
  · rename_i t1 hkeep
    exact .inr (.inr (.inr ⟨t1, hkeep, rfl⟩))

/-- `tcp_send` takes nothing, or as much as there is room for. -/
lemma send_cases (t : Tcb) (data : List UInt8) : (∃ r, t.send data = (t, r) ∧ taken data r = []) ∨
      ((t.state = .established ∨ t.state = .closeWait) ∧ t.send data = ({ t with snd := { t.snd with
        buf := (data.take (sndbufSize - t.snd.len)).foldl (RingBuffer.push sndbufSize)
          t.snd.buf } }.sendData,
        .ok (data.take (sndbufSize - t.snd.len)).length)) := by
  rw [send]
  iterate 2
    split
    · exact .inl ⟨_, rfl, rfl⟩
  rename_i hstate
  split
  · exact .inl ⟨_, rfl, rfl⟩
  dsimp only
  split
  · exact .inl ⟨_, rfl, rfl⟩
  refine .inr ⟨?_, rfl⟩
  by_contra hne
  exact hstate (not_or.1 hne)

/-- `tcp_close` changes the state of a connection that is open, and wants a FIN sent. -/
lemma close_cases (t : Tcb) : t.close = t ∨ ∃ st, (st = .finWait1 ∨ st = .lastAck) ∧
    (t.state = .established ∨ t.state = .synReceived ∨ t.state = .closeWait) ∧
      t.close = { t with state := st, snd := { t.snd with finPending := true } }.sendData := by
  rw [close]
  split
  · exact .inr ⟨_, .inl rfl, .inl ‹_›, rfl⟩
  · exact .inr ⟨_, .inl rfl, .inr (.inl ‹_›), rfl⟩
  · exact .inr ⟨_, .inr rfl, .inr (.inr ‹_›), rfl⟩
  · exact .inl rfl

/-! ## The peer's FIN, and ours -/

/-- How the peer's FIN changes the state. -/
def afterFin : State → State
  | .established => .closeWait
  | .finWait1 => .closing
  | .finWait2 => .timeWait
  | st => st

lemma peerClosed_spec (t : Tcb) : t.peerClosed.snd = t.snd ∧ t.peerClosed.state = afterFin t.state ∧
      t.peerClosed.rcv = t.rcv ∧ Grows t.wire t.peerClosed.wire := by
  rw [peerClosed]
  split
  iterate 3
    · rename_i hst
      exact ⟨rfl, by rw [hst]; rfl, rfl, Grows.refl _⟩
  · rename_i hst
    exact ⟨rfl, by rw [hst]; rfl, rfl, (sendAck_quiet t).grows⟩
  · refine ⟨rfl, ?_, rfl, Grows.refl _⟩
    cases hst : t.state <;> first | rfl | exact absurd hst (by assumption)

lemma onFin_spec (t : Tcb) (g) : (t.onFin g).snd = t.snd ∧
      ((t.onFin g).state = t.state ∨ (t.onFin g).state = afterFin t.state) ∧
      Grows t.wire (t.onFin g).wire := by
  rw [onFin]
  split
  · have hq : Quiet t (if t.rcv.finRcvd then t
        else { t with rcv := { t.rcv with finRcvd := true, nxt := t.rcv.nxt + 1 } }.sendAck) := by
      split
      · exact Quiet.refl t
      · exact (quiet_rcv t _).trans (sendAck_quiet _)
    generalize (if t.rcv.finRcvd then t
      else { t with rcv := { t.rcv with finRcvd := true, nxt := t.rcv.nxt + 1 } }.sendAck) =
        t1 at hq ⊢
    obtain ⟨hsnd, hstate, -, hgrows⟩ := peerClosed_spec t1
    exact ⟨hsnd.trans hq.snd, .inr (by rw [hstate, hq.state]), hq.grows.trans hgrows⟩
  · exact ⟨rfl, .inl rfl, Grows.refl _⟩

/-- The state after our own FIN's acknowledgement. -/
def afterFinAcked (t : Tcb) : State :=
  match t.state with
  | .finWait1 => if t.rcv.finRcvd then .timeWait else .finWait2
  | .closing => .timeWait
  | .lastAck => .closed
  | st => st

lemma onFinAcked_spec (t : Tcb) : t.onFinAcked.snd = t.snd ∧ t.onFinAcked.wire = t.wire ∧
    t.onFinAcked.rcv = t.rcv ∧
      t.onFinAcked.state =
        if t.snd.finSent = true ∧ t.snd.una = t.snd.nxt then t.afterFinAcked else t.state := by
  rw [onFinAcked, afterFinAcked]
  split
  · cases hst : t.state <;> dsimp only <;> (try split) <;>
      exact ⟨rfl, rfl, rfl, by first | rfl | exact hst⟩
  · exact ⟨rfl, rfl, rfl, rfl⟩

/-- In a state that waits for it, our own FIN's acknowledgement ends the sending. -/
lemma afterFinAcked_sends (h : t.state.awaitsFinAck = true) : t.afterFinAcked.sends = false := by
  rw [afterFinAcked]
  cases hst : t.state <;> rw [hst] at h <;>
    first | exact absurd h Bool.false_ne_true | rfl | (dsimp only; split <;> rfl)

end Tcb

/-! ## The invariant -/

namespace Session

variable {c : Session} {given : List UInt8} {t : Tcb} {g : Seg}

/-- The flags and the state agree. -/
structure Agrees (t : Tcb) : Prop where
  opened : t.state ≠ .listen ∧ t.state ≠ .synSent ∧ t.state ≠ .synReceived
  unclosed : t.state = .established ∨ t.state = .closeWait → t.snd.finSent = false ∧
    t.snd.finPending = false

/-- The send side is in order, and nothing is sent once the FIN is acknowledged. -/
structure Kept (given : List UInt8) (t : Tcb) : Prop where
  sound : t.snd.Sound given t.wire
  agrees : Agrees t
  shut : given.length < t.snd.acked → t.state.sends = false

lemma Kept.of_same {t'} (h : Kept given t) (hs : Snd.Same t.snd t'.snd)
    (hstate : t'.state = t.state) (hgrows : Tcb.Grows t.wire t'.wire) : Kept given t' := by
  refine ⟨(h.sound.of_same hs).mono hgrows.kept, ⟨?_, ?_⟩, ?_⟩
  · rw [hstate]
    exact h.agrees.opened
  · rw [hstate, hs.finSent, hs.finPending]
    exact h.agrees.unclosed
  · rw [hstate, hs.acked]
    exact h.shut

lemma Kept.of_quiet {t'} (h : Kept given t) (hq : Tcb.Quiet t t') : Kept given t' := by
  refine h.of_same ?_ hq.state hq.grows
  rw [hq.snd]
  exact ⟨rfl, rfl, rfl, rfl, rfl, rfl, rfl, rfl, rfl⟩

lemma at_quiet (t) (now : SeqNum) : Tcb.Quiet t (t.at_ now) :=
  ⟨rfl, rfl, rfl, fun _ ho => ho, fun _ ho _ => ho⟩

end Session

/-! ## What `send_data` leaves alone -/

namespace Snd

/-- `send_data` and its like change where the send side is, but not what it holds. -/
structure Holds (s s' : Snd) : Prop where
  una : s'.una = s.una
  buf : s'.buf = s.buf
  acked : s'.acked = s.acked
  wnd : s'.wnd = s.wnd
  cwnd : s'.cwnd = s.cwnd
  ssthresh : s'.ssthresh = s.ssthresh
  sacked : s'.sacked = s.sacked
  rtoMs : s'.rtoMs = s.rtoMs

lemma Holds.refl (s) : Holds s s := ⟨rfl, rfl, rfl, rfl, rfl, rfl, rfl, rfl⟩

lemma Holds.trans {s s' s''} (h : Holds s s') (h' : Holds s' s'') : Holds s s'' :=
  ⟨h'.una.trans h.una, h'.buf.trans h.buf, h'.acked.trans h.acked, h'.wnd.trans h.wnd,
    h'.cwnd.trans h.cwnd, h'.ssthresh.trans h.ssthresh, h'.sacked.trans h.sacked,
      h'.rtoMs.trans h.rtoMs⟩

variable (st : Stamp) (tsOk : Bool)

lemma sendLoop_holds (fuel : Nat) (s) (w) : Holds s (sendLoop st tsOk fuel s w).1 ∧
      (sendLoop st tsOk fuel s w).1.finSent = s.finSent ∧
      (sendLoop st tsOk fuel s w).1.finPending = s.finPending := by
  refine sendLoop_rule st tsOk
    (I := fun s' _ => Holds s s' ∧ s'.finSent = s.finSent ∧
      s'.finPending = s.finPending) fuel ?_ ?_ ?_
    ⟨Holds.refl s, rfl, rfl⟩ <;>
  · rintro s' w' n ⟨h, hfin⟩ -
    exact ⟨⟨h.una, h.buf, h.acked, h.wnd, h.cwnd, h.ssthresh, h.sacked, h.rtoMs⟩, hfin⟩

lemma sendFin_holds (s) (w) : Holds s (sendFin st s w).1 ∧
      (s.finSent = false → s.finPending = false → (sendFin st s w).1 = s) := by
  rw [sendFin]
  split
  · rename_i hfin
    refine ⟨?_, fun h1 h2 => ?_⟩
    · split <;> exact ⟨rfl, rfl, rfl, rfl, rfl, rfl, rfl, rfl⟩
    rw [h1, h2] at hfin
    exact absurd hfin.1 (by decide)
  · exact ⟨Holds.refl s, fun _ _ => rfl⟩

lemma sendData_holds (s) (w) : Holds s (sendData st tsOk s w).1 ∧
    (s.finSent = false ∧ s.finPending = false →
        (sendData st tsOk s w).1.finSent = false ∧ (sendData st tsOk s w).1.finPending = false) :=
        by
  obtain ⟨hloop, hsent, hpending⟩ := sendLoop_holds st tsOk s.len s w
  obtain ⟨hfin, hnone⟩ := sendFin_holds st (sendLoop st tsOk s.len s w).1
    (sendLoop st tsOk s.len s w).2
  rw [sendData]
  refine ⟨hloop.trans hfin, fun h => ?_⟩
  rw [hnone (hsent.trans h.1) (hpending.trans h.2)]
  exact ⟨hsent.trans h.1, hpending.trans h.2⟩

/-! What an acknowledgement does not do is close the sending. -/

variable {s s' : Snd} {c : AckCtx} {w : Wire}

def Unclosed (s : Snd) : Prop := s.finSent = false ∧ s.finPending = false

variable (h : s.Unclosed)

include h

lemma Unclosed.resent (hs : Resent s s') : s'.Unclosed :=
  ⟨hs.finSent.trans h.1, hs.finPending.trans h.2⟩

lemma Unclosed.same (hs : Same s s') : s'.Unclosed :=
  ⟨hs.finSent.trans h.1, hs.finPending.trans h.2⟩

lemma Unclosed.dupAck : (Snd.dupAck c s w).1.Unclosed := by
  have hcount : ({ s with dupacks := (s.dupacks + 1) % 2 ^ 32 } : Snd).Unclosed := ⟨h.1, h.2⟩
  exact dupAck_rule (P := fun s _ => s.Unclosed) (Q := fun s _ => s.Unclosed) (fun _ _ h => h) h
    (fun _ => ⟨hcount, hcount.same (enterRecovery_same _), ⟨h.1, h.2⟩⟩)
    (fun s w h => h.resent (holeIf_resent c s w)) (fun _ _ h => ⟨h.1, h.2⟩)
    fun s w h => (sendData_holds c.stamp c.tsOk s w).2 h

lemma Unclosed.newAck : (Snd.newAck c s w).1.Unclosed := by
  have hzero : ({ s with dupacks := 0 } : Snd).Unclosed := h
  have hopen := (hzero.same (measure_same c _ w)).same (openWindow_same c _)
  have hrel : (((({ s with dupacks := 0 } : Snd).measure c w).openWindow c).release
      c.ack).Unclosed :=
    ⟨hopen.1, hopen.2⟩
  rw [Snd.newAck]
  split
  · have hhole := hrel.resent (holeIf_resent c _ w)
    exact ⟨hhole.1, hhole.2⟩
  · exact ⟨hrel.1, hrel.2⟩

lemma Unclosed.ackSentData : (Snd.ackSentData c s w).1.Unclosed := by
  obtain ⟨rs, hrs⟩ := scoreboard_frame c.sackOk (c.opts.sack.take 4) s
  have hadd : ({ s with sacked := rs } : Snd).Unclosed := ⟨h.1, h.2⟩
  rw [Snd.ackSentData, hrs]
  split
  · exact hadd.dupAck
  · exact hadd.newAck

end Snd

namespace Session

variable {c : Session} {given : List UInt8} {t : Tcb} {g : Seg}

lemma Kept.sendData (h : Kept given t) : Kept given t.sendData := by
  rw [Tcb.sendData]
  split
  · rename_i hsends
    have hopen : t.snd.acked ≤ given.length := by
      refine Nat.le_of_not_lt fun hsh => ?_
      rw [h.shut hsh] at hsends
      cases hsends
    obtain ⟨hholds, hfins⟩ := Snd.sendData_holds t.stamp t.tsOk t.snd t.wire
    refine ⟨h.sound.sendData hopen, ⟨h.agrees.opened, fun hst => hfins (h.agrees.unclosed hst)⟩,
      fun hsh => h.shut ?_⟩
    rwa [hholds.acked] at hsh
  · exact h

/-- The FIN that is acknowledged is one that was sent, and the state waits for it. -/
lemma Agrees.awaits (h : Agrees t) (hsends : t.state.sends = true) (hfin : t.snd.finSent = true) :
    t.state.awaitsFinAck = true := by
  have hun : ∀ st, t.state = st → st = .established ∨ st = .closeWait → False := by
    rintro st rfl hst
    rw [(h.unclosed hst).1] at hfin
    cases hfin
  cases hst : t.state <;> rw [hst] at hsends <;>
    first | exact (hun _ hst (by decide)).elim | rfl | cases hsends

/-- An acknowledgement of nothing that is not in flight. -/
def Timely (t : Tcb) (g : Seg) : Prop :=
  gt g.ack t.snd.una = true → off t.snd.una g.ack ≤ t.snd.inflight
  deriving Decidable

/-- The peer's FIN leaves the flags and the state in agreement. -/
lemma Agrees.onFin (h : Agrees t) (g : Seg) : Agrees (t.onFin g) := by
  obtain ⟨hsnd, hstate, -⟩ := Tcb.onFin_spec t g
  have hop := h.opened
  have hun := h.unclosed
  rw [← hsnd] at hun
  rcases hstate with hst | hst
  · exact ⟨hst ▸ hop, hst ▸ hun⟩
  refine ⟨?_, ?_⟩ <;> rw [hst] <;> cases hs : t.state <;>
    simp_all [Tcb.afterFin]

lemma Agrees.onFinAcked {t'} (h : Agrees t) (hsnd : t'.snd = t.snd)
    (hstate : t'.state = t.afterFinAcked) : Agrees t' := by
  have hop := h.opened
  have hun := h.unclosed
  rw [Tcb.afterFinAcked] at hstate
  refine ⟨?_, ?_⟩ <;> rw [hstate] <;> cases hs : t.state <;> simp_all <;> split <;> simp

lemma kept_afterAck (hsound : t.snd.Sound given t.wire) (hagrees : Agrees t) :
    Kept given (t.afterAck g) := by
  have hdata := Tcb.onData_quiet t g
  have hsound1 : (t.onData g).snd.Sound given (t.onData g).wire := by
    rw [hdata.snd]
    exact hsound.mono hdata.grows.kept
  have hagrees1 : Agrees (t.onData g) := by
    refine ⟨?_, ?_⟩
    · rw [hdata.state]
      exact hagrees.opened
    · rw [hdata.state, hdata.snd]
      exact hagrees.unclosed
  obtain ⟨hsnd2, -, hgrows2⟩ := Tcb.onFin_spec (t.onData g) g
  have hagrees2 := hagrees1.onFin g
  have hsound2 : ((t.onData g).onFin g).snd.Sound given ((t.onData g).onFin g).wire := by
    rw [hsnd2]
    exact hsound1.mono hgrows2.kept
  obtain ⟨hsnd3, hwire3, -, hstate3⟩ := Tcb.onFinAcked_spec ((t.onData g).onFin g)
  rw [Tcb.afterAck]
  generalize (t.onData g).onFin g = t2 at hagrees2 hsound2 hsnd3 hwire3 hstate3 ⊢
  refine Kept.sendData ⟨?_, ?_, fun hsh => ?_⟩
  · rw [hsnd3, hwire3]
    exact hsound2
  · split at hstate3
    · exact hagrees2.onFinAcked hsnd3 hstate3
    refine ⟨?_, ?_⟩
    · rw [hstate3]
      exact hagrees2.opened
    · rw [hstate3, hsnd3]
      exact hagrees2.unclosed
  -- the FIN was acknowledged, so the state that waited for it is left
  rw [hsnd3] at hsh
  have hshut := hsound2.shut hsh
  have hnxt : t2.snd.una = t2.snd.nxt := (off_eq_zero.1 hshut.inflight).symm
  rw [if_pos ⟨hshut.fin, hnxt⟩] at hstate3
  rw [hstate3]
  cases hsends : t2.state.sends with
  | true => exact Tcb.afterFinAcked_sends (hagrees2.awaits hsends hshut.fin)
  | false =>
    rw [Tcb.afterFinAcked]
    cases hst : t2.state <;> rw [hst] at hsends <;> first | rfl | cases hsends

lemma Kept.noteWindow (h : Kept given t) (g) : Kept given (t.noteWindow g) :=
  h.of_same ⟨rfl, rfl, rfl, rfl, rfl, rfl, rfl, rfl, rfl⟩ rfl (Tcb.Grows.refl _)

/-- In the states that `close()` and a reset lead to, the flags are free. -/
lemma agrees_of_state (hst : t.state = .closed ∨ t.state = .finWait1 ∨ t.state = .lastAck) :
    Agrees t := by
  rcases hst with hst | hst | hst <;>
    exact ⟨by rw [hst]; decide, fun hop => absurd (hst ▸ hop) (by decide)⟩

lemma kept_closed (hsound : t.snd.Sound given t.wire) (hst : t.state = .closed) : Kept given t := by
  refine ⟨hsound, agrees_of_state (.inl hst), fun _ => ?_⟩
  rw [hst]
  rfl

variable (h : Kept given t)

include h

/-- **An arriving segment keeps the order**, if it acknowledges nothing that is not in flight. -/
lemma Kept.input (hg : Timely t g) (ws ts sack : Bool) : Kept given (t.input g ws ts sack) := by
  refine Tcb.input_rule ws ts sack h (fun _ => kept_closed h.sound rfl) (fun _
    hs => absurd hs h.agrees.opened.2.1)
    (h.of_quiet (Tcb.sendAck_quiet t)) fun _ _ _ _ => ?_
  have hts := Tcb.noteTs_quiet t g
  have hkept := (h.of_quiet hts).noteWindow g
  have htimely : Timely ((t.noteTs g).noteWindow g) g := by
    rw [Timely, Tcb.noteWindow, hts.snd]
    exact hg
  generalize (t.noteTs g).noteWindow g = t1 at hkept htimely ⊢
  rw [Tcb.onAccepted, if_neg hkept.agrees.opened.2.2]
  exact kept_afterAck (hkept.sound.ackSentData htimely)
    ⟨hkept.agrees.opened, fun hst => Snd.Unclosed.ackSentData (hkept.agrees.unclosed hst)⟩

/-! ## The timer -/

lemma Kept.rexmitTick : Kept given t.rexmitTick := by
  rcases Tcb.rexmitTick_cases t with heq | ⟨hrun, ⟨-, -, heq⟩ | hagain⟩
  · rwa [heq]
  · rw [heq]
    exact kept_closed (h.sound.setTimer ⟨rfl, rfl, rfl, rfl, rfl, rfl, rfl, rfl,
      rfl⟩ fun hne => absurd rfl hne) rfl
  have hback : Kept given t.backedOff := by
    refine ⟨h.sound.setTimer ?_ fun _ => hrun, ⟨h.agrees.opened, h.agrees.unclosed⟩, h.shut⟩
    constructor <;> simp [Tcb.backedOff, Tcb.backOff, Snd.cwndOnLoss]
  rcases hagain with ⟨flags, hflags, heq⟩ | ⟨-, heq⟩ <;> rw [heq]
  · exact hback.of_quiet (Tcb.sendEmpty_quiet _ _ _ hflags)
  · exact Kept.sendData ⟨hback.sound.rewind, ⟨hback.agrees.opened, hback.agrees.unclosed⟩,
      hback.shut⟩

lemma Kept.timer : Kept given t.timer := by
  rcases Tcb.timer_cases t with heq | heq | ⟨-, heq⟩ | ⟨t1, hkeep, heq⟩ <;> rw [heq]
  · exact h
  iterate 2 · exact kept_closed h.sound rfl
  · exact ((h.of_quiet (Tcb.keepaliveTick_quiet hkeep)).of_quiet
      (Tcb.delackTick_quiet t1)).rexmitTick

/-! ## The calls -/

lemma Kept.recv (len : Nat) : Kept given (t.recv len).1 := by
  rw [Tcb.recv]
  split
  · exact (h.of_quiet (Tcb.quiet_rcv t _)).of_quiet (Tcb.sendAck_quiet _)
  split
  · exact h
  split
  · exact h
  · split <;> exact h

lemma Kept.close : Kept given t.close := by
  rcases Tcb.close_cases t with heq | ⟨st, hst, hopen, heq⟩ <;> rw [heq]
  · exact h
  refine Kept.sendData ⟨h.sound.wantFin, agrees_of_state (.inr hst), fun hsh => ?_⟩
  rcases hopen with hst | hst | hst
  · exact absurd (h.shut hsh) (by rw [hst]; decide)
  · exact absurd hst h.agrees.opened.2.2
  · exact absurd (h.shut hsh) (by rw [hst]; decide)

lemma Kept.nothing : Kept (given ++ []) t := by
  rw [append_nil]
  exact h

lemma Kept.send (data : List UInt8) : Kept (given ++ taken data (t.send data).2)
    (t.send data).1 := by
  rcases Tcb.send_cases t data with ⟨r, heq, hnone⟩ | ⟨hstate, heq⟩ <;> rw [heq]
  · rw [hnone]
    exact h.nothing
  have htake : data.take (data.take (sndbufSize - t.snd.len)).length =
      data.take (sndbufSize - t.snd.len) := by
    rw [take_eq_take_iff, length_take]
    omega
  dsimp only [taken]
  rw [htake]
  refine Kept.sendData ⟨h.sound.give (h.agrees.unclosed hstate).1 ?_,
    ⟨h.agrees.opened, h.agrees.unclosed⟩,
    fun hsh => h.shut ?_⟩
  · have := h.sound.len_le
    rw [length_take, sndbufSize]
    omega
  have hsh' : (given ++ data.take (sndbufSize - t.snd.len)).length < t.snd.acked := hsh
  rw [length_append] at hsh'
  omega

/-! ## Every run -/

/-- A connection that was just established, with nothing sent. -/
structure Fresh (c : Session) : Prop where
  state : c.t.state = .established
  ring : c.t.snd.buf.Ok sndbufSize
  empty : c.t.snd.len = 0
  given : c.given = []
  acked : c.t.snd.acked = 0
  nxt : c.t.snd.nxt = c.t.snd.una
  sndMax : c.t.snd.sndMax = c.t.snd.una
  sacked : c.t.snd.sacked = []
  unclosed : c.t.snd.finSent = false ∧ c.t.snd.finPending = false
  idle : c.t.snd.rexmitAt = 0

/-- Every byte given was acknowledged, and so was the FIN if there is one. -/
structure Settled (c : Session) : Prop where
  given : c.given.length ≤ c.t.snd.acked
  pending : c.t.snd.finPending = false
  fin : c.t.snd.finSent = true → c.given.length < c.t.snd.acked

structure Promise (c : Session) : Prop where
  una_le : le c.t.snd.una c.t.snd.nxt = true
  nxt_le : le c.t.snd.nxt (c.t.snd.una + BitVec.ofNat 32 (c.t.snd.len + 1)) = true
  /-- The ring holds exactly what was given and not acknowledged. -/
  ring : c.t.snd.buf.contents sndbufSize = c.given.drop c.t.snd.acked
  /-- What left the ring was sent. -/
  sent : ∀ p < c.given.length, p < c.t.snd.acked → Snd.Carried c.given c.t.wire p
  /-- With everything acknowledged, only the keepalive gives the connection up. -/
  spared : Settled c → ∀ now, (c.t.at_ now).timer.timedOut = true →
    c.t.timedOut = true ∨ (c.t.at_ now).keepaliveTick = none

/-- A segment that arrives acknowledges nothing past `snd_nxt`. -/
def Admits (t : Tcb) : Call → Prop
  | .arrive g => Timely t g
  | _ => True

instance decidableAdmits (t : Tcb) : ∀ call, Decidable (Admits t call)
  | .arrive g => inferInstanceAs (Decidable (Timely t g))
  | .send _ | .recv _ | .close | .timer => isTrue trivial

def InOrder (c : Session) (e : Event) : Prop := Admits c.t e.call

instance (c : Session) (e : Event) : Decidable (InOrder c e) := decidableAdmits c.t e.call

omit h in
lemma Fresh.kept (h : Fresh c) : Kept c.given c.t := by
  have hinflight : c.t.snd.inflight = 0 := off_eq_zero.2 h.nxt
  have hhigh : c.t.snd.high = 0 := off_eq_zero.2 h.sndMax
  have hnone : c.given.length = 0 := by rw [h.given, length_nil]
  refine ⟨⟨⟨h.ring, ?_, ?_, ?_, fun _ => ⟨?_, ?_, ?_⟩, ?_, ?_⟩, ?_⟩, ⟨?_, fun _ => h.unclosed⟩, ?_⟩
  · rw [h.given, drop_nil]
    refine eq_nil_of_length_eq_zero ?_
    rw [RingBuffer.length_contents]
    exact h.empty
  · rw [hinflight]
    exact Nat.zero_le _
  · rw [hinflight]
    intro heq
    cases heq
  · rw [hhigh]
    exact Nat.zero_le _
  · rw [hinflight, Nat.zero_min]
    exact Nat.zero_le _
  · rw [h.sacked]
    exact fun r hr => absurd hr not_mem_nil
  · rw [h.acked]
    exact fun hlt => absurd hlt (Nat.not_lt_zero _)
  · rw [hnone]
    exact fun p hp => absurd hp (Nat.not_lt_zero p)
  · exact fun hne => absurd h.idle hne
  · rw [h.state]
    decide
  · rw [h.acked]
    exact fun hlt => absurd hlt (Nat.not_lt_zero _)

lemma Kept.on (call : Call) (hcall : Admits t call) : Kept (given ++ t.gives call) (t.on call) := by
  match call with
  | .send data => exact h.send data
  | .recv len => exact (h.recv len).nothing
  | .close => exact h.close.nothing
  | .arrive g => exact (h.input hcall true true true).nothing
  | .timer => exact h.timer.nothing

omit h

lemma Kept.step (h : Kept c.given c.t) (e : Event) (he : InOrder c e) :
    Kept (c.step e).given (c.step e).t :=
  (h.of_quiet (at_quiet c.t e.now)).on e.call he

/-- With everything acknowledged, the retransmission timer does not run. -/
lemma Kept.rexmitAt_settled (h : Kept c.given c.t) (hc : Settled c) : c.t.snd.rexmitAt = 0 := by
  by_contra hne
  have hlen := h.sound.len_eq
  have hgiven := hc.given
  rcases h.sound.armed hne with hpos | hpending | ⟨hsent, hle⟩
  · omega
  · rw [hc.pending] at hpending
    cases hpending
  · exact absurd (hc.fin hsent) (Nat.not_lt.2 hle)

lemma Kept.spared (h : Kept c.given c.t) (hc : Settled c) (now : SeqNum)
    (hout : (c.t.at_ now).timer.timedOut = true) :
    c.t.timedOut = true ∨ (c.t.at_ now).keepaliveTick = none := by
  rcases Tcb.timer_cases (c.t.at_ now) with heq | heq | ⟨hkeep, -⟩ | ⟨t1, hkeep, heq⟩
  iterate 2
    · rw [heq] at hout
      exact .inl hout
  · exact .inr hkeep
  · have hq := ((at_quiet c.t now).trans (Tcb.keepaliveTick_quiet hkeep)).trans
      (Tcb.delackTick_quiet t1)
    rw [heq, Tcb.rexmitTick, if_pos (.inl (by rw [hq.snd]; exact h.rexmitAt_settled hc)),
      hq.timedOut] at hout
    exact .inl hout

lemma Kept.promise (h : Kept c.given c.t) : Promise c := by
  have hlen := h.sound.len_le
  have hinflight : off c.t.snd.una c.t.snd.nxt ≤ c.t.snd.len + 1 := h.sound.inflight
  have htop : off c.t.snd.una (c.t.snd.una + BitVec.ofNat 32 (c.t.snd.len + 1)) = c.t.snd.len + 1 :=
    off_base_add (by omega)
  refine ⟨?_, ?_, h.sound.contents, fun p hp hlt => h.sound.carried p hp (.inl (by omega)),
    h.spared⟩
  · rw [le_iff_off c.t.snd.una (by rw [off_self]; omega) (by omega), off_self]
    exact Nat.zero_le _
  · rwa [le_iff_off c.t.snd.una (by omega) (by omega), htop]

/-- **The send side keeps every byte until it is sent and acknowledged**, in every run in which no
segment acknowledges what is not in flight. -/
theorem run_sound (c : Session) (hc : Fresh c) (evs : List Event)
    (hevs : Runs.Every step InOrder evs c) :
    Promise (evs.foldl step c) :=
  (Runs.induction_on (I := fun c => Kept c.given c.t) (fun _ e h he => h.step e he) evs hc.kept
    hevs).promise

/-! ## A late acknowledgement -/

/-- A connection that was just established: nothing is acknowledged below 100, and the window is
open. The second segment that it sends does not go. -/
def justOpen : Session where
  t := {
    used := true, state := .established
    localIp := 1, localPort := 80, remoteIp := 2, remotePort := 1024
    snd := {
      una := 100, nxt := 100, wnd := 65535, cwnd := 2800, ssthresh := 65535, dupacks :=
        0, recover := 0
      inRecovery := false, srttMs := 0, rttvarMs := 0, rttSeq := 0, rttStart := 0,
        rttTiming := false
      rttValid := false, buf := ⟨fun _ => 0, 0, 0⟩, sndMax := 100, sacked := [], highRxt := 0
      rtoMs := rtoInitial, rexmitAt := 0, rexmits := 0, finSent := false, finPending :=
        false, acked := 0 }
    rcv := {
      nxt := 500, buf := ⟨fun _ => 0, 0, 0⟩, ooo := fun _ => none, pool := fun _ => true, asked := 0
      finRcvd := false, tsRecent := 0, unackedSegs := 0, delackAt := 0 }
    sndWscale := 0, rcvWscale := 0, tsOk := false, sackOk := false
    keepalive := false, keepIdle := 0, keepIntvl := 0, keepCnt := 0, lastRcv := 0, keepNext := 0
    keepProbes := 0, reset := false, timedOut := false, timewaitAt := 0, orphan := false,
      orphanSince := 0
    listener := none, pending := false
    wire := ⟨0, fun i => i ≠ 1, 0, []⟩ }
  given := []

def ackOf (ack : SeqNum) : Seg := { seq := 500, ack, flags := { ack := true }, window := 65535 }

/-- A byte is sent, the timer takes `snd_nxt` back and cannot send it again, and its acknowledgement
comes. -/
def lateAck : List Event :=
  [⟨0, .send [7]⟩, ⟨100, .timer⟩, ⟨110, .arrive (ackOf 101)⟩]

def sevenTicks : List Event :=
  [⟨1000, .timer⟩, ⟨2000, .timer⟩, ⟨3000, .timer⟩, ⟨4000, .timer⟩, ⟨5000, .timer⟩, ⟨6000, .timer⟩,
    ⟨7000, .timer⟩]

/-- After a late acknowledgement `snd_una` is past `snd_nxt`, and a connection all of whose bytes
were acknowledged is given up by the retransmission timer. -/
theorem late_ack_times_out :
    ((lateAck.foldl step justOpen).given = [7] ∧ (lateAck.foldl step justOpen).t.snd.acked = 1 ∧
      le (lateAck.foldl step justOpen).t.snd.una (lateAck.foldl step justOpen).t.snd.nxt = false) ∧
    ((lateAck ++ sevenTicks).foldl step justOpen).t.snd.acked = 1 ∧
    ((lateAck ++ sevenTicks).foldl step justOpen).t.state = .closed ∧
    ((lateAck ++ sevenTicks).foldl step justOpen).t.timedOut = true := by
  decide +kernel

/-- The byte that could not be sent again is sent by the next timeout, and acknowledged then; so is
the FIN. -/
theorem run_sound_resent :
    Promise (([⟨0, .send [7]⟩, ⟨100, .timer⟩, ⟨300, .timer⟩, ⟨310, .arrive (ackOf 101)⟩,
    ⟨320, .close⟩,
      ⟨330, .arrive (ackOf 102)⟩] : List Event).foldl step justOpen) :=
  run_sound justOpen ⟨rfl, ⟨by decide, by decide⟩, rfl, rfl, rfl, rfl, rfl, rfl, ⟨rfl, rfl⟩, rfl⟩ _
    (by decide +kernel)

end Session

end Sage040.Tcp
