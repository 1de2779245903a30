import Sage040.Net.Socket
import Sage040.Net.Tcp.Closing

/-!
# No control block leaks

Every block in use has somebody who gives it back: a socket, the listener it came from until it is
accepted, or `tcp_timer`, for an orphan. `Host.Inv` says so, with what each of these has to be.

A connection that its listener has not been told of yet, and that dies, is not given back: a reset,
or the last retransmission of its SYN, leaves it CLOSED and neither pending nor an orphan
(`half_open_dies`). Nor are those of a listener that dies, as one does whose block still had a
retransmission timer when `listen` was called. `no_block_leaks` is for the runs in which neither
happens. `ip_output` neither sleeps in ARP nor has `tcp_input` entered again (see `Wire`).
-/

namespace Sage040.Tcp.Tcb

variable {t t' : Tcb} {g : Seg}

/-! ## Whose a block is -/

/-- It stays in the same hands. -/
structure Held (t t' : Tcb) : Prop where
  used : t'.used = t.used
  listener : t'.listener = t.listener
  orphan : t'.orphan = t.orphan
  pending : t'.pending = t.pending

lemma Held.refl (t) : Held t t := ⟨rfl, rfl, rfl, rfl⟩

lemma Held.trans {t''} (h : Held t t') (h' : Held t' t'') : Held t t'' :=
  ⟨h'.used.trans h.used, h'.listener.trans h.listener, h'.orphan.trans h.orphan,
    h'.pending.trans h.pending⟩

lemma Held.sendData (h : Held t t') : Held t t'.sendData := by
  rw [Tcb.sendData]
  split
  · exact ⟨h.used, h.listener, h.orphan, h.pending⟩
  · exact h

lemma Held.delayAck (h : Held t t') : Held t t'.delayAck := by
  rw [Tcb.delayAck]
  split
  · exact ⟨h.used, h.listener, h.orphan, h.pending⟩
  · split <;> exact ⟨h.used, h.listener, h.orphan, h.pending⟩

lemma onData_held (t g) : Held t (t.onData g) := by
  rw [onData]
  split
  · split
    · exact Held.delayAck ⟨rfl, rfl, rfl, rfl⟩
    · split <;> exact ⟨rfl, rfl, rfl, rfl⟩
  · split <;> exact ⟨rfl, rfl, rfl, rfl⟩

lemma Held.peerClosed (h : Held t t') : Held t t'.peerClosed := by
  rw [Tcb.peerClosed]
  split <;> exact ⟨h.used, h.listener, h.orphan, h.pending⟩

lemma onFin_held (t g) : Held t (t.onFin g) := by
  rw [onFin]
  split
  · refine Held.peerClosed ?_
    split <;> exact ⟨rfl, rfl, rfl, rfl⟩
  · exact Held.refl t

lemma onFinAcked_held (t) : Held t t.onFinAcked := by
  rw [onFinAcked]
  split
  · split
    · split <;> exact ⟨rfl, rfl, rfl, rfl⟩
    iterate 2 · exact ⟨rfl, rfl, rfl, rfl⟩
    · exact Held.refl t
  · exact Held.refl t

lemma accepted_held (t g) : Held t ((t.ackSentData g).afterAck g) := by
  have hack : Held t (t.ackSentData g) := ⟨rfl, rfl, rfl, rfl⟩
  rw [afterAck]
  exact Held.sendData (((hack.trans (onData_held _ g)).trans (onFin_held _ g)).trans
    (onFinAcked_held _))

lemma noteTs_held (t g) : Held t (t.noteTs g) := by
  rw [noteTs]
  split <;> exact ⟨rfl, rfl, rfl, rfl⟩

lemma delackTick_held (t) : Held t t.delackTick := by
  rw [delackTick]
  split <;> exact ⟨rfl, rfl, rfl, rfl⟩

lemma keepaliveTick_held (h : t.keepaliveTick = some t') : Held t t' := by
  obtain ⟨next, probes, rfl | rfl⟩ := keepaliveTick_cases h <;> exact ⟨rfl, rfl, rfl, rfl⟩

lemma rexmitTick_held (t) : Held t t.rexmitTick := by
  rcases rexmitTick_cases t with heq | ⟨-, ⟨-, -, heq⟩ | ⟨flags, -, heq⟩ | ⟨-, heq⟩⟩ <;> rw [heq]
  · exact Held.refl t
  iterate 2 · exact ⟨rfl, rfl, rfl, rfl⟩
  · exact Held.sendData ⟨rfl, rfl, rfl, rfl⟩

lemma timer_held (t) : Held t t.timer := by
  rcases timer_cases t with heq | heq | ⟨-, heq⟩ | ⟨t1, hkeep, heq⟩ <;> rw [heq]
  · exact Held.refl t
  iterate 2 · exact ⟨rfl, rfl, rfl, rfl⟩
  · exact ((keepaliveTick_held hkeep).trans (delackTick_held t1)).trans (rexmitTick_held _)

lemma send_touch (t) (data : List UInt8) : Held t (t.send data).1 ∧
    (t.send data).1.state = t.state := by
  rcases send_cases t data with ⟨r, heq, -⟩ | ⟨-, heq⟩ <;> rw [heq]
  · exact ⟨Held.refl t, rfl⟩
  · exact ⟨Held.sendData ⟨rfl, rfl, rfl, rfl⟩, sendData_state _⟩

lemma recv_touch (t) (len : Nat) : Held t (t.recv len).1 ∧ (t.recv len).1.state = t.state := by
  rw [recv]
  split
  · exact ⟨⟨rfl, rfl, rfl, rfl⟩, rfl⟩
  iterate 2
    split
    · exact ⟨Held.refl t, rfl⟩
  · split <;> exact ⟨Held.refl t, rfl⟩

lemma close_held (t) : Held t t.close := by
  rcases close_cases t with heq | ⟨st, -, -, heq⟩ <;> rw [heq]
  · exact Held.refl t
  · exact Held.sendData ⟨rfl, rfl, rfl, rfl⟩

/-! ## Listeners, and those not accepted yet -/

lemma close_listen (h : t.state ≠ .listen) : t.close.state ≠ .listen := by
  rcases close_cases t with heq | ⟨st, hst, -, heq⟩ <;> rw [heq]
  · exact h
  rcases hst with rfl | rfl <;> exact nofun

/-- A connection that its listener has not been told of. -/
def HalfOpen (t : Tcb) : Prop := t.listener.isSome = true ∧ t.pending = false
  deriving Decidable

/-- What the table needs to know of a change: whose the block is, that it is or is not a listener as
before, and that one that is half open is in SYN_RECEIVED. -/
structure Keeps (t t' : Tcb) : Prop where
  used : t'.used = t.used
  listener : t'.listener = t.listener
  orphan : t'.orphan = t.orphan
  listen : t'.state = .listen ↔ t.state = .listen
  timer : t.state = .listen → t.snd.rexmitAt = 0 → t'.snd.rexmitAt = 0
  halfOpen : (t.HalfOpen → t.state = .synReceived) → t'.HalfOpen → t'.state = .synReceived

lemma Keeps.trans {t''} (h : Keeps t t') (h' : Keeps t' t'') : Keeps t t'' :=
  ⟨h'.used.trans h.used, h'.listener.trans h.listener, h'.orphan.trans h.orphan,
    h'.listen.trans h.listen,
    fun hst hzero => h'.timer (h.listen.2 hst) (h.timer hst hzero),
      fun hhalf => h'.halfOpen (h.halfOpen hhalf)⟩

lemma Held.keeps (h : Held t t') (hstate : t'.state = t.state)
    (htimer : t.state = .listen → t'.snd.rexmitAt = t.snd.rexmitAt) : Keeps t t' := by
  refine ⟨h.used, h.listener, h.orphan,
    by rw [hstate], fun hst hzero => (htimer hst).trans hzero, ?_⟩
  intro hhalf hhalf'
  rw [HalfOpen, h.listener, h.pending] at hhalf'
  exact hstate.trans (hhalf hhalf')

lemma Keeps.refl (t) : Keeps t t := (Held.refl t).keeps rfl fun _ => rfl

lemma onAccepted_keeps (hlisten : t.state ≠ .listen) : Keeps t (t.onAccepted g) := by
  have hafter : ∀ {t' : Tcb}, t'.state ≠ .listen →
      ((t'.ackSentData g).afterAck g).state ≠ .listen := by
    intro t' hne habs
    rcases afterAck_states (t'.ackSentData g) g with hst | hst
    · exact hne (hst.symm.trans habs)
    rw [habs] at hst
    exact absurd hst (by decide)
  rw [onAccepted]
  split
  · split
    · exact Keeps.refl t
    -- from now on it is pending
    have hheld := accepted_held { t with
      snd := { t.snd with una := g.ack, rexmitAt := 0 }
      state := .established
      pending := t.pending || t.listener.isSome } g
    refine ⟨hheld.used, hheld.listener, hheld.orphan, ?_, fun h => absurd h hlisten,
      fun _ hhalf => ?_⟩
    · exact ⟨fun h => absurd h (hafter fun h => State.noConfusion h), fun h => absurd h hlisten⟩
    obtain ⟨hsome, hpend⟩ := hhalf
    rw [hheld.listener] at hsome
    rw [hheld.pending] at hpend
    rw [hsome, Bool.or_true] at hpend
    cases hpend
  · rename_i hsyn
    have hheld := accepted_held t g
    refine ⟨hheld.used, hheld.listener, hheld.orphan, ?_, fun h => absurd h hlisten,
      fun h hhalf => ?_⟩
    · exact ⟨fun h => absurd h (hafter hlisten), fun h => absurd h hlisten⟩
    rw [HalfOpen, hheld.listener, hheld.pending] at hhalf
    exact absurd (h hhalf) hsyn

/-- A segment, unless it is a reset for one that is half open. -/
lemma input_keeps (hlisten : t.state ≠ .listen) (hrst : t.HalfOpen → g.flags.rst = false)
    (ws ts sack : Bool) : Keeps t (t.input g ws ts sack) := by
  have hother : ∀ {t' : Tcb}, Held t t' → t'.state ≠ .listen →
    (t.HalfOpen → t.state ≠ .synReceived) →
      Keeps t t' := by
    intro t' hheld hne hno
    refine ⟨hheld.used, hheld.listener, hheld.orphan, ?_, fun h => absurd h hlisten,
      fun hsyn hhalf => ?_⟩
    · exact ⟨fun h => absurd h hne, fun h => absurd h hlisten⟩
    rw [HalfOpen, hheld.listener, hheld.pending] at hhalf
    exact absurd (hsyn hhalf) (hno hhalf)
  refine input_rule ws ts sack (Keeps.refl t) (fun hreset => ?_) (fun _ hsyn => ?_)
    (Held.keeps ⟨rfl, rfl, rfl, rfl⟩ rfl fun _ => rfl) fun _ _ _ _ => ?_
  · refine hother ⟨rfl, rfl, rfl, rfl⟩ (fun h => State.noConfusion h) fun hhalf => ?_
    rw [hrst hhalf] at hreset
    cases hreset
  · have hno : t.HalfOpen → t.state ≠ .synReceived := fun _ => by rw [hsyn]; decide
    rw [onSynSent]
    split
    · exact Keeps.refl t
    split
    · split
      · exact Keeps.refl t
      · exact hother ⟨rfl, rfl, rfl, rfl⟩ (fun h => State.noConfusion h) hno
    · exact hother ⟨rfl, rfl, rfl, rfl⟩ (fun h => State.noConfusion h) hno
  · have hnote : Keeps t ((t.noteTs g).noteWindow g) := by
      have hheld := noteTs_held t g
      refine Held.keeps ⟨hheld.used, hheld.listener, hheld.orphan, hheld.pending⟩
        (noteTs_quiet t g).state fun h => absurd h hlisten
    exact hnote.trans (onAccepted_keeps fun h => hlisten (hnote.listen.1 h))

/-- The retransmission timer runs out for the last time. -/
def GivesUp (t : Tcb) : Prop :=
  t.snd.rexmitAt ≠ 0 ∧ t.due t.snd.rexmitAt = true ∧ rexmitLimit ≤ t.snd.rexmits
  deriving Decidable

lemma rexmitTick_state (h : ¬ t.GivesUp) : t.rexmitTick.state = t.state := by
  rcases rexmitTick_cases t with heq | ⟨hrun, ⟨hdue, hlimit, -⟩ | ⟨flags, -, heq⟩ | ⟨-, heq⟩⟩
  · rw [heq]
  · exact absurd ⟨hrun, hdue, hlimit⟩ h
  · rw [heq]
    rfl
  · rw [heq]
    exact sendData_state _

lemma delackTick_now (t : Tcb) : t.delackTick.wire.now = t.wire.now := by
  have hput : ∀ o : Out, (t.wire.put o).1.now = t.wire.now := by
    intro o
    rw [Wire.put]
    split <;> rfl
  rw [delackTick]
  split
  · exact hput _
  · rfl

lemma keepaliveTick_idle (h : t.state ≠ .established ∧ t.state ≠ .closeWait) :
    t.keepaliveTick = some { t with keepNext := 0 } := by
  rw [keepaliveTick, if_neg]
  rw [idle]
  simp [h.1, h.2]

lemma timer_state (t : Tcb) : t.timer.state = t.state ∨ t.timer.state = .closed := by
  rcases timer_cases t with heq | heq | ⟨-, heq⟩ | ⟨t1, hkeep, heq⟩ <;> rw [heq]
  · exact .inl rfl
  · exact .inr rfl
  · exact .inr rfl
  have hq := (keepaliveTick_quiet hkeep).trans (delackTick_quiet t1)
  rw [← hq.state]
  rcases rexmitTick_cases t1.delackTick with heq | ⟨-, ⟨-, -, heq⟩ | ⟨flags, -, heq⟩ | ⟨-, heq⟩⟩ <;>
    rw [heq]
  · exact .inl rfl
  · exact .inr rfl
  · exact .inl rfl
  · exact .inl (sendData_state _)

/-- The timer, for a connection that is no listener, unless it gives one up that is half open. -/
lemma timer_keeps (hlisten : t.state ≠ .listen) (hup : t.HalfOpen → ¬ t.GivesUp) :
    Keeps t t.timer := by
  have hheld := timer_held t
  refine ⟨hheld.used, hheld.listener, hheld.orphan, ?_, fun h => absurd h hlisten,
    fun hsyn hhalf => ?_⟩
  · refine ⟨fun h => absurd ?_ hlisten, fun h => absurd h hlisten⟩
    rcases timer_state t with hst | hst <;> rw [hst] at h
    · exact h
    · cases h
  rw [HalfOpen, hheld.listener, hheld.pending] at hhalf
  have hst := hsyn hhalf
  rw [timer, if_neg (by rw [hst]; decide), keepaliveTick_idle (by rw [hst]; decide)]
  have hq := delackTick_quiet { t with keepNext := 0 }
  refine (rexmitTick_state ?_).trans (hq.state.trans hst)
  have hnow : (delackTick { t with keepNext := 0 }).wire.now = t.wire.now := delackTick_now _
  rw [GivesUp, due, hq.snd, hnow]
  exact hup hhalf

lemma timer_listen (hlisten : t.state = .listen) (hzero : t.snd.rexmitAt = 0) :
    Keeps t t.timer := by
  have hheld := timer_held t
  have hq := delackTick_quiet { t with keepNext := 0 }
  have htimer : t.timer = delackTick { t with keepNext := 0 } := by
    rw [timer, if_neg (by rw [hlisten]; decide), keepaliveTick_idle (by rw [hlisten]; decide)]
    dsimp only
    rw [rexmitTick, if_pos]
    rw [hq.snd]
    exact .inl hzero
  refine hheld.keeps ?_ fun _ => ?_
  · rw [htimer]
    exact hq.state
  · rw [htimer, hq.snd]

end Sage040.Tcp.Tcb

namespace Sage040.Net

open Tcp (Table Arrival Luck Tcb Seg maxConns isLoopback)
open Function (update update_self update_of_ne update_apply)

open List

/-! ## The events -/

inductive Call
  | create (stream mem : Bool) (fd : Except Errno Unit)
  | bind (k : Nat) (addr : BitVec 32) (port : BitVec 16)
  | connect (k : Nat) (addr : BitVec 32) (port : BitVec 16) (isn : SeqNum)
  | listen (k : Nat)
  | accept (k : Nat) (fd : Except Errno Unit)
  | close (k : Nat)
  | shutdown (k : Nat) (rd wr : Bool)
  | send (k : Nat) (data : List UInt8)
  | recv (k : Nat) (len : Nat)
  | setopt (k : Nat) (o : Host.Opt)
  | packet (p : Host.Packet) (fromLo : Bool) (luck : Luck)
  | tick

structure Event where
  now : SeqNum
  call : Call

namespace Host

def onSock (h : Host) (k : Nat) (f : Sock → Host) : Host :=
  match h.socks k with
  | none => h
  | some s => f s

def on (h : Host) : Call → Host
  | .create stream mem fd => (h.create stream mem fd).1
  | .bind k addr port => h.onSock k fun s => (h.bind k s addr port).1
  | .connect k addr port isn => h.onSock k fun s => (h.connect k s addr port isn).1
  | .listen k => h.onSock k fun s => (h.listen k s).1
  | .accept k fd => h.onSock k fun s => (h.accept s fd).1
  | .close k => h.onSock k fun s => h.close k s
  | .shutdown k rd wr => h.onSock k fun s => (h.shutdown k s rd wr).1
  | .send k data => h.onSock k fun s => h.send s data
  | .recv k len => h.onSock k fun s => h.recv k s len
  | .setopt k o => h.onSock k fun s => h.setopt k s o
  | .packet p fromLo luck => h.ipInput p fromLo luck
  | .tick => { h with tcp := h.tcp.timer }

def step (h : Host) (e : Event) : Host := (h.at_ e.now).on e.call

/-! ## Whose the blocks are -/

variable {a b h : Host} {i k : Nat}

/-- The socket at `k` has the block at `i`. -/
def Owns (h : Host) (k i : Nat) : Prop := ∃ s, h.socks k = some s ∧ s.tcp = some i

/-- There is a listener at `l`. -/
structure Live (h : Host) (l : Nat) : Prop where
  lt : l < maxConns
  used : (h.tcp.conns l).used = true
  state : (h.tcp.conns l).state = .listen

/-- A block has somebody who gives it back. -/
def Accounted (h : Host) (i : Nat) : Prop :=
  (∃ k, h.Owns k i) ∨ (∃ l, (h.tcp.conns i).listener = some l ∧ h.Live l ∧
      ((h.tcp.conns i).state ≠ .closed ∨ (h.tcp.conns i).pending = true)) ∨
    (h.tcp.conns i).orphan = true

/-- What a socket's block is, what a connection that is not accepted is, what a listener is; and
that every block is one of these, or an orphan. -/
structure Inv (h : Host) : Prop where
  sock : ∀ k i, h.Owns k i → k < sockMax ∧ i < maxConns ∧ (h.tcp.conns i).used = true ∧
    (h.tcp.conns i).listener = none ∧ (h.tcp.conns i).orphan = false
  one : ∀ k k' i, h.Owns k i → h.Owns k' i → k = k'
  child : ∀ i < maxConns, (h.tcp.conns i).used = true → ∀ l, (h.tcp.conns i).listener = some l →
    h.Live l ∧ (h.tcp.conns i).state ≠ .listen ∧
      ((h.tcp.conns i).HalfOpen → (h.tcp.conns i).state = .synReceived) ∧
        (h.tcp.conns i).orphan = false
  listen : ∀ i < maxConns, (h.tcp.conns i).used = true → (h.tcp.conns i).state = .listen →
    (h.tcp.conns i).orphan = false ∧ (h.tcp.conns i).snd.rexmitAt = 0
  owner : ∀ i < maxConns, (h.tcp.conns i).used = true →
    (∃ k, h.Owns k i) ∨ (h.tcp.conns i).listener.isSome = true ∨ (h.tcp.conns i).orphan = true

lemma Inv.accounted (h : Inv a) (hi : i < maxConns) (hused : (a.tcp.conns i).used = true) :
    a.Accounted i := by
  rcases h.owner i hi hused with hown | hsome | horphan
  · exact .inl hown
  · obtain ⟨l, hl⟩ := Option.isSome_iff_exists.1 hsome
    obtain ⟨hlive, -, hhalf, -⟩ := h.child i hi hused l hl
    refine .inr (.inl ⟨l, hl, hlive, ?_⟩)
    cases hpend : (a.tcp.conns i).pending with
    | true => exact .inr rfl
    | false =>
      rw [hhalf ⟨hsome, hpend⟩]
      exact .inl nofun
  · exact .inr (.inr horphan)

/-- What is asked of a block in use. -/
def Placed (h : Host) (i : Nat) : Prop :=
  (∀ l, (h.tcp.conns i).listener = some l → h.Live l ∧ (h.tcp.conns i).state ≠ .listen ∧
      ((h.tcp.conns i).HalfOpen → (h.tcp.conns i).state = .synReceived) ∧
        (h.tcp.conns i).orphan = false) ∧
    ((h.tcp.conns i).state = .listen → (h.tcp.conns i).orphan = false ∧
      (h.tcp.conns i).snd.rexmitAt = 0) ∧
    ((∃ k, h.Owns k i) ∨ (h.tcp.conns i).listener.isSome = true ∨ (h.tcp.conns i).orphan = true)

lemma Inv.placed (h : Inv a) (hi : i < maxConns) (hused : (a.tcp.conns i).used = true) :
    Placed a i :=
  ⟨h.child i hi hused, h.listen i hi hused, h.owner i hi hused⟩

lemma Inv.of_placed (hsock : ∀ k i, b.Owns k i → k < sockMax ∧ i < maxConns ∧
    (b.tcp.conns i).used = true ∧
      (b.tcp.conns i).listener = none ∧ (b.tcp.conns i).orphan = false)
    (hone : ∀ k k' i, b.Owns k i → b.Owns k' i → k = k')
    (hplaced : ∀ i < maxConns, (b.tcp.conns i).used = true → Placed b i) : Inv b :=
  ⟨hsock, hone, fun i hi hused => (hplaced i hi hused).1,
    fun i hi hused => (hplaced i hi hused).2.1,
    fun i hi hused => (hplaced i hi hused).2.2⟩

lemma Placed.keeps (h : Placed a i) (hkeep : Tcb.Keeps (a.tcp.conns i) (b.tcp.conns i))
    (hlive : ∀ l, (a.tcp.conns i).listener = some l → a.Live l → b.Live l)
    (hown : ∀ k, a.Owns k i → b.Owns k i) : Placed b i := by
  obtain ⟨hchild, hlisten, howner⟩ := h
  rw [Placed, hkeep.listener, hkeep.orphan]
  refine ⟨fun l hl => ?_, fun hst => ?_, howner.imp_left fun ⟨k, hk⟩ => ⟨k, hown k hk⟩⟩
  · obtain ⟨hl', hne, hhalf, horphan⟩ := hchild l hl
    exact ⟨hlive l hl hl', fun habs => hne (hkeep.listen.1 habs), hkeep.halfOpen hhalf, horphan⟩
  · have hst' := hkeep.listen.1 hst
    exact ⟨(hlisten hst').1, hkeep.timer hst' (hlisten hst').2⟩

lemma Live.of_keeps {l : Nat} (h : a.Live l) (hkeep : Tcb.Keeps (a.tcp.conns l) (b.tcp.conns l)) :
    b.Live l :=
  ⟨h.lt, hkeep.used.trans h.used, hkeep.listen.2 h.state⟩

/-- Blocks change, each in the same hands; some that nobody has, or that are orphans, are not used
any more. -/
lemma Inv.of_keeps (h : Inv a) (hsocks : ∀ k i, b.Owns k i ↔ a.Owns k i)
    (hkeeps : ∀ i < maxConns, Tcb.Keeps (a.tcp.conns i) (b.tcp.conns i) ∨
    ((b.tcp.conns i).used = false ∧
      ((a.tcp.conns i).used = false ∨ (a.tcp.conns i).orphan = true))) : Inv b := by
  have hstay : ∀ i < maxConns, (a.tcp.conns i).used = true → (a.tcp.conns i).orphan = false →
      Tcb.Keeps (a.tcp.conns i) (b.tcp.conns i) := by
    intro i hi hused horphan
    refine (hkeeps i hi).resolve_right ?_
    rintro ⟨-, hno | hor⟩
    · rw [hused] at hno
      cases hno
    · rw [horphan] at hor
      cases hor
  refine .of_placed (fun k i hown => ?_) (fun k k' i hown hown' => ?_) fun i hi hused => ?_
  · obtain ⟨hk, hi, hused, hnone, horphan⟩ := h.sock k i ((hsocks k i).1 hown)
    have hkeep := hstay i hi hused horphan
    exact ⟨hk, hi, hkeep.used.trans hused, hkeep.listener.trans hnone, hkeep.orphan.trans horphan⟩
  · exact h.one k k' i ((hsocks k i).1 hown) ((hsocks k' i).1 hown')
  rcases hkeeps i hi with hkeep | ⟨hno, -⟩
  · refine (h.placed hi (hkeep.used.symm.trans hused)).keeps hkeep (fun l _ hl => ?_)
      fun k => (hsocks k i).2
    exact hl.of_keeps (hstay l hl.lt hl.used (h.listen l hl.lt hl.used hl.state).1)
  · rw [hused] at hno
    cases hno

variable {tab : Table} {t : Tcb} {l : Nat}

lemma Inv.setBlock (h : Inv a) (hsame : ∀ j, j ≠ i → b.tcp.conns j = a.tcp.conns j)
    (howns : ∀ k j, j ≠ i → (b.Owns k j ↔ a.Owns k j)) (hlive : a.Live i → b.Live i)
    (hsock : ∀ k, b.Owns k i → k < sockMax ∧ i < maxConns ∧ (b.tcp.conns i).used = true ∧
      (b.tcp.conns i).listener = none ∧ (b.tcp.conns i).orphan = false)
    (hone : ∀ k k', b.Owns k i → b.Owns k' i → k = k') (hplaced : Placed b i) : Inv b := by
  have hkeep : ∀ j, j ≠ i → Tcb.Keeps (a.tcp.conns j) (b.tcp.conns j) := fun j hj => by
    rw [hsame j hj]
    exact Tcb.Keeps.refl _
  refine .of_placed (fun k j hown => ?_) (fun k k' j hown hown' => ?_) fun j hj hused => ?_ <;>
    by_cases hne : j = i
  · exact hne ▸ hsock k (hne ▸ hown)
  · rw [hsame j hne]
    exact h.sock k j ((howns k j hne).1 hown)
  · exact hone k k' (hne ▸ hown) (hne ▸ hown')
  · exact h.one k k' j ((howns k j hne).1 hown) ((howns k' j hne).1 hown')
  · exact hne ▸ hplaced
  · refine (h.placed hj ((hkeep j hne).used.symm.trans hused)).keeps (hkeep j hne) (fun l _
      hl => ?_) fun k =>
      (howns k j hne).2
    by_cases hli : l = i
    · exact hli ▸ hlive (hli ▸ hl)
    · exact hl.of_keeps (hkeep l hli)

/-- A block that nobody has, or that is not accepted yet, gets a socket. -/
lemma Inv.adopt (h : Inv a) (hk : k < sockMax) (hi : i < maxConns)
    (hnone : ∀ k, ¬ a.Owns k i) (hnot : (a.tcp.conns i).used = true →
    (a.tcp.conns i).state ≠ .listen)
    (hused : t.used = true) (hlistener : t.listener = none) (horphan : t.orphan = false)
    (hstate : t.state ≠ .listen) (hconns : b.tcp.conns = update a.tcp.conns i t)
    (hsocks : ∀ k' j, b.Owns k' j ↔ a.Owns k' j ∨ (k' = k ∧ j = i)) : Inv b := by
  have hself : b.tcp.conns i = t := by rw [hconns, update_self]
  have hmine : ∀ k', b.Owns k' i ↔ k' = k := fun k' => by
    rw [hsocks, or_iff_right (hnone k'), and_iff_left rfl]
  refine h.setBlock (fun j hj => by rw [hconns, update_of_ne hj]) (fun k' j hj => ?_)
    (fun hl => absurd hl.state (hnot hl.used)) (fun k' hk' => ?_) (fun k1 k2 h1 h2 => ?_) ?_
  · rw [hsocks, or_iff_left fun h => hj h.2]
  · rw [hself, (hmine k').1 hk']
    exact ⟨hk, hi, hused, hlistener, horphan⟩
  · exact ((hmine k1).1 h1).trans ((hmine k2).1 h2).symm
  · rw [Placed, hself, hlistener]
    exact ⟨nofun, fun hst => absurd hst hstate, .inl ⟨k, (hmine k).2 rfl⟩⟩

/-- No other block than the one at `i` changes, and that stays in the same hands. -/
structure Touches (i : Nat) (tab tab' : Table) : Prop where
  others : ∀ j, j ≠ i → tab'.conns j = tab.conns j
  held : Tcb.Held (tab.conns i) (tab'.conns i)

lemma Touches.of_conns {tab tab'} (h : tab'.conns = tab.conns) : Touches i tab tab' :=
  ⟨fun j _ => congrFun h j, by rw [h]; exact Tcb.Held.refl _⟩

lemma Touches.trans {tab tab' tab''} (h : Touches i tab tab') (h' : Touches i tab' tab'') :
    Touches i tab tab'' :=
  ⟨fun j hj => (h'.others j hj).trans (h.others j hj), h.held.trans h'.held⟩

lemma touches_set (h : Tcb.Held (tab.conns i) t) : Touches i tab (tab.set i t) :=
  ⟨fun _ hj => tab.set_of_ne t hj, by rw [Table.set_self]; exact h⟩

lemma Inv.setOwned (h : Inv a) (hown : a.Owns k i) (htouch : Touches i a.tcp b.tcp)
    (hstay : (a.tcp.conns i).state = .listen → (b.tcp.conns i).state = .listen)
    (hzero : (b.tcp.conns i).state = .listen → (b.tcp.conns i).snd.rexmitAt = 0)
    (hsocks : ∀ k' j, b.Owns k' j ↔ a.Owns k' j) : Inv b := by
  obtain ⟨-, hi, hused, hlistener, horphan⟩ := h.sock k i hown
  obtain ⟨hsame, hheld⟩ := htouch
  refine h.setBlock hsame (fun k' j _ => hsocks k' j) (fun hl => ?_) (fun k' hk' => ?_)
    (fun k1 k2 h1 h2 => ?_) ?_
  · exact ⟨hl.lt, hheld.used.trans hused, hstay hl.state⟩
  · rw [hheld.used, hheld.listener, hheld.orphan]
    exact h.sock k' i ((hsocks k' i).1 hk')
  · exact h.one k1 k2 i ((hsocks k1 i).1 h1) ((hsocks k2 i).1 h2)
  · rw [Placed, hheld.listener, hheld.orphan, hlistener]
    exact ⟨nofun, fun hst => ⟨horphan, hzero hst⟩, .inl ⟨k, (hsocks k i).2 hown⟩⟩

lemma Inv.spawn (h : Inv a) (hl : a.Live l)
    (hunused : (a.tcp.conns i).used = false) (hlistener : t.listener = some l)
    (hstate : t.state = .synReceived)
    (horphan : t.orphan = false) (hconns : b.tcp.conns = update a.tcp.conns i t)
    (hsocks : ∀ k' j, b.Owns k' j ↔ a.Owns k' j) :
    Inv b := by
  have hself : b.tcp.conns i = t := by rw [hconns, update_self]
  have hsame : ∀ j, j ≠ i → b.tcp.conns j = a.tcp.conns j := fun j hj => by
    rw [hconns, update_of_ne hj]
  have hne : ∀ {j}, (a.tcp.conns j).used = true → j ≠ i := by
    rintro j hj rfl
    rw [hunused] at hj
    cases hj
  have hnone : ∀ k', ¬ b.Owns k' i := fun k' hk' => hne
    (h.sock k' i ((hsocks k' i).1 hk')).2.2.1 rfl
  refine h.setBlock hsame (fun k' j _ => hsocks k' j) (fun hi => absurd rfl (hne hi.used))
    (fun k' hk' => absurd hk' (hnone k')) (fun k' _ hk' => absurd hk' (hnone k')) ?_
  rw [Placed, hself, hlistener, hstate]
  refine ⟨fun l' hl' => ?_, nofun, .inr (.inl rfl)⟩
  cases hl'
  refine ⟨hl.of_keeps ?_, nofun, fun _ => rfl, horphan⟩
  rw [hsame l (hne hl.used)]
  exact Tcb.Keeps.refl _

/-! ## Giving one back -/

def Gone (t : Tcb) : Prop :=
  t.used = false ∨ (t.orphan = true ∧ t.listener = none ∧ t.state ≠ .listen)

/-- A connection that the listener at `i` has not accepted. -/
def Kid (s : Table) (i j : Nat) : Prop := (s.conns j).used = true ∧ (s.conns j).listener = some i
  deriving Decidable

lemma close_spec (s : Table) (i) : (∀ j, j ≠ i → (s.close i).conns j = s.conns j) ∧
      (((s.close i).conns i).used = false ∨
        (Tcb.Held (s.conns i) ((s.close i).conns i) ∧ ((s.close i).conns i).state ≠ .listen)) := by
  rw [Table.close]
  split
  iterate 3 · exact ⟨fun j hj => s.set_of_ne _ hj, .inl (by rw [Table.set_self, Tcb.free])⟩
  rename_i hlisten _
  rw [Table.set_self]
  exact ⟨fun j hj => s.set_of_ne _ hj, .inr ⟨Tcb.close_held _, Tcb.close_listen hlisten⟩⟩

lemma orphan_spec (s : Table) (hnone : (s.conns i).listener = none) :
    (∀ j, j ≠ i → (s.orphan i).conns j = s.conns j) ∧ Gone ((s.orphan i).conns i) := by
  obtain ⟨hothers, hself⟩ := close_spec s i
  rw [Table.orphan]
  split
  · rename_i hused
    refine ⟨fun j hj => ((s.close i).set_of_ne _ hj).trans (hothers j hj), ?_⟩
    rcases hself with hno | ⟨hheld, hstate⟩
    · rw [hused] at hno
      cases hno
    refine .inr ?_
    rw [Table.set_self]
    exact ⟨rfl, hheld.listener.trans hnone, hstate⟩
  · rename_i hunused
    rw [Bool.not_eq_true] at hunused
    exact ⟨hothers, .inl hunused⟩

lemma release_of_not_listen (d : Nat) (s : Table) (hstate : (s.conns i).state ≠ .listen) :
    s.release (d + 1) i = s.orphan i := by
  rw [Table.release, if_neg hstate]

/-- One turn of the loop of `tcp_release`. -/
def releaseKid (d i : Nat) (s : Table) (c : Nat) : Table :=
  if Kid s i c then s.set c { s.conns c with listener := none, pending :=
    false } |>.release d c else s

lemma release_listen (d : Nat) (s : Table) (hstate : (s.conns i).state = .listen) :
    s.release (d + 1) i = ((List.range maxConns).foldl (releaseKid d i) s).orphan i := by
  rw [Table.release, if_pos hstate]
  rfl

lemma release_kids (d i : Nat) (cs : List Nat) (s : Table)
    (hkids : ∀ c ∈ cs, Kid s i c → (s.conns c).state ≠ .listen) (j : Nat) :
    (j ∈ cs ∧ Kid s i j → Gone ((cs.foldl (releaseKid (d + 1) i) s).conns j)) ∧
      (¬ (j ∈ cs ∧ Kid s i j) → (cs.foldl (releaseKid (d + 1) i) s).conns j = s.conns j) := by
  induction cs generalizing s with
  | nil => exact ⟨fun h => absurd h.1 not_mem_nil, fun _ => rfl⟩
  | cons c cs ih =>
    rw [foldl_cons]
    by_cases hkid : Kid s i c
    · -- the block at `c` goes, and is none of the listener's after that
      have hstate := hkids c mem_cons_self hkid
      rw [releaseKid, if_pos hkid, release_of_not_listen _ _ (by rw [Table.set_self]; exact hstate)]
      obtain ⟨hothers, hgone⟩ := orphan_spec (s.set c { s.conns c with listener := none, pending := false })
        (i := c) (by rw [Table.set_self])
      generalize (s.set c { s.conns c with listener := none, pending := false }).orphan c = s1 at hothers hgone ⊢
      have hothers' : ∀ j, j ≠ c → s1.conns j = s.conns j := fun j hj =>
        (hothers j hj).trans (s.set_of_ne _ hj)
      have hnot : ¬ Kid s1 i c := by
        rintro ⟨hused, hl⟩
        rcases hgone with hno | ⟨-, hno, -⟩
        · rw [hused] at hno
          cases hno
        · rw [hl] at hno
          cases hno
      have hkid_iff : ∀ j, j ≠ c → (Kid s1 i j ↔ Kid s i j) := fun j hj => by
        rw [Kid, Kid, hothers' j hj]
      obtain ⟨hin, hout⟩ := ih s1 fun c' hc' hkid' => by
        have hne : c' ≠ c := fun heq => hnot (heq ▸ hkid')
        rw [hothers' c' hne]
        exact hkids c' (mem_cons_of_mem c hc') ((hkid_iff c' hne).1 hkid')
      by_cases hjc : j = c
      · subst hjc
        refine ⟨fun _ => ?_, fun hno => absurd ⟨mem_cons_self, hkid⟩ hno⟩
        rw [hout fun h => hnot h.2]
        exact hgone
      · refine ⟨fun ⟨hmem, hj⟩ => hin ⟨mem_of_ne_of_mem hjc hmem, (hkid_iff j hjc).2 hj⟩, fun hno => ?_⟩
        rw [hout fun ⟨hmem, hj⟩ => hno ⟨mem_cons_of_mem c hmem, (hkid_iff j hjc).1 hj⟩]
        exact hothers' j hjc
    · rw [releaseKid, if_neg hkid]
      obtain ⟨hin, hout⟩ := ih s fun c' hc' => hkids c' (mem_cons_of_mem c hc')
      refine ⟨fun ⟨hmem, hj⟩ => hin ⟨?_, hj⟩, fun hno => hout fun ⟨hmem, hj⟩ =>
        hno ⟨mem_cons_of_mem c hmem, hj⟩⟩
      exact (mem_cons.1 hmem).resolve_left fun heq => hkid (heq ▸ hj)

/-- **`tcp_release`**: the block goes, and with a listener those that it has not accepted. -/
lemma release_spec (s : Table) (hnone : (s.conns i).listener = none)
    (hkids : ∀ c < maxConns, Kid s i c → (s.conns c).state ≠ .listen ∧
    (s.conns i).state = .listen) :
    (∀ j < maxConns, j = i ∨ Kid s i j → Gone ((s.release depth i).conns j)) ∧
      ∀ j < maxConns, j ≠ i → ¬ Kid s i j → (s.release depth i).conns j = s.conns j := by
  have hself : ¬ Kid s i i := fun hkid => by
    rw [Kid, hnone] at hkid
    cases hkid.2
  by_cases hstate : (s.conns i).state = .listen
  · have hfold := release_kids (maxConns - 1) i (range maxConns) s
      fun c hc hkid => (hkids c (mem_range.1 hc) hkid).1
    rw [depth, release_listen _ _ hstate]
    have hdepth : maxConns - 1 + 1 = maxConns := rfl
    rw [hdepth] at hfold
    generalize (range maxConns).foldl (releaseKid maxConns i) s = s1 at hfold ⊢
    have hi : s1.conns i = s.conns i := (hfold i).2 fun h => hself h.2
    obtain ⟨hothers, hgone⟩ := orphan_spec s1 (i := i) (by rw [hi]; exact hnone)
    refine ⟨fun j hj hmine => ?_, fun j hj hne hno => ?_⟩
    · by_cases hji : j = i
      · rw [hji]
        exact hgone
      · rw [hothers j hji]
        exact (hfold j).1 ⟨mem_range.2 hj, hmine.resolve_left hji⟩
    · rw [hothers j hne]
      exact (hfold j).2 fun h => hno h.2
  · obtain ⟨hothers, hgone⟩ := orphan_spec s hnone
    rw [depth, release_of_not_listen _ _ hstate]
    refine ⟨fun j hj hmine => ?_, fun j _ hne _ => hothers j hne⟩
    rcases hmine with rfl | hkid
    · exact hgone
    · exact absurd (hkids j hj hkid).2 hstate

/-- A block is given back, with those that were not accepted if it was a listener. -/
lemma Inv.abandon (h : Inv a) (hgone : ∀ j < maxConns, j = i ∨ Kid a.tcp i j → Gone (b.tcp.conns j))
    (hsame : ∀ j < maxConns, j ≠ i → ¬ Kid a.tcp i j → b.tcp.conns j = a.tcp.conns j)
    (hsocks : ∀ k' j, b.Owns k' j ↔ a.Owns k' j ∧ j ≠ i) : Inv b := by
  refine .of_placed (fun k' j hown => ?_) (fun k1 k2 j h1 h2 => ?_) fun j hj hused => ?_
  · obtain ⟨hown, hne⟩ := (hsocks k' j).1 hown
    have hsock := h.sock k' j hown
    rw [hsame j hsock.2.1 hne (fun hkid => by rw [Kid, hsock.2.2.2.1] at hkid; cases hkid.2)]
    exact hsock
  · exact h.one k1 k2 j ((hsocks k1 j).1 h1).1 ((hsocks k2 j).1 h2).1
  by_cases hmine : j = i ∨ Kid a.tcp i j
  · rcases hgone j hj hmine with hno | ⟨horphan, hno, hst⟩
    · rw [hused] at hno
      cases hno
    · rw [Placed, hno]
      exact ⟨nofun, fun habs => absurd habs hst, .inr (.inr horphan)⟩
  rw [not_or] at hmine
  obtain ⟨hne, hnot⟩ := hmine
  have heq := hsame j hj hne hnot
  rw [heq] at hused
  refine (h.placed hj hused).keeps (by rw [heq]; exact Tcb.Keeps.refl _) (fun l hl hlive => ?_)
      fun k' hown =>
    (hsocks k' j).2 ⟨hown, hne⟩
  -- its listener is neither the one that went, nor one of those that went with it
  have hli : l ≠ i := by
    rintro rfl
    exact hnot ⟨hused, hl⟩
  have hkid : ¬ Kid a.tcp i l := fun hkid => (h.child l hlive.lt hkid.1 i hkid.2).2.1 hlive.state
  refine hlive.of_keeps ?_
  rw [hsame l hlive.lt hli hkid]
  exact Tcb.Keeps.refl _

/-! ## Every call -/

variable {s s' : Sock}

lemma owns_of_socks (hs : b.socks = a.socks) (k i) : b.Owns k i ↔ a.Owns k i := by
  rw [Owns, Owns, hs]

variable {o : Option Sock} {port : BitVec 16} {addr raddr : BitVec 32} {isn : SeqNum}

lemma owns_update (hb : b.socks = update a.socks k o) (k' j : Nat) :
    b.Owns k' j ↔ (k' = k ∧ o.bind Sock.tcp = some j) ∨ (k' ≠ k ∧ a.Owns k' j) := by
  have hbind : ∀ x : Option Sock, (∃ s, x = some s ∧ s.tcp = some j) ↔ x.bind Sock.tcp = some j :=
    fun x => Option.bind_eq_some_iff.symm
  by_cases hk : k' = k
  · subst hk
    rw [Owns, hb, update_self, hbind]
    exact ⟨fun h => .inl ⟨rfl, h⟩, fun h => h.elim And.right fun h' => absurd rfl h'.1⟩
  · rw [Owns, Owns, hb, update_of_ne hk]
    exact ⟨fun h => .inr ⟨hk, h⟩, fun h => h.elim (fun h' => absurd h'.1 hk) And.right⟩

lemma owns_setSock (hs : a.socks k = some s) (hb : b.socks = a.socks) (htcp : s'.tcp = s.tcp)
    (k' j : Nat) :
    (b.setSock k (some s')).Owns k' j ↔ a.Owns k' j := by
  have hset : (b.setSock k (some s')).socks = update a.socks k (some s') := by
    rw [setSock, hb]
  rw [owns_update hset]
  by_cases hk : k' = k
  · subst hk
    rw [Owns, hs]
    constructor
    · rintro (⟨-, hj⟩ | ⟨hne, -⟩)
      · exact ⟨s, rfl, htcp.symm.trans hj⟩
      · exact absurd rfl hne
    rintro ⟨s1, hs1, hj⟩
    cases hs1
    exact .inl ⟨rfl, htcp.trans hj⟩
  · exact ⟨fun h => h.elim (fun h' => absurd h'.1 hk) And.right, fun h => .inr ⟨hk, h⟩⟩

lemma owns_update_free (hs : a.socks k = none) (hb : b.socks = update a.socks k o) (k' j : Nat) :
    b.Owns k' j ↔ a.Owns k' j ∨ (k' = k ∧ o.bind Sock.tcp = some j) := by
  rw [owns_update hb]
  have hnot : a.Owns k' j → k' ≠ k := by
    rintro ⟨s, hs', -⟩ rfl
    rw [hs] at hs'
    cases hs'
  exact ⟨fun h => h.elim .inr fun h' => .inl h'.2,
    fun h => h.elim (fun h' => .inr ⟨hnot h', h'⟩) .inl⟩

lemma Inv.of_conns (h : Inv a) (hconns : b.tcp.conns = a.tcp.conns)
    (hsocks : ∀ k i, b.Owns k i ↔ a.Owns k i) :
    Inv b := h.of_keeps hsocks fun i _ => .inl (by rw [hconns]; exact Tcb.Keeps.refl _)

/-- A call on a socket that leaves its block the listener it is, or is not. -/
lemma Inv.touch (h : Inv a) (hown : a.Owns k i) (htouch : Touches i a.tcp b.tcp)
    (hstate : (b.tcp.conns i).state = .listen ↔ (a.tcp.conns i).state = .listen)
    (htimer : (a.tcp.conns i).state = .listen → (b.tcp.conns i).snd.rexmitAt =
    (a.tcp.conns i).snd.rexmitAt)
    (hsocks : ∀ k' j, b.Owns k' j ↔ a.Owns k' j) : Inv b := by
  obtain ⟨-, hi, hused, -, -⟩ := h.sock k i hown
  refine h.setOwned hown htouch hstate.2 (fun hst => ?_) hsocks
  exact (htimer (hstate.1 hst)).trans (h.listen i hi hused (hstate.1 hst)).2

lemma Inv.touch_set (h : Inv a) (hown : a.Owns k i) (hb : b.tcp = a.tcp.set i t)
    (hheld : Tcb.Held (a.tcp.conns i) t) (hstate : t.state = .listen ↔
    (a.tcp.conns i).state = .listen)
    (htimer : (a.tcp.conns i).state = .listen → t.snd.rexmitAt = (a.tcp.conns i).snd.rexmitAt)
    (hsocks : ∀ k' j, b.Owns k' j ↔ a.Owns k' j) : Inv b := by
  refine h.touch hown ?_ ?_ ?_ hsocks
  · rw [hb]
    exact touches_set hheld
  · rw [hb, Table.set_self]
    exact hstate
  · rw [hb, Table.set_self]
    exact htimer

lemma first_spec {p : Tcb → Bool} (h : tab.first p = some i) : i < maxConns ∧
    p (tab.conns i) = true :=
  ⟨mem_range.1 (mem_of_find?_eq_some h), by simpa using find?_some h⟩

lemma alloc_spec {mem : Bool} (h : tab.alloc mem = some i) : i < maxConns ∧
    (tab.conns i).used = false := by
  rw [Table.alloc, Option.filter_eq_some_iff] at h
  obtain ⟨hi, hused⟩ := first_spec h.1
  exact ⟨hi, by rwa [Bool.not_eq_true'] at hused⟩

lemma sockAlloc_spec (h : a.sockAlloc = some k) : k < sockMax ∧ a.socks k = none :=
  ⟨mem_range.1 (mem_of_find?_eq_some h), by simpa using find?_some h⟩

lemma pick_conns (tries : Nat) (tab) : (Table.pick tries tab).1.conns = tab.conns := by
  induction tries generalizing tab with
  | zero => rfl
  | succ tries ih =>
    rw [Table.pick]
    generalize (if tab.nextPort + 1 < 32768 then (32768 : BitVec 16) else tab.nextPort + 1) = next
    split
    · exact ih _
    · rfl

lemma pickUdp_frame (tries : Nat) (h) : (pickUdp tries h).1.tcp = h.tcp ∧
    (pickUdp tries h).1.socks = h.socks := by
  induction tries generalizing h with
  | zero => exact ⟨rfl, rfl⟩
  | succ tries ih =>
    rw [pickUdp]
    generalize (if h.nextUdp + 1 < 32768 then (32768 : BitVec 16) else h.nextUdp + 1) = next
    split
    · exact ih _
    · exact ⟨rfl, rfl⟩

lemma udpBind_frame (h : Host) (port) (arg : Option Nat) :
    (h.udpBind port arg).1.tcp = h.tcp ∧ (h.udpBind port arg).1.socks = h.socks := by
  rw [udpBind]
  split
  · exact ⟨rfl, rfl⟩
  · split <;> exact ⟨rfl, rfl⟩

lemma Inv.create (h : Inv a) (stream mem : Bool) (fd : Except Errno Unit) :
    Inv (a.create stream mem fd).1 := by
  rw [Host.create]
  split
  · exact h
  rename_i k hk
  obtain ⟨hklt, hkfree⟩ := sockAlloc_spec hk
  split
  · split
    · exact h
    rename_i i hi
    obtain ⟨hilt, hunused⟩ := alloc_spec hi
    have hnone : ∀ k, ¬ a.Owns k i := fun k hown => by
      rw [(h.sock k i hown).2.2.1] at hunused
      cases hunused
    split
    · refine h.of_keeps (fun _ _ => owns_of_socks rfl _ _) fun j _ => ?_
      by_cases hji : j = i
      · subst hji
        exact .inr ⟨by rw [Table.set_self]; rfl, .inl hunused⟩
      refine .inl ?_
      rw [Table.set_of_ne _ _ hji, Table.set_of_ne _ _ hji]
      exact Tcb.Keeps.refl _
    · refine h.adopt (t := (a.tcp.conns i).fresh) hklt hilt hnone ?_ rfl rfl rfl nofun rfl
        fun k' j => ?_
      · intro hused
        rw [hunused] at hused
        cases hused
      · rw [owns_update_free (a := a) hkfree rfl]
        exact or_congr_right (and_congr_right fun _ => ⟨fun h => (Option.some.inj h).symm,
          fun h => h ▸ rfl⟩)
  · split
    · split
      · exact h
      refine h.of_conns rfl fun k' j => ?_
      rw [owns_update_free (a := a) hkfree rfl]
      exact ⟨fun h => h.elim id fun h' => absurd h'.2 nofun, .inl⟩
    · exact h

/-- A port is all that changes of a block. -/
structure Ported (i : Nat) (tab tab' : Table) : Prop extends Touches i tab tab' where
  state : (tab'.conns i).state = (tab.conns i).state
  rexmitAt : (tab'.conns i).snd.rexmitAt = (tab.conns i).snd.rexmitAt

lemma ported_of_conns {tab tab'} (h : tab'.conns = tab.conns) : Ported i tab tab' :=
  ⟨Touches.of_conns h, by rw [h], by rw [h]⟩

lemma ported_set {tab tab' : Table} (h : tab'.conns = tab.conns) (port) :
    Ported i tab (tab'.set i { tab'.conns i with localPort := port }) := by
  refine ⟨(Touches.of_conns h).trans (touches_set ⟨rfl, rfl, rfl, rfl⟩), ?_, ?_⟩ <;>
    rw [Table.set_self, ← h]

/-- `sock_bind` changes no more of the table than a port. -/
lemma bindPort_frame (a : Host) (k s) (port) : (a.bindPort k s port).1.socks = a.socks ∧
      (s.tcp = none → (a.bindPort k s port).1.tcp = a.tcp) ∧
      ∀ i, s.tcp = some i → Ported i a.tcp (a.bindPort k s port).1.tcp := by
  rw [bindPort]
  split
  · rename_i hnone
    have hpick : (if port = 0 then a.pickUdpPort else (a, some port)).1.tcp = a.tcp ∧
        (if port = 0 then a.pickUdpPort else (a, some port)).1.socks = a.socks := by
      split
      · exact pickUdp_frame _ a
      · exact ⟨rfl, rfl⟩
    have hno : ∀ {tab : Table} i, s.tcp = some i → Ported i a.tcp tab := fun i hi => by
      rw [hnone] at hi
      cases hi
    dsimp only
    generalize (if port = 0 then a.pickUdpPort else (a, some port)) = r at hpick ⊢
    obtain ⟨h', port'⟩ := r
    obtain ⟨htcp, hsocks⟩ := hpick
    cases port' with
    | none => exact ⟨hsocks, fun _ => htcp, hno⟩
    | some port' =>
      obtain ⟨htcp', hsocks'⟩ := udpBind_frame h' port' (some k)
      dsimp only at htcp hsocks ⊢
      generalize h'.udpBind port' (some k) = r at htcp' hsocks' ⊢
      obtain ⟨h'', res⟩ := r
      cases res <;> exact ⟨hsocks'.trans hsocks, fun _ => htcp'.trans htcp, hno⟩
  · rename_i i hi
    have hno : ∀ {tab : Table}, s.tcp = none → tab = a.tcp := fun hnone => by
      rw [hi] at hnone
      cases hnone
    have hone : ∀ {tab : Table}, Ported i a.tcp tab → ∀ i', s.tcp = some i' → Ported i' a.tcp tab :=
      fun h i' hi' => Option.some.inj (hi.symm.trans hi') ▸ h
    split
    · have hpick := pick_conns 4096 a.tcp
      rw [Table.pickPort]
      generalize Table.pick 4096 a.tcp = r at hpick ⊢
      obtain ⟨tab, port'⟩ := r
      cases port' with
      | none => exact ⟨rfl, hno, hone (ported_of_conns hpick)⟩
      | some port' => exact ⟨rfl, hno, hone (ported_set hpick port')⟩
    · split
      · exact ⟨rfl, hno, hone (ported_of_conns rfl)⟩
      · exact ⟨rfl, hno, hone (ported_set rfl port)⟩

lemma Inv.bind (h : Inv a) (hs : a.socks k = some s) (addr) (port) :
    Inv (a.bind k s addr port).1 := by
  obtain ⟨hsocks, hnone, hsome⟩ := bindPort_frame a k s port
  -- with or without the address noted in the socket
  have hport : ∀ c : Host, c.tcp = (a.bindPort k s port).1.tcp →
      (∀ k' j, c.Owns k' j ↔ a.Owns k' j) → Inv c := by
    intro c htcp howns
    cases hi : s.tcp with
    | none => exact h.of_conns (by rw [htcp, hnone hi]) howns
    | some i =>
      have hported := hsome i hi
      rw [← htcp] at hported
      exact h.touch ⟨s, hs, hi⟩ hported.toTouches (by rw [hported.state])
        (fun _ => hported.rexmitAt) howns
  rw [Host.bind]
  split
  · exact h
  split
  · exact h
  generalize a.bindPort k s port = r at hport hsocks ⊢
  obtain ⟨h', res⟩ := r
  cases res with
  | error e => exact hport h' rfl fun _ _ => owns_of_socks hsocks _ _
  | ok port' => exact hport _ rfl (owns_setSock hs hsocks rfl)

/-- `tcp_connect` has a block to itself, and that is no listener. -/
lemma startConnect_spec (tab i) (addr) (port) (isn) :
    Touches i tab (tab.startConnect i addr port isn).1 ∧
      ((tab.startConnect i addr port isn).1.conns i).state ≠ .listen := by
  rw [Table.startConnect]
  split
  · refine ⟨touches_set ⟨rfl, rfl, rfl, rfl⟩, ?_⟩
    rw [Table.set_self]
    exact nofun
  refine ⟨touches_set ⟨rfl, rfl, rfl, rfl⟩, ?_⟩
  rw [Table.set_self]
  exact nofun

lemma connect_spec (tab i) (ip addr : BitVec 32) (port) (isn) :
    (tab.connect i ip addr port isn).1 = tab ∨ ((tab.conns i).state ≠ .listen ∧
      Touches i tab (tab.connect i ip addr port isn).1 ∧
      ((tab.connect i ip addr port isn).1.conns i).state ≠ .listen) := by
  rw [Table.connect]
  split
  · exact .inl rfl
  rename_i hclosed
  rw [not_not] at hclosed
  have hne : (tab.conns i).state ≠ .listen := by rw [hclosed]; exact nofun
  split
  · exact .inl rfl
  refine .inr ⟨hne, ?_⟩
  have hset : Touches i tab (tab.set i { tab.conns i with localIp := if isLoopback addr then addr else ip }) :=
    touches_set ⟨rfl, rfl, rfl, rfl⟩
  have hst : ((tab.set i { tab.conns i with localIp := if isLoopback addr then addr else ip }).conns i).state ≠
      .listen := by
    rw [Table.set_self]
    exact hne
  dsimp only
  generalize tab.set i { tab.conns i with localIp := if isLoopback addr then addr else ip } = tab1 at hset hst ⊢
  split
  · have hpick := pick_conns 4096 tab1
    rw [Table.pickPort]
    generalize Table.pick 4096 tab1 = r at hpick ⊢
    obtain ⟨tab2, port'⟩ := r
    have hset2 : Touches i tab tab2 := hset.trans (Touches.of_conns hpick)
    cases port' with
    | none =>
      refine ⟨hset2, ?_⟩
      rw [hpick]
      exact hst
    | some port' =>
      obtain ⟨htouch, hstart⟩ := startConnect_spec
        (tab2.set i { tab2.conns i with localPort := port' }) i addr port isn
      have hport : Touches i tab2 (tab2.set i { tab2.conns i with localPort := port' }) :=
        touches_set ⟨rfl, rfl, rfl, rfl⟩
      exact ⟨(hset2.trans hport).trans htouch, hstart⟩
  · obtain ⟨htouch, hstart⟩ := startConnect_spec tab1 i addr port isn
    exact ⟨hset.trans htouch, hstart⟩

lemma dgramAutobind_frame (a : Host) (k s) :
    (a.dgramAutobind k s).1.tcp = a.tcp ∧ (a.dgramAutobind k s).1.socks = a.socks ∧
      ∀ s', (a.dgramAutobind k s).2 = .ok s' → s'.tcp = s.tcp := by
  rw [dgramAutobind]
  split
  · exact ⟨rfl, rfl, fun s' hs' => by cases hs'; rfl⟩
  obtain ⟨htcp, hsocks⟩ := pickUdp_frame 28232 a
  rw [pickUdpPort]
  generalize pickUdp 28232 a = r at htcp hsocks ⊢
  obtain ⟨h1, port⟩ := r
  cases port with
  | none => exact ⟨htcp, hsocks, nofun⟩
  | some port =>
    obtain ⟨htcp', hsocks'⟩ := udpBind_frame h1 port (some k)
    dsimp only at htcp hsocks ⊢
    generalize h1.udpBind port (some k) = r at htcp' hsocks' ⊢
    obtain ⟨h2, res⟩ := r
    cases res with
    | error e => exact ⟨htcp'.trans htcp, hsocks'.trans hsocks, nofun⟩
    | ok _ => exact ⟨htcp'.trans htcp, hsocks'.trans hsocks, fun s' hs' => by cases hs'; rfl⟩

lemma Inv.connect (h : Inv a) (hs : a.socks k = some s) (addr) (port) (isn) :
    Inv (a.connect k s addr port isn).1 := by
  rw [Host.connect]
  split
  · obtain ⟨htcp, hsocks, hsame⟩ := dgramAutobind_frame a k s
    generalize a.dgramAutobind k s = r at htcp hsocks hsame ⊢
    obtain ⟨h1, res⟩ := r
    cases res with
    | error e => exact h.of_conns (congrArg Table.conns htcp) (owns_of_socks hsocks)
    | ok s1 => exact h.of_conns (congrArg Table.conns htcp) (owns_setSock hs hsocks (hsame s1 rfl))
  rename_i i hi
  split
  · exact h
  have hspec := connect_spec a.tcp i a.ip addr port isn
  generalize a.tcp.connect i a.ip addr port isn = r at hspec ⊢
  obtain ⟨tab, res⟩ := r
  have hinv : ∀ c : Host, c.tcp = tab → (∀ k' j, c.Owns k' j ↔ a.Owns k' j) → Inv c := by
    rintro c rfl howns
    rcases hspec with heq | ⟨hne, htouch, hne'⟩
    · exact h.of_conns (congrArg Table.conns heq) howns
    · exact h.touch ⟨s, hs, hi⟩ htouch (iff_of_false hne' hne) (fun hst => absurd hst hne) howns
  cases res with
  | error e => exact hinv _ rfl fun _ _ => Iff.rfl
  | ok _ => exact hinv _ rfl (owns_setSock hs rfl rfl)

lemma listen_spec (tab i) (port) : Touches i tab (tab.listen i port).1 ∧
      ((tab.listen i port).1.conns i).snd.rexmitAt = (tab.conns i).snd.rexmitAt := by
  rw [Table.listen]
  split
  · exact ⟨Touches.of_conns rfl, rfl⟩
  refine ⟨touches_set ⟨rfl, rfl, rfl, rfl⟩, ?_⟩
  rw [Table.set_self]

lemma Inv.listened (h : Inv a) (hs : a.socks k = some s)
    (hzero : ∀ i, s.tcp = some i → (a.tcp.conns i).state ≠ .listen →
    (a.tcp.conns i).snd.rexmitAt = 0) :
    Inv (a.listen k s).1 := by
  rw [Host.listen]
  split
  · exact h
  rename_i i hi
  split
  · exact h
  rename_i hne
  -- whatever `tcp_listen` is called with, the timer is the block's
  have hinv : ∀ (c : Host) (tab : Table) (port : BitVec 16), Ported i a.tcp tab →
      c.tcp = (tab.listen i port).1 → (∀ k' j, c.Owns k' j ↔ a.Owns k' j) → Inv c := by
    intro c tab port hported hc howns
    obtain ⟨htouch, htimer⟩ := listen_spec tab i port
    rw [← hc] at htouch htimer
    refine h.setOwned ⟨s, hs, hi⟩ (hported.toTouches.trans htouch) (fun hst => absurd hst hne)
      (fun _ => ?_) howns
    exact (htimer.trans hported.rexmitAt).trans (hzero i hi hne)
  split
  · exact hinv _ a.tcp s.port (ported_of_conns rfl) rfl fun _ _ => Iff.rfl
  have hpick := pick_conns 4096 a.tcp
  rw [Table.pickPort]
  generalize Table.pick 4096 a.tcp = r at hpick ⊢
  obtain ⟨tab, port⟩ := r
  cases port with
  | none => exact h.of_conns hpick fun _ _ => Iff.rfl
  | some port => exact hinv _ _ port (ported_set hpick port) rfl (owns_setSock hs rfl rfl)

lemma Inv.not_owned (h : Inv a) (hl : (a.tcp.conns i).listener = some l) (k) : ¬ a.Owns k i := by
  intro hown
  have hnone := (h.sock k i hown).2.2.2.1
  rw [hl] at hnone
  cases hnone

lemma Inv.no_kid (h : Inv a) (hi : i < maxConns) (hused : (a.tcp.conns i).used = true)
    (hl : (a.tcp.conns i).listener = some l) {c : Nat} (hc : c < maxConns) : ¬ Kid a.tcp i c := by
  intro hkid
  exact (h.child i hi hused l hl).2.1 (h.child c hc hkid.1 i hkid.2).1.state

/-- `sock_accept` finds no place for the connection that it took. -/
lemma Inv.dropped (h : Inv a) (hi : i < maxConns) (hused : (a.tcp.conns i).used = true)
    (hl : (a.tcp.conns i).listener = some l) : Inv { a with
      tcp := (a.tcp.set i { a.tcp.conns i with pending := false, listener := none }).release depth i } := by
  have hothers : ∀ j, j ≠ i →
      (a.tcp.set i { a.tcp.conns i with pending := false, listener := none }).conns j = a.tcp.conns j :=
    fun j hj => a.tcp.set_of_ne _ hj
  have hself : ((a.tcp.set i { a.tcp.conns i with pending := false, listener := none }).conns i).listener =
      none := by rw [Table.set_self]
  generalize a.tcp.set i { a.tcp.conns i with pending := false, listener := none } = tab at hothers hself ⊢
  have hno : ∀ c < maxConns, ¬ Kid tab i c := by
    intro c hc hkid
    by_cases hci : c = i
    · rw [Kid, hci, hself] at hkid
      cases hkid.2
    · rw [Kid, hothers c hci] at hkid
      exact h.no_kid hi hused hl hc hkid
  obtain ⟨hgone, hsame⟩ := release_spec tab hself fun c hc hkid => absurd hkid (hno c hc)
  refine h.abandon (i := i) (fun j hj hmine => ?_) (fun j hj hne _ => ?_) fun k' j => ?_
  · exact hgone j hj (.inl (hmine.resolve_right (h.no_kid hi hused hl hj)))
  · exact (hsame j hj hne (hno j hj)).trans (hothers j hne)
  refine ⟨fun hown => ⟨hown, ?_⟩, And.left⟩
  rintro rfl
  exact h.not_owned hl k' hown

lemma Inv.accept (h : Inv a) (s) (fd : Except Errno Unit) : Inv (a.accept s fd).1 := by
  rw [Host.accept]
  split
  · exact h
  rename_i i hi
  split
  · exact h
  rw [Table.accept]
  cases hc : a.tcp.first fun t => t.used && (t.listener == some i) && t.pending with
  | none => exact h
  | some c =>
    obtain ⟨hclt, hc⟩ := first_spec hc
    rw [Bool.and_eq_true, Bool.and_eq_true, beq_iff_eq] at hc
    obtain ⟨⟨hused, hl⟩, -⟩ := hc
    dsimp only
    split
    · exact h.dropped hclt hused hl
    rename_i hk
    split
    · exact h.dropped hclt hused hl
    obtain ⟨hklt, hkfree⟩ := sockAlloc_spec hk
    have hchild := h.child c hclt hused i hl
    refine h.adopt (t := { a.tcp.conns c with pending := false, listener := none }) hklt hclt
      (h.not_owned hl) (fun _ => hchild.2.1) hused rfl hchild.2.2.2 hchild.2.1 rfl fun k' j => ?_
    rw [owns_update_free hkfree rfl]
    exact or_congr_right (and_congr_right' (by rw [Option.bind_some, Option.some_inj, eq_comm]))

lemma Inv.close (h : Inv a) (hs : a.socks k = some s) : Inv (a.close k s) := by
  rw [Host.close]
  split
  · rename_i hnone
    have hown : ∀ k' j, k' ≠ k ∧ a.Owns k' j ↔ a.Owns k' j := by
      intro k' j
      refine ⟨And.right, fun hown => ⟨?_, hown⟩⟩
      rintro rfl
      obtain ⟨s', hs', hj⟩ := hown
      rw [hs] at hs'
      cases hs'
      rw [hnone] at hj
      cases hj
    split
    · refine h.of_conns rfl fun k' j => ?_
      rw [owns_update rfl]
      exact (or_iff_right fun h => nomatch h.2).trans (hown k' j)
    refine h.of_conns rfl fun k' j => ?_
    rw [owns_update rfl]
    exact (or_iff_right fun h => nomatch h.2).trans (hown k' j)
  · rename_i i hi
    have hmine : a.Owns k i := ⟨s, hs, hi⟩
    obtain ⟨hgone, hsame⟩ := release_spec a.tcp (h.sock k i hmine).2.2.2.1 fun c hc hkid => by
      obtain ⟨hlive, hne, -⟩ := h.child c hc hkid.1 i hkid.2
      exact ⟨hne, hlive.state⟩
    refine h.abandon hgone hsame fun k' j => ?_
    rw [owns_update rfl]
    refine (or_iff_right fun h => nomatch h.2).trans ⟨fun ⟨hne, hown⟩ => ⟨hown, ?_⟩,
      fun ⟨hown, hne⟩ => ⟨?_, hown⟩⟩
    · rintro rfl
      exact hne (h.one k' k j hown hmine)
    rintro rfl
    obtain ⟨s', hs', hj⟩ := hown
    rw [hs] at hs'
    cases hs'
    exact hne (Option.some.inj (hj.symm.trans hi))

lemma Inv.shutdown (h : Inv a) (hs : a.socks k = some s) (rd wr : Bool) :
    Inv (a.shutdown k s rd wr).1 := by
  rw [Host.shutdown]
  dsimp only
  split
  · exact h.of_conns rfl (owns_setSock hs rfl rfl)
  rename_i i hi
  split
  · exact h
  rename_i hstate
  rw [not_or, not_or] at hstate
  obtain ⟨hclosed, hlisten, hsent⟩ := hstate
  split
  · refine h.touch_set (t := (a.tcp.conns i).close) ⟨s, hs, hi⟩ ?_ (Tcb.close_held _)
      (iff_of_false (Tcb.close_listen hlisten) hlisten) (fun hst => absurd hst hlisten)
        (owns_setSock hs rfl rfl)
    rw [setSock, Table.close]
    split
    · exact absurd ‹_› hclosed
    · exact absurd ‹_› hlisten
    · exact absurd ‹_› hsent
    · rfl
  · exact h.of_conns rfl (owns_setSock hs rfl rfl)

lemma Inv.send (h : Inv a) (hs : a.socks k = some s) (data : List UInt8) : Inv (a.send s data) := by
  rw [Host.send]
  split
  · exact h
  rename_i i hi
  dsimp only
  split
  · exact h
  rename_i hguard
  have hlisten : (a.tcp.conns i).state ≠ .listen := by
    intro hst
    rw [hst] at hguard
    exact hguard (by rw [beq_self_eq_true, Bool.or_true, Bool.true_or])
  exact h.touch_set ⟨s, hs, hi⟩ rfl (Tcb.send_touch _ data).1 (by rw [(Tcb.send_touch _ data).2])
    (fun hst => absurd hst hlisten) fun _ _ => Iff.rfl

lemma Inv.recv (h : Inv a) (hs : a.socks k = some s) (len : Nat) : Inv (a.recv k s len) := by
  rw [Host.recv]
  split
  · exact h
  split
  · exact h.of_conns rfl (owns_setSock hs rfl rfl)
  rename_i hi
  dsimp only
  split
  · exact h
  rename_i hlisten
  exact h.touch_set ⟨s, hs, hi⟩ rfl (Tcb.recv_touch _ len).1 (by rw [(Tcb.recv_touch _ len).2])
    (fun hst => absurd hst hlisten) fun _ _ => Iff.rfl

lemma Inv.setopt (h : Inv a) (hs : a.socks k = some s) (o : Opt) : Inv (a.setopt k s o) := by
  have hreuse : ∀ on, Inv (a.setopt k s (.reuseaddr on)) :=
    fun _ => h.of_conns rfl (owns_setSock hs rfl rfl)
  -- an option of the connection is none that says whose the block is
  cases htcp : s.tcp with
  | none =>
    cases o with
    | reuseaddr on => exact hreuse on
    | _ =>
      simp only [Host.setopt, htcp]
      exact h
  | some i =>
    cases o with
    | reuseaddr on => exact hreuse on
    | _ =>
      simp only [Host.setopt, htcp]
      exact h.touch_set ⟨s, hs, htcp⟩ rfl ⟨rfl, rfl, rfl,
        rfl⟩ Iff.rfl (fun _ => rfl) fun _ _ => Iff.rfl

lemma find_spec {rport lport : BitVec 16}
    (h : tab.find raddr rport lport = some i) : i < maxConns ∧ (tab.conns i).used = true := by
  rcases (Option.orElse_eq_some _ _ _).1 h with hconn | ⟨-, hlisten⟩
  · obtain ⟨hi, hp⟩ := first_spec hconn
    simp only [Bool.and_eq_true] at hp
    exact ⟨hi, hp.1.1.1.1⟩
  obtain ⟨hi, hp⟩ := first_spec hlisten
  simp only [Bool.and_eq_true] at hp
  exact ⟨hi, hp.1.1⟩

lemma Inv.arrived (h : Inv a) (g : Arrival) (luck : Luck)
    (hrst : ∀ i, a.tcp.find g.src g.sport g.dport = some i → (a.tcp.conns i).HalfOpen →
    g.seg.flags.rst = false) :
    Inv { a with tcp := a.tcp.input g luck } := by
  rw [Table.input]
  split
  · exact h
  rename_i i hfind
  obtain ⟨hi, hused⟩ := find_spec hfind
  split
  · rename_i hlisten
    split
    · split
      · exact h
      rename_i c hc
      obtain ⟨hclt, hcfree⟩ := alloc_spec hc
      exact h.spawn (t := (a.tcp.conns c).fresh.child i (a.tcp.conns i) g luck) ⟨hi, hused,
        hlisten⟩ hcfree
        rfl rfl rfl rfl fun _ _ => Iff.rfl
    · exact h
  rename_i hlisten
  refine h.of_keeps (fun _ _ => Iff.rfl) fun j _ => .inl ?_
  by_cases hji : j = i
  · subst hji
    rw [Table.set_self]
    exact Tcb.input_keeps hlisten (hrst j hfind) luck.ws luck.ts luck.sack
  · rw [Table.set_of_ne _ _ hji]
    exact Tcb.Keeps.refl _

lemma Inv.ticked (h : Inv a)
    (hup : ∀ i < maxConns, (a.tcp.conns i).used = true → (a.tcp.conns i).HalfOpen →
    ¬ (a.tcp.conns i).GivesUp) :
    Inv { a with tcp := a.tcp.timer } := by
  refine h.of_keeps (fun _ _ => Iff.rfl) fun i hi => ?_
  rw [Table.timer]
  dsimp only
  split
  · rename_i hused
    split
    · rename_i hreaped
      rw [Tcb.reaped, Bool.and_eq_true] at hreaped
      exact .inr ⟨rfl, .inr hreaped.1⟩
    refine .inl ?_
    by_cases hlisten : (a.tcp.conns i).state = .listen
    · exact Tcb.timer_listen hlisten (h.listen i hi hused.2 hlisten).2
    · exact Tcb.timer_keeps hlisten (hup i hi hused.2)
  · exact .inl (Tcb.Keeps.refl _)

lemma Inv.dgramArrived (h : Inv a) (k) (d : Dgram) : Inv (a.dgramArrived k d) := by
  rw [Host.dgramArrived]
  split
  · exact h
  rename_i hs
  split
  · exact h
  · exact h.of_conns rfl (owns_setSock hs rfl rfl)

lemma Inv.packet (h : Inv a) (p : Packet) (fromLo : Bool) (luck : Luck)
    (hrst : a.lets p fromLo = true → ∀ sport dport seg, p.body = .tcp sport dport seg →
      ∀ i ∈ a.tcp.find p.src sport dport, (a.tcp.conns i).HalfOpen → seg.flags.rst = false) :
    Inv (a.ipInput p fromLo luck) := by
  rw [ipInput]
  split
  · rename_i hlets
    split
    · rw [udpInput]
      split
      · exact h.dgramArrived _ _
      · exact h
    · rename_i sport dport seg hbody
      exact h.arrived ⟨p.src, p.dst, sport, dport, seg⟩ luck (hrst hlets sport dport seg hbody)
  · exact h

lemma Inv.at_ (h : Inv a) (now : SeqNum) : Inv (a.at_ now) :=
  h.of_keeps (fun _ _ => Iff.rfl) fun _ _ => .inl
    (Tcb.Held.keeps ⟨rfl, rfl, rfl, rfl⟩ rfl fun _ => rfl)

/-! ## Runs -/

/-- No connection dies that its listener has not been told of, by a reset or by the last
retransmission; and none is made a listener whose retransmission timer runs. -/
def Spares (h : Host) : Call → Prop
  | .listen k =>
    ∀ i ∈ (h.socks k).bind Sock.tcp, (h.tcp.conns i).state ≠ .listen →
    (h.tcp.conns i).snd.rexmitAt = 0
  | .packet p fromLo _ => h.lets p fromLo = true →
      match p.body with
      | .tcp sport dport seg =>
        ∀ i ∈ h.tcp.find p.src sport dport, (h.tcp.conns i).HalfOpen → seg.flags.rst = false
      | .udp _ _ _ => True
  | .tick =>
    ∀ i < maxConns, (h.tcp.conns i).used = true → (h.tcp.conns i).HalfOpen →
    ¬ (h.tcp.conns i).GivesUp
  | _ => True

instance (h : Host) : ∀ call, Decidable (h.Spares call)
  | .listen k => inferInstanceAs (Decidable (∀ i ∈ (h.socks k).bind Sock.tcp, _))
  | .packet ⟨src, dst, .tcp sport dport seg⟩ fromLo _ =>
    inferInstanceAs (Decidable (h.lets ⟨src, dst, .tcp sport dport seg⟩ fromLo = true →
      ∀ i ∈ h.tcp.find src sport dport, (h.tcp.conns i).HalfOpen → seg.flags.rst = false))
  | .packet ⟨_, _, .udp _ _ _⟩ _ _ => isTrue fun _ => trivial
  | .tick => inferInstanceAs (Decidable (∀ i < maxConns, _))
  | .create _ _ _ | .bind _ _ _ | .connect _ _ _ _ | .accept _ _ | .close _ | .shutdown _ _ _ | .send _ _
  | .recv _ _ | .setopt _ _ => isTrue trivial

lemma Inv.onSock (h : Inv a) {f : Sock → Host} (hf : ∀ s, a.socks k = some s → Inv (f s)) :
    Inv (a.onSock k f) := by
  rw [Host.onSock]
  split
  · exact h
  · exact hf _ ‹_›

lemma Inv.on (h : Inv a) (call : Call) (hcall : a.Spares call) : Inv (a.on call) := by
  match call with
  | .create stream mem fd => exact h.create stream mem fd
  | .bind k addr port => exact h.onSock fun s hs => h.bind hs addr port
  | .connect k addr port isn => exact h.onSock fun s hs => h.connect hs addr port isn
  | .listen k => exact h.onSock fun s hs => h.listened hs fun i hi => hcall i (by rw [hs]; exact hi)
  | .accept k fd => exact h.onSock fun s _ => h.accept s fd
  | .close k => exact h.onSock fun s hs => h.close hs
  | .shutdown k rd wr => exact h.onSock fun s hs => h.shutdown hs rd wr
  | .send k data => exact h.onSock fun s hs => h.send hs data
  | .recv k len => exact h.onSock fun s hs => h.recv hs len
  | .setopt k o => exact h.onSock fun s hs => h.setopt hs o
  | .packet p fromLo luck =>
    refine h.packet p fromLo luck fun hlets sport dport seg hbody => ?_
    have hspares := hcall hlets
    rw [hbody] at hspares
    exact hspares
  | .tick => exact h.ticked hcall

structure Started (h : Host) : Prop where
  conns : ∀ i < maxConns, (h.tcp.conns i).used = false
  socks : ∀ k, h.socks k = none

lemma Started.inv (h : Started a) : Inv a := by
  have hno : ∀ k i, ¬ a.Owns k i := by
    rintro k i ⟨s, hs, -⟩
    rw [h.socks k] at hs
    cases hs
  have hunused : ∀ i < maxConns, (a.tcp.conns i).used ≠ true := fun i hi hused => by
    rw [h.conns i hi] at hused
    cases hused
  exact ⟨fun k i hown => absurd hown (hno k i), fun k _ i hown => absurd hown (hno k i),
    fun i hi hused => absurd hused (hunused i hi), fun i hi hused => absurd hused (hunused i hi),
    fun i hi hused => absurd hused (hunused i hi)⟩

lemma Inv.run (h : Inv a) (evs : List Event)
    (hevs : Runs.Every step (fun h e => (h.at_ e.now).Spares e.call) evs a) :
    Inv (evs.foldl step a) :=
  Runs.induction_on (fun _ e hinv hspares => (hinv.at_ e.now).on e.call hspares) evs h hevs

/-! ## Everything is given back -/

def closeAll (h : Host) : Host := (List.range sockMax).foldl (fun h k => h.on (.close k)) h

lemma on_close_socks (a : Host) (k k') :
    (a.on (.close k)).socks k' = if k' = k then none else a.socks k' := by
  rw [on, onSock]
  split
  · rename_i hnone
    split
    · rename_i heq
      rw [heq, hnone]
    · rfl
  rename_i s hs
  have hset : (a.close k s).socks = update a.socks k none := by
    rw [close]
    split
    · split <;> rfl
    · rfl
  rw [hset, update_apply]

lemma Inv.closeAll (h : Inv a) : Inv a.closeAll ∧ ∀ k < sockMax, a.closeAll.socks k = none := by
  have hfold : ∀ (ks : List Nat) (b : Host), Inv b → Inv (ks.foldl (fun h k => h.on (.close k)) b) ∧
      ∀ k, k ∈ ks ∨ b.socks k = none → (ks.foldl (fun h k => h.on (.close k)) b).socks k = none :=
          by
    intro ks
    induction ks with
    | nil => exact fun b hb => ⟨hb, fun k hk => hk.resolve_left not_mem_nil⟩
    | cons k0 ks ih =>
      intro b hb
      obtain ⟨hinv, hsocks⟩ := ih (b.on (.close k0)) (hb.on (.close k0) trivial)
      refine ⟨hinv, fun k hk => hsocks k ?_⟩
      rw [on_close_socks]
      split
      · exact .inr rfl
      rename_i hne
      exact hk.imp_left fun hmem => mem_of_ne_of_mem hne hmem
  obtain ⟨hinv, hsocks⟩ := hfold (range sockMax) a h
  exact ⟨hinv, fun k hk => hsocks k (.inl (mem_range.2 hk))⟩

/-- With no sockets there are orphans only: a listener would be a socket's. -/
lemma Inv.orphan_of_no_sock (h : Inv a) (hsocks : ∀ k < sockMax, a.socks k = none)
    (hi : i < maxConns)
    (hused : (a.tcp.conns i).used = true) : (a.tcp.conns i).orphan = true := by
  have hno : ∀ k j, ¬ a.Owns k j := by
    intro k j hown
    obtain ⟨s, hs, -⟩ := id hown
    rw [hsocks k (h.sock k j hown).1] at hs
    cases hs
  rcases h.owner i hi hused with ⟨k, hown⟩ | hsome | horphan
  · exact absurd hown (hno k i)
  · obtain ⟨l, hl⟩ := Option.isSome_iff_exists.1 hsome
    obtain ⟨hlive, -⟩ := h.child i hi hused l hl
    rcases h.owner l hlive.lt hlive.used with ⟨k, hown⟩ | hsome' | horphan
    · exact absurd hown (hno k l)
    · obtain ⟨l', hl'⟩ := Option.isSome_iff_exists.1 hsome'
      exact absurd hlive.state (h.child l hlive.lt hlive.used l' hl').2.1
    · rw [(h.listen l hlive.lt hlive.used hlive.state).1] at horphan
      cases horphan
  · exact horphan

/-- At the time `now` an orphan has had its minute. -/
def Due (t : Tcb) (now : SeqNum) : Prop :=
  Tcp.ticks Tcp.orphanLimitMs ≤ now - t.orphanSince ∧ (now - t.orphanSince).toNat < 2 ^ 31
  deriving Decidable

/-- `tcp_timer` frees the orphans. -/
lemma timer_frees {now : SeqNum} (hi : i < maxConns)
    (horphan : (a.tcp.conns i).used = true → (a.tcp.conns i).orphan = true ∧
    Due (a.tcp.conns i) now) :
    ((a.step ⟨now, .tick⟩).tcp.conns i).used = false := by
  rw [step, on, Table.timer]
  dsimp only
  split
  · rename_i hused
    obtain ⟨horphan, hdue⟩ := horphan hused.2
    have hreaped : ((a.at_ now).tcp.conns i).reaped = true := by
      rw [Tcb.reaped, Bool.and_eq_true, Bool.or_eq_true]
      exact ⟨horphan, .inr (decide_eq_true hdue)⟩
    rw [if_pos hreaped]
    rfl
  · rename_i hunused
    rw [not_and, Bool.not_eq_true] at hunused
    exact hunused hi

/-- **No control block leaks**: wherever a run that spares what is half open comes to, every block
in use is a socket's, or a live listener's, half open or pending, or an orphan; and so it only takes
that the programs close their sockets, and a minute, for every block to be there again. -/
theorem no_block_leaks (h : Host) (hstart : h.Started) (evs : List Event)
    (hevs : Runs.Every step (fun h e => (h.at_ e.now).Spares e.call) evs h) :
    (∀ i < maxConns, ((evs.foldl step h).tcp.conns i).used = true →
    (evs.foldl step h).Accounted i) ∧
      ∀ now, (∀ i < maxConns, ((evs.foldl step h).closeAll.tcp.conns i).used = true →
          Due ((evs.foldl step h).closeAll.tcp.conns i) now) →
        ∀ i < maxConns, (((evs.foldl step h).closeAll.step ⟨now, .tick⟩).tcp.conns i).used =
        false := by
  have hinv := hstart.inv.run evs hevs
  obtain ⟨hclosed, hsocks⟩ := hinv.closeAll
  refine ⟨fun i hi hused => hinv.accounted hi hused,
    fun now hdue i hi => timer_frees hi fun hused => ?_⟩
  exact ⟨hclosed.orphan_of_no_sock hsocks hi hused, hdue i hi hused⟩

/-- A machine at 10.0.0.1, and a peer at 10.0.0.2 that speaks to its port 80. -/
def fewConns : Host where
  tcp := ⟨fun _ => Tcp.Session.justOpen.t.free, 32768⟩
  socks := fun _ => none
  bound := fun _ => none
  ip := 0x0a000001
  netmask := 0xffffff00
  nextUdp := 32768

def fromPeer (g : Seg) : Call :=
  .packet ⟨0x0a000002, 0x0a000001, .tcp 4000 80 g⟩ false { mem := true, isn := 500 }

def peerSyn : Seg := { seq := 100, ack := 0, flags := { syn := true }, window := 1000 }

def peerAck : Seg := { seq := 101, ack := 501, flags := { ack := true }, window := 1000 }

def peerReset : Seg := { seq := 101, ack := 0, flags := { rst := true }, window := 0 }

/-- A server, and a client that opens a connection as far as its SYN. -/
def halfOpened : List Event :=
  [⟨1, .create true true (.ok ())⟩, ⟨1, .bind 0 0 80⟩, ⟨1, .listen 0⟩, ⟨2, fromPeer peerSyn⟩]

def served : List Event := halfOpened ++ [⟨3, fromPeer peerAck⟩, ⟨3, .tick⟩,
    ⟨4, .accept 0 (.ok ())⟩]

theorem no_block_leaks_served :
    ((served.foldl step fewConns).tcp.conns 1).used = true ∧
    (served.foldl step fewConns).Accounted 1 ∧
      (((served.foldl step fewConns).closeAll.step ⟨7000, .tick⟩).tcp.conns 1).used = false := by
  have h := no_block_leaks fewConns ⟨fun _ _ => rfl, fun _ => rfl⟩ served (by decide +kernel)
  have hused : ((served.foldl step fewConns).tcp.conns 1).used = true := by decide +kernel
  exact ⟨hused, h.1 1 (by decide) hused, h.2 7000 (by decide +kernel) 1 (by decide)⟩

def resetEarly : List Event := halfOpened ++ [⟨3, fromPeer peerReset⟩, ⟨4, .tick⟩]

/-- The block stays, CLOSED, and is nobody's but the listener's, who is not told of it. -/
theorem half_open_dies : ((resetEarly.foldl step fewConns).tcp.conns 1).used = true ∧
      ¬ (resetEarly.foldl step fewConns).Accounted 1 := by
  have hinv : Inv (halfOpened.foldl step fewConns) :=
    (Started.inv ⟨fun _ _ => rfl, fun _ => rfl⟩).run halfOpened (by decide +kernel)
  have hlistener : ((halfOpened.foldl step fewConns).tcp.conns 1).listener = some 0 := by
    decide +kernel
  refine ⟨by decide +kernel, ?_⟩
  rintro (⟨k, hown⟩ | ⟨l, -, -, hhalf⟩ | horphan)
  · exact hinv.not_owned hlistener k hown
  · revert hhalf
    decide +kernel
  · revert horphan
    decide +kernel

/-- **A block has one owner**: no two sockets share it, and a socket's is no listener's and no
orphan. -/
theorem one_owner (h : Host) (hstart : h.Started) (evs : List Event)
    (hevs : Runs.Every step (fun h e => (h.at_ e.now).Spares e.call) evs h) (k i : Nat)
    (hown : (evs.foldl step h).Owns k i) : ((evs.foldl step h).tcp.conns i).used = true ∧
      ((evs.foldl step h).tcp.conns i).listener = none ∧
      ((evs.foldl step h).tcp.conns i).orphan = false ∧
      ∀ k', (evs.foldl step h).Owns k' i → k' = k := by
  have hinv := hstart.inv.run evs hevs
  obtain ⟨-, -, hused, hlistener, horphan⟩ := hinv.sock k i hown
  exact ⟨hused, hlistener, horphan, fun k' hown' => hinv.one k' k i hown' hown⟩

theorem one_owner_served : (served.foldl step fewConns).Owns 1 1 ∧
    ¬ (served.foldl step fewConns).Owns 0 1 := by
  have hown : (served.foldl step fewConns).Owns 1 1 := ⟨_, rfl, rfl⟩
  have h := one_owner fewConns ⟨fun _ _ => rfl, fun _ => rfl⟩ served (by decide +kernel) 1 1 hown
  exact ⟨hown, fun hzero => by cases h.2.2.2 0 hzero⟩

end Host

end Sage040.Net
