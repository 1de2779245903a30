import Sage040.Net.Tcp.Session

/-!
# The table of connections

`conns`, with the functions of `net/tcp.c` that look for a block, take one or give one back. A block
is known by its place. What only one block is concerned with is `Tcb`'s.

Every block has a wire of its own, so whether a segment can be sent is up to each; the time is the
same for all of them.
-/

namespace Sage040.Tcp

/-- `IP4_IS_LOOPBACK`. -/
def isLoopback (a : BitVec 32) : Bool := a.toNat / 2 ^ 24 = 127

namespace Tcb

/-- A block as `tcp_alloc` leaves it. -/
def fresh (t : Tcb) : Tcb where
  used := true
  state := .closed
  localIp := 0
  localPort := 0
  remoteIp := 0
  remotePort := 0
  snd := {
    una := 0, nxt := 0, wnd := 0, cwnd := 2 * mss, ssthresh := 256 * 1024, dupacks :=
      0, recover := 0
    inRecovery := false, srttMs := 0, rttvarMs := 0, rttSeq := 0, rttStart := 0, rttTiming := false
    rttValid := false, buf := ⟨fun _ => 0, 0, 0⟩, sndMax := 0, sacked := [], highRxt := 0
    rtoMs := rtoInitial, rexmitAt := 0, rexmits := 0, finSent := false, finPending :=
      false, acked := 0 }
  rcv := {
    nxt := 0, buf := ⟨fun _ => 0, 0, 0⟩, ooo := fun _ => none, pool := t.rcv.pool,
      asked := t.rcv.asked
    finRcvd := false, tsRecent := 0, unackedSegs := 0, delackAt := 0 }
  sndWscale := 0
  rcvWscale := 0
  tsOk := false
  sackOk := false
  keepalive := false
  keepIdle := 7200
  keepIntvl := 75
  keepCnt := 9
  lastRcv := 0
  keepNext := 0
  keepProbes := 0
  reset := false
  timedOut := false
  timewaitAt := 0
  orphan := false
  orphanSince := 0
  listener := none
  pending := false
  wire := { t.wire with out := [] }

/-- `tcp_free`. -/
def free (t : Tcb) : Tcb :=
  { t with used := false, state := .closed, rcv := { t.rcv with ooo := fun _ => none } }

end Tcb

structure Arrival where
  src : BitVec 32
  dst : BitVec 32
  sport : BitVec 16
  dport : BitVec 16
  seg : Seg

/-- What `tcp_input` finds outside: whether there are pages for a block, the number to start from,
and the options that are not refused. -/
structure Luck where
  mem : Bool
  isn : SeqNum
  ws : Bool := true
  ts : Bool := true
  sack : Bool := true

/-- A listener at `l` meets a SYN: the block for it. -/
def Tcb.child (c : Tcb) (l : Nat) (t : Tcb) (a : Arrival) (luck : Luck) : Tcb :=
  let c := { c with
    state := .synReceived
    localIp := a.dst
    localPort := t.localPort
    remoteIp := a.src
    remotePort := a.sport
    rcv := { c.rcv with nxt := a.seg.seq + 1 }
    snd := { c.snd with una := luck.isn, nxt := luck.isn, wnd := a.seg.window.toNat }
    listener := some l }
  let c := c.agreeOpts a.seg.opts luck.ws luck.ts luck.sack
  let c := { c with
    keepalive := t.keepalive
    keepIdle := t.keepIdle
    keepIntvl := t.keepIntvl
    keepCnt := t.keepCnt
    lastRcv := c.wire.now }
  let c := c.sendEmpty c.snd.nxt { syn := true, ack := true }
  { c with snd := { c.snd with
    nxt := c.snd.nxt + 1
    sndMax := c.snd.nxt + 1
    rexmitAt := c.wire.now + ticks c.snd.rtoMs } }

structure Table where
  conns : Nat → Tcb
  nextPort : BitVec 16

namespace Table

variable (s : Table)

def set (i : Nat) (t : Tcb) : Table := { s with conns := Function.update s.conns i t }

@[simp] lemma set_self (s : Table) (i : Nat) (t : Tcb) : (s.set i t).conns i = t :=
  Function.update_self _ _ _

lemma set_of_ne (s : Table) (t : Tcb) {i j : Nat} (h : j ≠ i) : (s.set i t).conns j = s.conns j :=
  Function.update_of_ne h _ _

def at_ (now : SeqNum) : Table := { s with conns := fun i => (s.conns i).at_ now }

/-- The first block that is as `p` says. -/
def first (p : Tcb → Bool) : Option Nat := (List.range maxConns).find? fun i => p (s.conns i)

/-- `tcp_alloc`: the place of the block, if there is one and the pages for it. -/
def alloc (mem : Bool) : Option Nat := (s.first fun t => !t.used).filter fun _ => mem

/-- `find`: a connection wins over a listener on the same port. -/
def find (raddr : BitVec 32) (rport lport : BitVec 16) : Option Nat :=
  (s.first fun t => t.used && (t.state != .listen) && (t.localPort == lport) &&
    (t.remotePort == rport) &&
    (t.remoteIp == raddr)) <|>
  s.first fun t => t.used && (t.state == .listen) && (t.localPort == lport)

/-- `tcp_input`, for a segment whose checksum is right. -/
def input (a : Arrival) (luck : Luck) : Table :=
  match s.find a.src a.sport a.dport with
  -- refused with a reset
  | none => s
  | some i =>
    if (s.conns i).state = .listen then
      if a.seg.flags.syn then
        match s.alloc luck.mem with
        | none => s
        | some c => s.set c ((s.conns c).fresh.child i (s.conns i) a luck)
      else s
    else s.set i ((s.conns i).input a.seg luck.ws luck.ts luck.sack)

/-- `tcp_timer`. -/
def timer : Table :=
  { s with conns := fun i =>
    if i < maxConns ∧ (s.conns i).used = true then
      if (s.conns i).reaped then (s.conns i).free else (s.conns i).timer
    else s.conns i }

/-! ## What the socket layer calls -/

/-- `tcp_port_in_use`. -/
def portInUse (port : BitVec 16) : Bool :=
  (s.first fun t => t.used && (t.localPort == port)).isSome

/-- The loop of `tcp_pick_port`. -/
def pick : Nat → Table → Table × Option (BitVec 16)
  | 0, s => (s, none)
  | tries + 1, s =>
    let port := s.nextPort
    let next := if port + 1 < 32768 then 32768 else port + 1
    let s := { s with nextPort := next }
    if s.portInUse port then pick tries s else (s, some port)

def pickPort : Table × Option (BitVec 16) := pick 4096 s

/-- The SYN of `tcp_connect`. -/
def startConnect (i : Nat) (addr : BitVec 32) (port : BitVec 16) (isn : SeqNum) :
    Table × Except Errno Unit :=
  let t := s.conns i
  let t := { t with
    remoteIp := addr
    remotePort := port
    snd := { t.snd with una := isn, nxt := isn, wnd := 1 }
    state := .synSent }
  let window := min 65535 t.rcv.free
  match t.wire.put ⟨isn, { syn := true }, [], t.stamp.ack, window, 0⟩ with
  | (w, false) => (s.set i { t with wire := w, state := .closed }, .error .eio)
  | (w, true) =>
    (s.set i { t with
      wire := w
      snd := { t.snd with nxt := isn + 1, sndMax := isn + 1, rexmitAt := w.now + ticks t.snd.rtoMs }
      lastRcv := w.now }, .ok ())

/-- `tcp_connect`; `ip` is the interface's address, 0 if it has none. -/
def connect (i : Nat) (ip addr : BitVec 32) (port : BitVec 16) (isn : SeqNum) :
    Table × Except Errno Unit :=
  if (s.conns i).state ≠ .closed then (s, .error .eisconn)
  else if !isLoopback addr ∧ ip = 0 then (s, .error .eaddrnotavail)
  else
    let s := s.set i { s.conns i with localIp := if isLoopback addr then addr else ip }
    if (s.conns i).localPort = 0 then
      match s.pickPort with
      | (s, none) => (s, .error .eaddrinuse)
      | (s, some p) => (s.set i { s.conns i with localPort := p }).startConnect i addr port isn
    else s.startConnect i addr port isn

/-- `tcp_listen`. -/
def listen (i : Nat) (port : BitVec 16) : Table × Except Errno Unit :=
  if (List.range maxConns).any fun j =>
      (s.conns j).used && (j != i) && ((s.conns j).state == .listen) &&
        ((s.conns j).localPort == port) then
    (s, .error .eaddrinuse)
  else (s.set i { s.conns i with localPort := port, state := .listen }, .ok ())

/-- `tcp_accept`. -/
def accept (i : Nat) : Table × Option Nat :=
  match s.first fun t => t.used && (t.listener == some i) && t.pending with
  | none => (s, none)
  | some c => (s.set c { s.conns c with pending := false, listener := none }, some c)

/-- `tcp_close`. -/
def close (i : Nat) : Table :=
  match (s.conns i).state with
  | .closed | .listen | .synSent => s.set i (s.conns i).free
  | _ => s.set i (s.conns i).close

/-- The end of `tcp_release`: what `tcp_close` did not free goes on by itself. -/
def orphan (s : Table) (i : Nat) : Table :=
  let s := s.close i
  if (s.conns i).used then
    s.set i { s.conns i with orphan := true, orphanSince := (s.conns i).wire.now }
  else s

/-- `tcp_release`: a listener takes those with it that were not accepted. They are none of them
listeners, so it calls itself once. -/
def release : Nat → Table → Nat → Table
  | 0, s, _ => s
  | depth + 1, s, i =>
    let s := if (s.conns i).state = .listen then
        (List.range maxConns).foldl (fun s c =>
          if (s.conns c).used = true ∧ (s.conns c).listener = some i then
            release depth (s.set c { s.conns c with listener := none, pending := false }) c
          else s) s
      else s
    s.orphan i

end Table

end Sage040.Tcp
