import Sage040.Basic
import Sage040.Lib.RingBuffer
import Sage040.Lib.Seq

/-!
# A TCP control block

`struct tcpcb`, in the parts that the functions of `net/tcp.c` use together: what the send side
keeps (`Snd`), what the receive side keeps (`Rcv`), and the rest. Both rings are `RingBuffer`s; a
segment that is held out of order keeps its bytes, which in the driver are in a shared pool, each
slot of which is one segment's.

`Wire` is the world outside a connection: the time, whether the next segments can be sent at all,
and what was sent. Sending neither sleeps in ARP nor enters `tcp_input` again from inside, which is
how it is while the next hop's hardware address is known. A segment that is sent may be lost;
nothing here depends on it. Counters that nothing reads, and the encoding of the options, are left
out.
-/

namespace Sage040.Tcp

/-- `TCP_MSS`. -/
def mss : Nat := 1400
/-- The size of the send ring. -/
def sndbufSize : Nat := 64 * 1024
/-- The size of the receive ring. -/
def rcvbufSize : Nat := 128 * 1024
/-- How many connections there can be. -/
def maxConns : Nat := 32
/-- How many ranges the scoreboard has. -/
def sackMax : Nat := 8
/-- How many segments a connection may hold out of order. -/
def oooPerCb : Nat := 24
/-- Ticks in a second. -/
def hz : Nat := 100
/-- The shortest retransmission timeout, in milliseconds. -/
def rtoMin : Nat := 200
/-- The longest. -/
def rtoMax : Nat := 8000
/-- The one before anything was measured. -/
def rtoInitial : Nat := 1000
/-- How often a segment is sent again. -/
def rexmitLimit : Nat := 6
/-- How long TIME_WAIT lasts. -/
def timewaitMs : Nat := 60000
/-- How long a connection without a socket is kept. -/
def orphanLimitMs : Nat := 60000
/-- How long an acknowledgement is put off. -/
def delackMs : Nat := 200
/-- The window scale that is offered. -/
def wscale : Nat := 2

/-- `(ms * HZ) / 1000`, which is added to a time. -/
def ticks (ms : Nat) : SeqNum := BitVec.ofNat 32 (ms * hz / 1000)

/-- The states of RFC 793. -/
inductive State
  | closed | listen | synSent | synReceived | established | finWait1 | finWait2 | closeWait | closing
  | lastAck | timeWait
  deriving DecidableEq, Repr

/-- The states in which `send_data` sends: those after `close()` too, since what was queued before
it still has to go. -/
def State.sends : State → Bool
  | .established | .closeWait | .finWait1 | .closing | .lastAck => true
  | _ => false

/-- The states that wait for our own FIN's acknowledgement. -/
def State.awaitsFinAck : State → Bool
  | .finWait1 | .closing | .lastAck => true
  | _ => false

/-- The flags of a segment. -/
structure Flags where
  fin : Bool := false
  syn : Bool := false
  rst : Bool := false
  psh : Bool := false
  ack : Bool := false
  deriving DecidableEq, Repr

/-- What `parse_opts` finds. -/
structure Opts where
  ws : Option Nat := none
  sackPerm : Bool := false
  /-- `tsval` and `tsecr`. -/
  ts : Option (SeqNum × SeqNum) := none
  /-- At most four blocks, of which the scan keeps the first four. -/
  sack : List (SeqNum × SeqNum) := []
  deriving DecidableEq, Repr

/-- A segment that arrived, its checksum right. -/
structure Seg where
  seq : SeqNum
  ack : SeqNum
  flags : Flags
  window : BitVec 16
  opts : Opts := {}
  data : List UInt8 := []

/-- A segment that was sent. `pos` is no part of it: it says which byte of the stream the first is.
-/
structure Out where
  seq : SeqNum
  flags : Flags
  data : List UInt8
  ack : SeqNum
  window : Nat
  pos : Nat := 0
  deriving DecidableEq, Repr

/-- A range of sequence numbers that the peer says it holds. -/
structure Range where
  start : SeqNum
  stop : SeqNum
  deriving DecidableEq, Repr

/-- The world outside a connection. -/
structure Wire where
  /-- `timer_jiffies()`. -/
  now : SeqNum
  /-- Whether the next segments can be sent. -/
  txOk : Nat → Bool
  txs : Nat
  /-- What was sent, the latest first. -/
  out : List Out

/-- `ip_output`: whether it returned 0. -/
def Wire.put (w : Wire) (o : Out) : Wire × Bool :=
  if w.txOk w.txs then ({ w with txs := w.txs + 1, out := o :: w.out }, true)
  else ({ w with txs := w.txs + 1 }, false)

/-- The send side. -/
structure Snd where
  una : SeqNum
  nxt : SeqNum
  /-- The peer's window. -/
  wnd : Nat
  cwnd : Nat
  ssthresh : Nat
  dupacks : Nat
  recover : SeqNum
  inRecovery : Bool
  srttMs : Nat
  rttvarMs : Nat
  rttSeq : SeqNum
  rttStart : SeqNum
  rttTiming : Bool
  rttValid : Bool
  /-- `sndbuf`, from `sndstart` on: its first byte is that of `una`. -/
  buf : RingBuffer UInt8
  sndMax : SeqNum
  sacked : List Range
  highRxt : SeqNum
  rtoMs : Nat
  /-- 0 when nothing is out. -/
  rexmitAt : SeqNum
  rexmits : Nat
  finSent : Bool
  finPending : Bool
  /-- How many numbers were acknowledged so far, which the driver does not keep. -/
  acked : Nat

/-- `sndlen`. -/
abbrev Snd.len (s : Snd) : Nat := s.buf.count

/-- `snd_nxt - snd_una`. -/
def Snd.inflight (s : Snd) : Nat := (s.nxt - s.una).toNat

/-- A segment that arrived ahead of a gap. -/
structure Ooo where
  seq : SeqNum
  data : List UInt8
  deriving DecidableEq, Repr

/-- The receive side. -/
structure Rcv where
  nxt : SeqNum
  /-- `rcvbuf`, from `rcvtail` to `rcvhead`. -/
  buf : RingBuffer UInt8
  /-- The segments held, by their place. -/
  ooo : Nat → Option Ooo
  /-- Whether the shared pool has a slot when it is next asked. -/
  pool : Nat → Bool
  asked : Nat
  finRcvd : Bool
  tsRecent : SeqNum
  unackedSegs : Nat
  delackAt : SeqNum

/-- How much of the ring is used. -/
def Rcv.used (r : Rcv) : Nat := r.buf.count

/-- `rcv_free`: one cell stays empty. -/
def Rcv.free (r : Rcv) : Nat := rcvbufSize - 1 - r.used

/-- `struct tcpcb`. -/
structure Tcb where
  used : Bool
  state : State
  localIp : BitVec 32
  localPort : BitVec 16
  remoteIp : BitVec 32
  remotePort : BitVec 16
  snd : Snd
  rcv : Rcv
  sndWscale : Nat
  rcvWscale : Nat
  tsOk : Bool
  sackOk : Bool
  keepalive : Bool
  keepIdle : Nat
  keepIntvl : Nat
  keepCnt : Nat
  lastRcv : SeqNum
  keepNext : SeqNum
  keepProbes : Nat
  reset : Bool
  timedOut : Bool
  timewaitAt : SeqNum
  orphan : Bool
  orphanSince : SeqNum
  /-- Which place of the table the listener has that it came from. -/
  listener : Option Nat
  pending : Bool
  wire : Wire

/-- What every segment says of the receive side: its acknowledgement and its window. -/
structure Stamp where
  ack : SeqNum
  window : Nat

/-- The window that is announced, in 16 bits. -/
def Tcb.stamp (t : Tcb) : Stamp := ⟨t.rcv.nxt, min 65535 (t.rcv.free / 2 ^ t.rcvWscale)⟩

end Sage040.Tcp
