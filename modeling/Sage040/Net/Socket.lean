import Sage040.Net.Tcp.Table

/-!
# Sockets

`net/socket.c` over the table of connections, with the table of bound ports of `net/udp.c` and what
`ip_input` lets in. A socket is known by its place. A call that would wait is the call at the time
when it waits no longer: what happens meanwhile are events of their own.

What a program cannot see of it is left out (`SO_BROADCAST`, the timeouts, `so_error`), and so are
the file descriptors: whether `fd_install` finds a place for one is given.
-/

namespace Sage040.Net

open Tcp (Table Arrival Luck Seg isLoopback)

def sockMax : Nat := 64
def dgramMax : Nat := 1472
def dgramSlots : Nat := 4
def udpBindings : Nat := 8

/-- `IP4_BROADCAST`. -/
def broadcast : BitVec 32 := 0xffffffff

structure Dgram where
  sender : BitVec 32
  port : BitVec 16
  data : List UInt8
  deriving DecidableEq, Repr

structure Sock where
  /-- The place of its block; a datagram socket has none. -/
  tcp : Option Nat := none
  port : BitVec 16 := 0
  bound : Bool := false
  /-- 0 is `INADDR_ANY`. -/
  boundIp : BitVec 32 := 0
  peerIp : BitVec 32 := 0
  peerPort : BitVec 16 := 0
  q : List Dgram := []
  reuseaddr : Bool := false
  shutRd : Bool := false
  shutWr : Bool := false
  deriving DecidableEq, Repr

/-- A bound port, and the socket it is for; `none` is a handler of the kernel's own. -/
structure Binding where
  port : BitVec 16
  arg : Option Nat
  deriving DecidableEq, Repr

structure Host where
  tcp : Table
  socks : Nat → Option Sock
  bound : Nat → Option Binding
  /-- The interface's address, 0 if it has none. -/
  ip : BitVec 32
  netmask : BitVec 32
  nextUdp : BitVec 16

namespace Host

variable (h : Host)

def setSock (k : Nat) (s : Option Sock) : Host := { h with socks := Function.update h.socks k s }

def sockAlloc : Option Nat := (List.range sockMax).find? fun k => (h.socks k).isNone

def at_ (now : SeqNum) : Host := { h with tcp := h.tcp.at_ now }

/-! ## Datagrams -/

def bindingOf (port : BitVec 16) : Option Nat :=
  (List.range udpBindings).find? fun i => (h.bound i).any (·.port = port)

def udpBind (port : BitVec 16) (arg : Option Nat) : Host × Except Errno Unit :=
  if (h.bindingOf port).isSome then (h, .error .eaddrinuse)
  else match (List.range udpBindings).find? fun i => (h.bound i).isNone with
    | none => (h, .error .enospc)
    | some i => ({ h with bound := Function.update h.bound i (some ⟨port, arg⟩) }, .ok ())

def udpUnbind (port : BitVec 16) : Host :=
  { h with bound := fun i => if (h.bound i).any (·.port = port) then none else h.bound i }

/-- The loop of `pick_udp_port`. -/
def pickUdp : Nat → Host → Host × Option (BitVec 16)
  | 0, h => (h, none)
  | tries + 1, h =>
    let port := h.nextUdp
    let h := { h with nextUdp := if port + 1 < 32768 then 32768 else port + 1 }
    if (h.bindingOf port).isSome then pickUdp tries h else (h, some port)

def pickUdpPort : Host × Option (BitVec 16) := pickUdp 28232 h

def dgramAutobind (k : Nat) (s : Sock) : Host × Except Errno Sock :=
  if s.bound then (h, .ok s)
  else match h.pickUdpPort with
    | (h, none) => (h, .error .eaddrinuse)
    | (h, some port) =>
      match h.udpBind port (some k) with
      | (h, .error _) => (h, .error .eaddrinuse)
      | (h, .ok ()) => (h, .ok { s with port, bound := true })

/-- `dgram_arrived`: dropped if there is no room, or nobody who reads. -/
def dgramArrived (k : Nat) (d : Dgram) : Host :=
  match h.socks k with
  | none => h
  | some s =>
    if s.q.length = dgramSlots ∨ s.shutRd = true then h
    else h.setSock k (some { s with q := s.q ++ [{ d with data := d.data.take dgramMax }] })

/-- `udp_input`, for a datagram whose checksum is right. -/
def udpInput (d : Dgram) (dport : BitVec 16) : Host :=
  match (h.bindingOf dport).bind h.bound with
  | some ⟨_, some k⟩ => h.dgramArrived k d
  | _ => h

/-! ## What arrives -/

inductive Body
  | udp (sport dport : BitVec 16) (data : List UInt8)
  | tcp (sport dport : BitVec 16) (seg : Seg)

structure Packet where
  src : BitVec 32
  dst : BitVec 32
  body : Body

/-- What `ip_input` lets in: 127/8 is the loopback's own, and other addresses than ours are none of
ours. -/
def lets (p : Packet) (fromLo : Bool) : Bool :=
  (fromLo || !(isLoopback p.dst || isLoopback p.src)) &&
    ((p.dst == h.ip) || isLoopback p.dst || (p.dst == broadcast) ||
      ((h.netmask != 0) && (p.dst == h.ip ||| ~~~h.netmask)))

/-- `ip_input`, for a packet whose header is right. -/
def ipInput (p : Packet) (fromLo : Bool) (luck : Luck) : Host :=
  if h.lets p fromLo then
    match p.body with
    | .udp sport dport data => h.udpInput ⟨p.src, sport, data⟩ dport
    | .tcp sport dport seg => { h with tcp := h.tcp.input ⟨p.src, p.dst, sport, dport, seg⟩ luck }
  else h

/-! ## The calls -/

/-- `sock_create`; `mem` is whether there are pages, `fd` what `fd_install` says. -/
def create (stream mem : Bool) (fd : Except Errno Unit) : Host × Except Errno Nat :=
  match h.sockAlloc with
  | none => (h, .error .enfile)
  | some k =>
    if stream then
      match h.tcp.alloc mem with
      | none => (h, .error .enobufs)
      | some i =>
        let tcp := h.tcp.set i (h.tcp.conns i).fresh
        match fd with
        | .error e => ({ h with tcp := tcp.set i (tcp.conns i).free }, .error e)
        | .ok () => ({ h with tcp }.setSock k (some { tcp := some i }), .ok k)
    else if mem then
      match fd with
      | .error e => (h, .error e)
      | .ok () => (h.setSock k (some {}), .ok k)
    else (h, .error .enomem)

def addrIsLocal (a : BitVec 32) : Bool := (a == 0) || isLoopback a || ((h.ip != 0) && (a == h.ip))

/-- The port that `sock_bind` takes. -/
def bindPort (k : Nat) (s : Sock) (port : BitVec 16) : Host × Except Errno (BitVec 16) :=
  match s.tcp with
  | none =>
    let r := if port = 0 then h.pickUdpPort else (h, some port)
    match r with
    | (h, none) => (h, .error .eaddrinuse)
    | (h, some port) =>
      match h.udpBind port (some k) with
      | (h, .error _) => (h, .error .eaddrinuse)
      | (h, .ok ()) => (h, .ok port)
  | some i =>
    if port = 0 then
      match h.tcp.pickPort with
      | (tcp, none) => ({ h with tcp }, .error .eaddrinuse)
      | (tcp, some port) =>
        ({ h with tcp := tcp.set i { tcp.conns i with localPort := port } }, .ok port)
    else if h.tcp.portInUse port && !s.reuseaddr then (h, .error .eaddrinuse)
    else ({ h with tcp := h.tcp.set i { h.tcp.conns i with localPort := port } }, .ok port)

/-- `sock_bind`. -/
def bind (k : Nat) (s : Sock) (addr : BitVec 32) (port : BitVec 16) : Host × Except Errno Unit :=
  if s.bound then (h, .error .einval)
  else if !h.addrIsLocal addr then (h, .error .eaddrnotavail)
  else match h.bindPort k s port with
    | (h, .error e) => (h, .error e)
    | (h, .ok port) => (h.setSock k (some { s with port, boundIp := addr, bound := true }), .ok ())

/-- `sock_connect`, up to where it waits for the answer. -/
def connect (k : Nat) (s : Sock) (addr : BitVec 32) (port : BitVec 16) (isn : SeqNum) :
    Host × Except Errno Unit :=
  match s.tcp with
  | none =>
    match h.dgramAutobind k s with
    | (h, .error e) => (h, .error e)
    | (h, .ok s) => (h.setSock k (some { s with peerIp := addr, peerPort := port }), .ok ())
  | some i =>
    if (h.tcp.conns i).state = .synSent then (h, .error .ealready)
    else match h.tcp.connect i h.ip addr port isn with
      | (tcp, .error e) => ({ h with tcp }, .error e)
      | (tcp, .ok ()) =>
        ({ h with tcp }.setSock k (some { s with bound := true, port := (tcp.conns i).localPort }),
          .ok ())

/-- `sock_listen`. -/
def listen (k : Nat) (s : Sock) : Host × Except Errno Unit :=
  match s.tcp with
  | none => (h, .error .eopnotsupp)
  | some i =>
    if (h.tcp.conns i).state = .listen then (h, .ok ())
    else if s.bound then
      let r := h.tcp.listen i s.port
      ({ h with tcp := r.1 }, r.2)
    else match h.tcp.pickPort with
      | (tcp, none) => ({ h with tcp }, .error .eaddrinuse)
      | (tcp, some port) =>
        let r := (tcp.set i { tcp.conns i with localPort := port }).listen i port
        ({ h with tcp := r.1 }.setSock k (some { s with port, bound := true }), r.2)

/-- How deep `tcp_release` can call itself: each call takes a block from a listener. -/
def depth : Nat := Tcp.maxConns + 1

/-- `sock_accept`. -/
def accept (s : Sock) (fd : Except Errno Unit) : Host × Except Errno Nat :=
  match s.tcp with
  | none => (h, .error .einval)
  | some i =>
    if (h.tcp.conns i).state ≠ .listen then (h, .error .einval)
    else match h.tcp.accept i with
      | (tcp, none) => ({ h with tcp }, .error .eagain)
      | (tcp, some c) =>
        match h.sockAlloc with
        | none => ({ h with tcp := tcp.release depth c }, .error .enfile)
        | some k =>
          match fd with
          | .error e => ({ h with tcp := tcp.release depth c }, .error e)
          | .ok () =>
            ({ h with tcp }.setSock k (some {
              tcp := some c, bound := true, port := (tcp.conns c).localPort
              boundIp := (tcp.conns c).localIp }), .ok k)

/-- `sock_close`. -/
def close (k : Nat) (s : Sock) : Host :=
  let h := match s.tcp with
    | none => if s.bound then h.udpUnbind s.port else h
    | some i => { h with tcp := h.tcp.release depth i }
  h.setSock k none

/-- `sock_shutdown`; `rd` and `wr` say which ways. -/
def shutdown (k : Nat) (s : Sock) (rd wr : Bool) : Host × Except Errno Unit :=
  let shut := { s with shutRd := s.shutRd || rd, shutWr := s.shutWr || wr }
  match s.tcp with
  | none => (h.setSock k (some shut), .ok ())
  | some i =>
    let st := (h.tcp.conns i).state
    if st = .closed ∨ st = .listen ∨ st = .synSent then (h, .error .enotconn)
    else
      let tcp := if wr && !s.shutWr then h.tcp.close i else h.tcp
      ({ h with tcp }.setSock k (some shut), .ok ())

/-- `tcp_send`, as `sock_send` calls it. -/
def send (s : Sock) (data : List UInt8) : Host :=
  match s.tcp with
  | none => h
  | some i =>
    let t := h.tcp.conns i
    if s.shutWr || (t.state == .listen) || ((t.state == .closed) && !t.reset) then h
    else { h with tcp := h.tcp.set i (t.send data).1 }

/-- `sock_recv`: of a stream, or the next datagram. -/
def recv (k : Nat) (s : Sock) (len : Nat) : Host :=
  if s.shutRd then h
  else match s.tcp with
    | none => h.setSock k (some { s with q := s.q.drop 1 })
    | some i =>
      let t := h.tcp.conns i
      if t.state = .listen then h else { h with tcp := h.tcp.set i (t.recv len).1 }

/-- What `sock_setopt` can change. -/
inductive Opt
  | reuseaddr (on : Bool)
  | keepalive (on : Bool)
  | keepIdle (n : Nat)
  | keepIntvl (n : Nat)
  | keepCnt (n : Nat)

/-- `sock_setopt`. -/
def setopt (k : Nat) (s : Sock) (o : Opt) : Host :=
  let onTcp : (Tcp.Tcb → Tcp.Tcb) → Host := fun f =>
    match s.tcp with
    | none => h
    | some i => { h with tcp := h.tcp.set i (f (h.tcp.conns i)) }
  match o with
  | .reuseaddr on => h.setSock k (some { s with reuseaddr := on })
  | .keepalive on => onTcp fun t => { t with keepalive := on }
  | .keepIdle n => onTcp fun t => { t with keepIdle := n }
  | .keepIntvl n => onTcp fun t => { t with keepIntvl := n }
  | .keepCnt n => onTcp fun t => { t with keepCnt := n }

end Host

end Sage040.Net
