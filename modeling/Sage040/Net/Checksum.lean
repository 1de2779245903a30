import Sage040.Net.Socket

/-!
# Checksums

`net_checksum` adds up the 16-bit words of a packet in 32 bits, folds the carries in and complements
the sum. What is stored so that the sum becomes all ones is what `udp_input`, `tcp_input` and
`ip_input` look for.

All of it is about the sum modulo 65535 (`netChecksum_eq_zero`): a field that is added to it makes
it 0 (`netChecksum_filled`), and a word that is another one modulo 65535 makes it something else.

A segment's checksum is made with the connection's own address, and checked with the address that
`ip_output` put in the header. These are the same until somebody connects to a broadcast address
(`broadcast_refused`) or the interface is given another one.
-/

namespace Sage040.Net

open Tcp (isLoopback)

/-- The first loop of `net_checksum`. -/
def addUp : List UInt8 → Nat → Nat
  | a :: b :: p, sum => addUp p ((sum + (a.toNat * 256 + b.toNat)) % 2 ^ 32)
  | [a], sum => (sum + a.toNat * 256) % 2 ^ 32
  | [], sum => sum

/-- The second one: the carries are folded back in. -/
def fold (sum : Nat) : Nat := if sum / 65536 = 0 then sum else fold (sum % 65536 + sum / 65536)

def netChecksum (data : List UInt8) (start : Nat) : Nat :=
    (2 ^ 32 - 1 - fold (addUp data start)) % 65536

/-- The words of a packet; an odd byte at the end is the high half of one. -/
def words : List UInt8 → List Nat
  | a :: b :: p => (a.toNat * 256 + b.toNat) :: words p
  | [a] => [a.toNat * 256]
  | [] => []

/-! ## Packets -/

def be16 (w : Nat) : List UInt8 := [.ofNat (w / 256), .ofNat w]
def be32 (a : BitVec 32) : List UInt8 := be16 (a.toNat / 65536) ++ be16 a.toNat
def get16 (d : List UInt8) (i : Nat) : Nat := (d.getD i 0).toNat * 256 + (d.getD (i + 1) 0).toNat

/-- `pseudo_sum`, of `udp.c` and of `tcp.c`. -/
def pseudoSum (proto : Nat) (src dst : BitVec 32) (len : Nat) : Nat :=
  src.toNat / 65536 + src.toNat % 65536 + (dst.toNat / 65536 + dst.toNat % 65536) + proto + len

/-- The address a packet comes from, if the interface has `ip`. -/
def sourceOf (ip dst : BitVec 32) : BitVec 32 := if isLoopback dst then dst else ip

def udpBytes (sport dport check : Nat) (data : List UInt8) : List UInt8 :=
  be16 sport ++ (be16 dport ++ (be16 (8 + data.length) ++ (be16 check ++ data)))

/-- `udp_output`, up to its `ip_output`. -/
def udpOutput (ip dst : BitVec 32) (dport sport : Nat) (data : List UInt8) :
    Except Errno (List UInt8) :=
  if dgramMax < data.length then .error .emsgsize
  else
    let check := netChecksum (udpBytes sport dport 0 data)
      (pseudoSum 17 (sourceOf ip dst) dst (8 + data.length))
    .ok (udpBytes sport dport (if check = 0 then 0xffff else check) data)

/-- `udp_input` looks for somebody to give it to. -/
def udpAccepts (src dst : BitVec 32) (d : List UInt8) : Prop :=
  8 ≤ d.length ∧ 8 ≤ get16 d 4 ∧ get16 d 4 ≤ d.length ∧
    (get16 d 6 ≠ 0 → netChecksum (d.take (get16 d 4)) (pseudoSum 17 src dst (get16 d 4)) = 0)

/-- What a segment has besides its data and its checksum. -/
structure Header where
  sport : Nat
  dport : Nat
  seq : BitVec 32
  ack : BitVec 32
  flags : UInt8
  window : Nat
  opts : List UInt8
  opts_le : opts.length ≤ 40

def tcpBytes (h : Header) (check : Nat) (data : List UInt8) : List UInt8 :=
  be16 h.sport ++ (be16 h.dport ++ (be32 h.seq ++
    (be32 h.ack ++ ([.ofNat ((20 + h.opts.length) / 4 * 16), h.flags] ++
    (be16 h.window ++ (be16 check ++ (be16 0 ++ (h.opts ++ data))))))))

/-- `send_seg`, up to its `ip_output`. The checksum is for `self`, the connection's `local_ip`. -/
def sendSeg (h : Header) (self dst : BitVec 32) (data : List UInt8) : Except Errno (List UInt8) :=
  if 1400 < data.length then .error .emsgsize
  else
    let total := 20 + h.opts.length + data.length
    .ok (tcpBytes h (netChecksum (tcpBytes h 0 data) (pseudoSum 6 self dst total)) data)

/-- `tcp_input` looks at the header. -/
def tcpAccepts (src dst : BitVec 32) (d : List UInt8) : Prop :=
  20 ≤ d.length ∧ netChecksum d (pseudoSum 6 src dst d.length) = 0

def ipBytes (id proto total check : Nat) (src dst : BitVec 32) (payload : List UInt8) :
    List UInt8 :=
  be16 0x4500 ++ (be16 total ++ (be16 id ++ (be16 0 ++ (be16 (64 * 256 + proto) ++ (be16 check ++
    (be32 src ++ (be32 dst ++ payload)))))))

/-- `ip_output`, with what `arp_resolve` says. The checksum is that of the header. -/
def ipOutput (ip : BitVec 32) (up : Bool) (arp : Except Errno Unit) (id : Nat) (dst : BitVec 32)
    (proto : Nat)
    (payload : List UInt8) : Except Errno (List UInt8) :=
  let bytes check := ipBytes id proto (20 + payload.length) check (sourceOf ip dst) dst
  let packet := bytes (netChecksum (bytes 0 []) 0) payload
  if isLoopback dst ∨ (ip ≠ 0 ∧ dst = ip) then
    if 1480 < payload.length then .error .emsgsize else .ok packet
  else if up = false then .error .enetdown
  else if ip = 0 ∧ dst ≠ broadcast then .error .eaddrnotavail
  else if 1480 < payload.length then .error .emsgsize
  else arp.map fun _ => packet

/-- `ip_input` looks at who it is for. -/
def ipAccepts (d : List UInt8) : Prop :=
  20 ≤ d.length ∧ (d.getD 0 0).toNat = 0x45 ∧ 20 ≤ get16 d 2 ∧ get16 d 2 ≤ d.length ∧
    netChecksum (d.take 20) 0 = 0 ∧ get16 d 6 % 0x4000 = 0

/-! ## The sum -/

open List

variable {data : List UInt8} {start : Nat}

lemma words_lt (data : List UInt8) : ∀ w ∈ words data, w < 65536 := by
  fun_induction words data with
  | case1 a b p ih =>
    have ha := a.toNat_lt
    have hb := b.toNat_lt
    refine forall_mem_cons.2 ⟨by omega, ih⟩
  | case2 a =>
    have ha := a.toNat_lt
    simp only [mem_singleton, forall_eq]
    omega
  | case3 => exact fun _ h => absurd h not_mem_nil

lemma addUp_eq (h : start + 65535 * ((data.length + 1) / 2) < 2 ^ 32) :
    addUp data start = start + (words data).sum := by
  fun_induction addUp data start with
  | case1 a b p sum ih =>
    have ha := a.toNat_lt
    have hb := b.toNat_lt
    rw [length_cons, length_cons] at h
    rw [Nat.mod_eq_of_lt (by omega)] at ih
    rw [Nat.mod_eq_of_lt (by omega), ih (by omega), words, sum_cons, Nat.add_assoc]
  | case2 a sum =>
    have ha := a.toNat_lt
    rw [Nat.mod_eq_of_lt (by simp at h; omega), words, sum_singleton]
  | case3 sum => rfl

lemma fold_spec (sum : Nat) : fold sum < 65536 ∧ fold sum % 65535 = sum % 65535 ∧
    (fold sum = 0 ↔ sum = 0) := by
  fun_induction fold sum with
  | case1 sum h => exact ⟨by omega, rfl, .rfl⟩
  | case2 sum h ih => exact ⟨ih.1, by omega, by omega⟩

lemma netChecksum_eq_zero (h : data.length ≤ 65535) (hs : start < 2 ^ 31) :
    netChecksum data start = 0 ↔
    0 < start + (words data).sum ∧ (start + (words data).sum) % 65535 = 0 := by
  obtain ⟨hlt, hmod, hzero⟩ := fold_spec (addUp data start)
  rw [addUp_eq (by omega)] at hlt hmod hzero
  rw [netChecksum, addUp_eq (by omega)]
  omega

/-- A checksum in its field: with it the words add up to all ones, which are as good as zero. -/
lemma netChecksum_filled (pkt : Nat → List UInt8) {n check : Nat} (hlen : ∀ c, (pkt c).length = n)
    (hn : n ≤ 65535)
    (hs : start < 2 ^ 31) (hpos : 0 < start + (words (pkt 0)).sum)
    (hsum : ∀ c < 65536, (words (pkt c)).sum = (words (pkt 0)).sum + c)
    (hcheck : check = netChecksum (pkt 0) start ∨
    (netChecksum (pkt 0) start = 0 ∧ check = 0xffff)) :
    netChecksum (pkt check) start = 0 := by
  obtain ⟨hlt, hmod, hzero⟩ := fold_spec (start + (words (pkt 0)).sum)
  rw [netChecksum, addUp_eq (by rw [hlen]; omega)] at hcheck
  rw [netChecksum_eq_zero (by rwa [hlen]) hs, hsum check (by omega)]
  omega

/-! ## What was built is accepted -/

lemma value_be16 (w : Nat) : (UInt8.ofNat (w / 256)).toNat * 256 + (UInt8.ofNat w).toNat =
    w % 65536 := by
  rw [UInt8.toNat_ofNat', UInt8.toNat_ofNat']
  omega

variable {l d : List UInt8} {a src dst ip : BitVec 32}

lemma words_be16 (w : Nat) (l) : words (be16 w ++ l) = w % 65536 :: words l :=
  congrArg (· :: words l) (value_be16 w)

lemma words_be32 (a l) : words (be32 a ++ l) = a.toNat / 65536 % 65536 :: a.toNat % 65536 ::
    words l := by
  rw [be32, append_assoc, words_be16, words_be16]

lemma pseudoSum_lt {proto len : Nat} (src dst) (hp : proto < 256) (hlen : len < 65536) :
    pseudoSum proto src dst len < 2 ^ 31 := by
  have hsrc := src.isLt
  have hdst := dst.isLt
  rw [pseudoSum]
  omega

/-- A datagram that is not too long is sent, and accepted. -/
lemma udp_accepted (ip dst : BitVec 32) (dport sport : Nat) (hdata : data.length ≤ dgramMax) :
    ∃ d, udpOutput ip dst dport sport data = .ok d ∧ udpAccepts (sourceOf ip dst) dst d := by
  rw [dgramMax] at hdata
  refine ⟨_, if_neg (by rw [dgramMax]; omega), ?_⟩
  have hlen : ∀ c, (udpBytes sport dport c data).length = 8 + data.length :=
    fun c => by simp +arith [udpBytes, be16]
  have hget : ∀ c, get16 (udpBytes sport dport c data) 4 = 8 + data.length := fun c =>
    (value_be16 _).trans (Nat.mod_eq_of_lt (by omega))
  refine ⟨by rw [hlen]; omega, by rw [hget]; omega, by rw [hget, hlen], fun _ => ?_⟩
  rw [hget, take_of_length_le (by rw [hlen])]
  refine netChecksum_filled _ hlen (by omega) (pseudoSum_lt _ _ (by decide) (by omega))
    (by rw [pseudoSum]; omega) ?_ ?_
  · intro c hc
    simp only [udpBytes, words_be16, sum_cons]
    omega
  · split
    · exact .inr ⟨by assumption, rfl⟩
    · exact .inl rfl

/-- The words of an address, added up as a checksum does. -/
def wordSum (a : BitVec 32) : Nat := (a.toNat / 65536 + a.toNat % 65536) % 65535

/-- A segment made with the address `self` is accepted from `src` exactly if that makes no
difference to the sum. -/
lemma tcp_accepted_iff (h : Header) (self src dst : BitVec 32) (hdata : data.length ≤ 1400) :
    ∃ d, sendSeg h self dst data = .ok d ∧ (tcpAccepts src dst d ↔ wordSum self = wordSum src) := by
  refine ⟨_, if_neg (by omega), ?_⟩
  have hopts := h.opts_le
  have hlen : ∀ c, (tcpBytes h c data).length = 20 + h.opts.length + data.length := fun c => by
    simp +arith [tcpBytes, be16, be32]
  have hlt : ∀ a, pseudoSum 6 a dst (20 + h.opts.length + data.length) < 2 ^ 31 := fun a =>
    pseudoSum_lt _ _ (by decide) (by omega)
  have hself := netChecksum_filled (fun c => tcpBytes h c data) hlen (by omega) (hlt self)
    (by rw [pseudoSum]; omega) (fun c hc => by
      simp only [tcpBytes, words_be16, words_be32, cons_append, nil_append, words, sum_cons]
      omega) (.inl rfl)
  rw [netChecksum_eq_zero (by rw [hlen]; omega) (hlt self)] at hself
  rw [tcpAccepts, hlen, netChecksum_eq_zero (by rw [hlen]; omega) (hlt src)]
  generalize (words (tcpBytes h _ data)).sum = w at hself ⊢
  rw [pseudoSum] at hself ⊢
  rw [wordSum, wordSum]
  omega

lemma ip_accepted {up : Bool} {arp : Except Errno Unit} {id proto : Nat}
    (h : ipOutput ip up arp id dst proto data = .ok d) : ipAccepts d := by
  let bytes check := ipBytes id proto (20 + data.length) check (sourceOf ip dst) dst
  have hbuilt : data.length ≤ 1480 ∧ d = bytes (netChecksum (bytes 0 []) 0) data := by
    rw [ipOutput] at h
    split at h
    · split at h
      · cases h
      · exact ⟨by omega, (Except.ok.inj h).symm⟩
    iterate 3
      split at h
      · cases h
    cases arp with
    | error e => cases h
    | ok _ => exact ⟨by omega, (Except.ok.inj h).symm⟩
  obtain ⟨hmax, rfl⟩ := hbuilt
  have htotal : get16 (bytes (netChecksum (bytes 0 []) 0) data) 2 = 20 + data.length :=
    (value_be16 _).trans (Nat.mod_eq_of_lt (by omega))
  have hlen : (bytes (netChecksum (bytes 0 []) 0) data).length = 20 + data.length := by
    simp +arith [bytes, ipBytes, be16, be32]
  refine ⟨by omega, rfl, by omega, by omega, ?_, congrArg (· % 0x4000) (value_be16 0)⟩
  refine netChecksum_filled (bytes · []) (show ∀ c,
    (bytes c []).length = 20 from fun _ => rfl) (by decide) (by decide)
    ?_ (fun c hc => ?_) (.inl rfl)
  · simp [bytes, ipBytes, words_be16]
  · simp only [bytes, ipBytes, words_be16, words_be32, sum_cons]
    omega

lemma sum_set {l : List Nat} {i v w : Nat} (h : l[i]? = some v) :
    (l.set i w).sum + v = l.sum + w := by
  induction l generalizing i with
  | nil => cases h
  | cons a l ih =>
    cases i with
    | zero =>
      cases h
      rw [set_cons_zero, sum_cons, sum_cons]
      omega
    | succ i =>
      have := ih h
      rw [set_cons_succ, sum_cons, sum_cons]
      omega

/-- What is sent to `dst`, over an interface with the address `ip` and by a connection with the
address `self`, is built and accepted. -/
structure Passes (ip self dst : BitVec 32) : Prop where
  udp : ∀ dport sport data, data.length ≤ dgramMax →
    ∃ d, udpOutput ip dst dport sport data = .ok d ∧ udpAccepts (sourceOf ip dst) dst d
  tcp : ∀ h data, data.length ≤ 1400 → ∃ d, sendSeg h self dst data = .ok d ∧
    tcpAccepts (sourceOf ip dst) dst d
  header : ∀ up arp id proto data d, ipOutput ip up arp id dst proto data = .ok d → ipAccepts d
  header_sent : ∀ id proto data, ip ≠ 0 → data.length ≤ 1480 → ∃ d,
    ipOutput ip true (.ok ()) id dst proto data = .ok d

lemma ip_sent {id proto : Nat} (hip : ip ≠ 0) (hdata : data.length ≤ 1480) :
    ∃ d, ipOutput ip true (.ok ()) id dst proto data = .ok d := by
  have hfits : ¬1480 < data.length := Nat.not_lt.2 hdata
  simp only [ipOutput, hip, hfits, Bool.true_eq_false, false_and, if_false]
  split
  iterate 2 · exact ⟨_, rfl⟩

/-- One word that is another one modulo 65535 spoils the sum. -/
lemma one_bad_word {i v w : Nat} {bad : List UInt8} (hlen : data.length ≤ 65535)
    (hs : start < 2 ^ 31)
    (hzero : netChecksum data start = 0) (hv : (words data)[i]? = some v)
    (hbad : words bad = (words data).set i w)
    (hsame : bad.length = data.length) (hne : v ≠ w) (h1 : ¬(v = 0 ∧ w = 0xffff))
    (h2 : ¬(v = 0xffff ∧ w = 0)) :
    netChecksum bad start ≠ 0 := by
  rw [netChecksum_eq_zero hlen hs] at hzero
  rw [Ne, netChecksum_eq_zero (hsame ▸ hlen) hs, hbad]
  have hsum := sum_set (w := w) hv
  have hvlt := words_lt data v (mem_of_getElem? hv)
  have hwlt : w < 65536 := by
    refine words_lt bad w ?_
    rw [hbad]
    exact mem_set (List.getElem?_eq_some_iff.1 hv).1 w
  omega

/-- **Checksums accept what was sent**, exactly if the address of the connection and that in the
header come to the same sum, **and catch one bad word**: of a packet of at most 65535 bytes, with a
sum to begin with that is below `2 ^ 31`, as that of every pseudo-header is (`pseudoSum_lt`). -/
theorem checksums_sound_iff (ip self dst : BitVec 32) :
    (Passes ip self dst ↔ wordSum self = wordSum (sourceOf ip dst)) ∧
    ∀ data : List UInt8, data.length ≤ 65535 → ∀ start < 2 ^ 31,
    addUp data start = start + (words data).sum ∧
      (netChecksum data start = 0 → ∀ i v w bad, (words data)[i]? = some v →
      words bad = (words data).set i w →
        bad.length = data.length → v ≠ w → ¬(v = 0 ∧ w = 0xffff) → ¬(v = 0xffff ∧ w = 0) →
        netChecksum bad start ≠ 0) := by
  refine ⟨⟨fun h => ?_, fun hsum => ?_⟩, fun data hlen start hs => ⟨addUp_eq (by omega), ?_⟩⟩
  · let seg : Header := ⟨0, 0, 0, 0, 0, 0, [], Nat.zero_le _⟩
    obtain ⟨d, hd, hacc⟩ := Passes.tcp h seg [] (Nat.zero_le _)
    obtain ⟨d', hd', hiff⟩ := tcp_accepted_iff seg self (sourceOf ip dst) dst
      (show ([] : List UInt8).length ≤ 1400 from Nat.zero_le _)
    cases hd.symm.trans hd'
    exact hiff.1 hacc
  · refine ⟨fun dport sport data hdata => udp_accepted ip dst dport sport hdata,
      fun h data hdata => ?_,
      fun _ _ _ _ _ _ => ip_accepted, fun _ _ _ => ip_sent⟩
    obtain ⟨d, hd, hiff⟩ := tcp_accepted_iff h self (sourceOf ip dst) dst hdata
    exact ⟨d, hd, hiff.2 hsum⟩
  · exact fun hzero i v w bad hv hbad hsame hne h1 h2 => one_bad_word hlen hs hzero hv hbad
      hsame hne h1 h2

/-- From 10.0.0.1 to 10.0.0.2, and a word of ones that becomes a one. -/
theorem checksums_sound_iff_local : Passes 0x0a000001 0x0a000001 0x0a000002 ∧
    netChecksum [0, 1] 0 ≠ 0 :=
  ⟨(checksums_sound_iff 0x0a000001 0x0a000001 0x0a000002).1.2 (by decide),
    ((checksums_sound_iff 0 0 0).2 [255, 255] (by decide) 0 (by decide)).2
      ((netChecksum_eq_zero (by decide) (by decide)).2 (by decide)) 0 65535 1 [0,
        1] rfl rfl rfl (by decide) (by decide)
      (by decide)⟩

/-- The answer to a SYN for the broadcast address 10.0.0.255 is made with that address, and comes
from 10.0.0.1. -/
theorem broadcast_refused : ∃ h d, sendSeg h 0x0a0000ff 0x0a000002 [] = .ok d ∧
    ¬ tcpAccepts (sourceOf 0x0a000001 0x0a000002) 0x0a000002 d := by
  obtain ⟨d, hd, hiff⟩ := tcp_accepted_iff ⟨80, 4000, 1, 1, 18, 8192, [], Nat.zero_le _⟩ 0x0a0000ff
    (sourceOf 0x0a000001 0x0a000002) 0x0a000002 (show ([] : List UInt8).length ≤ 1400 from
      Nat.zero_le _)
  exact ⟨_, d, hd, fun h => absurd (hiff.1 h) (by decide)⟩

end Sage040.Net
