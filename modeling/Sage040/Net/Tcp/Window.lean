import Sage040.Net.Tcp.Stream
import Sage040.Net.Tcp.Waiting

/-!
# Segments outside the window

RFC 793 has a segment that is not acceptable dropped and answered by an acknowledgement. `tcp_input`
makes no such test: a reset ends the connection wherever it is, the window is noted whatever the
segment is, and an acknowledgement is taken from one that is not acceptable. `Tcb.Dropped` says
which segments nevertheless change nothing and have no answer but an acknowledgement, and
`outside_window_iff` that there are no others.

`send_data` follows every segment that is taken, and three duplicates make it retransmit. Whether
there is anything to send is a property of the send side (`Snd.wants`, `Snd.resends`): the loops of
`net/tcp.c` without the sending. `ip_output` neither sleeps in ARP nor has `tcp_input` entered again
(see `Wire`).
-/

namespace Sage040.Tcp

open Wire Snd

open SeqNum (gt le ge off)

/-! ## What is sent -/

def Out.isAck (o : Out) : Bool := decide (o.flags = { ack := true }) && o.data.isEmpty

namespace Wire

variable {w w' : Wire} {o : Out}

/-- What was sent, but for bare acknowledgements. -/
def others (w : Wire) : List Out := w.out.filter fun o => !o.isAck

lemma others_put (w : Wire) (o) :
    (w.put o).1.others = if w.txOk w.txs = true ∧
    o.isAck = false then o :: w.others else w.others := by
  rw [put]
  by_cases hok : w.txOk w.txs = true
  · rw [if_pos hok]
    cases hack : o.isAck with
    | false => rw [if_pos ⟨hok, rfl⟩, others, List.filter_cons_of_pos (by rw [hack]; rfl), others]
    | true =>
      rw [if_neg (fun h => Bool.noConfusion h.2), others,
        List.filter_cons_of_neg (by rw [hack]; decide), others]
  · rw [if_neg hok, if_neg (fun h => hok h.1)]
    rfl

lemma others_put_ack (h : o.isAck = true) : (w.put o).1.others = w.others := by
  rw [others_put, if_neg]
  rw [h]
  exact fun h => Bool.noConfusion h.2

lemma others_put_le (w : Wire) (o) : w.others.length ≤ (w.put o).1.others.length := by
  rw [others_put]
  split
  · exact Nat.le_succ _
  · exact Nat.le_refl _

lemma others_put_lt (hok : w.txOk w.txs = true) (ho : o.isAck = false) :
    w.others.length < (w.put o).1.others.length := by
  rw [others_put, if_pos ⟨hok, ho⟩]
  exact Nat.lt_succ_self _

end Wire

/-! ## Whether there is something to send -/

namespace Snd

variable {s : Snd} {w : Wire} {c : AckCtx} {st : Stamp} {tsOk : Bool}

/-- Where the loop of `send_data` gets to without sending, and whether it sends there. -/
def skip : Nat → Snd → Snd × Bool
  | 0, s => (s, false)
  | fuel + 1, s =>
    if s.len ≤ s.inflight ∨ min s.usableWindow s.len ≤ s.inflight then (s, false)
    else
      let past := s.sackedUntil s.nxt
      let top := s.una + BitVec.ofNat 32 s.len
      if past ≠ s.nxt then skip fuel { s with nxt := if gt past top then top else past } else
        (s, true)

/-- A FIN is to be sent, and everything before it was. -/
def finDue (s : Snd) : Bool := (s.finPending || s.finSent) && decide (s.inflight = s.len)

/-- `send_data` has something to send. -/
def wants (s : Snd) : Bool := (s.skip s.len).2 || (s.skip s.len).1.finDue

lemma isAck_segment (st s) (seq : SeqNum) (n : Nat) : (segment st s seq n).isAck = false :=
  rfl

lemma sendRange_wire (st s w) (seq : SeqNum) (n : Nat) :
    (sendRange st s w seq n).2 = w.put (segment st s seq n) := rfl

lemma put_ok (hok : w.txOk w.txs = true) (o) : (w.put o).2 = true := by
  rw [put, if_pos hok]

lemma sendLoop_le (st : Stamp) (tsOk) (fuel : Nat) (s w) :
    w.others.length ≤ (sendLoop st tsOk fuel s w).2.others.length := by
  have hput : ∀ s w' n, w.others.length ≤ w'.others.length →
      w.others.length ≤ (sendRange st s w' s.nxt n).2.1.others.length := fun s w' n h => by
    exact h.trans (others_put_le w' _)
  exact sendLoop_rule st tsOk (I := fun _ w' => w.others.length ≤ w'.others.length) fuel
    (fun _ _ _ h _ => h) (fun s w' n h _ => hput s w' n h) (fun s w' n h _ => hput s w' n h)
      (Nat.le_refl _)

lemma sendLoop_of_skip (fuel : Nat) (h : (s.skip fuel).2 = false) (w) :
    sendLoop st tsOk fuel s w = ((s.skip fuel).1, w) := by
  induction fuel generalizing s with
  | zero => rfl
  | succ fuel ih =>
    rw [skip] at h ⊢
    rw [sendLoop]
    dsimp only at h ⊢
    split at h
    · rename_i hfull
      rw [if_pos hfull, if_pos hfull]
    rename_i hroom
    rw [if_neg hroom, if_neg hroom]
    split at h
    · rename_i hpast
      rw [if_pos hpast, if_pos hpast]
      exact ih h
    · cases h

lemma sendLoop_lt (fuel : Nat) (h : (s.skip fuel).2 = true) (hok : w.txOk w.txs = true) :
    w.others.length < (sendLoop st tsOk fuel s w).2.others.length := by
  induction fuel generalizing s with
  | zero => cases h
  | succ fuel ih =>
    rw [skip] at h
    rw [sendLoop]
    dsimp only at h ⊢
    split at h
    · cases h
    rename_i hroom
    rw [if_neg hroom]
    split at h
    · rename_i hpast
      rw [if_pos hpast]
      exact ih h
    rename_i hpast
    rw [if_neg hpast]
    generalize s.cutAt s.nxt (min (min s.usableWindow s.len - s.inflight) mss) = n
    have hput := others_put_lt hok (isAck_segment st s s.nxt n)
    have hsent := put_ok hok (segment st s s.nxt n)
    rw [← sendRange_wire] at hput hsent
    generalize sendRange st s w s.nxt n = res at hput hsent ⊢
    obtain ⟨s1, w1, ok⟩ := res
    cases hsent
    exact Nat.lt_of_lt_of_le hput (sendLoop_le st tsOk fuel _ w1)

lemma sendFin_wire (st s w) :
    (sendFin st s w).2 = if s.finDue = true then
      (w.put ⟨s.nxt, { ack := true, fin := true }, [], st.ack, st.window,
      s.acked + s.inflight⟩).1 else w := by
  have hiff : s.finDue = true ↔ (s.finPending || s.finSent) = true ∧ s.inflight = s.len := by
    rw [finDue, Bool.and_eq_true, decide_eq_true_eq]
  rw [sendFin]
  by_cases hdue : s.finDue = true
  · rw [if_pos hdue, if_pos (hiff.1 hdue)]
    generalize w.put _ = r
    obtain ⟨w1, ok⟩ := r
    cases ok <;> rfl
  · rw [if_neg hdue, if_neg (fun h => hdue (hiff.2 h))]

lemma sendFin_le (st : Stamp) (s w) : w.others.length ≤ (sendFin st s w).2.others.length := by
  rw [sendFin_wire]
  split
  · exact others_put_le w _
  · exact Nat.le_refl _

lemma sendData_le (st tsOk s w) : w.others.length ≤ (sendData st tsOk s w).2.others.length :=
  Nat.le_trans (sendLoop_le st tsOk s.len s w) (sendFin_le st _ _)

/-- With nothing to send, `send_data` sends nothing. -/
lemma sendData_of_wants (h : s.wants = false) (w) :
    sendData st tsOk s w = ((s.skip s.len).1, w) := by
  rw [wants, Bool.or_eq_false_iff] at h
  rw [sendData, sendLoop_of_skip _ h.1]
  dsimp only
  rw [sendFin, if_neg]
  intro hdue
  have hfin := h.2
  rw [finDue, hdue.1, hdue.2, decide_eq_true rfl] at hfin
  cases hfin

lemma sendData_lt (st tsOk) (h : s.wants = true) (hok : w.txOk w.txs = true) :
    w.others.length < (sendData st tsOk s w).2.others.length := by
  cases hskip : (s.skip s.len).2 with
  | true => exact Nat.lt_of_lt_of_le (sendLoop_lt _ hskip hok) (sendFin_le st _ _)
  | false =>
    rw [wants, hskip, Bool.false_or] at h
    rw [sendData, sendLoop_of_skip _ hskip]
    rw [sendFin_wire, if_pos h]
    exact others_put_lt hok rfl

/-! ### Duplicates -/

/-- There is a hole for `sack_rexmit_hole` to send. -/
def hasHole (s : Snd) : Bool :=
  gt s.sackedTop s.holeStart &&
    decide (min mss (s.cutAt s.holeStart (s.sackedTop - s.holeStart).toNat) ≠ 0)

lemma sackRexmitHole_of_not_hasHole (h : s.hasHole = false) (w) :
    sackRexmitHole st s w = (s, w, false) := by
  rw [sackRexmitHole]
  split
  · rfl
  rename_i hgt
  rw [Bool.not_eq_true', Bool.not_eq_false] at hgt
  rw [hasHole, hgt, Bool.true_and, decide_eq_false_iff_not, not_not] at h
  rw [if_pos h]

lemma sackRexmitHole_of_hasHole (st) (h : s.hasHole = true) (w) :
    ∃ n, (sackRexmitHole st s w).2 = w.put (segment st s s.holeStart n) := by
  rw [hasHole, Bool.and_eq_true, decide_eq_true_eq] at h
  refine ⟨min mss (s.cutAt s.holeStart (s.sackedTop - s.holeStart).toNat), ?_⟩
  rw [sackRexmitHole]
  rw [if_neg (by rw [h.1]; decide), if_neg h.2]
  rw [← sendRange_wire]
  generalize sendRange st s w s.holeStart _ = r
  obtain ⟨s1, w1, ok⟩ := r
  cases ok <;> rfl

/-- The hole that is sent, if SACK is agreed on and there is one. -/
lemma holeIf_of_not_hasHole (h : (c.sackOk && s.hasHole) = false) (w) :
    holeIf c s w = (s, w, false) := by
  rw [holeIf]
  split
  · rename_i hsack
    rw [hsack, Bool.true_and] at h
    exact sackRexmitHole_of_not_hasHole h w
  · rfl

lemma holeIf_lt (h : (c.sackOk && s.hasHole) = true) (hok : w.txOk w.txs = true) :
    w.others.length < (holeIf c s w).2.1.others.length ∧ (holeIf c s w).2.2 = true := by
  rw [Bool.and_eq_true] at h
  obtain ⟨n, hn⟩ := sackRexmitHole_of_hasHole c.stamp h.2 w
  rw [holeIf, if_pos h.1, hn]
  exact ⟨others_put_lt hok rfl, put_ok hok _⟩

def isDup (c : AckCtx) (s : Snd) : Bool :=
  decide (c.ack = s.una ∧ c.datalen = 0 ∧ c.window = s.wnd ∧ s.nxt ≠ s.una)

def counted (s : Snd) : Snd := { s with dupacks := (s.dupacks + 1) % 2 ^ 32 }

/-- In recovery it lets one more segment into the network. -/
def inflated (s : Snd) : Snd := { s with cwnd := (s.cwnd + mss) % 2 ^ 32 }

/-- A duplicate has something sent: the third what is missing, and those after it the next hole, or
new data. -/
def resends (c : AckCtx) (s : Snd) : Bool :=
  isDup c s &&
    if s.counted.dupacks = 3 ∧ s.inRecovery = false then
      (c.sackOk && s.counted.enterRecovery.hasHole) || decide (0 < s.len)
    else if s.inRecovery then
      (c.sackOk && s.counted.inflated.hasHole) || (c.sends && s.counted.inflated.wants)
    else false

def afterDup (c : AckCtx) (s : Snd) : Snd :=
  if isDup c s then
    if s.counted.dupacks = 3 ∧ s.inRecovery = false then s.counted.enterRecovery
    else if s.inRecovery then
      if c.sends then (s.counted.inflated.skip s.len).1 else s.counted.inflated
    else s.counted
  else s

lemma fastRecovery_eq (c s w) :
    fastRecovery c s w = if (holeIf c s.inflated w).2.2 then
      ((holeIf c s.inflated w).1, (holeIf c s.inflated w).2.1)
    else sendDataIf c (holeIf c s.inflated w).1 (holeIf c s.inflated w).2.1 := rfl

lemma dupAck_of_not_resends (h : resends c s = false) (w) : dupAck c s w = (afterDup c s, w) := by
  rw [dupAck, afterDup]
  by_cases hdup : c.ack = s.una ∧ c.datalen = 0 ∧ c.window = s.wnd ∧ s.nxt ≠ s.una
  · have hdup' : isDup c s = true := decide_eq_true hdup
    rw [resends, hdup', Bool.true_and] at h
    rw [if_pos hdup, if_pos hdup']
    show (if s.counted.dupacks = 3 ∧ s.inRecovery = false then fastRetransmit c s.counted w
      else if s.inRecovery then fastRecovery c s.counted w else (s.counted, w)) = _
    split at h
    · rename_i hthird
      rw [Bool.or_eq_false_iff, decide_eq_false_iff_not, Nat.not_lt, Nat.le_zero] at h
      rw [if_pos hthird, if_pos hthird, fastRetransmit, holeIf_of_not_hasHole h.1]
      have hnone : min s.counted.enterRecovery.len mss = 0 := by
        have hlen : s.counted.enterRecovery.len = s.len := rfl
        rw [hlen, h.2, Nat.zero_min]
      exact if_pos (.inr hnone)
    rename_i hthird
    rw [if_neg hthird, if_neg hthird]
    split at h
    · rename_i hrec
      rw [Bool.or_eq_false_iff] at h
      rw [if_pos hrec, if_pos hrec]
      rw [fastRecovery_eq, holeIf_of_not_hasHole h.1]
      rw [if_neg Bool.false_ne_true, sendDataIf]
      split
      · rename_i hsends
        rw [hsends, Bool.true_and] at h
        exact sendData_of_wants h.2 w
      · rfl
    · rename_i hrec
      rw [if_neg hrec, if_neg hrec]
  · have hdup' : isDup c s = false := decide_eq_false hdup
    rw [if_neg hdup, hdup', if_neg Bool.false_ne_true]

lemma dupAck_lt (h : resends c s = true) (hok : ∀ i, w.txOk i = true) :
    w.others.length < (dupAck c s w).2.others.length := by
  rw [resends, Bool.and_eq_true] at h
  obtain ⟨hdup, hsent⟩ := h
  rw [dupAck, if_pos (of_decide_eq_true hdup)]
  show _ < (if s.counted.dupacks = 3 ∧ s.inRecovery = false then fastRetransmit c s.counted w
    else if s.inRecovery then fastRecovery c s.counted w else (s.counted, w)).2.others.length
  split at hsent
  · rename_i hthird
    rw [if_pos hthird, fastRetransmit]
    cases hhole : c.sackOk && s.counted.enterRecovery.hasHole with
    | true =>
      obtain ⟨hlt, hok'⟩ := holeIf_lt hhole (hok _)
      rw [if_pos (.inl hok')]
      exact hlt
    | false =>
      rw [hhole, Bool.false_or, decide_eq_true_eq] at hsent
      rw [holeIf_of_not_hasHole hhole]
      have hlen : s.counted.enterRecovery.len = s.len := rfl
      rw [if_neg (by rw [hlen, mss]; rintro (h | h) <;> [cases h; omega])]
      exact others_put_lt (hok _) rfl
  rename_i hthird
  rw [if_neg hthird]
  split at hsent
  · rename_i hrec
    rw [if_pos hrec]
    rw [fastRecovery_eq]
    cases hhole : c.sackOk && s.counted.inflated.hasHole with
    | true =>
      obtain ⟨hlt, hok'⟩ := holeIf_lt hhole (hok _)
      rw [if_pos hok']
      exact hlt
    | false =>
      rw [hhole, Bool.false_or, Bool.and_eq_true] at hsent
      rw [holeIf_of_not_hasHole hhole]
      rw [if_neg Bool.false_ne_true, sendDataIf, if_pos hsent.1]
      exact sendData_lt c.stamp c.tsOk hsent.2 (hok _)
  · cases hsent

lemma skip_holds (fuel : Nat) (s) : Holds s (s.skip fuel).1 ∧
    (s.skip fuel).1.finSent = s.finSent := by
  induction fuel generalizing s with
  | zero => exact ⟨Holds.refl s, rfl⟩
  | succ fuel ih =>
    rw [skip]
    dsimp only
    split
    · exact ⟨Holds.refl s, rfl⟩
    split
    · obtain ⟨h, hfin⟩ := ih { s with
        nxt := if gt (s.sackedUntil s.nxt) (s.una + BitVec.ofNat 32 s.len) then
          s.una + BitVec.ofNat 32 s.len else s.sackedUntil s.nxt }
      exact ⟨⟨h.una, h.buf, h.acked, h.wnd, h.cwnd, h.ssthresh, h.sacked, h.rtoMs⟩, hfin⟩
    · exact ⟨Holds.refl s, rfl⟩

lemma afterDup_frame (c s) : (afterDup c s).una = s.una ∧ (afterDup c s).wnd = s.wnd ∧
    (afterDup c s).buf = s.buf ∧
      (afterDup c s).finSent = s.finSent := by
  have hmore : s.counted.inflated.una = s.una ∧ s.counted.inflated.wnd = s.wnd ∧
      s.counted.inflated.buf = s.buf ∧ s.counted.inflated.finSent = s.finSent := by
    simp [counted, inflated]
  rw [afterDup]
  split
  · split
    · simp [counted, enterRecovery, cwndOnLoss]
    split
    · split
      · obtain ⟨h, hfin⟩ := skip_holds s.len s.counted.inflated
        exact ⟨h.una.trans hmore.1, h.wnd.trans hmore.2.1, h.buf.trans hmore.2.2.1,
          hfin.trans hmore.2.2.2⟩
      · exact hmore
    · simp [counted]
  · exact ⟨rfl, rfl, rfl, rfl⟩

lemma newAck_frame (c s w) : (newAck c s w).1.una = c.ack ∧ (newAck c s w).1.wnd = s.wnd := by
  have hwnd : ((({ s with dupacks := 0 } : Snd).measure c w).openWindow c).wnd = s.wnd :=
    (openWindow_wnd c _).trans (measure_windows c _ w).1
  rw [newAck]
  generalize (({ s with dupacks := 0 } : Snd).measure c w).openWindow c = s1 at hwnd ⊢
  split
  · have hhole := holeIf_resent c (s1.release c.ack) w
    exact ⟨hhole.una, hhole.wnd.trans hwnd⟩
  · exact ⟨rfl, hwnd⟩

end Snd

/-! ## What a segment changes -/

namespace Tcb

variable {t t' : Tcb} {g : Seg} {l : List Out}

lemma delayAck_tsRecent (t : Tcb) : t.delayAck.rcv.tsRecent = t.rcv.tsRecent := by
  rw [delayAck]
  split
  · rfl
  · split <;> rfl

/-- A segment has nothing to put into the ring. -/
def NoData (t : Tcb) (g : Seg) : Prop := 0 < g.data.length → g.seq = t.rcv.nxt → t.rcv.free = 0

lemma onData_rcv (t : Tcb) (g) : (t.onData g).rcv.tsRecent = t.rcv.tsRecent ∧
    (t.onData g).rcv.finRcvd = t.rcv.finRcvd ∧
      (t.NoData g → (t.onData g).rcv.nxt = t.rcv.nxt) ∧
      ((t.onData g).rcv.buf = t.rcv.buf ↔ t.NoData g) := by
  have hstay : ∀ r : Rcv, r.nxt = t.rcv.nxt → r.buf = t.rcv.buf → r.finRcvd = t.rcv.finRcvd →
      r.tsRecent = t.rcv.tsRecent → t.NoData g → r.tsRecent = t.rcv.tsRecent ∧
        r.finRcvd = t.rcv.finRcvd ∧
      (t.NoData g → r.nxt = t.rcv.nxt) ∧ (r.buf = t.rcv.buf ↔ t.NoData g) :=
    fun r hnxt hbuf hfin hts hno => ⟨hts, hfin, fun _ => hnxt, ⟨fun _ => hno, fun _ => hbuf⟩⟩
  rw [onData]
  split
  · rename_i hpos
    split
    · rename_i hseq
      have hlater := (Rcv.take_later t.rcv g.data).trans (Rcv.drain_later (oooPerCb + 1) _)
      have hused := (Rcv.drain_later (oooPerCb + 1) (t.rcv.take g.data)).used
      rw [Rcv.used_take] at hused
      have hsame := delayAck_same { t with rcv := (t.rcv.take g.data).drain (oooPerCb + 1) }
      have hts := delayAck_tsRecent { t with rcv := (t.rcv.take g.data).drain (oooPerCb + 1) }
      generalize (t.rcv.take g.data).drain (oooPerCb + 1) = r at hlater hused hsame hts ⊢
      refine ⟨hts.trans hlater.tsRecent, hsame.finRcvd.trans hlater.finRcvd,
        fun hno => hsame.nxt.trans (hlater.full (hno hpos hseq)).1, fun hbuf => ?_,
        fun hno => hsame.buf.trans (hlater.full (hno hpos hseq)).2⟩
      intro _ _
      have hcount : r.used = t.rcv.used := congrArg RingBuffer.count (hsame.buf.symm.trans hbuf)
      omega
    · rename_i hne
      have hno : t.NoData g := fun _ hseq => absurd hseq hne
      split
      · obtain ⟨hnxt, hbuf, hfin, hts⟩ := Rcv.oooQueue_frame t.rcv g.seq g.data
        exact hstay _ hnxt hbuf hfin hts hno
      · exact hstay _ rfl rfl rfl rfl hno
  · rename_i hpos
    have hno : t.NoData g := fun hpos' => absurd hpos' hpos
    split <;> exact hstay _ rfl rfl rfl rfl hno

lemma onFin_eq (t : Tcb) (g) :
    (t.onFin g).state = (if (g.flags.fin && le g.seq t.rcv.nxt) = true then
    afterFin t.state else t.state) ∧
      (t.onFin g).rcv = (if (g.flags.fin && le g.seq t.rcv.nxt) = true ∧ t.rcv.finRcvd = false then
        { t.rcv with finRcvd := true, nxt := t.rcv.nxt + 1 } else t.rcv) := by
  rw [onFin]
  by_cases hfin : (g.flags.fin && le g.seq t.rcv.nxt) = true
  · rw [if_pos hfin, if_pos hfin]
    obtain ⟨-, hstate, hrcv, -⟩ := peerClosed_spec (if t.rcv.finRcvd then t
      else { t with rcv := { t.rcv with finRcvd := true, nxt := t.rcv.nxt + 1 } }.sendAck)
    refine ⟨hstate.trans ?_, hrcv.trans ?_⟩
    · split <;> rfl
    cases hrcvd : t.rcv.finRcvd with
    | true => rw [if_pos rfl, if_neg (fun h => Bool.noConfusion h.2)]
    | false =>
      rw [if_neg Bool.false_ne_true, if_pos ⟨hfin, rfl⟩]
      rfl
  · rw [if_neg hfin, if_neg hfin, if_neg (fun h => hfin h.1)]
    exact ⟨rfl, rfl⟩

/-! ### Only acknowledgements are sent on the way -/

lemma sendAck_others (hw : t.wire.others = l) : t.sendAck.wire.others = l :=
  (others_put_ack rfl).trans hw

lemma delayAck_others (hw : t.wire.others = l) : t.delayAck.wire.others = l := by
  rw [delayAck]
  split
  · exact sendAck_others hw
  · split <;> exact hw

lemma onData_others (t : Tcb) (g) : (t.onData g).wire.others = t.wire.others := by
  rw [onData]
  split
  · split
    · exact delayAck_others rfl
    split
    iterate 2 · exact sendAck_others rfl
  · split
    · exact sendAck_others rfl
    · rfl

lemma peerClosed_others (hw : t.wire.others = l) : t.peerClosed.wire.others = l := by
  rw [peerClosed]
  split
  · exact hw
  · exact hw
  · exact hw
  · exact sendAck_others hw
  · exact hw

variable (t : Tcb) (g : Seg)

lemma onFin_others : (t.onFin g).wire.others = t.wire.others := by
  rw [onFin]
  split
  · refine peerClosed_others ?_
    split
    · rfl
    · exact sendAck_others rfl
  · rfl

/-! ### The segment that brings nothing -/

/-- What `tcp_input` must leave as it is, and what it sends but for bare acknowledgements. -/
structure Untouched (t t' : Tcb) : Prop where
  state : t'.state = t.state
  una : t'.snd.una = t.snd.una
  wnd : t'.snd.wnd = t.snd.wnd
  nxt : t'.rcv.nxt = t.rcv.nxt
  tsRecent : t'.rcv.tsRecent = t.rcv.tsRecent
  sndbuf : t'.snd.buf = t.snd.buf
  rcvbuf : t'.rcv.buf = t.rcv.buf
  sent : t'.wire.others = t.wire.others

def ackCtx (t : Tcb) (g : Seg) : AckCtx :=
  ⟨t.stamp, t.state.sends, t.tsOk, t.sackOk, g.ack, g.data.length, t.windowOf g, g.opts⟩

/-- The send side, with what the segment's SACK option says on the scoreboard. -/
def scored (t : Tcb) (g : Seg) : Snd :=
  if t.sackOk then (g.opts.sack.take 4).foldl Snd.sackAdd t.snd else t.snd

/-- The send side after an acknowledgement that is not new and has nothing sent. -/
def afterDup (t : Tcb) (g : Seg) : Snd := Snd.afterDup (t.ackCtx g) (t.scored g)

/-- The segment has no new acknowledgement, no data and no FIN that are taken, our own FIN is not
taken to be acknowledged, and nothing waits to be sent, or sent again. -/
structure BringsNothing (t : Tcb) (g : Seg) : Prop where
  ack : gt g.ack t.snd.una = false
  data : t.NoData g
  fin : (g.flags.fin && le g.seq t.rcv.nxt) = true → t.rcv.finRcvd = true ∧
    afterFin t.state = t.state
  finAcked : t.state.awaitsFinAck = true → t.snd.finSent = true → t.snd.una ≠ (t.afterDup g).nxt
  resent : Snd.resends (t.ackCtx g) (t.scored g) = false
  unsent : t.state.sends = true → (t.afterDup g).wants = false

lemma scored_frame : (t.scored g).una = t.snd.una ∧ (t.scored g).wnd = t.snd.wnd ∧
    (t.scored g).buf = t.snd.buf ∧
      (t.scored g).finSent = t.snd.finSent := by
  obtain ⟨rs, hrs⟩ := scoreboard_frame t.sackOk (g.opts.sack.take 4) t.snd
  rw [scored, hrs]
  exact ⟨rfl, rfl, rfl, rfl⟩

lemma ackSentData_eq :
    Snd.ackSentData (t.ackCtx g) t.snd t.wire = if !gt g.ack (t.scored g).una then
      Snd.dupAck (t.ackCtx g) (t.scored g) t.wire else Snd.newAck (t.ackCtx g)
      (t.scored g) t.wire := rfl

/-- How far a segment's acknowledgement takes `snd_una`, and that it leaves the window. -/
lemma ackSentData_una : (t.ackSentData g).snd.una =
    (if gt g.ack t.snd.una then g.ack else t.snd.una) ∧
      (t.ackSentData g).snd.wnd = t.snd.wnd := by
  obtain ⟨huna, hwnd, -, -⟩ := scored_frame t g
  show (Snd.ackSentData (t.ackCtx g) t.snd t.wire).1.una = _ ∧
    (Snd.ackSentData (t.ackCtx g) t.snd t.wire).1.wnd = _
  rw [ackSentData_eq, huna]
  cases gt g.ack t.snd.una with
  | false =>
    obtain ⟨huna', -, hwnd', -⟩ := Snd.dupAck_frame (t.ackCtx g) (t.scored g) t.wire
    exact ⟨huna'.trans huna, hwnd'.trans hwnd⟩
  | true =>
    obtain ⟨huna', hwnd'⟩ := Snd.newAck_frame (t.ackCtx g) (t.scored g) t.wire
    exact ⟨huna', hwnd'.trans hwnd⟩

/-! ### After the acknowledgement -/

/-- The data, the FINs and `send_data` leave everything as it is. -/
structure Settles (t : Tcb) (g : Seg) : Prop where
  data : t.NoData g
  fin : (g.flags.fin && le g.seq t.rcv.nxt) = true → t.rcv.finRcvd = true ∧
    afterFin t.state = t.state
  finAcked : t.state.awaitsFinAck = true → t.snd.finSent = true → t.snd.una ≠ t.snd.nxt
  unsent : t.state.sends = true → t.snd.wants = false

/-- Where `tcp_input` is before `send_data`. -/
lemma onFinAcked_frame : ((t.onData g).onFin g).onFinAcked.snd = t.snd ∧
      ((t.onData g).onFin g).onFinAcked.rcv = ((t.onData g).onFin g).rcv ∧
      ((t.onData g).onFin g).onFinAcked.wire = ((t.onData g).onFin g).wire := by
  obtain ⟨hsnd, hwire, hrcv, -⟩ := onFinAcked_spec ((t.onData g).onFin g)
  exact ⟨(hsnd.trans (onFin_spec _ g).1).trans (onData_quiet t g).snd, hrcv, hwire⟩

variable {t} {g}

lemma sendData_tcb (h : t.state.sends = true → t.snd.wants = false) :
    t.sendData.state = t.state ∧ t.sendData.rcv = t.rcv ∧ t.sendData.wire = t.wire := by
  refine ⟨sendData_state t, sendData_rcv t, ?_⟩
  rw [sendData]
  split
  · rename_i hsends
    rw [Snd.sendData_of_wants (h hsends)]
  · rfl

/-- The state comes back to where it was only if it never left. -/
lemma state_stays {st : State} (hst : t.state = st ∨ t.state = afterFin st)
    (hback : t.onFinAcked.state = st) :
    t.state = st ∧ (st.awaitsFinAck = true → t.snd.finSent = true → t.snd.una ≠ t.snd.nxt) := by
  rw [(onFinAcked_spec t).2.2.2, afterFinAcked] at hback
  split at hback
  · have hkey : t.state = st ∧ st.awaitsFinAck = false := by
      revert hback
      rcases hst with hst | hst <;> rw [hst] <;> cases t.rcv.finRcvd <;> cases st <;> decide
    exact ⟨hkey.1, fun hawaits => absurd (hkey.2.symm.trans hawaits) (by decide)⟩
  · rename_i hne
    exact ⟨hback, fun _ hsent heq => hne ⟨hsent, heq⟩⟩

lemma afterAck_holds (t : Tcb) (g) : Snd.Holds t.snd (t.afterAck g).snd := by
  have hsend := sendData_frame ((t.onData g).onFin g).onFinAcked
  rw [(onFinAcked_frame t g).1] at hsend
  exact hsend

lemma Settles.untouched (h : Settles t g) : Untouched t (t.afterAck g) := by
  obtain ⟨hts, hrcvd, hnxt, hbuf⟩ := onData_rcv t g
  obtain ⟨hstate, hrcv⟩ := onFin_eq (t.onData g) g
  obtain ⟨hsnd, hrcv', hwire⟩ := onFinAcked_frame t g
  rw [hnxt h.data, (onData_quiet t g).state] at hstate
  rw [hnxt h.data, hrcvd] at hrcv
  -- the FIN, if there is one, came before
  have hst : ((t.onData g).onFin g).state = t.state := by
    rw [hstate]
    split
    · rename_i hfin
      exact (h.fin hfin).2
    · rfl
  have hstay : ((t.onData g).onFin g).rcv = (t.onData g).rcv := by
    rw [hrcv, if_neg]
    rintro ⟨hfin, hno⟩
    rw [(h.fin hfin).1] at hno
    cases hno
  have hsnd' : ((t.onData g).onFin g).snd = t.snd := (onFin_spec _ g).1.trans (onData_quiet t g).snd
  have hacked : ((t.onData g).onFin g).onFinAcked.state = t.state := by
    obtain ⟨-, -, -, heq⟩ := onFinAcked_spec ((t.onData g).onFin g)
    rw [heq, hsnd', hst]
    split
    · rename_i hfin
      refine ((afterFinAcked_cases _).resolve_right fun hawaits => ?_).trans hst
      rw [hst] at hawaits
      exact h.finAcked hawaits.1 hfin.1 hfin.2
    · rfl
  obtain ⟨hst4, hrcv4, hwire4⟩ := sendData_tcb (t := ((t.onData g).onFin g).onFinAcked)
    (by rw [hacked, hsnd]; exact h.unsent)
  have hholds := afterAck_holds t g
  have hrcv5 : (t.afterAck g).rcv = (t.onData g).rcv := hrcv4.trans (hrcv'.trans hstay)
  refine ⟨hst4.trans hacked, hholds.una, hholds.wnd, ?_, ?_, hholds.buf, ?_, ?_⟩
  · rw [hrcv5, hnxt h.data]
  · rw [hrcv5, hts]
  · rw [hrcv5, hbuf.2 h.data]
  · rw [afterAck, hwire4, hwire, onFin_others, onData_others]

/-- Nothing but these leave everything as it is, if what is to be sent can be. -/
lemma settles_of_untouched (hok : ∀ i, t.wire.txOk i = true) (h : Untouched t (t.afterAck g)) :
    Settles t g := by
  obtain ⟨hts, hrcvd, hnxt, hbuf⟩ := onData_rcv t g
  obtain ⟨hstate, hrcv⟩ := onFin_eq (t.onData g) g
  obtain ⟨hsnd, hrcv', hwire⟩ := onFinAcked_frame t g
  have hsnd' : ((t.onData g).onFin g).snd = t.snd := (onFin_spec _ g).1.trans (onData_quiet t g).snd
  have hrcv5 : (t.afterAck g).rcv = ((t.onData g).onFin g).rcv := (sendData_rcv _).trans hrcv'
  have hdata : t.NoData g := by
    refine hbuf.1 (Eq.trans ?_ h.rcvbuf)
    rw [hrcv5, hrcv]
    split <;> rfl
  rw [hnxt hdata, (onData_quiet t g).state] at hstate
  rw [hnxt hdata, hrcvd] at hrcv
  have hst : ((t.onData g).onFin g).state = t.state ∨
      ((t.onData g).onFin g).state = afterFin t.state := by
    rw [hstate]
    split
    · exact .inr rfl
    · exact .inl rfl
  have hback : ((t.onData g).onFin g).onFinAcked.state = t.state :=
    (sendData_state _).symm.trans h.state
  obtain ⟨hsame, hacked⟩ := state_stays hst hback
  rw [hsnd'] at hacked
  refine ⟨hdata, fun hfin => ⟨?_, ?_⟩, hacked, fun hsends => ?_⟩
  · by_contra hno
    rw [Bool.not_eq_true] at hno
    have hmoved := h.nxt
    rw [hrcv5, hrcv, if_pos ⟨hfin, hno⟩] at hmoved
    bv_omega
  · rw [if_pos hfin] at hstate
    exact hstate.symm.trans hsame
  by_contra hwants
  rw [Bool.not_eq_false] at hwants
  have hputs := ((onData_puts t g).trans (onFin_puts (t.onData g) g)).txOk
  rw [← hwire] at hputs
  have hlt := sendData_lt ((t.onData g).onFin g).onFinAcked.stamp
    ((t.onData g).onFin g).onFinAcked.tsOk
    (w := ((t.onData g).onFin g).onFinAcked.wire) hwants (by rw [hputs]; exact hok _)
  have hsent := h.sent
  rw [afterAck, sendData, hback, if_pos hsends] at hsent
  rw [hsnd] at hsent
  rw [hsent, hwire, onFin_others, onData_others] at hlt
  exact Nat.lt_irrefl _ hlt

lemma ackSentData_of_not_resends (hack : gt g.ack t.snd.una = false)
    (hresent : Snd.resends (t.ackCtx g) (t.scored g) = false) :
    t.ackSentData g = { t with snd := t.afterDup g } := by
  have hdup : Snd.ackSentData (t.ackCtx g) t.snd t.wire = (t.afterDup g, t.wire) := by
    rw [ackSentData_eq, (scored_frame t g).1, hack]
    exact Snd.dupAck_of_not_resends hresent t.wire
  show (let r := Snd.ackSentData (t.ackCtx g) t.snd t.wire; { t with snd := r.1, wire := r.2 }) = _
  rw [hdup]

lemma afterDup_frame (t : Tcb) (g) :
    (t.afterDup g).una = t.snd.una ∧ (t.afterDup g).wnd = t.snd.wnd ∧
    (t.afterDup g).buf = t.snd.buf ∧
      (t.afterDup g).finSent = t.snd.finSent := by
  obtain ⟨huna, hwnd, hbuf, hfin⟩ := scored_frame t g
  obtain ⟨huna', hwnd', hbuf', hfin'⟩ := Snd.afterDup_frame (t.ackCtx g) (t.scored g)
  exact ⟨huna'.trans huna, hwnd'.trans hwnd, hbuf'.trans hbuf, hfin'.trans hfin⟩

lemma settles_iff (t : Tcb) (g) : Settles { t with snd := t.afterDup g } g ↔ t.NoData g ∧
      ((g.flags.fin && le g.seq t.rcv.nxt) = true → t.rcv.finRcvd = true ∧
        afterFin t.state = t.state) ∧
      (t.state.awaitsFinAck = true → t.snd.finSent = true → t.snd.una ≠ (t.afterDup g).nxt) ∧
      (t.state.sends = true → (t.afterDup g).wants = false) := by
  obtain ⟨huna, -, -, hfin⟩ := afterDup_frame t g
  rw [← huna, ← hfin]
  exact ⟨fun h => ⟨h.data, h.fin, h.finAcked, h.unsent⟩, fun ⟨h1, h2, h3, h4⟩ => ⟨h1, h2, h3, h4⟩⟩

lemma BringsNothing.untouched (h : BringsNothing t g) :
    Untouched t ((t.ackSentData g).afterAck g) := by
  obtain ⟨huna, hwnd, hbuf, -⟩ := afterDup_frame t g
  rw [ackSentData_of_not_resends h.ack h.resent]
  have hset := ((settles_iff t g).2 ⟨h.data, h.fin, h.finAcked, h.unsent⟩).untouched
  exact ⟨hset.state, hset.una.trans huna, hset.wnd.trans hwnd, hset.nxt, hset.tsRecent,
    hset.sndbuf.trans hbuf,
    hset.rcvbuf, hset.sent⟩

lemma afterAck_others_le (t : Tcb) (g) : t.wire.others.length ≤ (t.afterAck g).wire.others.length :=
    by
  obtain ⟨-, -, hwire⟩ := onFinAcked_frame t g
  have hsame : ((t.onData g).onFin g).onFinAcked.wire.others = t.wire.others := by
    rw [hwire, onFin_others, onData_others]
  rw [afterAck, ← hsame, sendData]
  split
  · exact sendData_le _ _ _ _
  · exact Nat.le_refl _

lemma bringsNothing_of_untouched (hok : ∀ i, t.wire.txOk i = true)
    (h : Untouched t ((t.ackSentData g).afterAck g)) : BringsNothing t g := by
  have hack : gt g.ack t.snd.una = false := by
    rw [← Bool.not_eq_true]
    intro hgt
    have huna := h.una
    rw [(afterAck_holds _ g).una, (ackSentData_una t g).1, if_pos hgt] at huna
    rw [huna, Snd.gt_self] at hgt
    cases hgt
  have hresent : Snd.resends (t.ackCtx g) (t.scored g) = false := by
    rw [← Bool.not_eq_true]
    intro hresends
    have hlt := Snd.dupAck_lt hresends hok
    have hwire : (t.ackSentData g).wire = (Snd.dupAck (t.ackCtx g) (t.scored g) t.wire).2 := by
      show (Snd.ackSentData (t.ackCtx g) t.snd t.wire).2 = _
      rw [ackSentData_eq, (scored_frame t g).1, hack]
      rfl
    have hle := afterAck_others_le (t.ackSentData g) g
    rw [h.sent, hwire] at hle
    omega
  obtain ⟨huna, hwnd, hbuf, -⟩ := afterDup_frame t g
  rw [ackSentData_of_not_resends hack hresent] at h
  have hset : Settles { t with snd := t.afterDup g } g := settles_of_untouched hok
    ⟨h.state, h.una.trans huna.symm, h.wnd.trans hwnd.symm, h.nxt, h.tsRecent,
      h.sndbuf.trans hbuf.symm,
      h.rcvbuf, h.sent⟩
  obtain ⟨hdata, hfin, hacked, hunsent⟩ := (settles_iff t g).1 hset
  exact ⟨hack, hdata, hfin, hacked, hresent, hunsent⟩

/-! ## `tcp_input` -/

/-- The same connection, on a wire that lets through what `ok` says. -/
def onWire (t : Tcb) (ok : Nat → Bool) : Tcb := { t with wire := { t.wire with txOk := ok } }

/-- The segment's timestamp, if it is noted, is the last one. -/
def NotesSame (t : Tcb) (g : Seg) : Prop :=
  (t.tsOk && le g.seq t.rcv.nxt) = true → ∀ ts ∈ g.opts.ts, ts.1 = t.rcv.tsRecent

/-- The segments that change nothing and are at most acknowledged: a reset in TIME_WAIT; one that is
no acknowledgement, or too old by its timestamp; and one whose timestamp and window are those known,
and that does not complete the handshake, or brings nothing. -/
def Dropped (t : Tcb) (g : Seg) : Prop :=
  if g.flags.rst then t.state = .timeWait
  else if !g.flags.ack || t.tooOld g then True
  else t.NotesSame g ∧ t.windowOf g = t.snd.wnd ∧
    if t.state = .synReceived then g.ack ≠ t.snd.nxt else t.BringsNothing g

def alive (t : Tcb) : Tcb := { t with lastRcv := t.wire.now, keepProbes := 0 }

lemma note_of_same (hts : t.NotesSame g) (hwnd : t.windowOf g = t.snd.wnd) :
    (t.noteTs g).noteWindow g = t.alive := by
  have hnote : t.noteTs g = t := by
    rw [noteTs]
    split
    · rename_i hnoted
      have hsame := hts hnoted
      cases hopt : g.opts.ts with
      | none => rfl
      | some ts =>
        rw [hopt] at hsame
        have := hsame ts rfl
        dsimp only
        rw [this]
    · rfl
  rw [hnote, noteWindow, hwnd]
  rfl

lemma afterAck_rcv (t : Tcb) (g) : (t.afterAck g).rcv.tsRecent = t.rcv.tsRecent := by
  rw [afterAck, sendData_rcv, (onFinAcked_frame t g).2.1, (onFin_eq _ g).2]
  split <;> exact (onData_rcv t g).1

lemma onAccepted_frame (t : Tcb) (g) :
    (t.onAccepted g).snd.wnd = t.snd.wnd ∧ (t.onAccepted g).rcv.tsRecent = t.rcv.tsRecent := by
  have hafter : ∀ t' : Tcb, t'.snd.wnd = t.snd.wnd → t'.rcv = t.rcv →
      ((t'.ackSentData g).afterAck g).snd.wnd = t.snd.wnd ∧
        ((t'.ackSentData g).afterAck g).rcv.tsRecent = t.rcv.tsRecent := by
    intro t' hwnd hrcv
    refine ⟨((afterAck_holds _ g).wnd.trans (ackSentData_una t' g).2).trans hwnd,
      (afterAck_rcv _ g).trans ?_⟩
    show t'.rcv.tsRecent = _
    rw [hrcv]
  rw [onAccepted]
  split
  · split
    · exact ⟨rfl, rfl⟩
    · exact hafter _ rfl rfl
  · exact hafter _ rfl rfl

/-- Nothing of this depends on the wire, nor on when the peer was last heard. -/
lemma bringsNothing_onWire (t : Tcb) (ok : Nat → Bool) (g) : (t.onWire ok).BringsNothing g ↔
    t.BringsNothing g :=
  ⟨fun h => ⟨h.ack, h.data, h.fin, h.finAcked, h.resent, h.unsent⟩,
    fun h => ⟨h.ack, h.data, h.fin, h.finAcked, h.resent, h.unsent⟩⟩

lemma bringsNothing_alive (t : Tcb) (g) : t.alive.BringsNothing g ↔ t.BringsNothing g :=
  ⟨fun h => ⟨h.ack, h.data, h.fin, h.finAcked, h.resent, h.unsent⟩,
    fun h => ⟨h.ack, h.data, h.fin, h.finAcked, h.resent, h.unsent⟩⟩

lemma dropped_onWire (t : Tcb) (ok : Nat → Bool) (g) : (t.onWire ok).Dropped g ↔ t.Dropped g := by
  rw [Dropped, Dropped, bringsNothing_onWire]
  exact Iff.rfl

end Tcb

def State.synchronized : State → Bool
  | .closed | .listen | .synSent => false
  | _ => true

namespace Tcb

variable {t t' : Tcb} {g : Seg}

lemma Dropped.untouched (h : Dropped t g) (hsyn : t.state ≠ .synSent) (ws ts sack : Bool) :
    Untouched t (t.input g ws ts sack) := by
  have hself : Untouched t t := ⟨rfl, rfl, rfl, rfl, rfl, rfl, rfl, rfl⟩
  rw [Dropped] at h
  rw [input]
  by_cases hrst : g.flags.rst = true
  · rw [if_pos hrst] at h ⊢
    rw [onReset, if_pos h]
    exact hself
  rw [if_neg hrst] at h
  rw [if_neg hrst, if_neg hsyn]
  by_cases hack : (!g.flags.ack) = true
  · rw [if_pos hack]
    exact hself
  rw [if_neg hack]
  by_cases hold : t.tooOld g = true
  · rw [if_pos hold]
    exact ⟨rfl, rfl, rfl, rfl, rfl, rfl, rfl, sendAck_others rfl⟩
  rw [if_neg (by rw [Bool.or_eq_true]; exact fun hor => hor.elim hack hold)] at h
  obtain ⟨hts, hwnd, hrest⟩ := h
  rw [if_neg hold, note_of_same hts hwnd, onAccepted]
  have halive : t.alive.state = t.state := rfl
  rw [halive]
  by_cases hrcvd : t.state = .synReceived
  · rw [if_pos hrcvd] at hrest
    rw [if_pos hrcvd, if_pos (c := g.ack ≠ t.alive.snd.nxt) hrest]
    exact ⟨rfl, rfl, rfl, rfl, rfl, rfl, rfl, rfl⟩
  rw [if_neg hrcvd] at hrest
  rw [if_neg hrcvd]
  have hun := ((bringsNothing_alive t g).2 hrest).untouched
  exact ⟨hun.state, hun.una, hun.wnd, hun.nxt, hun.tsRecent, hun.sndbuf, hun.rcvbuf, hun.sent⟩

lemma afterAck_synReceived (h : t.state = .established) : (t.afterAck g).state ≠ .synReceived := by
  intro habs
  have hst := afterAck_states t g
  rw [habs, h] at hst
  exact absurd hst (by decide)

lemma dropped_of_untouched (hsync : t.state.synchronized = true) (hok : ∀ i, t.wire.txOk i = true)
    (ws ts sack : Bool) (h : Untouched t (t.input g ws ts sack)) : Dropped t g := by
  have hsyn : t.state ≠ .synSent := by
    intro habs
    rw [habs] at hsync
    cases hsync
  rw [Dropped]
  rw [input] at h
  split
  · rename_i hrst
    rw [if_pos hrst, onReset] at h
    by_contra hne
    rw [if_neg hne] at h
    rw [← h.state] at hsync
    cases hsync
  rename_i hrst
  rw [if_neg hrst, if_neg hsyn] at h
  split
  · trivial
  rename_i htaken
  rw [Bool.or_eq_true, not_or] at htaken
  rw [if_neg htaken.1, if_neg htaken.2] at h
  obtain ⟨hwnd', hts'⟩ := onAccepted_frame ((t.noteTs g).noteWindow g) g
  have hwnd : t.windowOf g = t.snd.wnd := by
    have hscale : ((t.noteTs g).noteWindow g).snd.wnd = t.windowOf g := by
      rw [noteTs]
      split <;> rfl
    exact hscale.symm.trans (hwnd'.symm.trans h.wnd)
  have hts : t.NotesSame g := by
    intro hnoted ts' hmem
    have heq : (t.noteTs g).rcv.tsRecent = t.rcv.tsRecent := hts'.symm.trans h.tsRecent
    rw [noteTs, if_pos hnoted, Option.mem_def.1 hmem] at heq
    exact heq
  have halive : t.alive.state = t.state := rfl
  rw [note_of_same hts hwnd, onAccepted, halive] at h
  refine ⟨hts, hwnd, ?_⟩
  split
  · rename_i hrcvd
    intro hack
    rw [if_pos hrcvd, if_neg (c := g.ack ≠ t.alive.snd.nxt) (fun hne => hne hack)] at h
    exact afterAck_synReceived rfl (h.state.trans hrcvd)
  rename_i hrcvd
  rw [if_neg hrcvd] at h
  refine (bringsNothing_alive t g).1 (bringsNothing_of_untouched hok ?_)
  exact ⟨h.state, h.una, h.wnd, h.nxt, h.tsRecent, h.sndbuf, h.rcvbuf, h.sent⟩

end Tcb

/-! ## The window -/

/-- How many sequence numbers a segment takes. -/
def Seg.len (g : Seg) : Nat :=
  g.data.length + (if g.flags.syn then 1 else 0) + if g.flags.fin then 1 else 0

def Out.len (o : Out) : Nat :=
  o.data.length + (if o.flags.syn then 1 else 0) + if o.flags.fin then 1 else 0

namespace Tcb

variable {t : Tcb} {g : Seg} {window : Nat}

/-- One of the `window` numbers from `rcv_nxt` on. -/
def InWindow (t : Tcb) (window : Nat) (x : SeqNum) : Prop := (x - t.rcv.nxt).toNat < window
  deriving Decidable

/-- A segment that is not acceptable: none of its numbers is in the window (an empty one is where it
starts), or it acknowledges what is past everything that was sent. -/
def Unacceptable (t : Tcb) (window : Nat) (g : Seg) : Prop :=
  (g.flags.rst = true ∧ ¬ t.InWindow window g.seq) ∨
    (g.flags.rst = false ∧ ∀ i < max 1 g.len, ¬ t.InWindow window (g.seq + BitVec.ofNat 32 i)) ∨
    (g.flags.ack = true ∧ ∀ o ∈ t.wire.out, gt g.ack (o.seq + BitVec.ofNat 32 o.len) = true)

instance (t : Tcb) (window : Nat) (g : Seg) : Decidable (t.Unacceptable window g) :=
  inferInstanceAs (Decidable (_ ∨ _ ∨ _))

/-- **A segment outside the window changes nothing, and is at most acknowledged**, whatever the wire
lets through, exactly if it is one of those that `Dropped` names. That does not depend on how large
the window is taken to be. -/
theorem outside_window_iff (t : Tcb) (hsync : t.state.synchronized = true) (window : Nat) (g : Seg)
    (ws ts sack : Bool) : (t.Unacceptable window g → ∀ ok,
    Untouched (t.onWire ok) ((t.onWire ok).input g ws ts sack)) ↔
      (t.Unacceptable window g → t.Dropped g) := by
  refine imp_congr_right fun _ => ⟨fun h => ?_, fun h ok => ?_⟩
  · exact (dropped_onWire t (fun _ => true) g).1
      (dropped_of_untouched hsync (fun _ => rfl) ws ts sack (h _))
  refine ((dropped_onWire t ok g).2 h).untouched (fun hsyn => ?_) ws ts sack
  rw [show t.state = .synSent from hsyn] at hsync
  cases hsync

/-- An old acknowledgement from before the window, with the window that is known. -/
def stale : Seg := { seq := 400, ack := 100, flags := { ack := true }, window := 65535 }

theorem outside_window_stale : Session.justOpen.t.Unacceptable Session.justOpen.t.rcv.free stale ∧
      ∀ ok, Untouched (Session.justOpen.t.onWire ok)
      ((Session.justOpen.t.onWire ok).input stale true true true) := by
  have hun : Session.justOpen.t.Unacceptable Session.justOpen.t.rcv.free stale := by decide +kernel
  refine ⟨hun, (outside_window_iff Session.justOpen.t rfl Session.justOpen.t.rcv.free stale
    true true true).2
    (fun _ => ⟨nofun, rfl, ?_⟩) hun⟩
  exact ⟨by decide, nofun, nofun, nofun, by decide +kernel, by decide +kernel⟩

/-- A reset from far ahead of the window, and a stale segment with another window. -/
def farReset : Seg := { seq := 1000000, ack := 0, flags := { rst := true }, window := 0 }

def staleWindow : Seg := { stale with window := 7 }

theorem outside_window_taken :
    (Session.justOpen.t.Unacceptable Session.justOpen.t.rcv.free farReset ∧
      (Session.justOpen.t.input farReset true true true).state = .closed) ∧
    (Session.justOpen.t.Unacceptable Session.justOpen.t.rcv.free staleWindow ∧
      Session.justOpen.t.snd.wnd = 65535 ∧
      (Session.justOpen.t.input staleWindow true true true).snd.wnd = 7) := by
  decide +kernel

end Tcb

end Sage040.Tcp
