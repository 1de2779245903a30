import Sage040.Net.Tcp.Session

/-!
# A close is believed when it is acknowledged

Our own FIN takes the number after the last byte, `snd_una + sndlen` for as long as it is not
acknowledged (`Snd.Due`), however often it is sent. `tcp_input` takes it to be acknowledged once it
was sent and `snd_una` is `snd_nxt`. That is so too when a timeout took `snd_nxt` back and nothing
could be sent again, and then any segment at all is believed (`close_unheard`). `close_believed` is
for the runs in which a segment that meets `snd_nxt` finds it past the FIN.

Runs start at the SYN: `close()` in SYN_RECEIVED has a FIN to send as well. `ip_output` neither
sleeps in ARP nor has `tcp_input` entered again (see `Wire`).
-/

namespace Sage040.Tcp

open SeqNum (gt le ge off)

namespace Snd

variable {s s' : Snd} {w w' : Wire} {c : AckCtx} {f : SeqNum}

/-! ## Where the FIN is -/

/-- A FIN was sent, and with no other number than `f`. -/
structure FinAt (w : Wire) (f : SeqNum) : Prop where
  sent : ∃ o ∈ w.out, o.flags.fin = true
  seq : ∀ o ∈ w.out, o.flags.fin = true → o.seq = f

/-- The FIN has the number after the last byte, and is not acknowledged. -/
def Due (w : Wire) (s : Snd) : Prop := FinAt w (s.una + BitVec.ofNat 32 s.len)

/-- The FIN was the last thing that was acknowledged. -/
structure Done (w : Wire) (s : Snd) : Prop where
  fin : FinAt w (s.una - 1)
  nxt : s.nxt = s.una
  len : s.len = 0

structure Ends (w : Wire) (s : Snd) : Prop where
  ring : s.buf.Ok sndbufSize
  inflight : s.inflight ≤ s.len + 1
  unsent : s.finSent = false → ∀ o ∈ w.out, o.flags.fin = false
  sent : s.finSent = true → s.Due w ∨ s.Done w

lemma FinAt.grows (h : FinAt w f) (hg : Tcb.Grows w w') : FinAt w' f := by
  obtain ⟨o, ho, hfin⟩ := h.sent
  exact ⟨⟨o, hg.kept o ho, hfin⟩, fun x hx hxfin => h.seq x (hg.fins x hx hxfin) hxfin⟩

structure Still (s s' : Snd) : Prop where
  una : s'.una = s.una
  nxt : s'.nxt = s.nxt
  buf : s'.buf = s.buf
  finSent : s'.finSent = s.finSent

lemma Same.still (h : Same s s') : Still s s' := ⟨h.una, h.nxt, h.buf, h.finSent⟩

lemma Resent.still (h : Resent s s') : Still s s' := ⟨h.una, h.nxt, h.buf, h.finSent⟩

lemma Still.trans {s1 : Snd} (h : Still s s') (h' : Still s' s1) : Still s s1 :=
  ⟨h'.una.trans h.una, h'.nxt.trans h.nxt, h'.buf.trans h.buf, h'.finSent.trans h.finSent⟩

lemma Still.inflight (h : Still s s') : s'.inflight = s.inflight := by
  rw [Snd.inflight, Snd.inflight, h.una, h.nxt]

lemma Due.of_still (h : s.Due w) (hs : Still s s') (hg : Tcb.Grows w w') : s'.Due w' := by
  rw [Due, hs.una, len, hs.buf]
  exact FinAt.grows h hg

lemma Ends.of_still (h : Ends w s) (hs : Still s s') (hg : Tcb.Grows w w') : Ends w' s' := by
  refine ⟨?_, ?_, fun hfin o ho => ?_, fun hfin => ?_⟩
  · rw [hs.buf]
    exact h.ring
  · rw [hs.inflight, len, hs.buf]
    exact h.inflight
  · rw [hs.finSent] at hfin
    by_contra hne
    rw [Bool.not_eq_false] at hne
    rw [h.unsent hfin o (hg.fins o ho hne)] at hne
    cases hne
  rw [hs.finSent] at hfin
  rcases h.sent hfin with hdue | hdone
  · exact .inl (hdue.of_still hs hg)
  refine .inr ⟨?_, ?_, ?_⟩
  · rw [hs.una]
    exact hdone.fin.grows hg
  · rw [hs.una, hs.nxt]
    exact hdone.nxt
  · rw [len, hs.buf]
    exact hdone.len

/-! ## Sending -/

lemma sendRange_grows (st : Stamp) (s w) (seq : SeqNum) (n : Nat) :
    Tcb.Grows w (sendRange st s w seq n).2.1 := Tcb.grows_put w rfl

lemma gt_sackedUntil (s : Snd) (seq : SeqNum) (hne : s.sackedUntil seq ≠ seq) :
    gt (s.sackedUntil seq) seq = true := by
  rw [sackedUntil] at hne ⊢
  split
  · rename_i hr
    have := List.find?_some hr
    rw [Bool.and_eq_true] at this
    exact this.2
  · rename_i hr
    rw [hr] at hne
    exact absurd rfl hne

lemma inflight_eq_off (s : Snd) : s.inflight = off s.una s.nxt := rfl

lemma nxt_of_inflight {n : Nat} (h : s.inflight = n) : s.nxt = s.una + BitVec.ofNat 32 n := by
  rw [← h]
  exact (SeqNum.add_off s.una s.nxt).symm

/-- A range that was SACKed is passed over, as far as the ring goes. -/
lemma skip_le {skip : SeqNum} (hlen : s.len < 2 ^ 31) (hroom : s.inflight < s.len)
    (hskip : gt skip s.nxt = true) :
    s.inflight ≤ off s.una (if gt skip (s.una + BitVec.ofNat 32 s.len) then s.una +
    BitVec.ofNat 32 s.len else skip) ∧
      off s.una (if gt skip (s.una + BitVec.ofNat 32 s.len) then s.una + BitVec.ofNat 32 s.len else
      skip) ≤ s.len := by
  have htop : off s.una (s.una + BitVec.ofNat 32 s.len) = s.len := SeqNum.off_base_add (by omega)
  split
  · rw [htop]
    exact ⟨Nat.le_of_lt hroom, Nat.le_refl _⟩
  have hL : (BitVec.ofNat 32 s.len).toNat = s.len := by
    rw [BitVec.toNat_ofNat, Nat.mod_eq_of_lt (by omega)]
  generalize s.len = len at *
  generalize BitVec.ofNat 32 len = L at *
  subst hL
  simp only [gt, off, Snd.inflight, decide_eq_true_eq] at *
  bv_omega

/-- How far the loop of `send_data` gets: no further than the ring. -/
lemma sendLoop_nxt (st : Stamp) (tsOk : Bool) (fuel : Nat) (s : Snd) (w)
    (hlen : s.len ≤ sndbufSize) : s.inflight ≤ (sendLoop st tsOk fuel s w).1.inflight ∧
      (sendLoop st tsOk fuel s w).1.inflight ≤ max s.inflight s.len ∧
      Tcb.Grows w (sendLoop st tsOk fuel s w).2 := by
  have hcap : sndbufSize = 65536 := rfl
  suffices h : (sendLoop st tsOk fuel s w).1.len = s.len ∧
    s.inflight ≤ (sendLoop st tsOk fuel s w).1.inflight ∧
      (sendLoop st tsOk fuel s w).1.inflight ≤ max s.inflight s.len ∧
        Tcb.Grows w (sendLoop st tsOk fuel s w).2 from h.2
  refine sendLoop_rule st tsOk (I := fun s' w' => s'.len = s.len ∧ s.inflight ≤ s'.inflight ∧
    s'.inflight ≤ max s.inflight s.len ∧ Tcb.Grows w w') fuel ?_ ?_ ?_
    ⟨rfl, Nat.le_refl _, Nat.le_max_left _ _, Tcb.Grows.refl w⟩
  · rintro s' w' nxt ⟨hs, hge, -, hgrows⟩ ⟨hroom, hskip, rfl⟩
    have hgo := skip_le (by omega) hroom (gt_sackedUntil s' s'.nxt hskip)
    exact ⟨hs, Nat.le_trans hge hgo.1, Nat.le_trans hgo.2 (hs ▸ Nat.le_max_right _ _), hgrows⟩
  · rintro s' w' n ⟨hs, hge, hle, hgrows⟩ -
    exact ⟨hs, hge, hle, hgrows.trans (sendRange_grows st s' w' s'.nxt n)⟩
  · rintro s' w' n ⟨hs, hge, -, hgrows⟩ ⟨-, hfit, -⟩
    have hbound : off s'.una s'.nxt + n < 2 ^ 32 := by
      rw [← inflight_eq_off]
      omega
    have hgo : (Snd.sent (sendRange st s' w' s'.nxt n).1 tsOk (sendRange st s' w' s'.nxt n).2.1
      n).inflight =
        s'.inflight + n := SeqNum.off_add hbound
    exact ⟨hs, hgo ▸ Nat.le_trans hge (Nat.le_add_right _ _),
      hgo ▸ Nat.le_trans hfit (hs ▸ Nat.le_max_right _ _),
      hgrows.trans (sendRange_grows st s' w' s'.nxt n)⟩

/-- What the FIN's sending did: nothing, or the FIN is at the end of the ring. -/
lemma sendFin_cases (st : Stamp) (s w) : ((sendFin st s w).1 = s ∧ Tcb.Grows w (sendFin st s w).2) ∨
      (s.inflight = s.len ∧ (sendFin st s w).1.nxt = s.nxt + 1 ∧ (sendFin st s w).1.finSent = true ∧
        ∃ o, o.seq = s.nxt ∧ o.flags.fin = true ∧ (sendFin st s w).2.out = o :: w.out) := by
  rw [sendFin]
  split
  · rename_i hfin
    generalize hx : (⟨s.nxt, { ack := true, fin := true }, [], st.ack, st.window,
      s.acked + s.inflight⟩ : Out) = x
    rw [Wire.put]
    split
    · rename_i hput
      split at hput
      · cases hput
        exact .inr ⟨hfin.2, rfl, rfl, x, by rw [← hx], by rw [← hx], rfl⟩
      · cases hput
    rename_i hput
    split at hput
    · cases hput
    cases hput
    exact .inl ⟨rfl, fun _ ho => ho, fun _ ho _ => ho⟩
  · exact .inl ⟨rfl, Tcb.Grows.refl w⟩

/-- `send_data` leaves the FIN where it is, or sends it there. -/
lemma Ends.sendData (h : Ends w s) (hdue : s.finSent = true → s.Due w) (st : Stamp) (tsOk : Bool) :
    Ends (sendData st tsOk s w).2 (sendData st tsOk s w).1 ∧
    ((sendData st tsOk s w).1.finSent = true →
        (sendData st tsOk s w).1.Due (sendData st tsOk s w).2) ∧
        s.inflight ≤ (sendData st tsOk s w).1.inflight := by
  obtain ⟨hholds, hsent, -⟩ := sendLoop_holds st tsOk s.len s w
  obtain ⟨hge, hle, hgrows⟩ := sendLoop_nxt st tsOk s.len s w h.ring.count
  have hinf := h.inflight
  have hfinholds := (sendFin_holds st (sendLoop st tsOk s.len s w).1
    (sendLoop st tsOk s.len s w).2).1
  have hcases := sendFin_cases st (sendLoop st tsOk s.len s w).1 (sendLoop st tsOk s.len s w).2
  rw [Snd.sendData]
  generalize sendLoop st tsOk s.len s w = r at hholds hsent hge hle hgrows hfinholds hcases ⊢
  obtain ⟨s1, w1⟩ := r
  dsimp only at hholds hsent hge hle hgrows hfinholds hcases ⊢
  have hlen : s1.len = s.len := by rw [len, len, hholds.buf]
  have hdue1 : s1.finSent = true → s1.Due w1 := fun hfin => by
    rw [Due, hholds.una, hlen]
    exact FinAt.grows (hdue (hsent ▸ hfin)) hgrows
  have hends1 : Ends w1 s1 := by
    refine ⟨?_, by omega, fun hfin o ho => ?_, fun hfin => .inl (hdue1 hfin)⟩
    · rw [hholds.buf]
      exact h.ring
    by_contra hne
    rw [Bool.not_eq_false] at hne
    rw [h.unsent (hsent ▸ hfin) o (hgrows.fins o ho hne)] at hne
    cases hne
  rcases hcases with ⟨heq, hgrows'⟩ | ⟨hall, hnxt, hfin, o, hseq, hofin, hout⟩
  · rw [heq]
    refine ⟨hends1.of_still ⟨rfl, rfl, rfl, rfl⟩ hgrows', fun hfin => ?_, hge⟩
    exact (hdue1 hfin).of_still ⟨rfl, rfl, rfl, rfl⟩ hgrows'
  have hend : s1.nxt = s1.una + BitVec.ofNat 32 s1.len := nxt_of_inflight hall
  generalize (Snd.sendFin st s1 w1).1 = s2 at *
  generalize (Snd.sendFin st s1 w1).2 = w2 at *
  have hlen2 : s2.len = s1.len := by rw [len, len, hfinholds.buf]
  have hinf2 : s2.inflight = s1.inflight + 1 := by
    rw [inflight_eq_off, hfinholds.una, hnxt]
    refine SeqNum.off_add (n := 1) ?_
    rw [← inflight_eq_off]
    have hcount : s1.len ≤ 65536 := hends1.ring.count
    omega
  have hdue2 : s2.Due w2 := by
    rw [Due, hfinholds.una, hlen2, ← hend]
    refine ⟨⟨o, by rw [hout]; exact List.mem_cons_self, hofin⟩, fun x hx hxfin => ?_⟩
    rw [hout] at hx
    rcases List.mem_cons.1 hx with rfl | hx
    · exact hseq
    -- an earlier one has the same number
    rcases Bool.eq_false_or_eq_true s1.finSent with hsent1 | hunsent1
    · rw [(hdue1 hsent1).seq x hx hxfin, hend]
    rw [hends1.unsent hunsent1 x hx] at hxfin
    cases hxfin
  refine ⟨⟨?_, by omega, fun hunsent => ?_, fun _ => .inl hdue2⟩, fun _ => hdue2, by omega⟩
  · rw [hfinholds.buf]
    exact hends1.ring
  · rw [hfin] at hunsent
    cases hunsent

/-! ## Being acknowledged -/

lemma sackRexmitHole_grows (st : Stamp) (s w) : Tcb.Grows w (sackRexmitHole st s w).2.1 := by
  rw [sackRexmitHole]
  split
  · exact Tcb.Grows.refl w
  dsimp only
  split
  · exact Tcb.Grows.refl w
  · split <;> exact sendRange_grows _ _ _ _ _

lemma holeIf_grows (c s w) : Tcb.Grows w (holeIf c s w).2.1 := by
  rw [holeIf]
  split
  · exact sackRexmitHole_grows c.stamp s w
  · exact Tcb.Grows.refl w

/-- What `ack_sent_data` does for an acknowledgement of something new. -/
structure Released (s s' : Snd) (ack : SeqNum) : Prop where
  una : s'.una = ack
  nxt : s'.nxt = s.nxt
  buf : s'.buf = s.buf.advance sndbufSize (min (off s.una ack) s.len)
  finSent : s'.finSent = s.finSent

lemma newAck_released (c s w) : Released s (newAck c s w).1 c.ack ∧
    Tcb.Grows w (newAck c s w).2 := by
  have hopen : Still s ((({ s with dupacks := 0 } : Snd).measure c w).openWindow c) := by
    have hm := measure_same c { s with dupacks := 0 } w
    have ho := openWindow_same c (({ s with dupacks := 0 } : Snd).measure c w)
    exact ⟨ho.una.trans hm.una, ho.nxt.trans hm.nxt, ho.buf.trans hm.buf,
      ho.finSent.trans hm.finSent⟩
  rw [newAck]
  generalize (({ s with dupacks := 0 } : Snd).measure c w).openWindow c = s1 at hopen ⊢
  have hrel : Released s (s1.release c.ack) c.ack := by
    refine ⟨rfl, hopen.nxt, ?_, hopen.finSent⟩
    rw [release, off, ← hopen.una, ← hopen.buf, len, hopen.buf]
  have hhole := holeIf_resent c (s1.release c.ack) w
  have hgrows := holeIf_grows c (s1.release c.ack) w
  generalize s1.release c.ack = s2 at hrel hhole hgrows ⊢
  split
  · exact ⟨⟨hhole.una.trans hrel.una, hhole.nxt.trans hrel.nxt, hhole.buf.trans hrel.buf,
      hhole.finSent.trans hrel.finSent⟩, hgrows⟩
  · exact ⟨⟨hrel.una, hrel.nxt, hrel.buf, hrel.finSent⟩, Tcb.Grows.refl w⟩

/-- The FIN is acknowledged with the last of what was sent, and not before. -/
lemma Ends.released {ack : SeqNum} (h : Ends w s) (hs : Released s s' ack) (hg : Tcb.Grows w w')
    (hpos : 0 < off s.una ack) (hle : off s.una ack ≤ s.inflight) : Ends w' s' := by
  have hcount : s.len ≤ 65536 := h.ring.count
  have hinf := h.inflight
  have hlen : s'.len = s.len - min (off s.una ack) s.len := by rw [len, hs.buf, RingBuffer.advance]
  have hinf' : s'.inflight = s.inflight - off s.una ack := by
    rw [inflight_eq_off, hs.una, hs.nxt]
    exact SeqNum.off_rebase hle
  refine ⟨?_, by omega, fun hfin o ho => ?_, fun hfin => ?_⟩
  · rw [hs.buf]
    exact h.ring.advance _
  · by_contra hne
    rw [Bool.not_eq_false] at hne
    rw [h.unsent (hs.finSent ▸ hfin) o (hg.fins o ho hne)] at hne
    cases hne
  rcases h.sent (hs.finSent ▸ hfin) with hdue | hdone
  · rcases Nat.lt_or_ge s.len (off s.una ack) with hall | hpart
    · -- the FIN's number is the last that is acknowledged
      have hone : off s.una ack = s.len + 1 := by omega
      refine .inr ⟨?_, ?_, by omega⟩
      · rw [hs.una, SeqNum.pred_of_off hone]
        exact FinAt.grows hdue hg
      · exact SeqNum.off_eq_zero.1 (by rw [← inflight_eq_off]; omega)
    refine .inl ?_
    have hrest : s'.una + BitVec.ofNat 32 s'.len = s.una + BitVec.ofNat 32 s.len := by
      rw [hs.una, hlen, Nat.min_eq_left hpart]
      exact SeqNum.add_sub_off hpart
    rw [Due, hrest]
    exact FinAt.grows hdue hg
  · have hzero : s.inflight = 0 := SeqNum.off_eq_zero.2 hdone.nxt
    omega

lemma Ends.dupAck (h : Ends w s) (c) : Ends (dupAck c s w).2 (dupAck c s w).1 ∧
    (dupAck c s w).1.una = s.una ∧
      s.inflight ≤ (dupAck c s w).1.inflight := by
  have hstays : ∀ s1 w1, Still s s1 → Tcb.Grows w w1 →
      Ends w1 s1 ∧ s1.una = s.una ∧ s.inflight ≤ s1.inflight := fun s1 w1 hs hgrows =>
    ⟨h.of_still hs hgrows, hs.una, Nat.le_of_eq hs.inflight.symm⟩
  refine dupAck_rule (P := fun s1 w1 => s.nxt ≠ s.una ∧ Still s s1 ∧ Tcb.Grows w w1)
    (Q := fun s1 w1 => Ends w1 s1 ∧ s1.una = s.una ∧ s.inflight ≤ s1.inflight)
    (fun s1 w1 hs => hstays s1 w1 hs.2.1 hs.2.2) ⟨h, rfl, Nat.le_refl _⟩ (fun hne => ?_)
    (fun s1 w1 ⟨hne, hs, hgrows⟩ => ?_) (fun s1 w1 ⟨_, hs, hgrows⟩ => ?_) fun s1 w1 ⟨hne, hs,
      hgrows⟩ => ?_
  · have hcount : Still s { s with dupacks := (s.dupacks + 1) % 2 ^ 32 } := ⟨rfl, rfl, rfl, rfl⟩
    exact ⟨⟨hne, hcount, .refl w⟩, ⟨hne, hcount.trans (enterRecovery_same _).still, .refl w⟩,
      ⟨hne, ⟨rfl, rfl, rfl, rfl⟩, .refl w⟩⟩
  · exact ⟨hne, hs.trans (holeIf_resent c s1 w1).still, hgrows.trans (holeIf_grows c s1 w1)⟩
  · exact hstays _ _ ⟨hs.una, hs.nxt, hs.buf, hs.finSent⟩ (hgrows.trans (sendRange_grows _ _ _ _ _))
  · obtain ⟨hends, huna, hle⟩ := hstays s1 w1 hs hgrows
    have hdue : s.finSent = true → s.Due w := fun hfin =>
      (h.sent hfin).resolve_right fun hdone => hne hdone.nxt
    obtain ⟨hends', -, hge⟩ := hends.sendData
      (fun hfin => (hdue (hs.finSent ▸ hfin)).of_still hs hgrows) c.stamp c.tsOk
    exact ⟨hends', (sendData_holds c.stamp c.tsOk s1 w1).1.una.trans huna, Nat.le_trans hle hge⟩

/-- **`ack_sent_data` leaves the FIN where it is**; and when it leaves nothing in flight after a
FIN, the acknowledgement was that of `snd_nxt`. -/
lemma Ends.ackSentData (h : Ends w s) (c) (hack : gt c.ack s.una = true →
    off s.una c.ack ≤ s.inflight) :
    Ends (ackSentData c s w).2 (ackSentData c s w).1 ∧
      ((ackSentData c s w).1.finSent = true → (ackSentData c s w).1.una =
      (ackSentData c s w).1.nxt →
        s.finSent = true ∧ (if gt c.ack s.una then c.ack else s.una) = s.nxt ∧
          (gt c.ack s.una = true → (ackSentData c s w).1.len = s.len - off s.una c.ack)) := by
  obtain ⟨rs, hrs⟩ := scoreboard_frame c.sackOk (c.opts.sack.take 4) s
  have hadd : Still s { s with sacked := rs } := ⟨rfl, rfl, rfl, rfl⟩
  rw [Snd.ackSentData, hrs]
  generalize ({ s with sacked := rs } : Snd) = s1 at hadd ⊢
  have h1 := h.of_still hadd (Tcb.Grows.refl w)
  have hlen : s1.len = s.len := by rw [len, len, hadd.buf]
  rw [← hadd.una, ← hadd.inflight] at hack
  rw [← hadd.una, ← hadd.nxt, ← hadd.finSent, ← hlen]
  split
  · rename_i hgt
    rw [Bool.not_eq_true'] at hgt
    obtain ⟨hends, huna, hge⟩ := h1.dupAck c
    refine ⟨hends, fun hfin heq => ?_⟩
    have hzero : s1.inflight = 0 := by
      have : (Snd.dupAck c s1 w).1.inflight = 0 := SeqNum.off_eq_zero.2 heq.symm
      omega
    rw [dupAck_idle (SeqNum.off_eq_zero.1 hzero)] at hfin heq
    rw [hgt]
    exact ⟨hfin, heq, fun habs => by cases habs⟩
  rename_i hgt
  rw [Bool.not_eq_true', Bool.not_eq_false] at hgt
  obtain ⟨hrel, hgrows⟩ := newAck_released c s1 w
  refine ⟨h1.released hrel hgrows (SeqNum.gt_base_iff.1 hgt).1 (hack hgt), fun hfin heq => ?_⟩
  rw [hrel.una, hrel.nxt] at heq
  rw [if_pos hgt, ← hrel.finSent]
  refine ⟨hfin, heq, fun _ => ?_⟩
  rw [len, hrel.buf, RingBuffer.advance]
  show s1.len - min (off s1.una c.ack) s1.len = _
  omega

end Snd

/-! ## A connection -/

def State.unclosed : State → Bool
  | .synSent | .synReceived | .established | .closeWait => true
  | _ => false

namespace Tcb

variable {t t' : Tcb} {g : Seg}

structure Ending (t : Tcb) : Prop where
  ends : t.snd.Ends t.wire
  due : t.state.sends = true → t.snd.finSent = true → t.snd.Due t.wire
  unclosed : t.state.unclosed = true → t.snd.Unclosed
  opened : t.state ≠ .listen

lemma Ending.of_still (h : Ending t) (hs : Snd.Still t.snd t'.snd)
    (hpending : t'.snd.finPending = t.snd.finPending) (hstate : t'.state = t.state)
    (hgrows : Grows t.wire t'.wire) : Ending t' := by
  refine ⟨h.ends.of_still hs hgrows, fun hsends hfin => ?_, fun hun => ?_, ?_⟩
  · rw [hstate] at hsends
    rw [hs.finSent] at hfin
    exact (h.due hsends hfin).of_still hs hgrows
  · rw [hstate] at hun
    exact ⟨hs.finSent.trans (h.unclosed hun).1, hpending.trans (h.unclosed hun).2⟩
  · rw [hstate]
    exact h.opened

lemma Ending.of_quiet (h : Ending t) (hq : Quiet t t') : Ending t' := by
  refine h.of_still ?_ ?_ hq.state hq.grows <;> rw [hq.snd]
  exact ⟨rfl, rfl, rfl, rfl⟩

lemma Ending.sendData (h : Ending t) : Ending t.sendData := by
  rw [Tcb.sendData]
  split
  · rename_i hsends
    obtain ⟨hends, hdue, -⟩ := h.ends.sendData (h.due hsends) t.stamp t.tsOk
    exact ⟨hends, fun _ => hdue, fun hun => (Snd.sendData_holds t.stamp t.tsOk t.snd t.wire).2
      (h.unclosed hun),
      h.opened⟩
  · exact h

/-- A state that does not send, with the send side as it was. -/
lemma ending_of_state (hends : t.snd.Ends t.wire) (hsends : t.state.sends = false)
    (hun : t.state.unclosed = false) (hop : t.state ≠ .listen) : Ending t :=
  ⟨hends, fun h => absurd (hsends.symm.trans h) (by decide),
    fun h => absurd (hun.symm.trans h) (by decide), hop⟩

/-- The acknowledgement of our own FIN leaves the states that wait for it. -/
lemma onFinAcked_ending (hends : t.snd.Ends t.wire) (hun : t.state.unclosed = true → t.snd.Unclosed)
    (hop : t.state ≠ .listen) : Ending t.onFinAcked := by
  obtain ⟨hsnd, hwire, -, hstate⟩ := onFinAcked_spec t
  have hends' : t.onFinAcked.snd.Ends t.onFinAcked.wire := by
    rw [hsnd, hwire]
    exact hends
  split at hstate
  · rename_i hfin
    have hnot : t.state.unclosed = false := by
      by_contra h
      rw [Bool.not_eq_false] at h
      rw [(hun h).1] at hfin
      exact absurd hfin.1 (by decide)
    rw [afterFinAcked] at hstate
    refine ending_of_state hends' ?_ ?_ ?_ <;> rw [hstate] <;> revert hnot hop <;>
      cases t.state <;> first | decide | (cases t.rcv.finRcvd <;> decide)
  rename_i hne
  refine ⟨hends', fun _ hfin => ?_, fun h => ?_, ?_⟩
  · rw [hsnd] at hfin
    rw [hsnd, hwire]
    exact (hends.sent hfin).resolve_right fun hdone => hne ⟨hfin, hdone.nxt.symm⟩
  · rw [hstate] at h
    rw [hsnd]
    exact hun h
  · rw [hstate]
    exact hop

lemma afterFin_unclosed (st : State) : (afterFin st).unclosed = st.unclosed := by
  cases st <;> rfl

/-- Our own FIN's acknowledgement changes no state that does not wait for it. -/
lemma afterFinAcked_cases (t : Tcb) : t.afterFinAcked = t.state ∨ (t.state.awaitsFinAck = true ∧
    t.afterFinAcked ∈ [State.finWait2, .timeWait, .closed]) := by
  rw [afterFinAcked]
  cases t.state <;> first | exact .inl rfl | (cases t.rcv.finRcvd <;> exact .inr (by decide))

/-- Where a segment can lead, through the peer's FIN and the acknowledgement of ours. -/
lemma states_after {st st2 st3 : State} (h2 : st2 = st ∨ st2 = afterFin st)
    (h3 : st3 = st2 ∨ st3 ∈ [State.finWait2, .timeWait, .closed]) :
    (st ≠ .synSent ∧ st ≠ .synReceived → st3 ≠ .synSent ∧ st3 ≠ .synReceived) ∧
      (st3.unclosed = true → st.unclosed = true) ∧ (st ≠ .listen → st3 ≠ .listen) ∧
      (st3.sends = true → st.sends = true) := by
  rcases h3 with rfl | h3
  · rcases h2 with rfl | rfl
    · exact ⟨id, id, id, id⟩
    · cases st <;> decide
  · revert h3
    cases st3 <;> cases st <;> decide

lemma afterAck_ending (hends : t.snd.Ends t.wire) (hun : t.state.unclosed = true → t.snd.Unclosed)
    (hop : t.state ≠ .listen) : Ending (t.afterAck g) := by
  have hdata := onData_quiet t g
  obtain ⟨hsnd, hstate, hgrows⟩ := onFin_spec (t.onData g) g
  rw [afterAck]
  refine Ending.sendData (onFinAcked_ending ?_ (fun h => ?_) ?_)
  · rw [hsnd, hdata.snd]
    exact hends.of_still ⟨rfl, rfl, rfl, rfl⟩ (hdata.grows.trans hgrows)
  · rw [hsnd, hdata.snd]
    rcases hstate with hst | hst <;> rw [hst, hdata.state] at h
    · exact hun h
    rw [afterFin_unclosed] at h
    exact hun h
  · rcases hstate with hst | hst <;> rw [hst, hdata.state]
    · exact hop
    revert hop
    cases t.state <;> decide

lemma sendData_buf (t : Tcb) : t.sendData.snd.buf = t.snd.buf := by
  rw [sendData]
  split
  · exact (Snd.sendData_holds t.stamp t.tsOk t.snd t.wire).1.buf
  · rfl

lemma afterAck_buf (t : Tcb) (g) : (t.afterAck g).snd.buf = t.snd.buf := by
  rw [afterAck, sendData_buf, (onFinAcked_spec _).1, (onFin_spec _ g).1, (onData_quiet t g).snd]

/-- A connection goes from `st` to `st'` as it does when its FIN is acknowledged. -/
def Leaves (st st' : State) : Prop :=
  (st ≠ .finWait2 ∧ st' = .finWait2) ∨ ((st = .finWait1 ∨ st = .closing) ∧ st' = .timeWait) ∨
    (st = .lastAck ∧ st' = .closed)
  deriving Decidable

lemma sendData_state (t : Tcb) : t.sendData.state = t.state := by
  rw [sendData]
  split <;> rfl

lemma afterAck_states (t : Tcb) (g) : (t.afterAck g).state = t.state ∨
    (t.afterAck g).state ∈ [State.closeWait, .closing, .finWait2, .timeWait, .closed] := by
  obtain ⟨-, hfin, -⟩ := onFin_spec (t.onData g) g
  obtain ⟨-, -, -, hacked⟩ := onFinAcked_spec ((t.onData g).onFin g)
  have hpeer : ((t.onData g).onFin g).state = t.state ∨
      ((t.onData g).onFin g).state ∈ [State.closeWait, .closing, .finWait2, .timeWait, .closed] :=
          by
    rw [(onData_quiet t g).state] at hfin
    rcases hfin with hst | hst <;> rw [hst]
    · exact .inl rfl
    · cases t.state <;> decide
  rw [afterAck, sendData_state, hacked]
  split
  · rcases afterFinAcked_cases ((t.onData g).onFin g) with hst | ⟨-, hst⟩
    · rwa [hst]
    · exact .inr (List.mem_cons_of_mem _ (List.mem_cons_of_mem _ hst))
  · exact hpeer

lemma afterAck_leaves (h : Leaves t.state (t.afterAck g).state) :
    t.snd.finSent = true ∧ t.snd.una = t.snd.nxt ∧ t.state.awaitsFinAck = true := by
  have hdata := onData_quiet t g
  obtain ⟨hsnd, hstate, -⟩ := onFin_spec (t.onData g) g
  obtain ⟨-, -, -, hstate'⟩ := onFinAcked_spec ((t.onData g).onFin g)
  rw [hdata.snd] at hsnd
  rw [hdata.state] at hstate
  rw [afterAck, sendData_state, hstate'] at h
  generalize (t.onData g).onFin g = t2 at hsnd hstate h
  rw [hsnd] at h
  split at h
  · rename_i hfin
    refine ⟨hfin.1, hfin.2, ?_⟩
    rw [afterFinAcked] at h
    revert h
    rcases hstate with hst | hst <;> rw [hst] <;> cases t.state <;> cases t2.rcv.finRcvd <;> decide
  · exfalso
    revert h
    rcases hstate with hst | hst <;> rw [hst] <;> cases t.state <;> decide

/-- With the acknowledgement, `snd_una` would be `snd_nxt` only if that is past the FIN. -/
def Awaited (t : Tcb) (g : Seg) : Prop :=
  t.snd.finSent = true → t.state.awaitsFinAck = true →
    (if gt g.ack t.snd.una then g.ack else t.snd.una) = t.snd.nxt → t.snd.inflight = t.snd.len + 1
  deriving Decidable

/-- What has to be so for a close to be believed: the segment acknowledges the FIN, and so
everything before it. -/
def Heard (t : Tcb) (g : Seg) (t' : Tcb) : Prop :=
  g.flags.ack = true ∧ (∃ f, Snd.FinAt t.wire f ∧ g.ack = f + 1) ∧ t'.snd.len = 0

lemma agreeOpts_quiet (t) (o : Opts) (ws ts sack : Bool) : Quiet t (t.agreeOpts o ws ts sack) :=
  ⟨rfl, rfl, rfl, Grows.refl _⟩

lemma noteTs_wire (t : Tcb) (g) : (t.noteTs g).wire = t.wire := by
  rw [noteTs]
  split <;> rfl

variable (h : Ending t)

include h

/-- **A segment that is taken**: the close is believed only if the FIN is acknowledged. -/
lemma Ending.accepted (htimely : Session.Timely t g) (hawaited : Awaited t g)
    (hsyn : t.state ≠ .synReceived) :
    Ending (t.onAccepted g) ∧ (Leaves t.state (t.onAccepted g).state →
      (∃ f, Snd.FinAt t.wire f ∧ g.ack = f + 1) ∧ (t.onAccepted g).snd.len = 0) := by
  rw [onAccepted, if_neg hsyn]
  obtain ⟨hends, hacked⟩ := h.ends.ackSentData
    ⟨t.stamp, t.state.sends, t.tsOk, t.sackOk, g.ack, g.data.length, t.windowOf g, g.opts⟩ htimely
  refine ⟨afterAck_ending hends (fun hun => Snd.Unclosed.ackSentData (h.unclosed hun)) h.opened,
    fun hleaves => ?_⟩
  obtain ⟨hfin, hnxt, hawaits⟩ := afterAck_leaves (t := t.ackSentData g) (g := g) hleaves
  obtain ⟨hfin0, heff, hlen⟩ := hacked hfin hnxt
  have hall := hawaited hfin0 hawaits heff
  -- what is in flight is not acknowledged yet, so the segment acknowledges it
  have hgt : gt g.ack t.snd.una = true := by
    by_contra hle
    rw [if_neg hle] at heff
    have hzero : t.snd.inflight = 0 := SeqNum.off_eq_zero.2 heff.symm
    omega
  have hmeets : g.ack = t.snd.nxt := (if_pos hgt).symm.trans heff
  have hack : off t.snd.una g.ack = t.snd.len + 1 := by rw [hmeets, ← Snd.inflight_eq_off, hall]
  have hdue : t.snd.Due t.wire := (h.ends.sent hfin0).resolve_right fun hdone => by
    have hzero : t.snd.inflight = 0 := SeqNum.off_eq_zero.2 hdone.nxt
    omega
  refine ⟨⟨_, hdue, ?_⟩, ?_⟩
  · rw [← SeqNum.pred_of_off hack, BitVec.sub_add_cancel]
  rw [Snd.len, afterAck_buf]
  have hleft : (t.ackSentData g).snd.buf.count = t.snd.len - off t.snd.una g.ack := hlen hgt
  omega

/-- Our SYN is acknowledged: nothing is in flight, and no FIN was sent. -/
lemma Ending.established (hun : t.state.unclosed = true) (hbuf : t'.snd.buf = t.snd.buf)
    (hnxt : t'.snd.nxt = t'.snd.una) (hfins : t'.snd.Unclosed) (hwire : t'.wire = t.wire)
    (hst : t'.state = .established) : Ending t' := by
  have hnone : t'.snd.finSent = false := hfins.1
  refine ⟨⟨?_, ?_, fun _ => ?_, fun hfin => ?_⟩, fun _ hfin => ?_, fun _ => hfins, ?_⟩
  · rw [hbuf]
    exact h.ends.ring
  · have hzero : t'.snd.inflight = 0 := SeqNum.off_eq_zero.2 hnxt
    omega
  · rw [hwire]
    exact h.ends.unsent (h.unclosed hun).1
  iterate 2
    · rw [hnone] at hfin
      cases hfin
  · rw [hst]
    decide

/-- The answer to our SYN leaves no state that waits for a FIN's acknowledgement. -/
lemma Ending.onSynSent (hsyn : t.state = .synSent) (g) (ws ts sack : Bool) :
    Ending (t.onSynSent g ws ts sack) ∧ ¬ Leaves t.state (t.onSynSent g ws ts sack).state := by
  have hun : t.state.unclosed = true := by rw [hsyn]; rfl
  have hself : ¬ Leaves t.state t.state := by rw [hsyn]; decide
  rw [Tcb.onSynSent]
  split
  · exact ⟨h, hself⟩
  split
  · split
    · exact ⟨h, hself⟩
    rename_i hack
    rw [not_not] at hack
    refine ⟨Ending.of_quiet (Ending.of_quiet ?_ (agreeOpts_quiet _ g.opts ws ts sack))
      (sendAck_quiet _), ?_⟩
    · exact h.established hun rfl hack.symm (h.unclosed hun) rfl rfl
    rw [hsyn]
    show ¬ Leaves .synSent .established
    decide
  · refine ⟨Ending.of_quiet (Ending.of_quiet ?_ (agreeOpts_quiet _ g.opts ws ts sack))
      (sendEmpty_quiet _ _ _ rfl), ?_⟩
    · exact ⟨h.ends, nofun, fun _ => h.unclosed hun, nofun⟩
    rw [hsyn]
    show ¬ Leaves .synSent .synReceived
    decide

lemma Ending.onAccepted (htimely : Session.Timely t g) (hawaited : Awaited t g) :
    Ending (t.onAccepted g) ∧ (Leaves t.state (t.onAccepted g).state →
      (∃ f, Snd.FinAt t.wire f ∧ g.ack = f + 1) ∧ (t.onAccepted g).snd.len = 0) := by
  by_cases hsyn : t.state = .synReceived
  · have hun : t.state.unclosed = true := by rw [hsyn]; rfl
    have hself : ¬ Leaves t.state t.state := by rw [hsyn]; decide
    rw [Tcb.onAccepted, if_pos hsyn]
    split
    · exact ⟨h, fun hl => absurd hl hself⟩
    rename_i hack
    rw [not_not] at hack
    -- from here on it is an established connection, which has no FIN
    generalize ht' : ({ t with
      snd := { t.snd with una := g.ack, rexmitAt := 0 }
      state := .established
      pending := t.pending || t.listener.isSome } : Tcb) = t'
    have h' : Ending t' := h.established hun (by rw [← ht']) (by rw [← ht']; exact hack.symm)
      (by rw [← ht']; exact h.unclosed hun) (by rw [← ht']) (by rw [← ht'])
    have hst : t'.state = .established := by rw [← ht']
    have hnone : t'.snd.finSent = false := (h'.unclosed (by rw [hst]; rfl)).1
    have htimely' : Session.Timely t' g := by
      rw [Session.Timely, ← ht', Snd.gt_self]
      exact fun habs => absurd habs (by decide)
    have hawaited' : Awaited t' g := fun hfin => absurd (hnone.symm.trans hfin) (by decide)
    obtain ⟨hend, hheard⟩ := h'.accepted htimely' hawaited' (by rw [hst]; decide)
    rw [Tcb.onAccepted, if_neg (by rw [hst]; decide)] at hend hheard
    refine ⟨hend, fun hl => ?_⟩
    have hl' : Leaves t'.state ((t'.ackSentData g).afterAck g).state := by
      rw [hsyn] at hl
      rw [hst]
      revert hl
      cases ((t'.ackSentData g).afterAck g).state <;> decide
    obtain ⟨⟨f, hf, -⟩, -⟩ := hheard hl'
    obtain ⟨o, ho, hfin⟩ := hf.sent
    rw [h'.ends.unsent hnone o ho] at hfin
    cases hfin
  · exact h.accepted htimely hawaited hsyn

lemma Ending.input (htimely : Session.Timely t g) (hawaited : Awaited t g) (ws ts sack : Bool) :
    Ending (t.input g ws ts sack) ∧
      (g.flags.rst = false → Leaves t.state (t.input g ws ts sack).state →
      Heard t g (t.input g ws ts sack)) := by
  have hself : ¬ Leaves t.state t.state := by cases t.state <;> decide
  refine input_rule ws ts sack ⟨h, fun _ hl => absurd hl hself⟩ (fun hrst => ?_) (fun _ hsyn => ?_)
    ⟨h.of_quiet (sendAck_quiet t), fun _ hl => absurd hl hself⟩ fun _ _ hack _ => ?_
  · exact ⟨ending_of_state h.ends rfl rfl (fun h => State.noConfusion h),
      fun hno => absurd (hrst.symm.trans hno) (by decide)⟩
  · obtain ⟨hend, hnot⟩ := h.onSynSent hsyn g ws ts sack
    exact ⟨hend, fun _ hl => absurd hl hnot⟩
  have hts := noteTs_quiet t g
  have hwire : ((t.noteTs g).noteWindow g).wire = t.wire := noteTs_wire t g
  have hstate : ((t.noteTs g).noteWindow g).state = t.state := hts.state
  have h1 : Ending ((t.noteTs g).noteWindow g) :=
    (h.of_quiet hts).of_still ⟨rfl, rfl, rfl, rfl⟩ rfl rfl (Grows.refl _)
  have htimely1 : Session.Timely ((t.noteTs g).noteWindow g) g := by
    rw [Session.Timely, noteWindow, hts.snd]
    exact htimely
  have hawaited1 : Awaited ((t.noteTs g).noteWindow g) g := by
    rw [Awaited, noteWindow, hts.snd, hts.state]
    exact hawaited
  generalize (t.noteTs g).noteWindow g = t1 at h1 htimely1 hawaited1 hwire hstate ⊢
  obtain ⟨hend, hheard⟩ := h1.onAccepted htimely1 hawaited1
  rw [hstate, hwire] at hheard
  exact ⟨hend, fun _ hl => ⟨hack, hheard hl⟩⟩

/-! ### The timer -/

lemma Ending.rewind : Ending { t with snd := { t.snd with nxt := t.snd.una } } := by
  refine ⟨⟨h.ends.ring, ?_, h.ends.unsent, fun hfin => ?_⟩, h.due, h.unclosed, h.opened⟩
  · rw [Snd.inflight_eq_off]
    rw [SeqNum.off_self]
    exact Nat.zero_le _
  · rcases h.ends.sent hfin with hdue | hdone
    · exact .inl hdue
    · exact .inr ⟨hdone.fin, rfl, hdone.len⟩

lemma Ending.rexmitTick : Ending t.rexmitTick ∧
    (t.rexmitTick.state = t.state ∨ t.rexmitTick.state = .closed) := by
  rcases rexmitTick_cases t with heq | ⟨-, ⟨-, -, heq⟩ | hagain⟩
  · rw [heq]
    exact ⟨h, .inl rfl⟩
  · rw [heq]
    exact ⟨ending_of_state (h.ends.of_still ⟨rfl, rfl, rfl, rfl⟩ (Grows.refl _)) rfl rfl
      (fun h => State.noConfusion h), .inr rfl⟩
  have hback : Ending t.backedOff := by
    refine h.of_still ?_ ?_ rfl (Grows.refl _)
    · constructor <;> simp [backedOff, backOff, Snd.cwndOnLoss]
    · simp [backedOff, backOff, Snd.cwndOnLoss]
  rcases hagain with ⟨flags, hflags, heq⟩ | ⟨-, heq⟩ <;> rw [heq]
  · exact ⟨hback.of_quiet (sendEmpty_quiet _ _ _ hflags), .inl rfl⟩
  · exact ⟨hback.rewind.sendData, .inl (sendData_state _)⟩

lemma Ending.timer : Ending t.timer ∧ (t.timer.state = t.state ∨ t.timer.state = .closed) := by
  have hclosed : ∀ {t' : Tcb}, t'.snd = t.snd → t'.wire = t.wire → t'.state = .closed →
      Ending t' ∧ (t'.state = t.state ∨ t'.state = .closed) := fun hsnd hwire hst =>
    ⟨ending_of_state (by rw [hsnd, hwire]; exact h.ends) (by rw [hst]; rfl) (by rw [hst]; rfl)
      (by rw [hst]; decide),
      .inr hst⟩
  rcases timer_cases t with heq | heq | ⟨-, heq⟩ | ⟨t1, hkeep, heq⟩ <;> rw [heq]
  · exact ⟨h, .inl rfl⟩
  iterate 2 · exact hclosed rfl rfl rfl
  have hq := (keepaliveTick_quiet hkeep).trans (delackTick_quiet t1)
  have hrex := (h.of_quiet hq).rexmitTick
  rwa [hq.state] at hrex

/-! ### The calls -/

lemma Ending.recv (len : Nat) : Ending (t.recv len).1 ∧ (t.recv len).1.state = t.state := by
  rw [Tcb.recv]
  split
  · exact ⟨(h.of_quiet (quiet_rcv t _)).of_quiet (sendAck_quiet _), rfl⟩
  split
  · exact ⟨h, rfl⟩
  split
  · exact ⟨h, rfl⟩
  · split <;> exact ⟨h, rfl⟩

lemma Ending.close :
    Ending t.close ∧ (t.close.state = t.state ∨ t.close.state = .finWait1 ∨
    t.close.state = .lastAck) := by
  rcases close_cases t with heq | ⟨st, hst, hopen, heq⟩ <;> rw [heq]
  · exact ⟨h, .inl rfl⟩
  have hun : t.state.unclosed = true := by rcases hopen with hst | hst | hst <;> rw [hst] <;> rfl
  refine ⟨Ending.sendData ⟨h.ends.of_still ⟨rfl, rfl, rfl, rfl⟩ (Grows.refl _), fun _ hfin => ?_,
    fun hcl => ?_, ?_⟩,
    .inr (by rw [sendData_state]; exact hst)⟩
  · exact absurd ((h.unclosed hun).1.symm.trans hfin) (by decide)
  · rcases hst with rfl | rfl <;> exact absurd hcl nofun
  · rcases hst with rfl | rfl <;> exact nofun

lemma Ending.send (data : List UInt8) : Ending (t.send data).1 ∧
    (t.send data).1.state = t.state := by
  rcases send_cases t data with ⟨r, heq, -⟩ | ⟨hstate, heq⟩ <;> rw [heq]
  · exact ⟨h, rfl⟩
  have hun : t.state.unclosed = true := by rcases hstate with hst | hst <;> rw [hst] <;> rfl
  have hcount := RingBuffer.count_foldl_push sndbufSize
    (data.take (sndbufSize - t.snd.len)) t.snd.buf
  refine ⟨Ending.sendData ⟨⟨?_, ?_, h.ends.unsent, fun hfin => ?_⟩, fun _ hfin => ?_,
    h.unclosed, h.opened⟩,
    sendData_state _⟩
  · refine (RingBuffer.foldl_push _ h.ends.ring ?_).1
    have hfull : t.snd.len ≤ sndbufSize := h.ends.ring.count
    rw [List.length_take]
    show t.snd.len + _ ≤ _
    omega
  · refine Nat.le_trans h.ends.inflight (Nat.succ_le_succ ?_)
    exact Nat.le_trans (Nat.le_add_right _ _) (Nat.le_of_eq hcount.symm)
  iterate 2 · exact absurd ((h.unclosed hun).1.symm.trans hfin) (by decide)

omit h

/-- The close is believed: FIN_WAIT_2 is entered, or TIME_WAIT from FIN_WAIT_1 or CLOSING, or CLOSED
from LAST_ACK by a segment that is no reset. -/
def Believes (t : Tcb) (call : Call) : Prop :=
  (t.state ≠ .finWait2 ∧ (t.on call).state = .finWait2) ∨
    ((t.state = .finWait1 ∨ t.state = .closing) ∧ (t.on call).state = .timeWait) ∨
    (t.state = .lastAck ∧ (t.on call).state = .closed ∧ ∃ g, call = .arrive g ∧ g.flags.rst = false)

lemma input_reset (hrst : g.flags.rst = true) (ws ts sack : Bool) :
    (t.input g ws ts sack).state = t.state ∨ (t.input g ws ts sack).state = .closed := by
  rw [input, if_pos hrst, onReset]
  split
  · exact .inl rfl
  · exact .inr rfl

/-- What is no arriving segment goes nowhere, or to a state that is none of these. -/
lemma not_believes {call : Call} (hno : ∀ g, call ≠ .arrive g)
    (hst : (t.on call).state = t.state ∨ (t.on call).state = .closed ∨
    (t.on call).state = .finWait1 ∨
      (t.on call).state = .lastAck) : ¬ t.Believes call := by
  rintro (⟨hne, heq⟩ | ⟨hwait, heq⟩ | ⟨-, -, g, hg, -⟩)
  · rw [heq] at hst
    exact hst.elim (fun h => hne h.symm) (by decide)
  · rw [heq] at hst
    rcases hst with hst | hst
    · rw [← hst] at hwait
      exact absurd hwait (by decide)
    · exact absurd hst (by decide)
  · exact hno g hg

/-- A segment that arrives acknowledges nothing past `snd_nxt`, and meets it only past the FIN. -/
def AdmitsFin (t : Tcb) : Call → Prop
  | .arrive g => Session.Timely t g ∧ t.Awaited g
  | _ => True

instance decidableAdmitsFin (t : Tcb) : ∀ call, Decidable (AdmitsFin t call)
  | .arrive g => inferInstanceAs (Decidable (Session.Timely t g ∧ t.Awaited g))
  | .send _ | .recv _ | .close | .timer => isTrue trivial

lemma Ending.on (h : Ending t) (call : Call) (hcall : AdmitsFin t call) :
    Ending (t.on call) ∧ (t.Believes call → ∃ g, call = .arrive g ∧ t.Heard g (t.on call)) := by
  match call with
  | .send data =>
    obtain ⟨hend, hst⟩ := h.send data
    exact ⟨hend, fun hb => absurd hb (not_believes nofun (.inl hst))⟩
  | .recv len =>
    obtain ⟨hend, hst⟩ := h.recv len
    exact ⟨hend, fun hb => absurd hb (not_believes nofun (.inl hst))⟩
  | .close =>
    obtain ⟨hend, hst⟩ := h.close
    exact ⟨hend, fun hb => absurd hb (not_believes nofun (hst.imp_right .inr))⟩
  | .timer =>
    obtain ⟨hend, hst⟩ := h.timer
    exact ⟨hend, fun hb => absurd hb (not_believes nofun (hst.imp_right .inl))⟩
  | .arrive g =>
    obtain ⟨hend, hheard⟩ := h.input hcall.1 hcall.2 true true true
    refine ⟨hend, fun hb => ⟨g, rfl, ?_⟩⟩
    rcases hb with hwait2 | htimeWait | ⟨hlast, hclosed, g', hg', hrst⟩
    · refine hheard ?_ (.inl hwait2)
      by_contra hrst
      rcases input_reset (Bool.not_eq_false _ ▸ hrst) true true true with hst | hst
      · exact hwait2.1 (hst.symm.trans hwait2.2)
      · exact absurd (hst.symm.trans hwait2.2) (by decide)
    · refine hheard ?_ (.inr (.inl htimeWait))
      by_contra hrst
      rcases input_reset (Bool.not_eq_false _ ▸ hrst) true true true with hst | hst
      · have hwait := htimeWait.1
        rw [hst.symm.trans htimeWait.2] at hwait
        exact absurd hwait (by decide)
      · exact absurd (hst.symm.trans htimeWait.2) (by decide)
    · cases hg'
      exact hheard hrst (.inr (.inr ⟨hlast, hclosed⟩))

end Tcb

/-! ## Every run -/

namespace Session

variable {c : Session}

/-- A connection whose SYN was sent, or that was just established. -/
structure Opening (c : Session) : Prop where
  state : c.t.state = .synSent ∨ c.t.state = .synReceived ∨ c.t.state = .established
  ring : c.t.snd.buf.Ok sndbufSize
  inflight : c.t.snd.inflight ≤ 1
  unclosed : c.t.snd.Unclosed
  out : ∀ o ∈ c.t.wire.out, o.flags.fin = false

def FinInOrder (c : Session) (e : Event) : Prop := c.t.AdmitsFin e.call

instance (c : Session) (e : Event) : Decidable (FinInOrder c e) := c.t.decidableAdmitsFin e.call

lemma Opening.ending (h : Opening c) : c.t.Ending := by
  refine ⟨⟨h.ring, Nat.le_trans h.inflight (Nat.le_add_left _ _), fun _ => h.out, fun hfin => ?_⟩,
    fun _ hfin => ?_, fun _ => h.unclosed, ?_⟩
  iterate 2 · exact absurd (h.unclosed.1.symm.trans hfin) (by decide)
  · rcases h.state with hst | hst | hst <;> rw [hst] <;> decide

/-- **A close is believed only when acknowledged**, in every run in which a segment that meets
`snd_nxt` finds it past the FIN. -/
theorem close_believed (c : Session) (hc : Opening c) (evs : List Event)
    (hevs : Runs.Every step FinInOrder evs c) :
    Runs.Every step (fun c e => (c.t.at_ e.now).Believes e.call →
      ∃ g, e.call = .arrive g ∧ (c.t.at_ e.now).Heard g ((c.t.at_ e.now).on e.call)) evs c :=
  Runs.every_of_invariant (I := fun c => c.t.Ending)
    (fun c e h he => (h.of_quiet (at_quiet c.t e.now)).on e.call he) evs hc.ending hevs

/-- The FIN does not go at first; it does once the byte before it is acknowledged. -/
def politeClose : List Event :=
  [⟨0, .send [7]⟩, ⟨10, .close⟩, ⟨20, .arrive (ackOf 101)⟩, ⟨30, .arrive (ackOf 102)⟩]

theorem close_believed_polite : (politeClose.foldl step justOpen).t.state = .finWait2 ∧
      Runs.Every step (fun c e => (c.t.at_ e.now).Believes e.call →
        ∃ g, e.call = .arrive g ∧ (c.t.at_ e.now).Heard g ((c.t.at_ e.now).on e.call))
        politeClose justOpen :=
  ⟨by decide +kernel, close_believed justOpen
    ⟨.inr (.inr rfl), ⟨by decide, by decide⟩, by decide, ⟨rfl, rfl⟩, nofun⟩ _ (by decide +kernel)⟩

/-- A byte and the FIN are sent, and nothing goes after that. -/
def deafAfterTwo : Session :=
  { justOpen with t := { justOpen.t with wire := ⟨0, fun i => i < 2, 0, []⟩ } }

/-- The timer takes `snd_nxt` back, and nothing can be sent again. -/
def unheardClose : List Event := [⟨0, .send [7]⟩, ⟨10, .close⟩, ⟨100, .timer⟩]

def unrelated : List Event := [⟨110, .arrive (ackOf 100)⟩]

/-- Then a segment that acknowledges nothing is enough: the close is believed, with the byte still
in the ring. -/
theorem close_unheard : (unheardClose.foldl step deafAfterTwo).t.state = .finWait1 ∧
      (unheardClose.foldl step deafAfterTwo).t.snd.una = 100 ∧
      ((unheardClose ++ unrelated).foldl step deafAfterTwo).t.state = .finWait2 ∧
      ((unheardClose ++ unrelated).foldl step deafAfterTwo).t.snd.len = 1 := by
  decide +kernel

end Session

end Sage040.Tcp
