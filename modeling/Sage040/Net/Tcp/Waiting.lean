import Sage040.Net.Tcp.Closing

/-!
# Nothing is waited for without a timer

`rexmit_at` is zero when nothing is out. In a state that sends, nothing should then be queued either
(`Snd.Idle`): there is no other timer that would send it later. `send_data` arms the timer with
whatever it sends, or tries to, but it sends nothing while the peer's window is closed
(`closed_window_waits`), it passes over what the peer says it holds, and a FIN that does not go is
left at that. `never_waits` is for the runs that have none of these. `ip_output` neither sleeps in
ARP nor has `tcp_input` entered again (see `Wire`).
-/

namespace Sage040.Tcp

open SeqNum List Snd Wire

open SeqNum (gt le ge off)

/-! ## The time, and what is sent -/

namespace Wire

variable {w w' w'' : Wire} {m n : Nat}

/-- The longest wait does not take the time past its last value. -/
def Early (w : Wire) : Prop := w.now.toNat + rtoMax * hz / 1000 < 2 ^ 32
  deriving Decidable

/-- At most `n` segments were sent, or tried. -/
structure Puts (n : Nat) (w w' : Wire) : Prop where
  now : w'.now = w.now
  txOk : w'.txOk = w.txOk
  ge : w.txs ≤ w'.txs
  le : w'.txs ≤ w.txs + n

lemma Puts.refl (n w) : Puts n w w := ⟨rfl, rfl, Nat.le_refl _, Nat.le_add_right _ _⟩

lemma Puts.trans (h : Puts m w w') (h' : Puts n w' w'') : Puts (m + n) w w'' := by
  have hge := h.ge
  have hle := h.le
  have hge' := h'.ge
  have hle' := h'.le
  exact ⟨h'.now.trans h.now, h'.txOk.trans h.txOk, by omega, by omega⟩

lemma put_puts (w) (o : Out) : Puts 1 w (w.put o).1 := by
  rw [put]
  split <;> exact ⟨rfl, rfl, Nat.le_succ _, Nat.le_refl _⟩

lemma Puts.early (h : Puts n w w') (hw : w.Early) : w'.Early := by
  rw [Early, h.now]
  exact hw

/-- The next `n` segments can be sent. -/
def Sends (n : Nat) (w : Wire) : Prop := ∀ i < n, w.txOk (w.txs + i) = true

instance (n : Nat) (w : Wire) : Decidable (w.Sends n) := inferInstanceAs (Decidable (∀ i < n, _))

lemma Puts.sends (h : Puts m w w') (hw : w.Sends (m + n)) : w'.Sends n := by
  intro i hi
  have hge := h.ge
  have hle := h.le
  rw [h.txOk, ← Nat.add_sub_cancel' hge, Nat.add_assoc]
  exact hw _ (by omega)

end Wire

/-! ## What the peer says it holds -/

variable {rs : List Range} {b : SeqNum × SeqNum}

namespace Range

variable {una x : SeqNum} {r : Range}

/-- `x` is one of the numbers in the range. -/
def Covers (r : Range) (x : SeqNum) : Prop := ge x r.start = true ∧ gt r.stop x = true
  deriving Decidable

/-- A range that is not empty, ahead of `una`. -/
structure Ahead (una : SeqNum) (r : Range) : Prop where
  lt : off una r.start < off una r.stop
  near : off una r.stop < 2 ^ 31

lemma Ahead.covers_iff (h : Ahead una r) (hx : off una x < 2 ^ 31) :
    r.Covers x ↔ off una r.start ≤ off una x ∧ off una x < off una r.stop := by
  have hstart := Nat.lt_trans h.lt h.near
  rw [Covers, ge_iff_off una hx hstart, gt_iff_off una h.near hx]

/-- A scoreboard, none of whose ranges covers `x`. -/
structure Clear (una x : SeqNum) (rs : List Range) : Prop where
  ahead : ∀ r ∈ rs, Ahead una r
  free : ∀ r ∈ rs, ¬ r.Covers x

lemma Clear.nil (una x) : Clear una x [] :=
  ⟨fun _ hr => absurd hr not_mem_nil, fun _ hr => absurd hr not_mem_nil⟩

lemma Clear.cons (hr : Ahead una r) (hfree : ¬ r.Covers x) (h : Clear una x rs) :
    Clear una x (r :: rs) :=
  ⟨forall_mem_cons.2 ⟨hr, h.ahead⟩, forall_mem_cons.2 ⟨hfree, h.free⟩⟩

lemma Clear.tail (h : Clear una x (r :: rs)) : Clear una x rs :=
  ⟨fun q hq => h.ahead q (mem_cons_of_mem r hq), fun q hq => h.free q (mem_cons_of_mem r hq)⟩

end Range

namespace Snd

variable {s s' : Snd} {w w' : Wire} {c : AckCtx} {una x : SeqNum}

/-- Two ranges that overlap or touch cover together what their union covers. -/
lemma sackMerge_clear {start stop : SeqNum} {rs rs' : List Range} (h : Range.Clear una x rs)
    (hlt : off una start < off una stop) (hnear : off una stop < 2 ^ 31)
    (hfree : ¬ (off una start ≤ off una x ∧ off una x < off una stop)) (hx : off una x < 2 ^ 31)
    (heq : sackMerge start stop rs = some rs') : Range.Clear una x rs' := by
  induction rs generalizing rs' with
  | nil => cases heq
  | cons r rs ih =>
    have hr := h.ahead r mem_cons_self
    have hrfree := h.free r mem_cons_self
    rw [sackMerge] at heq
    split at heq
    · rename_i htouch
      cases heq
      have hrlt := hr.lt
      have hrnear := hr.near
      rw [Bool.and_eq_true, le_iff_off una (by omega) hrnear,
        ge_iff_off una hnear (by omega)] at htouch
      rw [hr.covers_iff hx] at hrfree
      have hlow := off_lower una (x := r.start) (y := start) (by omega) (by omega)
      have hhigh := off_higher una (x := stop) (y := r.stop) hnear hrnear
      have hahead : Range.Ahead una ⟨if gt r.start start then start else r.start,
          if gt stop r.stop then stop else r.stop⟩ := by
        refine ⟨?_, ?_⟩
        · rw [hlow, hhigh]
          omega
        · rw [hhigh]
          omega
      refine Range.Clear.cons hahead ?_ h.tail
      rw [hahead.covers_iff hx, hlow, hhigh]
      omega
    · obtain ⟨rs1, hrs1, rfl⟩ := Option.map_eq_some_iff.1 heq
      exact Range.Clear.cons hr hrfree (ih h.tail hrs1)

/-- What is kept of a block: what is ahead of `una`. -/
lemma clip_ahead (hlt : gt b.2 b.1 = true) (huna : gt b.2 una = true) (hx : off una x < 2 ^ 31) :
    off una (if gt una b.1 then una else b.1) < off una b.2 ∧ off una b.2 < 2 ^ 31 ∧
      (off una (if gt una b.1 then una else b.1) ≤ off una x ∧ off una x < off una b.2 →
        Range.Covers ⟨b.1, b.2⟩ x) := by
  simp only [Range.Covers, gt, ge, off, decide_eq_true_eq] at *
  refine ⟨?_, by bv_omega, ?_⟩
  · split <;> bv_omega
  split
  iterate 2
    · intro h
      constructor <;> bv_omega

/-- `sack_add` covers nothing that the block does not. -/
lemma sackAdd_clear (h : Range.Clear s.una x s.sacked) (b)
    (hb : ¬ Range.Covers ⟨b.1, b.2⟩ x) (hx : off s.una x < 2 ^ 31) :
    Range.Clear s.una x (s.sackAdd b).sacked := by
  rw [sackAdd]
  split
  · exact h
  rename_i hok
  simp only [Bool.or_eq_true, Bool.not_eq_true', not_or, Bool.not_eq_false] at hok
  obtain ⟨hlt, hnear, hcovers⟩ := clip_ahead hok.1.1 hok.1.2 hx
  generalize (if gt s.una b.1 then s.una else b.1) = start at hlt hcovers ⊢
  dsimp only
  split
  · rename_i heq
    exact sackMerge_clear h hlt hnear (mt hcovers hb) hx heq
  split
  · have hahead : Range.Ahead s.una ⟨start, b.2⟩ := ⟨hlt, hnear⟩
    have hone : Range.Clear s.una x [⟨start, b.2⟩] :=
      Range.Clear.cons hahead (fun hc => hb (hcovers ((hahead.covers_iff hx).1 hc)))
        (Range.Clear.nil _ _)
    exact ⟨forall_mem_append.2 ⟨h.ahead, hone.ahead⟩, forall_mem_append.2 ⟨h.free, hone.free⟩⟩
  · exact h

lemma foldl_sackAdd_clear (bs : List (SeqNum × SeqNum)) (h : Range.Clear s.una x s.sacked)
    (hbs : ∀ b ∈ bs, ¬ Range.Covers ⟨b.1, b.2⟩ x) (hx : off s.una x < 2 ^ 31) :
    Range.Clear s.una x (bs.foldl sackAdd s).sacked := by
  induction bs generalizing s with
  | nil => exact h
  | cons b bs ih =>
    have hb := sackAdd_clear h b (hbs b mem_cons_self) hx
    obtain ⟨rs, hrs⟩ := sackAdd_frame s b
    have huna : (s.sackAdd b).una = s.una := by rw [hrs]
    rw [← huna] at hb hx ⊢
    exact ih hb (fun b hb => hbs b (mem_cons_of_mem _ hb)) hx

/-- An acknowledgement of a number that no range covers leaves none that covers it. -/
lemma sackTrim_clear {ack : SeqNum} (h : Range.Clear una ack rs)
    (hack : off una ack < 2 ^ 31) : Range.Clear ack ack (sackTrim ack rs.length 0 rs) := by
  have hmem : ∀ r ∈ sackTrim ack rs.length 0 rs, Range.Ahead ack r ∧ ¬ r.Covers ack := by
    intro r hr
    obtain ⟨⟨hstop, hstart⟩, hpart⟩ := mem_sackTrim (by omega) (by omega) hr
    rcases hpart with hmem | ⟨-, q, hq, hqstop, hqstart⟩
    · obtain ⟨hlt, hnear⟩ := h.ahead r hmem
      rw [← Bool.not_eq_true, gt_iff_off una hack (by omega), Nat.not_lt] at hstart
      refine ⟨⟨?_, ?_⟩, h.free r hmem⟩
      · rw [off_rebase hstart, off_rebase (Nat.le_trans hstart hlt.le)]
        omega
      · rw [off_rebase (Nat.le_trans hstart hlt.le)]
        omega
    · -- a range that was cut covers the number that it was cut at
      obtain ⟨hlt, hnear⟩ := h.ahead q hq
      rw [gt_iff_off una hack (by omega)] at hqstart
      rw [← hqstop, ← Bool.not_eq_true, le_iff_off una hnear hack, Nat.not_le] at hstop
      exact absurd (((h.ahead q hq).covers_iff hack).2 ⟨hqstart.le, hstop⟩) (h.free q hq)
  exact ⟨fun r hr => (hmem r hr).1, fun r hr => (hmem r hr).2⟩

/-! ## The timer -/

/-- The time to wait is between its bounds, and the congestion window is open. -/
structure Fit (s : Snd) : Prop where
  rto_ge : rtoMin ≤ s.rtoMs
  rto_le : s.rtoMs ≤ rtoMax
  cwnd : 0 < s.cwnd
  ssthresh : 0 < s.ssthresh

lemma Fit.frame (h : s.Fit) (hs : (s'.rtoMs, s'.cwnd, s'.ssthresh) =
    (s.rtoMs, s.cwnd, s.ssthresh)) : s'.Fit := by
  simp only [Prod.mk.injEq] at hs
  obtain ⟨hrto, hcwnd, hss⟩ := hs
  exact ⟨hrto ▸ h.rto_ge, hrto ▸ h.rto_le, hcwnd ▸ h.cwnd, hss ▸ h.ssthresh⟩

lemma Fit.deadline_ne_zero (h : s.Fit) (hw : w.Early) : w.now + ticks s.rtoMs ≠ 0 := by
  have hge := h.rto_ge
  have hle := h.rto_le
  rw [Wire.Early] at hw
  simp only [rtoMin, rtoMax, hz] at hge hle hw
  intro hzero
  have hsum : (w.now + ticks s.rtoMs).toNat = 0 := by
    rw [hzero]
    rfl
  simp only [ticks, hz, BitVec.toNat_add, BitVec.toNat_ofNat] at hsum
  omega

lemma arm_of_armed (h : s.rexmitAt ≠ 0) (w) : (s.arm w).rexmitAt ≠ 0 := by
  rw [arm]
  rwa [if_neg h]

lemma Fit.arm (h : s.Fit) (hw : w.Early) : (s.arm w).rexmitAt ≠ 0 := by
  rw [Snd.arm]
  split
  · exact h.deadline_ne_zero hw
  · assumption

lemma sendLoop_armed (st : Stamp) (tsOk : Bool) (fuel : Nat) (w) (h : s.rexmitAt ≠ 0) :
    (sendLoop st tsOk fuel s w).1.rexmitAt ≠ 0 := by
  exact sendLoop_rule st tsOk (I := fun s _ => s.rexmitAt ≠ 0) fuel (fun _ _ _ h _ => h)
    (fun _ _ _ h _ => arm_of_armed h _) (fun _ _ _ h _ => arm_of_armed h _) h

lemma sendFin_armed (st : Stamp) (w) (h : s.rexmitAt ≠ 0) : (sendFin st s w).1.rexmitAt ≠ 0 := by
  rw [sendFin]
  split
  · split
    · exact arm_of_armed h _
    · exact h
  · exact h

variable (st : Stamp) (tsOk : Bool)

lemma sendData_armed (w) (h : s.rexmitAt ≠ 0) : (sendData st tsOk s w).1.rexmitAt ≠ 0 :=
  sendFin_armed st _ (sendLoop_armed st tsOk s.len w h)

/-- Something is sent from `snd_una` on, or tried, and the timer is armed either way. -/
lemma sendLoop_arms (hnxt : s.nxt = s.una) (hlen : 0 < s.len)
    (hwnd : 0 < s.wnd) (hfit : s.Fit) (hclear : Range.Clear s.una s.una s.sacked) (hw : w.Early) :
    (sendLoop st tsOk s.len s w).1.rexmitAt ≠ 0 := by
  have hinf : s.inflight = 0 := off_eq_zero.2 hnxt
  have hwin : 0 < min s.usableWindow s.len := by
    have := hfit.cwnd
    rw [usableWindow]
    omega
  obtain ⟨fuel, hfuel⟩ : ∃ fuel, s.len = fuel + 1 := ⟨s.len - 1, by omega⟩
  have hskip : s.sackedUntil s.nxt = s.nxt := by
    rw [sackedUntil]
    split
    · rename_i r hr
      have hfound := find?_some hr
      rw [Bool.and_eq_true, hnxt] at hfound
      exact absurd hfound (hclear.free r (mem_of_find?_eq_some hr))
    · rfl
  nth_rewrite 1 [hfuel]
  rw [sendLoop]
  dsimp only
  rw [if_neg (by omega), if_neg (by rw [not_not]; exact hskip)]
  generalize s.cutAt s.nxt (min (min s.usableWindow s.len - s.inflight) mss) = n
  generalize hres : sendRange st s w s.nxt n = res
  obtain ⟨s1, w1, ok⟩ := res
  obtain rfl : (sendRange st s w s.nxt n).1 = s1 := congrArg Prod.fst hres
  have hw1 : w1.Early := by
    have hput := put_puts w ⟨s.nxt, { ack := true, psh := true },
      s.copy (s.nxt - s.una).toNat n, st.ack,
      st.window, s.acked + (s.nxt - s.una).toNat⟩
    have hw1 : (sendRange st s w s.nxt n).2.1 = w1 := congrArg (fun r => r.2.1) hres
    rw [← hw1]
    exact hput.early hw
  have hfit1 : (sendRange st s w s.nxt n).1.Fit := hfit.frame rfl
  cases ok with
  | false => exact hfit1.arm hw1
  | true =>
    refine sendLoop_armed st tsOk fuel w1 ?_
    have hsent : (sent (sendRange st s w s.nxt n).1 tsOk w1 n).rexmitAt =
      ((sendRange st s w s.nxt n).1.arm w1).rexmitAt := rfl
    rw [hsent]
    exact hfit1.arm hw1

/-- With nothing in flight, `send_data` arms the timer, or there is nothing to send. -/
lemma sendData_waits (hnxt : s.nxt = s.una) (hwnd : 0 < s.wnd) (hfit : s.Fit)
    (hclear : Range.Clear s.una s.una s.sacked) (hw : w.Early) (hfin : s.finSent = false)
    (htx : s.finPending = true → w.Sends 1) : (sendData st tsOk s w).1.rexmitAt ≠ 0 ∨
      ((sendData st tsOk s w).1 = s ∧ s.len = 0 ∧ s.finPending = false) := by
  rcases Nat.eq_zero_or_pos s.len with hzero | hpos
  · have hinf : s.inflight = s.len := by
      rw [hzero]
      exact off_eq_zero.2 hnxt
    have hloop : sendLoop st tsOk s.len s w = (s, w) := by rw [hzero, sendLoop]
    rw [sendData, hloop]
    dsimp only
    rw [sendFin, hfin, Bool.or_false]
    split
    · rename_i hpending
      have hput : w.txOk w.txs = true := htx hpending.1 0 Nat.one_pos
      refine .inl ?_
      rw [put, if_pos hput]
      exact Fit.arm (hfit.frame rfl) hw
    · rename_i hnone
      refine .inr ⟨rfl, hzero, ?_⟩
      rw [← Bool.not_eq_true]
      exact fun hp => hnone ⟨hp, hinf⟩
  · exact .inl (sendFin_armed st _ (sendLoop_arms st tsOk hnxt hpos hwnd hfit hclear hw))

/-! ### The time while sending -/

lemma sendLoop_now (fuel : Nat) (s w) : (sendLoop st tsOk fuel s w).2.now = w.now := by
  exact sendLoop_rule st tsOk (I := fun _ w' => w'.now = w.now) fuel (fun _ _ _ h _ => h)
    (fun _ w' _ h _ => (put_puts w' _).now.trans h) (fun _ w' _
      h _ => (put_puts w' _).now.trans h) rfl

lemma sendData_now (s w) : (sendData st tsOk s w).2.now = w.now := by
  have hloop := sendLoop_now st tsOk s.len s w
  rw [sendData]
  generalize sendLoop st tsOk s.len s w = r at hloop ⊢
  dsimp only
  rw [sendFin]
  split
  · split
    · rename_i hput
      have hw1 := congrArg Prod.fst hput
      dsimp only at hw1 ⊢
      rw [← hw1, (put_puts _ _).now]
      exact hloop
    rename_i hput
    have hw1 := congrArg Prod.fst hput
    dsimp only at hw1 ⊢
    rw [← hw1, (put_puts _ _).now]
    exact hloop
  · exact hloop

variable {st} {tsOk}

lemma holeIf_puts (c s w) : Wire.Puts 1 w (holeIf c s w).2.1 := by
  rw [holeIf]
  split
  · rw [sackRexmitHole]
    split
    · exact Wire.Puts.refl 1 w
    dsimp only
    split
    · exact Wire.Puts.refl 1 w
    · split <;> exact put_puts w _
  · exact Wire.Puts.refl 1 w

lemma dupAck_now (c s w) : (dupAck c s w).2.now = w.now :=
  dupAck_rule (P := fun _ w1 => w1.now = w.now) (Q :=
    fun _ w1 => w1.now = w.now) (fun _ _ h => h) rfl
    (fun _ => ⟨rfl, rfl, rfl⟩) (fun s w1 h => (holeIf_puts c s w1).now.trans h)
    (fun _ w1 h => (put_puts w1 _).now.trans h) fun s w1 h => (sendData_now _ _ s w1).trans h

/-! ### The windows -/

variable (h : s.Fit)

include h

lemma Fit.resent (hs : Resent s s') : s'.Fit :=
  ⟨hs.rtoMs ▸ h.rto_ge, hs.rtoMs ▸ h.rto_le, hs.cwnd ▸ h.cwnd, hs.ssthresh ▸ h.ssthresh⟩

lemma Fit.holds (hs : Holds s s') : s'.Fit :=
  ⟨hs.rtoMs ▸ h.rto_ge, hs.rtoMs ▸ h.rto_le, hs.cwnd ▸ h.cwnd, hs.ssthresh ▸ h.ssthresh⟩

lemma Fit.rttUpdate (ms : Nat) : (s.rttUpdate ms).Fit := by
  refine ⟨?_, ?_, h.cwnd, h.ssthresh⟩
  · simp only [Snd.rttUpdate, rtoMin, rtoMax]
    omega
  · simp only [Snd.rttUpdate]
    omega

lemma Fit.measure (c w) : (s.measure c w).Fit := by
  rw [Snd.measure]
  split
  · dsimp only
    split
    · exact h.rttUpdate _
    · exact h
  split
  · have := h.rttUpdate (if ((w.now - s.rttStart) * 10).toNat = 0 then 1 else
      ((w.now - s.rttStart) * 10).toNat)
    exact this.frame rfl
  · exact h

lemma Fit.cwndOnAck (hcwnd : s.cwnd + mss < 2 ^ 32) (acked : Nat) : (s.cwndOnAck acked).Fit := by
  refine ⟨h.rto_ge, h.rto_le, ?_, h.ssthresh⟩
  have hpos := h.cwnd
  simp only [Snd.cwndOnAck]
  rw [mss] at hcwnd ⊢
  split
  · rw [Nat.mod_eq_of_lt (by omega)]
    omega
  have hinc : s.cwnd + 1400 * 1400 / s.cwnd < 2 ^ 32 := by
    rcases Nat.lt_or_ge s.cwnd 1400 with hlt | hge
    · have := Nat.div_le_self (1400 * 1400) s.cwnd
      omega
    · have := Nat.div_le_div_left hge (a := 1400 * 1400) (by omega)
      omega
  split
  · rw [Nat.mod_eq_of_lt (by omega)]
    omega
  · rw [Nat.mod_eq_of_lt hinc]
    exact Nat.lt_min.2 ⟨by decide, Nat.add_pos_left hpos _⟩

lemma Fit.openWindow (hcwnd : s.cwnd + mss < 2 ^ 32) (c) : (s.openWindow c).Fit := by
  rw [Snd.openWindow]
  split
  · split
    · exact ⟨h.rto_ge, h.rto_le, h.ssthresh, h.ssthresh⟩
    · exact h
  · exact h.cwndOnAck hcwnd _

lemma Fit.enterRecovery : s.enterRecovery.Fit := by
  have hinf : s.inflight < 2 ^ 32 := SeqNum.off_lt s.una s.nxt
  have hrto : s.enterRecovery.rtoMs = s.rtoMs := by simp [Snd.enterRecovery, cwndOnLoss]
  constructor
  · rw [hrto]
    exact h.rto_ge
  · rw [hrto]
    exact h.rto_le
  · simp only [Snd.enterRecovery, cwndOnLoss, mss, Bool.false_eq_true, if_false]
    omega
  · simp only [Snd.enterRecovery, cwndOnLoss, mss, Bool.false_eq_true, if_false]
    omega

lemma Fit.dupAck (hcwnd : s.cwnd + mss < 2 ^ 32) (c w) : (dupAck c s w).1.Fit := by
  have hcount : ({ s with dupacks := (s.dupacks + 1) % 2 ^ 32 } : Snd).Fit := h.frame rfl
  refine dupAck_rule (P := fun s _ => s.Fit) (Q := fun s _ => s.Fit) (fun _ _ h => h) h
    (fun _ => ⟨hcount, hcount.enterRecovery, ⟨h.rto_ge, h.rto_le, ?_, h.ssthresh⟩⟩)
    (fun s w h => h.resent (holeIf_resent c s w)) (fun _ _ h => h.frame rfl)
    fun s w h => h.holds (sendData_holds c.stamp c.tsOk s w).1
  rw [Nat.mod_eq_of_lt hcwnd]
  exact Nat.add_pos_left h.cwnd _

omit h

variable (c : AckCtx) (s : Snd) (w : Wire)

lemma dupAck_frame : (dupAck c s w).1.una = s.una ∧ (dupAck c s w).1.sacked = s.sacked ∧
    (dupAck c s w).1.wnd = s.wnd ∧
      (s.rexmitAt ≠ 0 → (dupAck c s w).1.rexmitAt ≠ 0) := by
  refine dupAck_rule (P := fun s1 _ => s1.una = s.una ∧ s1.sacked = s.sacked ∧ s1.wnd = s.wnd ∧
      (s.rexmitAt ≠ 0 → s1.rexmitAt ≠ 0)) (Q := fun s1 _ => s1.una = s.una ∧ s1.sacked = s.sacked ∧
      s1.wnd = s.wnd ∧ (s.rexmitAt ≠ 0 → s1.rexmitAt ≠ 0)) (fun _ _ h => h) ⟨rfl, rfl, rfl, id⟩
    (fun _ => ⟨⟨rfl, rfl, rfl, id⟩, ?_, ⟨rfl, rfl, rfl, id⟩⟩)
      (fun s1 w1 ⟨huna, hsacked, hwnd, hat⟩ => ?_)
    (fun _ _ h => h) fun s1 w1 ⟨huna, hsacked, hwnd, hat⟩ => ?_
  · simp [enterRecovery, cwndOnLoss]
  · have hhole := holeIf_resent c s1 w1
    exact ⟨hhole.una.trans huna, hhole.sacked.trans hsacked, hhole.wnd.trans hwnd,
      fun hne => by rw [hhole.rexmitAt]; exact hat hne⟩
  · have hsend := (sendData_holds c.stamp c.tsOk s1 w1).1
    exact ⟨hsend.una.trans huna, hsend.sacked.trans hsacked, hsend.wnd.trans hwnd,
      fun hne => sendData_armed c.stamp c.tsOk w1 (hat hne)⟩

lemma measure_windows : (s.measure c w).wnd = s.wnd ∧ (s.measure c w).cwnd = s.cwnd := by
  rw [measure]
  split
  · dsimp only
    split <;> exact ⟨rfl, rfl⟩
  · split <;> exact ⟨rfl, rfl⟩

variable {c} {s} {w}

lemma openWindow_wnd (c : AckCtx) (s : Snd) : (s.openWindow c).wnd = s.wnd := by
  rw [openWindow]
  split
  · split <;> rfl
  · rfl

/-- What is acknowledged is trimmed off the scoreboard, and the timer runs if something is still in
flight. -/
lemma newAck_waits (c : AckCtx) (h : s.Fit) (hcwnd : s.cwnd + mss < 2 ^ 32) (hw : w.Early)
    (hclear : Range.Clear s.una c.ack s.sacked) (hack : off s.una c.ack < 2 ^ 31) :
    (newAck c s w).1.Fit ∧ Range.Clear c.ack c.ack (newAck c s w).1.sacked ∧
      (newAck c s w).1.wnd = s.wnd ∧ (newAck c s w).1.una = c.ack ∧
      (newAck c s w).1.finSent = s.finSent ∧ (newAck c s w).1.finPending = s.finPending ∧
      ((newAck c s w).1.rexmitAt ≠ 0 ∨ (newAck c s w).1.nxt = (newAck c s w).1.una) ∧
      Wire.Puts 1 w (newAck c s w).2 := by
  have hfit1 : ((({ s with dupacks := 0 } : Snd).measure c w).openWindow c).Fit := by
    have hzero : ({ s with dupacks := 0 } : Snd).Fit := h.frame rfl
    refine (hzero.measure c w).openWindow ?_ c
    rw [(measure_windows c _ w).2]
    exact hcwnd
  have hsame := (measure_same c { s with dupacks := 0 } w).trans (openWindow_same c _)
  have hwnd1 : ((({ s with dupacks := 0 } : Snd).measure c w).openWindow c).wnd = s.wnd :=
    (openWindow_wnd c _).trans (measure_windows c _ w).1
  rw [newAck]
  generalize (({ s with dupacks := 0 } : Snd).measure c w).openWindow c = s1 at hfit1 hsame hwnd1 ⊢
  rw [← hsame.sacked] at hclear
  have hclear2 : Range.Clear c.ack c.ack (s1.release c.ack).sacked := sackTrim_clear hclear hack
  have hfit2 : (s1.release c.ack).Fit := hfit1.frame rfl
  have hrest2 : (s1.release c.ack).wnd = s.wnd ∧ (s1.release c.ack).una = c.ack ∧
      (s1.release c.ack).finSent = s.finSent ∧ (s1.release c.ack).finPending = s.finPending :=
    ⟨hwnd1, rfl, hsame.finSent, hsame.finPending⟩
  generalize s1.release c.ack = s2 at hclear2 hfit2 hrest2 ⊢
  have hhole : Resent s2 (if s2.inRecovery then holeIf c s2 w else (s2, w, false)).1 ∧
      Wire.Puts 1 w (if s2.inRecovery then holeIf c s2 w else (s2, w, false)).2.1 := by
    split
    · exact ⟨holeIf_resent c s2 w, holeIf_puts c s2 w⟩
    · exact ⟨Resent.refl s2, Wire.Puts.refl 1 w⟩
  generalize (if s2.inRecovery then holeIf c s2 w else (s2, w, false)) = r at hhole ⊢
  obtain ⟨hres, hputs⟩ := hhole
  have hfit := hfit2.resent hres
  refine ⟨hfit.frame rfl, ?_, hres.wnd.trans hrest2.1,
    hres.una.trans hrest2.2.1, hres.finSent.trans hrest2.2.2.1,
      hres.finPending.trans hrest2.2.2.2, ?_, hputs⟩
  · rw [hres.sacked]
    exact hclear2
  split
  · rename_i heq
    exact .inr heq.symm
  · exact .inl (hfit.deadline_ne_zero (hputs.early hw))

/-- **After `ack_sent_data`** the timer runs, or nothing is in flight. -/
lemma ackSentData_waits (c : AckCtx) (h : s.Fit) (hcwnd : s.cwnd + mss < 2 ^ 32) (hw : w.Early)
    (hclear : Range.Clear s.una (if gt c.ack s.una then c.ack else s.una) s.sacked)
    (hblocks : ∀ b ∈ c.opts.sack,
      ¬ Range.Covers ⟨b.1, b.2⟩ (if gt c.ack s.una then c.ack else s.una)) :
      (ackSentData c s w).1.Fit ∧
      Range.Clear (ackSentData c s w).1.una (ackSentData c s w).1.una (ackSentData c s w).1.sacked ∧
      (ackSentData c s w).1.wnd = s.wnd ∧ ((s.rexmitAt = 0 → s.nxt = s.una) →
        (ackSentData c s w).1.rexmitAt ≠ 0 ∨ ((ackSentData c s w).1.nxt =
        (ackSentData c s w).1.una ∧
          (ackSentData c s w).1.finSent = s.finSent ∧
          (ackSentData c s w).1.finPending = s.finPending ∧
          Wire.Puts 1 w (ackSentData c s w).2)) := by
  have hx : off s.una (if gt c.ack s.una then c.ack else s.una) < 2 ^ 31 := by
    split
    · rename_i hgt
      exact (gt_base_iff.1 hgt).2
    · rw [off_self]
      decide
  have hclear1 : Range.Clear s.una (if gt c.ack s.una then c.ack else s.una)
      (if c.sackOk then (c.opts.sack.take 4).foldl sackAdd s else s).sacked := by
    generalize (if gt c.ack s.una then c.ack else s.una) = x at hclear hblocks hx ⊢
    split
    · exact foldl_sackAdd_clear _ hclear (fun b hb => hblocks b (mem_of_mem_take hb)) hx
    · exact hclear
  obtain ⟨rs, hrs⟩ := scoreboard_frame c.sackOk (c.opts.sack.take 4) s
  rw [ackSentData]
  rw [hrs] at hclear1 ⊢
  have hfit1 : ({ s with sacked := rs } : Snd).Fit := h.frame rfl
  split
  · rename_i hgt
    rw [Bool.not_eq_true'] at hgt
    rw [if_neg (by rw [hgt]; decide)] at hclear1
    obtain ⟨huna, hsacked, hwnd, harmed⟩ := dupAck_frame c { s with sacked := rs } w
    refine ⟨hfit1.dupAck hcwnd c w, ?_, hwnd, fun hidle => ?_⟩
    · rw [huna, hsacked]
      exact hclear1
    by_cases hat : s.rexmitAt = 0
    · rw [dupAck_idle (s := { s with sacked := rs }) (hidle hat)]
      exact .inr ⟨hidle hat, rfl, rfl, Wire.Puts.refl 1 w⟩
    · exact .inl (harmed hat)
  · rename_i hgt
    rw [Bool.not_eq_true', Bool.not_eq_false] at hgt
    rw [if_pos hgt] at hclear1
    obtain ⟨hfit', hclear', hwnd, huna, hsent, hpending, htimer, hputs⟩ :=
      newAck_waits c hfit1 hcwnd hw hclear1 (gt_base_iff.1 hgt).2
    refine ⟨hfit', ?_, hwnd, fun _ => htimer.imp_right fun heq => ⟨heq, hsent, hpending, hputs⟩⟩
    rw [huna]
    exact hclear'

lemma ackSentData_now (c s w) : (ackSentData c s w).2.now = w.now := by
  rw [ackSentData]
  generalize (if c.sackOk then (c.opts.sack.take 4).foldl sackAdd s else s) = s1
  split
  · exact dupAck_now c s1 w
  rw [newAck]
  split
  · exact (holeIf_puts c _ w).now
  · rfl

end Snd

/-! ## A connection -/

/-- With no timer running, nothing is out and nothing is queued. -/
structure Snd.Idle (s : Snd) : Prop where
  nxt : s.nxt = s.una
  len : s.len = 0
  unclosed : s.Unclosed
  wnd : 0 < s.wnd
  clear : Range.Clear s.una s.una s.sacked

namespace Tcb

variable {t t' : Tcb} {g : Seg}

/-- Nothing is waited for without a timer. -/
structure Timed (t : Tcb) : Prop where
  fit : t.snd.Fit
  ahead : ∀ r ∈ t.snd.sacked, Range.Ahead t.snd.una r
  idle : t.state.sends = true → t.snd.rexmitAt = 0 → t.snd.Idle
  syn : t.state = .synSent ∨ t.state = .synReceived →
    t.snd.rexmitAt ≠ 0 ∧ t.snd.len = 0 ∧ t.snd.sacked = [] ∧ t.snd.nxt = t.snd.una + 1
  unclosed : t.state.unclosed = true → t.snd.Unclosed
  opened : t.state ≠ .listen

variable {w : Wire}

lemma sendEmpty_puts (hw : t.wire = w) (seq : SeqNum) (flags : Flags) :
    Wire.Puts 1 w (t.sendEmpty seq flags).wire := hw ▸ put_puts t.wire _

lemma sendAck_puts (hw : t.wire = w) : Wire.Puts 1 w t.sendAck.wire := sendEmpty_puts hw _ _

lemma delayAck_puts (hw : t.wire = w) : Wire.Puts 1 w t.delayAck.wire := by
  subst hw
  rw [delayAck]
  split
  · exact sendAck_puts rfl
  · split <;> exact Wire.Puts.refl 1 t.wire

lemma onData_puts (t : Tcb) (g) : Wire.Puts 1 t.wire (t.onData g).wire := by
  rw [onData]
  split
  · split
    · exact delayAck_puts rfl
    split
    iterate 2 · exact sendAck_puts rfl
  · split
    · exact sendAck_puts rfl
    · exact Wire.Puts.refl 1 t.wire

lemma peerClosed_puts (t : Tcb) : Wire.Puts 1 t.wire t.peerClosed.wire := by
  rw [peerClosed]
  split
  iterate 3 · exact Wire.Puts.refl 1 t.wire
  · exact sendAck_puts rfl
  · exact Wire.Puts.refl 1 t.wire

lemma onFin_puts (t : Tcb) (g) : Wire.Puts 2 t.wire (t.onFin g).wire := by
  rw [onFin]
  split
  · have hack : Wire.Puts 1 t.wire (if t.rcv.finRcvd then t
        else { t with rcv := { t.rcv with finRcvd := true, nxt := t.rcv.nxt + 1 } }.sendAck).wire :=
            by
      split
      · exact Wire.Puts.refl 1 t.wire
      · exact sendAck_puts rfl
    exact hack.trans (peerClosed_puts _)
  · exact Wire.Puts.refl 2 t.wire

lemma Timed.of_eq (h : Timed t) (hsnd : t'.snd = t.snd) (hstate : t'.state = t.state) :
    Timed t' := by
  refine ⟨?_, ?_, ?_, ?_, ?_, ?_⟩
  · rw [hsnd]
    exact h.fit
  · rw [hsnd]
    exact h.ahead
  · rw [hsnd, hstate]
    exact h.idle
  · rw [hsnd, hstate]
    exact h.syn
  · rw [hsnd, hstate]
    exact h.unclosed
  · rw [hstate]
    exact h.opened

lemma Timed.of_quiet (h : Timed t) (hq : Quiet t t') : Timed t' := h.of_eq hq.snd hq.state

lemma timed_of_armed (hfit : t.snd.Fit) (hahead : ∀ r ∈ t.snd.sacked, Range.Ahead t.snd.una r)
    (hat : t.state.sends = true → t.snd.rexmitAt ≠ 0)
    (hsyn : t.state ≠ .synSent ∧ t.state ≠ .synReceived)
    (hun : t.state.unclosed = true → t.snd.Unclosed) (hop : t.state ≠ .listen) : Timed t :=
  ⟨hfit, hahead, fun hs hz => absurd hz (hat hs), fun hst => absurd hst (not_or.2 hsyn), hun, hop⟩

lemma sendData_frame (t : Tcb) : Snd.Holds t.snd t.sendData.snd := by
  rw [sendData]
  split
  · exact (sendData_holds t.stamp t.tsOk t.snd t.wire).1
  · exact Snd.Holds.refl t.snd

/-- `send_data` in a state past the SYN, with the timer running or nothing in flight. -/
lemma timed_sendData (hfit : t.snd.Fit) (hahead : ∀ r ∈ t.snd.sacked, Range.Ahead t.snd.una r)
    (hw : t.wire.Early) (hsyn : t.state ≠ .synSent ∧ t.state ≠ .synReceived)
    (hun : t.state.unclosed = true → t.snd.Unclosed) (hop : t.state ≠ .listen)
    (hat : t.state.sends = true → t.snd.rexmitAt ≠ 0 ∨
    (t.snd.nxt = t.snd.una ∧ t.snd.finSent = false ∧
      0 < t.snd.wnd ∧ Range.Clear t.snd.una t.snd.una t.snd.sacked ∧
      (t.snd.finPending = true → t.wire.Sends 1))) : Timed t.sendData := by
  have hholds := sendData_frame t
  have hst := sendData_state t
  refine ⟨hfit.holds hholds, ?_, fun hsends hzero => ?_, fun h => ?_, fun h => ?_, ?_⟩
  · rw [hholds.sacked, hholds.una]
    exact hahead
  · rw [hst] at hsends
    rw [sendData, if_pos hsends] at hzero ⊢
    dsimp only at hzero ⊢
    rcases hat hsends with harmed | ⟨hnxt, hfin, hwnd, hclear, htx⟩
    · exact absurd hzero (sendData_armed t.stamp t.tsOk t.wire harmed)
    obtain hne | ⟨heq, hlen, hpending⟩ :=
      sendData_waits t.stamp t.tsOk hnxt hwnd hfit hclear hw hfin htx
    · exact absurd hzero hne
    rw [heq]
    exact ⟨hnxt, hlen, ⟨hfin, hpending⟩, hwnd, hclear⟩
  · rw [hst] at h
    exact absurd h (not_or.2 hsyn)
  · rw [hst] at h
    rw [sendData]
    split
    · exact (sendData_holds t.stamp t.tsOk t.snd t.wire).2 (hun h)
    · exact hun h
  · rw [hst]
    exact hop

lemma timed_afterAck (hfit : t.snd.Fit) (hclear : Range.Clear t.snd.una t.snd.una t.snd.sacked)
    (hwnd : 0 < t.snd.wnd) (hw : t.wire.Early) (hsyn : t.state ≠ .synSent ∧ t.state ≠ .synReceived)
    (hun : t.state.unclosed = true → t.snd.Unclosed) (hop : t.state ≠ .listen)
    (hat : t.state.sends = true → t.snd.rexmitAt ≠ 0 ∨ (t.snd.nxt = t.snd.una ∧
      (t.snd.finPending = true → t.wire.Sends 4))) : Timed (t.afterAck g) := by
  have hdata := onData_quiet t g
  obtain ⟨hsnd2, hstate2, -⟩ := onFin_spec (t.onData g) g
  obtain ⟨hsnd3, hwire3, -, hstate3⟩ := onFinAcked_spec ((t.onData g).onFin g)
  have hputs : Wire.Puts 3 t.wire ((t.onData g).onFin g).wire :=
    (onData_puts t g).trans (onFin_puts _ g)
  rw [hdata.snd] at hsnd2
  rw [hdata.state] at hstate2
  rw [← hwire3] at hputs
  rw [afterAck]
  generalize (t.onData g).onFin g = t2 at *
  rw [hsnd2] at hsnd3 hstate3
  have hlast : t2.onFinAcked.state = t2.state ∨
      t2.onFinAcked.state ∈ [State.finWait2, .timeWait, .closed] := by
    rw [hstate3]
    split
    · exact (afterFinAcked_cases t2).imp_right And.right
    · exact .inl rfl
  obtain ⟨hsyn3, hun3, hop3, hsends3⟩ := states_after hstate2 hlast
  refine timed_sendData ?_ ?_ (hputs.early hw) (hsyn3 hsyn) (fun h => ?_) (hop3 hop)
    fun hsends => ?_
  · rw [hsnd3]
    exact hfit
  · rw [hsnd3]
    exact hclear.ahead
  · rw [hsnd3]
    exact hun (hun3 h)
  rw [hsnd3]
  refine (hat (hsends3 hsends)).imp_right ?_
  rintro ⟨hnxt, htx⟩
  refine ⟨hnxt, ?_, hwnd, hclear, fun hp => hputs.sends (htx hp)⟩
  -- a FIN that was sent would be taken to be acknowledged, and the state left
  by_contra hfin
  rw [Bool.not_eq_false] at hfin
  rw [if_pos ⟨hfin, hnxt.symm⟩] at hstate3
  rw [hstate3] at hsends
  cases hawaits : t2.state.awaitsFinAck with
  | true => exact absurd ((afterFinAcked_sends hawaits).symm.trans hsends) (by decide)
  | false =>
    have hst : t2.afterFinAcked = t2.state := (afterFinAcked_cases t2).resolve_right fun h => by
      rw [hawaits] at h
      exact absurd h.1 (by decide)
    rw [hst] at hsends hstate3
    have hunclosed : t2.state.unclosed = true := by
      revert hsends hawaits
      cases t2.state <;> decide
    rw [(hun (hun3 (by rw [hstate3]; exact hunclosed))).1] at hfin
    cases hfin

/-- What is needed for nothing to be waited for without a timer. A segment that is no reset
announces a window and does not acknowledge a number that the peer says it holds, now or before;
while a FIN is wanted the next few segments can be sent; and neither the time nor the congestion
window comes round. -/
def Prompt (t : Tcb) : Call → Prop
  | .arrive g => t.wire.Early ∧ t.snd.cwnd + mss < 2 ^ 32 ∧ (g.flags.rst = false → g.window ≠ 0) ∧
      (∀ r ∈ t.snd.sacked, ¬ r.Covers (if gt g.ack t.snd.una then g.ack else t.snd.una)) ∧
      (∀ b ∈ g.opts.sack, ¬ Range.Covers ⟨b.1, b.2⟩ (if gt g.ack t.snd.una then g.ack else
      t.snd.una)) ∧
      (t.snd.finPending = true → t.wire.Sends 5)
  | .close => t.wire.Early ∧ (t.snd.rexmitAt = 0 → t.wire.Sends 1)
  | .send _ | .timer => t.wire.Early
  | .recv _ => True

instance decidablePrompt (t : Tcb) : ∀ call, Decidable (Prompt t call)
  | .arrive g =>
    -- by the list: the pairs of numbers are finitely many too
    have : Decidable (∀ b ∈ g.opts.sack, ¬ Range.Covers ⟨b.1, b.2⟩
      (if gt g.ack t.snd.una then g.ack else t.snd.una)) := List.decidableBAll _ _
    inferInstanceAs (Decidable (_ ∧ _ ∧ (_ → _) ∧ (∀ r ∈ t.snd.sacked, _) ∧ _ ∧ (_ → _)))
  | .close => inferInstanceAs (Decidable (_ ∧ (_ → _)))
  | .send _ | .timer => inferInstanceAs (Decidable t.wire.Early)
  | .recv _ => isTrue trivial

/-- A state that does not send, past the SYN and past our close. -/
lemma timed_of_state (hfit : t.snd.Fit) (hahead : ∀ r ∈ t.snd.sacked, Range.Ahead t.snd.una r)
    (hst : t.state = .closed) : Timed t :=
  timed_of_armed hfit hahead (by rw [hst]; nofun) (by rw [hst]; decide) (by rw [hst]; nofun)
    (by rw [hst]; decide)

lemma keepaliveTick_puts (h : t.keepaliveTick = some t') : Wire.Puts 1 t.wire t'.wire := by
  obtain ⟨next, probes, rfl | rfl⟩ := keepaliveTick_cases h
  · exact Wire.Puts.refl 1 t.wire
  · exact sendEmpty_puts rfl _ _

lemma delackTick_puts (t : Tcb) : Wire.Puts 1 t.wire t.delackTick.wire := by
  rw [delackTick]
  split
  · exact sendAck_puts rfl
  · exact Wire.Puts.refl 1 t.wire

lemma timed_ack (hfit : t.snd.Fit) (hwnd : 0 < t.snd.wnd) (hw : t.wire.Early)
    (hcwnd : t.snd.cwnd + mss < 2 ^ 32)
    (hclear : Range.Clear t.snd.una (if gt g.ack t.snd.una then g.ack else t.snd.una) t.snd.sacked)
    (hblocks : ∀ b ∈ g.opts.sack, ¬ Range.Covers ⟨b.1,
    b.2⟩ (if gt g.ack t.snd.una then g.ack else t.snd.una))
    (hsyn : t.state ≠ .synSent ∧ t.state ≠ .synReceived)
    (hun : t.state.unclosed = true → t.snd.Unclosed)
    (hop : t.state ≠ .listen) (hidle : t.state.sends = true → t.snd.rexmitAt = 0 →
    t.snd.nxt = t.snd.una)
    (htx : t.snd.finPending = true → t.wire.Sends 5) : Timed ((t.ackSentData g).afterAck g) := by
  obtain ⟨hfit', hclear', hwnd', hat⟩ := ackSentData_waits
    ⟨t.stamp, t.state.sends, t.tsOk, t.sackOk, g.ack, g.data.length, t.windowOf g, g.opts⟩
    hfit hcwnd hw hclear hblocks
  have hearly : Wire.Early (t.ackSentData g).wire := by
    rw [Wire.Early, ackSentData, ackSentData_now]
    exact hw
  refine timed_afterAck hfit' hclear' ?_ hearly hsyn (fun h => Snd.Unclosed.ackSentData (hun h)) hop
    fun hsends => ?_
  · rw [← hwnd'] at hwnd
    exact hwnd
  · refine (hat (hidle hsends)).imp_right fun ⟨hnxt, _, hpending, hputs⟩ => ⟨hnxt, fun hp => ?_⟩
    exact hputs.sends (htx (hpending.symm.trans hp))

variable (h : Timed t)

include h

lemma Timed.close (hp : Prompt t .close) : Timed t.close := by
  rcases close_cases t with heq | ⟨st, hst, hopen, heq⟩ <;> rw [heq]
  · exact h
  have hnone : State.unclosed st = false := by rcases hst with rfl | rfl <;> rfl
  refine timed_sendData (h.fit.frame rfl) h.ahead hp.1 ?_ ?_ ?_ fun _ => ?_
  · rcases hst with rfl | rfl <;> exact ⟨nofun, nofun⟩
  · exact fun hun => absurd (hnone.symm.trans hun) (by decide)
  · rcases hst with rfl | rfl <;> exact nofun
  by_cases hat : t.snd.rexmitAt = 0
  · have hsends : t.state.sends = true := by
      rcases hopen with hst | hst | hst
      · rw [hst]
        rfl
      · exact absurd hat (h.syn (.inr hst)).1
      · rw [hst]
        rfl
    have hidle := h.idle hsends hat
    exact .inr ⟨hidle.nxt, hidle.unclosed.1, hidle.wnd, hidle.clear, fun _ => hp.2 hat⟩
  · exact .inl hat

lemma Timed.send (data : List UInt8) (hp : t.wire.Early) : Timed (t.send data).1 := by
  rcases send_cases t data with ⟨r, heq, -⟩ | ⟨hst, heq⟩ <;> rw [heq]
  · exact h
  refine timed_sendData (h.fit.frame rfl) h.ahead hp ?_ h.unclosed h.opened fun _ => ?_
  · rcases hst with hst | hst <;> rw [hst] <;> decide
  by_cases hat : t.snd.rexmitAt = 0
  · have hidle := h.idle (by rcases hst with hst | hst <;> rw [hst] <;> rfl) hat
    refine .inr ⟨hidle.nxt, hidle.unclosed.1, hidle.wnd, hidle.clear, fun hpending => ?_⟩
    exact absurd (hidle.unclosed.2.symm.trans hpending) (by decide)
  · exact .inl hat

lemma Timed.recv (len : Nat) : Timed (t.recv len).1 := by
  rw [Tcb.recv]
  split
  · exact h.of_eq rfl rfl
  split
  · exact h
  split
  · exact h
  · split <;> exact h

/-! ### The timer -/

lemma Timed.backOff (hp : t.wire.Early) : Timed t.backedOff ∧ t.backedOff.snd.rexmitAt ≠ 0 := by
  have hfit : t.backedOff.snd.Fit := by
    have hge := h.fit.rto_ge
    have hle := h.fit.rto_le
    simp only [rtoMin, rtoMax] at hge hle
    constructor <;> simp only [backedOff, Tcb.backOff, cwndOnLoss, if_true, rtoMin, rtoMax, mss] <;>
      omega
  have hat := hfit.deadline_ne_zero hp
  refine ⟨⟨hfit, ?_, fun _ hz => absurd hz hat, fun hst => ?_, ?_, h.opened⟩, hat⟩
  · simpa only [backedOff, Tcb.backOff, cwndOnLoss, if_true] using h.ahead
  · have := h.syn hst
    refine ⟨hat, ?_⟩
    simpa only [backedOff, Tcb.backOff, cwndOnLoss, if_true] using this.2
  · simpa only [backedOff, Tcb.backOff, cwndOnLoss, if_true, Snd.Unclosed] using h.unclosed

lemma Timed.rexmitTick (hp : t.wire.Early) : Timed t.rexmitTick := by
  obtain ⟨hback, hat⟩ := h.backOff hp
  rcases rexmitTick_cases t with heq | ⟨-, ⟨-, -, heq⟩ | ⟨flags, hflags, heq⟩ | ⟨hne, heq⟩⟩ <;>
    rw [heq]
  · exact h
  · exact timed_of_state (h.fit.frame rfl) h.ahead rfl
  · exact hback.of_quiet (sendEmpty_quiet _ _ _ hflags)
  · exact timed_sendData (hback.fit.frame rfl)
      hback.ahead hp hne hback.unclosed hback.opened fun _ => .inl hat

lemma Timed.timer (hp : t.wire.Early) : Timed t.timer := by
  rcases timer_cases t with heq | heq | ⟨-, heq⟩ | ⟨t1, hkeep, heq⟩ <;> rw [heq]
  · exact h
  iterate 2 · exact timed_of_state h.fit h.ahead rfl
  · refine ((h.of_quiet (keepaliveTick_quiet hkeep)).of_quiet (delackTick_quiet t1)).rexmitTick ?_
    exact ((keepaliveTick_puts hkeep).trans (delackTick_puts t1)).early hp

/-! ### A segment -/

lemma Timed.onAccepted (hwnd : 0 < t.snd.wnd) (hp : Prompt t (.arrive g))
    (hsyn : t.state ≠ .synSent) : Timed (t.onAccepted g) := by
  obtain ⟨hw, hcwnd, -, hfree, hblocks, htx⟩ := hp
  rw [Tcb.onAccepted]
  split
  · rename_i hst
    obtain ⟨-, hlen, hsacked, hnxt⟩ := h.syn (.inr hst)
    split
    · exact h
    rename_i hack
    rw [not_not] at hack
    -- the SYN is acknowledged, and nothing else is in flight
    have hgt : gt g.ack t.snd.una = true := by
      rw [hack, hnxt, gt_base_iff, off]
      constructor <;> bv_omega
    rw [if_pos hgt] at hblocks
    refine timed_ack (t := { t with
      snd := { t.snd with una := g.ack, rexmitAt := 0 }
      state := .established
      pending := t.pending || t.listener.isSome })
      (h.fit.frame rfl) hwnd hw hcwnd ?_ ?_ ⟨fun h => State.noConfusion h,
        fun h => State.noConfusion h⟩
      (fun _ => h.unclosed (by rw [hst]; rfl)) (fun h => State.noConfusion h)
        (fun _ _ => hack.symm) htx
    · rw [hsacked]
      exact Range.Clear.nil _ _
    · rw [gt_self]
      exact hblocks
  · rename_i hst
    exact timed_ack h.fit hwnd hw hcwnd ⟨h.ahead, hfree⟩ hblocks ⟨hsyn, hst⟩ h.unclosed h.opened
      (fun hsends hat => (h.idle hsends hat).nxt) htx

lemma Timed.onSynSent (hsyn : t.state = .synSent) (hwin : 0 < g.window.toNat)
    (ws ts sack : Bool) : Timed (t.onSynSent g ws ts sack) := by
  obtain ⟨hat, hlen, hsacked, hnxt⟩ := h.syn (.inl hsyn)
  have hun := h.unclosed (by rw [hsyn]; rfl)
  rw [Tcb.onSynSent]
  split
  · exact h
  split
  · split
    · exact h
    rename_i hack
    rw [not_not] at hack
    refine Timed.of_quiet (Timed.of_quiet ?_ (agreeOpts_quiet _ g.opts ws ts sack))
      (sendAck_quiet _)
    refine ⟨h.fit.frame rfl, ?_, fun _ _ => ⟨hack.symm, hlen, hun, hwin, ?_⟩,
      fun hst => hst.elim (fun h => State.noConfusion h) fun h => State.noConfusion h, fun _ => hun,
      fun h => State.noConfusion h⟩
    · rw [hsacked]
      exact (Range.Clear.nil _ g.ack).ahead
    · rw [hsacked]
      exact Range.Clear.nil _ _
  · refine Timed.of_quiet (Timed.of_quiet ?_ (agreeOpts_quiet _ g.opts ws ts sack))
      (sendEmpty_quiet _ _ _ rfl)
    exact ⟨h.fit, h.ahead, fun h => Bool.noConfusion h, fun _ => ⟨hat, hlen, hsacked, hnxt⟩,
      fun _ => hun,
      fun h => State.noConfusion h⟩

lemma Timed.input (hp : Prompt t (.arrive g)) (ws ts sack : Bool) :
    Timed (t.input g ws ts sack) := by
  have hwin : g.flags.rst = false → 0 < g.window.toNat := fun hrst => by
    have := hp.2.2.1 hrst
    bv_omega
  refine input_rule ws ts sack h (fun _ => timed_of_state h.fit h.ahead rfl)
    (fun hrst hsyn => h.onSynSent hsyn (hwin hrst) ws ts sack) (h.of_quiet (sendAck_quiet t))
      fun hrst hsyn _ _ => ?_
  have hts := noteTs_quiet t g
  have h1 := h.of_quiet hts
  have hwnd : 0 < ((t.noteTs g).noteWindow g).snd.wnd := Nat.mul_pos (hwin hrst) (Nat.two_pow_pos _)
  have h2 : Timed ((t.noteTs g).noteWindow g) := ⟨h1.fit.frame rfl, h1.ahead,
      fun hs hz => ⟨(h1.idle hs hz).nxt, (h1.idle hs hz).len, (h1.idle hs hz).unclosed, hwnd,
        (h1.idle hs hz).clear⟩, h1.syn, h1.unclosed, h1.opened⟩
  refine h2.onAccepted hwnd ?_ ?_
  · rw [Prompt, noteWindow]
    rw [hts.snd, noteTs_wire]
    exact hp
  show (t.noteTs g).state ≠ .synSent
  rw [hts.state]
  exact hsyn

lemma Timed.on (call : Call) (hp : Prompt t call) : Timed (t.on call) := by
  match call with
  | .send data => exact h.send data hp
  | .recv len => exact h.recv len
  | .close => exact h.close hp
  | .arrive g => exact h.input hp true true true
  | .timer => exact h.timer hp

/-- A connection whose SYN was sent, or that was just established. -/
structure Begins (t : Tcb) : Prop where
  rto : t.snd.rtoMs = rtoInitial
  cwnd : 0 < t.snd.cwnd
  ssthresh : 0 < t.snd.ssthresh
  unclosed : t.snd.Unclosed
  sacked : t.snd.sacked = []
  empty : t.snd.len = 0
  state : (t.state = .synSent ∨ t.state = .synReceived) ∧ t.snd.rexmitAt ≠ 0 ∧
    t.snd.nxt = t.snd.una + 1 ∨
    t.state = .established ∧ t.snd.rexmitAt = 0 ∧ t.snd.nxt = t.snd.una ∧ 0 < t.snd.wnd

omit h in
lemma Begins.timed (h : Begins t) : Timed t := by
  have hfit : t.snd.Fit := ⟨by rw [h.rto]; decide, by rw [h.rto]; decide, h.cwnd, h.ssthresh⟩
  have hclear : Range.Clear t.snd.una t.snd.una t.snd.sacked := by
    rw [h.sacked]
    exact ⟨nofun, nofun⟩
  rcases h.state with ⟨hst, hat, hnxt⟩ | ⟨hst, -, hnxt, hwnd⟩
  · refine ⟨hfit, hclear.ahead, fun _ hz => absurd hz hat, fun _ => ⟨hat, h.empty, h.sacked, hnxt⟩,
      fun _ => h.unclosed, ?_⟩
    rcases hst with hst | hst <;> rw [hst] <;> decide
  refine ⟨hfit, hclear.ahead, fun _ _ => ⟨hnxt, h.empty, h.unclosed, hwnd, hclear⟩, ?_,
    fun _ => h.unclosed, ?_⟩
  · rw [hst]
    exact nofun
  · rw [hst]
    decide

/-- In a state that sends, the timer runs while a byte is queued or a FIN is wanted or out. -/
def Watched (t : Tcb) : Prop :=
  t.state.sends = true → 0 < t.snd.len ∨ t.snd.finPending = true ∨ t.snd.finSent = true →
    t.snd.rexmitAt ≠ 0
  deriving Decidable

lemma Timed.watched : Watched t := by
  intro hsends howed hzero
  obtain ⟨-, hlen, ⟨hsent, hpending⟩, -, -⟩ := h.idle hsends hzero
  rcases howed with hpos | hp | hs
  · omega
  · exact absurd (hpending.symm.trans hp) (by decide)
  · exact absurd (hsent.symm.trans hs) (by decide)

end Tcb

/-! ## Every run -/

namespace Session

def IsPrompt (c : Session) (e : Event) : Prop := (c.t.at_ e.now).Prompt e.call

instance (c : Session) (e : Event) : Decidable (IsPrompt c e) :=
    (c.t.at_ e.now).decidablePrompt e.call

/-- **Nothing is waited for without a timer**, in every run of prompt calls. -/
theorem never_waits (c : Session) (hc : c.t.Begins) (evs : List Event)
    (hevs : Runs.Every step IsPrompt evs c) : (evs.foldl step c).t.Watched :=
  (Runs.induction_on (I := fun c : Session => c.t.Timed)
    (fun c e h he => (h.of_quiet (at_quiet c.t e.now)).on e.call he) evs hc.timed hevs).watched

/-- The FIN that did not go while the byte before it was out is watched all the same. -/
theorem never_waits_polite : (politeClose.foldl step justOpen).t.Watched ∧
    ((politeClose.take 2).foldl step justOpen).t.snd.finPending = true := by
  have hbegins : justOpen.t.Begins :=
    ⟨rfl, by decide, by decide, ⟨rfl, rfl⟩, rfl, rfl, .inr ⟨rfl, rfl, rfl, by decide⟩⟩
  exact ⟨never_waits justOpen hbegins politeClose (by decide +kernel), by decide +kernel⟩

/-- **The timeout and the windows keep their bounds**, and what the peer has acknowledged out of
turn is ahead. -/
theorem bounds_kept (c : Session) (hc : c.t.Begins) (evs : List Event)
    (hevs : Runs.Every step IsPrompt evs c) :
    (evs.foldl step c).t.snd.Fit ∧
      ∀ r ∈ (evs.foldl step c).t.snd.sacked, Range.Ahead (evs.foldl step c).t.snd.una r := by
  have h := Runs.induction_on (I := fun c : Session => c.t.Timed)
    (fun c e h he => (h.of_quiet (at_quiet c.t e.now)).on e.call he) evs hc.timed hevs
  exact ⟨h.fit, h.ahead⟩

theorem bounds_kept_polite : (politeClose.foldl step justOpen).t.snd.Fit :=
  (bounds_kept justOpen ⟨rfl,
    by decide, by decide, ⟨rfl, rfl⟩, rfl, rfl, .inr ⟨rfl, rfl, rfl, by decide⟩⟩ politeClose
    (by decide +kernel)).1

/-- The peer closes its window, and a byte is queued. -/
def closedWindow : List Event :=
  [⟨0, .arrive { ackOf 100 with window := 0 }⟩, ⟨10, .send [7]⟩]

/-- The byte waits, and no timer runs that would ever send it. -/
theorem closed_window_waits : (closedWindow.foldl step justOpen).t.state = .established ∧
      (closedWindow.foldl step justOpen).t.snd.len = 1 ∧
      (closedWindow.foldl step justOpen).t.snd.rexmitAt = 0 := by
  decide +kernel

end Session

end Sage040.Tcp
