import Sage040.Net.Tcp.Closing

/-!
# The peer's stream is delivered

The peer has a stream of bytes, which starts at number `base`, and a FIN after it. Every segment
carries a slice of it, wherever that starts; a `Reader` is a connection with what `tcp_recv` has
returned of it. `Rcv.Receiving` is the invariant: what was returned and what is in the ring are
together the first bytes of the stream, `rcv_nxt` is the number after them, and what is held out of
order are slices further on.

The peer's FIN is taken if the segment that has it does not start ahead of `rcv_nxt`, whether the
bytes of that segment could be taken or not. One that repeats bytes already taken, or for which
there is no room, ends the stream early (`fin_on_overlap`). `stream_delivered` is for the runs in
which there is none. `ip_output` neither sleeps in ARP nor has `tcp_input` entered again (see
`Wire`).
-/

namespace Sage040.Tcp

open Function List

open SeqNum (gt le ge off)

/-- `data` is what the stream has from place `p` on. -/
def Slice (B : List UInt8) (p : Nat) (data : List UInt8) : Prop :=
    (B.drop p).take data.length = data
  deriving Decidable

variable {n i fuel : Nat} {b : Bool} {is : List Nat} {seq : SeqNum}

namespace Slice

variable {B data : List UInt8} {p : Nat}

lemma take (h : Slice B p data) (n) : Slice B p (data.take n) := by
  rw [Slice, length_take]
  conv_rhs => rw [← h]
  rw [take_take]

lemma drop (h : Slice B p data) (n) : Slice B (p + n) (data.drop n) := by
  rw [Slice, length_drop, ← drop_drop]
  conv_rhs => rw [← h]
  rw [drop_take]

/-- What comes next in the stream goes after what came before. -/
lemma append (h : Slice B p data) : B.take p ++ data = B.take (p + data.length) := by
  rw [take_add, h]

end Slice

namespace Rcv

variable {B got : List UInt8} {base : SeqNum} {r r' : Rcv}

/-- A segment that is held, and its place in the stream. -/
structure HeldAt (B : List UInt8) (base : SeqNum) (o : Ooo) (p : Nat) : Prop where
  seq : o.seq = base + BitVec.ofNat 32 p
  slice : Slice B p o.data
  le : p + o.data.length ≤ B.length

/-- While bytes are taken: the stream so far, and segments of it that are held. -/
structure Taking (B got : List UInt8) (base : SeqNum) (r : Rcv) : Prop where
  ring : r.buf.Ok rcvbufSize
  bytes : got ++ r.buf.contents rcvbufSize = B.take (got.length + r.used)
  le : got.length + r.used ≤ B.length
  nxt : r.nxt = base + BitVec.ofNat 32 (got.length + r.used)
  held : ∀ i o, r.ooo i = some o → ∃ p, HeldAt B base o p ∧ got.length < p ∧
    p < got.length + r.used + 2 ^ 31
  bound : ∀ i, oooPerCb ≤ i → r.ooo i = none

lemma buf_take (r : Rcv) (data) :
    (r.take data).buf = (data.take (min data.length r.free)).foldl
    (RingBuffer.push rcvbufSize) r.buf := by
  rw [take, put]
  rw [take_of_length_le (by rw [length_take]; omega)]

lemma used_take (r : Rcv) (data) : (r.take data).used = r.used + min data.length r.free := by
  rw [used, buf_take, RingBuffer.count_foldl_push, length_take, used]
  omega

variable {data : List UInt8}

variable (h : Taking B got base r)

include h

lemma Taking.take (hslice : Slice B (got.length + r.used) data)
    (hle : got.length + r.used + data.length ≤ B.length) :
    Taking B got base (r.take data) := by
  have hused := used_take r data
  have hlen : (data.take (min data.length r.free)).length = min data.length r.free := by
    rw [length_take]
    omega
  have hroom : r.buf.count + (data.take (min data.length r.free)).length ≤ rcvbufSize := by
    have hcount := h.ring.count
    rw [hlen, free, used]
    omega
  obtain ⟨hring, hcontents⟩ := RingBuffer.foldl_push
    (data.take (min data.length r.free)) h.ring hroom
  refine ⟨?_, ?_, by omega, ?_, fun i o ho => ?_, h.bound⟩
  · rw [buf_take]
    exact hring
  · rw [buf_take, hcontents, ← append_assoc, h.bytes, (hslice.take _).append, hlen, hused,
      Nat.add_assoc]
  · rw [hused, ← Nat.add_assoc, BitVec.ofNat_add, ← BitVec.add_assoc, ← h.nxt]
    rfl
  · obtain ⟨p, hheld, hlt, hnear⟩ := h.held i o ho
    exact ⟨p, hheld, hlt, by omega⟩

/-- How far the stream has got is no further than a ring past what was returned. -/
lemma Taking.used_le : r.used ≤ 131072 := h.ring.count

/-- A held segment is ahead of `rcv_nxt` as its place is ahead of the bytes taken. -/
lemma Taking.le_iff {o : Ooo} {p} (hheld : HeldAt B base o p)
    (hlt : got.length < p) (hnear : p < got.length + r.used + 2 ^ 31) :
    SeqNum.le o.seq r.nxt = true ↔ p ≤ got.length + r.used := by
  have hused := h.used_le
  rw [SeqNum.le, hheld.seq, h.nxt, Bool.not_eq_true', ← Bool.not_eq_true,
    SeqNum.gt_add_iff base hnear (by omega), Nat.not_lt]

lemma Taking.setOoo (i) : Taking B got base { r with ooo := update r.ooo i none } := by
  refine ⟨h.ring, h.bytes, h.le, h.nxt, fun j o ho => h.held j o ?_, fun j hj => ?_⟩
  · dsimp only at ho
    by_cases hji : j = i
    · subst hji
      rw [update_self] at ho
      cases ho
    · rwa [update_of_ne hji] at ho
  by_cases hji : j = i
  · subst hji
    exact update_self _ _ _
  dsimp only
  rw [update_of_ne hji]
  exact h.bound j hj

lemma Taking.drainAt (i) : Taking B got base (r.drainAt i).1 := by
  rw [Rcv.drainAt]
  split
  · exact h
  rename_i o ho
  obtain ⟨p, hheld, hlt, hnear⟩ := h.held i o ho
  split
  · rename_i hle
    rw [h.le_iff hheld hlt hnear] at hle
    refine Taking.setOoo ?_ i
    have hused := h.used_le
    -- how much of it was taken before
    have hskip : (r.nxt - o.seq).toNat = got.length + r.used - p := by
      rw [h.nxt, hheld.seq, SeqNum.add_sub_add]
      omega
    rw [hskip]
    split
    · have hslice := hheld.slice.drop (got.length + r.used - p)
      rw [Nat.add_sub_cancel' hle] at hslice
      have hend := hheld.le
      exact h.take hslice (by rw [length_drop]; omega)
    · exact h
  · exact h

omit h

/-- The loop over the places of `ooo`. -/
def drainFrom (p : Rcv × Bool) (is : List Nat) : Rcv × Bool :=
  is.foldl (fun p i =>
    let (r, progressed) := p.1.drainAt i
    (r, p.2 || progressed)) p

lemma drainPass_eq (r) : r.drainPass = drainFrom (r, false) (List.range oooPerCb) := by
  delta drainPass drainFrom
  with_reducible rfl

lemma drainFrom_cons (r) (b) (i) (is) :
    drainFrom (r, b) (i :: is) = drainFrom ((r.drainAt i).1, b || (r.drainAt i).2) is := by
  rw [drainFrom, foldl_cons, drainFrom]

lemma Taking.drainFrom (is) (h : Taking B got base r) (b) :
    Taking B got base (drainFrom (r, b) is).1 := by
  induction is generalizing r b with
  | nil => exact h
  | cons i is ih =>
    rw [drainFrom_cons]
    exact ih (h.drainAt i) _

lemma Taking.drain (fuel) (h : Taking B got base r) : Taking B got base (r.drain fuel) := by
  induction fuel generalizing r with
  | zero => exact h
  | succ fuel ih =>
    have hpass := h.drainFrom (range oooPerCb) false
    rw [Rcv.drain, drainPass_eq]
    generalize Rcv.drainFrom (r, false) (range oooPerCb) = res at hpass ⊢
    obtain ⟨r1, progressed⟩ := res
    cases progressed with
    | true => exact ih hpass
    | false => exact hpass

/-! ## The passes end -/

/-- What one place's turn did: nothing, as what is held there is ahead; or the place is free. -/
lemma drainAt_cases (r : Rcv) (i) : (r.drainAt i = (r, false) ∧ ∀ o, r.ooo i = some o →
    SeqNum.le o.seq r.nxt = false) ∨
      ((r.drainAt i).2 = true ∧ (r.ooo i).isSome ∧ (r.drainAt i).1.ooo = update r.ooo i none) := by
  rw [drainAt]
  split
  · rename_i hnone
    exact .inl ⟨rfl, fun o ho => by rw [hnone] at ho; cases ho⟩
  rename_i ho
  split
  · refine .inr ⟨rfl, by rw [ho]; rfl, ?_⟩
    dsimp only
    split <;> rfl
  rename_i hahead
  rw [Bool.not_eq_true] at hahead
  refine .inl ⟨rfl, fun o' ho' => ?_⟩
  rw [ho] at ho'
  cases ho'
  exact hahead

def inUse (r : Rcv) : Finset Nat := (Finset.range oooPerCb).filter fun i => (r.ooo i).isSome

lemma drainFrom_true (is) (r) : (drainFrom (r, true) is).2 = true := by
  induction is generalizing r with
  | nil => rfl
  | cons i is ih =>
    exact ih (r.drainAt i).1

/-- What a pass does: if it finds nothing, nothing changes and everything held is ahead; otherwise a
place comes free, and none is taken. -/
lemma drainFrom_spec (is) (r : Rcv) (b) : ((drainFrom (r, b) is).2 = false →
    (drainFrom (r, b) is).1 = r ∧
        ∀ i ∈ is, ∀ o, r.ooo i = some o → SeqNum.le o.seq r.nxt = false) ∧
      (∀ i, ((drainFrom (r, b) is).1.ooo i).isSome → (r.ooo i).isSome) ∧
      ((drainFrom (r, b) is).2 = true → b = true ∨
        ∃ i ∈ is, (r.ooo i).isSome ∧ ((drainFrom (r, b) is).1.ooo i).isSome = false) := by
  induction is generalizing r b with
  | nil => exact ⟨fun _ => ⟨rfl, nofun⟩, fun _ h => h, fun h => .inl h⟩
  | cons i is ih =>
    obtain ⟨hstill, hsub, hfreed⟩ := ih (r.drainAt i).1 (b || (r.drainAt i).2)
    rw [drainFrom_cons]
    rcases drainAt_cases r i with ⟨heq, hahead⟩ | ⟨htrue, hsome, hooo⟩
    · rw [heq] at hstill hsub hfreed ⊢
      rw [Bool.or_false] at hstill hsub hfreed ⊢
      refine ⟨fun h => ⟨(hstill h).1, ?_⟩, hsub, fun h => ?_⟩
      · exact forall_mem_cons.2 ⟨hahead, (hstill h).2⟩
      · exact (hfreed h).imp_right fun ⟨j, hj, hj'⟩ => ⟨j, mem_cons_of_mem i hj, hj'⟩
    rw [htrue, Bool.or_true] at hstill hsub hfreed ⊢
    rw [hooo] at hsub
    have hle : ∀ j, (update r.ooo i none j).isSome = true → (r.ooo j).isSome = true ∧ j ≠ i := by
      intro j hj
      by_cases hji : j = i
      · subst hji
        rw [update_self] at hj
        cases hj
      · rw [update_of_ne hji] at hj
        exact ⟨hj, hji⟩
    refine ⟨fun h => ?_, fun j hj => (hle j (hsub j hj)).1,
      fun _ => .inr ⟨i, mem_cons_self, hsome, ?_⟩⟩
    · exact absurd h (by rw [drainFrom_true]; decide)
    by_contra hne
    rw [Bool.not_eq_false] at hne
    exact (hle i (hsub i hne)).2 rfl

/-- **The passes end with nothing left to take**: each of the others frees a place. -/
lemma drain_ahead (fuel) (r : Rcv) (hfuel : r.inUse.card < fuel) :
    ∀ i < oooPerCb, ∀ o, (r.drain fuel).ooo i = some o →
    SeqNum.le o.seq (r.drain fuel).nxt = false := by
  induction fuel generalizing r with
  | zero => exact absurd hfuel (Nat.not_lt_zero _)
  | succ fuel ih =>
    obtain ⟨hstill, hsub, hfreed⟩ := drainFrom_spec (range oooPerCb) r false
    rw [drain, drainPass_eq]
    generalize drainFrom (r, false) (range oooPerCb) = res at hstill hsub hfreed ⊢
    obtain ⟨r1, progressed⟩ := res
    cases progressed with
    | true =>
      refine ih r1 (Nat.lt_of_lt_of_le ?_ (Nat.lt_succ_iff.1 hfuel))
      obtain ⟨i, hi, hsome, hnone⟩ := (hfreed rfl).resolve_left Bool.false_ne_true
      refine Finset.card_lt_card (Finset.ssubset_iff_of_subset ?_ |>.2 ⟨i, ?_, ?_⟩)
      · exact fun j hj => Finset.mem_filter.2 ⟨(Finset.mem_filter.1 hj).1,
          hsub j (Finset.mem_filter.1 hj).2⟩
      · exact Finset.mem_filter.2 ⟨Finset.mem_range.2 (mem_range.1 hi), hsome⟩
      intro hj
      have := (Finset.mem_filter.1 hj).2
      rw [hnone] at this
      cases this
    | false =>
      obtain ⟨heq, hahead⟩ := hstill rfl
      dsimp only at heq ⊢
      rw [heq]
      exact fun i hi => hahead i (mem_range.2 hi)

lemma inUse_card (r : Rcv) : r.inUse.card < oooPerCb + 1 := by
  have := Finset.card_filter_le (Finset.range oooPerCb) fun i => (r.ooo i).isSome
  exact Nat.lt_succ_of_le this

/-- Taking bytes: the ring is filled, and no FIN comes of it. Into a full one nothing goes. -/
structure Later (r r' : Rcv) : Prop where
  finRcvd : r'.finRcvd = r.finRcvd
  tsRecent : r'.tsRecent = r.tsRecent
  used : r.used ≤ r'.used
  full : r.free = 0 → r'.nxt = r.nxt ∧ r'.buf = r.buf

lemma Later.refl (r) : Later r r := ⟨rfl, rfl, Nat.le_refl _, fun _ => ⟨rfl, rfl⟩⟩

lemma Later.trans {r''} (h : Later r r') (h' : Later r' r'') : Later r r'' := by
  refine ⟨h'.finRcvd.trans h.finRcvd, h'.tsRecent.trans h.tsRecent, Nat.le_trans h.used h'.used,
    fun hfull => ?_⟩
  obtain ⟨hnxt, hbuf⟩ := h.full hfull
  have hfull' : r'.free = 0 := by
    rw [free, Rcv.used, hbuf]
    exact hfull
  exact ⟨(h'.full hfull').1.trans hnxt, (h'.full hfull').2.trans hbuf⟩

lemma take_later (r : Rcv) (data) : Later r (r.take data) := by
  refine ⟨rfl, rfl, by rw [used_take]; exact Nat.le_add_right _ _, fun hfull => ⟨?_, ?_⟩⟩
  · show r.nxt + BitVec.ofNat 32 (min data.length r.free) = r.nxt
    rw [hfull, Nat.min_zero]
    exact BitVec.add_zero _
  · rw [buf_take, hfull, Nat.min_zero]
    rfl

lemma drainAt_later (r) (i) : Later r (r.drainAt i).1 := by
  rw [drainAt]
  split
  · exact Later.refl r
  split
  · rename_i o _ _
    have htake := take_later r (o.data.drop (r.nxt - o.seq).toNat)
    dsimp only
    split
    · exact ⟨htake.finRcvd, htake.tsRecent, htake.used, htake.full⟩
    · exact ⟨rfl, rfl, Nat.le_refl _, fun _ => ⟨rfl, rfl⟩⟩
  · exact Later.refl r

lemma drain_later (fuel) (r) : Later r (r.drain fuel) := by
  have hfrom : ∀ (is : List Nat) (r : Rcv) (b : Bool), Later r (drainFrom (r, b) is).1 := by
    intro is
    induction is with
    | nil => exact fun r _ => Later.refl r
    | cons i is ih =>
      intro r b
      rw [drainFrom_cons]
      exact (drainAt_later r i).trans (ih _ _)
  induction fuel generalizing r with
  | zero => exact Later.refl r
  | succ fuel ih =>
    have hpass := hfrom (range oooPerCb) r false
    rw [drain, drainPass_eq]
    generalize drainFrom (r, false) (range oooPerCb) = res at hpass ⊢
    obtain ⟨r1, progressed⟩ := res
    cases progressed with
    | true => exact hpass.trans (ih r1)
    | false => exact hpass

/-! ## The invariant -/

/-- What was returned and what is in the ring are the stream so far, `rcv_nxt` is the number after
it, and what is held is further on. -/
structure Receiving (B got : List UInt8) (base : SeqNum) (r : Rcv) : Prop where
  ring : r.buf.Ok rcvbufSize
  bytes : got ++ r.buf.contents rcvbufSize = B.take (got.length + r.used)
  le : got.length + r.used ≤ B.length
  nxt : r.nxt = base + BitVec.ofNat 32 (got.length + r.used + if r.finRcvd then 1 else 0)
  fin : r.finRcvd = true → got.length + r.used = B.length
  held : ∀ i o, r.ooo i = some o → ∃ p, HeldAt B base o p ∧ got.length + r.used < p ∧
    p < got.length + r.used + 2 ^ 31
  bound : ∀ i, oooPerCb ≤ i → r.ooo i = none

lemma Receiving.taking (h : Receiving B got base r) (hfin : r.finRcvd = false) :
    Taking B got base r := by
  refine ⟨h.ring, h.bytes, h.le, ?_, fun i o ho => ?_, h.bound⟩
  · have := h.nxt
    rwa [hfin, if_neg Bool.false_ne_true] at this
  · obtain ⟨p, hheld, hlt, hnear⟩ := h.held i o ho
    exact ⟨p, hheld, by omega, hnear⟩

/-- The bytes of a segment that starts at `rcv_nxt`, and what is held behind them. -/
lemma Receiving.takeAndDrain (h : Receiving B got base r) (hfin : r.finRcvd = false)
    (hslice : Slice B (got.length + r.used) data)
    (hle : got.length + r.used + data.length ≤ B.length) :
    Receiving B got base ((r.take data).drain (oooPerCb + 1)) := by
  have htake := ((h.taking hfin).take hslice hle).drain (oooPerCb + 1)
  have hahead := drain_ahead (oooPerCb + 1) (r.take data) (inUse_card _)
  have hfin' : ((r.take data).drain (oooPerCb + 1)).finRcvd = false :=
    ((take_later r data).trans (drain_later _ _)).finRcvd.trans hfin
  generalize (r.take data).drain (oooPerCb + 1) = r' at htake hahead hfin' ⊢
  refine ⟨htake.ring, htake.bytes, htake.le, ?_, fun hf => ?_, fun i o ho => ?_, htake.bound⟩
  · rw [hfin', if_neg Bool.false_ne_true]
    exact htake.nxt
  · rw [hfin'] at hf
    cases hf
  obtain ⟨p, hheld, hlt, hnear⟩ := htake.held i o ho
  refine ⟨p, hheld, ?_, hnear⟩
  have hi : i < oooPerCb := by
    refine Nat.lt_of_not_le fun hge => ?_
    rw [htake.bound i hge] at ho
    cases ho
  have hnot := hahead i hi o ho
  rw [← Bool.not_eq_true, htake.le_iff hheld hlt hnear, Nat.not_le] at hnot
  exact hnot

lemma Receiving.oooQueue (h : Receiving B got base r) {p}
    (hheld : HeldAt B base ⟨seq, data⟩ p) (hlt : got.length + r.used < p)
    (hnear : p < got.length + r.used + 2 ^ 31) : Receiving B got base (r.oooQueue seq data) := by
  rw [Rcv.oooQueue]
  iterate 3
    split
    · exact h
  rename_i i hi
  have hplace : i < oooPerCb := mem_range.1 (mem_of_find?_eq_some hi)
  split
  · refine ⟨h.ring, h.bytes, h.le, h.nxt, h.fin, fun j o ho => ?_, fun j hj => ?_⟩
    · dsimp only at ho
      by_cases hji : j = i
      · subst hji
        rw [update_self] at ho
        cases ho
        exact ⟨p, hheld, hlt, hnear⟩
      · rw [update_of_ne hji] at ho
        exact h.held j o ho
    · dsimp only
      rw [update_of_ne (by omega)]
      exact h.bound j hj
  · exact ⟨h.ring, h.bytes, h.le, h.nxt, h.fin, h.held, h.bound⟩

lemma oooQueue_frame (r : Rcv) (seq) (data) : (r.oooQueue seq data).nxt = r.nxt ∧
    (r.oooQueue seq data).buf = r.buf ∧
      (r.oooQueue seq data).finRcvd = r.finRcvd ∧ (r.oooQueue seq data).tsRecent = r.tsRecent := by
  rw [oooQueue]
  iterate 3
    split
    · exact ⟨rfl, rfl, rfl, rfl⟩
  · split <;> exact ⟨rfl, rfl, rfl, rfl⟩

structure Same (r r' : Rcv) : Prop where
  nxt : r'.nxt = r.nxt
  buf : r'.buf = r.buf
  ooo : r'.ooo = r.ooo
  finRcvd : r'.finRcvd = r.finRcvd

lemma Same.refl (r) : Same r r := ⟨rfl, rfl, rfl, rfl⟩

lemma Same.trans {r''} (h : Same r r') (h' : Same r' r'') : Same r r'' :=
  ⟨h'.nxt.trans h.nxt, h'.buf.trans h.buf, h'.ooo.trans h.ooo, h'.finRcvd.trans h.finRcvd⟩

lemma Same.used (h : Same r r') : r'.used = r.used := by rw [Rcv.used, Rcv.used, h.buf]

lemma Receiving.of_same (h : Receiving B got base r) (hs : Same r r') :
    Receiving B got base r' := by
  refine ⟨?_, ?_, ?_, ?_, ?_, ?_, ?_⟩
  · rw [hs.buf]
    exact h.ring
  · rw [hs.buf, hs.used]
    exact h.bytes
  · rw [hs.used]
    exact h.le
  · rw [hs.nxt, hs.used, hs.finRcvd]
    exact h.nxt
  · rw [hs.used, hs.finRcvd]
    exact h.fin
  · rw [hs.ooo, hs.used]
    exact h.held
  · rw [hs.ooo]
    exact h.bound

/-- `tcp_recv` takes from the front of the ring. -/
lemma Receiving.advance (h : Receiving B got base r) (len : Nat)
    (hdata : data = (r.buf.contents rcvbufSize).take len) :
    Receiving B (got ++ data) base { r with buf := r.buf.advance rcvbufSize data.length } := by
  have hlen : data.length ≤ r.used := by
    rw [hdata, length_take, RingBuffer.length_contents, used]
    exact Nat.min_le_right _ _
  have hused : (got ++ data).length + (r.buf.advance rcvbufSize data.length).count =
      got.length + r.used := by
    rw [length_append]
    show got.length + data.length + (r.used - data.length) = _
    omega
  have hrest : data ++ (r.buf.contents rcvbufSize).drop data.length = r.buf.contents rcvbufSize :=
      by
    obtain ⟨rest, hrest⟩ : data <+: r.buf.contents rcvbufSize := hdata ▸ take_prefix _ _
    rw [← hrest, drop_left]
  refine ⟨h.ring.advance _, ?_, ?_, ?_, fun hf => ?_, fun i o ho => ?_, h.bound⟩
  · show _ ++ (r.buf.advance rcvbufSize data.length).contents rcvbufSize =
      B.take (_ + RingBuffer.count _)
    rw [hused, RingBuffer.contents_advance, append_assoc, hrest, h.bytes]
  · exact Nat.le_trans (Nat.le_of_eq hused) h.le
  · show _ = base + BitVec.ofNat 32 (_ + RingBuffer.count _ + _)
    rw [hused, h.nxt]
  · exact hused.trans (h.fin hf)
  · show ∃ p, _ ∧ _ + RingBuffer.count _ < _ ∧ _ < _ + RingBuffer.count _ + _
    rw [hused]
    exact h.held i o ho

/-- Nothing is in the ring and the FIN has come: everything was returned. -/
lemma Receiving.all (h : Receiving B got base r) (hfin : r.finRcvd = true)
    (hempty : r.buf.contents rcvbufSize = []) : got = B := by
  have hbytes := h.bytes
  rwa [hempty, append_nil, h.fin hfin, take_length] at hbytes

lemma Receiving.isPrefix (h : Receiving B got base r) : got <+: B := by
  have hbytes := h.bytes
  exact (prefix_append got _).trans (hbytes ▸ take_prefix _ B)

end Rcv

/-! ## Segments of the stream -/

/-- A segment that carries what the stream has from place `p` on, and the FIN only where the stream
ends. -/
structure Carries (B : List UInt8) (base : SeqNum) (g : Seg) (p : Nat) : Prop where
  seq : g.seq = base + BitVec.ofNat 32 p
  slice : Slice B p g.data
  le : p + g.data.length ≤ B.length
  short : g.data.length ≤ mss
  fin : g.flags.fin = true → p + g.data.length = B.length

/-- Two places that sequence numbers can tell apart. -/
def Near (p k : Nat) : Prop := p < k + 2 ^ 31 ∧ k + 1 < p + 2 ^ 31
  deriving Decidable

namespace Tcb

variable {B got : List UInt8} {base : SeqNum} {t t' : Tcb} {g : Seg} {p : Nat}

/-- The receive side stays as it is, and the SYN that was answered stays so. -/
structure Hears (t t' : Tcb) : Prop where
  rcv : Rcv.Same t.rcv t'.rcv
  state : t.state ≠ .synSent → t'.state ≠ .synSent

lemma Hears.refl (t) : Hears t t := ⟨Rcv.Same.refl _, id⟩

lemma Hears.trans {t''} (h : Hears t t') (h' : Hears t' t'') : Hears t t'' :=
  ⟨h.rcv.trans h'.rcv, h'.state ∘ h.state⟩

lemma hears_of_eq (hrcv : t'.rcv = t.rcv) (hstate : t'.state = t.state ∨ t'.state ≠ .synSent) :
    Hears t t' := by
  refine ⟨hrcv ▸ Rcv.Same.refl _, fun h => ?_⟩
  rcases hstate with heq | hne
  · rwa [heq]
  · exact hne

lemma sendData_rcv (t : Tcb) : t.sendData.rcv = t.rcv := by
  rw [sendData]
  split <;> rfl

lemma Hears.sendData (h : Hears t t') : Hears t t'.sendData :=
  h.trans (hears_of_eq (sendData_rcv t') (.inl (sendData_state t')))

lemma delayAck_same (t : Tcb) : Rcv.Same t.rcv t.delayAck.rcv := by
  rw [delayAck]
  split
  · exact ⟨rfl, rfl, rfl, rfl⟩
  · split <;> exact ⟨rfl, rfl, rfl, rfl⟩

lemma noteTs_hears (t g) : Hears t (t.noteTs g) := by
  refine ⟨?_, by rw [(noteTs_quiet t g).state]; exact id⟩
  rw [noteTs]
  split <;> exact ⟨rfl, rfl, rfl, rfl⟩

lemma delackTick_hears (t) : Hears t t.delackTick := by
  refine ⟨?_, by rw [(delackTick_quiet t).state]; exact id⟩
  rw [delackTick]
  split <;> exact ⟨rfl, rfl, rfl, rfl⟩

lemma keepaliveTick_hears (h : t.keepaliveTick = some t') : Hears t t' := by
  obtain ⟨next, probes, rfl | rfl⟩ := keepaliveTick_cases h <;> exact hears_of_eq rfl (.inl rfl)

lemma rexmitTick_hears (t) : Hears t t.rexmitTick := by
  rcases rexmitTick_cases t with heq | ⟨-, ⟨-, -, heq⟩ | ⟨flags, -, heq⟩ | ⟨-, heq⟩⟩ <;> rw [heq]
  · exact Hears.refl t
  · exact hears_of_eq rfl (.inr (fun h => State.noConfusion h))
  · exact hears_of_eq rfl (.inl rfl)
  · exact Hears.sendData (hears_of_eq rfl (.inl rfl))

lemma timer_hears (t) : Hears t t.timer := by
  rcases timer_cases t with heq | heq | ⟨-, heq⟩ | ⟨t1, hkeep, heq⟩ <;> rw [heq]
  · exact Hears.refl t
  iterate 2 · exact hears_of_eq rfl (.inr (fun h => State.noConfusion h))
  · exact ((keepaliveTick_hears hkeep).trans (delackTick_hears t1)).trans (rexmitTick_hears _)

lemma send_hears (t data) : Hears t (t.send data).1 := by
  rcases send_cases t data with ⟨r, heq, -⟩ | ⟨-, heq⟩ <;> rw [heq]
  · exact Hears.refl t
  · exact Hears.sendData (hears_of_eq rfl (.inl rfl))

lemma close_hears (t) : Hears t t.close := by
  rcases close_cases t with heq | ⟨st, hst, -, heq⟩ <;> rw [heq]
  · exact Hears.refl t
  have hne : st ≠ .synSent := by rcases hst with rfl | rfl <;> decide
  exact Hears.sendData (hears_of_eq rfl (.inr hne))

/-! ### A segment that arrives -/

lemma afterAck_synSent (h : t.state ≠ .synSent) : (t.afterAck g).state ≠ .synSent := by
  intro habs
  rcases afterAck_states t g with hst | hst
  · exact h (hst.symm.trans habs)
  rw [habs] at hst
  exact absurd hst (by decide)

variable (h : t.rcv.Receiving B got base) (hg : Carries B base g p)
  (hnear : Near p (got.length + t.rcv.used))

include h hg hnear

/-- Where a segment starts, as the sequence numbers say it and as it is. -/
lemma seq_iff : (g.seq = t.rcv.nxt ↔ p = got.length + t.rcv.used + if t.rcv.finRcvd then 1 else 0) ∧
      (gt g.seq t.rcv.nxt = true ↔ (got.length + t.rcv.used + if t.rcv.finRcvd then 1 else 0) <
      p) := by
  obtain ⟨hbelow, habove⟩ := hnear
  have hone : (if t.rcv.finRcvd = true then 1 else 0) ≤ 1 := by split <;> decide
  rw [hg.seq, h.nxt]
  generalize (if t.rcv.finRcvd = true then 1 else 0) = f at hone ⊢
  exact ⟨SeqNum.add_inj_iff base (by omega) (by omega),
    SeqNum.gt_add_iff base (by omega) (by omega)⟩

lemma seq_after_fin (hfin : t.rcv.finRcvd = true) : g.seq ≠ t.rcv.nxt ∧
    gt g.seq t.rcv.nxt = false := by
  obtain ⟨heq, hgt⟩ := seq_iff h hg hnear
  have hall := h.fin hfin
  have hle := hg.le
  rw [hfin, if_pos rfl] at heq hgt
  rw [ne_eq, heq, ← Bool.not_eq_true, hgt]
  omega

lemma receiving_onData : (t.onData g).rcv.Receiving B got base ∧
    (t.onData g).rcv.finRcvd = t.rcv.finRcvd := by
  obtain ⟨heq, hgt⟩ := seq_iff h hg hnear
  rw [onData]
  split
  · split
    · rename_i hseq
      have hfin : t.rcv.finRcvd = false := by
        rw [← Bool.not_eq_true]
        exact fun hfin => (seq_after_fin h hg hnear hfin).1 hseq
      rw [heq, hfin, if_neg Bool.false_ne_true, Nat.add_zero] at hseq
      have hdrain := h.takeAndDrain hfin (hseq ▸ hg.slice) (hseq ▸ hg.le)
      have hlater := (Rcv.take_later t.rcv g.data).trans (Rcv.drain_later (oooPerCb + 1) _)
      have hsame := delayAck_same { t with rcv := (t.rcv.take g.data).drain (oooPerCb + 1) }
      exact ⟨hdrain.of_same hsame, hsame.finRcvd.trans hlater.finRcvd⟩
    split
    · rename_i hahead
      have hfin : t.rcv.finRcvd = false := by
        rw [← Bool.not_eq_true]
        intro hfin
        rw [(seq_after_fin h hg hnear hfin).2] at hahead
        cases hahead
      rw [hgt, hfin, if_neg Bool.false_ne_true, Nat.add_zero] at hahead
      have hheld : Rcv.HeldAt B base ⟨g.seq, g.data⟩ p := ⟨hg.seq, hg.slice, hg.le⟩
      obtain ⟨-, -, hrcvd, -⟩ := Rcv.oooQueue_frame t.rcv g.seq g.data
      exact ⟨(h.oooQueue hheld hahead hnear.1).of_same ⟨rfl, rfl, rfl, rfl⟩, hrcvd⟩
    · exact ⟨h, rfl⟩
  · split <;> exact ⟨h, rfl⟩

/-- A FIN's segment that does not start ahead of `rcv_nxt` ends there, or starts there and fits. -/
def Ends (t : Tcb) (g : Seg) : Prop :=
  g.seq + BitVec.ofNat 32 g.data.length = t.rcv.nxt ∨
    (g.seq = t.rcv.nxt ∧ g.data.length ≤ t.rcv.free)
  deriving Decidable

lemma onData_complete (hrcvd : t.rcv.finRcvd = false) (hfin : g.flags.fin = true)
    (hends : le g.seq t.rcv.nxt = true → t.Ends g) (hle : le g.seq (t.onData g).rcv.nxt = true) :
    got.length + (t.onData g).rcv.used = B.length := by
  obtain ⟨heq, hgt⟩ := seq_iff h hg hnear
  rw [hrcvd, if_neg Bool.false_ne_true, Nat.add_zero] at heq hgt
  have hlast := hg.fin hfin
  have hshort : g.data.length ≤ 1400 := hg.short
  have hmost := h.le
  have hnot : ∀ x, le g.seq x = true → ¬ gt g.seq x = true := fun x hx => by
    rwa [le, Bool.not_eq_true', ← Bool.not_eq_true] at hx
  -- a segment that ends at `rcv_nxt` brings nothing, as all of the stream was taken
  have hdone : p ≤ got.length + t.rcv.used → g.seq + BitVec.ofNat 32 g.data.length = t.rcv.nxt →
      got.length + t.rcv.used = B.length := by
    intro hp hend
    rw [hg.seq, h.nxt, hrcvd, if_neg Bool.false_ne_true, Nat.add_zero, BitVec.add_assoc,
      ← BitVec.ofNat_add,
      SeqNum.add_inj_iff base (by omega) (by have := hnear.2; omega)] at hend
    omega
  have hmore := (receiving_onData h hg hnear).1.le
  rw [onData] at hle hmore ⊢
  split at hle
  · rename_i hpos
    rw [if_pos hpos] at hmore ⊢
    split at hle
    · rename_i hseq
      rw [if_pos hseq] at hmore ⊢
      have hp := heq.1 hseq
      have hself : le g.seq t.rcv.nxt = true := by
        rw [le, Bool.not_eq_true', ← Bool.not_eq_true, hgt]
        omega
      have hsame := delayAck_same { t with rcv := (t.rcv.take g.data).drain (oooPerCb + 1) }
      have hlater := (Rcv.drain_later (oooPerCb + 1) (t.rcv.take g.data)).used
      rw [Rcv.used_take] at hlater
      rw [hsame.used] at hmore ⊢
      dsimp only at hmore ⊢
      rcases hends hself with hend | ⟨-, hfits⟩
      · have := hdone (by omega) hend
        omega
      · rw [Nat.min_eq_left hfits] at hlater
        omega
    · rename_i hne
      rw [if_neg hne] at hmore ⊢
      split at hle
      · rename_i hahead
        refine absurd hahead (hnot _ ?_)
        have hkeep := (Rcv.oooQueue_frame t.rcv g.seq g.data).1
        rw [← hkeep]
        exact hle
      · rename_i hbehind
        rw [if_neg hbehind]
        rw [hgt] at hbehind
        exact (hends hle).elim (hdone (by omega)) fun hseq => absurd hseq.1 hne
  · rename_i hpos
    have hrcv : ∀ c : Bool, (if c = true then t.sendAck else t).rcv = t.rcv := by
      intro c
      cases c <;> rfl
    rw [hrcv] at hle
    rw [if_neg hpos, hrcv]
    have hbehind := hnot _ hle
    rw [hgt] at hbehind
    omega

omit hg hnear in
lemma receiving_onFin (hall : g.flags.fin = true → le g.seq t.rcv.nxt = true →
    t.rcv.finRcvd = false →
      got.length + t.rcv.used = B.length) : (t.onFin g).rcv.Receiving B got base := by
  rw [onFin]
  split
  · rename_i hfin
    rw [Bool.and_eq_true] at hfin
    rw [(peerClosed_spec _).2.2.1]
    split
    · exact h
    rename_i hrcvd
    rw [Bool.not_eq_true] at hrcvd
    have hcomplete := hall hfin.1 hfin.2 hrcvd
    refine ⟨h.ring, h.bytes, h.le, ?_, fun _ => hcomplete, h.held, h.bound⟩
    have hnxt := h.nxt
    rw [hrcvd, if_neg Bool.false_ne_true, Nat.add_zero] at hnxt
    show t.rcv.nxt + 1 = base + BitVec.ofNat 32 (got.length + t.rcv.used + 1)
    rw [hnxt, BitVec.ofNat_add (got.length + t.rcv.used) 1, BitVec.add_assoc]
    rfl
  · exact h

/-- Whether a segment gets as far as the peer's FIN. -/
def reads (t : Tcb) (g : Seg) : Bool :=
  !g.flags.rst && g.flags.ack && !t.tooOld g &&
    (decide (t.state ≠ .synReceived) || decide (g.ack = t.snd.nxt))

/-- The first FIN that is read, and does not start ahead of `rcv_nxt`, ends there, or starts there
and fits. -/
def FinWhole (t : Tcb) (g : Seg) : Prop :=
  g.flags.fin = true → t.reads g = true → t.rcv.finRcvd = false →
    le g.seq t.rcv.nxt = true → t.Ends g
  deriving Decidable

lemma receiving_afterAck (hends : g.flags.fin = true → t.rcv.finRcvd = false →
    le g.seq t.rcv.nxt = true → t.Ends g) :
    (t.afterAck g).rcv.Receiving B got base := by
  obtain ⟨hdata, hrcvd⟩ := receiving_onData h hg hnear
  have hfin : ((t.onData g).onFin g).rcv.Receiving B got base :=
    receiving_onFin hdata fun hfin hle hno =>
      onData_complete h hg hnear (hrcvd.symm.trans hno) hfin (hends hfin (hrcvd.symm.trans hno)) hle
  rw [afterAck, sendData_rcv, (onFinAcked_spec _).2.2.1]
  exact hfin

omit h hg hnear

lemma Ends.of_same (h : t.Ends g) (hs : Rcv.Same t.rcv t'.rcv) : t'.Ends g := by
  rw [Ends, hs.nxt, Rcv.free, hs.used]
  exact h

/-- The SYN is answered, and the invariant holds. -/
structure Receives (B got : List UInt8) (base : SeqNum) (t : Tcb) : Prop where
  rcv : t.rcv.Receiving B got base
  state : t.state ≠ .synSent

lemma Receives.of_hears (h : Receives B got base t) (hs : Hears t t') : Receives B got base t' :=
  ⟨h.rcv.of_same hs.rcv, hs.state h.state⟩

lemma Receives.accepted (h : Receives B got base t) (hg : Carries B base g p)
    (hnear : Near p (got.length + t.rcv.used))
    (hends : g.flags.fin = true → t.rcv.finRcvd = false → le g.seq t.rcv.nxt = true → t.Ends g)
    (hs : Hears t t') : Receives B got base ((t'.ackSentData g).afterAck g) := by
  have h' := h.of_hears hs
  refine ⟨receiving_afterAck h'.rcv hg ?_ ?_, afterAck_synSent h'.state⟩
  · rw [← hs.rcv.used] at hnear
    exact hnear
  intro hfin hno hle
  refine Ends.of_same (t := t) (hends hfin ?_ ?_) hs.rcv
  · exact hs.rcv.finRcvd.symm.trans hno
  rw [← hs.rcv.nxt]
  exact hle

lemma Receives.input (h : Receives B got base t) (hg : Carries B base g p)
    (hnear : Near p (got.length + t.rcv.used)) (hwhole : t.FinWhole g) (ws ts sack : Bool) :
    Receives B got base (t.input g ws ts sack) := by
  refine input_rule ws ts sack h (fun _ => h.of_hears
    (hears_of_eq rfl (.inr (fun h => State.noConfusion h))))
    (fun _ hsyn => absurd hsyn h.state) (h.of_hears (hears_of_eq rfl (.inl rfl))) fun hrst _
      hack hold => ?_
  have hs : Hears t ((t.noteTs g).noteWindow g) :=
    (noteTs_hears t g).trans (hears_of_eq rfl (.inl rfl))
  have hstate : ((t.noteTs g).noteWindow g).state = t.state := (noteTs_quiet t g).state
  have hnxt : ((t.noteTs g).noteWindow g).snd.nxt = t.snd.nxt := by
    rw [← (noteTs_quiet t g).snd]; rfl
  have hreads : t.state ≠ .synReceived ∨ g.ack = t.snd.nxt → t.reads g = true := by
    intro hor
    simp only [reads, hrst, hold, Bool.and_eq_true, Bool.or_eq_true, decide_eq_true_eq]
    simpa [hor] using hack
  generalize (t.noteTs g).noteWindow g = t1 at hs hstate hnxt ⊢
  rw [onAccepted]
  split
  · split
    · exact h.of_hears hs
    rename_i hacked
    rw [not_not, hnxt] at hacked
    refine h.accepted hg hnear (fun hfin => hwhole hfin (hreads (.inr hacked))) (hs.trans ?_)
    exact hears_of_eq rfl (.inr (fun h => State.noConfusion h))
  · rename_i hne
    rw [hstate] at hne
    exact h.accepted hg hnear (fun hfin => hwhole hfin (hreads (.inl hne))) hs

/-- What `tcp_recv` can do: return what is first in the ring, or nothing at all. -/
lemma recv_cases (t : Tcb) (len : Nat) : (0 < ((t.rcv.buf.contents rcvbufSize).take len).length ∧
        t.recv len = ({ t with rcv := { t.rcv with
          buf := t.rcv.buf.advance rcvbufSize ((t.rcv.buf.contents rcvbufSize).take
            len).length } }.sendAck,
          .ok ((t.rcv.buf.contents rcvbufSize).take len))) ∨
            ((t.rcv.buf.contents rcvbufSize).take len = [] ∧
        (t.rcv.finRcvd = true ∧ t.recv len = (t, .ok []) ∨ ∃ e, t.recv len = (t, .error e))) := by
  rw [recv]
  split
  · rename_i hpos
    exact .inl ⟨hpos, rfl⟩
  rename_i hnone
  refine .inr ⟨eq_nil_of_length_eq_zero (Nat.eq_zero_of_not_pos hnone), ?_⟩
  split
  · exact .inr ⟨_, rfl⟩
  split
  · rename_i hfin
    exact .inl ⟨hfin, rfl⟩
  · split <;> exact .inr ⟨_, rfl⟩

/-- The bytes of a result of `tcp_recv`. -/
def received : Except Errno (List UInt8) → List UInt8
  | .ok data => data
  | .error _ => []

def returns (t : Tcb) : Call → List UInt8
  | .recv len => received (t.recv len).2
  | _ => []

lemma Receives.recv (h : Receives B got base t) (len : Nat) :
    Receives B (got ++ t.returns (.recv len)) base (t.recv len).1 := by
  have hnil : Receives B (got ++ []) base t := by rwa [append_nil]
  rw [returns]
  rcases recv_cases t len with ⟨-, heq⟩ | ⟨-, ⟨-, heq⟩ | ⟨e, heq⟩⟩ <;> rw [heq]
  · exact ⟨(h.rcv.advance len rfl).of_same ⟨rfl, rfl, rfl, rfl⟩, h.state⟩
  · exact hnil
  · exact hnil

lemma Receives.endOfFile (h : Receives B got base t) {len : Nat} (hlen : 0 < len)
    (hend : (t.recv len).2 = .ok []) : got = B := by
  rcases recv_cases t len with ⟨hpos, heq⟩ | ⟨hnone, ⟨hfin, -⟩ | ⟨e, heq⟩⟩
  · rw [heq] at hend
    rw [Except.ok.inj hend] at hpos
    cases hpos
  · refine h.rcv.all hfin ?_
    rcases take_eq_nil_iff.1 hnone with hzero | hempty
    · omega
    · exact hempty
  · rw [heq] at hend
    cases hend

end Tcb

/-! ## Every run -/

/-- A connection, and what `tcp_recv` has returned. -/
structure Reader where
  t : Tcb
  got : List UInt8

namespace Reader

variable {B : List UInt8} {base : SeqNum} {c : Reader}

def step (c : Reader) (e : Event) : Reader :=
  ⟨(c.t.at_ e.now).on e.call, c.got ++ (c.t.at_ e.now).returns e.call⟩

/-- Nothing was received yet: the number after the peer's SYN is the first of its stream. -/
structure Fresh (base : SeqNum) (c : Reader) : Prop where
  state : c.t.state = .synReceived ∨ c.t.state = .established
  nxt : c.t.rcv.nxt = base
  ring : c.t.rcv.buf.Ok rcvbufSize
  empty : c.t.rcv.used = 0
  ooo : ∀ i, c.t.rcv.ooo i = none
  finRcvd : c.t.rcv.finRcvd = false
  got : c.got = []

/-- A segment that arrives is of the stream, near what was taken of it; and a FIN comes with what is
before it. -/
def Arrives (B : List UInt8) (base : SeqNum) (c : Reader) (e : Event) : Prop :=
  ∀ g, e.call = .arrive g → (∃ p, Carries B base g p ∧ Near p (c.got.length + c.t.rcv.used)) ∧
    c.t.FinWhole g

/-- What was returned is the front of the stream, `rcv_nxt` is the number of the byte after the last
that was taken, or, once all were and the FIN, the number after that; and there is no end of file
before all was returned. -/
structure Delivers (B : List UInt8) (base : SeqNum) (c : Reader) : Prop where
  isPrefix : c.got <+: B
  bytes : c.got ++ c.t.rcv.buf.contents rcvbufSize = B.take (c.got.length + c.t.rcv.used)
  le : c.got.length + c.t.rcv.used ≤ B.length
  nxt : c.t.rcv.nxt = base + BitVec.ofNat 32 (c.got.length + c.t.rcv.used) ∨
    (c.got.length + c.t.rcv.used = B.length ∧ c.t.rcv.nxt = base + BitVec.ofNat 32 (B.length + 1))
  endOfFile : ∀ len, 0 < len → (c.t.recv len).2 = .ok [] → c.got = B

lemma Fresh.receives (h : Fresh base c) : c.t.Receives B c.got base := by
  have hlen : c.got.length + c.t.rcv.used = 0 := by rw [h.got, h.empty]; rfl
  have hcontents : c.t.rcv.buf.contents rcvbufSize = [] :=
    eq_nil_of_length_eq_zero ((RingBuffer.length_contents _ _).trans h.empty)
  refine ⟨⟨h.ring, ?_, ?_, ?_, fun hfin => ?_, fun i o ho => ?_, fun i _ => h.ooo i⟩, ?_⟩
  · rw [hlen, hcontents, h.got]
    rfl
  · rw [hlen]
    exact Nat.zero_le _
  · rw [hlen, h.finRcvd, h.nxt]
    exact (BitVec.add_zero base).symm
  · rw [h.finRcvd] at hfin
    cases hfin
  · rw [h.ooo i] at ho
    cases ho
  · rcases h.state with hst | hst <;> rw [hst] <;> decide

lemma delivers_of_receives (h : c.t.Receives B c.got base) : Delivers B base c := by
  refine ⟨h.rcv.isPrefix, h.rcv.bytes, h.rcv.le, ?_, fun _ hlen hend => h.endOfFile hlen hend⟩
  have hnxt := h.rcv.nxt
  split at hnxt
  · rename_i hfin
    have hall := h.rcv.fin hfin
    exact .inr ⟨hall, hall ▸ hnxt⟩
  · exact .inl hnxt

lemma receives_step (e : Event) (h : c.t.Receives B c.got base) (he : Arrives B base c e) :
    (step c e).t.Receives B (step c e).got base := by
  have hat : (c.t.at_ e.now).Receives B c.got base := h.of_hears (Tcb.hears_of_eq rfl (.inl rfl))
  have hnil : ∀ {t : Tcb}, t.Receives B c.got base → t.Receives B (c.got ++ []) base := by
    intro t ht
    rwa [append_nil]
  obtain ⟨now, call⟩ := e
  match call with
  | .send data => exact hnil (hat.of_hears (Tcb.send_hears _ data))
  | .recv len => exact hat.recv len
  | .close => exact hnil (hat.of_hears (Tcb.close_hears _))
  | .timer => exact hnil (hat.of_hears (Tcb.timer_hears _))
  | .arrive g =>
    obtain ⟨⟨p, hg, hnear⟩, hwhole⟩ := he g rfl
    exact hnil (hat.input hg hnear hwhole true true true)

/-- **The peer's stream is delivered**, whatever its segments are, in every run in which the first
FIN that is taken comes with what is before it. -/
theorem stream_delivered (B : List UInt8) (base : SeqNum) (c : Reader) (hc : Fresh base c)
    (evs : List Event)
    (hevs : Runs.Every step (Arrives B base) evs c) : Delivers B base (evs.foldl step c) :=
  delivers_of_receives (Runs.induction_on (I := fun c => c.t.Receives B c.got base)
    (fun _ e h he => receives_step e h he) evs hc.receives hevs)

/-- A segment of the peer's, which acknowledges nothing new. -/
def peerSeg (seq : SeqNum) (data : List UInt8) (fin : Bool) : Seg :=
  { seq, ack := 100, flags := { ack := true, fin }, window := 65535, data }

def listening : Reader := ⟨Session.justOpen.t, []⟩

/-- The last byte with the FIN comes first, and is held; the FIN comes again at the end. -/
def shuffled : List Event :=
  [⟨0, .arrive (peerSeg 502 [3] true)⟩, ⟨10, .arrive (peerSeg 500 [1] false)⟩, ⟨20, .recv 8⟩,
    ⟨30, .arrive (peerSeg 501 [2] false)⟩, ⟨40, .arrive (peerSeg 503 [] true)⟩, ⟨50, .recv 8⟩]

theorem stream_delivered_shuffled : ((shuffled.foldl step listening).got = [1, 2, 3] ∧
      (shuffled.foldl step listening).t.rcv.finRcvd = true) ∧
      Delivers [1, 2, 3] 500 (shuffled.foldl step listening) := by
  refine ⟨by decide +kernel, stream_delivered [1, 2, 3] 500 listening
    ⟨.inr rfl, rfl, ⟨by decide, by decide⟩, rfl, fun _ => rfl, rfl, rfl⟩ shuffled ⟨?_, ?_, nofun,
      ?_, ?_, nofun, trivial⟩⟩
  all_goals
    intro g hg
    cases hg
  · exact ⟨⟨2, ⟨rfl, rfl, by decide, by decide, fun _ => rfl⟩, by decide +kernel⟩,
      by decide +kernel⟩
  · exact ⟨⟨0, ⟨rfl, rfl, by decide, by decide, nofun⟩, by decide +kernel⟩, by decide +kernel⟩
  · exact ⟨⟨1, ⟨rfl, rfl, by decide, by decide, nofun⟩, by decide +kernel⟩, by decide +kernel⟩
  · exact ⟨⟨3, ⟨rfl, rfl, by decide, by decide, fun _ => rfl⟩, by decide +kernel⟩,
      by decide +kernel⟩

/-- The peer sends its first byte, and then, as it was not acknowledged, both with the FIN. -/
def resentWithFin : List Event :=
  [⟨0, .arrive (peerSeg 500 [1] false)⟩, ⟨10, .arrive (peerSeg 500 [1, 2] true)⟩, ⟨20, .recv 8⟩]

/-- Both are of the stream; the second byte is never taken, and the reader is told that the stream
is at its end. -/
theorem fin_on_overlap : Carries [1, 2] 500 (peerSeg 500 [1] false) 0 ∧
    Carries [1, 2] 500 (peerSeg 500 [1, 2] true) 0 ∧
      (resentWithFin.foldl step listening).got = [1] ∧
      (resentWithFin.foldl step listening).t.rcv.nxt = 502 ∧
      ((resentWithFin.foldl step listening).t.recv 8).2 = .ok [] := by
  refine ⟨⟨rfl, rfl, by decide, by decide, nofun⟩,
    ⟨rfl, rfl, by decide, by decide, fun _ => rfl⟩, ?_⟩
  decide +kernel

end Reader

end Sage040.Tcp
