import Sage040.Net.Checksum

/-!
# TCP options

What `send_seg` writes behind the header, and what `parse_opts` makes of it. A read past the end is
`none`, and so is a walk of more turns than bytes.
-/

namespace Sage040.Tcp

open SeqNum (gt le ge)
open Net (be16 be32)
open List Option

/-- An entry of `blk`: start, end, latest arrival. -/
structure Run where
  start : SeqNum
  stop : SeqNum
  latest : Nat

namespace Run

/-- The two overlap or touch. -/
def meets (a b : Run) : Bool := le a.start b.stop && ge a.stop b.start

/-- One run of both. -/
def join (b a : Run) : Run where
  start := if gt b.start a.start then a.start else b.start
  stop := if gt a.stop b.stop then a.stop else b.stop
  latest := max b.latest a.latest

/-- The first pass: a segment joins the first run it meets. -/
def add (a : Run) : List Run → List Run
  | [] => [a]
  | b :: blk => if a.meets b then b.join a :: blk else b :: add a blk

/-- The inner loop of the second pass, starting over after each run taken in. -/
def absorb : Nat → Run → List Run → Run × List Run
  | 0, b, blk => (b, blk)
  | n + 1, b, blk =>
    match blk.findIdx? (·.meets b) with
    | none => (b, blk)
    | some j => absorb n (b.join (blk.getD j b)) ((blk.set j (blk.getLastD b)).dropLast)

/-- The second pass: every run takes in those that it meets. -/
def merge : Nat → List Run → List Run
  | n + 1, b :: blk => (absorb n b blk).1 :: merge n (absorb n b blk).2
  | _, blk => blk

end Run

/-- Which options an end offers. -/
structure Offers where
  ws : Bool
  ts : Bool
  sack : Bool

variable (t : Tcb) (arrived : Nat → Nat) (most : Nat)

/-- `sack_blocks`; `arrived` is `when`, by place. -/
def sackBlocks : List (SeqNum × SeqNum) :=
  let held := (range oooPerCb).filterMap fun i =>
    (t.rcv.ooo i).map fun s => Run.mk s.seq (s.seq + s.data.length) (arrived i)
  let blk := Run.merge oooPerCb (held.foldl (fun blk a => a.add blk) [])
  let latest (i : Nat) := blk[i]?.elim 0 (·.latest)
  let first := (range blk.length).foldl (fun f i => if latest f < latest i then i else f) 0
  ((blk[first]?.toList ++ blk.eraseIdx first).take most).map fun b => (b.start, b.stop)

variable (f : Flags) (own peer : Offers) (v e : SeqNum) (o : Offers)

/-- The timestamp option. -/
def stampOpt : List UInt8 := [8, 10] ++ (be32 v ++ be32 e)

/-- The options of a SYN, filled up to longwords. -/
def synOpts : List UInt8 :=
  let l := [2, 4] ++ be16 mss ++ (if o.sack then [4, 2] else if o.ts then [1, 1] else []) ++
    (if o.ts then stampOpt v e else []) ++ if o.ws then [1, 3, 3, .ofNat wscale] else []
  l ++ replicate ((4 - l.length % 4) % 4) 1

/-- What they say. -/
def synSaid : Opts where
  ws := if o.ws then some wscale else none
  sackPerm := o.sack
  ts := if o.ts then some (v, e) else none

variable (ts : Bool) (blocks : List (SeqNum × SeqNum))

/-- The options of any other segment. -/
def ackOpts : List UInt8 :=
  (if ts then [1, 1] ++ stampOpt v e else []) ++ if blocks = [] then [] else
    [1, 1, 5, .ofNat (2 + 8 * blocks.length)] ++ blocks.flatMap fun b => be32 b.1 ++ be32 b.2

/-- What they say. -/
def ackSaid : Opts where
  ts := if ts then some (v, e) else none
  sack := blocks

/-- A SYN-ACK offers only what the peer's SYN did. -/
def offered : Offers where
  ws := own.ws && (!f.ack || peer.ws)
  ts := own.ts && (!f.ack || peer.ts)
  sack := own.sack && (!f.ack || peer.sack)

/-- The timestamp that is echoed. -/
def echo : SeqNum := if f.syn && !f.ack then 0 else t.rcv.tsRecent

/-- The ranges that are reported. -/
def reported : List (SeqNum × SeqNum) :=
  if t.sackOk && f.ack then sackBlocks t arrived (if t.tsOk then 3 else 4) else []

/-- The options of `send_seg`; `v` is the time. -/
def sendOpts : List UInt8 :=
  if f.syn then synOpts v (echo t f) (offered f own peer) else
    ackOpts v (echo t f) t.tsOk (reported t arrived f)

/-- What they say, but for the MSS. -/
def said : Opts :=
  if f.syn then synSaid v (echo t f) (offered f own peer) else
    ackSaid v (echo t f) t.tsOk (reported t arrived f)

variable (opt : List UInt8)

/-- A longword, if it is there. -/
def get32 (i : Nat) : Option SeqNum := do
  let a ← opt[i]?
  let b ← opt[i + 1]?
  let c ← opt[i + 2]?
  let d ← opt[i + 3]?
  some (.ofNat 32 ((a.toNat * 256 + b.toNat) * 65536 + (c.toNat * 256 + d.toNat)))

/-- So many ranges, from a place on. -/
def getBlocks : Nat → Nat → Option (List (SeqNum × SeqNum))
  | 0, _ => some []
  | n + 1, i => do
    let a ← get32 opt i
    let b ← get32 opt (i + 4)
    let l ← getBlocks n (i + 8)
    some ((a, b) :: l)

/-- The `switch` of `parse_opts`: there is no case for the MSS, kind 2. -/
def parseOpt (kind : UInt8) (olen i : Nat) (o : Opts) : Option Opts :=
  if kind = 3 ∧ olen = 3 then opt[i + 2]?.map fun s => { o with ws := some (min s.toNat 14) }
  else if kind = 4 ∧ olen = 2 then some { o with sackPerm := true }
  else if kind = 5 ∧ 10 ≤ olen ∧ (olen - 2) % 8 = 0 then
    (getBlocks opt (min ((olen - 2) / 8) 4) (i + 2)).map fun l => { o with sack := l }
  else if kind = 8 ∧ olen = 10 then do
    let v ← get32 opt (i + 2)
    let e ← get32 opt (i + 6)
    some { o with ts := some (v, e) }
  else some o

/-- The walk of `parse_opts`, from a place on. -/
def parseFrom : Nat → Nat → Opts → Option Opts
  | 0, i, o => if opt.length ≤ i then some o else none
  | n + 1, i, o =>
    if opt.length ≤ i then some o
    else do
      let kind ← opt[i]?
      if kind = 0 then some o
      else if kind = 1 then parseFrom n (i + 1) o
      else if opt.length ≤ i + 1 then some o
      else do
        let olen ← opt[i + 1]?
        if olen < 2 ∨ opt.length < i + olen.toNat then some o
        else do
          let o ← parseOpt opt kind olen.toNat i o
          parseFrom n (i + olen.toNat) o

/-- `parse_opts`. -/
def parseOpts : Option Opts := parseFrom opt opt.length 0 {}

variable {i n : Nat}

lemma get32_isSome (i) (h : i + 4 ≤ opt.length) : ∃ v, get32 opt i = some v := by
  have hi (j) (hj : j < 4) : i + j < opt.length := by omega
  simp [get32, show i < opt.length by omega, hi]

lemma getBlocks_isSome (n i) (h : i + 8 * n ≤ opt.length) : ∃ l, getBlocks opt n i = some l := by
  induction n generalizing i with
  | zero => exact ⟨[], rfl⟩
  | succ n ih =>
    have ⟨_, ha⟩ := get32_isSome opt i (by omega)
    have ⟨_, hb⟩ := get32_isSome opt (i + 4) (by omega)
    have ⟨_, hl⟩ := ih (i + 8) (by omega)
    exact ⟨_, by simp only [getBlocks, ha, hb, hl]; rfl⟩

lemma parseOpt_isSome (kind : UInt8) (o : Opts) (h : i + n ≤ opt.length) : ∃ p,
    parseOpt opt kind n i o = some p := by
  rw [parseOpt]
  split_ifs
  · exact ⟨_, by rw [getElem?_eq_getElem (by omega)]; rfl⟩
  · exact ⟨_, rfl⟩
  · have ⟨_, hl⟩ := getBlocks_isSome opt (min ((n - 2) / 8) 4) (i + 2) (by omega)
    exact ⟨_, by rw [hl]; rfl⟩
  · have ⟨_, hv⟩ := get32_isSome opt (i + 2) (by omega)
    have ⟨_, he⟩ := get32_isSome opt (i + 6) (by omega)
    exact ⟨_, by simp only [hv, he]; rfl⟩
  · exact ⟨_, rfl⟩

/-- A turn takes a byte at least, so that as many turns as bytes are enough. -/
lemma parseFrom_isSome (o : Opts) (h : opt.length ≤ i + n) : ∃ p, parseFrom opt n i o = some p := by
  induction n generalizing i o with
  | zero => exact ⟨o, if_pos h⟩
  | succ n ih =>
    rw [parseFrom]
    by_cases hi : opt.length ≤ i
    · exact ⟨o, if_pos hi⟩
    rw [if_neg hi, getElem?_eq_getElem (by omega), bind_eq_bind, bind_some]
    split_ifs
    · exact ⟨o, rfl⟩
    · exact ih _ (by omega)
    · exact ⟨o, rfl⟩
    rw [getElem?_eq_getElem (by omega), bind_eq_bind, bind_some]
    split_ifs with hl
    · exact ⟨o, rfl⟩
    have h2 := UInt8.le_iff_toNat_le.1 (UInt8.not_lt.1 fun h => hl (.inl h))
    have ⟨_, hp⟩ := parseOpt_isSome opt opt[i] o (not_lt.1 fun h => hl (.inr h))
    rw [hp]
    exact ih _ (by simp at h2; omega)

/-- What is read back of a sequence number. -/
def back : SeqNum :=
  let b (w : Nat) := (UInt8.ofNat (w / 256)).toNat * 256 + (UInt8.ofNat w).toNat
  .ofNat 32 (b (v.toNat / 65536) * 65536 + b v.toNat)

lemma back_eq : back v = v := by
  apply BitVec.eq_of_toNat_eq
  simp only [back, Net.value_be16, BitVec.toNat_ofNat]
  omega

/-- `l` fits and is read as `o`. -/
def Reads (l : List UInt8) (o : Opts) : Prop := l.length ≤ 40 ∧ l.length % 4 = 0 ∧
    parseOpts l = some o

lemma synOpts_reads : Reads (synOpts v e o) (synSaid v e o) := by
  have h : Reads (synOpts v e o) (synSaid (back v) (back e) o) := by
    rcases o with ⟨_ | _, _ | _, _ | _⟩ <;> simp [Reads, synOpts, stampOpt, be16, be32] <;> rfl
  rwa [back_eq, back_eq] at h

lemma ackOpts_reads (hb : blocks.length ≤ if ts then 3 else 4) : Reads (ackOpts v e ts blocks)
    (ackSaid v e ts blocks) := by
  have h : Reads (ackOpts v e ts blocks) (ackSaid (back v) (back e) ts
      (blocks.map fun x => (back x.1, back x.2))) := by
    rcases blocks with _ | ⟨_, _ | ⟨_, _ | ⟨_, _ | ⟨_, _ | _⟩⟩⟩⟩ <;> cases ts <;>
      simp [Reads, ackOpts, stampOpt, be16, be32] at hb ⊢ <;> first | rfl | omega
  simpa only [back_eq, Prod.mk.eta, List.map_id'] using h

/-- **Options are read as they were meant.** Any bytes are parsed without reading past their end,
and what `send_seg` writes is read as what it had to say. -/
theorem options_round_trip : (∀ opt, ∃ o, parseOpts opt = some o) ∧
    ∀ t arrived f own peer v, Reads (sendOpts t arrived f own peer v)
    (said t arrived f own peer v) := by
  refine ⟨fun _ => parseFrom_isSome _ _ (Nat.le_add_left ..), fun t arrived f own peer v => ?_⟩
  rw [sendOpts, said]
  split
  · exact synOpts_reads ..
  apply ackOpts_reads
  rw [reported]
  split
  · simp [sackBlocks]
  · exact zero_le

/-- An MSS of 1400 and one of 536 are read alike. -/
theorem mss_not_recovered : parseOpts ([2, 4] ++ be16 mss) = parseOpts ([2, 4] ++ be16 536) := by
  decide

end Sage040.Tcp
