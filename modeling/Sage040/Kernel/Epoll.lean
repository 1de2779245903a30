import Sage040.Lib.Runs

/-!
# `epoll_wait`

The scan of `ep_wait` of `kernel/events.c`, with `ep_check` for each item, and the copy of what it
has found.

What it has found is in one static array, and the copy may sleep between the chunks: another call
that scans then writes over it (`mixed_events`). `own_of_alone` is what holds: a call stores what
its own scan has found, as long as no other call finds anything in the meantime.

An item with `EPOLLET` is reported if it has gained a bit since the last *scan*. A file that was
emptied and refilled between two scans is not (`unseen_edge`); `edge_reported` is about those that a
scan has seen.
-/

namespace Sage040.Events

open Function List BitVec

/-- `EPOLL_ITEMS`. -/
def epollItems : Nat := 64

/-- `EPOLLERR | EPOLLHUP`, which are reported whether they were asked for or not. -/
def epollErrHup : BitVec 32 := 0x18
/-- `EPOLLONESHOT`. -/
def epollOneshot : BitVec 32 := 0x40000000
/-- `EPOLLET`. -/
def epollEt : BitVec 32 := 0x80000000

/-- `struct ep_item`. -/
structure Item where
  /-- What was asked for. -/
  events : BitVec 32
  data : BitVec 32 × BitVec 32
  /-- What it was when last looked at. -/
  last : BitVec 32
  /-- A oneshot that has fired. -/
  disabled : Bool

namespace Item

/-- What an item has for its caller, of what `poll_file` returns. -/
def got (it : Item) (poll : BitVec 32) : BitVec 32 :=
  let r := poll &&& 0xffff
  let r := if r &&& 1 ≠ 0 then r ||| 0x40 else r
  let r := if r &&& 4 ≠ 0 then r ||| 0x100 else r
  r &&& (it.events ||| epollErrHup)

/-- `ep_check`, when it consumes. -/
def epCheck (it : Item) (poll : BitVec 32) : Item × BitVec 32 :=
  let got := it.got poll
  if it.disabled ∨ got = 0 then ({ it with last := got }, 0)
  else if it.events &&& epollEt ≠ 0 then
    ({ it with last := got }, if got &&& ~~~it.last ≠ 0 then got else 0)
  else (it, got)

/-- What a scan makes of an item, and the bits that it reports. -/
def scan (it : Item) (poll : BitVec 32) : Item × BitVec 32 :=
  let c := it.epCheck poll
  if c.2 ≠ 0 ∧ it.events &&& epollOneshot ≠ 0 then ({ c.1 with disabled := true }, c.2) else c

lemma scan_data (it : Item) (poll : BitVec 32) : (it.scan poll).1.data = it.data := by
  have hcheck : (it.epCheck poll).1.data = it.data := by
    rw [epCheck]
    split
    · rfl
    · split <;> rfl
  rw [scan]
  split
  · exact hcheck
  · exact hcheck

end Item

/-! ## Whose events -/

/-- `struct epoll`. -/
structure Epoll where
  items : Nat → Option Item
  /-- Where the next scan starts. -/
  rotor : Nat

/-- `struct epoll_event`. -/
structure Record where
  events : BitVec 32
  data : BitVec 32 × BitVec 32
  deriving DecidableEq

/-- The loop of the scan, with `k` items left. -/
def scanLoop (poll : Nat → BitVec 32) (max start : Nat) : Nat → Epoll → List Record →
    Epoll × List Record
  | 0, ep, out => (ep, out)
  | k + 1, ep, out =>
    if max ≤ out.length then (ep, out)
    else
      let i := (start + (epollItems - (k + 1))) % epollItems
      match ep.items i with
      | none => scanLoop poll max start k ep out
      | some it =>
        let c := it.scan (poll i)
        let ep := { ep with items := update ep.items i (some c.1) }
        if c.2 = 0 then scanLoop poll max start k ep out
        else scanLoop poll max start k { ep with rotor :=
          (i + 1) % epollItems } (out ++ [⟨c.2, it.data⟩])

/-- A scan of all items, from the rotor on. -/
def epScan (ep : Epoll) (poll : Nat → BitVec 32) (max : Nat) : Epoll × List Record :=
  scanLoop poll (min max epollItems) ep.rotor epollItems ep []

/-- A longword, most significant byte first. -/
def be (w : BitVec 32) : List UInt8 := [w >>> 24, w >>> 16, w >>> 8, w].map fun x => ⟨x.setWidth 8⟩

/-- The records as the program gets them. -/
def bytes (rs : List Record) : List UInt8 := rs.flatMap fun e => be e.events ++
    be e.data.1 ++ be e.data.2

/-- A call that has found something: the items it has looked at, what it has found, and what it has
stored so far. -/
structure Call where
  items : Nat → Option Item
  found : List Record
  stored : List UInt8

/-- There is more to store. -/
def Call.UnderWay (c : Call) : Prop := c.stored.length < (bytes c.found).length

/-- What it has stored is what its scan has found, with data of the items that it has looked at. -/
def Call.Own (c : Call) : Prop :=
  c.stored <+: bytes c.found ∧ ∀ e ∈ c.found, ∃ i it, c.items i = some it ∧ it.data = e.data

/-- The processes in `epoll_wait`, and the array they share. -/
structure Machine where
  /-- The static array. -/
  out : List UInt8
  epolls : Nat → Epoll
  calls : Nat → Option Call

/-- What can happen between two sleeps. -/
inductive Event
  /-- The process `p` is in `epoll_wait`, and scans. -/
  | scan (p ep max : Nat) (poll : Nat → BitVec 32)
  /-- It stores a chunk of `n` bytes. -/
  | store (p n : Nat)
  /-- It returns: everything is stored, or a page cannot be brought in. -/
  | leave (p : Nat)
  /-- The set is changed by `epoll_ctl`, or a file is closed. -/
  | ctl (i : Nat) (ep : Epoll)

namespace Machine

variable {m : Machine}

/-- A scan is one step: where polling a file would sleep, as a socket's can, it is taken not to. -/
def step (m : Machine) : Event → Machine
  | .scan p i max poll =>
    let s := epScan (m.epolls i) poll max
    let epolls := update m.epolls i s.1
    -- with nothing found it returns, or sleeps and scans again
    if s.2 = [] then { m with epolls := epolls }
    else
      { epolls := epolls
        out := bytes s.2 ++ m.out.drop (bytes s.2).length
        calls := update m.calls p (some ⟨(m.epolls i).items, s.2, []⟩) }
  | .store p n =>
    match m.calls p with
    | none => m
    | some c =>
      let chunk := (m.out.drop c.stored.length).take
        (min n ((bytes c.found).length - c.stored.length))
      { m with calls := update m.calls p (some { c with stored := c.stored ++ chunk }) }
  | .leave p => { m with calls := update m.calls p none }
  | .ctl i ep => { m with epolls := update m.epolls i ep }

/-- Every call stores what it has found itself. -/
def Own (m : Machine) : Prop := ∀ p c, m.calls p = some c → c.Own

/-- No call finds anything while another one is storing. -/
def Alone (m : Machine) : Event → Prop
  | .scan p i max poll =>
    (epScan (m.epolls i) poll max).2 = [] ∨ ∀ q, q ≠ p → ∀ c, m.calls q = some c → ¬ c.UnderWay
  | _ => True

/-- The static array is that of the call that is storing. -/
def Inv (m : Machine) : Prop :=
  ∀ p c, m.calls p = some c → c.Own ∧ (c.UnderWay → bytes c.found <+: m.out)

end Machine

lemma scanLoop_data {poll : Nat → BitVec 32} {max start : Nat} {items : Nat → Option Item}
    (k : Nat) {ep : Epoll}
    {out : List Record} (hep : ∀ i it, ep.items i = some it → ∃ it', items i = some it' ∧
    it'.data = it.data)
    (hout : ∀ e ∈ out, ∃ i it, items i = some it ∧ it.data = e.data) :
    ∀ e ∈ (scanLoop poll max start k ep out).2, ∃ i it, items i = some it ∧ it.data = e.data := by
  induction k generalizing ep out with
  | zero => exact hout
  | succ k ih =>
    rw [scanLoop]
    split
    · exact hout
    dsimp only
    split
    · exact ih hep hout
    rename_i it hit
    have hep' : ∀ j it', update ep.items ((start + (epollItems - (k + 1))) % epollItems)
        (some (it.scan (poll ((start + (epollItems - (k + 1))) % epollItems))).1) j = some it' →
        ∃ it'', items j = some it'' ∧ it''.data = it'.data := by
      intro j it' hj
      rw [update_apply] at hj
      split at hj
      · rename_i heq
        cases hj
        rw [Item.scan_data, heq]
        exact hep _ it hit
      · exact hep j it' hj
    split
    · exact ih hep' hout
    refine ih hep' fun e he => ?_
    rcases mem_append.1 he with he | he
    · exact hout e he
    obtain rfl := mem_singleton.1 he
    obtain ⟨it', hit', hdata⟩ := hep _ it hit
    exact ⟨_, it', hit', hdata⟩

namespace Machine

variable {m : Machine}

lemma Inv.store (h : m.Inv) {p n : Nat} {c : Call} (hc : m.calls p = some c) :
    c.stored ++ (m.out.drop c.stored.length).take
    (min n ((bytes c.found).length - c.stored.length)) <+:
      bytes c.found := by
  obtain ⟨⟨hstored, -⟩, hout⟩ := h p c hc
  obtain ⟨rest, hrest⟩ := hstored
  by_cases hway : c.UnderWay
  · obtain ⟨t, ht⟩ := hout hway
    rw [← hrest, List.append_assoc] at ht
    rw [← ht, ← hrest, List.drop_left, List.length_append, Nat.add_sub_cancel_left,
      List.prefix_append_right_inj,
      List.take_append_of_le_length (Nat.min_le_right _ _)]
    exact List.take_prefix _ _
  · rw [Call.UnderWay, Nat.not_lt] at hway
    rw [Nat.sub_eq_zero_of_le hway, Nat.min_zero, List.take_zero, List.append_nil]
    exact ⟨rest, hrest⟩

lemma Inv.step (h : m.Inv) {e : Event} (he : m.Alone e) : (m.step e).Inv := by
  cases e with
  | ctl i ep => exact h
  | leave p =>
    intro q d hd
    dsimp only [Machine.step] at hd
    rw [update_apply] at hd
    split at hd
    · cases hd
    · exact h q d hd
  | store p n =>
    rw [Machine.step]
    split
    · exact h
    rename_i c hc
    intro q d hd
    dsimp only at hd
    rw [update_apply] at hd
    split at hd
    · cases hd
      refine ⟨⟨h.store hc, (h p c hc).1.2⟩, fun hway => (h p c hc).2 ?_⟩
      rw [Call.UnderWay, length_append] at hway
      exact Nat.lt_of_le_of_lt (Nat.le_add_right _ _) hway
    · exact h q d hd
  | scan p i max poll =>
    rw [Machine.step]
    split
    · exact h
    rename_i hfound
    intro q d hd
    dsimp only at hd
    rw [update_apply] at hd
    split at hd
    · cases hd
      refine ⟨⟨List.nil_prefix, ?_⟩, fun _ => prefix_append _ _⟩
      exact scanLoop_data epollItems (fun _ it hit => ⟨it, hit, rfl⟩) fun e he => absurd
        he not_mem_nil
    · rename_i hne
      exact ⟨(h q d hd).1, fun hway => absurd hway (he.resolve_left hfound q hne d hd)⟩

/-- **`epoll_wait` returns its own events**, in every state of a run in which no call finds anything
while another one is storing. -/
theorem own_of_alone (m : Machine) (h : ∀ p, m.calls p = none) (evs : List Event)
    (hevs : Runs.Every step Alone evs m) : Runs.Every step (fun m e => (m.step e).Own) evs m := by
  have hinv : m.Inv := fun p c hc => absurd (hc.symm.trans (h p)) (Option.some_ne_none c)
  exact Runs.every_of_invariant (fun _ _ h he => ⟨h.step he, fun p c hc => (h.step he p c hc).1⟩)
    evs hinv hevs

/-- Two processes, that watch a file each, with their own data. -/
def twoSets : Machine where
  out := []
  epolls i := ⟨fun k => if k = 0 then some ⟨1, (0, if i = 0 then 7 else 9), 0, false⟩ else none, 0⟩
  calls _ := none

/-- A call that is interrupted by one that finds nothing. -/
theorem own_of_alone_twoSets : Runs.Every step (fun m e => (m.step e).Own)
    [.scan 0 0 1 fun _ => 1, .store 0 5, .scan 1 1 1 fun _ => 0, .store 0 7] twoSets := by
  refine own_of_alone twoSets (fun _ => rfl) _ ⟨.inr fun _ _ _ hc => ?_, trivial, .inl (by decide),
    trivial, trivial⟩
  cases hc

/-- **Another process's data.**  The first call has found its own, and stores the second one's. -/
theorem mixed_events : ∃ c, ([.scan 0 0 1 fun _ => 1, .scan 1 1 1 fun _ => 1,
    .store 0 12].foldl step twoSets).calls 0 =
    some c ∧ c.found = [⟨1, 0, 7⟩] ∧ c.stored = bytes [⟨1, 0, 9⟩] ∧ ¬ c.stored <+: bytes c.found :=
  ⟨_, rfl, by decide, by decide, by decide⟩

end Machine

/-! ## Edges -/

/-- A file that is watched with `EPOLLET`, and the bits that it has not had since they were last
reported: not at some moment, and not at some scan. -/
structure Watch where
  item : Item
  poll : BitVec 32
  down : BitVec 32
  seen : BitVec 32

/-- What can happen to a file that is watched. -/
inductive Change
  /-- A read, a write or an arrival. -/
  | file (poll : BitVec 32)
  | scan

namespace Watch

variable {w : Watch}

/-- The bits that were asked for and that there are. -/
def got (w : Watch) : BitVec 32 := w.item.got w.poll

/-- The bits that a scan would report now. -/
def report (w : Watch) : BitVec 32 := (w.item.scan w.poll).2

/-- What a change leaves, with the bits that were down since the last report. -/
def step (w : Watch) : Change → Watch
  | .file poll => { w with poll := poll, down := w.down ||| ~~~w.item.got poll }
  | .scan =>
    { w with
      item := (w.item.scan w.poll).1
      down := w.down &&& ~~~w.report
      seen := w.seen &&& ~~~w.report ||| ~~~w.got }

/-- A scan reports all that the file has now, and has not had since. -/
def Reports (since : Watch → BitVec 32) (w : Watch) : Change → Prop
  | .file _ => True
  | .scan =>
    ∀ i < 32, w.got.getLsbD i = true → (since w).getLsbD i = true → w.report.getLsbD i = true

instance (since : Watch → BitVec 32) (w : Watch) : ∀ c, Decidable (Reports since w c)
  | .file _ => isTrue trivial
  | .scan => inferInstanceAs (Decidable (∀ i < 32, _ → _ → _))

/-- The item is watched for edges, again and again. An item with `EPOLLONESHOT` is left out, though
until its one report it does the same. -/
structure Edge (it : Item) : Prop where
  et : it.events &&& epollEt ≠ 0
  oneshot : it.events &&& epollOneshot = 0
  enabled : it.disabled = false

lemma Edge.scan {it : Item} (h : Edge it) (poll : BitVec 32) : it.scan poll =
    ({ it with last := it.got poll }, if it.got poll &&& ~~~it.last ≠ 0 then it.got poll else 0) :=
    by
  rw [Item.scan, if_neg fun habs => habs.2 h.oneshot, Item.epCheck]
  by_cases hgot : it.got poll = 0
  · rw [if_pos (.inr hgot), hgot, ite_self]
  rw [if_neg, if_pos h.et]
  rw [h.enabled]
  exact fun habs => hgot (habs.resolve_left nofun)

/-- The bits of the last scan are those that no scan has missed since. -/
structure Inv (w : Watch) : Prop where
  edge : Edge w.item
  last : ∀ i, w.item.last.getLsbD i = true → w.seen.getLsbD i = false

lemma Inv.reports (h : w.Inv) : Reports seen w .scan := by
  intro i hi hgot hseen
  have hfresh : w.got &&& ~~~w.item.last ≠ 0 := by
    intro habs
    have hbit : (w.got &&& ~~~w.item.last).getLsbD i = false := by
      rw [habs]
      exact getLsbD_zero
    cases hlast : w.item.last.getLsbD i with
    | true => exact absurd hseen (by rw [h.last i hlast]; decide)
    | false =>
      simp only [getLsbD_and, getLsbD_not, hgot, hlast, hi, decide_true] at hbit; cases hbit
  have hreport : w.report = w.got := by
    rw [report, h.edge.scan]
    exact if_pos hfresh
  rw [hreport, hgot]

lemma Inv.step (h : w.Inv) (c : Change) : (w.step c).Inv := by
  cases c with
  | file poll => exact ⟨h.edge, h.last⟩
  | scan =>
    refine ⟨?_, fun i hi => ?_⟩
    · rw [Watch.step, h.edge.scan]
      exact ⟨h.edge.et, h.edge.oneshot, h.edge.enabled⟩
    rw [Watch.step, h.edge.scan] at hi
    have hlt : i < 32 := lt_of_getLsbD hi
    have hgot : w.got.getLsbD i = true := hi
    simp only [Watch.step, getLsbD_or, getLsbD_and, getLsbD_not, hgot, hlt]
    cases hseen : w.seen.getLsbD i with
    | true => rw [h.reports i hlt hgot hseen]; rfl
    | false => rfl

/-- **No edge is lost that a scan has seen.**  In every run of a file that is watched from now on, a
scan reports the bits that the file has, if it had not at an earlier scan since they were last
reported. -/
theorem edge_reported (w : Watch) (hedge : Edge w.item) (hlast : w.item.last = 0)
    (evs : List Change) :
    Runs.Every step (Reports seen) evs w := by
  have hinv : w.Inv := by
    refine ⟨hedge, fun i hi => ?_⟩
    rw [hlast] at hi
    exact absurd hi (Bool.eq_false_iff.1 getLsbD_zero)
  clear hedge hlast
  induction evs generalizing w with
  | nil => trivial
  | cons c evs ih =>
    refine ⟨?_, ih _ (hinv.step c)⟩
    cases c with
    | file poll => trivial
    | scan => exact hinv.reports

/-- A pipe with nothing in it, watched for reading. -/
def emptyPipe : Watch := ⟨⟨epollEt ||| 1, (0, 0), 0, false⟩, 0, 0xffffffff, 0xffffffff⟩

theorem edge_reported_emptyPipe :
    Runs.Every step (Reports seen) [.file 1, .scan, .file 0, .scan, .file 1, .scan] emptyPipe :=
  edge_reported emptyPipe ⟨by decide, by decide, rfl⟩ rfl _

/-- **A lost edge.**  The pipe is read until it is empty, and more is written before the next scan:
that finds input, and does not report it. -/
theorem unseen_edge : ¬ Runs.Every step (Reports down)
    [.file 1, .scan, .file 0, .file 1, .scan] emptyPipe ∧
    ([.file 1, .scan, .file 0, .file 1].foldl step emptyPipe).got = 1 ∧
    ([.file 1, .scan, .file 0, .file 1].foldl step emptyPipe).report = 0 := by
  decide +kernel

end Watch

end Sage040.Events
