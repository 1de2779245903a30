import Sage040.Kernel.Reclock.Fcntl

/-!
# What a `struct flock` says

`l_start` and `l_len` are 64-bit numbers in two halves, and `range_of` works on the halves.
`rangeOf_means_iff` says that it comes to the offsets that the numbers mean, for every length but
one: for `-2 ^ 32` the low half is zero, and so is what is counted back (`rangeOf_empty`).

The fields are brought in from one of two layouts. Memory is a list of longwords here, which both
are made of. `reclock_fcntl` is to choose by the command, but its `case F_SETLK64` falls through
into the one that says that the narrow layout is meant: the 64-bit commands read the high half of
the start as the start, and the low half as the length (`setlk64_first_byte`).
-/

namespace Sage040.Reclock

namespace Lk

variable (k : Lk)

/-- `l_start`, of its halves. -/
def lStart : Int := k.startHi * 2 ^ 32 + k.start

/-- `l_len`, of its halves. -/
def lLen : Int := k.lenHi * 2 ^ 32 + k.len

/-- The fields name a range, counted from `b`. -/
def Valid (b : Nat) : Prop :=
  0 ≤ b + k.lStart ∧ b + k.lStart < 2 ^ 32 ∧ (k.lLen < 0 → 0 ≤ b + k.lStart + k.lLen)

/-- The offset is one of the range. -/
def Means (b x : Nat) : Prop :=
  (k.lLen = 0 → b + k.lStart ≤ x) ∧ (0 < k.lLen → b + k.lStart ≤ x ∧ x < b + k.lStart + k.lLen) ∧
    (k.lLen < 0 → b + k.lStart + k.lLen ≤ x ∧ x < b + k.lStart)

end Lk

section

variable {f : File} {k : Lk} {b : Nat}

/-- What comes out of `range_of` is what the fields mean. -/
def Lk.Right (k : Lk) (b : Nat) : Except Errno (Nat × Nat) → Prop
  | .error _ => ¬ k.Valid b
  | .ok (s, e) => k.Valid b ∧ s ≤ e ∧ e < 2 ^ 32 ∧ ∀ x < 2 ^ 32, s ≤ x ∧ x ≤ e ↔ k.Means b x

/-- The length is not the one that is lost, or the start is no 32-bit offset. -/
def Lk.Counted (k : Lk) (b : Nat) : Prop := k.lLen ≠ -2 ^ 32 ∨
    ¬(0 ≤ b + k.lStart ∧ b + k.lStart < 2 ^ 32)

lemma right_rangeOf_iff (hbase : base f k.whence = .ok b) (hb : b < 2 ^ 32)
    (hstart : k.start < 2 ^ 32)
    (hlen : k.len < 2 ^ 32) : k.Right b (rangeOf f k) ↔ k.Counted b := by
  have hlt : (b + k.start) % 2 ^ 32 < 2 ^ 32 := Nat.mod_lt _ (by decide)
  -- the two halves of the start, carry included
  have hsum : (k.startHi + (if (b + k.start) % 2 ^ 32 < b then 1 else 0)) * 2 ^ 32 +
      ((b + k.start) % 2 ^ 32 : Nat) = b + k.lStart := by
    rw [Lk.lStart]
    split <;> omega
  rw [rangeOf, hbase]
  simp only [bind, Except.bind, pure, Except.pure, throw, throwThe, MonadExceptOf.throw]
  generalize (b + k.start) % 2 ^ 32 = start, k.startHi + _ = startHi at hlt hsum ⊢
  rw [Lk.Counted, Lk.lLen]
  iterate 2
    split
    · simp only [Lk.Right, Lk.Valid]
      omega
  split
  · simp only [Lk.Right, Lk.Valid, Lk.Means, Lk.lLen, toEof]
    exact iff_of_true ⟨by omega, by omega, by omega, fun x hx => by omega⟩ (by omega)
  split
  · simp only [Lk.Right, Lk.Valid, Lk.Means, Lk.lLen, toEof]
    split
    iterate 2 · exact iff_of_true ⟨by omega, by omega, by omega, fun x hx => by omega⟩ (by omega)
  split
  · simp only [Lk.Right, Lk.Valid, Lk.lLen]
    omega
  · simp only [Lk.Right, Lk.Valid, Lk.Means, Lk.lLen]
    -- nothing is counted back where the low half is zero
    by_cases hzero : k.len = 0
    · exact iff_of_false (fun h => by omega) (by omega)
    · exact iff_of_true ⟨by omega, by omega, by omega, fun x hx => by omega⟩ (by omega)

/-- **A `struct flock` means its integer range** exactly if its length is not `-2 ^ 32`, or it is
refused for its start. -/
theorem rangeOf_means_iff (f : File) (k : Lk) (hbase : ∀ b, base f k.whence = .ok b → b < 2 ^ 32)
    (hstart : k.start < 2 ^ 32) (hlen : k.len < 2 ^ 32) :
    (((∃ r, rangeOf f k = .ok r) ↔ ∃ b, base f k.whence = .ok b ∧ k.Valid b) ∧
      ∀ b s e, base f k.whence = .ok b → rangeOf f k = .ok (s, e) →
        s ≤ e ∧ e < 2 ^ 32 ∧ ∀ x < 2 ^ 32, s ≤ x ∧ x ≤ e ↔ k.Means b x) ↔
    ∀ b, base f k.whence = .ok b → k.Counted b := by
  cases h : base f k.whence with
  | error e =>
    have hfail : rangeOf f k = .error e := by
      rw [rangeOf, h]
      rfl
    simp [hfail]
  | ok b =>
    have hright := right_rangeOf_iff h (hbase b h) hstart hlen
    simp only [Except.ok.injEq, forall_eq', exists_eq_left']
    rw [← hright]
    cases rangeOf f k with
    | error e => simp [Lk.Right]
    | ok r =>
      obtain ⟨s, e⟩ := r
      constructor
      · rintro ⟨hvalid, hrest⟩
        exact ⟨hvalid.1 ⟨_, rfl⟩, hrest b s e rfl rfl⟩
      · rintro ⟨hvalid, hrest⟩
        refine ⟨iff_of_true ⟨_, rfl⟩ hvalid, ?_⟩
        rintro _ _ _ rfl heq
        cases heq
        exact hrest

/-- Twenty bytes before the thirtieth, as seen from the tenth. -/
theorem rangeOf_means_back :
    rangeOf ⟨1, 7, .rdwr, 10, some 25⟩ ⟨.wrlck, .cur, 0, 0, 20, -1, 2 ^ 32 - 20⟩ = .ok (10, 29) ∧
    ∀ x < 2 ^ 32, 10 ≤ x ∧ x ≤ 29 ↔ Lk.Means ⟨.wrlck, .cur, 0, 0, 20, -1, 2 ^ 32 - 20⟩ 10 x :=
  ⟨rfl, (((rangeOf_means_iff ⟨1, 7, .rdwr, 10, some 25⟩ ⟨.wrlck, .cur, 0, 0, 20, -1, 2 ^ 32 - 20⟩
    (fun b hb => by cases hb; decide) (by decide) (by decide)).2
      (fun b hb => by cases hb; exact .inl (by decide))).2
    10 10 29 rfl rfl).2.2⟩

/-- The `2 ^ 32` bytes before the start are none, or all: before the fifth byte and before the
first. -/
theorem rangeOf_empty : rangeOf ⟨1, 7, .rdwr, 0, some 0⟩ ⟨.wrlck, .set, 0, 0, 5, -1, 0⟩ =
    .ok (5, 4) ∧
      rangeOf ⟨1, 7, .rdwr, 0, some 0⟩ ⟨.wrlck, .set, 0, 0, 0, -1, 0⟩ = .ok (0, toEof) := ⟨rfl, rfl⟩

end

/-! ## The two layouts -/

/-- The commands that `reclock_fcntl` is given. -/
inductive Cmd
  | getlk | setlk | setlkw | getlk64 | setlk64 | setlkw64 | ofdGetlk | ofdSetlk | ofdSetlkw

/-- `l_type`, in the first longword. -/
def FlockType.ofLong (w : BitVec 32) : FlockType :=
  match w.toNat / 2 ^ 16 with
  | 0 => .rdlck
  | 1 => .wrlck
  | 2 => .unlck
  | _ => .other

/-- `l_whence`, in the first longword. -/
def Whence.ofLong (w : BitVec 32) : Whence :=
  match w.toNat % 2 ^ 16 with
  | 0 => .set
  | 1 => .cur
  | 2 => .fromEnd
  | _ => .other

/-- The high half of a number that fits in 32 bits. -/
def highHalf (x : BitVec 32) : BitVec 32 := if x.toInt < 0 then -1 else 0

/-- `fetch_lk`, from the longwords that can be read. -/
def fetchLk : Bool → List (BitVec 32) → Option Lk
  | true, w :: startHi :: start :: lenHi :: len :: pid :: _ =>
    some ⟨.ofLong w, .ofLong w, pid.toInt, startHi.toInt, start.toNat, lenHi.toInt, len.toNat⟩
  | false, w :: start :: len :: pid :: _ =>
    some ⟨.ofLong w, .ofLong w, pid.toInt, (highHalf start).toInt, start.toNat,
    (highHalf len).toInt, len.toNat⟩
  | _, _ => none

/-- What `F_GETLK` stores, in the layout that it goes by. -/
def storeLk (wide : Bool) (f : Flock) (u : List (BitVec 32)) : List (BitVec 32) :=
  let type : BitVec 32 := match f.type with
    | .rdlck => 0
    | .wrlck => 1 * 2 ^ 16
    | _ => 2 * 2 ^ 16
  if wide then [type, 0, .ofNat 32 f.start, 0, .ofNat 32 f.len, .ofInt 32 f.pid] ++ u.drop 6
  else [type, .ofNat 32 f.start, .ofNat 32 f.len, .ofInt 32 f.pid] ++ u.drop 4

/-- `reclock_fcntl`: the caller's part of `c`, and what is in memory afterwards. -/
def reclockFcntl (s : Sys) (c : Call) (cmd : Cmd) (wide : Bool) (u : List (BitVec 32))
    (sig : Bool) :
    (Sys × Option Answer) × List (BitVec 32) :=
  -- a 64-bit command sets `wide`, and falls through into the line that clears it
  let (op, ofd, wide) := match cmd with
    | .getlk64 | .getlk => (Op.get, false, false)
    | .setlkw64 | .setlkw => (.setw, false, false)
    | .setlk64 | .setlk => (.set, false, false)
    | .ofdGetlk => (.get, true, wide)
    | .ofdSetlkw => (.setw, true, wide)
    | .ofdSetlk => (.set, true, wide)
  let r := s.fcntl { c with op := op, ofd := ofd, arg := fetchLk wide u } sig
  (r, match r.2 with
    | some (.report f) => storeLk wide f u
    | _ => u)

/-- A `struct flock` in memory. -/
def flock (w start len pid : BitVec 32) : List (BitVec 32) := [w, start, len, pid]

/-- A `struct flock64` with the same values. -/
def flock64 (w start len pid : BitVec 32) : List (BitVec 32) :=
  [w, highHalf start, start, highHalf len, len, pid]

/-! ## When they agree -/

/-- What the narrow layout makes of four longwords. -/
def narrow (w start len pid : BitVec 32) : Lk :=
  ⟨.ofLong w, .ofLong w, pid.toInt, (highHalf start).toInt, start.toNat,
    (highHalf len).toInt, len.toNat⟩

/-- What it makes of a `struct flock64`: the high half of the start is the start, the low half the
length. -/
abbrev narrow64 (w start len : BitVec 32) : Lk := narrow w (highHalf start) start (highHalf len)

lemma narrow_startHi (w start len pid : BitVec 32) :
    (narrow w start len pid).startHi = (highHalf start).toInt := rfl

lemma toInt_halves (x : BitVec 32) : (highHalf x).toInt * 2 ^ 32 + x.toNat = x.toInt := by
  have hlt := x.isLt
  have hx : x.toInt = if 2 * x.toNat < 2 ^ 32 then (x.toNat : Int) else x.toNat - 2 ^ 32 := rfl
  rw [highHalf]
  split
  · rw [show (-1 : BitVec 32).toInt = -1 from by decide]
    split at hx <;> omega
  · rw [show (0 : BitVec 32).toInt = 0 from by decide]
    split at hx <;> omega

lemma toInt_highHalf (x : BitVec 32) : (highHalf x).toInt = if x.toInt < 0 then -1 else 0 := by
  rw [highHalf]
  split <;> decide

/-- The range has the byte `x`. -/
def Lk.Holds (f : File) (k : Lk) (x : Nat) : Prop := ∃ s e, rangeOf f k = .ok (s, e) ∧ s ≤ x ∧ x ≤ e

/-- `x` is one of the `len` bytes from `s`, and the range is one. -/
def InRange (s len x : Int) : Prop :=
  0 ≤ s ∧ s < 2 ^ 32 ∧ (len < 0 → 0 ≤ s + len) ∧ (len = 0 → s ≤ x) ∧
    (0 < len → s ≤ x ∧ x < s + len) ∧
    (len < 0 → s + len ≤ x ∧ x < s)

section

variable {f : File} {b x : Nat} {w start len pid : BitVec 32}

lemma holds_narrow (hbase : base f (.ofLong w) = .ok b) (hb : b < 2 ^ 32) (hx : x < 2 ^ 32) :
    (narrow w start len pid).Holds f x ↔ InRange (b + start.toInt) len.toInt x := by
  rw [InRange]
  have hlen : (narrow w start len pid).lLen = len.toInt := toInt_halves len
  have hstart : (narrow w start len pid).lStart = start.toInt := toInt_halves start
  have hcount : (narrow w start len pid).Counted b := .inl (by
    rw [hlen]
    have := len.le_toInt
    simp only [Nat.add_one_sub_one] at this
    omega)
  have hright := (right_rangeOf_iff (k := narrow w start len pid) hbase hb start.isLt len.isLt).2
    hcount
  rw [Lk.Holds]
  cases hr : rangeOf f (narrow w start len pid) with
  | error e =>
    rw [hr, Lk.Right, Lk.Valid, hlen, hstart] at hright
    simp only [reduceCtorEq, false_and, exists_false, false_iff]
    exact fun h => hright ⟨h.1, h.2.1, h.2.2.1⟩
  | ok r =>
    obtain ⟨s, e⟩ := r
    rw [hr] at hright
    obtain ⟨hvalid, -, -, hmeans⟩ := hright
    rw [Lk.Valid, hlen, hstart] at hvalid
    have hx := hmeans x hx
    rw [Lk.Means, hlen, hstart] at hx
    constructor
    · rintro ⟨s', e', heq, h⟩
      cases heq
      exact ⟨hvalid.1, hvalid.2.1, hvalid.2.2, hx.1 h⟩
    · exact fun h => ⟨s, e, rfl, hx.2 h.2.2.2⟩

/-- A lock on byte `x` alone, by process 0 or by process 1, and 127 free slots. -/
def lockedAt (owner x : Nat) : Sys :=
  { Sys.init with table := some ⟨7, .posix owner, .wr, x, x⟩ :: List.replicate 127 none }

lemma cut_one {p : Span} {l : Lock} (hl : l.isOf p = true) (hone : l.start = l.stop) (n : Nat) :
    Table.cut (some l :: List.replicate n none) p =
      if l.overlaps p.s p.e then List.replicate (n + 1) none else some l :: List.replicate n none :=
      by
  have hrest : ∀ (o : Option Lock) (ns : List Nat),
      (ns.map Nat.succ).foldl (Table.cutAt p) (o :: List.replicate n none) = o ::
          List.replicate n none := by
    intro o ns
    induction ns with
    | nil => rfl
    | cons i ns ih =>
      have hnone : (o :: List.replicate n none).getD (i + 1) none = none := by
        rw [List.getD_cons_succ, List.getD_eq_getElem?_getD, List.getElem?_replicate]
        split <;> rfl
      rw [List.map_cons, List.foldl_cons, Table.cutAt, hnone]
      exact ih
  rw [Table.cut, List.length_cons, List.length_replicate, List.range_succ_eq_map, List.foldl_cons]
  have hfirst : Table.cutAt p (some l :: List.replicate n none) 0 =
      (if l.overlaps p.s p.e then none else some l) :: List.replicate n none := by
    simp only [Table.cutAt, List.getD_cons_zero, hl, Bool.true_and]
    by_cases ho : l.overlaps p.s p.e = true
    · have h := ho
      simp only [Lock.overlaps, Bool.and_eq_true, decide_eq_true_eq] at h
      rw [if_pos ho, if_pos ho, if_neg (by omega), if_neg (by omega), if_neg (by omega),
        List.set_cons_zero]
    · rw [if_neg ho, if_neg ho]
  rw [hfirst, hrest]
  split <;> rfl

/-- Who asks: process 0, with a file that it may read and write. -/
def asks (b : Nat) (arg : Option Lk) (op : Op) : Call :=
    ⟨1, 0, some ⟨1, 7, .rdwr, b, some b⟩, op, false, arg, true⟩

/-- The byte shows in the answer of a lock, or in the table after an unlock. -/
def Hit (type : FlockType) (r : Sys × Option Answer) : Prop :=
  if type = .unlck then r.1.table.locks = [] else r.2 = some (.failed .eagain)

/-- A lock that somebody else has on `x` stands in the way exactly of a range with `x` in it. -/
lemma pass_iff (type : LockType) (x s e : Nat) :
    ((lockedAt 1 x).pass ⟨1, 0, ⟨7, .posix 0, s, e⟩, some type, false⟩ false).2 =
    some (.failed .eagain) ↔
      x ≤ e ∧ s ≤ x := by
  have hlocks : (lockedAt 1 x).table.locks = [⟨7, .posix 1, .wr, x, x⟩] := by
    simp [lockedAt, Table.locks]
  have hblocks : Lock.blocks ⟨7, .posix 0, s, e⟩ type ⟨7, .posix 1, .wr, x, x⟩ =
      decide (x ≤ e ∧ s ≤ x) := by
    simp [Lock.blocks, Lock.overlaps]
  rw [Sys.pass, Sys.inTheWay, Option.bind_some, Table.conflict, hlocks,
    List.find?_singleton, hblocks]
  by_cases h : x ≤ e ∧ s ≤ x
  · simp [h]
  · simp only [h, decide_false, Bool.false_eq_true, if_false, iff_false]
    exact Sys.take_ne_eagain _ _

/-- **Where the lock is tells the range**: an unlock takes it away if it is the caller's and in the
range, and another one fails if it is somebody else's and in the range. -/
lemma hit_iff {k : Lk} {owner : Nat} (hk : k.type ≠ .other) (hown : k.type = .unlck → owner = 0)
    (helse : k.type ≠ .unlck → owner = 1) (b x : Nat) :
    Hit k.type ((lockedAt owner x).fcntl (asks b (some k) .set) false) ↔
    k.Holds ⟨1, 7, .rdwr, b, some b⟩ x := by
  rw [Lk.Holds, Sys.fcntl, asks, Call.read]
  simp only [hk, if_false, Bool.false_eq_true, false_and, bind, Except.bind]
  cases hr : rangeOf ⟨1, 7, .rdwr, b, some b⟩ k with
  | error e =>
    have he := rangeOf_error hr
    simp only [Hit, reduceCtorEq, false_and, exists_false, iff_false]
    split
    · simp [lockedAt, Table.locks]
    · rcases he with rfl | rfl <;> simp
  | ok r =>
    obtain ⟨s, e⟩ := r
    have hin : (∃ s' e', (Except.ok (s, e) : Except Errno (Nat × Nat)) = .ok (s', e') ∧
      s' ≤ x ∧ x ≤ e') ↔
        x ≤ e ∧ s ≤ x := by
      simp [and_comm]
    rw [hin]
    cases ht : k.type with
    | other => exact absurd ht hk
    | unlck =>
      obtain rfl := hown ht
      have hfree : ¬Table.freeSlots (lockedAt 0 x).table <
          (lockedAt 0 x).table.locks.countP (fun l =>
          l.isOf ⟨7, .posix 0, s, e⟩ && decide (l.start < s) && decide (e < l.stop)) + 0 := by
        refine Nat.not_lt.2 ((Nat.add_le_add_right List.countP_le_length 0).trans ?_)
        simp [lockedAt, Table.locks, Table.freeSlots]
      simp only [Hit, if_true, Call.allowed, Sys.pass, Sys.inTheWay, Option.bind_none, Sys.take,
        Table.setRange,
        Option.isSome_none, Bool.false_eq_true, if_false, pure, Except.pure]
      rw [if_neg hfree]
      simp only [Sys.wakeAll, lockedAt]
      rw [cut_one (by rfl) rfl, ← Bool.decide_iff (x ≤ e ∧ s ≤ x), Bool.decide_and]
      change _ ↔ Lock.overlaps ⟨7, .posix 0, .wr, x, x⟩ s e = true
      split
      · rename_i ho
        exact iff_of_true (by decide) ho
      · rename_i ho
        exact iff_of_false (by simp [Table.locks]) ho
    | rdlck =>
      obtain rfl := helse (by rw [ht]; decide)
      exact pass_iff .rd x s e
    | wrlck =>
      obtain rfl := helse (by rw [ht]; decide)
      exact pass_iff .wr x s e

end

/-- Two requests of one type for one range are the same. -/
lemma fcntl_congr {c : Call} {k l : Lk} (hofd : c.ofd = false) (ht : k.type = l.type)
    (hr : k.type = .other ∨ ∀ f, rangeOf f k = rangeOf f l) (s : Sys) (sig : Bool) :
    s.fcntl { c with arg := some k } sig = s.fcntl { c with arg := some l } sig := by
  have hread : ({ c with arg := some k } : Call).read = ({ c with arg := some l } : Call).read := by
    rw [Call.read, Call.read]
    cases c.file with
    | none => rfl
    | some f =>
      simp only [hofd, Bool.false_eq_true, false_and, if_false]
      rw [← ht]
      rcases hr with hr | hr
      · rw [if_pos hr, if_pos hr]
      · rw [hr f]
  rw [Sys.fcntl, Sys.fcntl, hread]

variable (w start len pid : BitVec 32)

/-- `F_SETLK64` and `F_SETLKW64` do with a `struct flock64` what `F_SETLK` and `F_SETLKW` do with a
`struct flock` of the same values, in every state and for every caller. -/
def SetAgrees : Prop := ∀ s c wide wide' sig,
  (reclockFcntl s c .setlk64 wide (flock64 w start len pid) sig).1 =
      (reclockFcntl s c .setlk wide' (flock w start len pid) sig).1 ∧
    (reclockFcntl s c .setlkw64 wide (flock64 w start len pid) sig).1 =
      (reclockFcntl s c .setlkw wide' (flock w start len pid) sig).1

/-- `F_GETLK64` answers what `F_GETLK` answers, and stores as a `struct flock64` what that stores as
a `struct flock`. -/
def GetAgrees : Prop := ∀ s c wide wide' sig,
  (reclockFcntl s c .getlk64 wide (flock64 w start len pid) sig).1 =
      (reclockFcntl s c .getlk wide' (flock w start len pid) sig).1 ∧
    (reclockFcntl s c .getlk64 wide (flock64 w start len pid) sig).2 =
      match (reclockFcntl s c .getlk wide' (flock w start len pid) sig).1.2 with
      | some (.report f) => storeLk true f (flock64 w start len pid)
      | _ => flock64 w start len pid

variable {w start len pid}

/-- The values come to one range whichever layout they are read in, wherever the file is. -/
def SameRange (w start len : BitVec 32) : Prop :=
  Whence.ofLong w = .other ∨ len = start ∧ (start = 0 ∨ start = -1) ∨
    Whence.ofLong w = .set ∧ (start.toInt < 0 ∨ 0 < start.toInt ∧ len.toInt = -start.toInt)

lemma base_of_whence (h : Whence.ofLong w ≠ .other) (b : Nat) :
    ∃ b', base ⟨1, 7, .rdwr, b, some b⟩ (.ofLong w) = .ok b' ∧
    (Whence.ofLong w = .set ∧ b' = 0 ∨ Whence.ofLong w ≠ .set ∧ b' = b) := by
  cases hw : Whence.ofLong w with
  | set => exact ⟨0, rfl, .inl ⟨rfl, rfl⟩⟩
  | cur => exact ⟨b, rfl, .inr ⟨by simp, rfl⟩⟩
  | fromEnd => exact ⟨b, rfl, .inr ⟨by simp, rfl⟩⟩
  | other => exact absurd hw h

variable (pid) in
/-- Whether a byte is in both ranges or in neither, for all files, says that they are the same. -/
lemma sameRange_of_holds (h : ∀ b < 2 ^ 32, ∀ x < 2 ^ 32,
    (narrow64 w start len).Holds ⟨1, 7, .rdwr, b, some b⟩ x ↔
      (narrow w start len pid).Holds ⟨1, 7, .rdwr, b, some b⟩ x) : SameRange w start len := by
  by_contra hne
  simp only [SameRange, not_or, not_and] at hne
  obtain ⟨hother, hequal, hset⟩ := hne
  have hs := start.toInt_lt
  have hs' := start.le_toInt
  have hl := len.toInt_lt
  simp only [Nat.add_one_sub_one] at hs hs' hl
  have hhigh := toInt_highHalf start
  have hequal' : len.toInt = start.toInt → start.toInt ≠ 0 ∧ start.toInt ≠ -1 := fun heq =>
    ⟨fun h0 => (hequal (BitVec.eq_of_toInt_eq heq)).1 (BitVec.eq_of_toInt_eq h0),
      fun h1 => (hequal (BitVec.eq_of_toInt_eq heq)).2 (BitVec.eq_of_toInt_eq h1)⟩
  have hinst : ∀ b : Nat, b < 2 ^ 32 → ∀ x : Nat, x < 2 ^ 32 → ∃ b' : Nat,
      (Whence.ofLong w = .set ∧ b' = 0 ∨ Whence.ofLong w ≠ .set ∧ b' = b) ∧
      (InRange (b' + (highHalf start).toInt) start.toInt x ↔
          InRange (b' + start.toInt) len.toInt x) :=
    fun b hb x hx => by
      obtain ⟨b', hbase, hb'⟩ := base_of_whence hother b
      have hiff := h b hb x hx
      rw [holds_narrow hbase (by omega) hx, holds_narrow hbase (by omega) hx] at hiff
      exact ⟨b', hb', hiff⟩
  simp only [InRange] at hinst
  -- the first bytes and the last one tell the ranges apart
  by_cases hw : Whence.ofLong w = .set
  · have hset := hset hw
    obtain ⟨b₁, hb₁, h₁⟩ := hinst 0 (by decide) 0 (by decide)
    obtain ⟨b₂, hb₂, h₂⟩ := hinst 0 (by decide) (2 ^ 32 - 1) (by decide)
    simp only [hw, true_and, ne_eq, not_true_eq_false, false_and, or_false] at hb₁ hb₂
    rw [hb₁] at h₁
    rw [hb₂] at h₂
    rw [hhigh, if_neg hset.1] at h₁ h₂
    omega
  · have hb : ∀ {b b' : Nat}, (Whence.ofLong w = .set ∧ b' = 0 ∨ Whence.ofLong w ≠ .set ∧ b' = b) →
      b' = b := by
      rintro b b' (⟨h, -⟩ | ⟨-, h⟩)
      · exact absurd h hw
      · exact h
    by_cases hneg : start.toInt < 0
    · obtain ⟨b₁, hb₁, h₁⟩ := hinst (1 - start.toInt).toNat (by omega) 0 (by decide)
      obtain ⟨b₂, hb₂, h₂⟩ := hinst (1 - start.toInt).toNat (by omega) 1 (by decide)
      rw [hb hb₁] at h₁
      rw [hb hb₂] at h₂
      rw [hhigh, if_pos hneg] at h₁ h₂
      omega
    · obtain ⟨b₁, hb₁, h₁⟩ := hinst 0 (by decide) (2 ^ 32 - 1) (by decide)
      obtain ⟨b₂, hb₂, h₂⟩ := hinst (2 ^ 32 - 1) (by decide) (2 ^ 32 - 1) (by decide)
      rw [hb hb₁] at h₁
      rw [hb hb₂] at h₂
      rw [hhigh, if_neg hneg] at h₁ h₂
      omega

lemma rangeOf_set {f : File} {k : Lk} (hw : k.whence = .set) (hneg : k.startHi < 0) :
    rangeOf f k = .error .einval := by
  simp [rangeOf, hw, base, bind, Except.bind, throw, throwThe, MonadExceptOf.throw, hneg]

variable (pid) in
lemma SameRange.rangeOf_eq (h : SameRange w start len) (f : File) :
    rangeOf f (narrow64 w start len) = rangeOf f (narrow w start len pid) := by
  have hm : (-1 : BitVec 32).toInt = -1 := by decide
  have hm' : (highHalf (-1)).toInt = -1 := by decide
  have hz : (0 : BitVec 32).toInt = 0 := by decide
  have hz' : (highHalf 0).toInt = 0 := by decide
  rcases h with h | ⟨rfl, h⟩ | ⟨hw, hneg | ⟨hpos, hlen⟩⟩
  · simp [rangeOf, narrow, h, base, bind, Except.bind]
  · have hhigh : highHalf len = len := by rcases h with rfl | rfl <;> decide
    simp only [rangeOf, narrow, hhigh]
  · have hhigh : highHalf start = -1 := if_pos hneg
    rw [rangeOf_set (k := narrow64 w start len) hw (by
        rw [narrow_startHi, hhigh, hm']; decide),
      rangeOf_set (k := narrow w start len pid) hw (by rw [narrow_startHi, hhigh, hm]; decide)]
  · have hhigh : highHalf start = 0 := if_neg (by omega)
    have hback : highHalf len = -1 := if_pos (by omega)
    have hstart := toInt_halves start
    have hlen' := toInt_halves len
    rw [hhigh, hz] at hstart
    rw [hback, hm] at hlen'
    have h1 : start.toNat % 2 ^ 32 = start.toNat := Nat.mod_eq_of_lt start.isLt
    have h2 : (2 ^ 32 - len.toNat) % 2 ^ 32 = start.toNat := by omega
    have h3 : start.toNat ≠ 0 := by omega
    simp only [rangeOf, narrow, hw, base, bind, Except.bind, pure, Except.pure, throw, throwThe,
      MonadExceptOf.throw,
      hhigh, hback, hz, hz', hm, Nat.zero_add, h1, h2, h3, Nat.not_lt_zero, if_false,
      add_zero, lt_irrefl, and_false, le_refl, if_true, or_false, Nat.sub_self, ne_eq,
        not_true_eq_false]
    simp only [show BitVec.toNat (0 : BitVec 32) = 0 from rfl, Nat.zero_mod, Nat.zero_add,
      Nat.not_lt_zero, or_false, if_false]
    rw [if_neg fun h => absurd h.1 (by decide), if_neg (by decide)]

/-- A lock of process 1 on the whole file. -/
def lockedAll : Sys := { Sys.init with table := some ⟨7, .posix 1, .wr, 0, toEof⟩ :: List.replicate 127 none }

/-- It is what `F_GETLK` reports for every range. -/
lemma get_reports {k : Lk} {b x : Nat} (hk : k.type = .rdlck ∨ k.type = .wrlck) (hx : x < 2 ^ 32)
    (h : k.Holds ⟨1, 7, .rdwr, b, some b⟩ x) :
    (lockedAll.fcntl (asks b (some k) .get) false).2 = some (.report ⟨.wrlck, 0, 0, 1⟩) := by
  obtain ⟨s, e, hr, hs, -⟩ := h
  have hlocks : lockedAll.table.locks = [⟨7, .posix 1, .wr, 0, toEof⟩] := by
    simp [lockedAll, Table.locks]
  have hs' : s ≤ toEof := by
    rw [toEof]
    omega
  have hblocks : ∀ type, Lock.blocks ⟨7, .posix 0, s, e⟩ type ⟨7, .posix 1, .wr, 0, toEof⟩ = true :=
      fun type => by
    simp [Lock.blocks, Lock.overlaps, hs']
  rcases hk with hk | hk <;>
    simp [Sys.fcntl, asks, Call.read, hk, bind, Except.bind, pure, Except.pure, hr, Sys.inTheWay,
      Table.conflict, hlocks,
      hblocks, flockOf, lenOf]

section

variable (s : Sys) (c : Call) (wide sig : Bool)

lemma setlk64_eq : (reclockFcntl s c .setlk64 wide (flock64 w start len pid) sig).1 =
    s.fcntl { c with
    op := .set, ofd := false, arg := some (narrow64 w start len) } sig := rfl

lemma setlk_eq : (reclockFcntl s c .setlk wide (flock w start len pid) sig).1 = s.fcntl { c with
    op := .set, ofd := false, arg := some (narrow w start len pid) } sig := rfl

lemma setlkw64_eq : (reclockFcntl s c .setlkw64 wide (flock64 w start len pid) sig).1 =
    s.fcntl { c with
    op := .setw, ofd := false, arg := some (narrow64 w start len) } sig := rfl

lemma setlkw_eq : (reclockFcntl s c .setlkw wide (flock w start len pid) sig).1 = s.fcntl { c with
    op := .setw, ofd := false, arg := some (narrow w start len pid) } sig := rfl

lemma getlk64_eq : reclockFcntl s c .getlk64 wide (flock64 w start len pid) sig =
    let r := s.fcntl { c with
      op := .get, ofd := false, arg := some (narrow64 w start len) } sig
    (r, match r.2 with
      | some (.report f) => storeLk false f (flock64 w start len pid)
      | _ => flock64 w start len pid) := rfl

lemma getlk_eq : (reclockFcntl s c .getlk wide (flock w start len pid) sig).1 = s.fcntl { c with
    op := .get, ofd := false, arg := some (narrow w start len pid) } sig := rfl

end

/-- Nothing is reported for an unlock, nor without a range. -/
lemma get_not_report {c : Call} {k : Lk} (harg : c.arg = some k) (hop : c.op = .get)
    (hofd : c.ofd = false)
    (h : k.type = .other ∨ k.type = .unlck ∨ ∀ f, ∃ e, rangeOf f k = .error e) (s : Sys)
    (sig : Bool) (f : Flock) :
    (s.fcntl c sig).2 ≠ some (.report f) := by
  rw [Sys.fcntl, Call.read, harg]
  cases c.file with
  | none => simp [throw, throwThe, MonadExceptOf.throw]
  | some f =>
    by_cases ht : k.type = .other
    · simp [ht, throw, throwThe, MonadExceptOf.throw]
    simp only [ht, if_false, hofd, Bool.false_eq_true, false_and]
    cases hr : rangeOf f k with
    | error e => simp [bind, Except.bind]
    | ok r =>
      have hu : k.type = .unlck := by
        rcases h with h | h | h
        · exact absurd h ht
        · exact h
        · obtain ⟨e, he⟩ := h f
          rw [hr] at he
          cases he
      simp [bind, Except.bind, pure, Except.pure, hop, hu]

/-- For a lock that can be set `F_GETLK64` stores the process where the high half of the length is.
-/
lemma not_getAgrees (htype : FlockType.ofLong w = .rdlck ∨ FlockType.ofLong w = .wrlck)
    (hother : Whence.ofLong w ≠ .other) (hset : ¬(Whence.ofLong w = .set ∧ start.toInt < 0)) :
    ¬GetAgrees w start len pid := by
  intro h
  have hs := start.toInt_lt
  have hs' := start.le_toInt
  simp only [Nat.add_one_sub_one] at hs hs'
  have hhigh := toInt_highHalf start
  obtain ⟨b, hbase, hb⟩ := base_of_whence hother (2 ^ 31 + 1)
  obtain ⟨x, hx, hholds⟩ : ∃ x < 2 ^ 32, (narrow64 w start len).Holds
      ⟨1, 7, .rdwr, 2 ^ 31 + 1, some (2 ^ 31 + 1)⟩ x := by
    by_cases hneg : start.toInt < 0
    · obtain rfl : b = 2 ^ 31 + 1 := by
        rcases hb with ⟨hb, -⟩ | ⟨-, hb⟩
        · exact absurd ⟨hb, hneg⟩ hset
        · exact hb
      refine ⟨2 ^ 31 - 1, by decide, (holds_narrow hbase (by decide) (by decide)).2 ?_⟩
      rw [hhigh, if_pos hneg, InRange]
      omega
    · refine ⟨b, by omega, (holds_narrow hbase (by omega) (by omega)).2 ?_⟩
      rw [hhigh, if_neg hneg, InRange]
      omega
  have hreport := get_reports (k := narrow64 w start len) htype hx hholds
  obtain ⟨h1, h2⟩ := h lockedAll (asks (2 ^ 31 + 1) none .get) true true false
  rw [getlk64_eq] at h1 h2
  rw [← h1] at h2
  rw [asks] at hreport
  simp only [asks, hreport] at h2
  simp [storeLk, flock64] at h2

/-- In every state a lock on one byte tells whether the ranges are the same. -/
lemma sameRange_of_setAgrees (h : SetAgrees w start len pid) (htype : FlockType.ofLong w ≠ .other) :
    SameRange w start len := by
  refine sameRange_of_holds pid fun b hb x hx => ?_
  obtain ⟨owner, hown, helse⟩ : ∃ owner, (FlockType.ofLong w = .unlck → owner = 0) ∧
      (FlockType.ofLong w ≠ .unlck → owner = 1) := by
    by_cases hu : FlockType.ofLong w = .unlck
    · exact ⟨0, fun _ => rfl, fun h => absurd hu h⟩
    · exact ⟨1, fun h => absurd h hu, fun _ => rfl⟩
  have hagree := (h (lockedAt owner x) (asks b none .set) true true false).1
  rw [setlk64_eq, setlk_eq] at hagree
  rw [← hit_iff (k := narrow64 w start len) htype hown helse b x,
    ← hit_iff (k := narrow w start len pid) htype hown helse b x]
  unfold asks at hagree ⊢
  rw [hagree]
  rfl

/-- **The 64-bit commands do what the 32-bit ones do** in every state and for every caller exactly
for these values: those that set a lock where the type is none, or both layouts come to one range;
all three where besides nothing can be reported, because the type is that of an unlock or there is
no such range. -/
theorem lk64_agrees_iff (w start len pid : BitVec 32) :
    (SetAgrees w start len pid ↔ FlockType.ofLong w = .other ∨ SameRange w start len) ∧
    (SetAgrees w start len pid ∧ GetAgrees w start len pid ↔ FlockType.ofLong w = .other ∨
    SameRange w start len ∧
      (FlockType.ofLong w = .unlck ∨ Whence.ofLong w = .other ∨ Whence.ofLong w = .set ∧
      start.toInt < 0)) := by
  have hsets : SetAgrees w start len pid ↔ FlockType.ofLong w = .other ∨ SameRange w start len := by
    refine ⟨fun h => or_iff_not_imp_left.2 (sameRange_of_setAgrees h),
      fun h s c wide wide' sig => ?_⟩
    have hr := h.imp_right fun h => h.rangeOf_eq pid
    rw [setlk64_eq, setlk_eq, setlkw64_eq, setlkw_eq]
    exact ⟨fcntl_congr (k := narrow64 w start len) (l := narrow w start len pid)
        (c := { c with op := .set, ofd := false }) rfl rfl hr s sig,
      fcntl_congr (k := narrow64 w start len) (l := narrow w start len pid)
        (c := { c with op := .setw, ofd := false }) rfl rfl hr s sig⟩
  refine ⟨hsets, fun ⟨h, hget⟩ => ?_, fun h => ⟨hsets.2 (h.imp_right And.left),
    fun s c wide wide' sig => ?_⟩⟩
  · refine or_iff_not_imp_left.2 fun htype => ⟨(hsets.1 h).resolve_left htype, ?_⟩
    by_contra hne
    simp only [not_or] at hne
    cases ht : FlockType.ofLong w with
    | rdlck => exact not_getAgrees (.inl ht) hne.2.1 hne.2.2 hget
    | wrlck => exact not_getAgrees (.inr ht) hne.2.1 hne.2.2 hget
    | unlck => exact hne.1 ht
    | other => exact htype ht
  · have hr := h.imp_right fun h => h.1.rangeOf_eq pid
    have heq := fcntl_congr (k := narrow64 w start len) (l := narrow w start len pid)
      (c := { c with op := .get, ofd := false }) rfl rfl hr s sig
    rw [getlk64_eq, getlk_eq, ← heq]
    have hfails : (narrow64 w start len).type = .other ∨
        (narrow64 w start len).type = .unlck ∨
        ∀ f, ∃ e, rangeOf f (narrow64 w start len) = .error e := by
      refine h.imp_right fun h => h.2.imp_right fun h f => ⟨.einval, ?_⟩
      rcases h with h | ⟨hw, hneg⟩
      · simp [rangeOf, narrow, h, base, bind, Except.bind]
      · exact rangeOf_set (k := narrow64 w start len) hw (by
          rw [narrow_startHi, show highHalf start = -1 from if_pos hneg]; decide)
    have hnone := get_not_report (c := { c with
      op := .get, ofd := false, arg := some (narrow64 w start len) }) rfl rfl rfl hfails s sig
    refine ⟨rfl, ?_⟩
    dsimp only
    split
    · rename_i f hf
      exact absurd hf (hnone f)
    · rfl

/-- The lock on the first byte, set with `F_SETLK64`, is on the whole file. -/
theorem setlk64_first_byte : (reclockFcntl Sys.init (firstByte 1 .rdwr .set) .setlk64 true
      (flock64 (2 ^ 16) 0 1 0) false).1.1.table.locks = [⟨7, .posix 1, .wr, 0, toEof⟩] ∧
    (reclockFcntl Sys.init (firstByte 1 .rdwr .set) .setlk true
      (flock (2 ^ 16) 0 1 0) false).1.1.table.locks = [⟨7, .posix 1, .wr, 0, 0⟩] := by
  decide +kernel

end Sage040.Reclock
