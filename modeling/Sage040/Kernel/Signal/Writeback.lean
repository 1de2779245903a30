import Sage040.Kernel.Signal.Frame

/-!
# The writes a fault left undone

The 68040 retires an instruction before its writes reach memory, and a fault leaves up to three of
them in its frame. Those the kernel could not make either go into the signal frame, as
`struct fault_wb`, and are made when the handler returns (`kernel/wb040.c`). Here is what one such
record says: how many bytes, which, and for whom.
-/

namespace Sage040.Signal

def faultWbMagic : UInt32 := 0x57423034

namespace Undone

variable (u : Undone)

/-- `WBS_SIZE`: 0 long, 1 byte, 2 word, 3 line. -/
def size : UInt16 := (u.status >>> 5) &&& 3

/-- `WBS_TM`: 1 user data, 5 supervisor data. -/
def tm : UInt16 := u.status &&& 7

def len : Nat := if u.size = 1 then 1 else if u.size = 2 then 2 else 4

/-- A line: `one_write` refuses it. -/
def line : Bool := u.size == 3

/-- The kernel's own write: it is simply done. -/
def supervisor : Bool := u.tm == 5

def value : UInt32 :=
  if u.memaligned ≠ 0 then
    let rot := (u.addr &&& 3) * 8
    let data := if rot ≠ 0 then u.data <<< rot ||| u.data >>> (32 - rot) else u.data
    data >>> UInt32.ofNat ((4 - u.len) * 8)
  else u.data

def buf : Bytes := fun i => (u.value >>> UInt32.ofNat ((u.len - 1 - i) * 8)).toUInt8

end Undone

/-- `struct fault_wb` at `o`. -/
def getWb (b : Bytes) (o : Nat) : FaultWb where
  magic := b.get32 o
  n := b.get32 (o + 4)
  w i := getUndone b (o + 8 + i * 12)

/-- The records that `wb040_redo` looks at, in turn. -/
def FaultWb.records (wb : FaultWb) : List Undone :=
  if wb.magic = faultWbMagic then
    (List.finRange 3).filterMap fun i => if i.val < wb.n.toNat then some (wb.w i) else none
  else []

lemma getUndone_congr {b c : Bytes} {o p : Nat} (h : Bytes.SameAt 12 b o c p) :
    getUndone b o = getUndone c p := by
  have h0 : b.get32 o = c.get32 p := h.get32 0 (by decide)
  simp (disch := decide) only [getUndone, h0, h.get16, h.get32]

lemma getWb_congr {b c : Bytes} {o p : Nat} (h : Bytes.SameAt 44 b o c p) :
    getWb b o = getWb c p := by
  have h0 : b.get32 o = c.get32 p := h.get32 0 (by decide)
  have h4 : b.get32 (o + 4) = c.get32 (p + 4) := h.get32 4 (by decide)
  have hw (i : Fin 3) : getUndone b (o + 8 + i * 12) = getUndone c (p + 8 + i * 12) := by
    rw [Nat.add_assoc, Nat.add_assoc]
    exact getUndone_congr (h.part (by omega))
  simp only [getWb, h0, h4, hw]

end Sage040.Signal
