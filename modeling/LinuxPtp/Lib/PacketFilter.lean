import Mathlib.Data.List.Basic

/-!
# Packet filters

A filter is a program with one accumulator that looks at a packet and tells how much of it
to keep.  It only jumps forward, so that it ends.
-/

namespace PacketFilter

inductive Instruction
  | loadByte (offset : ℕ)
  | loadHalf (offset : ℕ)
  | mask (bits : ℕ)
  | jumpEq (onTrue onFalse : ℕ) (value : ℕ)
  | jump (offset : ℕ)
  | ret (count : ℕ)
  deriving DecidableEq, Repr

def byteAt (packet : List UInt8) (offset : ℕ) : Option ℕ :=
  packet[offset]?.map UInt8.toNat

def halfAt (packet : List UInt8) (offset : ℕ) : Option ℕ :=
  (byteAt packet offset).bind fun high =>
    (byteAt packet (offset + 1)).map fun low => 256 * high + low

/-- How much of the packet is kept by a program some of whose instructions are passed over
first.  A load beyond the packet ends the program, and nothing is kept. -/
def run (packet : List UInt8) : List Instruction → ℕ → ℕ → Option ℕ
  | [], _, _ => none
  | _ :: rest, skip + 1, acc => run packet rest skip acc
  | .loadByte offset :: rest, 0, _ =>
      (byteAt packet offset).elim (some 0) (run packet rest 0)
  | .loadHalf offset :: rest, 0, _ =>
      (halfAt packet offset).elim (some 0) (run packet rest 0)
  | .mask bits :: rest, 0, acc => run packet rest 0 (acc &&& bits)
  | .jumpEq onTrue onFalse value :: rest, 0, acc =>
      run packet rest (if acc = value then onTrue else onFalse) acc
  | .jump offset :: rest, 0, acc => run packet rest offset acc
  | .ret count :: _, 0, _ => some count

/-! ## Where the bytes stand -/

theorem byteAt_append {head packet : List UInt8} (offset : ℕ) :
    byteAt (head ++ packet) (head.length + offset) = byteAt packet offset := by
  rw [byteAt, byteAt, List.getElem?_append_right (Nat.le_add_right _ _),
    Nat.add_sub_cancel_left]

theorem halfAt_append {head packet : List UInt8} (offset : ℕ) :
    halfAt (head ++ packet) (head.length + offset) = halfAt packet offset := by
  rw [halfAt, halfAt, Nat.add_assoc, byteAt_append, byteAt_append]

theorem halfAt_eq_some {packet : List UInt8} {offset value : ℕ} :
    halfAt packet offset = some value ↔
      ∃ high low rest, packet.drop offset = high :: low :: rest ∧
        256 * high.toNat + low.toNat = value := by
  rw [halfAt, byteAt, byteAt, ← List.head?_drop, ← List.head?_drop, ← List.drop_drop]
  rcases packet.drop offset with _ | ⟨high, _ | ⟨low, rest⟩⟩
  · simp
  · simp
  · simp

end PacketFilter
