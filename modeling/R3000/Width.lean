/-!
# Access widths

A load or store moves a byte, a half or a word.  `Width.mask` keeps the bits that an access of a width
moves, and `Width.align` is the address of the naturally aligned unit around a byte.
-/

namespace R3000

/-- How many bytes one access moves. -/
inductive Width
  | byte
  | half
  | word
  deriving DecidableEq, Repr

namespace Width

/-- The number of bytes moved. -/
def bytes : Width → Nat
  | byte => 1
  | half => 2
  | word => 4

/-- The width that moves a number of bytes; a word if there is none. -/
def ofBytes : Nat → Width
  | 1 => byte
  | 2 => half
  | _ => word

/-- The bits of a word that an access of this width moves. -/
def mask : Width → UInt32
  | byte => 0xFF
  | half => 0xFFFF
  | word => 0xFFFFFFFF

/-- The start of the aligned unit that holds byte `i`. -/
def align (w : Width) (i : Nat) : Nat := i / w.bytes * w.bytes

theorem align_le (w : Width) (i : Nat) : w.align i ≤ i := Nat.div_mul_le_self _ _

/-- In a bank of whole words, an aligned unit that starts before the end lies inside. -/
theorem align_add_bytes_le (w : Width) {i n : Nat} (h : i < 4 * n) : w.align i + w.bytes ≤ 4 * n := by
  cases w <;> simp only [align, bytes] <;> omega

end Width

/-- A half read as a signed number and widened to a word. -/
def signExtendHalf (v : UInt32) : UInt32 := v.toUInt16.toInt16.toInt32.toUInt32

/-- A byte read as a signed number and widened to a word. -/
def signExtendByte (v : UInt32) : UInt32 := v.toUInt8.toInt8.toInt32.toUInt32

end R3000
