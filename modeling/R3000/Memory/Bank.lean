import R3000.Width

/-!
# Banks of bytes

A `Bank n` is a store of `n` words held as `4 * n` bytes, little end first.  An access of a width goes to
the aligned unit around its offset, so no access leaves the bank.
-/

namespace R3000

/-- A byte store of `n` words. -/
structure Bank (n : Nat) where
  bytes : ByteArray
  size_bytes : bytes.size = 4 * n

namespace Bank

variable {n : Nat}

/-- The bank of zero bytes. -/
def zero (n : Nat) : Bank n where
  bytes := ⟨Array.replicate (4 * n) 0⟩
  size_bytes := Array.size_replicate

theorem size_set (bytes : ByteArray) {i : Nat} (v : UInt8) (h : i < bytes.size) :
    (bytes.set i v h).size = bytes.size := Array.size_set h

/-- The byte at offset `i`, and zero past the end. -/
def byte (b : Bank n) (i : Nat) : UInt8 :=
  if h : i < 4 * n then b.bytes.get i (b.size_bytes.symm ▸ h) else 0

/-- The bank with the byte at offset `i` replaced; past the end nothing changes. -/
def setByte (b : Bank n) (i : Nat) (v : UInt8) : Bank n :=
  match b with
  | ⟨bytes, size_bytes⟩ =>
    if h : i < 4 * n then
      ⟨bytes.set i v (size_bytes.symm ▸ h), (size_set bytes v _).trans size_bytes⟩
    else ⟨bytes, size_bytes⟩

/-- The word whose lowest byte is at offset `i`. -/
def wordAt (b : Bank n) (i : Nat) : UInt32 :=
  (b.byte i).toUInt32 ||| (b.byte (i + 1)).toUInt32 <<< 8 |||
    (b.byte (i + 2)).toUInt32 <<< 16 ||| (b.byte (i + 3)).toUInt32 <<< 24

/-- The half whose low byte is at offset `i`. -/
def halfAt (b : Bank n) (i : Nat) : UInt32 :=
  (b.byte i).toUInt32 ||| (b.byte (i + 1)).toUInt32 <<< 8

/-- The aligned unit around offset `i`, widened with zeros. -/
def read (b : Bank n) (w : Width) (i : Nat) : UInt32 :=
  match w with
  | .byte => (b.byte i).toUInt32
  | .half => b.halfAt (Width.half.align i)
  | .word => b.wordAt (Width.word.align i)

/-- The bank with the aligned unit around offset `i` replaced by the low bits of `v`. -/
def write (b : Bank n) (w : Width) (i : Nat) (v : UInt32) : Bank n :=
  match w with
  | .byte => b.setByte i v.toUInt8
  | .half =>
    let o := Width.half.align i
    (b.setByte o v.toUInt8).setByte (o + 1) (v >>> 8).toUInt8
  | .word =>
    let o := Width.word.align i
    (((b.setByte o v.toUInt8).setByte (o + 1) (v >>> 8).toUInt8).setByte
      (o + 2) (v >>> 16).toUInt8).setByte (o + 3) (v >>> 24).toUInt8

/-- The bank with `data` copied to offset `start`; bytes that would lie past the end are dropped. -/
def blit (b : Bank n) (start : Nat) (data : ByteArray) : Bank n :=
  data.size.fold (fun i h b => b.setByte (start + i) data[i]) b

end Bank

end R3000
