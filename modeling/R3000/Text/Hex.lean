import R3000.Text.Numeral

/-!
# Bytes from text and words

Byte strings written as pairs of hexadecimal digits or as words, low byte first, and images of zero bytes
with such pieces laid over them.
-/

namespace R3000.Text

/-- Appends the bytes written as pairs of digits, up to the first that is not. -/
def pushHex (bytes : ByteArray) : List Char → ByteArray
  | a :: b :: rest =>
    match digitValue a, digitValue b with
    | some x, some y => pushHex (bytes.push (16 * x + y).toUInt8) rest
    | _, _ => bytes
  | _ => bytes

/-- Appends the four bytes of a word. -/
def pushWord (bytes : ByteArray) (w : UInt32) : ByteArray :=
  (((bytes.push w.toUInt8).push (w >>> 8).toUInt8).push (w >>> 16).toUInt8).push (w >>> 24).toUInt8

/-- The bytes of words. -/
def wordBytes (words : List UInt32) : ByteArray := words.foldl pushWord .empty

/-- A byte, repeated. -/
def fillBytes (count : Nat) (v : UInt8) : ByteArray :=
  count.fold (fun _ _ bytes => bytes.push v) .empty

/-- The image with a piece laid over it at an offset; what would lie past the end is dropped. -/
def overlay (image : ByteArray) (offset : Nat) (piece : ByteArray) : ByteArray :=
  piece.size.fold
    (fun i _ image => if h : offset + i < image.size then image.set (offset + i) piece[i] h else image)
    image

end R3000.Text
