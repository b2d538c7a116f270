import R3000.Cpu.Basic
import R3000.Memory.Basic
import R3000.Text.Numeral

/-!
# Executable images

An image is a header with a mark, the registers to start with and the place of the text in main memory,
and after it the text.  Loading changes nothing unless the whole text section fits.
-/

namespace R3000

/-- Why a program was not loaded. -/
inductive LoadError
  | missingFile
  | badHeader
  | outOfRange (addr len : UInt32)
  deriving DecidableEq, Repr

/-- The wording of the error. -/
def LoadError.message : LoadError → String
  | missingFile => "I/O error: No such file or directory (os error 2)"
  | badHeader => "not a PS-X EXE image"
  | outOfRange addr len =>
    "section at 0x" ++ Text.padded addr ++ " (0x" ++ Text.unpadded len ++
      " bytes) does not fit in RAM"

namespace Exe

/-- The fields of a header. -/
structure Header where
  pc : UInt32
  gp : UInt32
  textAddr : UInt32
  textSize : UInt32
  stackAddr : UInt32
  stackSize : UInt32
  deriving DecidableEq, Repr

/-- The bytes with which every image begins. -/
def mark : List UInt8 := [0x50, 0x53, 0x2D, 0x58, 0x20, 0x45, 0x58, 0x45]

/-- The least size of an image that has all header fields. -/
def leastSize : Nat := 0x38

/-- The offset of the text. -/
def textOffset : Nat := 0x800

/-- The byte at an offset, and zero past the end. -/
def byteAt (image : ByteArray) (i : Nat) : UInt8 := if h : i < image.size then image[i] else 0

/-- The word at an offset, low byte first. -/
def wordAt (image : ByteArray) (i : Nat) : UInt32 :=
  (byteAt image i).toUInt32 ||| (byteAt image (i + 1)).toUInt32 <<< 8 |||
    (byteAt image (i + 2)).toUInt32 <<< 16 ||| (byteAt image (i + 3)).toUInt32 <<< 24

/-- Whether the image begins with the mark. -/
def isMarked (image : ByteArray) : Bool := (List.range mark.length).map (byteAt image) == mark

/-- Reads the header of an image. -/
def header (image : ByteArray) : Except LoadError Header :=
  if image.size < leastSize || !isMarked image then .error .badHeader
  else
    .ok
      { pc := wordAt image 0x10
        gp := wordAt image 0x14
        textAddr := wordAt image 0x18
        textSize := wordAt image 0x1C
        stackAddr := wordAt image 0x30
        stackSize := wordAt image 0x34 }

/-- The bytes of the text that the image holds. -/
def text (h : Header) (image : ByteArray) : ByteArray :=
  image.extract textOffset (textOffset + h.textSize.toNat)

/-- The registers with which the program starts; the stack registers change only if the header names a
stack. -/
def startRegisters (h : Header) (c : Cpu) : Cpu :=
  let c := { c with pc := h.pc }.set 28 h.gp
  let c :=
    if h.stackAddr = 0 then c
    else (c.set 29 (h.stackAddr + h.stackSize)).set 30 (h.stackAddr + h.stackSize)
  (c.set 4 0).set 5 0

/-- Loads an image into a processor and a memory: its text into main memory, and its registers into the processor.
They are given back with an error as well. -/
def install (image : ByteArray) (c : Cpu) (m : Memory) : Except LoadError Unit × Cpu × Memory :=
  match header image with
  | .error e => (.error e, c, m)
  | .ok h =>
    let start := h.textAddr &&& 0x1FFFFFFF
    if 4 * ramWords < start.toNat + h.textSize.toNat then
      (.error (.outOfRange h.textAddr h.textSize), c, m)
    else
      let m := m.loadRam start (text h image)
      (.ok (), startRegisters h c, m)

/-- The processor and the memory with an image, if it can be loaded. -/
def load (image : ByteArray) (c : Cpu) (m : Memory) : Except LoadError (Cpu × Memory) :=
  let (answer, loaded) := install image c m
  answer.map fun _ => loaded

end Exe

end R3000
