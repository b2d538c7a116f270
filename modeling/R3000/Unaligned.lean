/-!
# Words across two aligned words

A word at any address is moved in two halves: the left instruction handles its high bytes, which end at
the addressed byte, the right one its low bytes, which start there.  Each function merges the aligned word
around the address with a register.
-/

namespace R3000.Unaligned

/-- The place of a byte in its word, in bits. -/
def lane (addr : UInt32) : UInt32 := 8 * (addr &&& 3)

/-- The register after a left load: the bytes up to the addressed one fill its high end. -/
def loadLeft (addr word rt : UInt32) : UInt32 :=
  rt &&& ((0x00FFFFFF : UInt32) >>> lane addr) ||| word <<< (24 - lane addr)

/-- The register after a right load: the bytes from the addressed one on fill its low end. -/
def loadRight (addr word rt : UInt32) : UInt32 :=
  rt &&& ((0xFFFFFF00 : UInt32) <<< (24 - lane addr)) ||| word >>> lane addr

/-- The word after a left store: the register's high bytes end at the addressed one. -/
def storeLeft (addr word rt : UInt32) : UInt32 :=
  word &&& ((0xFFFFFF00 : UInt32) <<< lane addr) ||| rt >>> (24 - lane addr)

/-- The word after a right store: the register's low bytes start at the addressed one. -/
def storeRight (addr word rt : UInt32) : UInt32 :=
  word &&& ((0x00FFFFFF : UInt32) >>> (24 - lane addr)) ||| rt <<< lane addr

end R3000.Unaligned
