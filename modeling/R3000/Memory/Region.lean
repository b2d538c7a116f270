/-!
# The physical address map

The three segments of the address space map to the same physical addresses by dropping the top three
bits.  `Region.ofAddress` says what answers there; an offset carries the proof that it lies in its store.
-/

namespace R3000

/-- Words of main memory, 2 MiB. -/
def ramWords : Nat := 0x80000

/-- Words of the scratchpad, 1 KiB. -/
def scratchpadWords : Nat := 0x100

/-- Words of the boot ROM, 512 KiB. -/
def biosWords : Nat := 0x20000

/-- The physical address behind an address of any segment. -/
def physical (addr : UInt32) : UInt32 := addr &&& 0x1FFFFFFF

/-- What answers at an address. -/
inductive Region
  /-- Main memory, its four images in the 8 MiB window folded into one. -/
  | ram (offset : Fin (4 * ramWords))
  | expansion
  | scratchpad (offset : Fin (4 * scratchpadWords))
  /-- A device register, by physical address. -/
  | device (register : UInt32)
  | bios (offset : Fin (4 * biosWords))
  | cacheControl
  | unmapped
  deriving DecidableEq, Repr

/-- The region that holds an address. -/
def Region.ofAddress (addr : UInt32) : Region :=
  let p := physical addr
  if p < 0x00800000 then
    .ram ⟨p.toNat % (4 * ramWords), Nat.mod_lt _ (by decide)⟩
  else if p < 0x1F000000 then .unmapped
  else if p < 0x1F800000 then .expansion
  else if p < 0x1F800400 then
    .scratchpad ⟨(p - 0x1F800000).toNat % (4 * scratchpadWords), Nat.mod_lt _ (by decide)⟩
  else if p < 0x1F801000 then .unmapped
  else if p < 0x1F803000 then .device p
  else if p < 0x1FC00000 then .unmapped
  else if p < 0x1FC80000 then
    .bios ⟨(p - 0x1FC00000).toNat % (4 * biosWords), Nat.mod_lt _ (by decide)⟩
  else if p &&& 0xFFFFFFFC = 0x1FFE0130 then .cacheControl
  else .unmapped

end R3000
