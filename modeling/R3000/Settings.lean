import R3000.Block.Exit
import R3000.Raster
import R3000.Text.Numeral

/-!
# Settings

What can be tuned, with its defaults, and how a set of named variables overrides it.  A variable whose
text does not read as a value of its setting is ignored.  Among the limits of the translator stand the bytes
that code takes, which depend on the host.
-/

namespace R3000

/-- The bytes that code takes on the host.  A host that runs plans as they are makes next to none. -/
structure CodeBytes where
  /-- The stub that returns to the dispatcher. -/
  slowPath : Nat := 1
  /-- The stub that leaves a block. -/
  exit : Nat := 1
  /-- The stub that calls a service. -/
  bridge : Nat := 1
  block : Block → Nat := fun _ => 0

/-- The bytes of all stubs. -/
def CodeBytes.stubs (n : CodeBytes) : Nat := n.slowPath + n.exit + n.bridge

/-- The sizes of the block translator's stores. -/
structure Limits where
  /-- Bytes for code. -/
  codeCapacity : Nat := 4194304
  /-- Link words that exist. -/
  linkCapacity : Nat := 65536
  /-- Flush once less space than this is left. -/
  flushMargin : Nat := 65536
  /-- Slots of the block cache, rounded up to a power of two. -/
  cacheSlots : Nat := 4096
  /-- Blocks that may wait behind the resident of a slot. -/
  poolNodes : Nat := 32768
  /-- Exits that may wait for their target. -/
  patchSites : Nat := 8192
  /-- Instructions of a block before its branch. -/
  maxBlock : UInt32 := 64
  /-- What the host makes of code, which no variable changes. -/
  native : CodeBytes := {}

/-- The settings of a machine. -/
structure Settings where
  standard : Standard := .ntsc
  /-- Cycles to run when no event is pending. -/
  lookahead : UInt64 := 1024
  /-- Cycles charged to a block that reports none. -/
  minCharge : UInt64 := 8
  /-- Passes of an endless loop before the rest of the slice is skipped. -/
  idleStrong : UInt32 := 1
  /-- Passes of a waiting loop in the boot ROM before the rest of the slice is skipped. -/
  idleWeakBios : UInt32 := 2048
  /-- Passes of a waiting loop elsewhere; the greatest number stands for never. -/
  idleWeakRam : UInt32 := 0xFFFFFFFF
  /-- Links that one dispatch may follow. -/
  chainLimit : UInt32 := 32
  /-- Where the boot ROM hands over to the program to be loaded. -/
  bootHook : UInt32 := 0x80030000
  limits : Limits := {}

namespace Settings

/-- Reads a variable with `read`, blanks trimmed; without the variable, or if it does not read, the
default stays. -/
def override {α : Type} (lookup : String → Option String) (read : List Char → Option α)
    (name : String) (default : α) : α :=
  ((lookup name).bind fun text => read (Text.trimChars text.toList)).getD default

/-- Reads a decimal number of 64 bits. -/
def readSize (cs : List Char) : Option Nat := Text.readUnsigned 10 0x10000000000000000 cs

/-- Reads a number of 32 bits. -/
def readWord (cs : List Char) : Option UInt32 := (Text.readWord 0x100000000 cs).map Nat.toUInt32

/-- Reads a standard. -/
def readStandard (cs : List Char) : Option Standard := (Standard.ofText (String.ofList cs)).toOption

/-- The defaults, overridden by variables. -/
def ofVariables (lookup : String → Option String) : Settings :=
  let word := override lookup fun cs => (readWord cs).filter (· != 0)
  let size := override lookup fun cs => (readSize cs).filter (· != 0)
  let cycles := fun name default => (size name default).toUInt64
  let d : Settings := {}
  { standard := override lookup readStandard "PSX_REGION" d.standard
    lookahead := cycles "PSX_LOOKAHEAD_CYCLES" d.lookahead.toNat
    minCharge := cycles "PSX_MIN_BLOCK_CHARGE" d.minCharge.toNat
    idleStrong := word "PSX_IDLE_STRONG_THRESHOLD" d.idleStrong
    idleWeakBios := word "PSX_IDLE_WEAK_BIOS_THRESHOLD" d.idleWeakBios
    idleWeakRam := word "PSX_IDLE_WEAK_RAM_THRESHOLD" d.idleWeakRam
    chainLimit := override lookup readWord "PSX_DYNAREC_CHAIN_LIMIT" d.chainLimit
    bootHook := word "PSX_BOOT_HOOK_PC" d.bootHook
    limits :=
      { codeCapacity := size "PSX_DYNAREC_CODE_BYTES" d.limits.codeCapacity
        linkCapacity := size "PSX_DYNAREC_LINK_SLOTS" d.limits.linkCapacity
        flushMargin := override lookup readSize "PSX_DYNAREC_FLUSH_MARGIN" d.limits.flushMargin
        cacheSlots := size "PSX_DYNAREC_CACHE_SLOTS" d.limits.cacheSlots
        poolNodes := size "PSX_DYNAREC_POOL_NODES" d.limits.poolNodes
        patchSites := size "PSX_DYNAREC_PATCH_SITES" d.limits.patchSites
        maxBlock := word "PSX_DYNAREC_MAX_BLOCK_INSNS" d.limits.maxBlock } }

end Settings

end R3000
