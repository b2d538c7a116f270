import R3000.Width

/-!
# Interrupt controller

Eleven sources share the one interrupt line of the processor.  The status register holds the raised
sources and the mask register the enabled ones; writing a zero bit to the status register acknowledges
that source.
-/

namespace R3000

/-- A source of interrupts. -/
inductive Irq
  | vblank
  | gpu
  | cdrom
  | dma
  | timer0
  | timer1
  | timer2
  | controller
  | sio
  | spu
  | lightpen
  deriving DecidableEq, Repr

namespace Irq

/-- The sources in order. -/
def all : List Irq :=
  [vblank, gpu, cdrom, dma, timer0, timer1, timer2, controller, sio, spu, lightpen]

/-- The name of a source. -/
def name : Irq → String
  | vblank => "VBlank"
  | gpu => "Gpu"
  | cdrom => "CdRom"
  | dma => "Dma"
  | timer0 => "Timer0"
  | timer1 => "Timer1"
  | timer2 => "Timer2"
  | controller => "Controller"
  | sio => "Sio"
  | spu => "Spu"
  | lightpen => "Lightpen"

/-- The bit of the source in both registers. -/
def number : Irq → UInt32
  | vblank => 0
  | gpu => 1
  | cdrom => 2
  | dma => 3
  | timer0 => 4
  | timer1 => 5
  | timer2 => 6
  | controller => 7
  | sio => 8
  | spu => 9
  | lightpen => 10

end Irq

/-- The physical address of the status register. -/
def irqStatusRegister : UInt32 := 0x1F801070

/-- The physical address of the mask register. -/
def irqMaskRegister : UInt32 := 0x1F801074

/-- Whether a physical address lies in one of the two registers of the controller. -/
def isIrqRegister (phys : UInt32) : Bool :=
  phys &&& 0xFFFFFFFC == irqStatusRegister || phys &&& 0xFFFFFFFC == irqMaskRegister

/-- The status and mask registers. -/
structure Interrupts where
  stat : UInt16 := 0
  mask : UInt16 := 0
  deriving DecidableEq, Repr

namespace Interrupts

/-- The bits that belong to a source. -/
def sources : UInt16 := 0x07FF

/-- Raises the source with this number; there is none above ten. -/
def signal (i : Interrupts) (number : UInt32) : Interrupts :=
  if number ≤ 10 then { i with stat := i.stat ||| 1 <<< number.toUInt16 } else i

/-- Raises a source. -/
def raise (i : Interrupts) (source : Irq) : Interrupts := i.signal source.number

/-- Raises the sources of a set of level-triggered lines. -/
def assertLines (i : Interrupts) (lines : UInt16) : Interrupts :=
  { i with stat := i.stat ||| lines &&& sources }

/-- Whether an enabled source is raised. -/
def pending (i : Interrupts) : Bool := i.stat &&& i.mask &&& sources != 0

/-- The register that holds the address, as a word. -/
def readWord (i : Interrupts) (addr : UInt32) : UInt32 :=
  if addr &&& 0xFFFFFFFC = irqStatusRegister then i.stat.toUInt32
  else if addr &&& 0xFFFFFFFC = irqMaskRegister then i.mask.toUInt32
  else 0

/-- A word written to the register that holds the address. -/
def writeWord (i : Interrupts) (addr v : UInt32) : Interrupts :=
  if addr &&& 0xFFFFFFFC = irqStatusRegister then { i with stat := i.stat &&& (v.toUInt16 &&& sources) }
  else if addr &&& 0xFFFFFFFC = irqMaskRegister then { i with mask := v.toUInt16 &&& sources }
  else i

/-- A load of any width: the lanes from the addressed byte on. -/
def read (i : Interrupts) (addr : UInt32) (w : Width) : UInt32 :=
  i.readWord addr >>> ((addr &&& 3) * 8) &&& w.mask

/-- A store of any width: the moved bits are written as the low end of the whole register. -/
def write (i : Interrupts) (addr v : UInt32) (w : Width) : Interrupts :=
  i.writeWord addr (v &&& w.mask)

end Interrupts

end R3000
