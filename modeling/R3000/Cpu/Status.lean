import R3000.Cpu.Basic

/-!
# Status, cause and exceptions

The status register keeps a stack of three pairs of mode and interrupt enable in its low six bits.  An
exception pushes a pair, records its cause and the address of its instruction, and leaves the processor
at one of two vectors; `rfe` pops a pair.
-/

namespace R3000

/-- What an exception is raised for. -/
inductive Exception
  | interrupt
  | addressLoad
  | addressStore
  | busInstruction
  | busData
  | syscall
  | breakpoint
  | reserved
  | coprocessor
  | overflow
  deriving DecidableEq, Repr

namespace Exception

/-- All exceptions. -/
def all : List Exception :=
  [interrupt, addressLoad, addressStore, busInstruction, busData, syscall, breakpoint, reserved,
    coprocessor, overflow]

/-- The code of the exception in the cause register. -/
def code : Exception → UInt32
  | interrupt => 0
  | addressLoad => 4
  | addressStore => 5
  | busInstruction => 6
  | busData => 7
  | syscall => 8
  | breakpoint => 9
  | reserved => 10
  | coprocessor => 11
  | overflow => 12

/-- The exception with a code; an unknown code stands for an interrupt. -/
def ofCode (code : UInt32) : Exception := (all.find? (·.code == code)).getD interrupt

end Exception

namespace Cpu

/-- The general exception vector in main memory. -/
def ramVector : UInt32 := 0x80000080

/-- The general exception vector in the boot ROM. -/
def romVector : UInt32 := 0xBFC00180

/-- The value of a system control register. -/
def readCop0 (c : Cpu) (r : Reg) : UInt32 := c.cop0.get r

/-- Whether the status register lets the interrupt line through. -/
def interruptsEnabled (c : Cpu) : Bool :=
  c.readCop0 status &&& 1 != 0 && c.readCop0 status &&& 0x400 != 0

/-- Whether stores stop at the data cache. -/
def isolated (c : Cpu) : Bool := c.readCop0 status &&& 0x10000 != 0

/-- Whether the geometry coprocessor may be used. -/
def cop2Usable (c : Cpu) : Bool := c.readCop0 status &&& 0x40000000 != 0

/-- Sets the state of the interrupt line in the cause register. -/
def setInterruptLine (c : Cpu) (raised : Bool) : Cpu :=
  let v := c.readCop0 cause
  { c with cop0 := c.cop0.put cause (if raised then v ||| 0x400 else v &&& 0xFFFFFBFF) }

/-- A program's write to a system control register: of the cause register only the two software
interrupt bits change, the faulting address and the revision never. -/
def writeCop0 (c : Cpu) (r : Reg) (v : UInt32) : Cpu :=
  if r = cause then
    { c with cop0 := c.cop0.put cause (c.readCop0 cause &&& 0xFFFFFCFF ||| v &&& 0x300) }
  else if r = revision ∨ r = badAddress then c
  else { c with cop0 := c.cop0.put r v }

/-- Where the next exception goes. -/
def vector (c : Cpu) : UInt32 := if c.readCop0 status &&& 0x400000 = 0 then ramVector else romVector

/-- Raises an exception at the current instruction.  While a block runs the vector is also left for the
dispatcher. -/
def enter (c : Cpu) (e : Exception) : Cpu :=
  let sr := c.readCop0 status
  let cop0 := c.cop0.put exceptionPc c.currentPc
  let cop0 := cop0.put cause (c.readCop0 cause &&& (0xFF00 : UInt32) ||| e.code <<< 2)
  let cop0 := cop0.put status (sr &&& (0xFFFFFFC0 : UInt32) ||| sr <<< 2 &&& (0x3F : UInt32))
  let vector := c.vector
  if c.inBlock = 0 then { c with cop0, pc := vector }
  else { c with cop0, pc := vector, blockAborted := 1, abortPc := vector }

/-- Raises an address error for an address. -/
def addressError (c : Cpu) (addr : UInt32) (e : Exception) : Cpu :=
  enter { c with cop0 := c.cop0.put badAddress addr } e

/-- Pops the stack of mode and interrupt enable. -/
def rfe (c : Cpu) : Cpu :=
  let sr := c.readCop0 status
  { c with cop0 := c.cop0.put status (sr &&& (0xFFFFFFF0 : UInt32) ||| sr >>> 2 &&& (0xF : UInt32)) }

end Cpu

end R3000
