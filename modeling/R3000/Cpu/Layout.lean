import R3000.Cpu.Basic

/-!
# Layout of the processor state

Code that works on the processor state in memory finds each word at a fixed byte offset: the general
registers first, then the other words in the order of `layout`.
-/

namespace R3000.Cpu

/-- A word, or the first word of a file, of the processor state. -/
inductive Part
  | gpr
  | pc
  | hi
  | lo
  | cop0
  | cop2Data
  | cop2Control
  | currentPc
  | blockAborted
  | abortPc
  | inBlock
  | initialCyclesLeft
  | cyclesLeft
  | linkBudget
  deriving DecidableEq, Repr

namespace Part

/-- The parts in the order in which they are stored. -/
def layout : List Part :=
  [gpr, pc, hi, lo, cop0, cop2Data, cop2Control, currentPc, blockAborted, abortPc, inBlock,
    initialCyclesLeft, cyclesLeft, linkBudget]

/-- The number of words in a part. -/
def words : Part → Nat
  | gpr | cop0 | cop2Data | cop2Control => 32
  | _ => 1

/-- The name of a part. -/
def name : Part → String
  | gpr => "regs"
  | pc => "pc"
  | hi => "hi"
  | lo => "lo"
  | cop0 => "cop0"
  | cop2Data => "cp2d"
  | cop2Control => "cp2c"
  | currentPc => "current_pc"
  | blockAborted => "block_aborted"
  | abortPc => "abort_pc"
  | inBlock => "in_block"
  | initialCyclesLeft => "initial_cycles_left"
  | cyclesLeft => "cycles_left"
  | linkBudget => "link_budget"

/-- The words of a part. -/
def get (c : Cpu) : Part → List UInt32
  | gpr => c.gpr.toList
  | pc => [c.pc]
  | hi => [c.hi]
  | lo => [c.lo]
  | cop0 => c.cop0.toList
  | cop2Data => c.cop2Data.toList
  | cop2Control => c.cop2Control.toList
  | currentPc => [c.currentPc]
  | blockAborted => [c.blockAborted]
  | abortPc => [c.abortPc]
  | inBlock => [c.inBlock]
  | initialCyclesLeft => [c.initialCyclesLeft.toUInt32]
  | cyclesLeft => [c.cyclesLeft.toUInt32]
  | linkBudget => [c.linkBudget]

/-- Writes the word of a part with an index; register zero and the budgets stay. -/
def set (c : Cpu) (i : Reg) (v : UInt32) : Part → Cpu
  | gpr => Cpu.set c i v
  | pc => { c with pc := v }
  | hi => { c with hi := v }
  | lo => { c with lo := v }
  | cop0 => { c with cop0 := c.cop0.put i v }
  | cop2Data => { c with cop2Data := c.cop2Data.put i v }
  | cop2Control => { c with cop2Control := c.cop2Control.put i v }
  | currentPc => { c with currentPc := v }
  | blockAborted => { c with blockAborted := v }
  | abortPc => { c with abortPc := v }
  | inBlock => { c with inBlock := v }
  | initialCyclesLeft | cyclesLeft => c
  | linkBudget => { c with linkBudget := v }

/-- Whether the words of a part are signed. -/
def isSigned : Part → Bool
  | initialCyclesLeft | cyclesLeft => true
  | _ => false

/-- The byte offset of a part: the bytes of the parts before it. -/
def offset (p : Part) : Nat := 4 * (layout.takeWhile (· ≠ p)).foldl (fun n q => n + q.words) 0

end Part

/-- The byte offset of a general register. -/
def regOffset (r : Reg) : Nat := Part.gpr.offset + 4 * r

end R3000.Cpu
