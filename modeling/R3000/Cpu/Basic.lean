/-!
# Processor state

The register files of the processor and the words through which a running block and its dispatcher talk:
the address of the current instruction, the abort flag with the address to go on at, and the budgets.
An instruction reads zero from general register zero, and `Cpu.set` leaves it alone.
-/

namespace R3000

/-- The number of a register in a file of 32. -/
abbrev Reg := Fin 32

/-- A file of 32 registers. -/
abbrev RegFile := Vector UInt32 32

instance Reg.neZero : @NeZero Nat Zero.ofOfNat0 32 := ⟨by decide⟩

/-- A file with another value in one register. -/
def RegFile.put (f : RegFile) (r : Reg) (v : UInt32) : RegFile := f.set r v

theorem RegFile.get_put (f : RegFile) (r r' : Reg) (v : UInt32) :
    (f.put r v).get r' = if r = r' then v else f.get r' := by
  change (f.set r v)[r'.val] = if r = r' then v else f[r'.val]
  simp only [Vector.getElem_set, Fin.ext_iff]

/-- The five bits of a register field. -/
def Reg.ofBits (v : UInt32) : Reg := Fin.ofNat 32 v.toNat

/-- Where the processor starts. -/
def resetVector : UInt32 := 0xBFC00000

/-- The registers and the words shared with the dispatcher. -/
structure Cpu where
  /-- General registers. -/
  gpr : RegFile
  pc : UInt32
  hi : UInt32
  lo : UInt32
  /-- System control registers. -/
  cop0 : RegFile
  /-- Data registers of the geometry coprocessor. -/
  cop2Data : RegFile
  /-- Control registers of the geometry coprocessor. -/
  cop2Control : RegFile
  /-- The address of the instruction under way. -/
  currentPc : UInt32
  /-- Not zero once an exception was raised in a running block. -/
  blockAborted : UInt32
  /-- Where an aborted block goes on. -/
  abortPc : UInt32
  /-- Not zero while a block runs. -/
  inBlock : UInt32
  initialCyclesLeft : Int32
  /-- The budget with which the last block left. -/
  cyclesLeft : Int32
  /-- Links that the chain under way may still follow. -/
  linkBudget : UInt32
  deriving DecidableEq

namespace Cpu

/-! ### System control registers -/

/-- The register of the faulting address. -/
def badAddress : Reg := 8

/-- The status register. -/
def status : Reg := 12

/-- The cause register. -/
def cause : Reg := 13

/-- The register of the exception's address. -/
def exceptionPc : Reg := 14

/-- The identification register. -/
def revision : Reg := 15

/-- The system control registers at power-on: boot vectors in ROM, and the revision of the part. -/
def freshCop0 : RegFile := ((RegFile.put (.replicate 32 0) status 0x10400000).put revision 2)

/-- The processor at power-on. -/
def fresh : Cpu where
  gpr := .replicate 32 0
  pc := resetVector
  hi := 0
  lo := 0
  cop0 := freshCop0
  cop2Data := .replicate 32 0
  cop2Control := .replicate 32 0
  currentPc := resetVector
  blockAborted := 0
  abortPc := 0
  inBlock := 0
  initialCyclesLeft := 0
  cyclesLeft := 0
  linkBudget := 0

/-! ### General registers -/

/-- The value that an instruction reads from a general register: zero from register zero, whatever the file
holds. -/
def reg (c : Cpu) (r : Reg) : UInt32 := if r = 0 then 0 else c.gpr.get r

@[simp] theorem reg_zero (c : Cpu) : c.reg 0 = 0 := rfl

/-- Writes a general register; register zero stays. -/
def set (c : Cpu) (r : Reg) (v : UInt32) : Cpu :=
  if r = 0 then c else { c with gpr := c.gpr.put r v }

@[simp] theorem set_zero (c : Cpu) (v : UInt32) : c.set 0 v = c := rfl

/-! ### The abort flag -/

/-- Takes the abort flag: the address to go on at if a block was aborted. -/
def takeAbort (c : Cpu) : Option UInt32 × Cpu :=
  if c.blockAborted = 0 then (none, c) else (some c.abortPc, { c with blockAborted := 0 })

end Cpu

end R3000
