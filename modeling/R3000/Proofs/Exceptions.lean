import Mathlib
import R3000.Cpu.Status

/-!
# Exceptions and the status of the processor

Which system control registers an exception changes, and how: the interrupt line in the cause register stays,
and interrupts are off afterwards.
-/

namespace R3000

lemma or_and_distrib (x y z : UInt32) : (x ||| y) &&& z = (x &&& z) ||| (y &&& z) :=
  UInt32.toBitVec_inj.mp BitVec.and_or_distrib_right

namespace Cpu

variable (c : Cpu) (e : Exception)

/-! ### System control registers -/

lemma readCop0_set (r r' : Reg) (v : UInt32) :
    readCop0 { c with cop0 := c.cop0.put r v } r' = if r = r' then v else c.readCop0 r' :=
  c.cop0.get_put r r' v

@[simp] lemma readCop0_enter_exceptionPc : (c.enter e).readCop0 exceptionPc = c.currentPc := by
  rw [enter]
  split <;> simp [readCop0, RegFile.get_put, exceptionPc, cause, status]

@[simp] lemma readCop0_enter_cause :
    (c.enter e).readCop0 cause = c.readCop0 cause &&& (0xFF00 : UInt32) ||| e.code <<< 2 := by
  rw [enter]
  split <;> simp [readCop0, RegFile.get_put, cause, status, exceptionPc]

@[simp] lemma readCop0_enter_status : (c.enter e).readCop0 status =
    c.readCop0 status &&& (0xFFFFFFC0 : UInt32) ||| c.readCop0 status <<< 2 &&& (0x3F : UInt32) := by
  rw [enter]
  split <;> simp [readCop0, RegFile.get_put, status, cause, exceptionPc]

lemma readCop0_enter_of_ne {r : Reg} (hpc : r ≠ exceptionPc) (hcause : r ≠ cause) (hstatus : r ≠ status) :
    (c.enter e).readCop0 r = c.readCop0 r := by
  rw [enter]
  split <;> simp [readCop0, RegFile.get_put, hpc.symm, hcause.symm, hstatus.symm]

/-! ### The interrupt line -/

/-- Whether the interrupt line is raised in the cause register. -/
def lineRaised : Bool := c.readCop0 cause &&& 0x400 != 0

@[simp] lemma lineRaised_enter : (c.enter e).lineRaised = c.lineRaised := by
  have hcode : (e.code <<< 2) &&& 0x400 = 0 := by cases e <;> decide
  have hmask : (0xFF00 : UInt32) &&& 0x400 = 0x400 := by decide
  rw [lineRaised, readCop0_enter_cause, or_and_distrib, hcode, UInt32.and_assoc, hmask, UInt32.or_zero]
  rfl

@[simp] lemma lineRaised_setInterruptLine (raised : Bool) : (c.setInterruptLine raised).lineRaised = raised := by
  have hcause : (c.setInterruptLine raised).readCop0 cause =
      if raised then c.readCop0 cause ||| 0x400 else c.readCop0 cause &&& 0xFFFFFBFF := by
    rw [setInterruptLine, readCop0_set]
    rfl
  rw [lineRaised, hcause]
  cases raised with
  | true => simp [or_and_distrib]
  | false =>
    have hmask : (0xFFFFFBFF : UInt32) &&& 0x400 = 0 := by decide
    simp [UInt32.and_assoc, hmask]

/-- Interrupts are off after an exception. -/
@[simp] lemma interruptsEnabled_enter : (c.enter e).interruptsEnabled = false := by
  have hshift : ∀ v : UInt32, v <<< 2 &&& 1 = 0 := by
    intro v
    rw [← UInt32.toNat_inj, UInt32.toNat_and, UInt32.toNat_shiftLeft]
    change (v.toNat <<< 2 % 2 ^ 32) &&& 1 = 0
    rw [Nat.and_one_is_mod, Nat.shiftLeft_eq]
    omega
  have hclear : (c.enter e).readCop0 status &&& 1 = 0 := by
    have hkeep : (0xFFFFFFC0 : UInt32) &&& 1 = 0 := by decide
    have hstack : (0x3F : UInt32) &&& 1 = 1 := by decide
    rw [readCop0_enter_status, or_and_distrib, UInt32.and_assoc, UInt32.and_assoc, hkeep, hstack, hshift]
    simp
  rw [interruptsEnabled, hclear]
  rfl

end Cpu

end R3000
