import R3000.Width
import R3000.Cpu.Basic

/-!
# Instructions

An instruction word is an ordinary instruction or a transfer of control; a transfer acts after the
instruction that follows it, its delay slot.  Operands that the word gives as immediates are widened here,
so an operation has one meaning for registers and immediates alike.
-/

namespace R3000

/-! ### Operations on words -/

/-- An operation with two operands. -/
inductive Arith
  /-- Traps when the signed sum does not fit. -/
  | add
  | addu
  /-- Traps when the signed difference does not fit. -/
  | sub
  | subu
  | and
  | or
  | xor
  | nor
  | slt
  | sltu
  deriving DecidableEq, Repr

namespace Arith

/-- Whether the operation traps: a sum has a sign that neither term has, or a difference of terms with different
signs has not the sign of the first. -/
def traps : Arith → UInt32 → UInt32 → Bool
  | add, a, b => ((a ^^^ (a + b)) &&& (b ^^^ (a + b))).toInt32 < 0
  | sub, a, b => ((a ^^^ b) &&& (a ^^^ (a - b))).toInt32 < 0
  | _, _, _ => false

/-- The result of an operation that does not trap. -/
def eval : Arith → UInt32 → UInt32 → UInt32
  | add, a, b | addu, a, b => a + b
  | sub, a, b | subu, a, b => a - b
  | and, a, b => a &&& b
  | or, a, b => a ||| b
  | xor, a, b => a ^^^ b
  | nor, a, b => ~~~(a ||| b)
  | slt, a, b => if a.toInt32 < b.toInt32 then 1 else 0
  | sltu, a, b => if a < b then 1 else 0

end Arith

/-- A shift. -/
inductive Shift
  | left
  | rightLogical
  | rightArithmetic
  deriving DecidableEq, Repr

/-- The value shifted by the amount modulo 32. -/
def Shift.eval : Shift → UInt32 → UInt32 → UInt32
  | left, v, n => v <<< (n &&& 31)
  | rightLogical, v, n => v >>> (n &&& 31)
  | rightArithmetic, v, n => (v.toInt32 >>> (n &&& 31).toInt32).toUInt32

/-- Where an operation finds its second operand. -/
inductive Operand
  | reg (r : Reg)
  | imm (v : UInt32)
  deriving DecidableEq, Repr

/-- The value of an operand. -/
def Operand.eval (o : Operand) (c : Cpu) : UInt32 :=
  match o with
  | reg r => c.reg r
  | imm v => v

/-! ### Loads and stores -/

/-- What a load brings. -/
inductive LoadKind
  | byte
  | byteUnsigned
  | half
  | halfUnsigned
  | word
  /-- The bytes up to the addressed one, into the high end of the register. -/
  | wordLeft
  /-- The bytes from the addressed one on, into the low end of the register. -/
  | wordRight
  deriving DecidableEq, Repr

/-- What a store moves. -/
inductive StoreKind
  | byte
  | half
  | word
  | wordLeft
  | wordRight
  deriving DecidableEq, Repr

/-! ### Instructions -/

/-- An instruction that hands control to the next one. -/
inductive Instr
  | arith (op : Arith) (rd rs : Reg) (operand : Operand)
  | shift (op : Shift) (rd rt : Reg) (amount : Operand)
  | multiply (signed : Bool) (rs rt : Reg)
  | divide (signed : Bool) (rs rt : Reg)
  | fromHi (rd : Reg)
  | fromLo (rd : Reg)
  | toHi (rs : Reg)
  | toLo (rs : Reg)
  | load (kind : LoadKind) (rt base : Reg) (offset : UInt32)
  | store (kind : StoreKind) (rt base : Reg) (offset : UInt32)
  | mfc0 (rt : Reg) (source : Reg)
  | mtc0 (rt : Reg) (target : Reg)
  | rfe
  /-- An instruction of the geometry coprocessor, its loads and stores included. -/
  | cop2 (word : UInt32)
  | syscall
  | breakpoint
  /-- A word that is no instruction. -/
  | reserved (word : UInt32)
  deriving DecidableEq, Repr

/-- A condition of a branch. -/
inductive Condition
  | eq
  | ne
  | lez
  | gtz
  | ltz
  | gez
  deriving DecidableEq, Repr

/-- Whether a condition holds of two words; all but the first two look at the first word alone. -/
def Condition.holds : Condition → UInt32 → UInt32 → Bool
  | eq, a, b => a == b
  | ne, a, b => a != b
  | lez, a, _ => a.toInt32 ≤ 0
  | gtz, a, _ => 0 < a.toInt32
  | ltz, a, _ => a.toInt32 < 0
  | gez, a, _ => 0 ≤ a.toInt32

/-- A transfer of control. -/
inductive Transfer
  | jump (target : UInt32) (link : Bool)
  | jumpReg (rs : Reg) (link : Option Reg)
  | branch (cond : Condition) (rs rt : Reg) (target : UInt32) (link : Bool)
  deriving DecidableEq, Repr

/-- What an instruction word stands for. -/
inductive Decoded
  | instr (i : Instr)
  | transfer (t : Transfer)
  deriving DecidableEq, Repr

namespace Instr

/-- Whether the dispatcher has to look at the processor again after the instruction. -/
def endsBlock : Instr → Bool
  | syscall | breakpoint | mtc0 .. | rfe => true
  | _ => false

/-- Whether the instruction writes state outside the general registers that a waiting loop may not
touch. -/
def hasSideEffects : Instr → Bool
  | store .. | mtc0 .. | syscall | breakpoint => true
  | cop2 word =>
    let opcode := word >>> 26
    let rs := (word >>> 21) &&& 0x1F
    opcode == 0x3A || opcode == 0x12 && (rs == 4 || rs == 6)
  | _ => false

/-- Whether the word is no instruction. -/
def isReserved : Instr → Bool
  | reserved _ => true
  | _ => false

/-- The cycles charged for the instruction. -/
def cost : Instr → Nat
  | multiply .. => 6
  | divide .. => 36
  | load .. => 2
  | _ => 1

theorem cost_pos (i : Instr) : 0 < i.cost := by cases i <;> simp [cost]

theorem cost_le (i : Instr) : i.cost ≤ 36 := by cases i <;> simp [cost]

/-- The cycles charged for instructions in a row. -/
def costs : List Instr → Nat
  | [] => 0
  | i :: is => i.cost + costs is

@[simp] theorem costs_nil : costs [] = 0 := rfl

@[simp] theorem costs_cons (i : Instr) (is : List Instr) : costs (i :: is) = i.cost + costs is := rfl

@[simp] theorem costs_append (is js : List Instr) : costs (is ++ js) = costs is + costs js := by
  induction is with
  | nil => simp
  | cons i is ih =>
    rw [List.cons_append, costs_cons, costs_cons, ih]
    omega

end Instr

end R3000
