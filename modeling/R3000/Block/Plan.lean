import R3000.Instr.Decode
import R3000.Source

/-!
# Block plans

A block is a run of instructions translated together: ordinary instructions up to a transfer of control
with its delay slot, an instruction after which the dispatcher has to look, the cap on the length, or the
end of the readable words.  A delay slot that cannot be read, holds another transfer, or has no meaning
here counts one cycle and does nothing.
-/

namespace R3000

/-- How sure it is that a block only waits for something outside it. -/
inductive Idle
  | none
  /-- A conditional branch back to its own start. -/
  | weak
  /-- An unconditional jump back to its own start. -/
  | strong
  deriving DecidableEq, Repr

/-- The name of a class. -/
def Idle.name : Idle → String
  | none => "none"
  | weak => "weak"
  | strong => "strong"

/-- The class with a name; an unknown name stands for a block that does not wait. -/
def Idle.ofName : String → Idle
  | "weak" => weak
  | "strong" => strong
  | _ => none

/-- Whether a block only waits. -/
def Idle.isIdle : Idle → Bool
  | none => false
  | _ => true

/-- The transfer of control that ends a block, and the instruction in its delay slot. -/
structure Ending where
  transfer : Transfer
  delay : Option Instr
  deriving DecidableEq, Repr

/-- What the words from an address on make. -/
structure Gathered where
  body : List Instr
  ending : Option Ending
  /-- The address where gathering stopped, to which control falls. -/
  fallthrough : UInt32
  deriving DecidableEq, Repr

/-- The instructions of a block. -/
structure Plan extends Gathered where
  start : UInt32
  deriving DecidableEq, Repr

namespace Plan

/-! ### Measures -/

/-- The number of words a block covers; a transfer always covers its delay slot. -/
def length (p : Plan) : Nat := p.body.length + if p.ending.isSome then 2 else 0

/-- The number of words a block covers, as a word. -/
def sourceLen (p : Plan) : UInt32 := p.length.toUInt32

/-- The address of the transfer, or the end of the body. -/
def endingPc (p : Plan) : UInt32 := p.start + 4 * p.body.length.toUInt32

/-- The cycles of a delay slot. -/
def delayCost (delay : Option Instr) : Nat := (delay.map Instr.cost).getD 1

/-- The cycles of a transfer with its delay slot. -/
def endingCost (e : Ending) : Nat := 1 + delayCost e.delay

/-- The cycles of the whole block. -/
def cost (p : Plan) : Nat := Instr.costs p.body + (p.ending.map endingCost).getD 0

/-- The cycles of the whole block, as a word. -/
def cycles (p : Plan) : UInt32 := p.cost.toUInt32

/-! ### Waiting loops -/

/-- Whether a condition holds whatever the registers hold. -/
def alwaysHolds : Condition → Reg → Reg → Bool
  | .eq, rs, rt => rs == rt
  | .gez, rs, _ | .lez, rs, _ => rs == 0
  | _, _, _ => false

/-- How a transfer back to `start` waits. -/
def idleTransfer (start : UInt32) : Transfer → Idle
  | .jump target false => if target = start then .strong else .none
  | .branch cond rs rt target false =>
    if target = start then if alwaysHolds cond rs rt then .strong else .weak else .none
  | _ => .none

/-- Whether the block only waits: it goes back to its own start without side effects. -/
def idle (p : Plan) : Idle :=
  match p.ending with
  | none => .none
  | some e =>
    if p.body.any Instr.hasSideEffects || e.delay.any Instr.hasSideEffects then .none
    else idleTransfer p.start e.transfer

/-! ### Planning -/

/-- Whether an instruction can stand in a block: without a fallback a reserved word cannot. -/
def usable (fallback : Bool) (i : Instr) : Bool := fallback || !i.isReserved

/-- The instruction in the delay slot at an address, if it has an effect. -/
def delaySlot (source : Source) (fallback : Bool) (pc : UInt32) : Option Instr :=
  match source pc with
  | .error _ => none
  | .ok w =>
    match decode w pc with
    | .transfer _ => none
    | .instr i => if usable fallback i then some i else none

/-- Gathers at most `cap` instructions from `pc` on, after those already `taken` in reverse. -/
def gather (source : Source) (fallback : Bool) :
    (cap : Nat) → (pc : UInt32) → (taken : List Instr) → Gathered
  | 0, pc, taken => ⟨taken.reverse, none, pc⟩
  | cap + 1, pc, taken =>
    match source pc with
    | .error _ => ⟨taken.reverse, none, pc⟩
    | .ok w =>
      match decode w pc with
      | .transfer t => ⟨taken.reverse, some ⟨t, delaySlot source fallback (pc + 4)⟩, pc + 8⟩
      | .instr i =>
        if usable fallback i then
          if i.endsBlock then ⟨(i :: taken).reverse, none, pc + 4⟩
          else gather source fallback cap (pc + 4) (i :: taken)
        else ⟨taken.reverse, none, pc⟩

/-- The error for a block whose first word gives no instruction. -/
def firstError (source : Source) (fallback : Bool) (start : UInt32) : Option TranslateError :=
  match source start with
  | .error e => some e
  | .ok w =>
    match decode w start with
    | .transfer _ => none
    | .instr i => if usable fallback i then none else some (.unsupportedOpcode start w)

/-- Plans the block at an address, of at most `cap` instructions before its transfer and at least one. -/
def ofSource (source : Source) (fallback : Bool) (start cap : UInt32) : Except TranslateError Plan :=
  match firstError source fallback start with
  | some e => .error e
  | none => .ok { gather source fallback (max cap.toNat 1) start [] with start }

end Plan

end R3000
