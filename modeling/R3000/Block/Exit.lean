import R3000.Block.Plan

/-!
# Direct exits

A block leaves to addresses known from its words unless it ends in a jump through a register or in an
instruction after which the dispatcher has to look.  Each such address gets a link word, save those that
the dispatcher wants to see entered.
-/

namespace R3000

/-- The number of a link word. -/
abbrev Site := Nat

/-- A direct exit of a block and its link word. -/
structure Exit where
  target : UInt32
  site : Site
  deriving DecidableEq, Repr

namespace Plan

/-- Whether the block ends in an instruction after which the dispatcher has to look. -/
def endsAtBarrier (p : Plan) : Bool :=
  p.ending.isNone && p.body.getLast?.any Instr.endsBlock

/-- The addresses to which the block leaves directly. -/
def leaves (p : Plan) : List UInt32 :=
  match p.ending with
  | some ⟨.branch _ _ _ target _, _⟩ => [target, p.fallthrough]
  | some ⟨.jump target _, _⟩ => [target]
  | some ⟨.jumpReg .., _⟩ => []
  | none => if p.endsAtBarrier then [] else [p.fallthrough]

/-- The addresses that get a link word: each once, and none whose physical address is `unlinked`. -/
def directTargets (unlinked : List UInt32) (p : Plan) : List UInt32 :=
  (p.leaves.filter fun pc => !unlinked.contains (pc &&& 0x1FFFFFFF)).eraseDups

end Plan

/-- A translated block: what it does and where its exits go. -/
structure Block where
  plan : Plan
  exits : List Exit
  deriving DecidableEq, Repr

end R3000
