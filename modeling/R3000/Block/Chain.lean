import R3000.Block.Code
import R3000.CodeStore

/-!
# Chains of blocks

One dispatch enters a block and follows its hops from block to block until one leaves to the dispatcher
or a link word points at the stub.  A hop is taken only with cycles left, and every block charges at
least one, so the cycles left at the first hop bound the number of blocks that follow.
-/

namespace R3000

/-- How code behaves when control enters it with a budget. -/
abbrev Enter (β σ : Type) := β → Int32 → Cpu → σ → Departed σ

/-- The state in which a dispatch returns, with the cycles left. -/
structure Returned (σ : Type) where
  left : Int32
  cpu : Cpu
  rest : σ

namespace Chain

variable {β σ : Type}

/-- Follows hops for at most `fuel` blocks. -/
def follow (enter : Enter β σ) (store : CodeStore β) : (fuel : Nat) → Departed σ → Returned σ
  | 0, d =>
    match d.departure with
    | .leave left | .hop _ left => ⟨left, d.cpu, d.rest⟩
  | fuel + 1, d =>
    match d.departure with
    | .leave left => ⟨left, d.cpu, d.rest⟩
    | .hop site left =>
      match store.word? site with
      | some (.block code) => follow enter store fuel (enter code left d.cpu d.rest)
      | some .slowPath | none => ⟨left, d.cpu, d.rest⟩

/-- The cycles with which a departure may go on. -/
def fuel : Departure → Nat
  | .leave _ => 0
  | .hop _ left => left.toNatClampNeg

/-- Enters code with a budget and follows its hops. -/
def run (enter : Enter β σ) (store : CodeStore β) (code : β) (budget : Int32) (c : Cpu) (s : σ) :
    Returned σ :=
  let d := enter code budget c s
  follow enter store (fuel d.departure) d

end Chain

end R3000
