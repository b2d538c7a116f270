import Mathlib
import R3000.Proofs.Machine.Reached

/-!
# Owned machines

The owner of a machine asks for more than steps.  Between its requests it may write the processor, the memory,
the interrupt controller and the devices, and put other hooks in place, which write memory themselves.
-/

namespace R3000

/-- The hooks write memory only as a relation allows. -/
def Hooks.Within {δ : Type} (W : Memory → Memory → Prop) (hooks : Hooks δ) : Prop :=
  ∀ vector c memory d, W memory (hooks.intercept vector c memory d).2.2.1

/-- No hooks write nothing. -/
lemma Hooks.within_none {δ : Type} {W : Memory → Memory → Prop} (hrefl : ∀ memory, W memory memory) :
    (Hooks.none δ).Within W := fun _ _ memory _ => hrefl memory

namespace Machine

variable {δ : Type} {hw : Hardware δ} {W : Memory → Memory → Prop} {m m₀ : Machine TranslatorStats Block δ}

/-- The machine after its owner wrote what is open to it. -/
def write (cpu : Cpu) (memory : Memory) (interrupts : Interrupts) (device : δ)
    (m : Machine TranslatorStats Block δ) : Machine TranslatorStats Block δ :=
  { m with cpu, board := ⟨memory, ⟨interrupts, m.board.io.schedule, device⟩⟩ }

/-- The machines that a machine can become in the hands of its owner, with memory written from outside as a
relation allows. -/
inductive Owned (hw : Hardware δ) (W : Memory → Memory → Prop) (m₀ : Machine TranslatorStats Block δ) :
    Machine TranslatorStats Block δ → Prop
  | start : Owned hw W m₀ m₀
  | reached {m m' : Machine TranslatorStats Block δ} {hooks : Hooks δ} : Owned hw W m₀ m → hooks.Within W →
    Reached (.standard hw hooks) m m' → Owned hw W m₀ m'
  | write {m : Machine TranslatorStats Block δ} {memory : Memory} (cpu : Cpu) (interrupts : Interrupts)
    (device : δ) : Owned hw W m₀ m → W m.memory memory → Owned hw W m₀ (m.write cpu memory interrupts device)

/-- An invariant that the writes of the owner and its hooks keep holds of every owned machine. -/
theorem Owned.invariant {I : Machine TranslatorStats Block δ → Prop}
    (k : ∀ hooks : Hooks δ, hooks.Within W → Invariant (.standard hw hooks) I)
    (hwrite : ∀ m cpu memory interrupts device, I m → W m.memory memory → I (m.write cpu memory interrupts device))
    (h : I m₀) (hm : Owned hw W m₀ m) : I m := by
  induction hm with
  | start => exact h
  | reached _ hhooks hreached ih => exact (k _ hhooks).reached ih hreached
  | write cpu interrupts device _ hwritten ih => exact hwrite _ cpu _ interrupts device ih hwritten

end Machine

end R3000
