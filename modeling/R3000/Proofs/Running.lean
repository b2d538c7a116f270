import Mathlib
import R3000.Block.Chain
import R3000.Proofs.Code
import R3000.Serve
import R3000.Proofs.Memory.Pages

/-!
# What running code keeps

A block reaches the machine only through services, so what every service keeps, every block keeps and every
chain of blocks.  The services of the machine keep watch over the pages of code.
-/

namespace R3000

variable {σ : Type} {host : Host σ} {J : σ → Prop}

/-! ### Blocks -/

lemma Instr.exec_keeps (hhost : ∀ service a b c s, J s → J (host service a b c s).rest) (pc : UInt32)
    (i : Instr) (c : Cpu) {s : σ} (h : J s) : J (i.exec host pc c s).rest := by
  have hserved : ∀ service a b c write, J (whenServed (host.ask service a b pc c s) write).rest := by
    intro service a b c write
    rw [whenServed]
    split <;> exact hhost _ _ _ _ _ h
  cases i with
  | arith op rd rs operand =>
    dsimp only [exec]
    split
    · exact hhost _ _ _ _ _ h
    · exact h
  | shift | multiply | fromHi | fromLo | toHi | toLo => exact h
  | divide | rfe => exact hhost _ _ _ _ _ h
  | load | store | mfc0 | mtc0 | cop2 | syscall | breakpoint | reserved => exact hserved ..

/-- What holds of the rest of the machine after some instructions. -/
def Progress.Holds (J : σ → Prop) : Progress σ → Prop
  | .running _ _ s => J s
  | .departed d => J d.rest

namespace Block

lemma step_keeps (hhost : ∀ service a b c s, J s → J (host service a b c s).rest) (pc : UInt32)
    (i : Instr) (left : Int32) (c : Cpu) {s : σ} (h : J s) : (step host pc i left c s).Holds J := by
  have hexec := i.exec_keeps hhost pc c h
  dsimp only [step]
  split <;> exact hexec

lemma steps_keeps (hhost : ∀ service a b c s, J s → J (host service a b c s).rest) (pc : UInt32)
    (is : List Instr) (left : Int32) (c : Cpu) {s : σ} (h : J s) : (steps host pc is left c s).Holds J := by
  induction is generalizing pc left c s with
  | nil => exact h
  | cons i is ih =>
    have hstep := step_keeps hhost pc i left c h
    rw [steps]
    split <;> rename_i heq <;> rw [heq] at hstep
    · exact ih _ _ _ hstep
    · exact hstep

lemma delay_keeps (hhost : ∀ service a b c s, J s → J (host service a b c s).rest) (pc : UInt32)
    (slot : Option Instr) (left : Int32) (c : Cpu) {s : σ} (h : J s) :
    (delay host pc slot left c s).Holds J := by
  cases slot with
  | none => exact h
  | some i => exact step_keeps hhost pc i left c h

lemma directExit_rest (exits : List Exit) (target : UInt32) (left : Int32) (c : Cpu) (s : σ) :
    (directExit exits target left c s).rest = s := by
  rw [directExit]
  dsimp only
  split
  · rfl
  · split <;> rfl

lemma finish_keeps (hhost : ∀ service a b c s, J s → J (host service a b c s).rest) (exits : List Exit)
    (pc fallthrough : UInt32) (e : Ending) (left : Int32) (c : Cpu) {s : σ} (h : J s) :
    J (finish host exits pc fallthrough e left c s).rest := by
  have hafter : ∀ (linked : Cpu) (go : Int32 → Cpu → σ → Departed σ),
      (∀ left c s, (go left c s).rest = s) →
        J (match delay host (pc + 4) e.delay (spend left 1) linked s with
          | .running left c s => go left c s
          | .departed d => d).rest := by
    intro linked go hgo
    have hdelay := delay_keeps hhost (pc + 4) e.delay (spend left 1) linked h
    split <;> rename_i heq <;> rw [heq] at hdelay
    · rw [hgo]
      exact hdelay
    · exact hdelay
  rw [finish]
  dsimp only
  split
  · exact hafter _ _ (directExit_rest exits _)
  · exact hafter _ _ fun _ _ _ => rfl
  · exact hafter _ _ (directExit_rest exits _)

/-- What every service keeps, a block keeps. -/
lemma enter_keeps (hhost : ∀ service a b c s, J s → J (host service a b c s).rest) (b : Block)
    (budget : Int32) (c : Cpu) {s : σ} (h : J s) : J (enter host b budget c s).rest := by
  have hsteps := steps_keeps hhost b.plan.start b.plan.body budget c h
  rw [enter_eq, interpret]
  split <;> rename_i heq <;> rw [heq] at hsteps
  · exact hsteps
  · split
    · exact finish_keeps hhost _ _ _ _ _ _ hsteps
    · split
      · exact hsteps
      · rw [directExit_rest]
        exact hsteps

end Block

/-! ### Chains -/

namespace Chain

variable {β : Type} {enter : Enter β σ}

lemma follow_keeps (henter : ∀ b left c s, J s → J (enter b left c s).rest) (store : CodeStore β)
    (fuel : Nat) {d : Departed σ} (h : J d.rest) : J (follow enter store fuel d).rest := by
  induction fuel generalizing d with
  | zero =>
    rw [follow]
    split <;> exact h
  | succ fuel ih =>
    rw [follow]
    split
    · exact h
    · split
      · exact ih (henter _ _ _ _ h)
      · exact h
      · exact h

/-- What every block keeps, a chain of blocks keeps. -/
theorem run_keeps (henter : ∀ b left c s, J s → J (enter b left c s).rest) (store : CodeStore β)
    (code : β) (budget : Int32) (c : Cpu) {s : σ} (h : J s) :
    J (run enter store code budget c s).rest :=
  follow_keeps henter store _ (henter _ _ _ _ h)

end Chain

/-! ### The services of the machine -/

namespace Board

variable {δ : Type} {hw : Hardware δ} {now : UInt64} {b : Board δ}

lemma watched_boardStore (b : Board δ) (isolated : Bool) (addr v : UInt32) (w : Width) :
    Memory.Watched b.memory (b.store hw now isolated addr v w).memory :=
  b.memory.watched_store (Io.window hw now) isolated addr v w b.io

lemma watched_serveStore (w : Width) (addr v : UInt32) (c : Cpu) :
    Memory.Watched b.memory (serveStore hw now w addr v c b).rest.memory := by
  rw [serveStore]
  split
  · exact watched_boardStore ..
  · exact .refl _

lemma watched_serveMergedStore (merge : UInt32 → UInt32 → UInt32 → UInt32) (addr v : UInt32) (c : Cpu) :
    Memory.Watched b.memory (serveMergedStore hw now merge addr v c b).rest.memory := by
  rw [serveMergedStore]
  exact watched_boardStore (b.load hw now (wordAddress addr) .word).2 ..

lemma memory_serveLoad (w : Width) (addr : UInt32) (c : Cpu) :
    (serveLoad hw now w addr c b).rest.memory = b.memory := by
  rw [serveLoad]
  split <;> rfl

lemma watched_serveCop2 (word : UInt32) (c : Cpu) :
    Memory.Watched b.memory (serveCop2 hw now word c b).rest.memory := by
  rw [serveCop2]
  split
  · split
    · split <;> exact .refl _
    · rw [serveCop2Load]
      dsimp only
      split <;> exact .refl _
    · exact watched_serveStore ..
    · exact .refl _
  · exact .refl _

/-- The pages of code are watched through every service. -/
theorem watched_serve (service : Service) (x y : UInt32) (c : Cpu) :
    Memory.Watched b.memory (serve hw now service x y c b).rest.memory := by
  cases service with
  | loadByte | loadHalf | loadWord =>
    dsimp only [serve]
    rw [memory_serveLoad]
    exact .refl _
  | storeByte | storeHalf | storeWord => exact watched_serveStore ..
  | storeWordLeft | storeWordRight => exact watched_serveMergedStore ..
  | cop2 => exact watched_serveCop2 ..
  | loadWordLeft | loadWordRight | mfc0 | mtc0 | rfe | syscall | breakpoint | divide | divideUnsigned
  | overflow | reserved => exact .refl _

end Board

end R3000
