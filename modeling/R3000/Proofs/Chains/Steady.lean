import Mathlib
import R3000.Machine.Basic
import R3000.Proofs.Chains.Solo

/-!
# The services of the machine are steady

The budgets and the flag of a running block belong to the dispatcher.  Every service minds that, but for the
commands of the geometry coprocessor, which the hardware carries out: the services see no budget if the commands see
none, and are steady if the commands also leave the flag alone.
-/

namespace R3000

/-! ### Exceptions -/

namespace Cpu

lemma enter_withBudgets (c : Cpu) (n : UInt32) (k : Int32) (e : Exception) :
    (c.withBudgets n k).enter e = (c.enter e).withBudgets n k := by
  dsimp only [enter]
  rw [show (c.withBudgets n k).inBlock = c.inBlock from rfl]
  split <;> rfl

lemma inBlock_enter (c : Cpu) (e : Exception) : (c.enter e).inBlock = c.inBlock := by
  dsimp only [enter]
  split <;> rfl

/-- An exception in a block aborts it. -/
lemma blockAborted_enter_ne_zero {c : Cpu} (h : c.inBlock ≠ 0) (e : Exception) :
    (c.enter e).blockAborted ≠ 0 := by
  dsimp only [enter]
  rw [if_neg h]
  exact (by decide : (1 : UInt32) ≠ 0)

/-- An exception outside blocks aborts nothing. -/
lemma blockAborted_enter {c : Cpu} (h : c.inBlock = 0) (e : Exception) :
    (c.enter e).blockAborted = c.blockAborted := by
  dsimp only [enter]
  rw [if_pos h]

end Cpu

/-! ### Services -/

variable {δ σ : Type}

/-- Commands of the geometry coprocessor that see no budget, and leave the budgets alone. -/
structure Hardware.Blind (hw : Hardware δ) : Prop where
  blind : ∀ command c d n k, hw.cop2 command (c.withBudgets n k) d =
    ((hw.cop2 command c d).1.withBudgets n k, (hw.cop2 command c d).2)

/-- Commands of the geometry coprocessor that leave alone what belongs to the dispatcher: they see no budget,
and a block that runs goes on running. -/
structure Hardware.Modest (hw : Hardware δ) : Prop extends hw.Blind where
  inBlock : ∀ command c d, (hw.cop2 command c d).1.inBlock = c.inBlock

lemma modest_absent (δ : Type) : (Hardware.absent δ).Modest where
  blind _ _ _ _ _ := rfl
  inBlock _ _ _ := rfl

/-- A service that sees no budget and leaves the flag of a running block. -/
structure Minds (serve : Cpu → σ → Served σ) : Prop where
  blind : ∀ c s n k, serve (c.withBudgets n k) s =
    ⟨(serve c s).answer, (serve c s).cpu.withBudgets n k, (serve c s).rest⟩
  inBlock : ∀ c s, (serve c s).cpu.inBlock = c.inBlock

namespace Minds

lemma ite {p : Prop} [Decidable p] {f g : Cpu → σ → Served σ} (hf : Minds f) (hg : Minds g) :
    Minds fun c s => if p then f c s else g c s := by
  by_cases h : p
  · simpa only [if_pos h] using hf
  · simpa only [if_neg h] using hg

/-- A service that raises an exception. -/
lemma enter (e : Exception) : Minds fun c (s : σ) => ⟨0, c.enter e, s⟩ where
  blind c s n k := by rw [c.enter_withBudgets]
  inBlock c s := c.inBlock_enter e

lemma addressError (addr : UInt32) (e : Exception) :
    Minds fun c (s : σ) => ⟨0, c.addressError addr e, s⟩ where
  blind c s n k := (Minds.enter e).blind { c with cop0 := c.cop0.put Cpu.badAddress addr } s n k
  inBlock _ _ := Cpu.inBlock_enter _ e

end Minds

namespace Board

variable {hw : Hardware δ} {now : UInt64}

lemma minds_serveLoad (w : Width) (addr : UInt32) : Minds (serveLoad hw now w addr) :=
  .ite ⟨fun _ _ _ _ => rfl, fun _ _ => rfl⟩ (.addressError addr .addressLoad)

lemma minds_serveStore (w : Width) (addr v : UInt32) : Minds (serveStore hw now w addr v) :=
  .ite ⟨fun _ _ _ _ => rfl, fun _ _ => rfl⟩ (.addressError addr .addressStore)

lemma minds_serveMove (word : UInt32) : Minds fun c (b : Board δ) => ⟨0, serveMove word c, b⟩ where
  blind c b n k := by
    rw [serveMove, serveMove]
    split
    · exact congrArg (Served.mk 0 · b) (Cpu.set_withBudgets c n k _ _)
    · exact congrArg (Served.mk 0 · b) (Cpu.set_withBudgets c n k _ _)
    · rfl
    · rfl
    · exact (Minds.enter .reserved).blind c b n k
  inBlock c b := by
    rw [serveMove]
    split
    · exact Cpu.inBlock_set ..
    · exact Cpu.inBlock_set ..
    · rfl
    · rfl
    · exact Cpu.inBlock_enter ..

lemma minds_serveCop2Load (word : UInt32) : Minds (serveCop2Load hw now word) where
  blind c b n k := by
    dsimp only [serveCop2Load]
    rw [show (c.withBudgets n k).gpr.get (Word.rs word) = c.gpr.get (Word.rs word) from rfl]
    split
    · rfl
    · exact (Minds.addressError _ .addressLoad).blind c b n k
  inBlock c b := by
    rw [serveCop2Load]
    dsimp only
    split
    · rfl
    · exact Cpu.inBlock_enter ..

lemma serveCop2_withBudgets (h : hw.Blind) (word : UInt32) (c : Cpu) (b : Board δ) (n : UInt32) (k : Int32) :
    serveCop2 hw now word (c.withBudgets n k) b =
      ⟨(serveCop2 hw now word c b).answer, (serveCop2 hw now word c b).cpu.withBudgets n k,
        (serveCop2 hw now word c b).rest⟩ := by
  rw [serveCop2, serveCop2, show (c.withBudgets n k).cop2Usable = c.cop2Usable from rfl]
  split
  · split
    · split
      · exact (minds_serveMove word).blind c b n k
      · obtain ⟨memory, ⟨interrupts, schedule, device⟩⟩ := b
        simp only [h.blind]
    · exact (minds_serveCop2Load word).blind c b n k
    · exact (minds_serveStore .word _ _).blind c b n k
    · exact (Minds.enter .reserved).blind c b n k
  · have henter := c.enter_withBudgets n k .coprocessor
    simp only [cop2Unusable, henter]
    rfl

lemma inBlock_serveCop2 (h : hw.Modest) (word : UInt32) (c : Cpu) (b : Board δ) :
    (serveCop2 hw now word c b).cpu.inBlock = c.inBlock := by
  rw [serveCop2]
  split
  · split
    · split
      · exact (minds_serveMove word).inBlock c b
      · exact h.inBlock ..
    · exact (minds_serveCop2Load word).inBlock c b
    · exact (minds_serveStore .word _ _).inBlock c b
    · exact Cpu.inBlock_enter ..
  · exact Cpu.inBlock_enter ..

/-- Every service but the geometry coprocessor minds what belongs to the dispatcher, whatever the hardware. -/
lemma minds_serve (hw : Hardware δ) (now : UInt64) {service : Service} (hservice : service ≠ .cop2) (x y : UInt32) :
    Minds (serve hw now service x y) := by
  cases service with
  | loadByte | loadHalf | loadWord => exact minds_serveLoad ..
  | storeByte | storeHalf | storeWord => exact minds_serveStore ..
  | syscall | breakpoint | overflow | reserved => exact .enter _
  | cop2 => exact absurd rfl hservice
  | loadWordLeft | loadWordRight | storeWordLeft | storeWordRight | mfc0 | rfe =>
    exact ⟨fun _ _ _ _ => rfl, fun _ _ => rfl⟩
  | mtc0 =>
    refine ⟨fun c b n k => ?_, fun c b => ?_⟩ <;> dsimp only [serve, Cpu.writeCop0]
    · split
      · rfl
      · split <;> rfl
    · split
      · rfl
      · split <;> rfl
  | divide | divideUnsigned =>
    refine ⟨fun c b n k => ?_, fun c b => ?_⟩ <;> dsimp only [serve, Cpu.divide, Cpu.divideUnsigned] <;>
      split <;> rfl

lemma orderly_serve (hw : Hardware δ) (now : UInt64) : (serve hw now).Orderly where
  quiet service hservice x y c b := by
    simp only [List.mem_cons, List.not_mem_nil, or_false] at hservice
    rcases hservice with rfl | rfl | rfl <;> dsimp only [serve, Cpu.divide, Cpu.divideUnsigned]
    · split <;> rfl
    · split <;> rfl
    · rfl
  overflow x y c b hin := Cpu.blockAborted_enter_ne_zero hin .overflow

/-- The services of the machine see no budget if the geometry commands see none. -/
theorem blind_serve (h : hw.Blind) (now : UInt64) : (serve hw now).Blind where
  blind service x y c b n k := by
    by_cases hservice : service = .cop2
    · subst hservice
      exact serveCop2_withBudgets h x c b n k
    · exact (minds_serve hw now hservice x y).blind c b n k

/-- The services of the machine see no budget and abort a block only by an exception. -/
theorem steady_serve (h : hw.Modest) (now : UInt64) : (serve hw now).Steady where
  toOrderly := orderly_serve hw now
  toBlind := blind_serve h.toBlind now
  inBlock service x y c b := by
    by_cases hservice : service = .cop2
    · subst hservice
      exact inBlock_serveCop2 h x c b
    · exact (minds_serve hw now hservice x y).inBlock c b

end Board

end R3000
