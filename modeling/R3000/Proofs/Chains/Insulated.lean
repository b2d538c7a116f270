import Mathlib
import R3000.Proofs.Chains.Steady

/-!
# What a running block leaves behind

While a block runs, the program counter of the processor is the one of its start, and the cycles noted are those
of the last exit.  The services of the machine do not look at either, so a block that was entered elsewhere does
the same.  Only an exception sets the program counter.
-/

namespace R3000

variable {δ σ : Type}

/-! ### Processors in a block -/

namespace Cpu

/-- A block runs that has no links to spend, and raised no exception so far. -/
structure Ready (c : Cpu) : Prop where
  inBlock : c.inBlock ≠ 0
  blockAborted : c.blockAborted = 0
  linkBudget : c.linkBudget = 0

/-- The processor with other cycles noted, and with another program counter unless an exception has set it. -/
def elsewhere (c : Cpu) (pc : UInt32) (left : Int32) : Cpu :=
  { c with pc := if c.blockAborted = 0 then pc else c.pc, cyclesLeft := left }

variable {c : Cpu}

lemma elsewhere_self (h : c.blockAborted = 0) : c.elsewhere c.pc c.cyclesLeft = c := by
  rw [elsewhere, if_pos h]

lemma set_elsewhere (c : Cpu) (pc : UInt32) (left : Int32) (r : Reg) (v : UInt32) :
    (c.elsewhere pc left).set r v = (c.set r v).elsewhere pc left := by
  rw [set, set]
  split <;> rfl

lemma alike_elsewhere : Alike fun c c' => ∃ pc left, c' = c.elsewhere pc left where
  reg := by rintro c _ ⟨pc, left, rfl⟩ r; rfl
  hi := by rintro c _ ⟨pc, left, rfl⟩; rfl
  lo := by rintro c _ ⟨pc, left, rfl⟩; rfl
  blockAborted := by rintro c _ ⟨pc, left, rfl⟩; rfl
  set := by rintro c _ ⟨pc, left, rfl⟩ r v; exact ⟨pc, left, c.set_elsewhere pc left r v⟩
  files := by rintro c _ ⟨pc, left, rfl⟩ hi lo; exact ⟨pc, left, rfl⟩

lemma Ready.set (h : c.Ready) (r : Reg) (v : UInt32) : (c.set r v).Ready := by
  rw [Cpu.set]
  split
  · exact h
  · exact ⟨h.inBlock, h.blockAborted, h.linkBudget⟩

lemma Ready.linked (h : c.Ready) (t : Transfer) (pc : UInt32) : (t.linked pc c).Ready := by
  cases t with
  | jump target link | branch cond rs rt target link =>
    cases link with
    | false => exact h
    | true => exact h.set Block.linkRegister (Block.returnAddress pc)
  | jumpReg rs link =>
    cases link with
    | none => exact h
    | some rd => exact h.set rd (Block.returnAddress pc)

/-- An exception in a block sets the program counter. -/
lemma enter_elsewhere (h : c.inBlock ≠ 0) (e : Exception) (pc : UInt32) (left : Int32) :
    (c.elsewhere pc left).enter e = (c.enter e).elsewhere pc left := by
  have hin : (c.elsewhere pc left).inBlock ≠ 0 := h
  have habort : ¬ (1 : UInt32) = 0 := by decide
  dsimp only [enter]
  rw [if_neg hin, if_neg h, elsewhere, elsewhere]
  dsimp only
  rw [if_neg habort]
  rfl

end Cpu

/-! ### Services -/

/-- A service that does the same elsewhere, and gives no links to a block that goes on. -/
structure Insulates (serve : Cpu → σ → Served σ) : Prop where
  blind : ∀ c s, c.Ready → ∀ pc left, ∃ pc' left', serve (c.elsewhere pc left) s =
    ⟨(serve c s).answer, (serve c s).cpu.elsewhere pc' left', (serve c s).rest⟩
  ready : ∀ c s, c.Ready → (serve c s).cpu.blockAborted = 0 → (serve c s).cpu.Ready

/-- Commands of the geometry coprocessor that do the same elsewhere: what they do in a running block depends neither
on the program counter, which an exception sets, nor on the cycles noted; and a block that goes on still runs and
has no links to spend. -/
structure Hardware.Insulated (hw : Hardware δ) : Prop where
  blind : ∀ command c d, c.Ready → ∀ pc left, ∃ pc' left', hw.cop2 command (c.elsewhere pc left) d =
    ((hw.cop2 command c d).1.elsewhere pc' left', (hw.cop2 command c d).2)
  ready : ∀ command c d, c.Ready → (hw.cop2 command c d).1.blockAborted = 0 → (hw.cop2 command c d).1.Ready

lemma insulated_absent (δ : Type) : (Hardware.absent δ).Insulated where
  blind _ _ _ _ pc left := ⟨pc, left, rfl⟩
  ready _ _ _ h _ := h

/-- Orderly services that do the same elsewhere. -/
structure Host.Insulated (host : Host σ) : Prop extends Host.Orderly host where
  insulates : ∀ service x y, Insulates (host service x y)

namespace Insulates

lemma ite {p : Prop} [Decidable p] {f g : Cpu → σ → Served σ} (hf : Insulates f) (hg : Insulates g) :
    Insulates fun c s => if p then f c s else g c s := by
  by_cases h : p
  · simpa only [if_pos h] using hf
  · simpa only [if_neg h] using hg

/-- A service that raises an exception. -/
lemma enter (e : Exception) : Insulates fun c (s : σ) => ⟨0, c.enter e, s⟩ where
  blind c s h pc left := ⟨pc, left, by rw [Cpu.enter_elsewhere h.inBlock]⟩
  ready c s h hgo := absurd hgo (Cpu.blockAborted_enter_ne_zero h.inBlock e)

lemma addressError (addr : UInt32) (e : Exception) :
    Insulates fun c (s : σ) => ⟨0, c.addressError addr e, s⟩ where
  blind c s h pc left := by
    have henter := Cpu.enter_elsewhere (c := { c with cop0 := c.cop0.put Cpu.badAddress addr }) h.inBlock e
    exact ⟨pc, left, congrArg (Served.mk 0 · s) (henter pc left)⟩
  ready c s h hgo := by
    have habort := Cpu.blockAborted_enter_ne_zero (c := { c with cop0 := c.cop0.put Cpu.badAddress addr }) h.inBlock e
    exact absurd hgo habort

end Insulates

namespace Board

variable {hw : Hardware δ} {now : UInt64}

lemma insulates_serveLoad (w : Width) (addr : UInt32) : Insulates (serveLoad hw now w addr) :=
  .ite ⟨fun _ _ _ pc left => ⟨pc, left, rfl⟩, fun _ _ h _ => h⟩ (.addressError addr .addressLoad)

lemma insulates_serveStore (w : Width) (addr v : UInt32) : Insulates (serveStore hw now w addr v) :=
  .ite ⟨fun _ _ _ pc left => ⟨pc, left, rfl⟩, fun _ _ h _ => h⟩ (.addressError addr .addressStore)

lemma insulates_serveMove (word : UInt32) : Insulates fun c (b : Board δ) => ⟨0, serveMove word c, b⟩ where
  blind c b h pc left := by
    rw [serveMove, serveMove]
    split
    · exact ⟨pc, left, congrArg (Served.mk 0 · b) (Cpu.set_elsewhere c pc left _ _)⟩
    · exact ⟨pc, left, congrArg (Served.mk 0 · b) (Cpu.set_elsewhere c pc left _ _)⟩
    · exact ⟨pc, left, rfl⟩
    · exact ⟨pc, left, rfl⟩
    · exact (Insulates.enter .reserved).blind c b h pc left
  ready c b h := by
    rw [serveMove]
    split
    · exact fun _ => h.set ..
    · exact fun _ => h.set ..
    · exact fun _ => ⟨h.inBlock, h.blockAborted, h.linkBudget⟩
    · exact fun _ => ⟨h.inBlock, h.blockAborted, h.linkBudget⟩
    · exact (Insulates.enter .reserved).ready c b h

lemma insulates_serveCop2Load (word : UInt32) : Insulates (serveCop2Load hw now word) where
  blind c b h pc left := by
    dsimp only [serveCop2Load]
    rw [show (c.elsewhere pc left).gpr.get (Word.rs word) = c.gpr.get (Word.rs word) from rfl]
    split
    · exact ⟨pc, left, rfl⟩
    · exact (Insulates.addressError _ .addressLoad).blind c b h pc left
  ready c b h := by
    rw [serveCop2Load]
    dsimp only
    split
    · exact fun _ => ⟨h.inBlock, h.blockAborted, h.linkBudget⟩
    · exact (Insulates.addressError _ .addressLoad).ready c b h

lemma insulates_cop2Unusable : Insulates fun c (b : Board δ) => ⟨0, cop2Unusable c, b⟩ where
  blind c b h pc left := by
    have henter := Cpu.enter_elsewhere h.inBlock .coprocessor pc left
    simp only [cop2Unusable, henter]
    exact ⟨pc, left, rfl⟩
  ready c b h hgo := absurd hgo (Cpu.blockAborted_enter_ne_zero h.inBlock .coprocessor)

lemma insulates_serveCop2 (h : hw.Insulated) (word : UInt32) : Insulates (serveCop2 hw now word) where
  blind c b hc pc left := by
    rw [serveCop2, serveCop2, show (c.elsewhere pc left).cop2Usable = c.cop2Usable from rfl]
    split
    · split
      · split
        · exact (insulates_serveMove word).blind c b hc pc left
        · obtain ⟨memory, ⟨interrupts, schedule, device⟩⟩ := b
          obtain ⟨pc', left', hblind⟩ := h.blind (word &&& 0x01FFFFFF) c device hc pc left
          refine ⟨pc', left', ?_⟩
          simp only [hblind]
      · exact (insulates_serveCop2Load word).blind c b hc pc left
      · exact (insulates_serveStore .word _ _).blind c b hc pc left
      · exact (Insulates.enter .reserved).blind c b hc pc left
    · exact insulates_cop2Unusable.blind c b hc pc left
  ready c b hc := by
    rw [serveCop2]
    split
    · split
      · split
        · exact (insulates_serveMove word).ready c b hc
        · exact h.ready _ c b.io.device hc
      · exact (insulates_serveCop2Load word).ready c b hc
      · exact (insulates_serveStore .word _ _).ready c b hc
      · exact (Insulates.enter .reserved).ready c b hc
    · exact insulates_cop2Unusable.ready c b hc

lemma insulates_serve (h : hw.Insulated) (now : UInt64) (service : Service) (x y : UInt32) :
    Insulates (serve hw now service x y) := by
  have hkeep : ∀ {c : Cpu} {P : Prop} (cop0 : RegFile) (hi lo : UInt32), c.Ready → P →
      Cpu.Ready { c with cop0, hi, lo } := fun _ _ _ h _ => ⟨h.inBlock, h.blockAborted, h.linkBudget⟩
  cases service with
  | loadByte | loadHalf | loadWord => exact insulates_serveLoad ..
  | storeByte | storeHalf | storeWord => exact insulates_serveStore ..
  | syscall | breakpoint | overflow | reserved => exact .enter _
  | cop2 => exact insulates_serveCop2 h x
  | loadWordLeft | loadWordRight | storeWordLeft | storeWordRight | mfc0 =>
    exact ⟨fun _ _ _ pc left => ⟨pc, left, rfl⟩, fun _ _ h _ => h⟩
  | rfe => exact ⟨fun _ _ _ pc left => ⟨pc, left, rfl⟩, fun _ _ => hkeep _ _ _⟩
  | mtc0 =>
    refine ⟨fun c b hc pc left => ?_, fun c b hc => ?_⟩ <;> dsimp only [serve, Cpu.writeCop0]
    · split
      · exact ⟨pc, left, rfl⟩
      · split <;> exact ⟨pc, left, rfl⟩
    · split
      · exact hkeep _ _ _ hc
      · split
        · exact fun _ => hc
        · exact hkeep _ _ _ hc
  | divide | divideUnsigned =>
    refine ⟨fun c b hc pc left => ?_, fun c b hc => ?_⟩ <;>
      dsimp only [serve, Cpu.divide, Cpu.divideUnsigned] <;> split
    · exact ⟨pc, left, rfl⟩
    · exact ⟨pc, left, rfl⟩
    · exact hkeep _ _ _ hc
    · exact hkeep _ _ _ hc

/-- The services of the machine do the same elsewhere. -/
theorem insulated_serve (h : hw.Insulated) (now : UInt64) : (serve hw now).Insulated where
  toOrderly := orderly_serve hw now
  insulates := insulates_serve h now

end Board

/-! ### Instructions -/

namespace Instr

variable {host : Host σ} {c : Cpu}

/-- An instruction does the same elsewhere. -/
lemma exec_elsewhere (h : host.Insulated) (pc : UInt32) (i : Instr) (hc : c.Ready) (s : σ) (q : UInt32)
    (k : Int32) : ∃ q' k', i.exec host pc (c.elsewhere q k) s =
      ⟨(i.exec host pc c s).stop, (i.exec host pc c s).cpu.elsewhere q' k', (i.exec host pc c s).rest⟩ := by
  have hask : ∀ service x y, ∃ c₁, (∃ q' k', c₁ = (host.ask service x y pc c s).cpu.elsewhere q' k') ∧
      host.ask service x y pc (c.elsewhere q k) s =
        ⟨(host.ask service x y pc c s).answer, c₁, (host.ask service x y pc c s).rest⟩ := by
    intro service x y
    obtain ⟨q', k', hserve⟩ := (h.insulates service x y).blind { c with currentPc := pc } s
      ⟨hc.inBlock, hc.blockAborted, hc.linkBudget⟩ q k
    exact ⟨_, ⟨q', k', rfl⟩, hserve⟩
  obtain ⟨_, ⟨q', k', rfl⟩, hexec⟩ := exec_alike Cpu.alike_elsewhere ⟨q, k, rfl⟩ pc i s hask
  exact ⟨q', k', hexec⟩

/-- A block stays ready unless an instruction raises an exception. -/
lemma ready_exec (h : host.Insulated) (pc : UInt32) (i : Instr) (hc : c.Ready) (s : σ)
    (hgo : (i.exec host pc c s).cpu.blockAborted = 0) : (i.exec host pc c s).cpu.Ready := by
  have hask : ∀ service x y, (host.ask service x y pc c s).cpu.blockAborted = 0 →
      (host.ask service x y pc c s).cpu.Ready := fun service x y =>
    (h.insulates service x y).ready { c with currentPc := pc } s ⟨hc.inBlock, hc.blockAborted, hc.linkBudget⟩
  have hserved : ∀ service x y write, (∀ v c, Cpu.Ready c → (write v c).Ready) →
      (whenServed (host.ask service x y pc c s) write).cpu.blockAborted = 0 →
        (whenServed (host.ask service x y pc c s) write).cpu.Ready := by
    intro service x y write hwrite
    rw [whenServed]
    split
    · rename_i hzero
      exact fun _ => hwrite _ _ (hask _ _ _ hzero)
    · exact hask _ _ _
  cases i with
  | arith op rd rs operand =>
    dsimp only [exec] at hgo ⊢
    split at hgo <;> rename_i htrap
    · rw [if_pos htrap]
      exact hask _ _ _ hgo
    · rw [if_neg htrap]
      exact hc.set ..
  | shift | fromHi | fromLo => exact hc.set ..
  | multiply | toHi | toLo => exact ⟨hc.inBlock, hc.blockAborted, hc.linkBudget⟩
  | divide | rfe => exact hask _ _ _ hgo
  | load | mfc0 => exact hserved _ _ _ _ (fun _ _ h => h.set ..) hgo
  | store | mtc0 | cop2 | syscall | breakpoint | reserved => exact hserved _ _ _ _ (fun _ _ h => h) hgo

end Instr

end R3000
