import Mathlib
import R3000.Proofs.Chains.Steady
import R3000.Proofs.Machine.Freshness
import R3000.Proofs.Machine.Wiring

/-!
# Chains of the machine

A dispatch of any machine that can be reached runs the blocks that the dispatcher would find one by one.  The
dispatcher is outside blocks whenever it comes to dispatch: no block runs, and no exception is left over from
one.
-/

namespace R3000

variable {δ : Type}

/-- Hooks that leave alone the flags by which a block tells the dispatcher how it ended. -/
structure Hooks.Modest (hooks : Hooks δ) : Prop where
  inBlock : ∀ vector c memory d, (hooks.intercept vector c memory d).2.1.inBlock = c.inBlock
  blockAborted : ∀ vector c memory d,
    (hooks.intercept vector c memory d).2.1.blockAborted = c.blockAborted

lemma modest_none (δ : Type) : (Hooks.none δ).Modest where
  inBlock _ _ _ _ := rfl
  blockAborted _ _ _ _ := rfl

/-! ### Outside blocks -/

/-- No block runs, and none has left an exception behind. -/
structure Cpu.Outside (c : Cpu) : Prop where
  inBlock : c.inBlock = 0
  blockAborted : c.blockAborted = 0

namespace Cpu.Outside

variable {c c' : Cpu}

lemma congr (h : c.Outside) (hin : c'.inBlock = c.inBlock) (habort : c'.blockAborted = c.blockAborted) :
    c'.Outside := ⟨hin.trans h.inBlock, habort.trans h.blockAborted⟩

lemma set (h : c.Outside) (r : Reg) (v : UInt32) : (c.set r v).Outside :=
  h.congr (c.inBlock_set r v) (c.blockAborted_set r v)

lemma enter (h : c.Outside) (e : Exception) : (c.enter e).Outside :=
  h.congr (c.inBlock_enter e) (Cpu.blockAborted_enter h.inBlock e)

lemma startRegisters (h : c.Outside) (header : Exe.Header) : (Exe.startRegisters header c).Outside := by
  have hstart : Outside { c with pc := header.pc } := h.congr rfl rfl
  have hpc := hstart.set 28 header.gp
  dsimp only [Exe.startRegisters]
  split
  · exact (hpc.set ..).set ..
  · exact (((hpc.set ..).set ..).set ..).set ..

end Cpu.Outside

namespace Machine

variable {τ β : Type} {P : Parts τ β δ} {m m' : Machine τ β δ}

lemma outside_syncInterrupts (h : m.cpu.Outside) : (m.syncInterrupts P).cpu.Outside := by
  have hline : (m.cpu.setInterruptLine (m.pollLines P).board.io.interrupts.pending).Outside :=
    ⟨h.inBlock, h.blockAborted⟩
  rw [syncInterrupts]
  dsimp only
  split
  · split
    · exact hline
    · apply Cpu.Outside.enter
      exact hline.congr rfl rfl
  · exact hline

lemma cpu_onEvent (now : UInt64) (c : Callback) (k : EventKind) (m : Machine τ β δ) :
    (m.onEvent P now c k).cpu = m.cpu := by
  dsimp only [onEvent]
  split
  · dsimp only [onBatch]
    split <;> rfl
  · rfl
  · rfl

lemma outside_dispatchEvents (h : m.cpu.Outside) : (m.dispatchEvents P).cpu.Outside := by
  apply dispatchEvents_keeps (I := fun x : Machine τ β δ => x.cpu.Outside)
  · exact fun _ x hx => hx
  · exact fun now c k x hx => (cpu_onEvent now c k x).symm ▸ hx
  · exact fun stats x hx => outside_syncInterrupts hx
  · exact h

lemma outside_intercept (hhooks : P.hooks.Modest) (h : m.cpu.Outside) (pc : UInt32) :
    (m.intercept P pc).2.cpu.Outside := by
  have hcall : ∀ vector memory d, (P.hooks.intercept vector m.cpu memory d).2.1.Outside := fun _ _ _ =>
    h.congr (hhooks.inBlock ..) (hhooks.blockAborted ..)
  rw [intercept]
  dsimp only
  split
  · split <;> exact hcall _ _ _
  · exact h

lemma outside_findBlock (h : m.cpu.Outside) (pc : UInt32) : (m.findBlock P pc).2.cpu.Outside := by
  rw [findBlock]
  split
  · exact h
  · dsimp only
    split
    · exact h
    · exact h
    · exact h
    · apply Cpu.Outside.enter
      exact h.congr rfl rfl

/-- However a chain of blocks ends, the dispatch ends outside blocks. -/
lemma outside_runBlock (P : Parts τ β δ) (e : Entry β) (deadline : UInt64) (m : Machine τ β δ) :
    (m.runBlock P e deadline).cpu.Outside := by
  rw [runBlock, chargeSpent, resumeAborted, Cpu.takeAbort]
  dsimp only
  by_cases habort : (Chain.run (P.enter m.recompiler.translator m.cycles) m.recompiler.store e.code
      (m.budget deadline) (m.armed (m.budget deadline)) m.board).cpu.blockAborted = 0
  · rw [if_pos habort]
    dsimp only
    split <;> exact ⟨rfl, habort⟩
  · rw [if_neg habort]
    dsimp only
    split <;> exact ⟨rfl, rfl⟩

lemma cpu_dropDirtyCode (m : Machine τ β δ) : m.dropDirtyCode.cpu = m.cpu := by
  rw [dropDirtyCode_eq]
  let I (x : Machine τ β δ) : Prop := x.cpu = m.cpu
  exact List.foldlRecOn (motive := I) m.memory.dirty.toList _ rfl fun x hx p _ =>
    (quiet_invalidate x _ _).2.2.trans hx

lemma cpu_flushCode (hflush : m.flushCode = .ok m') : m'.cpu = m.cpu := by
  obtain ⟨r, -, rfl⟩ := flushCode_eq_ok hflush
  rfl

lemma outside_loadQueued (h : m.cpu.Outside) (hload : m.loadQueued = .ok m') : m'.cpu.Outside := by
  obtain rfl | ⟨header, memory, hflush⟩ := loadQueued_eq_ok hload
  · exact h
  · rw [cpu_flushCode hflush]
    exact h.startRegisters header

lemma outside_fastForward (h : m.cpu.Outside) (e : Entry β) (deadline : UInt64) :
    (m.fastForward e deadline).2.cpu.Outside := by
  rw [fastForward]
  dsimp only
  split
  · exact h
  · split <;> exact h

lemma outside_runPass (h : m.cpu.Outside) (deadline : UInt64) (pc : UInt32) :
    (m.runPass P deadline pc).2.cpu.Outside := by
  have hfind := outside_findBlock (P := P) h pc
  rw [runPass]
  split <;> rename_i heq <;> rw [heq] at hfind
  · exact hfind
  · exact hfind
  · rename_i e m'
    have hran : (m'.runBlock P e deadline).dropDirtyCode.cpu.Outside :=
      (cpu_dropDirtyCode _).symm ▸ outside_runBlock P e deadline m'
    have hforward := outside_fastForward (outside_syncInterrupts (P := P) hran) e deadline
    dsimp only
    split <;> rename_i heq <;> rw [heq] at hforward <;> exact hforward

lemma outside_pass (hhooks : P.hooks.Modest) (h : m.cpu.Outside) (deadline : UInt64) :
    (m.pass P deadline).2.cpu.Outside := by
  dsimp only [pass]
  split
  · split
    · rename_i heq
      exact outside_loadQueued h heq
    · exact h
  · have hintercept := outside_intercept hhooks h m.cpu.pc
    split <;> rename_i m' heq <;> rw [heq] at hintercept
    · exact outside_syncInterrupts (m := m'.charge m'.minCharge) hintercept
    · split
      · exact outside_runPass hintercept deadline m.cpu.pc
      · apply Cpu.Outside.enter
        exact hintercept.congr rfl rfl

lemma outside_reset (hreset : m.reset P = .ok m') : m'.cpu.Outside := by
  obtain ⟨flushed, hflush, rfl⟩ := reset_eq_ok hreset
  have hcpu : (powerOn P flushed).cpu = Cpu.fresh := cpu_flushCode hflush
  exact hcpu ▸ ⟨rfl, rfl⟩

/-- The dispatcher is outside blocks whatever happens to the machine. -/
lemma invariant_outside (hhooks : P.hooks.Modest) : Invariant P fun m => m.cpu.Outside where
  pass _ deadline h := outside_pass hhooks h deadline
  dispatchEvents _ h := outside_dispatchEvents h
  newFrame _ h := h
  reset _ _ _ := outside_reset
  flushCode _ _ h hflush := (cpu_flushCode hflush).symm ▸ h
  invalidate m addr len h := (quiet_invalidate m addr len).2.2.symm ▸ h
  queue _ _ h := h
  resetStats _ h := h

/-! ### Dispatches -/

/-- The machines that a pass comes by up to the run of a block. -/
inductive BeforeRun (P : Parts τ β δ) (m₀ : Machine τ β δ) : Machine τ β δ → Prop
  | head {m : Machine τ β δ} : AtHead P m₀ m → BeforeRun P m₀ m
  | intercept {m : Machine τ β δ} (pc : UInt32) : BeforeRun P m₀ m → BeforeRun P m₀ (m.intercept P pc).2
  | findBlock {m : Machine τ β δ} (pc : UInt32) : BeforeRun P m₀ m → BeforeRun P m₀ (m.findBlock P pc).2

lemma CodeInvariant.beforeRun {I : Machine τ β δ → Prop} (k : CodeInvariant P I) {m₀ m : Machine τ β δ} (h : I m₀)
    (hm : BeforeRun P m₀ m) : I m := by
  induction hm with
  | head hhead => exact k.invariant.atHead h hhead
  | intercept pc _ ih => exact k.intercept _ pc ih
  | findBlock pc _ ih => exact k.findBlock _ pc ih

/-- The processor at the start of a dispatch with some links to spend. -/
def armedWith (m : Machine τ β δ) (budget : Int32) (links : UInt32) : Cpu :=
  { m.armed budget with linkBudget := links }

/-- What the chain of blocks from an entry returns. -/
def chain (P : Parts τ β δ) (e : Entry β) (budget : Int32) (links : UInt32) (m : Machine τ β δ) :
    Returned (Board δ) :=
  Chain.run (P.enter m.recompiler.translator m.cycles) m.recompiler.store e.code budget
    (m.armedWith budget links) m.board

/-- The blocks of that chain, in order. -/
def chained (P : Parts τ β δ) (e : Entry β) (budget : Int32) (links : UInt32) (m : Machine τ β δ) : List β :=
  Chain.blocks (P.enter m.recompiler.translator m.cycles) m.recompiler.store e.code budget
    (m.armedWith budget links) m.board

/-- The machine after a dispatch that returned. -/
def settle (e : Entry β) (budget : Int32) (m : Machine τ β δ) (r : Returned (Board δ)) : Machine τ β δ :=
  ({ m with
    cpu := { r.cpu with inBlock := 0 }
    board := r.rest
    stats.blocksExecuted := m.stats.blocksExecuted + 1 }.resumeAborted e).chargeSpent budget r.left

/-- The machine with no budgets noted in its processor. -/
def forgetBudgets (m : Machine τ β δ) : Machine τ β δ := { m with cpu := m.cpu.withBudgets 0 0 }

lemma runBlock_eq_settle (P : Parts τ β δ) (e : Entry β) (deadline : UInt64) (m : Machine τ β δ) :
    m.runBlock P e deadline =
      m.settle e (m.budget deadline) (m.chain P e (m.budget deadline) m.settings.chainLimit) := rfl

/-- How a dispatch ends does not depend on the budgets noted in the processor. -/
lemma forgetBudgets_settle (e : Entry β) (budget : Int32) (m : Machine τ β δ) (r : Returned (Board δ)) :
    (m.settle e budget r).forgetBudgets = m.settle e budget { r with cpu := r.cpu.withBudgets 0 0 } := by
  dsimp only [settle, chargeSpent, resumeAborted, Cpu.takeAbort]
  by_cases habort : r.cpu.blockAborted = 0
  · rw [if_pos habort, if_pos (show (r.cpu.withBudgets 0 0).blockAborted = 0 from habort)]
    dsimp only
    split <;> rfl
  · rw [if_neg habort, if_neg (show ¬ (r.cpu.withBudgets 0 0).blockAborted = 0 from habort)]
    dsimp only
    split <;> rfl

section Standard

variable {hw : Hardware δ} {hooks : Hooks δ} {m m₀ : Machine TranslatorStats Block δ} {pc : UInt32}
  {e : Entry Block} {budget : Int32} {links : UInt32}

/-- Runs the block of an entry alone, then the one that the cache has for the program counter, and so on while
the exits taken are linked and cycles and links are left. -/
def lookups (hw : Hardware δ) (e : Entry Block) (budget : Int32) (links : UInt32)
    (m : Machine TranslatorStats Block δ) : List Block × Returned (Board δ) :=
  Chain.lookups (Board.serve hw m.cycles) m.recompiler.cache m.recompiler.store links.toNat e.code budget
    (m.armedWith budget links) m.board

/-- A chain runs the blocks that lookups find, to the same state but for the budgets noted in the processor,
and at most one block more than there are links to spend. -/
structure Blockwise (P : Parts TranslatorStats Block δ) (e : Entry Block) (budget : Int32) (links : UInt32)
    (m : Machine TranslatorStats Block δ) : Prop where
  blocks : m.chained P e budget links = (m.lookups P.hardware e budget links).1
  length : (m.chained P e budget links).length ≤ links.toNat + 1
  left : (m.chain P e budget links).left = (m.lookups P.hardware e budget links).2.left
  cpu : (m.chain P e budget links).cpu.withBudgets 0 0 =
    (m.lookups P.hardware e budget links).2.cpu.withBudgets 0 0
  board : (m.chain P e budget links).rest = (m.lookups P.hardware e budget links).2.rest
  /-- The chain ends by itself: no bound on the number of its blocks changes what it returns. -/
  ends : let d := P.enter m.recompiler.translator m.cycles e.code budget (m.armedWith budget links) m.board
    ∀ n, Chain.fuel d.departure ≤ n →
      Chain.follow (P.enter m.recompiler.translator m.cycles) m.recompiler.store n d = m.chain P e budget links

lemma blockwise (hooks : Hooks δ) (hhw : hw.Blind) (hwired : m.recompiler.Wired)
    (he : m.recompiler.cache.get? pc = some e) (budget : Int32) (links : UInt32) :
    m.Blockwise (.standard hw hooks) e budget links := by
  obtain ⟨hblocks, hlength, hleft, hcpu, hrest⟩ := Chain.run_lookups (Board.blind_serve hhw m.cycles)
    hwired.sound he budget (m.armedWith budget links) m.board
  exact ⟨hblocks, (congrArg List.length hblocks).trans_le hlength, hleft, hcpu, hrest, fun n hn =>
    Chain.run_ends _ hwired.sound he budget (m.armedWith budget links) m.board hn⟩

lemma Blockwise.settle (h : m.Blockwise (.standard hw hooks) e budget links) :
    (m.settle e budget (m.chain (.standard hw hooks) e budget links)).forgetBudgets =
      (m.settle e budget (m.lookups hw e budget links).2).forgetBudgets := by
  rw [forgetBudgets_settle, forgetBudgets_settle, h.left, h.cpu, h.board]
  rfl

lemma wired_beforeRun (h : m₀.recompiler.Wired) (hm : BeforeRun (.standard hw hooks) m₀ m) :
    m.recompiler.Wired :=
  (codeInvariant_wired hw hooks).beforeRun h hm

/-- Of every cached block, with every budget and every number of links, a chain is what lookups find; so a
dispatch leaves the machine as if it had run block by block. -/
theorem runBlock_blockwise (hhw : hw.Blind) {settings : Settings} {bios : ByteArray} {device : δ}
    (hstart : ofTranslator (.standard hw hooks) settings bios device {} = .ok m₀)
    (hm : BeforeRun (.standard hw hooks) m₀ m) (he : m.recompiler.cache.get? pc = some e) :
    (∀ budget links, m.Blockwise (.standard hw hooks) e budget links) ∧
      ∀ deadline, (m.runBlock (.standard hw hooks) e deadline).forgetBudgets =
        (m.settle e (m.budget deadline)
          (m.lookups hw e (m.budget deadline) m.settings.chainLimit).2).forgetBudgets := by
  have hwired := wired_beforeRun (wired_ofTranslator hstart) hm
  have hblockwise := blockwise hooks hhw hwired he
  refine ⟨hblockwise, fun deadline => ?_⟩
  rw [runBlock_eq_settle]
  exact (hblockwise _ _).settle

/-! ### Two blocks that are linked in a ring -/

/-- A boot ROM with a jump over one that leads back. -/
def ringRom : ByteArray := ⟨#[0x02, 0, 0xF0, 0x0B, 0, 0, 0, 0, 0, 0, 0xF0, 0x0B]⟩

/-- Settings with room for two blocks, and short ones. -/
def ringSettings : Settings := { limits := { cacheSlots := 1, poolNodes := 1, maxBlock := 4 } }

/-- Two jumps that are linked to each other run in turn, up to one more of them than there are links, or until the
cycles are spent. -/
theorem runBlock_blockwise_ring :
    let P := Parts.standard (.absent Unit) (.none Unit)
    ∃ m₀ m e, ofTranslator P ringSettings ringRom () {} = .ok m₀ ∧ BeforeRun P m₀ m ∧
      m.recompiler.cache.get? (resetVector + 8) = some e ∧ (∀ budget links, m.Blockwise P e budget links) ∧
        (m.chained P e 100 5).map (·.plan.start) = [resetVector + 8, resetVector, resetVector + 8, resetVector,
          resetVector + 8, resetVector] ∧
          (m.chained P e 3 5).map (·.plan.start) = [resetVector + 8, resetVector] := by
  intro P
  let m₀ := assemble P ringSettings ringRom () (.bare {} ringSettings.limits)
  have hstart : ofTranslator P ringSettings ringRom () {} = .ok m₀ := ofTranslator_eq_bare (by decide) _ _ _
  -- the first dispatch comes to the second jump, which is then translated
  have hrun : (m₀.headAfter P (m₀.stepDeadline 100) 1).any (fun h =>
      let m := (h.findBlock P (resetVector + 8)).2
      (m.recompiler.cache.get? (resetVector + 8)).any fun e =>
        (m.chained P e 100 5).map (·.plan.start) = [resetVector + 8, resetVector, resetVector + 8, resetVector,
          resetVector + 8, resetVector] ∧
          (m.chained P e 3 5).map (·.plan.start) = [resetVector + 8, resetVector]) = true := by
    decide +kernel
  obtain ⟨h, hpasses, hfound⟩ := exists_passes hrun
  obtain ⟨e, he, hchains⟩ := (Option.any_eq_true ..).mp hfound
  have hm : BeforeRun P m₀ (h.findBlock P (resetVector + 8)).2 := .findBlock _ (.head ⟨m₀, 100, .start, hpasses⟩)
  exact ⟨m₀, _, e, hstart, hm, he, (runBlock_blockwise (modest_absent Unit).toBlind hstart hm he).1,
    of_decide_eq_true hchains⟩

/-! ### A command that refills the links -/

/-- A geometry coprocessor whose commands write the link budget. -/
def refilling : Hardware Unit := { Hardware.absent Unit with cop2 _ c d := ({ c with linkBudget := 2 }, d) }

/-- A boot ROM that switches the geometry coprocessor on and then gives it a command over and over. -/
def refillRom : ByteArray :=
  ⟨#[0, 0x40, 0x08, 0x3C, 0, 0x60, 0x88, 0x40, 0x01, 0, 0, 0x4A, 0x02, 0, 0xF0, 0x0B]⟩

/-- A chain whose blocks refill the links runs on until its cycles are spent: with one link it runs four blocks, where
lookups find two. -/
theorem exists_refilled :
    let P := Parts.standard refilling (.none Unit)
    ∃ m₀ m e, ofTranslator P ringSettings refillRom () {} = .ok m₀ ∧ BeforeRun P m₀ m ∧
      m.recompiler.cache.get? (resetVector + 8) = some e ∧ (m.chained P e 10 1).length = 4 ∧
        (m.lookups refilling e 10 1).1.length = 2 ∧ ¬ m.Blockwise P e 10 1 := by
  intro P
  let m₀ := assemble P ringSettings refillRom () (.bare {} ringSettings.limits)
  have hstart : ofTranslator P ringSettings refillRom () {} = .ok m₀ := ofTranslator_eq_bare (by decide) _ _ _
  have hrun : (m₀.headAfter P (m₀.stepDeadline 100) 1).any (fun h =>
      let m := (h.findBlock P (resetVector + 8)).2
      (m.recompiler.cache.get? (resetVector + 8)).any fun e =>
        (m.chained P e 10 1).length = 4 ∧ (m.lookups refilling e 10 1).1.length = 2) = true := by
    decide +kernel
  obtain ⟨h, hpasses, hfound⟩ := exists_passes hrun
  obtain ⟨e, he, hchains⟩ := (Option.any_eq_true ..).mp hfound
  obtain ⟨hchained, hlookups⟩ := of_decide_eq_true hchains
  have hm : BeforeRun P m₀ (h.findBlock P (resetVector + 8)).2 := .findBlock _ (.head ⟨m₀, 100, .start, hpasses⟩)
  refine ⟨m₀, _, e, hstart, hm, he, hchained, hlookups, fun hblockwise => ?_⟩
  have hlength := hblockwise.length
  rw [hchained] at hlength
  exact absurd hlength (by decide)

end Standard

end Machine

end R3000
