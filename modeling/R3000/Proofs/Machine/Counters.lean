import Mathlib
import R3000.Proofs.Machine.Slices
import R3000.Proofs.Turnover

/-!
# The counters of a machine

The dispatcher, the recompiler and the cache count on their own, and a block that runs is counted by each on a
different path.  `Balanced` allows for the block that was found and has not run yet; every part of a pass but two
leaves the counts that it compares alone.
-/

namespace R3000.Machine

variable {τ β δ : Type} {P : Parts τ β δ} {m m' m'' m₀ : Machine τ β δ} {n : Nat}

/-! ### Blocks found and blocks run -/

/-- Every block found has run, save for some, and every failure was raised as a bus error. -/
structure Balanced (found : Nat) (m : Machine τ β δ) : Prop where
  blocks : m.stats.blocksExecuted + found =
    m.stats.fastHits + m.recompiler.stats.cacheHits + m.recompiler.stats.blocksCompiled
  errors : m.stats.busErrors = m.recompiler.stats.compileFailures

/-- No block was found or run, and no failure counted. -/
structure Uncounted (m m' : Machine τ β δ) : Prop where
  blocksExecuted : m'.stats.blocksExecuted = m.stats.blocksExecuted
  fastHits : m'.stats.fastHits = m.stats.fastHits
  busErrors : m'.stats.busErrors = m.stats.busErrors
  cacheHits : m'.recompiler.stats.cacheHits = m.recompiler.stats.cacheHits
  blocksCompiled : m'.recompiler.stats.blocksCompiled = m.recompiler.stats.blocksCompiled
  compileFailures : m'.recompiler.stats.compileFailures = m.recompiler.stats.compileFailures

namespace Uncounted

lemma refl (m : Machine τ β δ) : Uncounted m m := ⟨rfl, rfl, rfl, rfl, rfl, rfl⟩

lemma trans (h : Uncounted m m') (h' : Uncounted m' m'') : Uncounted m m'' where
  blocksExecuted := h'.blocksExecuted.trans h.blocksExecuted
  fastHits := h'.fastHits.trans h.fastHits
  busErrors := h'.busErrors.trans h.busErrors
  cacheHits := h'.cacheHits.trans h.cacheHits
  blocksCompiled := h'.blocksCompiled.trans h.blocksCompiled
  compileFailures := h'.compileFailures.trans h.compileFailures

lemma balanced (h : Uncounted m m') (hm : m.Balanced n) : m'.Balanced n where
  blocks := by
    rw [h.blocksExecuted, h.fastHits, h.cacheHits, h.blocksCompiled]
    exact hm.blocks
  errors := by
    rw [h.busErrors, h.compileFailures]
    exact hm.errors

end Uncounted

lemma uncounted_syncInterrupts (P : Parts τ β δ) (m : Machine τ β δ) : Uncounted m (m.syncInterrupts P) := by
  rw [syncInterrupts]
  dsimp only
  split
  · split <;> exact ⟨rfl, rfl, rfl, rfl, rfl, rfl⟩
  · exact ⟨rfl, rfl, rfl, rfl, rfl, rfl⟩

lemma uncounted_onEvent (P : Parts τ β δ) (now : UInt64) (c : Callback) (k : EventKind) (m : Machine τ β δ) :
    Uncounted m (m.onEvent P now c k) := by
  dsimp only [onEvent]
  split
  · rw [onBatch]
    split <;> exact ⟨rfl, rfl, rfl, rfl, rfl, rfl⟩
  · exact ⟨rfl, rfl, rfl, rfl, rfl, rfl⟩
  · exact ⟨rfl, rfl, rfl, rfl, rfl, rfl⟩

lemma uncounted_fireDue (P : Parts τ β δ) (now : UInt64) (m : Machine τ β δ) :
    Uncounted m (m.fireDue P now).2 := by
  rw [fireDue]
  refine Schedule.dispatch_keeps (I := Uncounted m) (fun schedule x hx => ?_) (fun c k x hx => ?_) (.refl m)
  · exact hx.trans ⟨rfl, rfl, rfl, rfl, rfl, rfl⟩
  · exact hx.trans (uncounted_onEvent P now c k x)

lemma uncounted_dispatchEvents (P : Parts τ β δ) (m : Machine τ β δ) : Uncounted m (m.dispatchEvents P) := by
  have hfired := uncounted_fireDue P m.cycles m
  rw [dispatchEvents]
  split
  · split
    · let x := (m.fireDue P m.cycles).2
      let x' := { x with stats.eventsDispatched := x.stats.eventsDispatched + (m.fireDue P m.cycles).1 }
      have hcounted : Uncounted x x' := ⟨rfl, rfl, rfl, rfl, rfl, rfl⟩
      exact hfired.trans (hcounted.trans (uncounted_syncInterrupts P x'))
    · exact .refl m
  · exact .refl m

lemma uncounted_fastForward (e : Entry β) (deadline : UInt64) (m : Machine τ β δ) :
    Uncounted m (m.fastForward e deadline).2 := by
  rw [fastForward]
  dsimp only
  split
  · exact ⟨rfl, rfl, rfl, rfl, rfl, rfl⟩
  · split <;> exact ⟨rfl, rfl, rfl, rfl, rfl, rfl⟩

lemma uncounted_chargeSpent (budget left : Int32) (m : Machine τ β δ) :
    Uncounted m (m.chargeSpent budget left) := by
  rw [chargeSpent]
  dsimp only
  split <;> exact ⟨rfl, rfl, rfl, rfl, rfl, rfl⟩

lemma uncounted_resumeAborted (e : Entry β) (m : Machine τ β δ) : Uncounted m (m.resumeAborted e) := by
  rw [resumeAborted]
  split
  · exact .refl m
  · dsimp only
    split <;> exact ⟨rfl, rfl, rfl, rfl, rfl, rfl⟩

lemma uncounted_intercept (P : Parts τ β δ) (pc : UInt32) (m : Machine τ β δ) :
    Uncounted m (m.intercept P pc).2 := by
  rw [intercept]
  dsimp only
  split
  · split <;> exact ⟨rfl, rfl, rfl, rfl, rfl, rfl⟩
  · exact .refl m

/-! ### Dropping code -/

lemma uncounted_invalidate (m : Machine τ β δ) (addr len : UInt32) : Uncounted m (m.invalidate addr len).2 := by
  let Kept (r : Recompiler τ β) : Prop := r.stats.cacheHits = m.recompiler.stats.cacheHits ∧
    r.stats.blocksCompiled = m.recompiler.stats.blocksCompiled ∧
      r.stats.compileFailures = m.recompiler.stats.compileFailures
  have hone : ∀ (r : Recompiler τ β) start, Kept r → Kept (r.invalidate start len).2 := by
    intro r start hr
    by_cases hlen : len = 0
    · rwa [Recompiler.invalidate, if_pos hlen]
    · dsimp only [Kept]
      rw [Recompiler.stats_invalidate r start hlen]
      exact hr
  have hkept : Kept (m.invalidate addr len).2.recompiler := by
    by_cases hram : physical addr < 0x00800000
    · rw [recompiler_invalidate_ram hram]
      exact List.foldlRecOn ramImages _ ⟨rfl, rfl, rfl⟩ fun r hr image _ => hone r _ hr
    · rw [recompiler_invalidate hram]
      exact hone _ _ ⟨rfl, rfl, rfl⟩
  have hstats : (m.invalidate addr len).2.stats = m.stats := by
    rw [invalidate]
    dsimp only
    split <;> rfl
  exact ⟨by rw [hstats], by rw [hstats], by rw [hstats], hkept.1, hkept.2.1, hkept.2.2⟩

lemma uncounted_dropDirtyCode (m : Machine τ β δ) : Uncounted m m.dropDirtyCode := by
  rw [dropDirtyCode_eq]
  refine List.foldlRecOn (motive := Uncounted m) m.memory.dirty.toList _ ⟨rfl, rfl, rfl, rfl, rfl, rfl⟩ ?_
  intro x hx p _
  have hinvalidated := uncounted_invalidate x (p.val * pageBytes).toUInt32 pageBytes.toUInt32
  exact hx.trans (hinvalidated.trans ⟨rfl, rfl, rfl, rfl, rfl, rfl⟩)

lemma uncounted_flushCode (h : m.flushCode = .ok m') : Uncounted m m' := by
  obtain ⟨r, hflush, rfl⟩ := flushCode_eq_ok h
  have hstats := Recompiler.flush_stats hflush
  refine ⟨rfl, rfl, rfl, ?_, ?_, ?_⟩
  · exact congrArg (·.cacheHits) hstats
  · exact congrArg (·.blocksCompiled) hstats
  · exact congrArg (·.compileFailures) hstats

lemma uncounted_loadQueued (h : m.loadQueued = .ok m') : Uncounted m m' := by
  obtain rfl | ⟨header, memory, hflush⟩ := loadQueued_eq_ok h
  · exact ⟨rfl, rfl, rfl, rfl, rfl, rfl⟩
  · have hloaded : Uncounted m
        { m with loaded := true, cpu := Exe.startRegisters header m.cpu, board.memory := memory } :=
      ⟨rfl, rfl, rfl, rfl, rfl, rfl⟩
    exact hloaded.trans (uncounted_flushCode hflush)

/-! ### Passes -/

/-- A look for a block counts the block, or the failure. -/
lemma balanced_findBlock (h : m.Balanced 0) (pc : UInt32) :
    match m.findBlock P pc with
    | (.ok (some _), m') => m'.Balanced 1
    | (_, m') => m'.Balanced 0 := by
  have hblocks := h.blocks
  have herrors := h.errors
  have hcounted := Recompiler.Counted.resolve P.translator m.memory.source pc m.recompiler
  have hhits := hcounted.cacheHits
  have hmade := hcounted.blocksCompiled
  have hfaults := hcounted.compileFailures
  rw [findBlock]
  cases m.recompiler.cache.resident? pc with
  | some e => exact ⟨by dsimp only; omega, herrors⟩
  | none =>
    dsimp only
    generalize m.recompiler.resolve P.translator m.memory.source pc = x at hhits hmade hfaults
    obtain ⟨answer, r⟩ := x
    rcases answer with err | (e | e | e) <;>
      simp only [Recompiler.hits, Recompiler.made, Recompiler.faults] at hhits hmade hfaults <;>
      exact ⟨by dsimp only [mapMemory]; omega, by dsimp only [mapMemory]; omega⟩

/-- A block that runs was found. -/
lemma balanced_runBlock (h : m.Balanced 1) (e : Entry β) (deadline : UInt64) :
    (m.runBlock P e deadline).Balanced 0 := by
  let r := Chain.run (P.enter m.recompiler.translator m.cycles) m.recompiler.store e.code
    (m.budget deadline) (m.armed (m.budget deadline)) m.board
  let ran := { m with
    cpu := { r.cpu with inBlock := 0 }
    board := r.rest
    stats.blocksExecuted := m.stats.blocksExecuted + 1 }
  have hran : ran.Balanced 0 := ⟨h.blocks, h.errors⟩
  have hresumed := (uncounted_resumeAborted e ran).balanced hran
  exact (uncounted_chargeSpent (m.budget deadline) r.left _).balanced hresumed

lemma balanced_runPass (h : m.Balanced 0) (deadline : UInt64) (pc : UInt32) :
    (m.runPass P deadline pc).2.Balanced 0 := by
  have hfind := balanced_findBlock (P := P) h pc
  rw [runPass]
  split
  · rename_i heq
    rw [heq] at hfind
    exact hfind
  · rename_i x heq
    rw [heq] at hfind
    have hcharge : Uncounted x (x.charge x.minCharge) := ⟨rfl, rfl, rfl, rfl, rfl, rfl⟩
    exact hcharge.balanced hfind
  · rename_i e x heq
    rw [heq] at hfind
    have hran := balanced_runBlock (P := P) hfind e deadline
    have hdropped := (uncounted_dropDirtyCode _).balanced hran
    have hsynced := (uncounted_syncInterrupts P _).balanced hdropped
    have hforward := (uncounted_fastForward e deadline _).balanced hsynced
    dsimp only
    split <;> rename_i heq <;> rw [heq] at hforward <;> exact hforward

lemma balanced_pass (h : m.Balanced 0) (deadline : UInt64) : (m.pass P deadline).2.Balanced 0 := by
  dsimp only [pass]
  split
  · split
    · rename_i heq
      exact (uncounted_loadQueued heq).balanced h
    · exact h
  · have hintercept := (uncounted_intercept P m.cpu.pc m).balanced h
    split <;> rename_i x heq <;> rw [heq] at hintercept
    · have hcharge : Uncounted x (x.charge x.minCharge) := ⟨rfl, rfl, rfl, rfl, rfl, rfl⟩
      exact (hcharge.trans (uncounted_syncInterrupts P _)).balanced hintercept
    · split
      · exact balanced_runPass hintercept deadline m.cpu.pc
      · have hmisaligned : Uncounted x (x.misaligned m.cpu.pc) := ⟨rfl, rfl, rfl, rfl, rfl, rfl⟩
        exact hmisaligned.balanced hintercept

lemma invariant_balanced (P : Parts τ β δ) : Invariant P (Balanced 0) where
  pass m deadline h := balanced_pass h deadline
  dispatchEvents m h := (uncounted_dispatchEvents P m).balanced h
  newFrame m h := ⟨h.blocks, h.errors⟩
  reset m m' h hreset := by
    obtain ⟨flushed, hflush, rfl⟩ := reset_eq_ok hreset
    let start := { m with cpu := .fresh }.mapIo fun io => { io with interrupts := {} }
    have hstart : Uncounted m start := ⟨rfl, rfl, rfl, rfl, rfl, rfl⟩
    have hpower : Uncounted flushed (powerOn P flushed) := ⟨rfl, rfl, rfl, rfl, rfl, rfl⟩
    exact (hstart.trans ((uncounted_flushCode hflush).trans hpower)).balanced h
  flushCode m m' h hflush := (uncounted_flushCode hflush).balanced h
  invalidate m addr len h := (uncounted_invalidate m addr len).balanced h
  queue m image h := ⟨h.blocks, h.errors⟩
  resetStats m _ := ⟨rfl, rfl⟩

/-! ### The recompiler -/

/-- Whatever a machine asks of its recompiler, the changes lead there. -/
lemma lasting_since (T : Translator τ β) (r₀ : Recompiler τ β) :
    Lasting T fun r => ∃ o s, Recompiler.Since T r₀ o s r where
  resolve r memory pc h := by
    obtain ⟨o, s, hsince⟩ := h
    exact (Recompiler.Counted.resolve T memory.source pc r).since r₀ o s hsince
  flush r r' h hflush := by
    obtain ⟨o, s, hsince⟩ := h
    exact ⟨_, _, hsince.flush hflush⟩
  invalidate r start len h := by
    obtain ⟨o, s, hsince⟩ := h
    exact ⟨o, s, hsince.turn (.invalidate r start len)⟩
  refineIdle r pc h := by
    obtain ⟨o, s, hsince⟩ := h
    exact ⟨o, s, hsince.turn (.refineIdle r pc .none)⟩
  resetStats r h := by
    obtain ⟨o, s, hsince⟩ := h
    exact ⟨_, _, hsince.resetStats⟩

/-! ### All counters -/

/-- The counters of the dispatcher, the recompiler and the cache agree. -/
structure Reconciled (m : Machine τ β δ) : Prop where
  blocks : m.stats.blocksExecuted =
    m.stats.fastHits + m.recompiler.stats.cacheHits + m.recompiler.stats.blocksCompiled
  errors : m.stats.busErrors = m.recompiler.stats.compileFailures
  invalidated : m.recompiler.stats.invalidatedBlocks = m.recompiler.cache.stats.removals
  flushes : m.recompiler.stats.flushes = m.recompiler.cache.stats.clears
  hits : m.recompiler.cache.stats.chainHits + m.recompiler.cache.stats.directHits = m.recompiler.stats.cacheHits

/-- A new recompiler has counted nothing. -/
lemma reconciled_create {limits : Limits} {t : τ} {r : Recompiler τ β} (h : Recompiler.create t limits = .ok r) :
    r.Reconciled ∧ r.cache.stats.clears = 0 ∧ r.cache.size = 0 := by
  obtain ⟨hvalid, -⟩ := Recompiler.cache_of_create h
  obtain ⟨-, rfl⟩ := Recompiler.create_eq_ok_iff.mp h
  exact ⟨⟨hvalid, rfl, rfl, rfl⟩, rfl, rfl⟩

lemma balanced_assemble {settings : Settings} {bios : ByteArray} {device : δ} {r : Recompiler τ β} (h : r.stats = {}) :
    (assemble P settings bios device r).Balanced 0 := by
  have hstats : (assemble P settings bios device r).recompiler.stats = {} := h
  exact ⟨by rw [hstats]; rfl, by rw [hstats]; rfl⟩

/-- At every head of the dispatcher's loop, and so whenever the owner asks for something, the counters agree.  Changes
led from the new recompiler to the present one, and whichever they were: the cache counts a clearing exactly if they
cleared it after the counts were last forgotten, and unless the counts were forgotten later than that, the blocks that
have entered it since and those that have left it differ by its size. -/
theorem atHead_reconciled {settings : Settings} {bios : ByteArray} {device : δ} {t : τ}
    (hstart : ofTranslator P settings bios device t = .ok m₀) (h : AtHead P m₀ m) :
    m.Reconciled ∧ (∃ o s, Recompiler.Since P.translator m₀.recompiler o s m.recompiler) ∧
      ∀ o s, Recompiler.Since P.translator m₀.recompiler o s m.recompiler →
        (0 < m.recompiler.cache.stats.clears ↔ o = .flushed) ∧
          (o ≠ .forgot → s.cache.size = 0 ∧ ∃ added removed,
            m.recompiler.cache.stats.inserts = s.cache.stats.inserts + added ∧
              m.recompiler.cache.stats.removals = s.cache.stats.removals + removed ∧
                added = removed + m.recompiler.cache.size) := by
  obtain ⟨r, hcreate, rfl⟩ := ofTranslator_eq_ok hstart
  obtain ⟨hnew, hclears, hsize⟩ := reconciled_create hcreate
  have hstats : r.stats = {} := by
    rw [(Recompiler.create_eq_ok_iff.mp hcreate).2]
    rfl
  have hbalanced : m.Balanced 0 := (invariant_balanced P).atHead (balanced_assemble hstats) h
  have hhistory : ∃ o s, Recompiler.Since P.translator r o s m.recompiler :=
    (lasting_since P.translator r).codeInvariant.invariant.atHead ⟨_, _, .start⟩ h
  have hreconciled : m.recompiler.Reconciled := by
    obtain ⟨o, s, hsince⟩ := hhistory
    exact hsince.reconciled hnew
  refine ⟨⟨hbalanced.blocks, hbalanced.errors, hreconciled.invalidated, hreconciled.flushes, hreconciled.hits⟩,
    hhistory, fun o s hsince => ?_⟩
  obtain ⟨-, added, removed, found, hturnover⟩ := hsince.turnover hnew.valid
  refine ⟨?_, fun ho => ?_⟩
  · rw [hturnover.clears]
    exact hsince.clears_pos_iff hclears
  · have hempty := hsince.size_eq_zero hsize ho
    have hgrown := hturnover.size
    refine ⟨hempty, added, removed, hturnover.inserts, hturnover.removals, ?_⟩
    omega

/-- A machine whose code was flushed and that has then run its first block. -/
theorem atHead_reconciled_flushed :
    let P := Parts.standard soonDevice (.none Unit)
    ∃ m₀ m, ofTranslator P pollSettings pollRom () {} = .ok m₀ ∧ AtHead P m₀ m ∧ m.Reconciled ∧
      m.stats.blocksExecuted = 1 ∧ m.recompiler.stats.blocksCompiled = 1 ∧ m.recompiler.stats.flushes = 1 ∧
        ∃ s, Recompiler.Since P.translator m₀.recompiler .flushed s m.recompiler ∧ s.cache.size = 0 ∧
          m.recompiler.cache.size = 1 := by
  intro P
  let m₀ := assemble P pollSettings pollRom () (.bare {} pollSettings.limits)
  have hstart : ofTranslator P pollSettings pollRom () {} = .ok m₀ :=
    ofTranslator_eq_bare (by decide) _ _ _
  let m₁ := (m₀.flushCode).toOption.getD m₀
  have hflush : m₀.flushCode = .ok m₁ := rfl
  -- the first pass translates the words of the image
  let P' := P.reading (imageSource pollRom)
  let h := (m₁.pass P' 68864).2
  have hsource : m₁.memory.source = imageSource pollRom := by
    obtain ⟨r, -, heq⟩ := flushCode_eq_ok hflush
    have hmemory : m₁.memory = (Memory.ofBios pollRom).clearCodeMarks := by rw [heq]; rfl
    have hmarks : ∀ memory : Memory, memory.clearCodeMarks.source = memory.source := fun _ => rfl
    rw [hmemory, hmarks]
    exact Memory.source_ofBios (by decide)
  have hpass : m₁.pass P 68864 = m₁.pass P' 68864 := pass_reading rfl 68864 hsource
  have hagain : (m₁.pass P' 68864).1 = .again := by decide +kernel
  have hhead : AtHead P m₀ h := by
    refine ⟨m₁, 68864, .flushCode .start hflush, ?_⟩
    rw [show m₁.stepDeadline 68864 = 68864 by decide +kernel]
    refine .again .start (by decide +kernel) (hpass.trans ?_)
    rw [← hagain]
  obtain ⟨hreconciled, ⟨o, s, hsince⟩, hevery⟩ := atHead_reconciled hstart hhead
  obtain ⟨hflushed, hgrown⟩ := hevery o s hsince
  obtain rfl := hflushed.mp (by decide +kernel)
  obtain ⟨hempty, -⟩ := hgrown (by decide)
  exact ⟨m₀, h, hstart, hhead, hreconciled, by decide +kernel, by decide +kernel, by decide +kernel, s, hsince,
    hempty, by decide +kernel⟩

end R3000.Machine
