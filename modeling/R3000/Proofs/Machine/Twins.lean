import Mathlib
import R3000.Proofs.Chains.Unlinked
import R3000.Proofs.Machine.Events

/-!
# Machines that differ in their translated code

Two machines are alike if they differ at most in translated code, in the sizes of its stores, in the watch over
waiting blocks and in what was counted.  Nothing but finding a block and skipping a slice looks at these: whatever
else the dispatcher does leaves machines alike that were so before.
-/

namespace R3000

namespace Machine

section

variable {τ β δ : Type} {m m' m'' x x' : Machine τ β δ}

/-- The machines differ at most in translated code, in the sizes of its stores, in the watch over waiting blocks and
in what was counted. -/
structure Alike (m m' : Machine τ β δ) : Prop where
  settings : ∃ limits, m'.settings = { m.settings with limits }
  cpu : m'.cpu = m.cpu
  board : m'.board = m.board
  raster : m'.raster = m.raster
  loader : m'.loader = m.loader
  loaded : m'.loaded = m.loaded
  cycles : m'.cycles = m.cycles
  frameDone : m'.frameDone = m.frameDone

/-- The same result, with machines that are alike. -/
def Agrees {α : Type} (r r' : α × Machine τ β δ) : Prop := r'.1 = r.1 ∧ Alike r.2 r'.2

lemma Agrees.exists_eq {α : Type} {r r' : α × Machine τ β δ} (h : Agrees r r') :
    ∃ a x x', r = (a, x) ∧ r' = (a, x') ∧ Alike x x' :=
  ⟨r.1, r.2, r'.2, rfl, Prod.ext h.1 rfl, h.2⟩

/-- The machine with other translated code, in stores of other sizes, and other counts. -/
def recoded (limits : Limits) (r : Recompiler τ β) (watch : IdleWatch) (stats : DispatchStats)
    (m : Machine τ β δ) : Machine τ β δ :=
  { m with settings.limits := limits, recompiler := r, watch, stats }

namespace Alike

lemma refl (m : Machine τ β δ) : Alike m m := ⟨⟨m.settings.limits, rfl⟩, rfl, rfl, rfl, rfl, rfl, rfl, rfl⟩

lemma trans (h : Alike m m') (h' : Alike m' m'') : Alike m m'' where
  settings := by
    obtain ⟨limits, hlimits⟩ := h.settings
    obtain ⟨limits', hlimits'⟩ := h'.settings
    exact ⟨limits', by rw [hlimits', hlimits]⟩
  cpu := h'.cpu.trans h.cpu
  board := h'.board.trans h.board
  raster := h'.raster.trans h.raster
  loader := h'.loader.trans h.loader
  loaded := h'.loaded.trans h.loaded
  cycles := h'.cycles.trans h.cycles
  frameDone := h'.frameDone.trans h.frameDone

lemma symm (h : Alike m m') : Alike m' m where
  settings := by
    obtain ⟨limits, hlimits⟩ := h.settings
    exact ⟨m.settings.limits, by rw [hlimits]⟩
  cpu := h.cpu.symm
  board := h.board.symm
  raster := h.raster.symm
  loader := h.loader.symm
  loaded := h.loaded.symm
  cycles := h.cycles.symm
  frameDone := h.frameDone.symm

lemma recoded (limits : Limits) (r : Recompiler τ β) (watch : IdleWatch) (stats : DispatchStats)
    (m : Machine τ β δ) : Alike m (m.recoded limits r watch stats) :=
  ⟨⟨limits, rfl⟩, rfl, rfl, rfl, rfl, rfl, rfl, rfl⟩

/-- Of two machines that are alike the second is the first with other translated code and other counts. -/
lemma exists_recoded (h : Alike m m') : ∃ limits r watch stats, m' = m.recoded limits r watch stats := by
  obtain ⟨⟨limits, hlimits⟩, hcpu, hboard, hraster, hloader, hloaded, hcycles, hframe⟩ := h
  obtain ⟨settings, cpu, board, raster, r, loader, loaded, cycles, watch, frame, stats⟩ := m'
  dsimp only at hlimits hcpu hboard hraster hloader hloaded hcycles hframe
  subst hlimits hcpu hboard hraster hloader hloaded hcycles hframe
  exact ⟨limits, r, watch, stats, rfl⟩

lemma stepDeadline (h : Alike m m') (limit : UInt64) : m'.stepDeadline limit = m.stepDeadline limit := by
  obtain ⟨limits, r, watch, stats, rfl⟩ := h.exists_recoded
  rfl

lemma minCharge (h : Alike m m') : m'.minCharge = m.minCharge := by
  obtain ⟨limits, r, watch, stats, rfl⟩ := h.exists_recoded
  rfl

lemma bootHook (h : Alike m m') : m'.settings.bootHook = m.settings.bootHook := by
  obtain ⟨limits, hlimits⟩ := h.settings
  rw [hlimits]

lemma chainLimit (h : Alike m m') : m'.settings.chainLimit = m.settings.chainLimit := by
  obtain ⟨limits, hlimits⟩ := h.settings
  rw [hlimits]

/-! ### Interrupts and events -/

lemma charge (h : Alike m m') (n : UInt64) : Alike (m.charge n) (m'.charge n) :=
  ⟨h.settings, h.cpu, h.board, h.raster, h.loader, h.loaded, congrArg (· + n) h.cycles, h.frameDone⟩

lemma syncInterrupts (P : Parts τ β δ) (h : Alike m m') : Alike (m.syncInterrupts P) (m'.syncInterrupts P) := by
  obtain ⟨limits, r, watch, stats, rfl⟩ := h.exists_recoded
  rw [Machine.syncInterrupts, Machine.syncInterrupts]
  dsimp only
  set y := { m.pollLines P with
    cpu := (m.pollLines P).cpu.setInterruptLine (m.pollLines P).board.io.interrupts.pending }
  -- whether an interrupt is taken depends on the processor and the board
  change Alike _ (if (m.pollLines P).board.io.interrupts.pending && y.cpu.interruptsEnabled then
    if y.handlerMissing then _ else _ else y.recoded limits r watch stats)
  split
  · split <;> exact .recoded limits r watch _ _
  · exact .recoded limits r watch stats y

lemma schedule (h : Alike m m') (k : EventKind) (deadline : UInt64) (c : Callback) :
    Alike (m.schedule k deadline c) (m'.schedule k deadline c) := by
  obtain ⟨limits, r, watch, stats, rfl⟩ := h.exists_recoded
  exact .recoded limits r watch stats (m.schedule k deadline c)

lemma endFrame (P : Parts τ β δ) (now : UInt64) (h : Alike m m') : Alike (m.endFrame P now) (m'.endFrame P now) := by
  obtain ⟨limits, r, watch, stats, rfl⟩ := h.exists_recoded
  exact .recoded limits r watch _ (m.endFrame P now)

lemma onBatch (P : Parts τ β δ) (now : UInt64) (h : Alike m m') : Alike (m.onBatch P now) (m'.onBatch P now) := by
  have hadvanced : Alike { m with raster := m.raster.advance now } { m' with raster := m.raster.advance now } :=
    ⟨h.settings, h.cpu, h.board, rfl, h.loader, h.loaded, h.cycles, h.frameDone⟩
  have hnext : ∀ {x y : Machine τ β δ}, Alike x y →
      Alike (x.schedule .hblank x.raster.deadline .batch) (y.schedule .hblank y.raster.deadline .batch) :=
    fun hxy => hxy.raster ▸ hxy.schedule .hblank _ _
  dsimp only [Machine.onBatch]
  rw [h.raster]
  split
  · exact hnext (hadvanced.endFrame P now)
  · exact hnext hadvanced

/-- An event does the same to machines that are alike. -/
lemma onEvent (P : Parts τ β δ) (now : UInt64) (c : Callback) (k : EventKind) (h : Alike m m') :
    Alike (m.onEvent P now c k) (m'.onEvent P now c k) := by
  cases c with
  | batch => exact h.onBatch P now
  | _ =>
    obtain ⟨limits, r, watch, stats, rfl⟩ := h.exists_recoded
    exact .recoded limits r watch stats (m.onEvent P now _ k)

lemma withEvents (s : Schedule) (h : Alike m m') : Alike (m.withEvents s) (m'.withEvents s) := by
  obtain ⟨limits, r, watch, stats, rfl⟩ := h.exists_recoded
  exact .recoded limits r watch stats (m.withEvents s)

lemma fireDue (P : Parts τ β δ) (now : UInt64) (h : Alike m m') : Alike (m.fireDue P now).2 (m'.fireDue P now).2 :=
  Schedule.dispatch_rel (R := Alike) (fun x y hxy => by rw [hxy.board])
    (fun c k x y hxy => (hxy.withEvents _).onEvent P now c k) now h

lemma dispatchEvents (P : Parts τ β δ) (h : Alike m m') : Alike (m.dispatchEvents P) (m'.dispatchEvents P) := by
  rw [Machine.dispatchEvents, Machine.dispatchEvents, h.board, h.cycles]
  split
  · split
    · apply syncInterrupts
      obtain ⟨hsettings, hcpu, hboard, hraster, hloader, hloaded, hcycles, hframe⟩ := h.fireDue P m.cycles
      exact ⟨hsettings, hcpu, hboard, hraster, hloader, hloaded, hcycles, hframe⟩
    · exact h
  · exact h

end Alike

/-! ### Loading and dropping code -/

/-- Dropping code that was written over empties the queue of dirty pages. -/
lemma alike_dropDirtyCode (m : Machine τ β δ) :
    Alike { m with board.memory := { m.memory with dirty := #[] } } m.dropDirtyCode := by
  rw [dropDirtyCode_eq]
  refine List.foldlRecOn (motive := Alike _) m.memory.dirty.toList _ (.refl _) fun x hx p _ => hx.trans ?_
  rw [dropPage, invalidate]
  dsimp only
  split <;> exact .recoded _ _ _ _ x

/-- A flush of the code takes all marks away. -/
lemma alike_flushCode (hflush : m.flushCode = .ok m') : Alike (m.mapMemory Memory.clearCodeMarks) m' := by
  obtain ⟨r, -, rfl⟩ := flushCode_eq_ok hflush
  exact .recoded _ r _ _ (m.mapMemory Memory.clearCodeMarks)

namespace Alike

lemma dropDirtyCode (h : Alike m m') : Alike m.dropDirtyCode m'.dropDirtyCode := by
  refine (alike_dropDirtyCode m).symm.trans (Alike.trans ?_ (alike_dropDirtyCode m'))
  obtain ⟨limits, r, watch, stats, rfl⟩ := h.exists_recoded
  exact .recoded limits r watch stats { m with board.memory := { m.memory with dirty := #[] } }

/-- The queued image does the same to machines that are alike. -/
lemma loadQueued (h : Alike m m') (hload : m.loadQueued = .ok x) (hload' : m'.loadQueued = .ok x') : Alike x x' := by
  dsimp only [Machine.loadQueued, memory] at hload hload'
  rw [h.loader, h.cpu, h.board] at hload'
  cases hqueued : m.loader with
  | none =>
    rw [hqueued] at hload hload'
    obtain rfl := Except.ok.inj hload
    obtain rfl := Except.ok.inj hload'
    exact ⟨h.settings, rfl, rfl, h.raster, rfl, rfl, h.cycles, h.frameDone⟩
  | some image =>
    rw [hqueued] at hload hload'
    dsimp only at hload hload'
    generalize Exe.install image m.cpu m.board.memory = installed at hload hload'
    obtain ⟨err | loaded, cpu, memory⟩ := installed
    · obtain rfl := Except.ok.inj hload
      obtain rfl := Except.ok.inj hload'
      exact ⟨h.settings, rfl, rfl, h.raster, rfl, rfl, h.cycles, h.frameDone⟩
    · refine (alike_flushCode hload).symm.trans (Alike.trans ?_ (alike_flushCode hload'))
      exact ⟨h.settings, rfl, rfl, h.raster, rfl, rfl, h.cycles, h.frameDone⟩

/-! ### Running a block -/

lemma misaligned (h : Alike m m') (pc : UInt32) : Alike (m.misaligned pc) (m'.misaligned pc) := by
  obtain ⟨limits, r, watch, stats, rfl⟩ := h.exists_recoded
  exact .recoded limits r watch _ (m.misaligned pc)

lemma chargeSpent (h : Alike m m') (budget left : Int32) :
    Alike (m.chargeSpent budget left) (m'.chargeSpent budget left) := by
  dsimp only [Machine.chargeSpent]
  split
  · exact h.charge _
  · rw [h.minCharge]
    apply charge
    exact ⟨h.settings, h.cpu, h.board, h.raster, h.loader, h.loaded, h.cycles, h.frameDone⟩

lemma resumeAborted (h : Alike m m') (e e' : Entry β) : Alike (m.resumeAborted e) (m'.resumeAborted e') := by
  rw [Machine.resumeAborted, Machine.resumeAborted, h.cpu]
  split
  · exact h
  · exact ⟨h.settings, rfl, h.board, h.raster, h.loader, h.loaded, h.cycles, h.frameDone⟩

/-- How a dispatch ends does not depend on the entry of its block. -/
lemma settle (h : Alike m m') (e e' : Entry β) (budget : Int32) (r : Returned (Board δ)) :
    Alike (m.settle e budget r) (m'.settle e' budget r) := by
  apply chargeSpent
  apply resumeAborted
  exact ⟨h.settings, rfl, rfl, h.raster, h.loader, h.loaded, h.cycles, h.frameDone⟩

end Alike

end

/-- Without links to spend blocks of the same plan do the same. -/
lemma Alike.runBlock {δ : Type} {hw : Hardware δ} {m m' : Machine TranslatorStats Block δ} (hhw : hw.Blind)
    (hooks : Hooks δ) (h : Alike m m') (hlinks : m.settings.chainLimit = 0) {e e' : Entry Block}
    (hplan : e'.code.plan = e.code.plan) (deadline : UInt64) :
    Alike (m.runBlock (.standard hw hooks) e deadline) (m'.runBlock (.standard hw hooks) e' deadline) := by
  have hbudget : m'.budget deadline = m.budget deadline := by rw [budget, budget, h.cycles]
  have hchain : m'.chain (.standard hw hooks) e' (m.budget deadline) 0 =
      m.chain (.standard hw hooks) e (m.budget deadline) 0 := by
    rw [chain, chain, h.board, armedWith, armed, h.cpu, h.cycles]
    exact Chain.run_unlinked (Board.blind_serve hhw m.cycles) hplan _ _ _ rfl m.board
  rw [runBlock_eq_settle, runBlock_eq_settle, h.chainLimit, hlinks, hbudget, hchain]
  exact h.settle ..

end Machine

end R3000
