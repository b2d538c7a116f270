import Mathlib
import R3000.Proofs.Chains.Carried
import R3000.Proofs.Machine.VideoEvents

/-!
# Devices that count frames

A count beside the state of the devices goes up whenever they are told that a frame is done.  Neither they nor the
hooks nor the machine see it.  So a machine runs with the count as without it, and the count goes along with the
frames that the machine counts.
-/

namespace R3000

variable {δ ε : Type}

/-- The devices beside a count of the frames that they are told of. -/
def Hardware.tallied (hw : Hardware δ) : Hardware (Int × δ) where
  read now addr w d := (hw.read now addr w d.2).map (d.1, ·)
  write now addr v w d := (hw.write now addr v w d.2).map (d.1, ·)
  reset now d := (hw.reset now d.2).map (d.1, ·)
  onEvent now k d := (hw.onEvent now k d.2).map (d.1, ·)
  onFrame now d := (hw.onFrame now d.2).map (d.1 + 1, ·)
  onBlank now d := (hw.onBlank now d.2).map (d.1, ·)
  poll now d := ((hw.poll now d.2).1, (d.1, (hw.poll now d.2).2))
  cop2 word c d := ((hw.cop2 word c d.2).1, (d.1, (hw.cop2 word c d.2).2))

/-- The hooks for devices with a count. -/
def Hooks.tallied (hooks : Hooks δ) : Hooks (Int × δ) where
  intercept vector c memory d :=
    let (handled, c, memory, device) := hooks.intercept vector c memory d.2
    (handled, c, memory, (d.1, device))

/-- The parts of a machine whose devices have a count. -/
abbrev Parts.tallied (hw : Hardware δ) (hooks : Hooks δ) : Parts TranslatorStats Block (Int × δ) :=
  .standard hw.tallied hooks.tallied

/-! ### Behind the device window -/

namespace Io

/-- Other devices behind the window. -/
def mapDevice (f : δ → ε) (io : Io δ) : Io ε := ⟨io.interrupts, io.schedule, f io.device⟩

lemma grant_mapDevice (f : δ → ε) (io : Io δ) (r : Request) :
    (io.mapDevice f).grant r = (io.grant r).mapDevice f := by
  cases r with
  | schedule k deadline | cancel k =>
    rw [grant, grant]
    split <;> rfl
  | signal number => rfl

lemma accept_mapDevice (f : δ → ε) (io : Io δ) (r : Response δ) :
    (io.mapDevice f).accept (r.map f) = (io.accept r).mapDevice f := by
  change r.requests.foldl grant (mapDevice f { io with device := r.device }) = _
  exact List.foldl_hom (mapDevice f) fun io request => grant_mapDevice f io request

end Io

/-- No access and no command sees the count. -/
lemma Hardware.carries_tallied (hw : Hardware δ) (now : UInt64) (k : Int) :
    hw.Carries now hw.tallied now (Io.mapDevice (k, ·)) where
  read addr w io := by
    dsimp only [Io.window]
    split
    · rfl
    · exact Prod.ext rfl (Io.accept_mapDevice _ io _)
  write addr v w io := by
    dsimp only [Io.window]
    split
    · rfl
    · exact Io.accept_mapDevice _ io _
  cop2 _ _ _ := ⟨rfl, rfl⟩

namespace Machine

variable {τ β : Type} {hw : Hardware δ} {hooks : Hooks δ}

/-- The machine with a count beside its devices. -/
def counting (k : Int) (m : Machine τ β δ) : Machine τ β (Int × δ) :=
  { m with board := m.board.mapIo (Io.mapDevice (k, ·)) }

/-- The machine with a count that is some frames ahead of its own. -/
def tallying (n : Int) (m : Machine τ β δ) : Machine τ β (Int × δ) := m.counting (m.stats.frames + n)

section

variable (n : Int) (m : Machine τ β δ)

@[simp] lemma tallying_settings : (m.tallying n).settings = m.settings := rfl

@[simp] lemma tallying_cpu : (m.tallying n).cpu = m.cpu := rfl

@[simp] lemma tallying_memory : (m.tallying n).memory = m.memory := rfl

@[simp] lemma tallying_raster : (m.tallying n).raster = m.raster := rfl

@[simp] lemma tallying_recompiler : (m.tallying n).recompiler = m.recompiler := rfl

@[simp] lemma tallying_loader : (m.tallying n).loader = m.loader := rfl

@[simp] lemma tallying_loaded : (m.tallying n).loaded = m.loaded := rfl

@[simp] lemma tallying_cycles : (m.tallying n).cycles = m.cycles := rfl

@[simp] lemma tallying_frameDone : (m.tallying n).frameDone = m.frameDone := rfl

end

variable (n : Int) (m : Machine TranslatorStats Block δ)

/-! ### Passes -/

lemma findBlock_tallying (pc : UInt32) : (m.tallying n).findBlock (.tallied hw hooks) pc =
    (m.findBlock (.standard hw hooks) pc).map id (tallying n) := by
  rw [findBlock, findBlock, tallying_recompiler, tallying_memory]
  cases m.recompiler.cache.resident? pc with
  | some e => rfl
  | none =>
    dsimp only [Parts.tallied, Parts.standard]
    rcases m.recompiler.resolve (.standard true Translator.functionVectors) m.memory.source pc with
      ⟨err | (e | e | err), r⟩
    all_goals rfl

lemma resumeAborted_tallying (e : Entry Block) :
    (m.tallying n).resumeAborted e = (m.resumeAborted e).tallying n := by
  rw [resumeAborted, resumeAborted, tallying_cpu]
  rcases m.cpu.takeAbort with ⟨_ | resume, cpu⟩ <;> rfl

lemma chargeSpent_tallying (budget left : Int32) :
    (m.tallying n).chargeSpent budget left = (m.chargeSpent budget left).tallying n := by
  dsimp only [chargeSpent]
  split <;> rfl

lemma runBlock_tallying (e : Entry Block) (deadline : UInt64) :
    (m.tallying n).runBlock (.tallied hw hooks) e deadline =
      (m.runBlock (.standard hw hooks) e deadline).tallying n := by
  have hchain : (m.tallying n).chain (.tallied hw hooks) e (m.budget deadline)
      m.settings.chainLimit = (m.chain (.standard hw hooks) e (m.budget deadline) m.settings.chainLimit).map
        (Board.mapIo (Io.mapDevice (m.stats.frames + n, ·))) :=
    Board.run_mapIo (hw.carries_tallied m.cycles _) rfl e.code (m.budget deadline) _ m.board
  rw [runBlock_eq_settle, runBlock_eq_settle]
  change (m.tallying n).settle e (m.budget deadline)
    ((m.tallying n).chain (.tallied hw hooks) e (m.budget deadline) m.settings.chainLimit) = _
  rw [hchain, settle, settle, ← chargeSpent_tallying, ← resumeAborted_tallying]
  rfl

lemma invalidate_tallying (addr len : UInt32) :
    ((m.tallying n).invalidate addr len).2 = (m.invalidate addr len).2.tallying n := by
  dsimp only [invalidate]
  split <;> rfl

lemma dropDirtyCode_tallying : (m.tallying n).dropDirtyCode = m.dropDirtyCode.tallying n := by
  have hpage : ∀ (x : Machine TranslatorStats Block δ) p, (x.tallying n).dropPage p = (x.dropPage p).tallying n := by
    intro x p
    rw [dropPage, dropPage]
    dsimp only
    rw [invalidate_tallying]
    rfl
  rw [dropDirtyCode_eq, dropDirtyCode_eq, ← List.foldl_hom (tallying n) fun x p => hpage x p]
  rfl

lemma syncInterrupts_tallying : (m.tallying n).syncInterrupts (.tallied hw hooks) =
    (m.syncInterrupts (.standard hw hooks)).tallying n := by
  have hpoll : (m.tallying n).pollLines (.tallied hw hooks) =
      (m.pollLines (.standard hw hooks)).tallying n := rfl
  dsimp only [syncInterrupts]
  rw [hpoll, apply_ite (tallying n), apply_ite (tallying n)]
  rfl

lemma fastForward_tallying (e : Entry Block) (deadline : UInt64) :
    (m.tallying n).fastForward e deadline = (m.fastForward e deadline).map id (tallying n) := by
  dsimp only [fastForward]
  rw [apply_ite (Prod.map id (tallying n)), apply_ite (Prod.map id (tallying n))]
  rfl

lemma runPass_tallying (deadline : UInt64) (pc : UInt32) :
    (m.tallying n).runPass (.tallied hw hooks) deadline pc =
      (m.runPass (.standard hw hooks) deadline pc).map id (tallying n) := by
  rw [runPass, runPass, findBlock_tallying]
  rcases m.findBlock (.standard hw hooks) pc with ⟨err | _ | e, x⟩
  · rfl
  · rfl
  · dsimp only [Prod.map, id]
    rw [runBlock_tallying, dropDirtyCode_tallying, syncInterrupts_tallying, fastForward_tallying]
    let ran := (x.runBlock (.standard hw hooks) e deadline).dropDirtyCode.syncInterrupts (.standard hw hooks)
    rcases ran.fastForward e deadline with ⟨_ | _, y⟩ <;> rfl

lemma loadQueued_tallying : (m.tallying n).loadQueued = m.loadQueued.map (tallying n) := by
  dsimp only [loadQueued]
  rw [tallying_loader]
  cases m.loader with
  | none => rfl
  | some image =>
    dsimp only [memory, tallying, counting, Board.mapIo]
    rcases Exe.install image m.cpu m.board.memory with ⟨err | started, cpu, memory⟩
    · rfl
    · dsimp only [flushCode]
      cases m.recompiler.flush <;> rfl

lemma intercept_tallying (pc : UInt32) : (m.tallying n).intercept (.tallied hw hooks) pc =
    (m.intercept (.standard hw hooks) pc).map id (tallying n) := by
  dsimp only [intercept]
  split
  · rw [apply_ite (Prod.map id (tallying n))]
    rfl
  · rfl

/-- A pass runs with the count as without it. -/
lemma pass_tallying (deadline : UInt64) : (m.tallying n).pass (.tallied hw hooks) deadline =
    (m.pass (.standard hw hooks) deadline).map id (tallying n) := by
  rw [pass, pass, tallying_cpu, tallying_loaded, tallying_settings, loadQueued_tallying, intercept_tallying]
  by_cases hload : (!m.loaded && m.cpu.pc == m.settings.bootHook) = true
  · rw [if_pos hload, if_pos hload]
    cases m.loadQueued <;> rfl
  · rw [if_neg hload, if_neg hload]
    rcases m.intercept (.standard hw hooks) m.cpu.pc with ⟨_ | _, x⟩
    · dsimp only [Prod.map, id]
      rw [runPass_tallying]
      split <;> rfl
    · dsimp only [Prod.map, id]
      rw [← syncInterrupts_tallying]
      rfl

lemma passes_tallying (deadline : UInt64) (fuel : Nat) :
    (m.tallying n).passes (.tallied hw hooks) deadline fuel =
      (m.passes (.standard hw hooks) deadline fuel).map id (tallying n) := by
  induction fuel generalizing m with
  | zero => rfl
  | succ fuel ih =>
    rw [passes, passes, pass_tallying, tallying_cycles]
    split
    · rcases m.pass (.standard hw hooks) deadline with ⟨_ | _ | err, x⟩
      · exact ih x
      · rfl
      · rfl
    · rfl

/-! ### Events -/

/-- A response that moves the count moves it, and is else taken as without the count. -/
lemma respond_counting (k : Int) (f : δ → Response δ) (move : Int → Int) :
    (m.counting k).respond (fun d => (f d.2).map (move d.1, ·)) = (m.respond f).counting (move k) :=
  congrArg (fun io : Io (Int × δ) => { m.counting k with board := ⟨m.memory, io⟩ })
    (Io.accept_mapDevice (move k, ·) m.board.io (f m.device))

/-- The count goes up with the frames of the machine. -/
lemma endFrame_tallying (now : UInt64) : (m.tallying n).endFrame (.tallied hw hooks) now =
    (m.endFrame (.standard hw hooks) now).tallying n := by
  let raised := m.mapIo fun io => { io with interrupts := io.interrupts.raise .vblank }
  let told := raised.respond (hw.onFrame now)
  let done (x : Machine TranslatorStats Block (Int × δ)) : Machine TranslatorStats Block (Int × δ) :=
    { x with frameDone := true, stats.frames := x.stats.frames + 1 }
  have hcount : (m.stats.frames + n + 1 : Int) = (m.stats.frames + 1 : Nat) + n := by omega
  calc (m.tallying n).endFrame (.tallied hw hooks) now
    _ = done (told.counting (m.stats.frames + n + 1)) :=
      congrArg done (respond_counting raised (m.stats.frames + n) (hw.onFrame now) (· + 1))
    _ = (m.endFrame (.standard hw hooks) now).tallying n := congrArg (fun k => done (told.counting k)) hcount

lemma onEvent_tallying (now : UInt64) (c : Callback) (k : EventKind) :
    (m.tallying n).onEvent (.tallied hw hooks) now c k =
      (m.onEvent (.standard hw hooks) now c k).tallying n := by
  have hschedule : ∀ (x : Machine TranslatorStats Block δ) k deadline c,
      (x.tallying n).schedule k deadline c = (x.schedule k deadline c).tallying n := fun _ _ _ _ => rfl
  have hrespond : ∀ f, (m.tallying n).respond (fun d => (f d.2).map (d.1, ·)) = (m.respond f).tallying n :=
    fun f => respond_counting m (m.stats.frames + n) f id
  cases c with
  | batch =>
    let advanced := { m with raster := m.raster.advance now }
    have hframe : (advanced.tallying n).endFrame (.tallied hw hooks) now =
        (advanced.endFrame (.standard hw hooks) now).tallying n := endFrame_tallying n advanced now
    rw [onEvent, onEvent, onBatch, onBatch, tallying_raster]
    split
    · rw [← hschedule, ← hframe]
      rfl
    · rfl
  | blank =>
    rw [onEvent, onEvent, onBlank, onBlank, ← hschedule, ← hrespond]
    rfl
  | device => exact hrespond _

/-- Firing what is due goes with the count as without it. -/
lemma fireDue_tallying (now : UInt64) : (m.tallying n).fireDue (.tallied hw hooks) now =
    (m.fireDue (.standard hw hooks) now).map id (tallying n) := by
  have hfuel : ∀ mark fuel (x : Machine TranslatorStats Block δ),
      Schedule.fireBefore events withEvents (onEvent (.tallied hw hooks) now) now mark fuel
          (x.tallying n) =
        (Schedule.fireBefore events withEvents (onEvent (.standard hw hooks) now) now mark fuel x).map id
          (tallying n) := by
    intro mark fuel
    induction fuel with
    | zero => exact fun _ => rfl
    | succ fuel ih =>
      intro x
      rw [Schedule.fireBefore, Schedule.fireBefore, show events (x.tallying n) = x.events from rfl]
      cases x.events.due now mark with
      | none => rfl
      | some due =>
        obtain ⟨k, p⟩ := due
        dsimp only
        rw [show withEvents (x.events.erase k) (x.tallying n) = (x.withEvents (x.events.erase k)).tallying n from rfl,
          onEvent_tallying, ih]
        rfl
  exact hfuel _ _ m

lemma dispatchEvents_tallying : (m.tallying n).dispatchEvents (.tallied hw hooks) =
    (m.dispatchEvents (.standard hw hooks)).tallying n := by
  dsimp only [dispatchEvents, tallying_cycles]
  rw [fireDue_tallying, show (m.tallying n).board.io.schedule = m.board.io.schedule from rfl]
  cases m.board.io.schedule.nextDeadline with
  | none => rfl
  | some next =>
    dsimp only
    rw [apply_ite (tallying n), ← syncInterrupts_tallying]
    rfl

/-! ### Steps and runs -/

lemma stepUpTo_tallying (limit : UInt64) : (m.tallying n).stepUpTo (.tallied hw hooks) limit =
    (m.stepUpTo (.standard hw hooks) limit).map id (tallying n) := by
  have hexecute : (m.tallying n).execute (.tallied hw hooks) (m.stepDeadline limit) =
      (m.execute (.standard hw hooks) (m.stepDeadline limit)).map id (tallying n) := passes_tallying n m _ _
  rw [stepUpTo, stepUpTo, show (m.tallying n).stepDeadline limit = m.stepDeadline limit from rfl, hexecute]
  rcases m.execute (.standard hw hooks) (m.stepDeadline limit) with ⟨_ | err, x⟩
  · dsimp only [Prod.map, id]
    rw [dispatchEvents_tallying]
  · rfl

/-- A run of a frame goes with the count as without it. -/
theorem runFrame_tallying (fuel : Nat) : (m.tallying n).runFrame (.tallied hw hooks) fuel =
    (m.runFrame (.standard hw hooks) fuel).map id (tallying n) := by
  have hfuel : ∀ x : Machine TranslatorStats Block δ,
      (x.tallying n).stepWhile (.tallied hw hooks) Schedule.never (fun m => !m.frameDone) fuel =
        (x.stepWhile (.standard hw hooks) Schedule.never (fun m => !m.frameDone) fuel).map id (tallying n) := by
    induction fuel with
    | zero =>
      intro x
      rw [stepWhile, stepWhile, tallying_frameDone]
      rfl
    | succ fuel ih =>
      intro x
      rw [stepWhile, stepWhile, tallying_frameDone, stepUpTo_tallying]
      split
      · rcases x.stepUpTo (.standard hw hooks) Schedule.never with ⟨_ | err, y⟩
        · exact ih y
        · rfl
      · rfl
  exact hfuel { m with frameDone := false }

end Machine

end R3000
