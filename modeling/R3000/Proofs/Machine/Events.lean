import Mathlib
import R3000.Proofs.Events.Requests
import R3000.Proofs.Machine.Overrun

/-!
# Events of a machine

A pass of the dispatcher changes the pending events only as the devices ask, and not the raster; firing adds
and drops events.  So a reached machine knows its soonest deadline, and a step works towards no later cycle
than that.
-/

namespace R3000.Machine

section

variable {τ β δ : Type} {P : Parts τ β δ} {m m' : Machine τ β δ} {now : UInt64}

/-- The pending events of a machine. -/
abbrev events (m : Machine τ β δ) : Schedule := m.board.io.schedule

/-- The machine with other pending events. -/
def withEvents (s : Schedule) (m : Machine τ β δ) : Machine τ β δ :=
  m.mapIo fun io => { io with schedule := s }

/-! ### Firing -/

lemma schedule_respond {J : Schedule → Prop} (hJ : Schedule.Granted J) (f : δ → Response δ)
    (h : J m.board.io.schedule) : J (m.respond f).board.io.schedule :=
  Io.schedule_accept hJ _ h

/-- An event other than a batch leaves the raster and the pending batch alone. -/
lemma onEvent_of_ne (P : Parts τ β δ) (now : UInt64) {c : Callback} (hc : c ≠ .batch) (k : EventKind)
    (m : Machine τ β δ) :
    (m.onEvent P now c k).raster = m.raster ∧
      m.board.io.schedule.Follows (m.onEvent P now c k).board.io.schedule ∧
        (m.onEvent P now c k).board.io.schedule.get? .hblank = m.board.io.schedule.get? .hblank := by
  have hrespond : ∀ f : δ → Response δ,
      m.board.io.schedule.Follows (m.respond f).board.io.schedule ∧
        (m.respond f).board.io.schedule.get? .hblank = m.board.io.schedule.get? .hblank := by
    intro f
    apply schedule_respond (Schedule.granted_and (Schedule.granted_follows _) (Schedule.granted_video rfl _))
    exact ⟨.refl _, rfl⟩
  cases c with
  | batch => exact absurd rfl hc
  | blank =>
    obtain ⟨hfollows, hsame⟩ := hrespond (P.hardware.onBlank now)
    refine ⟨rfl, hfollows.trans (.add ..), ?_⟩
    exact (Schedule.get?_add ..).trans hsame
  | device => exact ⟨rfl, hrespond _⟩

/-- A batch advances the raster, and the next one is pending. -/
lemma onEvent_batch (P : Parts τ β δ) (now : UInt64) (k : EventKind) (m : Machine τ β δ) :
    (m.onEvent P now .batch k).raster = m.raster.advance now ∧
      m.board.io.schedule.Follows (m.onEvent P now .batch k).board.io.schedule ∧
        ∃ age ≥ m.board.io.schedule.nextAge,
          (m.onEvent P now .batch k).board.io.schedule.get? .hblank =
            some ⟨(m.raster.advance now).deadline, age, .batch⟩ := by
  have hframe : ∀ x : Machine τ β δ,
      x.board.io.schedule.Follows (x.endFrame P now).board.io.schedule :=
    fun x => schedule_respond (Schedule.granted_follows _) _ (.refl _)
  have hadd : ∀ x : Machine τ β δ, x.raster = m.raster.advance now →
      m.board.io.schedule.Follows x.board.io.schedule →
        (x.schedule .hblank x.raster.deadline .batch).raster = m.raster.advance now ∧
          m.board.io.schedule.Follows (x.schedule .hblank x.raster.deadline .batch).board.io.schedule ∧
            ∃ age ≥ m.board.io.schedule.nextAge,
              (x.schedule .hblank x.raster.deadline .batch).board.io.schedule.get? .hblank =
                some ⟨(m.raster.advance now).deadline, age, .batch⟩ := by
    intro x hx hfollows
    refine ⟨hx, hfollows.trans (.add ..), x.board.io.schedule.nextAge, hfollows.nextAge, ?_⟩
    rw [← hx]
    exact Schedule.get?_add ..
  dsimp only [onEvent, onBatch]
  split
  · exact hadd _ rfl (hframe { m with raster := m.raster.advance now })
  · exact hadd _ rfl (.refl _)

lemma follows_onEvent (P : Parts τ β δ) (now : UInt64) (c : Callback) (k : EventKind) (m : Machine τ β δ) :
    m.board.io.schedule.Follows (m.onEvent P now c k).board.io.schedule := by
  by_cases hc : c = .batch
  · subst hc
    exact (onEvent_batch P now k m).2.1
  · exact (onEvent_of_ne P now hc k m).2.1

/-- An event that fires schedules each kind with its own callback. -/
lemma routed_onEvent (P : Parts τ β δ) (now : UInt64) (c : Callback) (k : EventKind) (h : m.events.Routed) :
    (m.onEvent P now c k).events.Routed := by
  have hrespond : ∀ (f : δ → Response δ) (x : Machine τ β δ), x.events.Routed → (x.respond f).events.Routed :=
    fun f x hx => schedule_respond Schedule.granted_routed f hx
  cases c with
  | batch =>
    let advanced := { m with raster := m.raster.advance now }
    have hframe : (advanced.endFrame P now).events.Routed := hrespond (P.hardware.onFrame now) _ h
    dsimp only [onEvent, onBatch]
    split
    · exact hframe.add rfl _
    · exact h.add rfl _
  | blank => exact (hrespond (P.hardware.onBlank now) m h).add rfl _
  | device => exact hrespond _ m h

lemma cycles_dispatchEvents (P : Parts τ β δ) (m : Machine τ β δ) :
    (m.dispatchEvents P).cycles = m.cycles := by
  have hevent : ∀ now c k (x : Machine τ β δ), (x.onEvent P now c k).cycles = x.cycles := by
    intro now c k x
    cases c with
    | batch =>
      dsimp only [onEvent, onBatch]
      split <;> rfl
    | _ => rfl
  apply dispatchEvents_keeps (I := fun x : Machine τ β δ => x.cycles = m.cycles)
  · exact fun _ x hx => hx
  · exact fun now c k x hx => (hevent now c k x).trans hx
  · exact fun stats x hx => (still_syncInterrupts P { x with stats }).cycles.trans hx
  · rfl

/-- A dispatch of the events adds and drops events. -/
lemma follows_dispatchEvents (P : Parts τ β δ) (m : Machine τ β δ) :
    m.events.Follows (m.dispatchEvents P).events := by
  have hfired : m.events.Follows (m.fireDue P m.cycles).2.events :=
    Schedule.follows_dispatch (fun _ _ => rfl) (follows_onEvent P m.cycles) m
  rw [Machine.dispatchEvents]
  split
  · split
    · exact hfired.congr (still_syncInterrupts P _).schedule
    · exact .refl _
  · exact .refl _

lemma tidy_powerOn (P : Parts τ β δ) (m : Machine τ β δ) : (powerOn P m).events.Tidy := by
  apply schedule_respond Schedule.granted_tidy
  exact ((Schedule.Tidy.clear _).add ..).add ..

/-! ### Deadlines of steps -/

/-- A step works towards no later cycle than any event is due. -/
lemma stepDeadline_le (h : m.events.Tidy) {k : EventKind} {p : Pending} (hp : m.events.get? k = some p)
    (limit : UInt64) : m.stepDeadline limit ≤ p.deadline := by
  have hsoonest := h.soonest_le hp
  have hmin : ∀ a b : UInt64, min a b ≤ a := by
    intro a b
    rw [UInt64.le_iff_toNat_le, UInt64.toNat_min]
    exact min_le_left ..
  refine UInt64.le_trans (hmin _ _) ?_
  rw [Schedule.nextDeadline]
  split
  · rename_i hnever
    -- the event never comes, and nothing is later than that
    have hsoonest' : m.events.soonest ≤ p.deadline := hsoonest
    rw [show m.events.soonest = Schedule.never from hnever] at hsoonest'
    exact UInt64.le_trans (Schedule.le_never _) hsoonest'
  · exact hsoonest

end

/-! ### Passes -/

variable {δ : Type} {hw : Hardware δ} {hooks : Hooks δ} {m m' m₀ : Machine TranslatorStats Block δ}
  {J : Schedule → Prop}

/-- The raster is as before, and a property of the events still holds. -/
structure Undisturbed (J : Schedule → Prop) (m m' : Machine TranslatorStats Block δ) : Prop where
  raster : m'.raster = m.raster
  events : J m.events → J m'.events

lemma Undisturbed.trans {m'' : Machine TranslatorStats Block δ} (h : Undisturbed J m m')
    (h' : Undisturbed J m' m'') : Undisturbed J m m'' :=
  ⟨h'.raster.trans h.raster, fun hJ => h'.events (h.events hJ)⟩

lemma Still.undisturbed (h : Still m m') : Undisturbed J m m' :=
  ⟨h.raster, fun hJ => (show m'.events = m.events from h.schedule) ▸ hJ⟩

lemma undisturbed_runBlock (hJ : hw.Keeps J) (hooks : Hooks δ) (e : Entry Block) (deadline : UInt64)
    (m : Machine TranslatorStats Block δ) : Undisturbed J m (m.runBlock (.standard hw hooks) e deadline) where
  raster := by
    rw [runBlock, chargeSpent, resumeAborted]
    dsimp only
    split <;> split <;> rfl
  events h := by
    rw [events, board_runBlock]
    exact Board.schedule_run hw m.cycles hJ m.recompiler.store e.code (m.budget deadline)
      (m.armed (m.budget deadline)) h

lemma undisturbed_fastForward (e : Entry Block) (deadline : UInt64) (m : Machine TranslatorStats Block δ) :
    Undisturbed J m (m.fastForward e deadline).2 := by
  rw [fastForward]
  dsimp only
  split
  · exact ⟨rfl, id⟩
  · split <;> exact ⟨rfl, id⟩

/-- What a dispatch of a block does before the slice may be skipped. -/
lemma undisturbed_settled (hJ : hw.Keeps J) (hooks : Hooks δ) (e : Entry Block) (deadline : UInt64)
    (m : Machine TranslatorStats Block δ) :
    Undisturbed J m ((m.runBlock (.standard hw hooks) e deadline).dropDirtyCode.syncInterrupts
      (.standard hw hooks)) :=
  ((undisturbed_runBlock hJ hooks e deadline m).trans (still_dropDirtyCode _).undisturbed).trans
    (still_syncInterrupts _ _).undisturbed

lemma undisturbed_runPass (hJ : hw.Keeps J) (hooks : Hooks δ) (deadline : UInt64) (pc : UInt32)
    (m : Machine TranslatorStats Block δ) :
    Undisturbed J m (m.runPass (.standard hw hooks) deadline pc).2 := by
  have hfind : Undisturbed J m _ := (still_findBlock (.standard hw hooks) pc m).undisturbed
  rw [runPass]
  split <;> rename_i heq <;> rw [heq] at hfind
  · exact hfind
  · exact ⟨hfind.raster, hfind.events⟩
  · rename_i e x
    have hran := hfind.trans (undisturbed_settled hJ hooks e deadline x)
    have hforward := hran.trans (undisturbed_fastForward e deadline _)
    dsimp only
    split <;> rename_i heq <;> rw [heq] at hforward <;> exact hforward

/-- A pass changes the events only as the devices ask. -/
theorem undisturbed_pass (hJ : hw.Keeps J) (hooks : Hooks δ) (deadline : UInt64)
    (m : Machine TranslatorStats Block δ) :
    Undisturbed J m (m.pass (.standard hw hooks) deadline).2 := by
  dsimp only [pass]
  split
  · split
    · rename_i heq
      exact (still_loadQueued heq).undisturbed
    · exact ⟨rfl, id⟩
  · have hintercept : Undisturbed J m _ := (still_intercept (.standard hw hooks) m.cpu.pc m).undisturbed
    split <;> rename_i x heq <;> rw [heq] at hintercept
    · have hcharged : Undisturbed J m (x.charge x.minCharge) := ⟨hintercept.raster, hintercept.events⟩
      exact hcharged.trans (still_syncInterrupts (.standard hw hooks) _).undisturbed
    · split
      · exact hintercept.trans (undisturbed_runPass hJ hooks deadline m.cpu.pc x)
      · exact ⟨hintercept.raster, hintercept.events⟩

/-- A machine that knows its soonest deadline goes on to do so. -/
lemma invariant_tidy (hw : Hardware δ) (hooks : Hooks δ) :
    Invariant (.standard hw hooks) fun m : Machine TranslatorStats Block δ => m.events.Tidy where
  pass m deadline h := (undisturbed_pass (Schedule.granted_tidy.keeps hw) hooks deadline m).events h
  dispatchEvents m h := (follows_dispatchEvents _ m).tidy h
  newFrame _ h := h
  reset m m' _ hreset := by
    obtain ⟨flushed, -, rfl⟩ := reset_eq_ok hreset
    exact tidy_powerOn _ flushed
  flushCode _ _ h hflush := (still_flushCode hflush).undisturbed.events h
  invalidate m addr len h := (still_invalidate m addr len).undisturbed.events h
  queue _ _ h := h
  resetStats _ h := h

lemma tidy_ofTranslator {P : Parts TranslatorStats Block δ} {settings : Settings} {bios : ByteArray}
    {device : δ} (h : ofTranslator P settings bios device {} = .ok m₀) : m₀.events.Tidy := by
  obtain ⟨r, -, rfl⟩ := ofTranslator_eq_ok h
  exact tidy_powerOn P _

end R3000.Machine
