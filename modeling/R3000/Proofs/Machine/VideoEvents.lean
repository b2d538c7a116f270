import Mathlib
import R3000.Proofs.Events.Dispatch
import R3000.Proofs.Machine.Owned
import R3000.Proofs.Machine.VideoTiming

/-!
# Video events and devices

Whatever the devices ask for, and wherever they are called from, the two video events stay pending, the batch at
the deadline of the raster.  So a step always has an event to work towards.  The devices hear of every event that
fires and is not a video event, under its own kind, and of no video event.
-/

namespace R3000

namespace Schedule

/-- Requests add and drop events. -/
lemma granted_edited (s : Schedule) : Granted s.Edited where
  add _ k deadline _ h := h.add k deadline .device
  erase _ k _ h := h.erase k

section

variable {σ : Type} {get : σ → Schedule} {put : Schedule → σ → σ} {call : Callback → EventKind → σ → σ}
variable {now : UInt64} {k : EventKind} {p : Pending} {x : σ}

lemma fired_eq_nil (h : (get x).due now (get x).nextAge = none) : fired get put call now x = [] := by
  rw [fired, show EventKind.all.length = 8 + 1 from rfl, firedBefore, h]

lemma fired_eq_singleton (h : (get x).due now (get x).nextAge = some (k, p))
    (hrest : (get (call p.callback k (put ((get x).erase k) x))).due now (get x).nextAge = none) :
    fired get put call now x = [k] := by
  rw [fired, show EventKind.all.length = 7 + 1 + 1 from rfl, firedBefore, h]
  dsimp only
  rw [firedBefore, hrest]

end

end Schedule

/-! ### What the devices hear -/

section

variable {δ ε : Type}

/-- The response of a part of larger devices. -/
def Response.map (f : δ → ε) (r : Response δ) : Response ε := ⟨r.value, f r.device, r.requests⟩

lemma Io.device_grant (io : Io δ) (r : Request) : (io.grant r).device = io.device := by
  cases r with
  | schedule k deadline | cancel k =>
    rw [grant]
    split <;> rfl
  | signal number => rfl

/-- A response leaves the devices as it says, whatever they ask for. -/
lemma Io.device_accept (io : Io δ) (r : Response δ) : (io.accept r).device = r.device := by
  rw [accept]
  refine List.foldlRecOn (motive := fun io : Io δ => io.device = r.device) r.requests _ rfl ?_
  intro io hio request _
  exact (device_grant io request).trans hio

namespace Hardware

/-- The devices keep a log of the events that they are told of. -/
structure Hears (hw : Hardware δ) (log : δ → List EventKind) : Prop where
  event : ∀ now k d, log (hw.onEvent now k d).device = log d ++ [k]
  frame : ∀ now d, log (hw.onFrame now d).device = log d
  blank : ∀ now d, log (hw.onBlank now d).device = log d
  poll : ∀ now d, log (hw.poll now d).2 = log d

/-- The devices beside a log of the events that they are told of. -/
def heard (hw : Hardware δ) : Hardware (List EventKind × δ) where
  read now addr w d := (hw.read now addr w d.2).map (d.1, ·)
  write now addr v w d := (hw.write now addr v w d.2).map (d.1, ·)
  reset now d := (hw.reset now d.2).map (d.1, ·)
  onEvent now k d := (hw.onEvent now k d.2).map (d.1 ++ [k], ·)
  onFrame now d := (hw.onFrame now d.2).map (d.1, ·)
  onBlank now d := (hw.onBlank now d.2).map (d.1, ·)
  poll now d := ((hw.poll now d.2).1, (d.1, (hw.poll now d.2).2))
  cop2 word c d := ((hw.cop2 word c d.2).1, (d.1, (hw.cop2 word c d.2).2))

lemma hears_heard (hw : Hardware δ) : hw.heard.Hears Prod.fst where
  event _ _ _ := rfl
  frame _ _ := rfl
  blank _ _ := rfl
  poll _ _ := rfl

end Hardware

end

namespace Machine

variable {τ β δ : Type} {P : Parts τ β δ} {m m' : Machine τ β δ} {log : δ → List EventKind}

/-- The devices of a machine. -/
abbrev device (m : Machine τ β δ) : δ := m.board.io.device

lemma device_respond (f : δ → Response δ) (m : Machine τ β δ) : (m.respond f).device = (f m.device).device :=
  Io.device_accept _ _

lemma log_syncInterrupts (hears : P.hardware.Hears log) (m : Machine τ β δ) :
    log (m.syncInterrupts P).device = log m.device := by
  have hpoll : log (m.pollLines P).device = log m.device := hears.poll m.cycles m.device
  rw [syncInterrupts]
  dsimp only
  split
  · split <;> exact hpoll
  · exact hpoll

/-- The devices are told of an event of their own, and of no video event. -/
lemma log_onEvent (hears : P.hardware.Hears log) (now : UInt64) (k : EventKind) (m : Machine τ β δ) :
    log (m.onEvent P now k.callback k).device = log m.device ++ [k].filter (!·.isVideo) := by
  cases k with
  | hblank =>
    rw [List.filter_cons_of_neg (by decide), List.filter_nil, List.append_nil]
    dsimp only [EventKind.callback, onEvent, onBatch]
    split
    · refine (congrArg log (device_respond (P.hardware.onFrame now) _)).trans ?_
      exact hears.frame now m.device
    · rfl
  | vblank =>
    rw [List.filter_cons_of_neg (by decide), List.filter_nil, List.append_nil]
    refine (congrArg log (device_respond (P.hardware.onBlank now) _)).trans ?_
    exact hears.blank now m.device
  | _ =>
    refine (congrArg log (device_respond (P.hardware.onEvent now _) _)).trans ?_
    exact hears.event now _ m.device

lemma log_fireBefore (hears : P.hardware.Hears log) (now : UInt64) (mark fuel : Nat) (h : m.events.Routed) :
    log (Schedule.fireBefore events withEvents (onEvent P now) now mark fuel m).2.device =
      log m.device ++
        (Schedule.firedBefore events withEvents (onEvent P now) now mark fuel m).filter (!·.isVideo) := by
  induction fuel generalizing m with
  | zero => exact (List.append_nil _).symm
  | succ fuel ih =>
    rw [Schedule.fireBefore, Schedule.firedBefore]
    cases hdue : m.events.due now mark with
    | none => exact (List.append_nil _).symm
    | some due =>
      obtain ⟨k, p⟩ := due
      obtain ⟨⟨hp, -⟩, -⟩ := Schedule.due_eq_some hdue
      dsimp only
      rw [h k p hp, ih (routed_onEvent P now k.callback k (h.erase k)), log_onEvent hears]
      rw [List.append_assoc, ← List.filter_append]
      rfl

lemma dispatched_eq {next : UInt64} (hnext : m.events.nextDeadline = some next) (hle : next ≤ m.cycles) :
    m.dispatched P = m.fired P m.cycles := by
  rw [dispatched, hnext]
  exact if_pos hle

/-- A dispatch of the events fires what is due and looks for an interrupt, or does nothing. -/
lemma dispatchEvents_cases (P : Parts τ β δ) (m : Machine τ β δ) :
    (m.dispatched P = m.fired P m.cycles ∧
        ∃ stats, m.dispatchEvents P = { (m.fireDue P m.cycles).2 with stats }.syncInterrupts P) ∨
      (m.dispatched P = [] ∧ m.dispatchEvents P = m) := by
  rw [dispatched, Machine.dispatchEvents]
  cases m.events.nextDeadline with
  | none => exact .inr ⟨rfl, rfl⟩
  | some next =>
    dsimp only
    split
    · exact .inl ⟨rfl, _, rfl⟩
    · exact .inr ⟨rfl, rfl⟩

/-- In a dispatch of the events the devices hear of those that fire, less the video events, in order. -/
theorem log_dispatchEvents (hears : P.hardware.Hears log) (h : m.events.Routed) :
    log (m.dispatchEvents P).device = log m.device ++ (m.dispatched P).filter (!·.isVideo) := by
  obtain ⟨hfired, stats, heq⟩ | ⟨hfired, heq⟩ := dispatchEvents_cases P m
  · rw [hfired, heq, log_syncInterrupts hears]
    exact log_fireBefore hears m.cycles _ _ h
  · rw [hfired, heq]
    exact (List.append_nil _).symm

/-! ### Events of a dispatch -/

/-- What firing one event keeps of the events, a dispatch of the events keeps. -/
lemma events_dispatchEvents {J : Schedule → Prop}
    (hfire : ∀ k p (x : Machine τ β δ), x.events.get? k = some p → J x.events →
      J ((x.withEvents (x.events.erase k)).onEvent P m.cycles p.callback k).events) (h : J m.events) :
    J (m.dispatchEvents P).events := by
  obtain ⟨-, stats, heq⟩ | ⟨-, heq⟩ := dispatchEvents_cases P m
  · have hsame : (m.dispatchEvents P).events = (m.fireDue P m.cycles).2.events := by
      rw [heq]
      exact (still_syncInterrupts P _).schedule
    rw [hsame, Machine.fireDue]
    exact Schedule.dispatch_induct (I := fun x : Machine τ β δ => J x.events) hfire h
  · rw [heq]
    exact h

lemma edited_onEvent (P : Parts τ β δ) (now : UInt64) (c : Callback) (k : EventKind) (m : Machine τ β δ) :
    m.events.Edited (m.onEvent P now c k).events := by
  have hrespond : ∀ (f : δ → Response δ) (x : Machine τ β δ), m.events.Edited x.events →
      m.events.Edited (x.respond f).events :=
    fun f x hx => schedule_respond (Schedule.granted_edited _) f hx
  cases c with
  | batch =>
    let advanced := { m with raster := m.raster.advance now }
    have hframe : m.events.Edited (advanced.endFrame P now).events := hrespond (P.hardware.onFrame now) _ .refl
    dsimp only [onEvent, onBatch]
    split
    · exact hframe.add _ _ _
    · exact Schedule.Edited.refl.add _ _ _
  | blank => exact (hrespond (P.hardware.onBlank now) _ .refl).add _ _ _
  | device => exact hrespond _ m .refl

lemma edited_dispatchEvents (P : Parts τ β δ) (m : Machine τ β δ) :
    m.events.Edited (m.dispatchEvents P).events := by
  apply events_dispatchEvents _ .refl
  intro k p x _ hx
  exact (hx.erase k).trans (edited_onEvent P m.cycles p.callback k (x.withEvents (x.events.erase k)))

lemma edited_powerOn (P : Parts τ β δ) (m : Machine τ β δ) : m.events.Edited (powerOn P m).events := by
  apply schedule_respond (Schedule.granted_edited _)
  exact (Schedule.Edited.refl.clear.add _ _ _).add _ _ _

/-! ### Video events -/

/-- Both video events are pending, the batch at the deadline of the raster. -/
structure Clocked (m : Machine τ β δ) : Prop where
  batch : m.Awaits m.raster
  blank : (m.events.get? .vblank).isSome
  /-- The events were made by adding and dropping. -/
  made : Schedule.empty.Edited m.events

lemma Awaits.self {r : Raster} (h : m.Awaits r) : m.Awaits m.raster := by
  obtain ⟨rfl, -⟩ := id h
  exact h

/-- An event that fires leaves the frame blank pending. -/
lemma isSome_blank_onEvent (P : Parts τ β δ) (now : UInt64) (c : Callback) (k : EventKind)
    (h : c = .blank ∨ (m.events.get? .vblank).isSome) : ((m.onEvent P now c k).events.get? .vblank).isSome := by
  have hrespond : ∀ (f : δ → Response δ) (x : Machine τ β δ),
      (x.respond f).events.get? .vblank = x.events.get? .vblank :=
    fun f x => schedule_respond (Schedule.granted_video rfl _) f rfl
  have hbatch : ∀ (x : Machine τ β δ) deadline, ((x.schedule .hblank deadline .batch).events.get? .vblank) =
      x.events.get? .vblank :=
    fun x deadline => (Schedule.get?_add ..).trans (if_neg (by decide))
  cases c with
  | blank => exact congrArg Option.isSome (Schedule.get?_add ..)
  | batch =>
    have hblank := h.resolve_left (by decide)
    dsimp only [onEvent, onBatch]
    rw [hbatch]
    split
    · exact (congrArg Option.isSome (hrespond (P.hardware.onFrame now) _)).trans hblank
    · exact hblank
  | device =>
    have hblank := h.resolve_left (by decide)
    exact (congrArg Option.isSome (hrespond _ m)).trans hblank

lemma Clocked.still (h : m.Clocked) (hstill : Still m m') : m'.Clocked where
  batch := (h.batch.still hstill).self
  blank := by
    rw [events, hstill.schedule]
    exact h.blank
  made := by
    rw [events, hstill.schedule]
    exact h.made

lemma clocked_powerOn (P : Parts TranslatorStats Block δ) {m : Machine TranslatorStats Block δ}
    (h : Schedule.empty.Edited m.events) : (powerOn P m).Clocked where
  batch := (awaits_powerOn P m).self
  blank := by
    let raster := m.raster.start m.cycles
    let s := (m.events.clear.add .hblank raster.deadline .batch).add .vblank (raster.blankDeadline m.cycles) .blank
    have hs : (s.get? .vblank).isSome := by
      rw [Schedule.get?_add, if_pos rfl]
      rfl
    have hkept := schedule_respond (m := { m with raster }.mapIo fun io => { io with schedule := s })
      (Schedule.granted_video (v := .vblank) rfl (s.get? .vblank)) (P.hardware.reset m.cycles) rfl
    exact (congrArg Option.isSome hkept).trans hs
  made := h.trans (edited_powerOn P m)

/-- A dispatch of the events leaves both video events pending, wherever the devices are called from. -/
lemma Clocked.dispatchEvents (P : Parts τ β δ) (h : m.Clocked) : (m.dispatchEvents P).Clocked where
  batch := by
    rcases h.batch.dispatchEvents P with ⟨-, -, hrest⟩ | ⟨-, -, hrest⟩
    · exact hrest.self
    · exact hrest.self
  blank := by
    refine (events_dispatchEvents (J := fun s => s.Routed ∧ (s.get? .vblank).isSome) ?_
      ⟨h.batch.routed, h.blank⟩).2
    rintro k p x hp ⟨hrouted, hx⟩
    refine ⟨routed_onEvent P m.cycles p.callback k (hrouted.erase k), isSome_blank_onEvent P m.cycles p.callback k ?_⟩
    -- the fired event is gone until its callback has run
    by_cases hk : k = .vblank
    · exact .inl ((hrouted k p hp).trans (hk ▸ rfl))
    · right
      change ((x.events.erase k).get? .vblank).isSome
      rw [Schedule.get?_erase, if_neg (Ne.symm hk)]
      exact hx
  made := h.made.trans (edited_dispatchEvents P m)

/-- There is a next event, and a step works towards it, unless the batch is due at the cycle that never comes. -/
lemma Clocked.exists_next (h : m.Clocked) (hcomes : m.raster.deadline ≠ Schedule.never) :
    ∃ next, m.events.nextDeadline = some next ∧ next ≤ m.raster.deadline ∧
      ∀ limit, m.stepDeadline limit = min next limit := by
  obtain ⟨p, hp, hdeadline⟩ := h.batch.exists_pending
  have hsoonest := h.batch.tidy.soonest_le hp
  rw [hdeadline] at hsoonest
  have hnever : m.events.soonest ≠ Schedule.never := by
    intro heq
    exact hcomes (UInt64.le_antisymm (Schedule.le_never _) (heq ▸ hsoonest))
  have hnext : m.events.nextDeadline = some m.events.soonest := if_neg hnever
  refine ⟨m.events.soonest, hnext, hsoonest, fun limit => ?_⟩
  rw [Machine.stepDeadline, hnext]
  rfl

/-- The dispatch of the events of a clocked machine is exact. -/
lemma Clocked.exact (P : Parts τ β δ) (h : m.Clocked) (hcomes : m.raster.deadline ≠ Schedule.never) :
    ∃ fs, fs.map (·.kind) = m.dispatched P ∧
      Schedule.Exact events withEvents (onEvent P m.cycles) m.cycles m fs.length fs (m.fireDue P m.cycles).2 := by
  obtain ⟨fs, hkinds, hexact⟩ := @Schedule.dispatch_exact _ events withEvents (onEvent P m.cycles)
    (fun _ _ => rfl) (edited_onEvent P m.cycles) m.cycles m h.made
  have hcount := hexact.count
  rw [hcount] at hexact
  refine ⟨fs, ?_, hexact⟩
  obtain ⟨next, hnext, -⟩ := h.exists_next hcomes
  rw [hkinds, dispatched, hnext]
  dsimp only
  split
  · rfl
  · rename_i hlater
    -- the next event is still to come, so nothing was due
    have hsoonest : m.events.soonest = next := by
      rw [Schedule.nextDeadline] at hnext
      split at hnext
      · cases hnext
      · exact Option.some.inj hnext
    have hnone : m.events.due m.cycles m.events.nextAge = none := by
      rw [Schedule.due_eq, if_pos]
      exact hsoonest ▸ UInt64.not_le.mp hlater
    exact Schedule.fired_eq_nil hnone

end Machine

namespace Machine

variable {δ : Type} {hw : Hardware δ} {W : Memory → Memory → Prop} {m m₀ : Machine TranslatorStats Block δ}

/-! ### Runs -/

lemma Clocked.pass (hooks : Hooks δ) (h : m.Clocked) (deadline : UInt64) :
    (m.pass (.standard hw hooks) deadline).2.Clocked where
  batch := (awaits_pass h.batch deadline).self
  blank := by
    have hpass := undisturbed_pass ((Schedule.granted_video (v := .vblank) rfl (m.events.get? .vblank)).keeps hw)
      hooks deadline m
    rw [hpass.events rfl]
    exact h.blank
  made := (undisturbed_pass ((Schedule.granted_edited _).keeps hw) hooks deadline m).events h.made

/-- Both video events stay pending through a pass, the events and the requests of the owner. -/
lemma invariant_clocked (hw : Hardware δ) (hooks : Hooks δ) :
    Invariant (.standard hw hooks) fun m : Machine TranslatorStats Block δ => m.Clocked where
  pass _ deadline h := h.pass hooks deadline
  dispatchEvents _ h := h.dispatchEvents _
  newFrame _ h := h.still ⟨rfl, rfl, rfl⟩
  reset m m' h hreset := by
    obtain ⟨flushed, hflush, rfl⟩ := reset_eq_ok hreset
    have hsame : flushed.events = m.events := (still_flushCode hflush).schedule
    exact clocked_powerOn _ (hsame ▸ h.made)
  flushCode _ _ h hflush := h.still (still_flushCode hflush)
  invalidate m addr len h := h.still (still_invalidate m addr len)
  queue _ _ h := h.still ⟨rfl, rfl, rfl⟩
  resetStats _ h := h.still ⟨rfl, rfl, rfl⟩

/-- No device disturbs the video events.  Whatever devices, hooks and the owner do, both video events are pending
between steps and at every head of the dispatcher's loop, the batch at the deadline of the raster.  While the
cycle counter can reach that deadline there is a next event, so that no step falls back on looking ahead; and when
the events are dispatched, those that were due fire, each once and in order, and the devices hear of all but the
video events.  Every pending event has the callback of its kind. -/
theorem video_undisturbed {settings : Settings} {bios : ByteArray} {device : δ} {hooks₀ : Hooks δ}
    (hstart : ofTranslator (.standard hw hooks₀) settings bios device {} = .ok m₀) (hm : Owned hw W m₀ m)
    (hooks : Hooks δ) (limit : UInt64) {h : Machine TranslatorStats Block δ}
    (hpasses : Passes (.standard hw hooks) (m.stepDeadline limit) m h) :
    h.events.deadline? .hblank = some h.raster.deadline ∧ (∃ d, h.events.deadline? .vblank = some d) ∧
      (∀ k p, h.events.get? k = some p → p.callback = k.callback) ∧
      (h.raster.deadline ≠ Schedule.never →
        (∃ next, h.events.nextDeadline = some next ∧ next ≤ h.raster.deadline ∧
          ∀ limit, h.stepDeadline limit = min next limit) ∧
        ∃ fs, fs.map (·.kind) = h.dispatched (.standard hw hooks) ∧
          Schedule.Exact events withEvents (onEvent (.standard hw hooks) h.cycles) h.cycles h fs.length fs
            (h.fireDue (.standard hw hooks) h.cycles).2) ∧
      ∀ log, hw.Hears log → log (h.dispatchEvents (.standard hw hooks)).device =
        log h.device ++ (h.dispatched (.standard hw hooks)).filter (!·.isVideo) := by
  have hfirst : m₀.Clocked := by
    obtain ⟨r, -, rfl⟩ := ofTranslator_eq_ok hstart
    exact clocked_powerOn _ .refl
  have hclocked : m.Clocked := by
    apply hm.invariant (fun hooks _ => invariant_clocked hw hooks) _ hfirst
    intro x cpu memory interrupts device hx _
    exact hx.still ⟨rfl, rfl, rfl⟩
  have hhead : h.Clocked := (invariant_clocked hw hooks).head hclocked hpasses
  refine ⟨hhead.batch.pending, ?_, hhead.batch.routed, fun hcomes => ⟨hhead.exists_next hcomes, hhead.exact _ hcomes⟩,
    fun log hears => log_dispatchEvents hears hhead.batch.routed⟩
  obtain ⟨p, hp⟩ := Option.isSome_iff_exists.mp hhead.blank
  exact ⟨p.deadline, congrArg (Option.map _) hp⟩

/-- Devices that ask at reset for a timer event at once, and in vain for the video events. -/
def meddling : Hardware (List EventKind × Unit) :=
  { (Hardware.absent Unit).heard with
    reset := fun _ d => ⟨0, d, [.cancel .hblank, .schedule .vblank 1, .schedule .timer0 0]⟩ }

/-- Of these requests the devices hear of the timer event alone, and the video events are where they belong. -/
theorem video_undisturbed_meddling :
    let P := Parts.standard meddling (.none _)
    ∃ m₀, ofTranslator P {} .empty ([], ()) {} = .ok m₀ ∧ Owned meddling (fun _ _ => True) m₀ m₀ ∧
      Passes P (m₀.stepDeadline Schedule.never) m₀ m₀ ∧ meddling.Hears Prod.fst ∧
        m₀.events.deadline? .hblank = some 68864 ∧ m₀.events.deadline? .vblank = some 564480 ∧
          m₀.events.nextDeadline = some 0 ∧ (m₀.dispatchEvents P).device.1 = [.timer0] := by
  intro P
  let m₀ := assemble P {} .empty ([], ()) (.bare {} {})
  have hstart : ofTranslator P {} .empty ([], ()) {} = .ok m₀ := ofTranslator_eq_bare (by decide) _ _ _
  have hears : meddling.Hears Prod.fst := by
    obtain ⟨hevent, hframe, hblank, hpoll⟩ := Hardware.hears_heard (Hardware.absent Unit)
    exact ⟨hevent, hframe, hblank, hpoll⟩
  let raster := (Raster.ofStandard .ntsc).start 0
  have hraster : raster.deadline = 68864 ∧ raster.blankDeadline 0 = 564480 := by decide
  have hevents : m₀.events =
      ((Schedule.empty.clear.add .hblank raster.deadline .batch).add .vblank (raster.blankDeadline 0) .blank).add
        .timer0 0 := rfl
  rw [hraster.1, hraster.2] at hevents
  have howned : Owned meddling (fun _ _ => True) m₀ m₀ := .start
  obtain ⟨-, -, -, -, hlog⟩ := video_undisturbed hstart howned (.none _) Schedule.never .start
  have hnext : m₀.events.nextDeadline = some 0 := by
    rw [hevents]
    decide
  have hbatch : m₀.events.deadline? .hblank = some 68864 := by
    rw [hevents]
    decide
  have hblank : m₀.events.deadline? .vblank = some 564480 := by
    rw [hevents]
    decide
  refine ⟨m₀, hstart, howned, .start, hears, hbatch, hblank, hnext, ?_⟩
  have hdispatched : m₀.dispatched P = [.timer0] := by
    have hdue : m₀.events.due 0 m₀.events.nextAge = some (.timer0, ⟨0, 2, .device⟩) := by
      rw [hevents]
      decide
    have hrest : (m₀.fire P 0 .timer0).events.due 0 m₀.events.nextAge = none := by
      change (m₀.events.erase .timer0).due 0 m₀.events.nextAge = none
      rw [hevents]
      decide
    exact (dispatched_eq hnext (UInt64.le_refl 0)).trans (Schedule.fired_eq_singleton hdue hrest)
  rw [hlog _ hears, hdispatched]
  rfl

end Machine

end R3000
