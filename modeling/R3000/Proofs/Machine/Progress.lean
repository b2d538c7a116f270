import Mathlib
import R3000.Proofs.Machine.Advance
import R3000.Proofs.Machine.VideoTiming

/-!
# Progress

Without devices every pending event is later than the cycle counter between two steps.  So every step moves the
counter on, a run reaches its target, and a frame ends after nine batches at most.  All this holds while the
counter and the deadlines that are set from it stay below `2 ^ 64`.
-/

namespace R3000

/-! ### The raster -/

namespace Raster

variable {r : Raster} {now : UInt64}

/-- The cycles of a full batch. -/
def fullBatch : Nat := 32 * 2152

/-- The most cycles from one frame blank to the next. -/
def longestFrame : Nat := 677376

/-- The batches that come before the one that ends the frame. -/
def batchesLeft (r : Raster) : Nat := (262 - r.scanline) / 32

lemma batchesLeft_le (r : Raster) : r.batchesLeft ≤ 8 := by
  rw [batchesLeft]
  omega

/-- A batch that does not end the frame leaves one less to come. -/
lemma batchesLeft_advance (h : r.endsFrame = false) (now : UInt64) :
    (r.advance now).batchesLeft + 1 = r.batchesLeft := by
  have hscanline : (r.advance now).scanline = r.scanline + batchFrom r.scanline := by
    simp only [advance, h, Bool.false_eq_true, if_false]
  have hlines := of_decide_eq_false h
  rw [batchesLeft, batchesLeft, hscanline]
  simp only [batchFrom, frameScanlines, batchScanlines] at hlines ⊢
  omega

lemma toNat_batchCycles_le (scanline : Nat) : (batchCycles scanline).toNat ≤ fullBatch := by
  have hle : batchFrom scanline ≤ 32 := min_le_right ..
  rw [toNat_batchCycles, fullBatch]
  omega

lemma deadline_advance (r : Raster) (now : UInt64) : ∃ scanline, (r.advance now).deadline =
    if r.deadline + batchCycles scanline ≤ now then now + 1 else r.deadline + batchCycles scanline :=
  ⟨_, rfl⟩

/-- The next batch is due later than this one was served. -/
lemma lt_advance (r : Raster) (hfits : now.toNat + 1 < 2 ^ 64) : now < (r.advance now).deadline := by
  obtain ⟨scanline, hdeadline⟩ := r.deadline_advance now
  rw [hdeadline]
  split
  · rw [UInt64.lt_iff_toNat_lt, UInt64.toNat_add]
    change now.toNat < (now.toNat + 1) % 2 ^ 64
    omega
  · rename_i hlater
    exact UInt64.not_le.mp hlater

/-- A batch that was due is followed by the next one within a full batch. -/
lemma advance_le (hdue : r.deadline ≤ now) : (r.advance now).deadline.toNat ≤ now.toNat + fullBatch := by
  have hdue' := UInt64.le_iff_toNat_le.mp hdue
  obtain ⟨scanline, hdeadline⟩ := r.deadline_advance now
  rw [hdeadline]
  split
  · have hsum : (now + 1).toNat ≤ now.toNat + 1 := by
      rw [UInt64.toNat_add]
      exact Nat.mod_le ..
    rw [fullBatch]
    omega
  · have hbatch := toNat_batchCycles_le scanline
    have hsum : (r.deadline + batchCycles scanline).toNat ≤ r.deadline.toNat + (batchCycles scanline).toNat := by
      rw [UInt64.toNat_add]
      exact Nat.mod_le ..
    omega

/-- The next frame blank is later than this one. -/
lemma lt_blankDeadline (r : Raster) (hfits : now.toNat + longestFrame < 2 ^ 64) : now < r.blankDeadline now := by
  have hframe : 0 < r.standard.frameCycles.toNat ∧ r.standard.frameCycles.toNat ≤ longestFrame := by
    cases r.standard <;> decide
  rw [blankDeadline, UInt64.lt_iff_toNat_lt, UInt64.toNat_add, Nat.mod_eq_of_lt (by omega)]
  omega

end Raster

/-! ### Room for the counter -/

/-- The most by which a step moves the counter on: a batch, and the overrun. -/
def Settings.stride (s : Settings) : Nat := Raster.fullBatch + s.overrun

/-- The counter stays below `2 ^ 64` for a number of steps from a cycle on, and so does the deadline of the frame
blank set after them. -/
def Settings.Room (s : Settings) (steps : Nat) (now : UInt64) : Prop :=
  now.toNat + steps * s.stride + Raster.longestFrame < 2 ^ 64

/-! ### Deadlines to come -/

namespace Schedule

variable {s : Schedule} {now : UInt64}

/-- Every pending event is later than a cycle. -/
def Ahead (now : UInt64) (s : Schedule) : Prop := ∀ k p, s.get? k = some p → now < p.deadline

/-- An event added later than a cycle is the only new one. -/
lemma get?_add_cases {j k : EventKind} {deadline : UInt64} {c : Callback} {p : Pending} (hlater : now < deadline)
    (hp : (s.add k deadline c).get? j = some p) : s.get? j = some p ∨ now < p.deadline := by
  rw [get?_add] at hp
  split at hp
  · cases hp
    exact .inr hlater
  · exact .inl hp

lemma nextDeadline_of_lt (h : s.soonest.toNat + 1 < 2 ^ 64) : s.nextDeadline = some s.soonest := by
  apply if_neg
  intro hnever
  rw [hnever] at h
  exact absurd h (by decide)

lemma Ahead.lt_soonest (h : s.Ahead now) (hs : s.Tidy) (hnow : now < never) : now < s.soonest := by
  have hnow' := UInt64.lt_iff_toNat_lt.mp hnow
  have hnever : never.toNat + 1 = 2 ^ 64 := rfl
  have hnext : (now + 1).toNat = now.toNat + 1 := by
    rw [UInt64.toNat_add]
    exact Nat.mod_eq_of_lt (by change now.toNat + 1 < _; omega)
  have hle : now + 1 ≤ s.soonest := hs.le_soonest.mpr fun k p hp => by
    rw [UInt64.le_iff_toNat_le, hnext]
    exact UInt64.lt_iff_toNat_lt.mp (h k p hp)
  rw [UInt64.le_iff_toNat_le, hnext] at hle
  exact UInt64.lt_iff_toNat_lt.mpr hle

end Schedule

namespace Machine

variable {δ : Type} {hooks : Hooks δ} {settings : Settings} {m m' m₀ : Machine TranslatorStats Block δ}
  {now : UInt64}

/-! ### Firing -/

/-- Without devices an event that fires leaves no new one that is due. -/
lemma onEvent_cases (hooks : Hooks δ) (hfits : now.toNat + Raster.longestFrame < 2 ^ 64) (c : Callback)
    (k : EventKind) (x : Machine TranslatorStats Block δ) {j : EventKind} {p : Pending}
    (hp : (x.onEvent (.standard (.absent δ) hooks) now c k).events.get? j = some p) :
    x.events.get? j = some p ∨ now < p.deadline := by
  have hbatch : now < (x.raster.advance now).deadline := x.raster.lt_advance (by
    rw [Raster.longestFrame] at hfits
    omega)
  cases c with
  | batch =>
    dsimp only [onEvent, onBatch] at hp
    split at hp <;> exact Schedule.get?_add_cases hbatch hp
  | blank => exact Schedule.get?_add_cases (x.raster.lt_blankDeadline hfits) hp
  | device => exact .inl hp

/-- Once what is due has fired, every pending event is later. -/
lemma ahead_fireDue (hooks : Hooks δ) (hfits : now.toNat + Raster.longestFrame < 2 ^ 64) (h : m.events.Tidy) :
    (m.fireDue (.standard (.absent δ) hooks) now).2.events.Ahead now := by
  set P := Parts.standard (.absent δ) hooks
  let I (x : Machine TranslatorStats Block δ) : Prop :=
    ∀ k p, x.events.get? k = some p → m.events.get? k = some p ∨ now < p.deadline
  have hcases : I (m.fireDue P now).2 := by
    rw [fireDue]
    refine Schedule.dispatch_induct ?_ fun k p hp => .inl hp
    intro k q x _ hx j p hp
    rcases onEvent_cases hooks hfits q.callback k _ hp with hold | hlater
    · rw [show (Machine.mapIo _ _).events = x.events.erase k from rfl, Schedule.get?_erase] at hold
      split at hold
      · cases hold
      · exact hx j p hold
    · exact .inr hlater
  have hfollows : m.events.Follows (m.fireDue P now).2.events :=
    Schedule.follows_dispatch (fun _ _ => rfl) (follows_onEvent P now) m
  have hnone : (m.fireDue P now).2.events.due now m.events.nextAge = none :=
    Schedule.due_dispatch (fun _ _ => rfl) (follows_onEvent P now) m
  intro k p hp
  rcases hcases k p hp with hold | hlater
  · -- an old event that is due has fired
    by_contra hle
    exact Schedule.due_eq_none (hfollows.tidy h) hnone k p ⟨hp, UInt64.not_lt.mp hle, h.age k p hold⟩
  · exact hlater

/-- After a dispatch of the events every pending one is later than the counter. -/
lemma ahead_dispatchEvents (hooks : Hooks δ) (hfits : m.cycles.toNat + Raster.longestFrame < 2 ^ 64)
    (h : m.events.Tidy) : (m.dispatchEvents (.standard (.absent δ) hooks)).events.Ahead m.cycles := by
  have hsooner : m.cycles < m.events.soonest → m.events.Ahead m.cycles := fun hlt k p hp =>
    UInt64.lt_of_lt_of_le hlt (h.soonest_le hp)
  rw [dispatchEvents]
  split
  · rename_i next hnext
    obtain rfl : m.events.soonest = next := by
      simp only [Schedule.nextDeadline] at hnext
      split at hnext
      · cases hnext
      · exact Option.some.inj hnext
    split
    · have hfired := ahead_fireDue hooks hfits h
      dsimp only
      rw [events, (still_syncInterrupts _ _).schedule]
      exact hfired
    · rename_i hlater
      exact hsooner (UInt64.not_le.mp hlater)
  · rename_i hnext
    have hnever : m.events.soonest = Schedule.never := by
      simpa [Schedule.nextDeadline] using hnext
    apply hsooner
    rw [hnever, UInt64.lt_iff_toNat_lt]
    change _ < 2 ^ 64 - 1
    rw [Raster.longestFrame] at hfits
    omega

/-- A dispatch of the events that completes a frame says so. -/
lemma frameDone_dispatchEvents (P : Parts TranslatorStats Block δ) (m : Machine TranslatorStats Block δ) :
    (m.dispatchEvents P).raster.frames = m.raster.frames ∨ (m.dispatchEvents P).frameDone = true := by
  let I (x : Machine TranslatorStats Block δ) : Prop := x.raster.frames = m.raster.frames ∨ x.frameDone = true
  have hevent : ∀ now c k x, I x → I (x.onEvent P now c k) := by
    intro now c k x hx
    cases c with
    | batch =>
      dsimp only [onEvent, onBatch]
      split
      · exact .inr rfl
      · rename_i hends
        refine hx.imp (fun hsame => Eq.trans ?_ hsame) id
        exact if_neg hends
    | _ => exact hx
  have hsync : ∀ stats x, I x → I ({ x with stats }.syncInterrupts P) := by
    intro stats x hx
    rw [syncInterrupts]
    dsimp only
    split
    · split <;> exact hx
    · exact hx
  exact dispatchEvents_keeps (I := I) (fun _ _ hx => hx) hevent hsync (.inl rfl)

/-- A dispatch of the events serves the batch if it is due, and then the frame is done or one batch less is to come. -/
lemma batch_dispatchEvents (P : Parts TranslatorStats Block δ) {r : Raster} (h : m.Awaits r) :
    ((r.deadline ≤ m.cycles → r.deadline = Schedule.never) ∧ (m.dispatchEvents P).Awaits r) ∨
      (r.deadline ≤ m.cycles ∧ (m.dispatchEvents P).Awaits (r.advance m.cycles) ∧
        ((m.dispatchEvents P).frameDone = true ∨ (r.advance m.cycles).batchesLeft + 1 = r.batchesLeft)) := by
  rcases h.dispatchEvents P with ⟨-, hserved, hrest⟩ | ⟨-, hdue, hrest⟩
  · exact .inl ⟨hserved, hrest⟩
  · refine .inr ⟨hdue, hrest, ?_⟩
    by_cases hends : r.endsFrame = true
    · refine .inl ((frameDone_dispatchEvents P m).resolve_left ?_)
      rw [hrest.raster, h.raster]
      simp [Raster.advance, hends]
    · exact .inr (Raster.batchesLeft_advance (by simpa using hends) _)

/-! ### Steps -/

/-- A machine between two steps: every pending event is later than the counter, and the next batch is no more
than a full batch away. -/
structure Paced (settings : Settings) (m : Machine TranslatorStats Block δ) : Prop where
  sturdy : m.Sturdy settings
  awaits : m.Awaits m.raster
  ahead : m.events.Ahead m.cycles
  near : m.raster.deadline.toNat ≤ m.cycles.toNat + Raster.fullBatch

/-- The counter can hold the step that works towards the next batch. -/
def Fits (settings : Settings) (m : Machine TranslatorStats Block δ) : Prop :=
  m.raster.deadline.toNat + settings.overrun + Raster.longestFrame < 2 ^ 64

namespace Paced

lemma congr (h : m.Paced settings) (hstill : Still m m') (hsturdy : m'.Sturdy settings) : m'.Paced settings where
  sturdy := hsturdy
  awaits := hstill.raster ▸ h.awaits.still hstill
  ahead := by
    rw [events, hstill.schedule, hstill.cycles]
    exact h.ahead
  near := by
    rw [hstill.raster, hstill.cycles]
    exact h.near

lemma fits (h : m.Paced settings) (hroom : settings.Room 1 m.cycles) : m.Fits settings := by
  have hnear := h.near
  rw [Settings.Room, Settings.stride] at hroom
  rw [Fits]
  omega

/-- The next batch is still to come. -/
lemma lt_deadline (h : m.Paced settings) : m.cycles < m.raster.deadline := by
  obtain ⟨p, hp, hdeadline⟩ := h.awaits.exists_pending
  exact hdeadline ▸ h.ahead _ p hp

/-- A step towards a limit that is still to come has cycles to run. -/
lemma lt_stepDeadline (h : m.Paced settings) (hfits : m.Fits settings) {limit : UInt64} (hlimit : m.cycles < limit) :
    m.cycles < m.stepDeadline limit := by
  obtain ⟨p, hp, hdeadline⟩ := h.awaits.exists_pending
  have hnow := UInt64.lt_iff_toNat_lt.mp h.lt_deadline
  have hnever : Schedule.never.toNat + 1 = 2 ^ 64 := rfl
  have hsoonest : m.events.soonest.toNat ≤ m.raster.deadline.toNat :=
    hdeadline ▸ UInt64.le_iff_toNat_le.mp (h.awaits.tidy.soonest_le hp)
  have hlater : m.cycles < m.events.soonest :=
    h.ahead.lt_soonest h.awaits.tidy (UInt64.lt_iff_toNat_lt.mpr (by rw [Fits] at hfits; omega))
  rw [Fits, Raster.longestFrame] at hfits
  have hsome : m.events.nextDeadline = some m.events.soonest := Schedule.nextDeadline_of_lt (by omega)
  rw [stepDeadline, hsome, Option.getD_some, UInt64.lt_iff_toNat_lt, UInt64.toNat_min]
  exact lt_min (UInt64.lt_iff_toNat_lt.mp hlater) (UInt64.lt_iff_toNat_lt.mp hlimit)

end Paced

/-- What a step towards a limit comes to. -/
structure Steps (settings : Settings) (limit : UInt64) (m m' : Machine TranslatorStats Block δ) : Prop where
  paced : m'.Paced settings
  reached : m.stepDeadline limit ≤ m'.cycles
  forward : m.cycles ≤ m'.cycles
  loaded : m.loaded = true → m'.loaded = true
  deadline : m'.raster.deadline.toNat ≤ m.raster.deadline.toNat + settings.stride
  frame : m'.raster = m.raster ∨ m'.frameDone = true ∨ m'.raster.batchesLeft + 1 = m.raster.batchesLeft

/-- What the loop of a step comes to, before the events are dispatched. -/
structure Ran (settings : Settings) (limit : UInt64) (m m' : Machine TranslatorStats Block δ) : Prop where
  sturdy : m'.Sturdy settings
  awaits : m'.Awaits m.raster
  reached : m.stepDeadline limit ≤ m'.cycles
  forward : m.cycles ≤ m'.cycles
  late : m'.cycles.toNat < m.raster.deadline.toNat + settings.overrun
  loaded : m.loaded = true → m'.loaded = true

/-- The loop of a step ends by itself, before the next batch is overrun. -/
lemma Paced.execute (hooks : Hooks δ) (h : m.Paced settings) (hfits : m.Fits settings) (limit : UInt64) :
    ∃ y, m.execute (.standard (.absent δ) hooks) (m.stepDeadline limit) = (none, y) ∧ Ran settings limit m y := by
  set P := Parts.standard (.absent δ) hooks
  have hsturdy : (m.execute P (m.stepDeadline limit)).2.Sturdy settings :=
    (codeInvariant_sturdy (.absent δ) hooks settings).invariant.passes _ h.sturdy
  have hawaits : (m.execute P (m.stepDeadline limit)).2.Awaits m.raster := awaits_passes h.awaits _ _
  by_cases hgo : m.cycles < m.stepDeadline limit
  · have hle := UInt64.le_iff_toNat_le.mp (h.awaits.stepDeadline_le limit)
    have hgo' := UInt64.lt_iff_toNat_lt.mp hgo
    rw [Fits] at hfits
    obtain ⟨y, hreaches, hall⟩ : ∃ y, Reaches settings (m.stepDeadline limit) m y ∧
        ∀ fuel, m.remaining (m.stepDeadline limit) ≤ fuel →
          m.passes P (m.stepDeadline limit) fuel = (none, y) :=
      passes_reach (.absent δ) hooks h.sturdy (by omega) (by omega)
    have hexecute : m.execute P (m.stepDeadline limit) = (none, y) := hall _ <| by
      have hload := (!m.loaded).toNat_le
      rw [remaining]
      omega
    rw [hexecute] at hsturdy hawaits
    exact ⟨y, hexecute, hsturdy, hawaits, hreaches.reached, hreaches.forward, hreaches.late.trans_le (by omega),
      hreaches.loaded⟩
  · refine ⟨m, ?_, h.sturdy, h.awaits, UInt64.not_lt.mp hgo, UInt64.le_refl _, ?_, id⟩
    · rw [Machine.execute, passes, if_neg hgo]
    · exact Nat.lt_add_right _ (UInt64.lt_iff_toNat_lt.mp h.lt_deadline)

/-- Once the events are dispatched, the machine is paced again. -/
lemma Ran.dispatchEvents (hooks : Hooks δ) {y : Machine TranslatorStats Block δ} {limit : UInt64}
    (hran : Ran settings limit m y) (h : m.Paced settings) (hfits : m.Fits settings) :
    Steps settings limit m (y.dispatchEvents (.standard (.absent δ) hooks)) := by
  set P := Parts.standard (.absent δ) hooks
  have hlate := hran.late
  have hnear := h.near
  have hforward := UInt64.le_iff_toNat_le.mp hran.forward
  rw [Fits] at hfits
  have hcycles := cycles_dispatchEvents P y
  have hsturdy := (codeInvariant_sturdy (.absent δ) hooks settings).invariant.dispatchEvents y hran.sturdy
  have hahead := ahead_dispatchEvents hooks (m := y) (by omega) hran.awaits.tidy
  rw [← hcycles] at hahead
  have hsteps : ∀ r : Raster, (y.dispatchEvents P).Awaits r → r.deadline.toNat ≤ y.cycles.toNat + Raster.fullBatch →
      r.deadline.toNat ≤ m.raster.deadline.toNat + settings.stride →
        (r = m.raster ∨ (y.dispatchEvents P).frameDone = true ∨ r.batchesLeft + 1 = m.raster.batchesLeft) →
          Steps settings limit m (y.dispatchEvents P) := by
    intro r hr hle hstride hcases
    refine ⟨⟨hsturdy, hr.raster ▸ hr, hahead, ?_⟩, hcycles ▸ hran.reached, hcycles ▸ hran.forward, ?_, ?_, ?_⟩
    · rwa [hr.raster, hcycles]
    · exact fun hm => (sameLoader_dispatchEvents P y).loaded.trans (hran.loaded hm)
    · rwa [hr.raster]
    · rwa [hr.raster]
  rcases batch_dispatchEvents P hran.awaits with ⟨-, hrest⟩ | ⟨hdue, hrest, hframe⟩
  · -- the batch is still to come
    exact hsteps _ hrest (by omega) (Nat.le_add_right ..) (.inl rfl)
  · have hle := Raster.advance_le hdue
    exact hsteps _ hrest hle (by rw [Settings.stride]; omega) (.inr hframe)

/-- A step does not fail, and leaves the machine paced. -/
lemma Paced.stepUpTo (hooks : Hooks δ) (h : m.Paced settings) (hfits : m.Fits settings) (limit : UInt64) :
    ∃ x, m.stepUpTo (.standard (.absent δ) hooks) limit = (none, x) ∧ Steps settings limit m x := by
  obtain ⟨y, hexecute, hran⟩ := h.execute hooks hfits limit
  refine ⟨_, ?_, hran.dispatchEvents hooks h hfits⟩
  rw [Machine.stepUpTo, hexecute]

/-! ### Runs -/

section

variable {P : Parts TranslatorStats Block δ} {limit : UInt64} {go : Machine TranslatorStats Block δ → Bool}
  {I : Machine TranslatorStats Block δ → Prop} {measure : Machine TranslatorStats Block δ → Nat}

/-- Steps that bring a measure down and move the counter on come to an end. -/
lemma stepWhile_ends
    (hstep : ∀ m, I m → go m = true → ∃ x, m.stepUpTo P limit = (none, x) ∧ I x ∧ m.cycles < x.cycles ∧
      measure x < measure m) (h : I m) :
    ∃ x, I x ∧ go x = false ∧ m.cycles ≤ x.cycles ∧ (go m = true → m.cycles < x.cycles) ∧
      ∀ fuel, measure m ≤ fuel → m.stepWhile P limit go fuel = (.finished, x) := by
  induction hn : measure m using Nat.strong_induction_on generalizing m with
  | h n ih =>
    subst hn
    by_cases hgo : go m = true
    · obtain ⟨x, hx, hIx, hlt, hless⟩ := hstep m h hgo
      obtain ⟨y, hIy, hdone, hle, -, hall⟩ := ih _ hless hIx rfl
      have hlt' := UInt64.lt_of_lt_of_le hlt hle
      refine ⟨y, hIy, hdone, UInt64.le_of_lt hlt', fun _ => hlt', fun fuel hfuel => ?_⟩
      obtain ⟨k, rfl⟩ : ∃ k, fuel = k + 1 := Nat.exists_eq_add_one.mpr (by omega)
      rw [stepWhile, if_pos hgo, hx]
      exact hall k (by omega)
    · refine ⟨m, h, by simpa using hgo, UInt64.le_refl _, fun hm => absurd hm hgo, fun fuel _ => ?_⟩
      cases fuel with
      | zero => rw [stepWhile, if_neg hgo]
      | succ fuel => rw [stepWhile, if_neg hgo]

end

/-- A run reaches its target. -/
lemma Paced.runUntil (hooks : Hooks δ) (h : m.Paced settings) {target : UInt64} (hroom : settings.Room 1 target) :
    ∃ x n, target ≤ x.cycles ∧ m.cycles ≤ x.cycles ∧
      ∀ fuel, n ≤ fuel → m.runUntil (.standard (.absent δ) hooks) fuel target = (.finished, x) := by
  have hstep : ∀ m : Machine TranslatorStats Block δ, m.Paced settings → decide (m.cycles < target) = true →
      ∃ x, m.stepUpTo (.standard (.absent δ) hooks) target = (none, x) ∧ x.Paced settings ∧ m.cycles < x.cycles ∧
        target.toNat - x.cycles.toNat < target.toNat - m.cycles.toNat := by
    intro m hm hgo
    have hlt := of_decide_eq_true hgo
    have hlt' := UInt64.lt_iff_toNat_lt.mp hlt
    have hfits : m.Fits settings := hm.fits (by rw [Settings.Room] at hroom ⊢; omega)
    obtain ⟨x, hx, hsteps⟩ := hm.stepUpTo hooks hfits target
    have hmoved := UInt64.lt_of_lt_of_le (hm.lt_stepDeadline hfits hlt) hsteps.reached
    have hmoved' := UInt64.lt_iff_toNat_lt.mp hmoved
    exact ⟨x, hx, hsteps.paced, hmoved, by omega⟩
  obtain ⟨x, -, hdone, hle, -, hall⟩ := stepWhile_ends hstep h
  exact ⟨x, _, UInt64.not_lt.mp (of_decide_eq_false hdone), hle, hall⟩

/-- The counter can hold the batches up to the end of the frame. -/
def FrameFits (settings : Settings) (m : Machine TranslatorStats Block δ) : Prop :=
  m.raster.deadline.toNat + m.raster.batchesLeft * settings.stride + settings.overrun + Raster.longestFrame < 2 ^ 64

/-- What is left of a frame: the batches, and the cycles before the next one. -/
def toFrameEnd (m : Machine TranslatorStats Block δ) : Nat :=
  if m.frameDone then 0 else m.raster.batchesLeft * 2 ^ 64 + (m.raster.deadline.toNat - m.cycles.toNat)

/-- A step that does not end the frame brings its end closer. -/
lemma Paced.stepFrame (hooks : Hooks δ) (h : m.Paced settings) (hfits : m.FrameFits settings)
    (hgo : m.frameDone = false) :
    ∃ x, m.stepUpTo (.standard (.absent δ) hooks) Schedule.never = (none, x) ∧ x.Paced settings ∧
      (x.frameDone = false → x.FrameFits settings) ∧ m.cycles < x.cycles ∧ x.toFrameEnd < m.toFrameEnd := by
  have hnow := UInt64.lt_iff_toNat_lt.mp h.lt_deadline
  have hnever : Schedule.never.toNat + 1 = 2 ^ 64 := rfl
  have hdeadline := m.raster.deadline.toNat_lt
  rw [FrameFits] at hfits
  have hfits' : m.Fits settings := by
    rw [Fits]
    omega
  obtain ⟨x, hx, hsteps⟩ := h.stepUpTo hooks hfits' Schedule.never
  have hlimit : m.cycles < Schedule.never := UInt64.lt_iff_toNat_lt.mpr (by omega)
  have hmoved := UInt64.lt_of_lt_of_le (h.lt_stepDeadline hfits' hlimit) hsteps.reached
  have hmoved' := UInt64.lt_iff_toNat_lt.mp hmoved
  have hlater := UInt64.lt_iff_toNat_lt.mp hsteps.paced.lt_deadline
  have hstride := hsteps.deadline
  refine ⟨x, hx, hsteps.paced, fun hmore => ?_, hmoved, ?_⟩
  · rcases hsteps.frame with hsame | hdone | hless
    · rw [FrameFits, hsame]
      exact hfits
    · rw [hdone] at hmore
      cases hmore
    · rw [← hless, Nat.succ_mul] at hfits
      rw [FrameFits]
      omega
  · have hbefore : m.toFrameEnd =
        m.raster.batchesLeft * 2 ^ 64 + (m.raster.deadline.toNat - m.cycles.toNat) := by
      rw [toFrameEnd, if_neg (by simp [hgo])]
    rw [hbefore, toFrameEnd]
    split
    · omega
    · rename_i hmore
      rcases hsteps.frame with hsame | hdone | hless
      · rw [hsame] at hlater ⊢
        omega
      · exact absurd hdone hmore
      · rw [← hless, Nat.succ_mul]
        have hbound := x.raster.deadline.toNat_lt
        omega

/-- A frame ends. -/
lemma Paced.runFrame (hooks : Hooks δ) (h : m.Paced settings) (hroom : settings.Room 9 m.cycles) :
    ∃ x n, x.frameDone = true ∧ m.cycles < x.cycles ∧
      ∀ fuel, n ≤ fuel → m.runFrame (.standard (.absent δ) hooks) fuel = (.finished, x) := by
  set m₁ := { m with frameDone := false }
  have hstart : m₁.Paced settings := h.congr ⟨rfl, rfl, rfl⟩ ⟨⟨h.sturdy.capped.kept, h.sturdy.capped.code⟩,
    h.sturdy.wired, h.sturdy.room⟩
  have hfits : m₁.FrameFits settings := by
    have hnear := h.near
    have hbatches := Nat.mul_le_mul_right settings.stride m.raster.batchesLeft_le
    rw [Settings.Room] at hroom
    rw [FrameFits]
    change m.raster.deadline.toNat + m.raster.batchesLeft * settings.stride + _ + _ < _
    have hstride : settings.stride = Raster.fullBatch + settings.overrun := rfl
    omega
  let I (m : Machine TranslatorStats Block δ) : Prop :=
    m.Paced settings ∧ (m.frameDone = false → m.FrameFits settings)
  have hstep : ∀ m, I m → (!m.frameDone) = true →
      ∃ x, m.stepUpTo (.standard (.absent δ) hooks) Schedule.never = (none, x) ∧ I x ∧ m.cycles < x.cycles ∧
        x.toFrameEnd < m.toFrameEnd := by
    intro m hm hgo
    have hgo' : m.frameDone = false := by simpa using hgo
    obtain ⟨x, hx, hpaced, hmore, hlt, hless⟩ := hm.1.stepFrame hooks (hm.2 hgo') hgo'
    exact ⟨x, hx, ⟨hpaced, hmore⟩, hlt, hless⟩
  obtain ⟨x, -, hdone, -, hlt, hall⟩ := stepWhile_ends hstep ⟨hstart, fun _ => hfits⟩
  exact ⟨x, _, by simpa using hdone, hlt rfl, hall⟩

/-! ### Counted machines -/

/-- The machines that a machine becomes while its counter has room for what is done next: by steps of any
length, at the start of a frame, by requests of the owner, and by what the owner writes into the processor, the
memory, the interrupt controller and the devices. -/
inductive Counted (P : Parts TranslatorStats Block δ) (settings : Settings) (m₀ : Machine TranslatorStats Block δ) :
    Machine TranslatorStats Block δ → Prop
  | start : Counted P settings m₀ m₀
  | stepUpTo {m : Machine TranslatorStats Block δ} (limit : UInt64) : Counted P settings m₀ m →
    settings.Room 1 m.cycles → Counted P settings m₀ (m.stepUpTo P limit).2
  | newFrame {m : Machine TranslatorStats Block δ} : Counted P settings m₀ m →
    Counted P settings m₀ { m with frameDone := false }
  | reset {m m' : Machine TranslatorStats Block δ} : Counted P settings m₀ m → settings.Room 0 m.cycles →
    m.reset P = .ok m' → Counted P settings m₀ m'
  | flushCode {m m' : Machine TranslatorStats Block δ} : Counted P settings m₀ m → m.flushCode = .ok m' →
    Counted P settings m₀ m'
  | invalidate {m : Machine TranslatorStats Block δ} (addr len : UInt32) : Counted P settings m₀ m →
    Counted P settings m₀ (m.invalidate addr len).2
  | queue {m : Machine TranslatorStats Block δ} (image : ByteArray) : Counted P settings m₀ m →
    Counted P settings m₀ (m.queue image)
  | resetStats {m : Machine TranslatorStats Block δ} : Counted P settings m₀ m →
    Counted P settings m₀ (m.resetStats P)
  | write {m : Machine TranslatorStats Block δ} (cpu : Cpu) (memory : Memory) (interrupts : Interrupts) (device : δ) :
    Counted P settings m₀ m →
      Counted P settings m₀ { m with cpu, board := ⟨memory, ⟨interrupts, m.events, device⟩⟩ }

/-- Power-on leaves the machine paced. -/
lemma paced_powerOn (hooks : Hooks δ) (h : m.Sturdy settings)
    (hfits : m.cycles.toNat + Raster.longestFrame < 2 ^ 64) :
    (powerOn (.standard (.absent δ) hooks) m).Paced settings := by
  set P := Parts.standard (.absent δ) hooks
  have hawaits := awaits_powerOn P m
  have hdeadline : (m.raster.start m.cycles).deadline.toNat = m.cycles.toNat + Raster.fullBatch := by
    rw [Raster.longestFrame] at hfits
    change (m.cycles + Raster.batchCycles 0).toNat = _
    rw [UInt64.toNat_add, Raster.toNat_batchCycles]
    exact Nat.mod_eq_of_lt (by change m.cycles.toNat + 68864 < _; omega)
  have hbatch : m.cycles < (m.raster.start m.cycles).deadline := by
    rw [UInt64.lt_iff_toNat_lt, hdeadline, Raster.fullBatch]
    omega
  refine ⟨?_, hawaits.raster ▸ hawaits, ?_, ?_⟩
  · exact (codeInvariant_sturdy (.absent δ) hooks settings).quiet _ _ h (quiet_powerOn P m)
  · intro k p hp
    -- the video events are the only ones, and neither is due
    have hblank := Raster.lt_blankDeadline (m.raster.start m.cycles) hfits
    rcases Schedule.get?_add_cases hblank hp with hp | hlater
    · rcases Schedule.get?_add_cases hbatch hp with hp | hlater
      · rw [Schedule.get?_clear] at hp
        cases hp
      · exact hlater
    · exact hlater
  · rw [hawaits.raster, hdeadline]
    exact le_rfl

lemma paced_ofTranslator {bios : ByteArray} {device : δ}
    (hstart : ofTranslator (.standard (.absent δ) hooks) settings bios device {} = .ok m₀)
    (hlinks : 2 ≤ settings.limits.linkCapacity) (hcode : settings.limits.CodeFits) : m₀.Paced settings := by
  have hsturdy := sturdy_ofTranslator hstart hlinks hcode
  obtain ⟨r, -, rfl⟩ := ofTranslator_eq_ok hstart
  refine paced_powerOn hooks ?_ (by change 0 + Raster.longestFrame < _; decide)
  exact ⟨⟨hsturdy.capped.kept, hsturdy.capped.code⟩, hsturdy.wired, hsturdy.room⟩

/-- A machine that is paced goes on to be so while it is counted, and its counter never goes back. -/
lemma Counted.paced (h : m₀.Paced settings) (hm : Counted (.standard (.absent δ) hooks) settings m₀ m) :
    m.Paced settings ∧ m₀.cycles ≤ m.cycles := by
  have hcode := codeInvariant_sturdy (.absent δ) hooks settings
  have hstill : ∀ {x y : Machine TranslatorStats Block δ}, x.Paced settings ∧ m₀.cycles ≤ x.cycles → Still x y →
      y.Sturdy settings → y.Paced settings ∧ m₀.cycles ≤ y.cycles := by
    intro x y hx hsame hy
    exact ⟨hx.1.congr hsame hy, hsame.cycles ▸ hx.2⟩
  induction hm with
  | start => exact ⟨h, UInt64.le_refl _⟩
  | stepUpTo limit _ hroom ih =>
    obtain ⟨x, hx, hsteps⟩ := ih.1.stepUpTo hooks (ih.1.fits hroom) limit
    rw [hx]
    exact ⟨hsteps.paced, UInt64.le_trans ih.2 hsteps.forward⟩
  | newFrame _ ih => exact hstill ih ⟨rfl, rfl, rfl⟩ (hcode.invariant.newFrame _ ih.1.sturdy)
  | @reset x _ _ hroom hreset ih =>
    obtain ⟨flushed, hflush, rfl⟩ := reset_eq_ok hreset
    have hcycles : flushed.cycles = x.cycles := (still_flushCode hflush).cycles
    have hsturdy : flushed.Sturdy settings := by
      refine hcode.flushCode _ _ ?_ hflush
      exact ⟨⟨ih.1.sturdy.capped.kept, ih.1.sturdy.capped.code⟩, ih.1.sturdy.wired, ih.1.sturdy.room⟩
    refine ⟨paced_powerOn hooks hsturdy ?_, hcycles ▸ ih.2⟩
    rw [Settings.Room, Nat.zero_mul] at hroom
    rwa [hcycles]
  | flushCode _ hflush ih => exact hstill ih (still_flushCode hflush) (hcode.flushCode _ _ ih.1.sturdy hflush)
  | invalidate addr len _ ih =>
    exact hstill ih (still_invalidate _ addr len) (hcode.invalidate _ addr len ih.1.sturdy)
  | queue image _ ih => exact hstill ih ⟨rfl, rfl, rfl⟩ (hcode.invariant.queue _ image ih.1.sturdy)
  | resetStats _ ih => exact hstill ih ⟨rfl, rfl, rfl⟩ (hcode.resetStats _ ih.1.sturdy)
  | write cpu memory interrupts device _ ih =>
    obtain ⟨⟨hkept, hcode⟩, hwired, hroom⟩ := ih.1.sturdy
    exact hstill ih ⟨rfl, rfl, rfl⟩ ⟨⟨hkept, hcode⟩, hwired, hroom⟩

/-! ### Progress -/

/-- How a machine goes on that stands between two steps. -/
structure Progresses (P : Parts TranslatorStats Block δ) (settings : Settings)
    (m : Machine TranslatorStats Block δ) : Prop where
  /-- Every pending event is later than the counter. -/
  ahead : ∀ k p, m.events.get? k = some p → m.cycles < p.deadline
  /-- Every pass of a step moves the counter on, but for one that loads the queued image. -/
  pass : settings.Room 1 m.cycles → ∀ limit h, Passes P (m.stepDeadline limit) m h →
    h.cycles < m.stepDeadline limit → Advances (m.stepDeadline limit) h (h.pass P (m.stepDeadline limit))
  /-- Every chain of blocks that a step runs ends. -/
  chain : ∀ limit h e x, Passes P (m.stepDeadline limit) m h →
    h.Starts P (m.stepDeadline limit) e x → x.ChainEnds P e (m.stepDeadline limit)
  /-- A step does not fail, and moves the counter on to its deadline or later; an image that is loaded stays so. -/
  step : settings.Room 1 m.cycles → ∀ limit, ∃ x, m.stepUpTo P limit = (none, x) ∧ m.stepDeadline limit ≤ x.cycles ∧
    m.cycles ≤ x.cycles ∧ (m.cycles < limit → m.cycles < x.cycles) ∧ (m.loaded = true → x.loaded = true)
  /-- A run reaches its target. -/
  runUntil : ∀ target, settings.Room 1 target → ∃ x n, target ≤ x.cycles ∧ m.cycles ≤ x.cycles ∧
    ∀ fuel, n ≤ fuel → m.runUntil P fuel target = (.finished, x)
  /-- A frame ends. -/
  runFrame : settings.Room 9 m.cycles → ∃ x n, x.frameDone = true ∧ m.cycles < x.cycles ∧
    ∀ fuel, n ≤ fuel → m.runFrame P fuel = (.finished, x)
  /-- The counter never goes back. -/
  forward : ∀ x, Counted P settings m x → m.cycles ≤ x.cycles

/-- Without devices a machine with room for a block and its exits always makes progress, whatever the program and
the hooks do, in everything that it becomes while its counter has room for what is done. -/
theorem counted_progresses {bios : ByteArray} {device : δ}
    (hstart : ofTranslator (.standard (.absent δ) hooks) settings bios device {} = .ok m₀)
    (hlinks : 2 ≤ settings.limits.linkCapacity) (hcode : settings.limits.CodeFits)
    (hm : Counted (.standard (.absent δ) hooks) settings m₀ m) :
    m.Progresses (.standard (.absent δ) hooks) settings := by
  have hpaced := (hm.paced (paced_ofTranslator hstart hlinks hcode)).1
  have hsturdy := codeInvariant_sturdy (.absent δ) hooks settings
  constructor
  case ahead => exact hpaced.ahead
  case pass =>
    intro hroom limit h hpasses hgo
    have hfits := hpaced.fits hroom
    have hle := UInt64.le_iff_toNat_le.mp (hpaced.awaits.stepDeadline_le limit)
    rw [Fits] at hfits
    exact advances_pass (.absent δ) hooks (hsturdy.invariant.head hpaced.sturdy hpasses) hgo (by omega)
  case chain =>
    intro limit h e x hpasses hstarts
    exact chainEnds (hsturdy.invariant.head hpaced.sturdy hpasses) hstarts
  case step =>
    intro hroom limit
    have hfits := hpaced.fits hroom
    obtain ⟨x, hx, hsteps⟩ := hpaced.stepUpTo hooks hfits limit
    refine ⟨x, hx, hsteps.reached, hsteps.forward, fun hlimit => ?_, hsteps.loaded⟩
    exact UInt64.lt_of_lt_of_le (hpaced.lt_stepDeadline hfits hlimit) hsteps.reached
  case runUntil => exact fun target hroom => hpaced.runUntil hooks hroom
  case runFrame => exact fun hroom => hpaced.runFrame hooks hroom
  case forward => exact fun x hx => (hx.paced hpaced).2

/-- A new machine with an image queued that does not load completes a frame. -/
theorem counted_progresses_queued :
    let P := Parts.standard (.absent Unit) (.none Unit)
    ∃ m₀, ofTranslator P {} .empty () {} = .ok m₀ ∧ Counted P {} m₀ (m₀.queue .empty) ∧
      (m₀.queue .empty).Progresses P {} ∧ Settings.Room {} 9 (m₀.queue .empty).cycles ∧
        ∃ x n, x.frameDone = true ∧ ∀ fuel, n ≤ fuel → (m₀.queue .empty).runFrame P fuel = (.finished, x) := by
  intro P
  let m₀ := assemble P {} .empty () (.bare {} {})
  have hstart : ofTranslator P {} .empty () {} = .ok m₀ := ofTranslator_eq_bare (by decide) _ _ _
  have hm : Counted P {} m₀ (m₀.queue .empty) := .queue .empty .start
  have hprogresses := counted_progresses hstart (by decide) (Limits.codeFits_of_plain rfl (by decide)) hm
  have hroom : Settings.Room {} 9 (m₀.queue .empty).cycles := by
    change 0 + 9 * Settings.stride {} + Raster.longestFrame < 2 ^ 64
    decide
  obtain ⟨x, n, hdone, -, hall⟩ := hprogresses.runFrame hroom
  exact ⟨m₀, hstart, hm, hprogresses, hroom, x, n, hdone, hall⟩

end Machine

end R3000
