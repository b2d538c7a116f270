import Mathlib
import R3000.Proofs.Sizes
import R3000.Proofs.Machine.LaterRuns
import R3000.Proofs.Machine.Owned

/-!
# A reset machine

A reset leaves nothing of what a machine did before but the contents of its memory and the cycle counter.  Without
devices and hooks the reset machine is the one that would be built anew, with these contents and the queued image, as
many cycles later as the counter had come to; so every run of it is a run of the new one.
-/

namespace R3000.Machine

open Recompiler

variable {δ : Type} {hw : Hardware δ} {hooks : Hooks δ} {W : Memory → Memory → Prop} {limits : Limits}
  {settings : Settings} {m m' m₀ n₀ : Machine TranslatorStats Block δ} {bios : ByteArray} {device : δ}

/-! ### What every machine keeps -/

lemma lasting_sized (limits : Limits) : Lasting (.standard true Translator.functionVectors) (Sized limits) where
  resolve _ memory pc h := h.resolve true Translator.functionVectors memory.source pc
  flush _ _ h hflush := h.flush hflush
  invalidate _ start len h := h.invalidate start len
  refineIdle _ pc h := h.refineIdle pc .none
  resetStats _ h := h.resetStats _

lemma standard_dispatchEvents (P : Parts TranslatorStats Block δ) (m : Machine TranslatorStats Block δ) :
    (m.dispatchEvents P).raster.standard = m.raster.standard := by
  let I (x : Machine TranslatorStats Block δ) : Prop := x.raster.standard = m.raster.standard
  have hevent : ∀ now c k x, I x → I (x.onEvent P now c k) := by
    intro now c k x hx
    cases c with
    | batch =>
      dsimp only [onEvent, onBatch]
      split <;> exact hx
    | _ => exact hx
  have hsync : ∀ stats x, I x → I ({ x with stats }.syncInterrupts P) := fun stats x hx =>
    (congrArg Raster.standard (still_syncInterrupts P { x with stats }).raster).trans hx
  exact dispatchEvents_keeps (I := I) (fun _ _ hx => hx) hevent hsync rfl

/-- The television standard stays. -/
lemma invariant_standard (hw : Hardware δ) (hooks : Hooks δ) (standard : Standard) :
    Invariant (.standard hw hooks) fun m : Machine TranslatorStats Block δ => m.raster.standard = standard where
  pass m deadline h := by
    have hpass := undisturbed_pass (Schedule.granted_tidy.keeps hw) hooks deadline m
    exact (congrArg Raster.standard hpass.raster).trans h
  dispatchEvents m h := (standard_dispatchEvents _ m).trans h
  newFrame _ h := h
  reset m m' h hreset := by
    obtain ⟨flushed, hflush, rfl⟩ := reset_eq_ok hreset
    exact (congrArg Raster.standard (still_flushCode hflush).raster).trans h
  flushCode _ _ h hflush := (congrArg Raster.standard (still_flushCode hflush).raster).trans h
  invalidate m addr len h := (congrArg Raster.standard (still_invalidate m addr len).raster).trans h
  queue _ _ h := h
  resetStats _ h := h

/-- A machine with its settings, their television standard, and stores of the sizes that they ask for. -/
structure Configured (settings : Settings) (m : Machine TranslatorStats Block δ) : Prop where
  kept : m.settings = settings
  standard : m.raster.standard = settings.standard
  sized : m.recompiler.Sized settings.limits

lemma configured_ofTranslator {P : Parts TranslatorStats Block δ}
    (hstart : ofTranslator P settings bios device {} = .ok m₀) : m₀.Configured settings := by
  obtain ⟨r, hcreate, rfl⟩ := ofTranslator_eq_ok hstart
  exact ⟨rfl, rfl, .create hcreate⟩

lemma configured_owned (h : m₀.Configured settings) (hm : Owned hw W m₀ m) : m.Configured settings where
  kept := hm.invariant (fun hooks _ => (codeInvariant_settings (.standard hw hooks) settings).invariant)
    (fun _ _ _ _ _ hx _ => hx) h.kept
  standard := hm.invariant (fun hooks _ => invariant_standard hw hooks settings.standard)
    (fun _ _ _ _ _ hx _ => hx) h.standard
  sized := by
    let I (x : Machine TranslatorStats Block δ) : Prop := x.recompiler.Sized settings.limits
    refine hm.invariant (I := I) (fun hooks _ => ?_) (fun _ _ _ _ _ hx _ => hx) h.sized
    exact ((lasting_sized settings.limits).codeInvariant (P := .standard hw hooks)).invariant

/-! ### The machine built anew -/

/-- The machine with the contents of a memory, and with an image queued if there is one. -/
def furnish (memory : Memory) (image : Option ByteArray) (m : Machine TranslatorStats Block δ) :
    Machine TranslatorStats Block δ :=
  { m with
    board.memory := { m.board.memory with
      ram := memory.ram
      scratchpad := memory.scratchpad
      bios := memory.bios
      cacheControl := memory.cacheControl }
    loader := image
    loaded := image.isNone }

lemma Near.furnish {bound : Nat} (h : m.Near settings bound) (memory : Memory) (image : Option ByteArray) :
    (m.furnish memory image).Near settings bound := by
  obtain ⟨⟨hcapped, hwired, hawaits, hcome⟩, hdeadline⟩ := h
  exact ⟨⟨⟨hcapped.kept, hcapped.code⟩, hwired, ⟨rfl, hawaits.pending, hawaits.tidy, hawaits.routed⟩, hcome⟩, hdeadline⟩

/-- A new machine awaits its first batch. -/
lemma near_ofTranslator (hstart : ofTranslator (alone δ) settings bios device {} = .ok n₀) :
    n₀.Near settings 0 ∧ n₀.cycles = 0 := by
  have hcapped := capped_ofTranslator hstart
  have hwired := wired_ofTranslator hstart
  obtain ⟨r, -, rfl⟩ := ofTranslator_eq_ok hstart
  have hawaits : (assemble (alone δ) settings bios device r).Awaits _ := awaits_powerOn ..
  have hcome : 0 < ((Raster.ofStandard settings.standard).start 0).deadline := by
    change 0 < 0 + Raster.batchCycles 0
    decide
  have hdeadline : ((Raster.ofStandard settings.standard).start 0).deadline.toNat ≤ max 0 0 + Raster.fullBatch := by
    change (0 + Raster.batchCycles 0).toNat ≤ _
    decide
  exact ⟨⟨⟨hcapped, hwired, hawaits.raster.symm ▸ hawaits, hcome⟩, hdeadline⟩, rfl⟩

/-- Machines that differ by the cycle, and in the events and the counts, are so far apart once they are on. -/
lemma later_powerOn {c : UInt64} {x y : Machine TranslatorStats Block δ} (hsettings : y.settings = x.settings)
    (hcpu : y.cpu = x.cpu) (hmemory : y.memory = x.memory)
    (hinterrupts : y.board.io.interrupts = x.board.io.interrupts)
    (hstandard : y.raster.standard = x.raster.standard) (hcode : x.recompiler.SameCode y.recompiler)
    (hloader : y.loader = x.loader) (hcycles : Apart c x.cycles y.cycles)
    (hage : x.events.nextAge ≤ y.events.nextAge)
    (hfits : x.cycles.toNat + Raster.longestFrame + c.toNat < 2 ^ 64) :
    Later c (y.events.nextAge - x.events.nextAge) (powerOn (alone δ) x) (powerOn (alone δ) y) := by
  have hadd : ∀ k : UInt64, k.toNat ≤ Raster.longestFrame → Apart c (x.cycles + k) (y.cycles + k) := fun k hk =>
    hcycles.add_of_fits (by omega)
  have hbatch : Apart c (x.raster.start x.cycles).deadline (y.raster.start y.cycles).deadline :=
    hadd (Raster.batchCycles 0) (by decide)
  have hblank : Apart c (x.raster.blankDeadline x.cycles) (y.raster.blankDeadline y.cycles) := by
    rw [Raster.blankDeadline, Raster.blankDeadline, hstandard]
    refine hadd _ ?_
    cases x.raster.standard <;> decide
  exact {
    settings := hsettings
    cpu := hcpu
    memory := hmemory
    interrupts := hinterrupts
    events := ((Schedule.Later.clear c hage).add .hblank .batch hbatch).add .vblank .blank hblank
    standard := hstandard
    scanline := rfl
    deadline := hbatch
    code := hcode
    loader := hloader
    loaded := congrArg Option.isNone hloader
    cycles := hcycles
    watch := rfl
    frameDone := rfl }

/-- Power-on looks at no memory. -/
lemma furnish_powerOn (memory : Memory) (image : Option ByteArray) (m : Machine TranslatorStats Block δ) :
    (powerOn (alone δ) m).furnish memory image = powerOn (alone δ) (m.furnish memory image) := rfl

/-- A reset machine is the one built anew with the same memory and image, as many cycles later as its counter had come
to. -/
lemma later_reset (hm : m.Configured settings) (hreset : m.reset (alone δ) = .ok m')
    (hstart : ofTranslator (alone δ) settings bios device {} = .ok n₀)
    (hfits : Raster.longestFrame + m.cycles.toNat < 2 ^ 64) :
    ∃ age, Later m.cycles age (n₀.furnish m.memory m.loader) m' := by
  obtain ⟨flushed, hflush, rfl⟩ := reset_eq_ok hreset
  obtain ⟨r, hr, rfl⟩ := flushCode_eq_ok hflush
  obtain ⟨r₀, hcreate, rfl⟩ := ofTranslator_eq_ok hstart
  have hcode : r₀.SameCode r := by
    rw [(create_eq_ok_iff.mp hcreate).2]
    exact hm.sized.sameCode_flush hr {}
  rw [assemble, furnish_powerOn]
  refine ⟨_, later_powerOn hm.kept rfl rfl rfl hm.standard hcode rfl ?_ (Nat.zero_le _) ?_⟩
  · exact (Nat.zero_add _).symm
  · exact (Nat.zero_add _).symm ▸ hfits

/-- A reset leaves no residue: whatever was done to a machine without devices, it can be reset, and every sequence of
calls gives the same back from then on as from a machine built anew with the same memory and queued image, for targets
that are as much later as the counter had come to at the reset.  The machines stay the same up to that distance, as
long as the counter and the deadlines can be held. -/
theorem reset_restarts (hstart : ofTranslator (alone δ) settings bios device {} = .ok m₀)
    (hm : Owned (.absent δ) W m₀ m) :
    ∃ m', m.reset (alone δ) = .ok m' ∧ ∀ bios' device', ∃ n₀,
      ofTranslator (alone δ) settings bios' device' {} = .ok n₀ ∧ ∀ calls : List Call,
        calls.foldl (Call.reach settings) 0 + Raster.longestFrame + m.cycles.toNat < 2 ^ 64 →
          ∃ age, Repeats m.cycles age ((n₀.furnish m.memory m.loader).performAll (alone δ) calls)
            (m'.performAll (alone δ) (calls.map (Call.later m.cycles))) := by
  have hconfigured := configured_owned (configured_ofTranslator hstart) hm
  obtain ⟨r, hcreate, -⟩ := ofTranslator_eq_ok hstart
  obtain ⟨r', hflush⟩ : ∃ r', m.recompiler.flush = .ok r' := exists_flush <| by
    rw [CodeStore.FitsStubs, hconfigured.sized.codeCapacity, hconfigured.sized.native]
    exact (create_eq_ok_iff.mp hcreate).1.code
  have hreset : ∃ m', m.reset (alone δ) = .ok m' := by
    dsimp only [reset, flushCode, mapIo]
    rw [hflush]
    exact ⟨_, rfl⟩
  obtain ⟨m', hreset⟩ := hreset
  refine ⟨m', hreset, fun bios' device' => ⟨_, ofTranslator_of_create hcreate, fun calls hfits => ?_⟩⟩
  have hstart' : ofTranslator (alone δ) settings bios' device' {} = .ok (assemble (alone δ) settings bios' device' r) :=
    ofTranslator_of_create hcreate
  obtain ⟨age, hlater⟩ := later_reset hconfigured hreset hstart' (by omega)
  obtain ⟨hnear, -⟩ := near_ofTranslator hstart'
  exact ⟨age, hlater.performAll (hnear.furnish ..) le_rfl calls hfits⟩

/-- A machine that ran for a step and waits for an image does after a reset what a new one does. -/
theorem reset_restarts_default :
    let P := Parts.standard (.absent Unit) (.none Unit)
    ∃ m₀ m m' n₀ : Machine TranslatorStats Block Unit, ofTranslator P {} .empty () {} = .ok m₀ ∧
      Owned (.absent Unit) (fun _ _ => True) m₀ m ∧ 0 < m.cycles ∧ m.reset P = .ok m' ∧
        ofTranslator P {} .empty () {} = .ok n₀ ∧
          ∃ age, Repeats m.cycles age ((n₀.furnish m.memory m.loader).performAll P [.runUntil 9 1000, .runFrame 20])
            (m'.performAll P [.runUntil 9 (1000 + m.cycles), .runFrame 20]) := by
  intro P
  let m₀ := assemble P {} .empty () (.bare {} {})
  have hstart : ofTranslator P {} .empty () {} = .ok m₀ := ofTranslator_eq_bare (by decide) _ _ _
  -- a step towards cycle 100 moves the counter on, but by no more than a stride
  obtain ⟨hnear, hzero⟩ := near_ofTranslator hstart
  have hpaced : m₀.Paced {} := paced_ofTranslator hstart (by decide) (Limits.codeFits_of_plain rfl (by decide))
  have hfits : m₀.Fits {} := hpaced.fits <| by
    change 0 + 1 * Settings.stride {} + Raster.longestFrame < 2 ^ 64
    decide
  obtain ⟨-, hreached⟩ := hnear.of_strides le_rfl (hnear.poised.stepUpTo hfits 100)
  obtain ⟨x, hx, hsteps⟩ := hpaced.stepUpTo (.none Unit) hfits 100
  have hlimit : m₀.cycles < 100 := hzero ▸ by decide
  have hmoved : 0 < x.cycles := UInt64.lt_of_lt_of_le (hpaced.lt_stepDeadline hfits hlimit) hsteps.reached
  have hran : Reached P m₀ (m₀.stepUpTo P 100).2 := .stepUpTo 100 .start
  rw [hx] at hreached hran
  have howned : Owned (.absent Unit) (fun _ _ => True) m₀ (x.queue .empty) :=
    .reached .start (Hooks.within_none fun _ => trivial) (.queue .empty hran)
  obtain ⟨m', hreset, hruns⟩ := reset_restarts hstart howned
  obtain ⟨n₀, hnew, hcalls⟩ := hruns .empty ()
  have hroom : max 0 (1000 : UInt64).toNat + Settings.stride {} + 9 * Settings.stride {} + Raster.longestFrame +
      (0 + Settings.stride {}) < 2 ^ 64 := by decide
  obtain ⟨age, hrepeats⟩ := hcalls [.runUntil 9 1000, .runFrame 20] ((Nat.add_le_add_left hreached _).trans_lt hroom)
  exact ⟨m₀, _, m', n₀, hstart, howned, hmoved, hreset, hnew, age, hrepeats⟩

end R3000.Machine
