import Mathlib
import R3000.Proofs.Machine.Calls
import R3000.Proofs.Machine.Later

/-!
# Runs some cycles later

Without devices and hooks, a machine that is another one some cycles later stays so through every call of its owner,
if the targets of its runs are as much later.  This holds while its counter and the deadlines that it sets stay below
`2 ^ 64`; `Call.reach` tells how far a call can take the counter.
-/

namespace R3000

/-- The deadlines are a distance apart, or both never come. -/
def Schedule.LimitsApart (c limit limit' : UInt64) : Prop :=
  Apart c limit limit' ∨ limit = never ∧ limit' = never

namespace Machine

variable {δ : Type} {c : UInt64} {age bound : Nat} {settings : Settings} {n m x y : Machine TranslatorStats Block δ}
  {limit limit' now now' d d' : UInt64}

/-! ### Machines between two calls -/

/-- A machine between two steps: it waits for the next batch, which is still to come, and its blocks are as short as its
settings ask. -/
structure Poised (settings : Settings) (m : Machine TranslatorStats Block δ) : Prop where
  capped : m.Capped settings
  wired : m.recompiler.Wired
  awaits : m.Awaits m.raster
  later : m.cycles < m.raster.deadline

/-- Passes that start before a deadline end before it is overrun. -/
lemma toNat_cycles_passes_le (hw : Hardware δ) (hooks : Hooks δ) (hcapped : m.Capped settings)
    (hwired : m.recompiler.Wired) (deadline : UInt64) (fuel : Nat) :
    (m.passes (.standard hw hooks) deadline fuel).2.cycles.toNat ≤
      max m.cycles.toNat (deadline.toNat + settings.overrun) := by
  induction fuel generalizing m with
  | zero => exact le_max_left ..
  | succ fuel ih =>
    rw [passes]
    split
    · rename_i hgo
      have hlt := toNat_cycles_pass_lt hw hooks hcapped hwired settings.within_overrun hgo
      have hcapped' := (codeInvariant_capped hw hooks settings).invariant.pass m deadline hcapped
      have hwired' := (codeInvariant_wired hw hooks).invariant.pass m deadline hwired
      split <;> rename_i heq <;> rw [heq] at hlt hcapped' hwired'
      · exact (ih hcapped' hwired').trans (max_le (hlt.le.trans (le_max_right ..)) (le_max_right ..))
      · exact hlt.le.trans (le_max_right ..)
      · exact hlt.le.trans (le_max_right ..)
    · exact le_max_left ..

/-- What a step comes to: the next batch is served or still to come, and one that is served ends the frame or leaves one
less to come. -/
structure Strides (settings : Settings) (m m' : Machine TranslatorStats Block δ) : Prop where
  poised : m'.Poised settings
  late : m'.cycles.toNat ≤ m.raster.deadline.toNat + settings.overrun
  batch : m'.raster = m.raster ∨ m'.raster.deadline.toNat ≤ m'.cycles.toNat + Raster.fullBatch ∧
    (m'.frameDone = true ∨ m'.raster.batchesLeft + 1 = m.raster.batchesLeft)

namespace Poised

/-- The loop of a step leaves the batch alone, which it overruns by no more than a block. -/
lemma execute (h : m.Poised settings) (limit : UInt64) :
    let x := (m.execute (alone δ) (m.stepDeadline limit)).2
    x.Capped settings ∧ x.recompiler.Wired ∧ x.Awaits m.raster ∧
      x.cycles.toNat ≤ m.raster.deadline.toNat + settings.overrun := by
  have hcycles : (m.execute (alone δ) (m.stepDeadline limit)).2.cycles.toNat ≤
      max m.cycles.toNat ((m.stepDeadline limit).toNat + settings.overrun) :=
    toNat_cycles_passes_le (.absent δ) (.none δ) h.capped h.wired _ _
  have hdeadline := UInt64.le_iff_toNat_le.mp (h.awaits.stepDeadline_le limit)
  have hlater := UInt64.lt_iff_toNat_lt.mp h.later
  refine ⟨?_, ?_, awaits_passes h.awaits _ _, by omega⟩
  · exact (codeInvariant_capped (.absent δ) (.none δ) settings).invariant.passes _ h.capped
  · exact (codeInvariant_wired (.absent δ) (.none δ)).invariant.passes _ h.wired

/-- After a step, which may fail, the next batch is still to come. -/
lemma stepUpTo (h : m.Poised settings) (hfits : m.Fits settings) (limit : UInt64) :
    Strides settings m (m.stepUpTo (alone δ) limit).2 := by
  obtain ⟨hcapped, hwired, hawaits, hlate⟩ := h.execute limit
  rw [Machine.stepUpTo]
  split <;> rename_i x heq <;> rw [heq] at hcapped hwired hawaits hlate <;> dsimp only at hcapped hwired hawaits hlate ⊢
  · have hlt : x.cycles < m.stepDeadline limit := lt_of_passes_failed heq
    refine ⟨⟨hcapped, hwired, hawaits.raster.symm ▸ hawaits, ?_⟩, hlate, .inl hawaits.raster⟩
    rw [hawaits.raster]
    exact UInt64.lt_of_lt_of_le hlt (h.awaits.stepDeadline_le limit)
  · have hcycles := cycles_dispatchEvents (alone δ) x
    have hcapped' := (codeInvariant_capped (.absent δ) (.none δ) settings).invariant.dispatchEvents x hcapped
    have hwired' := (codeInvariant_wired (.absent δ) (.none δ)).invariant.dispatchEvents x hwired
    rw [Fits, Raster.longestFrame] at hfits
    rcases batch_dispatchEvents (alone δ) hawaits with ⟨hserved, hrest⟩ | ⟨hdue, hrest, hframe⟩
    · refine ⟨⟨hcapped', hwired', hrest.raster.symm ▸ hrest, ?_⟩, hcycles.symm ▸ hlate, .inl hrest.raster⟩
      rw [hrest.raster, hcycles, ← UInt64.not_le]
      intro hle
      have hnever : m.raster.deadline.toNat + 1 = 2 ^ 64 := congrArg (UInt64.toNat · + 1) (hserved hle)
      omega
    · refine ⟨⟨hcapped', hwired', hrest.raster.symm ▸ hrest, ?_⟩, hcycles.symm ▸ hlate, .inr ⟨?_, ?_⟩⟩
      · rw [hrest.raster, hcycles]
        exact m.raster.lt_advance (by omega)
      · rw [hrest.raster, hcycles]
        exact Raster.advance_le hdue
      · rw [hrest.raster]
        exact hframe

end Poised

/-- A poised machine whose next batch is due within a full batch of a cycle, or of the counter if that is further on. -/
structure Near (settings : Settings) (bound : Nat) (m : Machine TranslatorStats Block δ) : Prop where
  poised : m.Poised settings
  deadline : m.raster.deadline.toNat ≤ max bound m.cycles.toNat + Raster.fullBatch

namespace Near

lemma mono (h : m.Near settings bound) {bound' : Nat} (hle : bound ≤ bound') : m.Near settings bound' :=
  ⟨h.poised, h.deadline.trans (Nat.add_le_add_right (max_le_max hle le_rfl) _)⟩

/-- A step from before a cycle leaves the next batch as near to it. -/
lemma of_strides (h : m.Near settings bound) (hle : m.cycles.toNat ≤ bound) (hstrides : Strides settings m x) :
    x.Near settings bound ∧ x.cycles.toNat ≤ bound + settings.stride := by
  have hnear := h.deadline
  have hlate := hstrides.late
  refine ⟨⟨hstrides.poised, ?_⟩, ?_⟩
  · rcases hstrides.batch with hsame | ⟨hdeadline, -⟩
    · rw [hsame]
      omega
    · omega
  · rw [Settings.stride]
    omega

end Near

namespace Later

/-! ### Events -/

lemma schedule (h : Later c age x y) (k : EventKind) (callback : Callback) (hd : Apart c d d') :
    Later c age (x.schedule k d callback) (y.schedule k d' callback) :=
  { h with cpu := h.cpu, events := h.events.add k callback hd }

lemma endFrame (h : Later c age x y) : Later c age (x.endFrame (alone δ) now) (y.endFrame (alone δ) now') :=
  { h with cpu := h.cpu, interrupts := congrArg (Interrupts.raise · .vblank) h.interrupts, frameDone := rfl }

/-- The raster goes on to the same scanline, and to a deadline as much later. -/
lemma advance (h : Later c age x y) (hdue : x.raster.deadline ≤ now) (hnow : Apart c now now')
    (hfits : now.toNat + Raster.longestFrame + c.toNat < 2 ^ 64) :
    Later c age { x with raster := x.raster.advance now } { y with raster := y.raster.advance now' } := by
  have hends : y.raster.endsFrame = x.raster.endsFrame := by
    rw [Raster.endsFrame, h.scanline, Raster.endsFrame]
  have hscanline : (y.raster.advance now').scanline = (x.raster.advance now).scanline := by
    dsimp only [Raster.advance]
    rw [hends, h.scanline]
  have hdeadline : Apart c (x.raster.advance now).deadline (y.raster.advance now').deadline := by
    dsimp only [Raster.advance]
    rw [hends, h.scanline]
    generalize (if x.raster.endsFrame then 0 else x.raster.scanline + Raster.batchFrom x.raster.scanline) = line
    have hdue' := UInt64.le_iff_toNat_le.mp hdue
    have hbatch := Raster.toNat_batchCycles_le line
    have hframe : Raster.fullBatch ≤ Raster.longestFrame := by decide
    have hone : (1 : UInt64).toNat ≤ Raster.longestFrame := by decide
    have hideal : Apart c (x.raster.deadline + Raster.batchCycles line) (y.raster.deadline + Raster.batchCycles line) :=
      h.deadline.add_of_fits (by omega)
    simp only [hideal.le_iff hnow]
    split
    · exact hnow.add_of_fits (by omega)
    · exact hideal
  exact { h with cpu := h.cpu, standard := h.standard, scanline := hscanline, deadline := hdeadline }

/-- The same event leaves the machines as far apart. -/
lemma onEvent (h : Later c age x y) (hnow : Apart c now now')
    (hfits : now.toNat + Raster.longestFrame + c.toNat < 2 ^ 64) (callback : Callback) (k : EventKind)
    (hdue : callback = .batch → x.raster.deadline ≤ now) :
    Later c age (x.onEvent (alone δ) now callback k) (y.onEvent (alone δ) now' callback k) := by
  cases callback with
  | batch =>
    have hadvance := h.advance (hdue rfl) hnow hfits
    have hends : y.raster.endsFrame = x.raster.endsFrame := by
      rw [Raster.endsFrame, h.scanline, Raster.endsFrame]
    dsimp only [Machine.onEvent, onBatch]
    rw [hends]
    split
    · exact hadvance.endFrame.schedule .hblank .batch hadvance.deadline
    · exact hadvance.schedule .hblank .batch hadvance.deadline
  | blank =>
    have hframe : x.raster.standard.frameCycles.toNat ≤ Raster.longestFrame := by
      cases x.raster.standard <;> decide
    have hblank : Apart c (x.raster.blankDeadline now) (y.raster.blankDeadline now') := by
      rw [Raster.blankDeadline, Raster.blankDeadline, h.standard]
      exact hnow.add_of_fits (by omega)
    have hresponded : Later c age (x.respond ((alone δ).hardware.onBlank now))
        (y.respond ((alone δ).hardware.onBlank now')) := { h with cpu := h.cpu }
    exact hresponded.schedule .vblank .blank hblank
  | device => exact { h with cpu := h.cpu }

/-- The same events fire, in the same order. -/
lemma fireDue (h : Later c age x y) (hawaits : x.Awaits x.raster) (hnow : Apart c now now')
    (hfits : now.toNat + Raster.longestFrame + c.toNat < 2 ^ 64) :
    Later c age (x.fireDue (alone δ) now).2 (y.fireDue (alone δ) now').2 := by
  let R (x y : Machine TranslatorStats Block δ) : Prop := Later c age x y ∧ x.Awaits x.raster
  have hfired : R (x.fireDue (alone δ) now).2 (y.fireDue (alone δ) now').2 := by
    rw [Machine.fireDue, Machine.fireDue, Schedule.dispatch, Schedule.dispatch, h.events.nextAge]
    refine Schedule.fireBefore_rel (R := R) (S := Pending.Later c age) (fun _ _ => Pending.Later.callback) ?_ ?_ _
      ⟨h, hawaits⟩
    · exact fun x y hxy => hxy.1.events.due_eq hnow _
    · rintro k q x y ⟨hxy, hx⟩ hdue
      obtain ⟨⟨hq, hle, -⟩, -⟩ := Schedule.due_eq_some hdue
      rw [hx.routed k q hq]
      have herased : Later c age (x.withEvents (x.events.erase k)) (y.withEvents (y.events.erase k)) :=
        { hxy with cpu := hxy.cpu, events := hxy.events.erase k }
      refine ⟨herased.onEvent hnow hfits k.callback k ?_, ?_⟩
      · intro hbatch
        obtain rfl := EventKind.eq_hblank hbatch
        obtain ⟨p, hp, hdeadline⟩ := hx.exists_pending
        obtain rfl := Option.some.inj (hp.symm.trans hq)
        exact hdeadline ▸ hle
      · by_cases hk : k = .hblank
        · subst hk
          obtain ⟨hrest, -⟩ := hx.fire_hblank (alone δ) now
          exact hrest.raster.symm ▸ hrest
        · obtain ⟨hrest, -⟩ := hx.fire_of_ne (alone δ) now hk
          exact hrest.raster.symm ▸ hrest
  exact hfired.1

/-- A soonest deadline is as much later as every other one. -/
lemma soonest (h : Later c age n m) (hawaits : n.Awaits n.raster) : Apart c n.events.soonest m.events.soonest := by
  obtain ⟨p, hp, -⟩ := hawaits.exists_pending
  exact h.events.soonest hp

/-- Both know their soonest deadlines. -/
lemma nextDeadline (h : Later c age n m) (hawaits : n.Awaits n.raster)
    (hfits : n.raster.deadline.toNat + c.toNat + 1 < 2 ^ 64) :
    n.events.nextDeadline = some n.events.soonest ∧ m.events.nextDeadline = some m.events.soonest := by
  obtain ⟨p, hp, hdeadline⟩ := hawaits.exists_pending
  have hsoonest : n.events.soonest.toNat ≤ n.raster.deadline.toNat :=
    hdeadline ▸ UInt64.le_iff_toNat_le.mp (hawaits.tidy.soonest_le hp)
  have hapart := h.soonest hawaits
  rw [Apart] at hapart
  exact ⟨Schedule.nextDeadline_of_lt (by omega), Schedule.nextDeadline_of_lt (by omega)⟩

/-- A dispatch of the events fires the same ones. -/
lemma dispatchEvents (h : Later c age n m) (hawaits : n.Awaits n.raster)
    (hdeadline : n.raster.deadline.toNat + c.toNat + 1 < 2 ^ 64)
    (hfits : n.cycles.toNat + Raster.longestFrame + c.toNat < 2 ^ 64) :
    Later c age (n.dispatchEvents (alone δ)) (m.dispatchEvents (alone δ)) := by
  obtain ⟨hnext, hnext'⟩ := h.nextDeadline hawaits hdeadline
  have hdue := (h.soonest hawaits).le_iff h.cycles
  rw [Machine.dispatchEvents, Machine.dispatchEvents, hnext, hnext']
  dsimp only
  simp only [hdue]
  split
  · have hfired := h.fireDue hawaits h.cycles hfits
    exact (hfired.stats _ _).syncInterrupts
  · exact h

/-! ### Steps -/

/-- A step works towards a deadline as much later. -/
lemma stepDeadline (h : Later c age n m) (hawaits : n.Awaits n.raster) (hlimit : Schedule.LimitsApart c limit limit')
    (hfits : n.raster.deadline.toNat + c.toNat + 1 < 2 ^ 64) :
    Apart c (n.stepDeadline limit) (m.stepDeadline limit') := by
  obtain ⟨hnext, hnext'⟩ := h.nextDeadline hawaits hfits
  have hsoonest := h.soonest hawaits
  rw [Machine.stepDeadline, Machine.stepDeadline, hnext, hnext', Option.getD_some, Option.getD_some]
  rcases hlimit with hlimit | ⟨rfl, rfl⟩
  · exact hsoonest.min hlimit
  · have hmin : ∀ d : UInt64, min d Schedule.never = d := fun d => by
      rw [← UInt64.toNat_inj, UInt64.toNat_min]
      exact min_eq_left (UInt64.le_iff_toNat_le.mp (Schedule.le_never d))
    rwa [hmin, hmin]

/-- The counter can hold the step that works towards the next batch, also a distance later. -/
def Fits (c : UInt64) (settings : Settings) (n : Machine TranslatorStats Block δ) : Prop :=
  n.raster.deadline.toNat + settings.overrun + Raster.longestFrame + c.toNat < 2 ^ 64

/-- A step does the same, as much later. -/
theorem stepUpTo (h : Later c age n m) (hn : n.Poised settings) (hlimit : Schedule.LimitsApart c limit limit')
    (hfits : Fits c settings n) :
    Repeats c age (n.stepUpTo (alone δ) limit) (m.stepUpTo (alone δ) limit') ∧
      Strides settings n (n.stepUpTo (alone δ) limit).2 := by
  have hframe : 1 < Raster.longestFrame := by decide
  rw [Fits] at hfits
  refine ⟨?_, hn.stepUpTo (by rw [Machine.Fits]; omega) limit⟩
  have hdeadline := h.stepDeadline hn.awaits hlimit (by omega)
  have hbatch := UInt64.le_iff_toNat_le.mp (hn.awaits.stepDeadline_le limit)
  obtain ⟨-, -, hawaits, hlate⟩ := hn.execute limit
  obtain ⟨failure, x, x', hran, hran', hlater⟩ := (h.execute hn.capped hn.wired hdeadline (by omega)).exists_eq
  rw [hran] at hawaits hlate
  dsimp only at hawaits hlate
  rw [Machine.stepUpTo, Machine.stepUpTo, hran, hran']
  cases failure with
  | some err => exact ⟨rfl, hlater⟩
  | none =>
    refine ⟨rfl, hlater.dispatchEvents (hawaits.raster.symm ▸ hawaits) ?_ (by omega)⟩
    rw [hawaits.raster]
    omega

/-! ### Runs -/

/-- A loop of steps does the same, as much later, if its condition does not tell the machines apart and every step of it
has room; `I` says what holds of the first machine between the steps. -/
lemma stepWhile {I : Machine TranslatorStats Block δ → Prop} {go go' : Machine TranslatorStats Block δ → Bool}
    (hlimit : Schedule.LimitsApart c limit limit') (hgo : ∀ x y, Later c age x y → go' y = go x)
    (hI : ∀ x, I x → go x = true → x.Poised settings ∧ Fits c settings x)
    (hstep : ∀ x y, I x → go x = true → Strides settings x y → I y)
    (fuel : Nat) (h : Later c age n m) (hn : I n) :
    Repeats c age (n.stepWhile (alone δ) limit go fuel) (m.stepWhile (alone δ) limit' go' fuel) ∧
      I (n.stepWhile (alone δ) limit go fuel).2 := by
  induction fuel generalizing n m with
  | zero =>
    rw [Machine.stepWhile, Machine.stepWhile, hgo n m h]
    exact ⟨⟨rfl, h⟩, hn⟩
  | succ fuel ih =>
    rw [Machine.stepWhile, Machine.stepWhile, hgo n m h]
    by_cases hmore : go n = true
    · rw [if_pos hmore, if_pos hmore]
      obtain ⟨hpoised, hfits⟩ := hI n hn hmore
      obtain ⟨hrepeats, hstrides⟩ := h.stepUpTo hpoised hlimit hfits
      obtain ⟨failure, x, x', hran, hran', hlater⟩ := hrepeats.exists_eq
      rw [hran] at hstrides
      have hafter := hstep n x hn hmore hstrides
      rw [hran, hran']
      cases failure with
      | some err => exact ⟨⟨rfl, hlater⟩, hafter⟩
      | none => exact ih hlater hafter
    · rw [if_neg hmore, if_neg hmore]
      exact ⟨⟨rfl, h⟩, hn⟩

/-- A run does the same up to a target as much later. -/
lemma runUntil (h : Later c age n m) (hn : n.Near settings bound) (hle : n.cycles.toNat ≤ bound) (fuel : Nat)
    {target target' : UInt64} (htarget : Apart c target target')
    (hfits : max bound target.toNat + settings.stride + Raster.longestFrame + c.toNat < 2 ^ 64) :
    Repeats c age (n.runUntil (alone δ) fuel target) (m.runUntil (alone δ) fuel target') ∧
      (n.runUntil (alone δ) fuel target).2.Near settings (max bound target.toNat) ∧
        (n.runUntil (alone δ) fuel target).2.cycles.toNat ≤ max bound target.toNat + settings.stride := by
  let I (x : Machine TranslatorStats Block δ) : Prop :=
    x.Near settings (max bound target.toNat) ∧ x.cycles.toNat ≤ max bound target.toNat + settings.stride
  have hgo : ∀ x y : Machine TranslatorStats Block δ, Later c age x y →
      decide (y.cycles < target') = decide (x.cycles < target) := fun x y hxy =>
    decide_eq_decide.mpr (hxy.cycles.lt_iff htarget)
  have hbefore : ∀ x : Machine TranslatorStats Block δ, decide (x.cycles < target) = true →
      x.cycles.toNat ≤ max bound target.toNat := fun x hmore =>
    (UInt64.lt_iff_toNat_lt.mp (of_decide_eq_true hmore)).le.trans (le_max_right ..)
  have hstart : I n := ⟨hn.mono (le_max_left ..), hle.trans ((le_max_left ..).trans (Nat.le_add_right ..))⟩
  have hroom : ∀ x, I x → decide (x.cycles < target) = true → x.Poised settings ∧ Fits c settings x := by
    rintro x ⟨hx, -⟩ hmore
    have hdeadline := hx.deadline
    have hcycles := hbefore x hmore
    rw [Settings.stride] at hfits
    refine ⟨hx.poised, ?_⟩
    rw [Fits]
    omega
  have hstep : ∀ x y, I x → decide (x.cycles < target) = true → Strides settings x y → I y :=
    fun x y hx hmore => hx.1.of_strides (hbefore x hmore)
  exact stepWhile (.inl htarget) hgo hroom hstep fuel h hstart

/-- A frame is the same, as much later. -/
lemma runFrame (h : Later c age n m) (hn : n.Near settings bound) (hle : n.cycles.toNat ≤ bound) (fuel : Nat)
    (hfits : bound + 9 * settings.stride + Raster.longestFrame + c.toNat < 2 ^ 64) :
    Repeats c age (n.runFrame (alone δ) fuel) (m.runFrame (alone δ) fuel) ∧
      (n.runFrame (alone δ) fuel).2.Near settings (bound + 9 * settings.stride) ∧
        (n.runFrame (alone δ) fuel).2.cycles.toNat ≤ bound + 9 * settings.stride := by
  -- while the frame is not done, the batches that are left are in reach
  let I (x : Machine TranslatorStats Block δ) : Prop :=
    x.Near settings (bound + 9 * settings.stride) ∧ x.cycles.toNat ≤ bound + 9 * settings.stride ∧
      (x.frameDone = false → x.raster.deadline.toNat + x.raster.batchesLeft * settings.stride + settings.overrun ≤
        bound + 9 * settings.stride)
  have hlater : Later c age { n with frameDone := false } { m with frameDone := false } :=
    { h with cpu := h.cpu, frameDone := rfl }
  have hstride : settings.stride = Raster.fullBatch + settings.overrun := rfl
  have hgo : ∀ x y : Machine TranslatorStats Block δ, Later c age x y → (!y.frameDone) = !x.frameDone :=
    fun x y hxy => congrArg not hxy.frameDone
  have hstart : I { n with frameDone := false } := by
    have hmono := hn.mono (Nat.le_add_right bound (9 * settings.stride))
    obtain ⟨hcapped, hwired, hawaits, hcome⟩ := hn.poised
    have hawaits' : { n with frameDone := false }.Awaits n.raster :=
      ⟨rfl, hawaits.pending, hawaits.tidy, hawaits.routed⟩
    refine ⟨⟨⟨⟨hcapped.kept, hcapped.code⟩, hwired, hawaits', hcome⟩, hmono.deadline⟩, hle.trans (Nat.le_add_right ..), fun _ => ?_⟩
    have hdeadline := hn.deadline
    have hbatches := Nat.mul_le_mul_right settings.stride n.raster.batchesLeft_le
    change n.raster.deadline.toNat + n.raster.batchesLeft * settings.stride + settings.overrun ≤ _
    omega
  have hroom : ∀ x, I x → (!x.frameDone) = true → x.Poised settings ∧ Fits c settings x := by
    rintro x ⟨hx, -, hreach⟩ hmore
    have hreach := hreach (by simpa using hmore)
    refine ⟨hx.poised, ?_⟩
    rw [Fits]
    omega
  have hstep : ∀ x y, I x → (!x.frameDone) = true → Strides settings x y → I y := by
    rintro x y ⟨hx, hcycles, hreach⟩ hmore hstrides
    have hreach := hreach (by simpa using hmore)
    have hlate := hstrides.late
    refine ⟨(hx.of_strides hcycles hstrides).1, by omega, fun hdone => ?_⟩
    rcases hstrides.batch with hsame | ⟨hdeadline, hended | hless⟩
    · rwa [hsame]
    · rw [hended] at hdone
      cases hdone
    · rw [← hless, Nat.succ_mul] at hreach
      omega
  obtain ⟨hrepeats, hnear, hcycles, -⟩ := stepWhile (.inr ⟨rfl, rfl⟩) hgo hroom hstep fuel hlater hstart
  exact ⟨hrepeats, hnear, hcycles⟩

end Later

/-! ### Calls -/

/-- The call as it is made some cycles later. -/
def Call.later (c : UInt64) : Call → Call
  | runUntil fuel target => runUntil fuel (target + c)
  | call => call

/-- How far a call takes a counter that is no further on than a cycle. -/
def Call.reach (settings : Settings) (now : Nat) : Call → Nat
  | step => now + settings.stride
  | runUntil _ target => max now target.toNat + settings.stride
  | runFrame _ => now + 9 * settings.stride
  | queue _ => now

lemma Call.le_reach (settings : Settings) (now : Nat) (call : Call) : now ≤ call.reach settings now := by
  cases call with
  | step => exact Nat.le_add_right ..
  | runUntil fuel target => exact (le_max_left ..).trans (Nat.le_add_right ..)
  | runFrame fuel => exact Nat.le_add_right ..
  | queue image => exact le_rfl

lemma Call.le_foldl_reach (settings : Settings) (now : Nat) (calls : List Call) :
    now ≤ calls.foldl (Call.reach settings) now := by
  induction calls generalizing now with
  | nil => exact le_rfl
  | cons call calls ih => exact (call.le_reach settings now).trans (ih _)

namespace Later

/-- A call gives the same back as much later. -/
lemma perform (h : Later c age n m) (hn : n.Near settings bound) (hle : n.cycles.toNat ≤ bound) (call : Call)
    (hfits : call.reach settings bound + Raster.longestFrame + c.toNat < 2 ^ 64) :
    Repeats c age (call.perform (alone δ) n) ((call.later c).perform (alone δ) m) ∧
      (call.perform (alone δ) n).2.Near settings (call.reach settings bound) ∧
        (call.perform (alone δ) n).2.cycles.toNat ≤ call.reach settings bound := by
  cases call with
  | step =>
    have hdeadline := hn.deadline
    have hnever : Schedule.LimitsApart c Schedule.never Schedule.never := .inr ⟨rfl, rfl⟩
    obtain ⟨hrepeats, hstrides⟩ := h.stepUpTo hn.poised hnever <| by
      dsimp only [Call.reach, Settings.stride] at hfits
      rw [Fits]
      omega
    obtain ⟨hnear, hcycles⟩ := hn.of_strides hle hstrides
    obtain ⟨failure, x, x', hran, hran', hlater⟩ := hrepeats.exists_eq
    rw [hran] at hnear hcycles
    dsimp only [Call.later, Call.perform, Machine.step]
    rw [hran, hran']
    cases failure <;> exact ⟨⟨rfl, hlater⟩, hnear.mono (Nat.le_add_right ..), hcycles⟩
  | runUntil fuel target =>
    have htarget : Apart c target (target + c) := .of_fits <| by
      dsimp only [Call.reach] at hfits
      omega
    obtain ⟨hrun, hnear, hcycles⟩ := h.runUntil hn hle fuel htarget hfits
    exact ⟨hrun, hnear.mono (Nat.le_add_right ..), hcycles⟩
  | runFrame fuel => exact h.runFrame hn hle fuel hfits
  | queue image =>
    obtain ⟨hcapped, hwired, hawaits, hcome⟩ := hn.poised
    refine ⟨⟨rfl, { h with cpu := h.cpu, loader := rfl, loaded := rfl }⟩, ⟨⟨?_, hwired, ?_, hcome⟩, hn.deadline⟩, hle⟩
    · exact ⟨hcapped.kept, hcapped.code⟩
    · exact ⟨rfl, hawaits.pending, hawaits.tidy, hawaits.routed⟩

/-- Calls give the same back as much later. -/
theorem performAll (h : Later c age n m) (hn : n.Near settings bound) (hle : n.cycles.toNat ≤ bound)
    (calls : List Call) (hfits : calls.foldl (Call.reach settings) bound + Raster.longestFrame + c.toNat < 2 ^ 64) :
    Repeats c age (n.performAll (alone δ) calls) (m.performAll (alone δ) (calls.map (Call.later c))) := by
  induction calls generalizing n m bound with
  | nil => exact ⟨rfl, h⟩
  | cons call calls ih =>
    have hroom := Call.le_foldl_reach settings (call.reach settings bound) calls
    rw [List.foldl_cons] at hfits
    obtain ⟨hcall, hnear, hcycles⟩ := h.perform hn hle call (by omega)
    obtain ⟨r, x, x', hperform, hperform', hlater⟩ := hcall.exists_eq
    rw [hperform] at hnear hcycles
    obtain ⟨rs, z, z', hrest, hrest', hlast⟩ := (ih hlater hnear hcycles hfits).exists_eq
    rw [List.map_cons, Machine.performAll, Machine.performAll, hperform, hperform']
    dsimp only
    rw [hrest, hrest']
    exact ⟨rfl, hlast⟩

end Later

end Machine

end R3000
