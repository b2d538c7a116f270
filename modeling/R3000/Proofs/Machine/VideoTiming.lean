import Mathlib
import R3000.Proofs.Machine.Events
import R3000.Proofs.Raster

/-!
# Video timing

A batch of scanlines is served less than the shortest batch after it was due, so the next one is not due
yet and the deadlines are the running sum of the batches since the last start.  No request of a device, no
block and no hook moves them.
-/

namespace R3000

namespace Machine

variable {τ β δ : Type} {P : Parts τ β δ} {m m' x : Machine τ β δ} {r : Raster} {now : UInt64} {mark : Nat}

/-! ### Events -/

/-- The machine has the raster, and the batch that it waits for is pending. -/
structure Awaits (r : Raster) (m : Machine τ β δ) : Prop where
  raster : m.raster = r
  pending : m.board.io.schedule.deadline? .hblank = some r.deadline
  tidy : m.board.io.schedule.Tidy
  routed : m.board.io.schedule.Routed

lemma Awaits.still (h : m.Awaits r) (hstill : Still m m') : m'.Awaits r where
  raster := hstill.raster.trans h.raster
  pending := hstill.schedule ▸ h.pending
  tidy := hstill.schedule ▸ h.tidy
  routed := hstill.schedule ▸ h.routed

/-- The pending batch. -/
lemma Awaits.exists_pending (h : m.Awaits r) :
    ∃ p, m.board.io.schedule.get? .hblank = some p ∧ p.deadline = r.deadline :=
  Option.map_eq_some_iff.mp h.pending

/-- The kinds of the events that fire at a cycle, in order. -/
def fired (P : Parts τ β δ) (now : UInt64) (m : Machine τ β δ) : List EventKind :=
  Schedule.fired events withEvents (onEvent P now) now m

/-- The machine after the pending event of a kind fired, with the callback of the kind. -/
def fire (P : Parts τ β δ) (now : UInt64) (k : EventKind) (m : Machine τ β δ) : Machine τ β δ :=
  (m.withEvents (m.events.erase k)).onEvent P now k.callback k

lemma Awaits.fire_of_ne (P : Parts τ β δ) (now : UInt64) (h : m.Awaits r) {k : EventKind} (hk : k ≠ .hblank) :
    (m.fire P now k).Awaits r ∧ (m.fire P now k).events.get? .hblank = m.events.get? .hblank ∧
      m.events.nextAge ≤ (m.fire P now k).events.nextAge := by
  have hcallback : k.callback ≠ .batch := fun hbatch => hk (EventKind.eq_hblank hbatch)
  obtain ⟨hraster, hfollows, hsame⟩ := onEvent_of_ne P now hcallback k (m.withEvents (m.events.erase k))
  have hkept : (m.fire P now k).events.get? .hblank = m.events.get? .hblank :=
    hsame.trans ((Schedule.get?_erase ..).trans (if_neg hk.symm))
  refine ⟨⟨?_, ?_, ?_, ?_⟩, hkept, ?_⟩
  · exact hraster.trans h.raster
  · rw [Schedule.deadline?, hkept]
    exact h.pending
  · exact hfollows.tidy (h.tidy.erase k)
  · exact routed_onEvent P now k.callback k (h.routed.erase k)
  · exact (Schedule.nextAge_erase ..).ge.trans hfollows.nextAge

lemma Awaits.fire_hblank (P : Parts τ β δ) (now : UInt64) (h : m.Awaits r) :
    (m.fire P now .hblank).Awaits (r.advance now) ∧
      (∃ p, (m.fire P now .hblank).events.get? .hblank = some p ∧ m.events.nextAge ≤ p.age) ∧
        m.events.nextAge ≤ (m.fire P now .hblank).events.nextAge := by
  obtain ⟨hraster, hfollows, age, hage, hnext⟩ := onEvent_batch P now .hblank (m.withEvents (m.events.erase .hblank))
  have hsame : (m.withEvents (m.events.erase .hblank)).raster = r := h.raster
  rw [hsame] at hraster hnext
  have hold : m.events.nextAge = (m.events.erase .hblank).nextAge := (Schedule.nextAge_erase ..).symm
  have hrouted := routed_onEvent (m := m.withEvents (m.events.erase .hblank)) P now .batch .hblank
    (h.routed.erase .hblank)
  refine ⟨⟨hraster, ?_, hfollows.tidy (h.tidy.erase .hblank), hrouted⟩, ⟨_, hnext, ?_⟩, ?_⟩
  · exact congrArg (Option.map _) hnext
  · exact hold.trans_le hage
  · exact hold.trans_le hfollows.nextAge

/-- A batch as young as the mark does not fire. -/
lemma fireBefore_young (P : Parts τ β δ) (now : UInt64) (fuel : Nat) (h : x.Awaits r) (hmark : mark ≤ x.events.nextAge)
    {p : Pending} (hp : x.events.get? .hblank = some p) (hage : mark ≤ p.age) :
    (Schedule.firedBefore events withEvents (onEvent P now) now mark fuel x).count .hblank = 0 ∧
      (Schedule.fireBefore events withEvents (onEvent P now) now mark fuel x).2.Awaits r := by
  induction fuel generalizing x with
  | zero => exact ⟨rfl, h⟩
  | succ fuel ih =>
    rw [Schedule.firedBefore, Schedule.fireBefore]
    cases hdue : x.events.due now mark with
    | none => exact ⟨rfl, h⟩
    | some due =>
      obtain ⟨k, q⟩ := due
      obtain ⟨⟨hq, -, hold⟩, -⟩ := Schedule.due_eq_some hdue
      have hk : k ≠ .hblank := by
        rintro rfl
        cases hp.symm.trans hq
        omega
      obtain ⟨hfired, hsame, hnext⟩ := h.fire_of_ne P now hk
      dsimp only
      rw [List.count_cons_of_ne hk, h.routed k q hq]
      exact ih hfired (hmark.trans hnext) (hsame.trans hp)

/-- The pending batch stays as it is, or fires once, when it is due. -/
lemma fireBefore_batch (P : Parts τ β δ) (now : UInt64) (fuel : Nat) (h : x.Awaits r) (hmark : mark ≤ x.events.nextAge)
    {p : Pending} (hp : x.events.get? .hblank = some p) :
    let count := (Schedule.firedBefore events withEvents (onEvent P now) now mark fuel x).count .hblank
    let y := (Schedule.fireBefore events withEvents (onEvent P now) now mark fuel x).2
    (count = 0 ∧ y.Awaits r ∧ y.events.get? .hblank = some p) ∨
      (count = 1 ∧ r.deadline ≤ now ∧ y.Awaits (r.advance now)) := by
  induction fuel generalizing x with
  | zero => exact .inl ⟨rfl, h, hp⟩
  | succ fuel ih =>
    rw [Schedule.firedBefore, Schedule.fireBefore]
    cases hdue : x.events.due now mark with
    | none => exact .inl ⟨rfl, h, hp⟩
    | some due =>
      obtain ⟨k, q⟩ := due
      obtain ⟨⟨hq, hle, hold⟩, -⟩ := Schedule.due_eq_some hdue
      dsimp only
      rw [h.routed k q hq]
      by_cases hk : k = .hblank
      · subst hk
        -- the batch fires; the next one is young
        obtain ⟨hfired, ⟨p', hp', hyoung⟩, hnext⟩ := h.fire_hblank P now
        obtain ⟨hcount, hrest⟩ :=
          fireBefore_young P now fuel hfired (hmark.trans hnext) hp' (hmark.trans hyoung)
        have hdeadline : q.deadline = r.deadline := by
          have hpending := h.pending
          rw [Schedule.deadline?, hq] at hpending
          exact Option.some.inj hpending
        refine .inr ⟨?_, hdeadline ▸ hle, hrest⟩
        rw [List.count_cons_self]
        exact congrArg (· + 1) hcount
      · obtain ⟨hfired, hsame, hnext⟩ := h.fire_of_ne P now hk
        rw [List.count_cons_of_ne hk]
        exact ih hfired (hmark.trans hnext) (hsame.trans hp)

/-- Firing what is due serves the batch if it is due. -/
lemma Awaits.fireDue (P : Parts τ β δ) (now : UInt64) (h : m.Awaits r) :
    ((m.fired P now).count .hblank = 0 ∧ now < r.deadline ∧ (m.fireDue P now).2.Awaits r) ∨
      ((m.fired P now).count .hblank = 1 ∧ r.deadline ≤ now ∧ (m.fireDue P now).2.Awaits (r.advance now)) := by
  obtain ⟨p, hp, hdeadline⟩ := h.exists_pending
  have hage := h.tidy.age _ _ hp
  rcases fireBefore_batch P now EventKind.all.length h le_rfl hp with
    ⟨hcount, hrest, hkept⟩ | hserved
  · refine .inl ⟨hcount, ?_, hrest⟩
    have hnone : (m.fireDue P now).2.events.due now m.events.nextAge = none :=
      Schedule.due_dispatch (fun _ _ => rfl) (follows_onEvent P now) m
    rw [← hdeadline, ← UInt64.not_le]
    intro hle
    exact Schedule.due_eq_none hrest.tidy hnone .hblank p ⟨hkept, hle, hage⟩
  · exact .inr hserved

/-! ### Steps -/

/-- The kinds of the events that a dispatch of the events fires, in order. -/
def dispatched (P : Parts τ β δ) (m : Machine τ β δ) : List EventKind :=
  match m.events.nextDeadline with
  | some next => if next ≤ m.cycles then m.fired P m.cycles else []
  | none => []

/-- The number of batches that a step serves. -/
def batches (P : Parts τ β δ) (limit : UInt64) (m : Machine τ β δ) : Nat :=
  match m.execute P (m.stepDeadline limit) with
  | (some _, _) => 0
  | (none, m) => (m.dispatched P).count .hblank

/-- A dispatch of the events serves the batch if it is due; the deadline that never comes may stay. -/
lemma Awaits.dispatchEvents (P : Parts τ β δ) (h : m.Awaits r) :
    ((m.dispatched P).count .hblank = 0 ∧ (r.deadline ≤ m.cycles → r.deadline = Schedule.never) ∧
        (m.dispatchEvents P).Awaits r) ∨
      ((m.dispatched P).count .hblank = 1 ∧ r.deadline ≤ m.cycles ∧
        (m.dispatchEvents P).Awaits (r.advance m.cycles)) := by
  obtain ⟨p, hp, hdeadline⟩ := h.exists_pending
  have hsoonest := h.tidy.soonest_le hp
  rw [hdeadline] at hsoonest
  rw [dispatched, Machine.dispatchEvents]
  cases hnext : m.events.nextDeadline with
  | none =>
    refine .inl ⟨rfl, fun _ => ?_, h⟩
    have hnever : m.events.soonest = Schedule.never := by
      simpa [Schedule.nextDeadline] using hnext
    exact UInt64.le_antisymm (Schedule.le_never _) (hnever ▸ hsoonest)
  | some next =>
    obtain rfl : m.events.soonest = next := by
      simp only [Schedule.nextDeadline] at hnext
      split at hnext
      · cases hnext
      · exact Option.some.inj hnext
    dsimp only
    split
    · have hstill : ∀ x : Machine τ β δ, ∀ fired r, x.Awaits r →
          ({ x with stats.eventsDispatched := x.stats.eventsDispatched + fired }.syncInterrupts P).Awaits r := by
        intro x fired r hx
        exact Awaits.still (m := { x with stats.eventsDispatched := x.stats.eventsDispatched + fired })
          ⟨hx.raster, hx.pending, hx.tidy, hx.routed⟩ (still_syncInterrupts P _)
      rcases h.fireDue P m.cycles with ⟨hcount, hlt, hrest⟩ | ⟨hcount, hle, hrest⟩
      · refine .inl ⟨hcount, fun hle => absurd hle (UInt64.not_le.mpr hlt), hstill _ _ _ hrest⟩
      · exact .inr ⟨hcount, hle, hstill _ _ _ hrest⟩
    · rename_i hlater
      exact .inl ⟨rfl, fun hle => absurd (UInt64.le_trans hsoonest hle) hlater, h⟩

/-- A step works towards no later cycle than the batch is due. -/
lemma Awaits.stepDeadline_le (h : m.Awaits r) (limit : UInt64) : m.stepDeadline limit ≤ r.deadline := by
  obtain ⟨p, hp, hdeadline⟩ := h.exists_pending
  exact hdeadline ▸ Machine.stepDeadline_le h.tidy hp limit

/-! ### Runs -/

/-- A machine just switched on, or just reset after anything was done with it. -/
inductive PoweredOn (P : Parts τ β δ) (m₁ : Machine τ β δ) : Machine τ β δ → Prop
  | on : PoweredOn P m₁ m₁
  | reset {m m₀ : Machine τ β δ} : Reached P m₁ m → m.reset P = .ok m₀ → PoweredOn P m₁ m₀

/-- The machines that a machine becomes without another power-on, each with the number of batches that were
served until then. -/
inductive Since (P : Parts τ β δ) (m₀ : Machine τ β δ) : Nat → Machine τ β δ → Prop
  | start : Since P m₀ 0 m₀
  | stepUpTo {k : Nat} {m : Machine τ β δ} (limit : UInt64) : Since P m₀ k m →
    Since P m₀ (k + m.batches P limit) (m.stepUpTo P limit).2
  | newFrame {k : Nat} {m : Machine τ β δ} : Since P m₀ k m → Since P m₀ k { m with frameDone := false }
  | flushCode {k : Nat} {m m' : Machine τ β δ} : Since P m₀ k m → m.flushCode = .ok m' → Since P m₀ k m'
  | invalidate {k : Nat} {m : Machine τ β δ} (addr len : UInt32) :
    Since P m₀ k m → Since P m₀ k (m.invalidate addr len).2
  | queue {k : Nat} {m : Machine τ β δ} (image : ByteArray) : Since P m₀ k m → Since P m₀ k (m.queue image)
  | resetStats {k : Nat} {m : Machine τ β δ} : Since P m₀ k m → Since P m₀ k (m.resetStats P)

namespace Since

variable {m₀ : Machine τ β δ} {k : Nat}

lemma step (h : Since P m₀ k m) : ∃ n, Since P m₀ (k + n) (m.step P).2 := ⟨_, h.stepUpTo _⟩

lemma stepWhile (h : Since P m₀ k m) (limit : UInt64) (go : Machine τ β δ → Bool) (fuel : Nat) :
    ∃ n, Since P m₀ (k + n) (m.stepWhile P limit go fuel).2 := by
  induction fuel generalizing k m with
  | zero => exact ⟨0, h⟩
  | succ fuel ih =>
    have hstep := h.stepUpTo limit
    rw [Machine.stepWhile]
    split
    · split <;> rename_i heq <;> rw [heq] at hstep
      · exact ⟨_, hstep⟩
      · obtain ⟨n, hn⟩ := ih hstep
        exact ⟨_ + n, Nat.add_assoc k _ n ▸ hn⟩
    · exact ⟨0, h⟩

lemma runUntil (h : Since P m₀ k m) (fuel : Nat) (target : UInt64) :
    ∃ n, Since P m₀ (k + n) (m.runUntil P fuel target).2 := h.stepWhile ..

lemma runFrame (h : Since P m₀ k m) (fuel : Nat) : ∃ n, Since P m₀ (k + n) (m.runFrame P fuel).2 :=
  h.newFrame.stepWhile ..

end Since

end Machine

namespace Machine

variable {δ : Type} {hw : Hardware δ} {hooks : Hooks δ} {settings : Settings} {r : Raster}
  {m m' m₀ m₁ : Machine TranslatorStats Block δ}

/-! ### Passes -/

/-- A pass leaves the pending batch alone. -/
lemma awaits_pass (h : m.Awaits r) (deadline : UInt64) :
    (m.pass (.standard hw hooks) deadline).2.Awaits r := by
  obtain ⟨p, hp, hdeadline⟩ := h.exists_pending
  have hgranted := Schedule.granted_and (Schedule.granted_and Schedule.granted_tidy Schedule.granted_routed)
    (Schedule.granted_video (v := .hblank) rfl (some p))
  have hpass := undisturbed_pass (hgranted.keeps hw) hooks deadline m
  obtain ⟨⟨htidy, hrouted⟩, hkept⟩ := hpass.events ⟨⟨h.tidy, h.routed⟩, hp⟩
  refine ⟨hpass.raster.trans h.raster, ?_, htidy, hrouted⟩
  rw [Schedule.deadline?, ← hdeadline]
  exact congrArg (Option.map _) hkept

lemma awaits_passes (h : m.Awaits r) (deadline : UInt64) (fuel : Nat) :
    (m.passes (.standard hw hooks) deadline fuel).2.Awaits r := by
  induction fuel generalizing m with
  | zero => exact h
  | succ fuel ih =>
    have hpass : (m.pass (.standard hw hooks) deadline).2.Awaits r := awaits_pass h deadline
    rw [passes]
    split
    · split <;> rename_i heq <;> rw [heq] at hpass
      · exact ih hpass
      · exact hpass
      · exact hpass
    · exact h

/-- A pass that fails does not move the cycle counter. -/
lemma cycles_of_failed {deadline : UInt64} {err : RecompileError}
    (h : m.pass (.standard hw hooks) deadline = (.failed err, m')) : m'.cycles = m.cycles := by
  dsimp only [pass] at h
  split at h
  · split at h
    · cases h
    · cases h
      rfl
  · have hintercept := still_intercept (.standard hw hooks) m.cpu.pc m
    split at h <;> rename_i x heq <;> rw [heq] at hintercept
    · cases h
    · split at h
      · have hfind := still_findBlock (.standard hw hooks) m.cpu.pc x
        rw [runPass] at h
        split at h <;> rename_i heq <;> rw [heq] at hfind
        · cases h
          exact hfind.cycles.trans hintercept.cycles
        · cases h
        · dsimp only at h
          split at h <;> cases h
      · cases h

/-- Passes that end in a failure end before their deadline. -/
lemma lt_of_passes_failed {deadline : UInt64} {err : RecompileError} {fuel : Nat}
    (h : m.passes (.standard hw hooks) deadline fuel = (some err, m')) : m'.cycles < deadline := by
  induction fuel generalizing m with
  | zero => cases h
  | succ fuel ih =>
    rw [passes] at h
    split at h
    · rename_i hgo
      split at h <;> rename_i heq
      · exact ih h
      · cases h
      · cases h
        rw [cycles_of_failed heq]
        exact hgo
    · cases h

/-- A machine that waits for the next batch and is less than the slack late, with short blocks. -/
structure InTime (settings : Settings) (r : Raster) (m : Machine TranslatorStats Block δ) : Prop where
  awaits : m.Awaits r
  late : m.cycles.toNat < r.deadline.toNat + Raster.slack
  capped : m.Capped settings
  wired : m.recompiler.Wired

/-- Settings with which no block and no least charge is longer than the shortest batch. -/
lemma within_slack (hblock : 36 * (settings.limits.maxBlock.toNat + 1) ≤ 7 * 2152)
    (hcharge : settings.minCharge.toNat ≤ 7 * 2152) : settings.Within Raster.slack where
  block := by
    simp only [Recompiler.mostCost, Raster.slack]
    omega
  charge := hcharge

lemma InTime.pass (hw : Hardware δ) (hooks : Hooks δ) (h : m.InTime settings r)
    (hwithin : settings.Within Raster.slack) {deadline : UInt64} (hle : deadline ≤ r.deadline)
    (hgo : m.cycles < deadline) : (m.pass (.standard hw hooks) deadline).2.InTime settings r where
  awaits := awaits_pass h.awaits deadline
  late := by
    have hlt := toNat_cycles_pass_lt hw hooks h.capped h.wired hwithin hgo
    have hle' := UInt64.le_iff_toNat_le.mp hle
    omega
  capped := (codeInvariant_capped hw hooks settings).pass deadline h.capped
  wired := (codeInvariant_wired hw hooks).pass deadline h.wired

/-- Every head of the loop in a step is in time. -/
lemma InTime.head (h : m.InTime settings r) (hwithin : settings.Within Raster.slack) {limit : UInt64}
    (hm : Passes (.standard hw hooks) (m.stepDeadline limit) m m') : m'.InTime settings r := by
  induction hm with
  | start => exact h
  | again _ hgo heq ih =>
    have hpass := ih.pass hw hooks hwithin (h.awaits.stepDeadline_le limit) hgo
    rw [heq] at hpass
    exact hpass

lemma InTime.passes (h : m.InTime settings r) (hwithin : settings.Within Raster.slack) {deadline : UInt64}
    (hle : deadline ≤ r.deadline) (fuel : Nat) :
    (m.passes (.standard hw hooks) deadline fuel).2.InTime settings r := by
  induction fuel generalizing m with
  | zero => exact h
  | succ fuel ih =>
    rw [Machine.passes]
    split
    · rename_i hgo
      have hpass := h.pass hw hooks hwithin hle hgo
      split <;> rename_i heq <;> rw [heq] at hpass
      · exact ih hpass
      · exact hpass
      · exact hpass
    · exact h

/-! ### Runs -/

/-- The raster of a machine that was switched on at a cycle, with some frames completed before, and has served
`k` batches since then. -/
structure OnTime (start frames k : Nat) (m : Machine TranslatorStats Block δ) : Prop where
  pending : m.board.io.schedule.deadline? .hblank = some m.raster.deadline
  deadline : m.raster.deadline.toNat = Raster.due start k
  scanline : m.raster.scanline = 32 * (k % 9)
  frames : m.raster.frames = frames + k / 9

lemma InTime.onTime (h : m.InTime settings r) {start frames k : Nat} (hr : r.After start frames k) :
    m.OnTime start frames k := by
  obtain ⟨hraster, hpending, -⟩ := h.awaits
  subst hraster
  exact ⟨hpending, hr.deadline, hr.scanline, hr.frames⟩

/-- No batch is overdue, but for the one at the cycle that never comes. -/
def Served (r : Raster) (m : Machine TranslatorStats Block δ) : Prop :=
  r.deadline ≤ m.cycles → r.deadline = Schedule.never

/-- The machine is in time after `k` batches. -/
def InTimeAfter (settings : Settings) (start frames k : Nat) (m : Machine TranslatorStats Block δ) : Prop :=
  ∃ r : Raster, r.After start frames k ∧ m.InTime settings r ∧ m.Served r

/-- Power-on makes the first batch pending, and the answer of the devices does not move it. -/
lemma awaits_powerOn (P : Parts TranslatorStats Block δ) (m : Machine TranslatorStats Block δ) :
    (powerOn P m).Awaits (m.raster.start m.cycles) := by
  let deadline := (m.raster.start m.cycles).deadline
  let s := ((m.board.io.schedule.clear.add .hblank deadline .batch).add .vblank
    ((m.raster.start m.cycles).blankDeadline m.cycles) .blank)
  have hgranted := Schedule.granted_and (Schedule.granted_and Schedule.granted_tidy Schedule.granted_routed)
    (Schedule.granted_video (v := .hblank) rfl (s.get? .hblank))
  have hrouted : s.Routed := ((Schedule.Routed.clear _).add rfl _).add rfl _
  have hstart : (s.Tidy ∧ s.Routed) ∧ s.get? .hblank = s.get? .hblank :=
    ⟨⟨((Schedule.Tidy.clear _).add ..).add .., hrouted⟩, rfl⟩
  obtain ⟨⟨htidy, hrouted⟩, hkept⟩ := schedule_respond
    (m := { m with raster := m.raster.start m.cycles }.mapIo fun io => { io with schedule := s }) hgranted
    (P.hardware.reset m.cycles) hstart
  refine ⟨rfl, ?_, htidy, hrouted⟩
  have hs : s.get? .hblank = some ⟨deadline, m.board.io.schedule.clear.nextAge, .batch⟩ := by simp [s]
  exact congrArg (Option.map _) (hkept.trans hs)

lemma inTimeAfter_powerOn {P : Parts TranslatorStats Block δ} (hon : m₀ = powerOn P m)
    (hcapped : m.Capped settings) (hwired : m.recompiler.Wired)
    (hfits : Raster.due m₀.cycles.toNat 0 < 2 ^ 64) :
    m₀.InTimeAfter settings m₀.cycles.toNat m₀.raster.frames 0 := by
  subst hon
  have hafter := Raster.after_start m.raster m.cycles hfits
  have hdue : Raster.due m.cycles.toNat 0 = m.cycles.toNat + 68864 := rfl
  have hlater : m.cycles.toNat < (m.raster.start m.cycles).deadline.toNat := by
    rw [hafter.deadline, hdue]
    omega
  refine ⟨_, hafter, ⟨awaits_powerOn P m, Nat.lt_add_right _ hlater, ?_, hwired⟩, ?_⟩
  · exact ⟨hcapped.kept, hcapped.code⟩
  · intro hle
    exact absurd (UInt64.le_iff_toNat_le.mp hle) (not_le.mpr hlater)

/-- A step leaves the machine in time, with the batches counted that it serves. -/
lemma InTimeAfter.stepUpTo {start frames k : Nat} (h : m.InTimeAfter settings start frames k)
    (hwithin : settings.Within Raster.slack) (limit : UInt64)
    (hfits : Raster.due start (k + m.batches (.standard hw hooks) limit) < 2 ^ 64) :
    (m.stepUpTo (.standard hw hooks) limit).2.InTimeAfter settings start frames
      (k + m.batches (.standard hw hooks) limit) := by
  obtain ⟨r, hr, htime, -⟩ := h
  have hexecute : (m.execute (.standard hw hooks) (m.stepDeadline limit)).2.InTime settings r :=
    htime.passes hwithin (htime.awaits.stepDeadline_le limit) _
  rw [Machine.batches] at hfits ⊢
  rw [Machine.stepUpTo]
  cases heq : m.execute (.standard hw hooks) (m.stepDeadline limit) with
  | mk failure x =>
    rw [heq] at hexecute hfits
    cases failure with
    | some err =>
      -- the step failed before its deadline, and fired nothing
      refine ⟨r, hr, hexecute, fun hle => ?_⟩
      have hlt : x.cycles < m.stepDeadline limit := lt_of_passes_failed heq
      have hle' := UInt64.le_trans hle (UInt64.le_of_lt hlt)
      exact absurd hlt (UInt64.not_lt.mpr (UInt64.le_trans (htime.awaits.stepDeadline_le limit) hle))
    | none =>
      dsimp only at hexecute hfits ⊢
      have hcapped := (codeInvariant_capped hw hooks settings).invariant.dispatchEvents x hexecute.capped
      have hwired := (codeInvariant_wired hw hooks).invariant.dispatchEvents x hexecute.wired
      have hcycles := cycles_dispatchEvents (.standard hw hooks) x
      rcases hexecute.awaits.dispatchEvents (.standard hw hooks) with
        ⟨hcount, hserved, hrest⟩ | ⟨hcount, hle, hrest⟩
      · rw [hcount]
        refine ⟨r, hr, ⟨hrest, ?_, hcapped, hwired⟩, ?_⟩
        · rw [hcycles]
          exact hexecute.late
        · rw [Served, hcycles]
          exact hserved
      · rw [hcount] at hfits ⊢
        obtain ⟨hafter, hlater⟩ := hr.advance hexecute.late hfits
        refine ⟨_, hafter, ⟨hrest, ?_, hcapped, hwired⟩, fun hle => ?_⟩
        · rw [hcycles]
          exact Nat.lt_add_right _ (UInt64.lt_iff_toNat_lt.mp hlater)
        · rw [hcycles] at hle
          exact absurd hlater (UInt64.not_lt.mpr hle)

lemma InTimeAfter.still {start frames k : Nat} (h : m.InTimeAfter settings start frames k)
    (hstill : Still m m') (hcapped : m.Capped settings → m'.Capped settings)
    (hwired : m.recompiler.Wired → m'.recompiler.Wired) : m'.InTimeAfter settings start frames k := by
  obtain ⟨r, hr, htime, hserved⟩ := h
  refine ⟨r, hr, ⟨htime.awaits.still hstill, ?_, hcapped htime.capped, hwired htime.wired⟩, ?_⟩
  · rw [hstill.cycles]
    exact htime.late
  · rw [Served, hstill.cycles]
    exact hserved

lemma poweredOn_inTime {bios : ByteArray} {device : δ}
    (hstart : ofTranslator (.standard hw hooks) settings bios device {} = .ok m₁)
    (hon : PoweredOn (.standard hw hooks) m₁ m₀) (hfits : Raster.due m₀.cycles.toNat 0 < 2 ^ 64) :
    m₀.InTimeAfter settings m₀.cycles.toNat m₀.raster.frames 0 := by
  have hcapped := capped_ofTranslator hstart
  have hwired := wired_ofTranslator hstart
  cases hon with
  | on =>
    obtain ⟨r, -, rfl⟩ := ofTranslator_eq_ok hstart
    exact inTimeAfter_powerOn (P := .standard hw hooks) rfl ⟨hcapped.kept, hcapped.code⟩ hwired hfits
  | reset hreached hreset =>
    obtain ⟨flushed, hflush, rfl⟩ := reset_eq_ok hreset
    have hcapped' := (codeInvariant_capped hw hooks settings).invariant.reached hcapped hreached
    refine inTimeAfter_powerOn rfl ?_ (wired_flushCode hflush) hfits
    refine capped_flushCode ?_ hflush
    exact ⟨hcapped'.kept, hcapped'.code⟩

lemma since_inTime {start frames k : Nat} (h : m₀.InTimeAfter settings start frames 0)
    (hwithin : settings.Within Raster.slack) (hm : Since (.standard hw hooks) m₀ k m)
    (hfits : Raster.due start k < 2 ^ 64) : m.InTimeAfter settings start frames k := by
  induction hm with
  | start => exact h
  | stepUpTo limit _ ih =>
    have hbefore := (Raster.due_mono start (Nat.le_add_right ..)).trans_lt hfits
    exact (ih hbefore).stepUpTo hwithin limit hfits
  | newFrame _ ih => exact (ih hfits).still ⟨rfl, rfl, rfl⟩ (fun hx => ⟨hx.kept, hx.code⟩) id
  | flushCode _ hflush ih =>
    exact (ih hfits).still (still_flushCode hflush) (fun hx => capped_flushCode hx hflush)
      fun _ => wired_flushCode hflush
  | invalidate addr len _ ih =>
    exact (ih hfits).still (still_invalidate _ addr len) (fun hx => capped_invalidate hx addr len)
      fun hx => wired_invalidate hx addr len
  | queue image _ ih => exact (ih hfits).still ⟨rfl, rfl, rfl⟩ (fun hx => ⟨hx.kept, hx.code⟩) id
  | resetStats _ ih =>
    exact (ih hfits).still ⟨rfl, rfl, rfl⟩ ((codeInvariant_capped hw hooks settings).resetStats _)
      fun hx => hx.resetStats _

/-- The deadlines of the batches do not drift: after `k` batches since the machine was switched on or reset, the
pending one is due where the lengths of the batches before it put it, in every step and at every head of the
dispatcher's loop, as long as the cycle counter can hold its deadline.  No batch is left overdue by a step. -/
theorem video_onTime {bios : ByteArray} {device : δ} {k : Nat}
    (hblock : 36 * (settings.limits.maxBlock.toNat + 1) ≤ 7 * 2152)
    (hcharge : settings.minCharge.toNat ≤ 7 * 2152)
    (hstart : ofTranslator (.standard hw hooks) settings bios device {} = .ok m₁)
    (hon : PoweredOn (.standard hw hooks) m₁ m₀) (hm : Since (.standard hw hooks) m₀ k m)
    (hfits : Raster.due m₀.cycles.toNat k < 2 ^ 64) :
    m.OnTime m₀.cycles.toNat m₀.raster.frames k ∧
      (m.raster.deadline ≤ m.cycles → m.raster.deadline = Schedule.never) ∧
        ∀ limit h, Passes (.standard hw hooks) (m.stepDeadline limit) m h →
          h.OnTime m₀.cycles.toNat m₀.raster.frames k := by
  have hwithin := within_slack hblock hcharge
  have hfirst := (Raster.due_mono m₀.cycles.toNat (Nat.zero_le k)).trans_lt hfits
  obtain ⟨r, hr, htime, hserved⟩ := since_inTime (poweredOn_inTime hstart hon hfirst) hwithin hm hfits
  refine ⟨htime.onTime hr, ?_, fun limit h hpasses => (htime.head hwithin hpasses).onTime hr⟩
  rw [htime.awaits.raster]
  exact hserved

/-! ### A batch that is late -/

/-- Steps up to some limits, and the batches that they serve. -/
def stepsUpTo (P : Parts τ β δ) : List UInt64 → Nat → Machine τ β δ → Nat × Machine τ β δ
  | [], k, m => (k, m)
  | limit :: limits, k, m => stepsUpTo P limits (k + m.batches P limit) (m.stepUpTo P limit).2

lemma Since.stepsUpTo {P : Parts τ β δ} {m₀ m : Machine τ β δ} {k : Nat} (h : Since P m₀ k m) (limits : List UInt64) :
    Since P m₀ (Machine.stepsUpTo P limits k m).1 (Machine.stepsUpTo P limits k m).2 := by
  induction limits generalizing k m with
  | nil => exact h
  | cons limit limits ih => exact ih (h.stepUpTo limit)

/-- A boot ROM with an endless loop of three instructions. -/
def spinRom : ByteArray := ⟨#[0, 0, 0, 0, 0, 0, 0xF0, 0x0B]⟩

/-- After a step that stops four cycles short of the first batch, two rounds of the loop run two cycles past it.  The
batches after it are due as if it had not been late, those of the next frame too. -/
theorem video_onTime_spin :
    let P := Parts.standard (.absent Unit) (.none Unit)
    ∃ m₀ a m, ofTranslator P smallSettings spinRom () {} = .ok m₀ ∧ PoweredOn P m₀ m₀ ∧ m₀.cycles = 0 ∧
      Since P m₀ 1 a ∧ a.cycles = 32 * 2152 + 2 ∧ a.OnTime 0 0 1 ∧ a.raster.deadline.toNat = 64 * 2152 ∧
        Since P m₀ 10 m ∧ m.OnTime 0 0 10 ∧ m.raster.deadline.toNat = (263 + 64) * 2152 ∧ m.raster.scanline = 32 ∧
          m.raster.frames = 1 := by
  intro P
  let m₀ := assemble P smallSettings spinRom () (.bare {} smallSettings.limits)
  have hstart : ofTranslator P smallSettings spinRom () {} = .ok m₀ := ofTranslator_eq_bare (by decide) _ _ _
  have hcycles : m₀.cycles = 0 := rfl
  have hframes : m₀.raster.frames = 0 := rfl
  let late := stepsUpTo P [68860, 68864] 0 m₀
  let later := stepsUpTo P (68860 :: .replicate 11 Schedule.never) 0 m₀
  have hlate : late.1 = 1 ∧ late.2.cycles = 32 * 2152 + 2 := by decide +kernel
  have hlater : later.1 = 10 := by decide +kernel
  have hsince : Since P m₀ late.1 late.2 := Since.start.stepsUpTo _
  have hsince' : Since P m₀ later.1 later.2 := Since.start.stepsUpTo _
  rw [hlate.1] at hsince
  rw [hlater] at hsince'
  have hcount : late.2.cycles = 32 * 2152 + 2 := hlate.2
  clear_value late later m₀
  have hdue : Raster.due 0 1 = 64 * 2152 := by decide
  have hdue' : Raster.due 0 10 = (263 + 64) * 2152 := by decide
  have hzero : m₀.cycles.toNat = 0 := congrArg UInt64.toNat hcycles
  have htime := (video_onTime (by decide) (by decide) hstart .on hsince (by rw [hzero, hdue]; decide)).1
  have htime' := (video_onTime (by decide) (by decide) hstart .on hsince' (by rw [hzero, hdue']; decide)).1
  rw [hzero, hframes] at htime htime'
  exact ⟨m₀, late.2, later.2, hstart, .on, hcycles, hsince, hcount, htime, htime.deadline.trans hdue, hsince', htime',
    htime'.deadline.trans hdue', htime'.scanline, htime'.frames⟩

end Machine

end R3000
