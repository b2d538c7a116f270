import Mathlib
import R3000.Proofs.Machine.Entries

/-!
# The dispatches of a run

`History` goes through a run of a machine pass by pass and writes down its dispatches.  Every run has a history,
and what every pass, the events and the requests of the owner keep holds all along it.  Between dispatches nothing
touches the watch over waiting blocks, save that the owner may reset it.
-/

namespace R3000

/-- The run of a block with those chained to it: the entry, the deadline, and the machine that runs it. -/
structure Dispatch (δ : Type) where
  entry : Entry Block
  deadline : UInt64
  machine : Machine TranslatorStats Block δ

namespace Dispatch

variable {δ : Type}

/-- The machine after the blocks. -/
def ran (P : Parts TranslatorStats Block δ) (d : Dispatch δ) : Machine TranslatorStats Block δ :=
  d.machine.runBlock P d.entry d.deadline

/-- The machine once the dispatcher has dropped code that was written over and looked for an interrupt. -/
def looked (P : Parts TranslatorStats Block δ) (d : Dispatch δ) : Machine TranslatorStats Block δ :=
  (d.ran P).dropDirtyCode.syncInterrupts P

end Dispatch

namespace Machine

variable {δ : Type} {P : Parts TranslatorStats Block δ} {m m' m₀ : Machine TranslatorStats Block δ}
  {ds : List (Dispatch δ)} {deadline : UInt64}

/-- The machines that a machine can become, with the dispatches on the way, the latest first. -/
inductive History (P : Parts TranslatorStats Block δ) (m₀ : Machine TranslatorStats Block δ) :
    List (Dispatch δ) → Machine TranslatorStats Block δ → Prop
  | start : History P m₀ [] m₀
  | dispatch {ds : List (Dispatch δ)} {m x : Machine TranslatorStats Block δ} {deadline : UInt64} {e : Entry Block} :
    History P m₀ ds m → m.Starts P deadline e x →
      History P m₀ (⟨e, deadline, x⟩ :: ds) (m.pass P deadline).2
  | pass {ds : List (Dispatch δ)} {m : Machine TranslatorStats Block δ} {deadline : UInt64} :
    History P m₀ ds m → m.cycles < deadline → (∀ e x, ¬ m.Starts P deadline e x) →
      History P m₀ ds (m.pass P deadline).2
  | events {ds : List (Dispatch δ)} {m : Machine TranslatorStats Block δ} :
    History P m₀ ds m → History P m₀ ds (m.dispatchEvents P)
  | newFrame {ds : List (Dispatch δ)} {m : Machine TranslatorStats Block δ} :
    History P m₀ ds m → History P m₀ ds { m with frameDone := false }
  | reset {ds : List (Dispatch δ)} {m m' : Machine TranslatorStats Block δ} :
    History P m₀ ds m → m.reset P = .ok m' → History P m₀ ds m'
  | flushCode {ds : List (Dispatch δ)} {m m' : Machine TranslatorStats Block δ} :
    History P m₀ ds m → m.flushCode = .ok m' → History P m₀ ds m'
  | invalidate {ds : List (Dispatch δ)} {m : Machine TranslatorStats Block δ} (addr len : UInt32) :
    History P m₀ ds m → History P m₀ ds (m.invalidate addr len).2
  | queue {ds : List (Dispatch δ)} {m : Machine TranslatorStats Block δ} (image : ByteArray) :
    History P m₀ ds m → History P m₀ ds (m.queue image)
  | resetStats {ds : List (Dispatch δ)} {m : Machine TranslatorStats Block δ} :
    History P m₀ ds m → History P m₀ ds (m.resetStats P)

/-! ### Every run has a history -/

namespace History

lemma exists_pass (h : History P m₀ ds m) (hgo : m.cycles < deadline) :
    ∃ ds', History P m₀ ds' (m.pass P deadline).2 := by
  by_cases hstarts : ∃ e x, m.Starts P deadline e x
  · obtain ⟨e, x, hs⟩ := hstarts
    exact ⟨_, h.dispatch hs⟩
  · push Not at hstarts
    exact ⟨ds, h.pass hgo hstarts⟩

lemma exists_passes (h : History P m₀ ds m) (deadline : UInt64) (fuel : Nat) :
    ∃ ds', History P m₀ ds' (m.passes P deadline fuel).2 := by
  induction fuel generalizing ds m with
  | zero => exact ⟨ds, h⟩
  | succ fuel ih =>
    rw [Machine.passes]
    split
    · rename_i hgo
      obtain ⟨ds', hpass⟩ := h.exists_pass hgo
      split <;> rename_i heq <;> rw [heq] at hpass
      · exact ih hpass
      · exact ⟨ds', hpass⟩
      · exact ⟨ds', hpass⟩
    · exact ⟨ds, h⟩

lemma exists_stepUpTo (h : History P m₀ ds m) (limit : UInt64) :
    ∃ ds', History P m₀ ds' (m.stepUpTo P limit).2 := by
  obtain ⟨ds', hpasses⟩ :=
    h.exists_passes (m.stepDeadline limit) ((m.stepDeadline limit).toNat - m.cycles.toNat + 1)
  rw [Machine.stepUpTo, execute]
  split <;> rename_i heq <;> rw [heq] at hpasses
  · exact ⟨ds', hpasses⟩
  · dsimp only at hpasses ⊢
    exact ⟨ds', hpasses.events⟩

lemma exists_reached (hm : Reached P m₀ m) : ∃ ds, History P m₀ ds m := by
  induction hm with
  | start => exact ⟨[], .start⟩
  | stepUpTo limit _ ih =>
    obtain ⟨ds, h⟩ := ih
    exact h.exists_stepUpTo limit
  | newFrame _ ih => exact ih.imp fun ds h => h.newFrame
  | reset _ heq ih => exact ih.imp fun ds h => h.reset heq
  | flushCode _ heq ih => exact ih.imp fun ds h => h.flushCode heq
  | invalidate addr len _ ih => exact ih.imp fun ds h => h.invalidate addr len
  | queue image _ ih => exact ih.imp fun ds h => h.queue image
  | resetStats _ ih => exact ih.imp fun ds h => h.resetStats

/-- Every machine at the head of the dispatcher's loop has a history. -/
theorem exists_atHead (hm : AtHead P m₀ m) : ∃ ds, History P m₀ ds m := by
  obtain ⟨start, limit, hstart, hpasses⟩ := hm
  induction hpasses with
  | start => exact exists_reached hstart
  | again _ hgo heq ih =>
    obtain ⟨ds, h⟩ := ih
    obtain ⟨ds', hpass⟩ := h.exists_pass hgo
    rw [heq] at hpass
    exact ⟨ds', hpass⟩

/-- An invariant holds all along a history. -/
theorem invariant {I : Machine TranslatorStats Block δ → Prop} (k : Invariant P I) (h₀ : I m₀)
    (h : History P m₀ ds m) : I m := by
  induction h with
  | start => exact h₀
  | dispatch _ _ ih | pass _ _ _ ih => exact k.pass _ _ ih
  | events _ ih => exact k.dispatchEvents _ ih
  | newFrame _ ih => exact k.newFrame _ ih
  | reset _ heq ih => exact k.reset _ _ ih heq
  | flushCode _ heq ih => exact k.flushCode _ _ ih heq
  | invalidate addr len _ ih => exact k.invalidate _ addr len ih
  | queue image _ ih => exact k.queue _ image ih
  | resetStats _ ih => exact k.resetStats _ ih

end History

/-! ### The watch -/

section

variable {τ β : Type} {P : Parts τ β δ} {m m' : Machine τ β δ}

lemma watch_syncInterrupts (P : Parts τ β δ) (m : Machine τ β δ) : (m.syncInterrupts P).watch = m.watch := by
  rw [syncInterrupts]
  dsimp only
  split
  · split <;> rfl
  · rfl

lemma watch_intercept (P : Parts τ β δ) (pc : UInt32) (m : Machine τ β δ) :
    (m.intercept P pc).2.watch = m.watch := by
  rw [intercept]
  dsimp only
  split
  · split <;> rfl
  · rfl

lemma watch_findBlock (P : Parts τ β δ) (pc : UInt32) (m : Machine τ β δ) :
    (m.findBlock P pc).2.watch = m.watch := by
  rw [findBlock]
  split
  · rfl
  · dsimp only
    split <;> rfl

lemma watch_flushCode (hflush : m.flushCode = .ok m') : m'.watch = m.watch := by
  obtain ⟨r, -, rfl⟩ := flushCode_eq_ok hflush
  rfl

lemma watch_loadQueued (hload : m.loadQueued = .ok m') : m'.watch = m.watch := by
  obtain rfl | ⟨header, memory, hflush⟩ := loadQueued_eq_ok hload
  · rfl
  · have hwatch := watch_flushCode hflush
    exact hwatch

lemma watch_invalidate (m : Machine τ β δ) (addr len : UInt32) : (m.invalidate addr len).2.watch = m.watch := by
  rw [invalidate]
  dsimp only
  split <;> rfl

lemma watch_dropDirtyCode (m : Machine τ β δ) : m.dropDirtyCode.watch = m.watch := by
  rw [dropDirtyCode_eq]
  let I (x : Machine τ β δ) : Prop := x.watch = m.watch
  exact List.foldlRecOn (motive := I) m.memory.dirty.toList _ rfl fun x hx p _ =>
    (watch_invalidate x _ _).trans hx

lemma watch_runBlock (P : Parts τ β δ) (e : Entry β) (deadline : UInt64) (m : Machine τ β δ) :
    (m.runBlock P e deadline).watch = m.watch := by
  rw [runBlock, chargeSpent, resumeAborted]
  dsimp only
  split <;> split <;> rfl

lemma watch_onEvent (P : Parts τ β δ) (now : UInt64) (c : Callback) (k : EventKind) (m : Machine τ β δ) :
    (m.onEvent P now c k).watch = m.watch := by
  dsimp only [onEvent]
  split
  · dsimp only [onBatch]
    split <;> rfl
  · rfl
  · rfl

lemma watch_dispatchEvents (P : Parts τ β δ) (m : Machine τ β δ) : (m.dispatchEvents P).watch = m.watch := by
  apply dispatchEvents_keeps (I := fun x : Machine τ β δ => x.watch = m.watch)
  · exact fun _ x hx => hx
  · exact fun now c k x hx => (watch_onEvent P now c k x).trans hx
  · exact fun stats x hx => (watch_syncInterrupts P { x with stats }).trans hx
  · rfl

/-- A pass that runs no block leaves the watch alone. -/
lemma watch_pass (hgo : m.cycles < deadline) (hnot : ∀ e x, ¬ m.Starts P deadline e x) :
    (m.pass P deadline).2.watch = m.watch := by
  dsimp only [pass]
  split
  · split
    · rename_i hload
      exact watch_loadQueued hload
    · rfl
  · rename_i hboot
    have hintercept := watch_intercept P m.cpu.pc m
    split <;> rename_i x heq <;> rw [heq] at hintercept
    · exact (watch_syncInterrupts P _).trans hintercept
    · split
      · rename_i haligned
        have hfind := watch_findBlock P m.cpu.pc x
        rw [runPass]
        split <;> rename_i hfound <;> rw [hfound] at hfind
        · exact hfind.trans hintercept
        · exact hfind.trans hintercept
        · exact absurd ⟨hgo, by simpa using hboot, haligned, x, heq, hfound⟩ (hnot _ _)
      · exact hintercept

end

lemma watch_looked (P : Parts TranslatorStats Block δ) (d : Dispatch δ) :
    (d.looked P).watch = d.machine.watch := by
  rw [Dispatch.looked, watch_syncInterrupts, watch_dropDirtyCode, Dispatch.ran, watch_runBlock]

end Machine

end R3000
