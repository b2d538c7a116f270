import Mathlib
import R3000.Proofs.Exceptions
import R3000.Proofs.Machine.Freshness

/-!
# Interrupts of a machine without devices

Each way round the dispatcher's loop leaves the interrupt line of the processor in step with the interrupt
controller, and no interrupt that the processor would take waits: a pass that changed either of them passes the
line on, and every other pass raises an exception, after which interrupts are off.
-/

namespace R3000

lemma Interrupts.assertLines_zero (i : Interrupts) : i.assertLines 0 = i := by
  simp [assertLines]

namespace Machine

variable {τ β δ : Type} {P : Parts τ β δ} {m m' m₀ : Machine τ β δ}

/-- Parts without devices and without hooks. -/
structure Bare (P : Parts τ β δ) : Prop where
  hardware : P.hardware = .absent δ
  hooks : P.hooks = .none δ

/-- The line in the cause register shows whether an enabled source is raised, and no interrupt waits that the
processor would take. -/
structure Delivered (m : Machine τ β δ) : Prop where
  line : m.cpu.lineRaised = m.board.io.interrupts.pending
  taken : ¬ (m.board.io.interrupts.pending ∧ m.cpu.interruptsEnabled ∧ ¬ m.handlerMissing)

lemma Delivered.of_disabled (hline : m.cpu.lineRaised = m.board.io.interrupts.pending)
    (hoff : m.cpu.interruptsEnabled = false) : m.Delivered where
  line := hline
  taken h := by simp [hoff] at h

/-- What does not touch the processor, main memory or the interrupt controller keeps interrupts delivered. -/
lemma Delivered.congr (h : m.Delivered) (hcpu : m'.cpu = m.cpu)
    (hinterrupts : m'.board.io.interrupts = m.board.io.interrupts) (hram : m'.memory.ram = m.memory.ram) :
    m'.Delivered where
  line := by rw [hcpu, hinterrupts, h.line]
  taken := by
    have htaken := h.taken
    rw [handlerMissing, Memory.ramWord] at htaken ⊢
    rw [hcpu, hinterrupts, hram]
    exact htaken

/-- An exception that is raised while the line is in step. -/
lemma Delivered.enter (h : m.Delivered) {c : Cpu} (hc : c.lineRaised = m.cpu.lineRaised) (e : Exception) :
    { m with cpu := c.enter e }.Delivered := by
  apply Delivered.of_disabled
  · exact (c.lineRaised_enter e).trans (hc.trans h.line)
  · exact c.interruptsEnabled_enter e

/-! ### Passing the line on -/

lemma pollLines_bare (hP : Bare P) (m : Machine τ β δ) : m.pollLines P = m := by
  have hlines := Interrupts.assertLines_zero m.board.io.interrupts
  rw [pollLines, hP.hardware, mapIo]
  simp only [Hardware.absent, hlines]

/-- Passing the line on delivers what waits. -/
lemma delivered_syncInterrupts (hP : Bare P) (m : Machine τ β δ) : (m.syncInterrupts P).Delivered := by
  have hline := m.cpu.lineRaised_setInterruptLine m.board.io.interrupts.pending
  rw [syncInterrupts, pollLines_bare hP]
  dsimp only
  split
  · split
    · rename_i hmissing
      exact ⟨hline, fun h => h.2.2 hmissing⟩
    · apply Delivered.of_disabled
      · exact (Cpu.lineRaised_enter _ _).trans hline
      · exact Cpu.interruptsEnabled_enter _ _
  · rename_i hquiet
    refine ⟨hline, fun h => hquiet ?_⟩
    rw [Bool.and_eq_true]
    exact ⟨h.1, h.2.1⟩

lemma delivered_dispatchEvents (hP : Bare P) (h : m.Delivered) : (m.dispatchEvents P).Delivered := by
  rw [dispatchEvents]
  split
  · split
    · exact delivered_syncInterrupts hP _
    · exact h
  · exact h

/-! ### Other passes -/

/-- Looking for a block raises a bus error or leaves the processor alone. -/
lemma delivered_findBlock (h : m.Delivered) (pc : UInt32) : (m.findBlock P pc).2.Delivered := by
  rw [findBlock]
  split
  · exact h.congr rfl rfl rfl
  · dsimp only
    split
    · exact h.congr rfl rfl rfl
    · exact h.congr rfl rfl rfl
    · refine h.congr rfl rfl ?_
      change (Memory.markCode _ _ _).ram = _
      rw [Memory.markCode]
      split <;> rfl
    · have hraised := h.enter (c := { m.cpu with currentPc := pc }) rfl .busInstruction
      exact hraised.congr rfl rfl rfl

lemma delivered_misaligned (h : m.Delivered) (pc : UInt32) : (m.misaligned pc).Delivered := by
  have hline : ({ m.cpu with cop0 := m.cpu.cop0.put Cpu.badAddress pc } : Cpu).lineRaised = m.cpu.lineRaised := by
    rw [Cpu.lineRaised, Cpu.readCop0_set]
    rfl
  have hraised := h.enter hline .addressLoad
  exact hraised.congr rfl rfl rfl

lemma delivered_fastForward (h : m.Delivered) (e : Entry β) (deadline : UInt64) :
    (m.fastForward e deadline).2.Delivered := by
  rw [fastForward]
  dsimp only
  split
  · exact h.congr rfl rfl rfl
  · split <;> exact h.congr rfl rfl rfl

/-! ### Nothing to load -/

/-- What is left to load is as before. -/
structure SameLoader (m m' : Machine τ β δ) : Prop where
  loader : m'.loader = m.loader
  loaded : m'.loaded = m.loaded

lemma SameLoader.trans {m'' : Machine τ β δ} (h : SameLoader m m') (h' : SameLoader m' m'') :
    SameLoader m m'' :=
  ⟨h'.loader.trans h.loader, h'.loaded.trans h.loaded⟩

lemma sameLoader_findBlock (P : Parts τ β δ) (pc : UInt32) (m : Machine τ β δ) :
    SameLoader m (m.findBlock P pc).2 := by
  rw [findBlock]
  split
  · exact ⟨rfl, rfl⟩
  · dsimp only
    split <;> exact ⟨rfl, rfl⟩

lemma sameLoader_runBlock (P : Parts τ β δ) (e : Entry β) (deadline : UInt64) (m : Machine τ β δ) :
    SameLoader m (m.runBlock P e deadline) := by
  rw [runBlock, chargeSpent, resumeAborted]
  dsimp only
  split <;> split <;> exact ⟨rfl, rfl⟩

lemma sameLoader_dropDirtyCode (m : Machine τ β δ) : SameLoader m m.dropDirtyCode := by
  rw [dropDirtyCode_eq]
  refine List.foldlRecOn (motive := SameLoader m) m.memory.dirty.toList _ ⟨rfl, rfl⟩ ?_
  intro x hx p _
  refine hx.trans ?_
  rw [dropPage, invalidate]
  dsimp only
  split <;> exact ⟨rfl, rfl⟩

lemma sameLoader_syncInterrupts (P : Parts τ β δ) (m : Machine τ β δ) :
    SameLoader m (m.syncInterrupts P) := by
  rw [syncInterrupts]
  dsimp only
  split
  · split <;> exact ⟨rfl, rfl⟩
  · exact ⟨rfl, rfl⟩

lemma sameLoader_fastForward (e : Entry β) (deadline : UInt64) (m : Machine τ β δ) :
    SameLoader m (m.fastForward e deadline).2 := by
  rw [fastForward]
  dsimp only
  split
  · exact ⟨rfl, rfl⟩
  · split <;> exact ⟨rfl, rfl⟩

lemma sameLoader_onEvent (P : Parts τ β δ) (now : UInt64) (c : Callback) (k : EventKind) (m : Machine τ β δ) :
    SameLoader m (m.onEvent P now c k) := by
  cases c with
  | batch =>
    dsimp only [onEvent, onBatch]
    split <;> exact ⟨rfl, rfl⟩
  | _ => exact ⟨rfl, rfl⟩

lemma sameLoader_dispatchEvents (P : Parts τ β δ) (m : Machine τ β δ) :
    SameLoader m (m.dispatchEvents P) := by
  apply dispatchEvents_keeps
  · exact fun schedule x hx => hx.trans ⟨rfl, rfl⟩
  · exact fun now c k x hx => hx.trans (sameLoader_onEvent P now c k x)
  · intro stats x hx
    have hcounted : SameLoader x { x with stats } := ⟨rfl, rfl⟩
    exact hx.trans (hcounted.trans (sameLoader_syncInterrupts P _))
  · exact ⟨rfl, rfl⟩

/-! ### Runs -/

/-- The machines that a machine becomes by steps of any length, starts of frames and resets. -/
inductive Driven (P : Parts τ β δ) (m₀ : Machine τ β δ) : Machine τ β δ → Prop
  | start : Driven P m₀ m₀
  | stepUpTo {m : Machine τ β δ} (limit : UInt64) : Driven P m₀ m → Driven P m₀ (m.stepUpTo P limit).2
  | newFrame {m : Machine τ β δ} : Driven P m₀ m → Driven P m₀ { m with frameDone := false }
  | reset {m m' : Machine τ β δ} : Driven P m₀ m → m.reset P = .ok m' → Driven P m₀ m'

namespace Driven

lemma step (h : Driven P m₀ m) : Driven P m₀ (m.step P).2 := h.stepUpTo _

lemma stepWhile (h : Driven P m₀ m) (limit : UInt64) (go : Machine τ β δ → Bool) (fuel : Nat) :
    Driven P m₀ (m.stepWhile P limit go fuel).2 := by
  induction fuel generalizing m with
  | zero => exact h
  | succ fuel ih =>
    have hstep := h.stepUpTo limit
    rw [Machine.stepWhile]
    split
    · split <;> rename_i heq <;> rw [heq] at hstep
      · exact hstep
      · exact ih hstep
    · exact h

lemma runUntil (h : Driven P m₀ m) (fuel : Nat) (target : UInt64) :
    Driven P m₀ (m.runUntil P fuel target).2 := h.stepWhile ..

lemma runFrame (h : Driven P m₀ m) (fuel : Nat) : Driven P m₀ (m.runFrame P fuel).2 :=
  h.newFrame.stepWhile ..

end Driven

/-- Interrupts are delivered and nothing waits to be loaded. -/
structure Attended (m : Machine τ β δ) : Prop where
  delivered : m.Delivered
  loader : m.loader = none
  loaded : m.loaded = true

lemma Attended.congr (h : m.Attended) (hdelivered : m'.Delivered) (hsame : SameLoader m m') : m'.Attended :=
  ⟨hdelivered, hsame.loader.trans h.loader, hsame.loaded.trans h.loaded⟩

lemma attended_runPass (hP : Bare P) (h : m.Attended) (deadline : UInt64) (pc : UInt32) :
    (m.runPass P deadline pc).2.Attended := by
  have hfind := h.congr (delivered_findBlock (P := P) h.delivered pc) (sameLoader_findBlock P pc m)
  rw [runPass]
  split <;> rename_i heq <;> rw [heq] at hfind
  · exact hfind
  · exact hfind.congr (hfind.delivered.congr rfl rfl rfl) ⟨rfl, rfl⟩
  · rename_i e x
    have hran : SameLoader x ((x.runBlock P e deadline).dropDirtyCode.syncInterrupts P) :=
      ((sameLoader_runBlock P e deadline x).trans (sameLoader_dropDirtyCode _)).trans
        (sameLoader_syncInterrupts P _)
    have hsync := delivered_syncInterrupts hP (x.runBlock P e deadline).dropDirtyCode
    have hforward := hfind.congr (delivered_fastForward hsync e deadline)
      (hran.trans (sameLoader_fastForward e deadline _))
    dsimp only
    split <;> rename_i heq <;> rw [heq] at hforward <;> exact hforward

/-- Every way round the loop leaves interrupts delivered. -/
lemma attended_pass (hP : Bare P) (h : m.Attended) (deadline : UInt64) : (m.pass P deadline).2.Attended := by
  dsimp only [pass]
  rw [h.loaded, intercept_of_none hP.hooks]
  simp only [Bool.not_true, Bool.false_and, Bool.false_eq_true, if_false]
  split
  · exact attended_runPass hP h deadline m.cpu.pc
  · exact h.congr (delivered_misaligned h.delivered m.cpu.pc) ⟨rfl, rfl⟩

lemma attended_passes (hP : Bare P) (h : m.Attended) (deadline : UInt64) (fuel : Nat) :
    (m.passes P deadline fuel).2.Attended := by
  induction fuel generalizing m with
  | zero => exact h
  | succ fuel ih =>
    have hpass := attended_pass hP h deadline
    rw [passes]
    split
    · split <;> rename_i heq <;> rw [heq] at hpass
      · exact ih hpass
      · exact hpass
      · exact hpass
    · exact h

lemma attended_stepUpTo (hP : Bare P) (h : m.Attended) (limit : UInt64) :
    (m.stepUpTo P limit).2.Attended := by
  have hexecute : (m.execute P (m.stepDeadline limit)).2.Attended := attended_passes hP h _ _
  rw [stepUpTo]
  split <;> rename_i x heq <;> rw [heq] at hexecute
  · exact hexecute
  · replace hexecute : x.Attended := hexecute
    exact hexecute.congr (delivered_dispatchEvents hP hexecute.delivered) (sameLoader_dispatchEvents P x)

/-- After power-on nothing is raised and nothing waits to be loaded. -/
lemma attended_powerOn (hP : Bare P) (hcpu : m.cpu = .fresh) (hinterrupts : m.board.io.interrupts = {})
    (hloader : m.loader = none) : (powerOn P m).Attended := by
  have hsame : (powerOn P m).board.io.interrupts = m.board.io.interrupts := by
    simp only [powerOn, hP.hardware]
    rfl
  have hfresh : (powerOn P m).cpu = .fresh := hcpu
  refine ⟨.of_disabled ?_ ?_, hloader, ?_⟩
  · rw [hsame, hinterrupts, hfresh]
    decide
  · rw [hfresh]
    decide
  · exact congrArg Option.isNone hloader

lemma attended_reset (hP : Bare P) (h : m.Attended) (hreset : m.reset P = .ok m') : m'.Attended := by
  obtain ⟨flushed, hflush, rfl⟩ := reset_eq_ok hreset
  obtain ⟨r, -, rfl⟩ := flushCode_eq_ok hflush
  exact attended_powerOn hP rfl rfl h.loader

lemma attended_driven (hP : Bare P) (h : m₀.Attended) (hm : Driven P m₀ m) : m.Attended := by
  induction hm with
  | start => exact h
  | stepUpTo limit _ ih => exact attended_stepUpTo hP ih limit
  | newFrame _ ih => exact ih.congr (ih.delivered.congr rfl rfl rfl) ⟨rfl, rfl⟩
  | reset _ hreset ih => exact attended_reset hP ih hreset

lemma attended_head (hP : Bare P) (h : m.Attended) {deadline : UInt64} (hm : Passes P deadline m m') :
    m'.Attended := by
  induction hm with
  | start => exact h
  | again _ _ heq ih =>
    have hpass := attended_pass hP ih deadline
    rw [heq] at hpass
    exact hpass

/-- No interrupt is lost or left behind: whenever a block is about to run, and before and after a slice is
skipped, the interrupt line is in step and no interrupt waits that the processor would take. -/
theorem interrupts_delivered (hP : Bare P) {settings : Settings} {bios : ByteArray} {device : δ} {t : τ}
    (hstart : ofTranslator P settings bios device t = .ok m₀) (hm : Driven P m₀ m) {limit : UInt64}
    {h s : Machine τ β δ} {e : Entry β} (hhead : Passes P (m.stepDeadline limit) m h)
    (hfind : h.findBlock P h.cpu.pc = (.ok (some e), s)) :
    s.Delivered ∧
      let ran := (s.runBlock P e (m.stepDeadline limit)).dropDirtyCode.syncInterrupts P
      ran.Delivered ∧ ∀ skipped, ran.fastForward e (m.stepDeadline limit) = (true, skipped) →
        skipped.Delivered := by
  have hfresh : m₀.Attended := by
    obtain ⟨r, -, rfl⟩ := ofTranslator_eq_ok hstart
    rw [assemble]
    exact attended_powerOn hP rfl rfl rfl
  have hattended := attended_head hP (attended_driven hP hfresh hm) hhead
  have hfound := delivered_findBlock (P := P) hattended.delivered h.cpu.pc
  rw [hfind] at hfound
  refine ⟨hfound, delivered_syncInterrupts hP _, fun skipped hskip => ?_⟩
  have hsync := delivered_syncInterrupts hP (s.runBlock P e (m.stepDeadline limit)).dropDirtyCode
  have hforward := delivered_fastForward hsync e (m.stepDeadline limit)
  rw [hskip] at hforward
  exact hforward

/-! ### The interrupt of the frame blank -/

/-- A boot ROM that unmasks and enables the interrupt of the frame blank and waits for it in a loop.  Before that it
puts a word where the handler would begin: zero, which says that there is none, or another one. -/
def waitRom (handler : UInt8) : ByteArray :=
  ⟨#[0x80, 0x1F, 0x08, 0x3C, 0x01, 0, 0x09, 0x24, 0x74, 0x10, 0x09, 0xAD, handler, 0, 0x0B, 0x24,
    0x80, 0, 0x0B, 0xAC, 0x01, 0x04, 0x0A, 0x24, 0, 0x60, 0x8A, 0x40, 0x07, 0, 0xF0, 0x0B]⟩

/-- The frame blank begins with the tenth step, if the slices in between are skipped; a block is found then. -/
lemma wait_run (handler : UInt8) (test : Machine TranslatorStats Block Unit → Bool) :
    let P := Parts.standard (.absent Unit) (.none Unit)
    let m := ((assemble P smallSettings (waitRom handler) () (.bare {} smallSettings.limits)).runUntil P 10 565976).2
    (test m && (m.findBlock P m.cpu.pc).1.toOption.join.any fun _ => true) = true →
      ∃ m₀ m e s, ofTranslator P smallSettings (waitRom handler) () {} = .ok m₀ ∧ Driven P m₀ m ∧
        m.findBlock P m.cpu.pc = (.ok (some e), s) ∧ test m = true := by
  intro P m h
  rw [Bool.and_eq_true] at h
  obtain ⟨e, s, hfind, -⟩ := exists_found h.2
  exact ⟨_, m, e, s, ofTranslator_eq_bare (by decide) _ _ _, Driven.start.runUntil .., hfind, h.1⟩

/-- At the frame blank the line is up when the next block runs.  With a handler that is its first block, and the loop
is where it will return to; without one the interrupt, though enabled, is held, and the loop goes on. -/
theorem interrupts_delivered_wait :
    let P := Parts.standard (.absent Unit) (.none Unit)
    (∃ m₀ m e s, ofTranslator P smallSettings (waitRom 8) () {} = .ok m₀ ∧ Driven P m₀ m ∧
      Passes P (m.stepDeadline 0) m m ∧ m.findBlock P m.cpu.pc = (.ok (some e), s) ∧ s.Delivered ∧
        m.board.io.interrupts.pending = true ∧ m.cpu.pc = 0x80000080 ∧ m.cpu.readCop0 14 = 0xBFC0001C) ∧
      ∃ m₀ m e s, ofTranslator P smallSettings (waitRom 0) () {} = .ok m₀ ∧ Driven P m₀ m ∧
        Passes P (m.stepDeadline 0) m m ∧ m.findBlock P m.cpu.pc = (.ok (some e), s) ∧ s.Delivered ∧
          m.board.io.interrupts.pending = true ∧ m.cpu.pc = 0xBFC0001C ∧ m.cpu.interruptsEnabled = true ∧
            m.handlerMissing = true := by
  intro P
  constructor
  · obtain ⟨m₀, m, e, s, hstart, hdriven, hfind, htest⟩ := wait_run 8
      (fun m => m.board.io.interrupts.pending = true ∧ m.cpu.pc = 0x80000080 ∧ m.cpu.readCop0 14 = 0xBFC0001C)
      (by decide +kernel)
    have hhead : Passes P (m.stepDeadline 0) m m := .start
    have hdelivered := interrupts_delivered ⟨rfl, rfl⟩ hstart hdriven hhead hfind
    exact ⟨m₀, m, e, s, hstart, hdriven, hhead, hfind, hdelivered.1, of_decide_eq_true htest⟩
  · obtain ⟨m₀, m, e, s, hstart, hdriven, hfind, htest⟩ := wait_run 0
      (fun m => m.board.io.interrupts.pending = true ∧ m.cpu.pc = 0xBFC0001C ∧ m.cpu.interruptsEnabled = true ∧
        m.handlerMissing = true)
      (by decide +kernel)
    have hhead : Passes P (m.stepDeadline 0) m m := .start
    have hdelivered := interrupts_delivered ⟨rfl, rfl⟩ hstart hdriven hhead hfind
    exact ⟨m₀, m, e, s, hstart, hdriven, hhead, hfind, hdelivered.1, of_decide_eq_true htest⟩

end Machine

end R3000
