import Mathlib
import R3000.Machine.Dispatch
import R3000.Proofs.Creation
import R3000.Proofs.Events.Pending

/-!
# Reached machines

`Reached` is closed under everything that the owner of a machine can ask of it, step by step; runs and
frames are made of such steps.  `AtHead` goes inside a step: it holds of the machines at the head of the
dispatcher's loop.  An invariant is checked against one pass, the events, and the owner's requests.
-/

namespace R3000

/-- An image that is not loaded leaves the processor and the memory; the registers of one that is come from its
header. -/
lemma Exe.install_cases (image : ByteArray) (c : Cpu) (m : Memory) :
    (∃ e, install image c m = (.error e, c, m)) ∨
      ∃ header, install image c m =
        (.ok (), startRegisters header c, m.loadRam (header.textAddr &&& 0x1FFFFFFF) (text header image)) := by
  rw [install]
  split
  · exact .inl ⟨_, rfl⟩
  · dsimp only
    split
    · exact .inl ⟨_, rfl⟩
    · exact .inr ⟨_, rfl⟩

namespace Machine

variable {τ β δ : Type} {P : Parts τ β δ} {m m' m₀ : Machine τ β δ}

/-- A new machine is put together around a new recompiler. -/
lemma ofTranslator_eq_ok {settings : Settings} {bios : ByteArray} {device : δ} {t : τ}
    (h : ofTranslator P settings bios device t = .ok m) :
    ∃ r, Recompiler.create t settings.limits = .ok r ∧ m = assemble P settings bios device r := by
  rw [ofTranslator] at h
  cases hcreate : (Recompiler.create t settings.limits : Except _ (Recompiler τ β)) with
  | error err => simp [hcreate, Except.mapError, bind, Except.bind] at h
  | ok r =>
    refine ⟨r, rfl, ?_⟩
    simpa [hcreate, Except.mapError, bind, Except.bind, pure, Except.pure] using h.symm

lemma ofTranslator_of_create {settings : Settings} {bios : ByteArray} {device : δ} {t : τ} {r : Recompiler τ β}
    (h : Recompiler.create t settings.limits = .ok r) :
    ofTranslator P settings bios device t = .ok (assemble P settings bios device r) := by
  rw [ofTranslator, h]
  rfl

/-- A machine is made if its recompiler can be, whatever its boot ROM and its devices. -/
lemma ofTranslator_eq_bare {settings : Settings} (h : settings.limits.Available) (bios : ByteArray) (device : δ)
    (t : τ) :
    ofTranslator P settings bios device t = .ok (assemble P settings bios device (.bare t settings.limits)) :=
  ofTranslator_of_create (Recompiler.create_eq_bare t h)

/-! ### What the owner's requests do -/

lemma flushCode_eq_ok (h : m.flushCode = .ok m') : ∃ r, m.recompiler.flush = .ok r ∧
    m' = { m with recompiler := r }.mapMemory Memory.clearCodeMarks := by
  rw [flushCode] at h
  cases hr : m.recompiler.flush with
  | error err => simp [hr, bind, Except.bind] at h
  | ok r =>
    refine ⟨r, rfl, ?_⟩
    simpa [hr, bind, Except.bind, pure, Except.pure] using h.symm

/-- A reset is a flush among quiet changes. -/
lemma reset_eq_ok (h : m.reset P = .ok m') : ∃ flushed,
    ({ m with cpu := .fresh }.mapIo fun io => { io with interrupts := {} }).flushCode = .ok flushed ∧
      m' = powerOn P flushed := by
  dsimp only [Machine.reset] at h
  set start := { m with cpu := .fresh }.mapIo fun io => { io with interrupts := {} }
  cases hflush : start.flushCode with
  | error err => simp [hflush, bind, Except.bind] at h
  | ok flushed =>
    refine ⟨flushed, rfl, ?_⟩
    simpa [hflush, bind, Except.bind, pure, Except.pure] using h.symm

/-- The queued image is loaded and the code flushed, or there is nothing to load. -/
lemma loadQueued_eq_ok (h : m.loadQueued = .ok m') : m' = { m with loaded := true } ∨
    ∃ header memory,
      { m with loaded := true, cpu := Exe.startRegisters header m.cpu, board.memory := memory }.flushCode = .ok m' := by
  dsimp only [loadQueued] at h
  split at h
  · exact .inl (Except.ok.inj h).symm
  · rename_i image _
    rcases Exe.install_cases image m.cpu m.board.memory with ⟨e, herror⟩ | ⟨header, hloaded⟩
    · dsimp only [memory] at h
      rw [herror] at h
      exact .inl (Except.ok.inj h).symm
    · dsimp only [memory] at h
      rw [hloaded] at h
      exact .inr ⟨header, _, h⟩

/-! ### Quiet changes -/

/-- Memory, translated code and settings are as before. -/
structure Quiet (m m' : Machine τ β δ) : Prop where
  settings : m'.settings = m.settings
  memory : m'.memory = m.memory
  recompiler : m'.recompiler = m.recompiler

namespace Quiet

lemma refl (m : Machine τ β δ) : Quiet m m := ⟨rfl, rfl, rfl⟩

lemma trans {m'' : Machine τ β δ} (h : Quiet m m') (h' : Quiet m' m'') : Quiet m m'' :=
  ⟨h'.settings.trans h.settings, h'.memory.trans h.memory, h'.recompiler.trans h.recompiler⟩

end Quiet

lemma quiet_syncInterrupts (P : Parts τ β δ) (m : Machine τ β δ) : Quiet m (m.syncInterrupts P) := by
  rw [syncInterrupts]
  dsimp only
  split
  · split <;> exact ⟨rfl, rfl, rfl⟩
  · exact ⟨rfl, rfl, rfl⟩

lemma quiet_onEvent (P : Parts τ β δ) (now : UInt64) (c : Callback) (k : EventKind) (m : Machine τ β δ) :
    Quiet m (m.onEvent P now c k) := by
  dsimp only [onEvent]
  split
  · dsimp only [onBatch]
    split <;> exact ⟨rfl, rfl, rfl⟩
  · exact ⟨rfl, rfl, rfl⟩
  · exact ⟨rfl, rfl, rfl⟩

/-- What the pending events and the counts do not touch, and events and interrupts keep, a dispatch of the events
keeps. -/
lemma dispatchEvents_keeps {I : Machine τ β δ → Prop}
    (hschedule : ∀ schedule x, I x → I (x.mapIo fun io => { io with schedule }))
    (hevent : ∀ now c k x, I x → I (x.onEvent P now c k))
    (hsync : ∀ stats x, I x → I ({ x with stats }.syncInterrupts P)) (h : I m) : I (m.dispatchEvents P) := by
  have hfired : I (m.fireDue P m.cycles).2 := by
    rw [fireDue]
    exact Schedule.dispatch_keeps hschedule (hevent m.cycles) h
  rw [dispatchEvents]
  split
  · split
    · exact hsync _ _ hfired
    · exact h
  · exact h

lemma quiet_dispatchEvents (P : Parts τ β δ) (m : Machine τ β δ) : Quiet m (m.dispatchEvents P) := by
  apply dispatchEvents_keeps
  · exact fun schedule x hx => hx.trans ⟨rfl, rfl, rfl⟩
  · exact fun now c k x hx => hx.trans (quiet_onEvent P now c k x)
  · intro stats x hx
    have hcounted : Quiet x { x with stats } := ⟨rfl, rfl, rfl⟩
    exact hx.trans (hcounted.trans (quiet_syncInterrupts P _))
  · exact .refl m

lemma quiet_fastForward (e : Entry β) (deadline : UInt64) (m : Machine τ β δ) :
    Quiet m (m.fastForward e deadline).2 := by
  rw [fastForward]
  dsimp only
  split
  · exact ⟨rfl, rfl, rfl⟩
  · split <;> exact ⟨rfl, rfl, rfl⟩

lemma quiet_chargeSpent (budget left : Int32) (m : Machine τ β δ) :
    Quiet m (m.chargeSpent budget left) := by
  rw [chargeSpent]
  dsimp only
  split <;> exact ⟨rfl, rfl, rfl⟩

lemma quiet_powerOn (P : Parts τ β δ) (m : Machine τ β δ) : Quiet m (powerOn P m) := ⟨rfl, rfl, rfl⟩

/-- Without hooks no call is intercepted. -/
lemma intercept_of_none (h : P.hooks = .none δ) (pc : UInt32) (m : Machine τ β δ) :
    m.intercept P pc = (false, m) := by
  rw [intercept]
  dsimp only
  split
  · simp only [h]
    rfl
  · rfl

/-! ### Running a block -/

/-- What a chain of blocks leaves, a dispatch leaves behind the device window and in memory. -/
lemma board_runBlock (P : Parts τ β δ) (e : Entry β) (deadline : UInt64) (m : Machine τ β δ) :
    (m.runBlock P e deadline).board =
      (Chain.run (P.enter m.recompiler.translator m.cycles) m.recompiler.store e.code
        (m.budget deadline) (m.armed (m.budget deadline)) m.board).rest := by
  rw [runBlock, chargeSpent, resumeAborted]
  dsimp only
  split <;> split <;> rfl

lemma recompiler_resumeAborted (e : Entry β) (m : Machine τ β δ) :
    (m.resumeAborted e).recompiler = m.recompiler ∨
      (m.resumeAborted e).recompiler = (m.recompiler.refineIdle e.pc .none).2 := by
  rw [resumeAborted]
  split
  · exact .inl rfl
  · dsimp only
    split
    · exact .inr rfl
    · exact .inl rfl

/-- A dispatch changes of the translated code no more than how a block waits. -/
lemma recompiler_runBlock (P : Parts τ β δ) (e : Entry β) (deadline : UInt64) (m : Machine τ β δ) :
    (m.runBlock P e deadline).recompiler = m.recompiler ∨
      (m.runBlock P e deadline).recompiler = (m.recompiler.refineIdle e.pc .none).2 := by
  rw [runBlock]
  dsimp only
  rw [(quiet_chargeSpent _ _ _).recompiler]
  exact recompiler_resumeAborted e _

/-! ### Invalidating -/

lemma quiet_invalidate (m : Machine τ β δ) (addr len : UInt32) :
    (m.invalidate addr len).2.settings = m.settings ∧ (m.invalidate addr len).2.memory = m.memory ∧
      (m.invalidate addr len).2.cpu = m.cpu := by
  rw [invalidate]
  dsimp only
  split <;> exact ⟨rfl, rfl, rfl⟩

/-- A range of main memory is invalidated in each of its images. -/
lemma recompiler_invalidate_ram {addr : UInt32} (h : physical addr < 0x00800000) (len : UInt32)
    (m : Machine τ β δ) : (m.invalidate addr len).2.recompiler =
      ramImages.foldl (fun r image => (r.invalidate ((physical addr &&& 0x001FFFFF) + image) len).2)
        m.recompiler := by
  rw [invalidate]
  dsimp only
  rw [if_pos h]
  exact (List.foldl_hom Prod.snd fun _ _ => rfl).symm

lemma recompiler_invalidate {addr : UInt32} (h : ¬ physical addr < 0x00800000) (len : UInt32)
    (m : Machine τ β δ) :
    (m.invalidate addr len).2.recompiler = (m.recompiler.invalidate (physical addr) len).2 := by
  rw [invalidate]
  dsimp only
  rw [if_neg h]

/-- The machine without the blocks of a page. -/
def dropPage (m : Machine τ β δ) (p : Page) : Machine τ β δ :=
  let dropped := (m.invalidate (p.val * pageBytes).toUInt32 pageBytes.toUInt32).2
  { dropped with stats.smcPages := dropped.stats.smcPages + 1 }

lemma dropDirtyCode_eq (m : Machine τ β δ) : m.dropDirtyCode =
    m.memory.dirty.toList.foldl dropPage { m with board.memory := { m.memory with dirty := #[] } } := by
  rw [Array.foldl_toList]
  rfl

/-! ### Reached machines -/

/-- The machines that a machine can become: by steps of any length, at the start of a frame, and by
requests of the owner, none of which writes memory. -/
inductive Reached (P : Parts τ β δ) (m₀ : Machine τ β δ) : Machine τ β δ → Prop
  | start : Reached P m₀ m₀
  | stepUpTo {m : Machine τ β δ} (limit : UInt64) : Reached P m₀ m → Reached P m₀ (m.stepUpTo P limit).2
  | newFrame {m : Machine τ β δ} : Reached P m₀ m → Reached P m₀ { m with frameDone := false }
  | reset {m m' : Machine τ β δ} : Reached P m₀ m → m.reset P = .ok m' → Reached P m₀ m'
  | flushCode {m m' : Machine τ β δ} : Reached P m₀ m → m.flushCode = .ok m' → Reached P m₀ m'
  | invalidate {m : Machine τ β δ} (addr len : UInt32) :
    Reached P m₀ m → Reached P m₀ (m.invalidate addr len).2
  | queue {m : Machine τ β δ} (image : ByteArray) : Reached P m₀ m → Reached P m₀ (m.queue image)
  | resetStats {m : Machine τ β δ} : Reached P m₀ m → Reached P m₀ (m.resetStats P)

namespace Reached

lemma step (h : Reached P m₀ m) : Reached P m₀ (m.step P).2 := h.stepUpTo _

lemma stepWhile (h : Reached P m₀ m) (limit : UInt64) (go : Machine τ β δ → Bool) (fuel : Nat) :
    Reached P m₀ (m.stepWhile P limit go fuel).2 := by
  induction fuel generalizing m with
  | zero =>
    rw [Machine.stepWhile]
    split <;> exact h
  | succ fuel ih =>
    have hstep := h.stepUpTo limit
    rw [Machine.stepWhile]
    split
    · split
      · rename_i heq
        rw [heq] at hstep
        exact hstep
      · rename_i heq
        rw [heq] at hstep
        exact ih hstep
    · exact h

lemma runUntil (h : Reached P m₀ m) (fuel : Nat) (target : UInt64) :
    Reached P m₀ (m.runUntil P fuel target).2 := h.stepWhile ..

lemma runFrame (h : Reached P m₀ m) (fuel : Nat) : Reached P m₀ (m.runFrame P fuel).2 :=
  h.newFrame.stepWhile ..

end Reached

/-! ### Heads of the dispatcher's loop -/

/-- The machines at the head of the loop while code runs up to a deadline. -/
inductive Passes (P : Parts τ β δ) (deadline : UInt64) (m : Machine τ β δ) : Machine τ β δ → Prop
  | start : Passes P deadline m m
  | again {h h' : Machine τ β δ} : Passes P deadline m h → h.cycles < deadline →
    h.pass P deadline = (.again, h') → Passes P deadline m h'

/-- The machine at the head of the loop after some passes, if the loop goes on until then. -/
def headAfter (P : Parts τ β δ) (deadline : UInt64) : Nat → Machine τ β δ → Option (Machine τ β δ)
  | 0, m => some m
  | n + 1, m =>
    if m.cycles < deadline then
      match m.pass P deadline with
      | (.again, h) => h.headAfter P deadline n
      | _ => none
    else none

lemma Passes.headAfter {deadline : UInt64} {h h' : Machine τ β δ} (hm : Passes P deadline m h) {n : Nat}
    (hafter : h.headAfter P deadline n = some h') : Passes P deadline m h' := by
  induction n generalizing h with
  | zero =>
    obtain rfl := Option.some.inj hafter
    exact hm
  | succ n ih =>
    rw [Machine.headAfter] at hafter
    split at hafter
    · rename_i hgo
      split at hafter
      · rename_i h₁ hpass
        exact ih (hm.again hgo hpass) hafter
      · cases hafter
    · cases hafter

/-- A run of the loop that can be computed comes to a head that passes a test. -/
lemma exists_passes {deadline : UInt64} {n : Nat} {test : Machine τ β δ → Bool}
    (h : (m.headAfter P deadline n).any test = true) : ∃ h, Passes P deadline m h ∧ test h = true := by
  obtain ⟨h, hafter, htest⟩ := (Option.any_eq_true ..).mp h
  exact ⟨h, Passes.start.headAfter hafter, htest⟩

/-- A look whose answer passes a test for blocks found one that does. -/
lemma exists_found {pc : UInt32} {test : Entry β → Bool}
    (htest : (m.findBlock P pc).1.toOption.join.any test = true) :
    ∃ e m', m.findBlock P pc = (.ok (some e), m') ∧ test e = true := by
  obtain ⟨e, he, hpasses⟩ := (Option.any_eq_true ..).mp htest
  cases hlook : m.findBlock P pc with
  | mk found m' =>
    rw [hlook] at he
    cases found with
    | error err => simp [Except.toOption] at he
    | ok found =>
      obtain rfl : found = some e := he
      exact ⟨e, m', rfl, hpasses⟩

/-- The machines at the head of the loop in some step of a reached machine. -/
def AtHead (P : Parts τ β δ) (m₀ h : Machine τ β δ) : Prop :=
  ∃ m limit, Reached P m₀ m ∧ Passes P (m.stepDeadline limit) m h

/-! ### Invariants -/

/-- A property that a pass of the dispatcher, the events and the requests of the owner keep. -/
structure Invariant (P : Parts τ β δ) (I : Machine τ β δ → Prop) : Prop where
  pass : ∀ m deadline, I m → I (m.pass P deadline).2
  dispatchEvents : ∀ m, I m → I (m.dispatchEvents P)
  newFrame : ∀ m, I m → I { m with frameDone := false }
  reset : ∀ m m', I m → m.reset P = .ok m' → I m'
  flushCode : ∀ m m', I m → m.flushCode = .ok m' → I m'
  invalidate : ∀ m addr len, I m → I (m.invalidate addr len).2
  queue : ∀ m image, I m → I (m.queue image)
  resetStats : ∀ m, I m → I (m.resetStats P)

namespace Invariant

variable {I : Machine τ β δ → Prop}

lemma passes (k : Invariant P I) {deadline : UInt64} (fuel : Nat) (h : I m) :
    I (m.passes P deadline fuel).2 := by
  induction fuel generalizing m with
  | zero => exact h
  | succ fuel ih =>
    have hpass := k.pass m deadline h
    rw [Machine.passes]
    split
    · split <;> rename_i heq <;> rw [heq] at hpass
      · exact ih hpass
      · exact hpass
      · exact hpass
    · exact h

lemma stepUpTo (k : Invariant P I) (limit : UInt64) (h : I m) : I (m.stepUpTo P limit).2 := by
  have hexecute : I (m.execute P (m.stepDeadline limit)).2 := k.passes _ h
  rw [Machine.stepUpTo]
  split
  · rename_i heq
    rw [heq] at hexecute
    exact hexecute
  · rename_i heq
    rw [heq] at hexecute
    exact k.dispatchEvents _ hexecute

/-- An invariant that holds at the start holds of every reached machine. -/
theorem reached (k : Invariant P I) (h : I m₀) (hm : Reached P m₀ m) : I m := by
  induction hm with
  | start => exact h
  | stepUpTo limit _ ih => exact k.stepUpTo limit ih
  | newFrame _ ih => exact k.newFrame _ ih
  | reset _ heq ih => exact k.reset _ _ ih heq
  | flushCode _ heq ih => exact k.flushCode _ _ ih heq
  | invalidate addr len _ ih => exact k.invalidate _ addr len ih
  | queue image _ ih => exact k.queue _ image ih
  | resetStats _ ih => exact k.resetStats _ ih

/-- An invariant that holds when a step begins holds at every head of its loop. -/
lemma head (k : Invariant P I) {deadline : UInt64} (h : I m) (hm : Passes P deadline m m') : I m' := by
  induction hm with
  | start => exact h
  | again _ _ heq ih =>
    have hpass := k.pass _ deadline ih
    rw [heq] at hpass
    exact hpass

/-- An invariant that holds at the start holds at every head of the dispatcher's loop. -/
theorem atHead (k : Invariant P I) (h : I m₀) (hm : AtHead P m₀ m) : I m := by
  obtain ⟨start, limit, hstart, hpasses⟩ := hm
  exact k.head (k.reached h hstart) hpasses

end Invariant

/-! ### Invariants of memory and translated code -/

/-- A property of settings, memory and translated code that the parts of a pass keep. -/
structure CodeInvariant (P : Parts τ β δ) (I : Machine τ β δ → Prop) : Prop where
  quiet : ∀ m m', I m → Quiet m m' → I m'
  intercept : ∀ m pc, I m → I (m.intercept P pc).2
  loadQueued : ∀ m m', I m → m.loadQueued = .ok m' → I m'
  findBlock : ∀ m pc, I m → I (m.findBlock P pc).2
  run : ∀ m pc m' e deadline, I m → m.findBlock P pc = (.ok (some e), m') →
    I (m'.runBlock P e deadline).dropDirtyCode
  flushCode : ∀ m m', I m → m.flushCode = .ok m' → I m'
  invalidate : ∀ m addr len, I m → I (m.invalidate addr len).2
  resetStats : ∀ m, I m → I (m.resetStats P)

namespace CodeInvariant

variable {I : Machine τ β δ → Prop}

lemma runPass (k : CodeInvariant P I) (deadline : UInt64) (pc : UInt32) (h : I m) :
    I (m.runPass P deadline pc).2 := by
  have hfind := k.findBlock m pc h
  rw [Machine.runPass]
  split
  · rename_i heq
    rw [heq] at hfind
    exact hfind
  · rename_i heq
    rw [heq] at hfind
    exact k.quiet _ _ hfind ⟨rfl, rfl, rfl⟩
  · rename_i e m' heq
    have hrun := k.run m pc m' e deadline h heq
    have hsync := k.quiet _ _ hrun (quiet_syncInterrupts P _)
    have hforward := k.quiet _ _ hsync (quiet_fastForward e deadline _)
    dsimp only
    split <;> rename_i heq <;> rw [heq] at hforward <;> exact hforward

lemma pass (k : CodeInvariant P I) (deadline : UInt64) (h : I m) : I (m.pass P deadline).2 := by
  dsimp only [Machine.pass]
  split
  · split
    · rename_i heq
      exact k.loadQueued m _ h heq
    · exact h
  · have hintercept := k.intercept m m.cpu.pc h
    split <;> rename_i m' heq <;> rw [heq] at hintercept
    · have hcharge : I (m'.charge m'.minCharge) := k.quiet _ _ hintercept ⟨rfl, rfl, rfl⟩
      exact k.quiet _ _ hcharge (quiet_syncInterrupts P _)
    · split
      · exact k.runPass deadline m.cpu.pc hintercept
      · exact k.quiet _ _ hintercept ⟨rfl, rfl, rfl⟩

lemma reset (k : CodeInvariant P I) (h : I m) (hreset : m.reset P = .ok m') : I m' := by
  obtain ⟨flushed, hflush, rfl⟩ := reset_eq_ok hreset
  have hstart : I ({ m with cpu := .fresh }.mapIo fun io => { io with interrupts := {} }) :=
    k.quiet _ _ h ⟨rfl, rfl, rfl⟩
  exact k.quiet _ _ (k.flushCode _ _ hstart hflush) (quiet_powerOn P flushed)

/-- A property that the parts of a pass keep is an invariant. -/
theorem invariant (k : CodeInvariant P I) : Invariant P I where
  pass _ deadline h := k.pass deadline h
  dispatchEvents m h := k.quiet _ _ h (quiet_dispatchEvents P m)
  newFrame _ h := k.quiet _ _ h ⟨rfl, rfl, rfl⟩
  reset _ _ := k.reset
  flushCode := k.flushCode
  invalidate := k.invalidate
  queue _ _ h := k.quiet _ _ h ⟨rfl, rfl, rfl⟩
  resetStats := k.resetStats

/-- Two of these together are one. -/
lemma and {J : Machine τ β δ → Prop} (k : CodeInvariant P I) (k' : CodeInvariant P J) :
    CodeInvariant P fun m => I m ∧ J m where
  quiet m m' h hquiet := ⟨k.quiet m m' h.1 hquiet, k'.quiet m m' h.2 hquiet⟩
  intercept m pc h := ⟨k.intercept m pc h.1, k'.intercept m pc h.2⟩
  loadQueued m m' h hload := ⟨k.loadQueued m m' h.1 hload, k'.loadQueued m m' h.2 hload⟩
  findBlock m pc h := ⟨k.findBlock m pc h.1, k'.findBlock m pc h.2⟩
  run m pc m' e deadline h hfind := ⟨k.run m pc m' e deadline h.1 hfind, k'.run m pc m' e deadline h.2 hfind⟩
  flushCode m m' h hflush := ⟨k.flushCode m m' h.1 hflush, k'.flushCode m m' h.2 hflush⟩
  invalidate m addr len h := ⟨k.invalidate m addr len h.1, k'.invalidate m addr len h.2⟩
  resetStats m h := ⟨k.resetStats m h.1, k'.resetStats m h.2⟩

lemma congr {J : Machine τ β δ → Prop} (k : CodeInvariant P I) (h : ∀ m, J m ↔ I m) : CodeInvariant P J := by
  obtain rfl : J = I := funext fun m => propext (h m)
  exact k

end CodeInvariant

/-! ### Properties of the recompiler -/

lemma recompiler_intercept (m : Machine τ β δ) (pc : UInt32) : (m.intercept P pc).2.recompiler = m.recompiler := by
  rw [intercept]
  dsimp only
  split
  · split <;> rfl
  · rfl

/-- A property that the recompiler keeps, whatever a machine asks of it. -/
structure Lasting (t : Translator τ β) (J : Recompiler τ β → Prop) : Prop where
  resolve : ∀ r (memory : Memory) pc, J r → J (r.resolve t memory.source pc).2
  flush : ∀ r r', J r → r.flush = .ok r' → J r'
  invalidate : ∀ r start len, J r → J (r.invalidate start len).2
  refineIdle : ∀ r pc, J r → J (r.refineIdle pc .none).2
  resetStats : ∀ r, J r → J (r.resetStats t)

namespace Lasting

variable {J : Recompiler τ β → Prop}

lemma congr {t : Translator τ β} {J' : Recompiler τ β → Prop} (k : Lasting t J) (h : ∀ r, J' r ↔ J r) :
    Lasting t J' := by
  obtain rfl : J' = J := funext fun r => propext (h r)
  exact k

lemma flushCode {t : Translator τ β} (k : Lasting t J) (h : J m.recompiler) (hflush : m.flushCode = .ok m') :
    J m'.recompiler := by
  obtain ⟨r, hr, rfl⟩ := flushCode_eq_ok hflush
  exact k.flush _ _ h hr

lemma invalidateImages {t : Translator τ β} (k : Lasting t J) (h : J m.recompiler) (addr len : UInt32) :
    J (m.invalidate addr len).2.recompiler := by
  by_cases hram : physical addr < 0x00800000
  · rw [recompiler_invalidate_ram hram]
    exact List.foldlRecOn ramImages _ h fun r hr image _ => k.invalidate r _ len hr
  · rw [recompiler_invalidate hram]
    exact k.invalidate _ _ len h

lemma dropDirtyCode {t : Translator τ β} (k : Lasting t J) (h : J m.recompiler) : J m.dropDirtyCode.recompiler := by
  rw [dropDirtyCode_eq]
  let I (m : Machine τ β δ) : Prop := J m.recompiler
  exact List.foldlRecOn (motive := I) m.memory.dirty.toList _ h fun m hm p _ => k.invalidateImages hm _ _

lemma findBlock (k : Lasting P.translator J) (h : J m.recompiler) (pc : UInt32) :
    J (m.findBlock P pc).2.recompiler := by
  have hresolve := k.resolve m.recompiler m.memory pc h
  rw [Machine.findBlock]
  split
  · exact h
  · dsimp only
    split <;> exact hresolve

lemma runBlock {t : Translator τ β} (k : Lasting t J) (h : J m.recompiler) (e : Entry β) (deadline : UInt64) :
    J (m.runBlock P e deadline).recompiler := by
  rcases recompiler_runBlock P e deadline m with hr | hr <;> rw [hr]
  · exact h
  · exact k.refineIdle _ e.pc h

/-- A lasting property is an invariant of the machine. -/
theorem codeInvariant (k : Lasting P.translator J) : CodeInvariant P fun m => J m.recompiler where
  quiet m m' h hquiet := hquiet.recompiler ▸ h
  intercept m pc h := (recompiler_intercept m pc).symm ▸ h
  loadQueued m m' h hload := by
    obtain rfl | ⟨header, memory, hflush⟩ := loadQueued_eq_ok hload
    · exact h
    · refine k.flushCode ?_ hflush
      exact h
  findBlock m pc h := k.findBlock h pc
  run m pc m' e deadline h hfind := by
    have hfound := k.findBlock h pc
    rw [hfind] at hfound
    exact k.dropDirtyCode (k.runBlock hfound e deadline)
  flushCode m m' h hflush := k.flushCode h hflush
  invalidate m addr len h := k.invalidateImages h addr len
  resetStats m h := k.resetStats _ h

end Lasting

end Machine

end R3000
