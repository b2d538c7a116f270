import Mathlib
import R3000.Proofs.Counts
import R3000.Proofs.Chains.Carried
import R3000.Proofs.Events.Later
import R3000.Proofs.Machine.Progress

/-!
# A machine some cycles later

Without devices and hooks nothing that a machine does depends on the cycle at which it does it.  If one machine is
another one some cycles later, a pass of the dispatcher and a dispatch of the events leave it so: both find the
same blocks, run them with the same budget, and fire the same events.
-/

namespace R3000

namespace Machine

open Recompiler

variable {δ : Type} {c : UInt64} {age : Nat} {settings : Settings} {n m x : Machine TranslatorStats Block δ}
  {deadline deadline' now now' : UInt64}

/-- No devices and no hooks. -/
abbrev alone (δ : Type) : Parts TranslatorStats Block δ := .standard (.absent δ) (.none δ)

/-! ### Machines that differ by a distance -/

/-- What tells a machine from itself some cycles later: the cycles, with the raster and the events that go by them,
the state of devices that are not there, and what was counted. -/
structure Moment (δ : Type) where
  schedule : Schedule
  device : δ
  deadline : UInt64
  frames : Nat
  cycles : UInt64
  counts : Counts
  stats : DispatchStats

/-- The machine at another moment. -/
def moved (t : Moment δ) (m : Machine TranslatorStats Block δ) : Machine TranslatorStats Block δ :=
  { m with
    board := m.board.beside t.schedule t.device
    raster.deadline := t.deadline
    raster.frames := t.frames
    recompiler := m.recompiler.counted t.counts
    cycles := t.cycles
    stats := t.stats }

/-- The second machine is the first one a distance later: its counter and every deadline are larger by so many
cycles; the statistics, the number of frames, the generation of the code store and the devices that are not there may
differ. -/
structure Later (c : UInt64) (age : Nat) (n m : Machine TranslatorStats Block δ) : Prop where
  settings : m.settings = n.settings
  cpu : m.cpu = n.cpu
  memory : m.memory = n.memory
  interrupts : m.board.io.interrupts = n.board.io.interrupts
  events : n.events.Later c age m.events
  standard : m.raster.standard = n.raster.standard
  scanline : m.raster.scanline = n.raster.scanline
  deadline : Apart c n.raster.deadline m.raster.deadline
  code : n.recompiler.SameCode m.recompiler
  loader : m.loader = n.loader
  loaded : m.loaded = n.loaded
  cycles : Apart c n.cycles m.cycles
  watch : m.watch = n.watch
  frameDone : m.frameDone = n.frameDone

/-- The same result, with a machine that is the other one a distance later. -/
def Repeats {α : Type} (c : UInt64) (age : Nat) (r r' : α × Machine TranslatorStats Block δ) : Prop :=
  r'.1 = r.1 ∧ Later c age r.2 r'.2

lemma Repeats.exists_eq {α : Type} {r r' : α × Machine TranslatorStats Block δ} (h : Repeats c age r r') :
    ∃ a x x', r = (a, x) ∧ r' = (a, x') ∧ Later c age x x' :=
  ⟨r.1, r.2, r'.2, rfl, Prod.ext h.1 rfl, h.2⟩

namespace Later

/-- A machine some cycles later is the machine at another moment. -/
lemma exists_moved (h : Later c age n m) : ∃ t, m = n.moved t := by
  obtain ⟨hsettings, hcpu, hmemory, hinterrupts, -, hstandard, hscanline, -, ⟨k, hcode⟩, hloader, hloaded, -, hwatch,
    hframe⟩ := h
  obtain ⟨settings, cpu, ⟨memory, ⟨interrupts, schedule, device⟩⟩, ⟨standard, scanline, deadline, frames⟩, r, loader,
    loaded, cycles, watch, frame, stats⟩ := m
  dsimp only [Machine.memory] at *
  subst hsettings hcpu hmemory hinterrupts hstandard hscanline hcode hloader hloaded hwatch hframe
  exact ⟨⟨schedule, device, deadline, frames, cycles, k, stats⟩, rfl⟩

lemma stats (h : Later c age n m) (s s' : DispatchStats) : Later c age { n with stats := s } { m with stats := s' } :=
  { h with cpu := h.cpu }

lemma minCharge (h : Later c age n m) : m.minCharge = n.minCharge := by
  rw [Machine.minCharge, h.settings, Machine.minCharge]

lemma charge (h : Later c age n m) {k : UInt64} (hfits : (n.charge k).cycles.toNat + c.toNat < 2 ^ 64) :
    Later c age (n.charge k) (m.charge k) :=
  { h with cycles := h.cycles.add hfits }

/-! ### Interrupts -/

lemma syncInterrupts (h : Later c age n m) : Later c age (n.syncInterrupts (alone δ)) (m.syncInterrupts (alone δ)) := by
  obtain ⟨t, rfl⟩ := h.exists_moved
  have hbare : Bare (alone δ) := ⟨rfl, rfl⟩
  rw [Machine.syncInterrupts, Machine.syncInterrupts, pollLines_bare hbare, pollLines_bare hbare]
  dsimp only
  set y := { n with cpu := n.cpu.setInterruptLine n.board.io.interrupts.pending }
  -- whether an interrupt is taken depends on the processor and the board
  change Later c age _ (if n.board.io.interrupts.pending && y.cpu.interruptsEnabled then
    if y.handlerMissing then _ else _ else y.moved t)
  split
  · split
    · exact { h with cpu := rfl }
    · exact { h with cpu := rfl }
  · exact { h with cpu := rfl }

/-! ### Translated code -/

lemma flushCode (h : Later c age n m) :
    (∃ err, n.flushCode = .error err ∧ m.flushCode = .error err) ∨
      ∃ x x', n.flushCode = .ok x ∧ m.flushCode = .ok x' ∧ Later c age x x' := by
  obtain ⟨k, hcode⟩ := h.code
  obtain ⟨k', hflush⟩ := flush_counted k n.recompiler
  rw [Machine.flushCode, Machine.flushCode, hcode, hflush]
  cases n.recompiler.flush with
  | error err => exact .inl ⟨err, rfl, rfl⟩
  | ok r =>
    refine .inr ⟨_, _, rfl, rfl, ?_⟩
    exact { h with memory := congrArg Memory.clearCodeMarks h.memory, code := ⟨k', rfl⟩ }

lemma invalidate (h : Later c age n m) (addr len : UInt32) :
    Later c age (n.invalidate addr len).2 (m.invalidate addr len).2 := by
  have hframe : ∀ x : Machine TranslatorStats Block δ, (x.invalidate addr len).2 =
      { x with recompiler := (x.invalidate addr len).2.recompiler } := by
    intro x
    rw [Machine.invalidate]
    dsimp only
    split <;> rfl
  have hsame : ∀ start {r r' : Recompiler TranslatorStats Block}, r.SameCode r' →
      (r.invalidate start len).2.SameCode (r'.invalidate start len).2 := by
    rintro start r _ ⟨k, rfl⟩
    obtain ⟨k', hinvalidate⟩ := invalidate_counted k r start len
    exact ⟨k', congrArg Prod.snd hinvalidate⟩
  have hcode : (n.invalidate addr len).2.recompiler.SameCode (m.invalidate addr len).2.recompiler := by
    by_cases hram : physical addr < 0x00800000
    · rw [recompiler_invalidate_ram hram, recompiler_invalidate_ram hram]
      exact List.foldl_rel (r := SameCode) h.code fun image _ _ _ => hsame _
    · rw [recompiler_invalidate hram, recompiler_invalidate hram]
      exact hsame _ h.code
  rw [hframe n, hframe m]
  exact { h with code := hcode }

lemma dropDirtyCode (h : Later c age n m) : Later c age n.dropDirtyCode m.dropDirtyCode := by
  rw [dropDirtyCode_eq, dropDirtyCode_eq, h.memory]
  refine List.foldl_rel (r := Later c age) ?_ fun p _ x x' hx => ?_
  · exact { h with memory := rfl }
  · exact (hx.invalidate _ _).stats _ _

/-- The queued image does the same at any time. -/
lemma loadQueued (h : Later c age n m) :
    (∃ err, n.loadQueued = .error err ∧ m.loadQueued = .error err) ∨
      ∃ x x', n.loadQueued = .ok x ∧ m.loadQueued = .ok x' ∧ Later c age x x' := by
  dsimp only [Machine.loadQueued]
  rw [h.loader]
  cases n.loader with
  | none => exact .inr ⟨_, _, rfl, rfl, { h with loader := rfl, loaded := rfl }⟩
  | some image =>
    dsimp only [Machine.memory]
    rw [h.cpu, show m.board.memory = n.board.memory from h.memory]
    rcases Exe.install image n.cpu n.board.memory with ⟨err | started, cpu, memory⟩
    · exact .inr ⟨_, _, rfl, rfl, { h with cpu := rfl, memory := rfl, loader := rfl, loaded := rfl }⟩
    · apply flushCode
      exact { h with cpu := rfl, memory := rfl, loader := rfl, loaded := rfl }

/-- The same block is found at any time. -/
lemma findBlock (h : Later c age n m) (pc : UInt32) :
    Repeats c age (n.findBlock (alone δ) pc) (m.findBlock (alone δ) pc) := by
  obtain ⟨k, hcode⟩ := h.code
  rw [Machine.findBlock, Machine.findBlock, hcode, show (n.recompiler.counted k).cache.resident? pc =
    n.recompiler.cache.resident? pc from rfl]
  cases n.recompiler.cache.resident? pc with
  | some e => exact ⟨rfl, { h with code := ⟨k, rfl⟩ }⟩
  | none =>
    obtain ⟨k', hresolve⟩ : ∃ k', (n.recompiler.counted k).resolve (alone δ).translator n.memory.source pc =
        ((n.recompiler.resolve (alone δ).translator n.memory.source pc).1,
          (n.recompiler.resolve (alone δ).translator n.memory.source pc).2.counted k') :=
      resolve_counted k true Translator.functionVectors n.memory.source pc n.recompiler
    dsimp only
    rw [h.memory, hresolve]
    rcases n.recompiler.resolve (alone δ).translator n.memory.source pc with ⟨err | (e | e | err), r⟩
    · exact ⟨rfl, { h with code := ⟨k', rfl⟩ }⟩
    · exact ⟨rfl, { h with code := ⟨k', rfl⟩ }⟩
    · have hmarked := congrArg (Memory.markCode · e.pc e.sourceBytes) h.memory
      exact ⟨rfl, { h with code := ⟨k', rfl⟩, memory := hmarked }⟩
    · have hraised := congrArg (fun cpu : Cpu => { cpu with currentPc := pc }.enter .busInstruction) h.cpu
      exact ⟨rfl, { h with code := ⟨k', rfl⟩, cpu := hraised }⟩

/-! ### Running a block -/

lemma chargeSpent (h : Later c age n m) {budget left : Int32}
    (hfits : (n.chargeSpent budget left).cycles.toNat + c.toNat < 2 ^ 64) :
    Later c age (n.chargeSpent budget left) (m.chargeSpent budget left) := by
  rw [Machine.chargeSpent] at hfits ⊢
  rw [Machine.chargeSpent]
  dsimp only at hfits ⊢
  split at hfits
  · rename_i hspent
    rw [if_pos hspent, if_pos hspent]
    exact h.charge hfits
  · rename_i hspent
    rw [if_neg hspent, if_neg hspent, h.minCharge]
    exact (h.stats _ _).charge hfits

lemma resumeAborted (h : Later c age n m) (e : Entry Block) : Later c age (n.resumeAborted e) (m.resumeAborted e) := by
  obtain ⟨k, hcode⟩ := h.code
  rw [Machine.resumeAborted, Machine.resumeAborted, h.cpu]
  rcases n.cpu.takeAbort with ⟨_ | resume, cpu⟩
  · exact h
  · have hrefined : (if e.idle.isIdle then (n.recompiler.refineIdle e.pc .none).2 else n.recompiler).SameCode
        (if e.idle.isIdle then (m.recompiler.refineIdle e.pc .none).2 else m.recompiler) := by
      split
      · rw [hcode, refineIdle_counted]
        exact ⟨k, rfl⟩
      · exact h.code
    exact { h with cpu := rfl, code := hrefined }

/-- The same block runs with the same budget to the same end. -/
lemma runBlock (h : Later c age n m) (hdeadline : Apart c deadline deadline') (e : Entry Block)
    (hfits : (n.runBlock (alone δ) e deadline).cycles.toNat + c.toNat < 2 ^ 64) :
    Later c age (n.runBlock (alone δ) e deadline) (m.runBlock (alone δ) e deadline') := by
  obtain ⟨t, rfl⟩ := h.exists_moved
  have hbudget : (n.moved t).budget deadline' = n.budget deadline := by
    rw [budget, budget, h.cycles.sub_eq hdeadline]
  have hwords : (n.moved t).recompiler.store.words = n.recompiler.store.words := rfl
  have hchain : (n.moved t).chain (alone δ) e (n.budget deadline) n.settings.chainLimit =
      (n.chain (alone δ) e (n.budget deadline) n.settings.chainLimit).map (Board.beside t.schedule t.device) :=
    Board.run_beside t.schedule t.device hwords n.cycles t.cycles e.code (n.budget deadline) _ n.board
  have hevents : (n.chain (alone δ) e (n.budget deadline) n.settings.chainLimit).rest.io.schedule = n.events :=
    Board.schedule_run (.absent δ) n.cycles (Hardware.keeps_absent δ (· = n.events)) n.recompiler.store e.code
      (n.budget deadline) _ rfl
  have hsettings : (n.moved t).settings = n.settings := rfl
  rw [runBlock_eq_settle] at hfits
  rw [runBlock_eq_settle, runBlock_eq_settle, hbudget, hsettings, hchain]
  generalize n.chain (alone δ) e (n.budget deadline) n.settings.chainLimit = r at hevents hfits ⊢
  have hlater : Schedule.Later c age r.rest.io.schedule t.schedule := by
    rw [hevents]
    exact h.events
  refine chargeSpent (resumeAborted ?_ e) hfits
  exact { h with cpu := rfl, memory := rfl, interrupts := rfl, events := hlater }

lemma misaligned (h : Later c age n m) (pc : UInt32) (hfits : (n.misaligned pc).cycles.toNat + c.toNat < 2 ^ 64) :
    Later c age (n.misaligned pc) (m.misaligned pc) := by
  rw [Machine.misaligned] at hfits ⊢
  rw [Machine.misaligned, h.cpu]
  have hraised : Later c age
      { n with
        cpu := n.cpu.addressError pc .addressLoad
        stats.addressErrors := n.stats.addressErrors + 1 }
      { m with
        cpu := n.cpu.addressError pc .addressLoad
        stats.addressErrors := m.stats.addressErrors + 1 } := { h with cpu := rfl }
  rw [show m.minCharge = n.minCharge from h.minCharge]
  exact hraised.charge hfits

lemma fastForward (h : Later c age n m) (hdeadline : Apart c deadline deadline') (e : Entry Block) :
    Repeats c age (n.fastForward e deadline) (m.fastForward e deadline') := by
  have hthreshold : m.idleThreshold e = n.idleThreshold e := by rw [idleThreshold, idleThreshold, h.settings]
  rw [Machine.fastForward, Machine.fastForward, hthreshold, h.cpu, h.watch]
  dsimp only
  split
  · exact ⟨rfl, { h with cpu := rfl, watch := rfl }⟩
  · split
    · exact ⟨rfl, { h with cpu := rfl, watch := rfl }⟩
    · exact ⟨rfl, { h with cpu := rfl, watch := rfl, cycles := h.cycles.max hdeadline }⟩

/-! ### Passes -/

lemma runPass (h : Later c age n m) (hcapped : n.Capped settings) (hwired : n.recompiler.Wired)
    (hdeadline : Apart c deadline deadline') (hfits : deadline.toNat + settings.overrun + c.toNat ≤ 2 ^ 64)
    (hgo : n.cycles < deadline) (pc : UInt32) :
    Repeats c age (n.runPass (alone δ) deadline pc) (m.runPass (alone δ) deadline' pc) := by
  have hx := (codeInvariant_capped (.absent δ) (.none δ) settings).findBlock n pc hcapped
  have hx' := wired_findBlock (.absent δ) (.none δ) hwired pc
  have hcached := (capped_findBlock (.absent δ) (.none δ) hcapped pc).2
  have hstill := still_findBlock (alone δ) pc n
  obtain ⟨found, x, x', hfind, hfind', hlater⟩ := (h.findBlock pc).exists_eq
  rw [hfind] at hx hx' hcached hstill
  dsimp only at hx hx' hcached hstill
  rw [Machine.runPass, Machine.runPass, hfind, hfind']
  rw [← hstill.cycles] at hgo
  rcases found with err | _ | e
  · exact ⟨rfl, hlater⟩
  · dsimp only
    rw [hlater.minCharge]
    refine ⟨rfl, hlater.charge ?_⟩
    have hle := x.toNat_charge_le x.minCharge
    have hleast := toNat_minCharge_le hx settings.within_overrun
    have hgo' := UInt64.lt_iff_toNat_lt.mp hgo
    omega
  · have hran : (x.runBlock (alone δ) e deadline).cycles.toNat < deadline.toNat + settings.overrun :=
      toNat_cycles_runBlock_lt (.absent δ) (.none δ) hx hx' settings.within_overrun hgo (hcached e rfl)
    have hrun := (hlater.runBlock hdeadline e (by omega)).dropDirtyCode.syncInterrupts
    obtain ⟨skipped, y, y', hforward, hforward', hlater'⟩ := (hrun.fastForward hdeadline e).exists_eq
    dsimp only
    rw [hforward, hforward']
    cases skipped <;> exact ⟨rfl, hlater'⟩

lemma pass (h : Later c age n m) (hcapped : n.Capped settings) (hwired : n.recompiler.Wired)
    (hdeadline : Apart c deadline deadline') (hfits : deadline.toNat + settings.overrun + c.toNat ≤ 2 ^ 64)
    (hgo : n.cycles < deadline) :
    Repeats c age (n.pass (alone δ) deadline) (m.pass (alone δ) deadline') := by
  have hgo' := UInt64.lt_iff_toNat_lt.mp hgo
  rw [Machine.pass, Machine.pass, h.cpu, h.loaded, h.settings]
  split
  · rcases h.loadQueued with ⟨err, hload, hload'⟩ | ⟨x, x', hload, hload', hlater⟩ <;> rw [hload, hload']
    · exact ⟨rfl, h⟩
    · exact ⟨rfl, hlater⟩
  · rw [intercept_of_none rfl, intercept_of_none rfl]
    dsimp only
    split
    · exact h.runPass hcapped hwired hdeadline hfits hgo _
    · refine ⟨rfl, h.misaligned _ ?_⟩
      have hle := n.toNat_charge_le n.minCharge
      have hleast := toNat_minCharge_le hcapped settings.within_overrun
      change (n.charge n.minCharge).cycles.toNat + c.toNat < 2 ^ 64
      omega

lemma passes (h : Later c age n m) (hcapped : n.Capped settings) (hwired : n.recompiler.Wired)
    (hdeadline : Apart c deadline deadline') (hfits : deadline.toNat + settings.overrun + c.toNat ≤ 2 ^ 64)
    (fuel : Nat) : Repeats c age (n.passes (alone δ) deadline fuel) (m.passes (alone δ) deadline' fuel) := by
  induction fuel generalizing n m with
  | zero => exact ⟨rfl, h⟩
  | succ fuel ih =>
    rw [Machine.passes, Machine.passes]
    by_cases hgo : n.cycles < deadline
    · rw [if_pos hgo, if_pos ((h.cycles.lt_iff hdeadline).mpr hgo)]
      have hcapped' := (codeInvariant_capped (.absent δ) (.none δ) settings).invariant.pass n deadline hcapped
      have hwired' := (codeInvariant_wired (.absent δ) (.none δ)).invariant.pass n deadline hwired
      obtain ⟨ended, x, x', hpass, hpass', hlater⟩ := (h.pass hcapped hwired hdeadline hfits hgo).exists_eq
      rw [hpass] at hcapped' hwired'
      rw [hpass, hpass']
      cases ended with
      | again => exact ih hlater hcapped' hwired'
      | skipped => exact ⟨rfl, hlater⟩
      | failed err => exact ⟨rfl, hlater⟩
    · rw [if_neg hgo, if_neg (mt (h.cycles.lt_iff hdeadline).mp hgo)]
      exact ⟨rfl, h⟩

/-- The loop of a step does the same up to a deadline as much later. -/
theorem execute (h : Later c age n m) (hcapped : n.Capped settings) (hwired : n.recompiler.Wired)
    (hdeadline : Apart c deadline deadline') (hfits : deadline.toNat + settings.overrun + c.toNat ≤ 2 ^ 64) :
    Repeats c age (n.execute (alone δ) deadline) (m.execute (alone δ) deadline') := by
  have hfuel : deadline'.toNat - m.cycles.toNat = deadline.toNat - n.cycles.toNat := by
    rw [hdeadline, h.cycles]
    omega
  rw [Machine.execute, Machine.execute, hfuel]
  exact h.passes hcapped hwired hdeadline hfits _

end Later

end Machine

end R3000
