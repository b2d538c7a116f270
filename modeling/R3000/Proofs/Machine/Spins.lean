import Mathlib
import R3000.Proofs.Exceptions
import R3000.Proofs.Machine.History

/-!
# Waiting loops that are skipped

The dispatcher skips the rest of a slice after it has counted enough dispatches of a waiting block in a row, each of
which came back to the start of the block.  The blocks that a dispatch chains to are not looked at: if the condition
of the loop fails, and the exit past the loop is linked, the chain goes on there and may come back.  Neither is how
control came back: an exception or an interrupt whose vector is the waiting block looks like another round.
-/

namespace R3000

/-! ### The exits of a waiting block -/

/-- A waiting block ends in a jump or a branch to its own start, which links nothing. -/
lemma Plan.ending_of_idle {p : Plan} (h : p.idle ≠ .none) : ∃ slot,
    p.ending = some ⟨.jump p.start false, slot⟩ ∨
      ∃ cond rs rt, p.ending = some ⟨.branch cond rs rt p.start false, slot⟩ := by
  rw [idle] at h
  split at h
  · exact absurd rfl h
  · rename_i e hending
    obtain ⟨transfer, slot⟩ := e
    split at h
    · exact absurd rfl h
    · refine ⟨slot, ?_⟩
      cases transfer with
      | jump target link | branch cond rs rt target link =>
        cases link with
        | true => exact absurd rfl h
        | false =>
          by_cases htarget : target = p.start
          · subst htarget
            simp [hending]
          · simp [idleTransfer, htarget] at h
      | jumpReg rs link => exact absurd rfl h

/-! ### The exception vector -/

namespace Cpu

lemma pc_enter (c : Cpu) (e : Exception) : (c.enter e).pc = c.vector := by
  dsimp only [enter]
  split <;> rfl

lemma vector_setInterruptLine (c : Cpu) (raised : Bool) : (c.setInterruptLine raised).vector = c.vector := by
  have hstatus : (c.setInterruptLine raised).readCop0 status = c.readCop0 status :=
    (readCop0_set ..).trans (if_neg (by decide))
  rw [vector, vector, hstatus]

end Cpu

namespace Dispatch

open Machine

variable {δ : Type} {hw : Hardware δ} {hooks : Hooks δ} {d : Dispatch δ} {pc : UInt32} {n : Nat}
  {v : Visit (Board δ)}

/-- The blocks that a dispatch visits, with the number of hops before each. -/
def Visits (hw : Hardware δ) (d : Dispatch δ) : Nat → Visit (Board δ) → Prop :=
  d.machine.Visits hw d.entry d.deadline

/-- What the chain of a dispatch returns. -/
def returned (hw : Hardware δ) (d : Dispatch δ) : Returned (Board δ) :=
  (d.machine.visit d.entry d.deadline).returned (Board.serve hw d.machine.cycles) d.machine.recompiler.store

/-- After some rounds of a waiting block the condition of its branch fails, and the chain goes on to the cached block
past the loop. -/
structure Strays (hw : Hardware δ) (d : Dispatch δ) : Prop where
  exit : ∃ n v w, d.Visits hw n v ∧ d.Visits hw (n + 1) w ∧
    (∀ k ≤ n, ∀ u, d.Visits hw k u → u.code = d.entry.code) ∧
      (∃ cond rs rt slot left c b,
        d.entry.code.plan.ending = some ⟨.branch cond rs rt d.entry.pc false, slot⟩ ∧
          Block.steps (Board.serve hw d.machine.cycles) v.code.plan.start v.code.plan.body v.left v.cpu v.rest =
              .running left c b ∧ cond.holds (c.reg rs) (c.reg rt) = false) ∧
        ∃ e, d.machine.recompiler.cache.get? d.entry.code.plan.fallthrough = some e ∧ e.code = w.code

/-- How control came back to an address after a dispatch. -/
inductive Returns (hw : Hardware δ) (hooks : Hooks δ) (d : Dispatch δ) (pc : UInt32) : Prop
  /-- The last block went there, and there was no exception. -/
  | left : (d.returned hw).cpu.blockAborted = 0 → (d.returned hw).cpu.pc = pc →
    Returns hw hooks d pc
  /-- The chain raised an exception, whose vector it is. -/
  | raised : (d.returned hw).cpu.blockAborted ≠ 0 → (d.returned hw).cpu.abortPc = pc →
    Returns hw hooks d pc
  /-- An interrupt was taken after the chain, whose vector it is. -/
  | interrupted : (d.looked (.standard hw hooks)).stats.interrupts =
      (d.ran (.standard hw hooks)).stats.interrupts + 1 →
    (d.ran (.standard hw hooks)).cpu.vector = pc → Returns hw hooks d pc

/-- A dispatch that the dispatcher takes for a round of the waiting block at an address. -/
structure Waits (hw : Hardware δ) (hooks : Hooks δ) (pc : UInt32) (d : Dispatch δ) : Prop where
  /-- It started at the block. -/
  address : d.entry.pc = pc
  cached : d.machine.recompiler.cache.get? pc = some d.entry
  idle : d.entry.idle = d.entry.code.plan.idle ∧ d.entry.idle ≠ .none
  /-- It ran no other block, unless it strayed. -/
  blocks : (∀ n v, d.Visits hw n v → v.code = d.entry.code) ∨ d.Strays hw
  returns : d.Returns hw hooks pc

/-! ### The blocks of a dispatch -/

/-- A dispatch of a waiting block runs no other block, unless it strays. -/
lemma blocks_of_idle (hready : d.machine.Ready pc d.entry) (hidle : d.entry.code.plan.idle ≠ .none) :
    (∀ n v, d.Visits hw n v → v.code = d.entry.code) ∨ d.Strays hw := by
  have hfirst : ∃ a e, d.machine.recompiler.cache.get? a = some e ∧
      e.code = (d.machine.visit d.entry d.deadline).code := ⟨pc, d.entry, hready.cached, rfl⟩
  by_cases hother : ∃ n v, d.Visits hw n v ∧ v.code ≠ d.entry.code
  · right
    classical
    -- the first visit of another block comes by a hop from the waiting block
    obtain ⟨w, hw', hne⟩ := Nat.find_spec hother
    have hrounds : ∀ k < Nat.find hother, ∀ u, d.Visits hw k u → u.code = d.entry.code := by
      intro k hk u hu
      by_contra hcode
      exact Nat.find_min hother hk ⟨u, hu, hcode⟩
    generalize Nat.find hother = n at hw' hrounds
    cases hw' with
    | first => exact absurd rfl hne
    | @hop n v code site left hv hhop hword =>
      have hcode := hrounds n (Nat.lt_succ_self n) v hv
      obtain ⟨x, e', -, -, he', rfl⟩ := Chain.cached_of_hop hready.wired.sound hready.cached hcode.symm hhop hword
      obtain ⟨-, left', c, b, hsteps, hgoes⟩ := v.exists_exit_of_hop hhop
      have hstart := hready.planned.start
      -- a hop back to the start would lead to the waiting block
      have hpc : (v.departed (Board.serve hw d.machine.cycles)).cpu.pc ≠ pc := by
        intro hpc
        rw [hpc, hready.cached] at he'
        exact hne (congrArg Entry.code (Option.some.inj he').symm)
      rw [hcode] at hgoes
      obtain ⟨slot, hjump | ⟨cond, rs, rt, hbranch⟩⟩ := Plan.ending_of_idle hidle
      · simp only [hjump, Ending.GoesTo] at hgoes
        exact absurd (hgoes.trans hstart) hpc
      · simp only [hbranch, Ending.GoesTo] at hgoes
        cases hholds : cond.holds (c.reg rs) (c.reg rt) with
        | true =>
          rw [hholds, if_pos rfl] at hgoes
          exact absurd (hgoes.trans hstart) hpc
        | false =>
          rw [hholds, if_neg (by decide)] at hgoes
          rw [hstart, ← hready.planned.address] at hbranch
          refine ⟨n, v, _, hv, hv.hop hhop hword, fun k hk => hrounds k (Nat.lt_succ_of_le hk),
            ⟨cond, rs, rt, slot, left', c, b, hbranch, hsteps, hholds⟩, e', ?_, rfl⟩
          rw [← hgoes]
          exact he'
  · push Not at hother
    exact .inl hother

end Dispatch

namespace Machine

variable {δ : Type} {hw : Hardware δ} {hooks : Hooks δ} {m m₀ h x : Machine TranslatorStats Block δ}
  {ds : List (Dispatch δ)} {d : Dispatch δ} {e : Entry Block} {deadline : UInt64} {pc : UInt32}

/-! ### How control comes back -/

section

variable {τ β : Type} {P : Parts τ β δ} {m : Machine τ β δ}

/-- Control stays where it is, or an interrupt is taken. -/
lemma pc_syncInterrupts (P : Parts τ β δ) (m : Machine τ β δ) :
    (m.syncInterrupts P).cpu.pc = m.cpu.pc ∨
      (m.syncInterrupts P).stats.interrupts = m.stats.interrupts + 1 ∧
        (m.syncInterrupts P).cpu.pc = m.cpu.vector := by
  rw [syncInterrupts]
  dsimp only
  split
  · split
    · exact .inl rfl
    · refine .inr ⟨rfl, ?_⟩
      rw [Cpu.pc_enter]
      exact m.cpu.vector_setInterruptLine _
  · exact .inl rfl

lemma interrupts_dropDirtyCode (m : Machine τ β δ) : m.dropDirtyCode.stats.interrupts = m.stats.interrupts := by
  rw [dropDirtyCode_eq]
  let I (x : Machine τ β δ) : Prop := x.stats.interrupts = m.stats.interrupts
  refine List.foldlRecOn (motive := I) m.memory.dirty.toList _ rfl fun x hx p _ => ?_
  refine Eq.trans ?_ hx
  change (x.invalidate _ _).2.stats.interrupts = _
  rw [invalidate]
  dsimp only
  split <;> rfl

/-- A dispatch goes on where its chain left to, or at the vector of the exception that it raised. -/
lemma pc_settle (e : Entry β) (budget : Int32) (m : Machine τ β δ) (r : Returned (Board δ)) :
    (m.settle e budget r).cpu.pc = if r.cpu.blockAborted = 0 then r.cpu.pc else r.cpu.abortPc := by
  dsimp only [settle, chargeSpent, resumeAborted, Cpu.takeAbort]
  by_cases habort : r.cpu.blockAborted = 0
  · rw [if_pos habort, if_pos habort]
    dsimp only
    split <;> rfl
  · rw [if_neg habort, if_neg habort]
    dsimp only
    split <;> rfl

end

/-- A dispatch that ends at an address left to it, or raised an exception or was interrupted there. -/
lemma returns_of_pc (hpc : (d.looked (.standard hw hooks)).cpu.pc = pc) : d.Returns hw hooks pc := by
  have hran : (d.ran (.standard hw hooks)).cpu.pc =
      if (d.returned hw).cpu.blockAborted = 0 then (d.returned hw).cpu.pc else (d.returned hw).cpu.abortPc :=
    pc_settle d.entry (d.machine.budget d.deadline) d.machine (d.returned hw)
  rcases pc_syncInterrupts (.standard hw hooks) (d.ran (.standard hw hooks)).dropDirtyCode with
    hstays | ⟨htaken, hvector⟩
  · replace hstays : (d.looked (.standard hw hooks)).cpu.pc = _ := hstays
    rw [hpc, cpu_dropDirtyCode, hran] at hstays
    split at hstays
    · rename_i habort
      exact .left habort hstays.symm
    · rename_i habort
      exact .raised habort hstays.symm
  · replace hvector : (d.looked (.standard hw hooks)).cpu.pc = _ := hvector
    rw [interrupts_dropDirtyCode] at htaken
    rw [hpc, cpu_dropDirtyCode] at hvector
    exact .interrupted htaken hvector.symm

/-! ### Counting rounds -/

lemma idle_of_threshold (h : m.idleThreshold e ≠ 0xFFFFFFFF) : e.idle ≠ .none := by
  intro hnone
  rw [idleThreshold, hnone] at h
  exact h rfl

/-- A dispatch that is counted is a round of its block. -/
lemma waits_of_counted (hready : d.machine.Ready pc d.entry)
    (hthreshold : (d.looked (.standard hw hooks)).idleThreshold d.entry ≠ 0xFFFFFFFF)
    (hpc : (d.looked (.standard hw hooks)).cpu.pc = d.entry.pc) : d.Waits hw hooks d.entry.pc := by
  have haddress := hready.planned.address
  have hidle := idle_of_threshold hthreshold
  have hplan : d.entry.idle = d.entry.code.plan.idle := hready.planned.idle.resolve_right hidle
  exact {
    address := rfl
    cached := haddress ▸ hready.cached
    idle := ⟨hplan, hidle⟩
    blocks := Dispatch.blocks_of_idle hready (hplan ▸ hidle)
    returns := returns_of_pc hpc }

/-- The dispatches that the watch has counted are the latest ones, each a round of its block. -/
structure Tallied (hw : Hardware δ) (hooks : Hooks δ) (ds : List (Dispatch δ)) (w : IdleWatch) : Prop where
  length : w.passes ≤ ds.length
  rounds : ∀ d ∈ ds.take w.passes, d.Waits hw hooks w.pc

lemma tallied_reset (hw : Hardware δ) (hooks : Hooks δ) (ds : List (Dispatch δ)) : Tallied hw hooks ds {} where
  length := Nat.zero_le _
  rounds d hd := by simp at hd

lemma Tallied.next {w : IdleWatch} (h : Tallied hw hooks ds w) (hd : d.Waits hw hooks pc) :
    Tallied hw hooks (d :: ds) (w.next pc) := by
  rw [IdleWatch.next]
  split
  · rename_i hsame
    refine ⟨Nat.succ_le_succ h.length, fun d' hd' => ?_⟩
    rw [List.take_succ_cons] at hd'
    rcases List.mem_cons.mp hd' with rfl | hd'
    · exact hsame.1 ▸ hd
    · exact h.rounds d' hd'
  · refine ⟨Nat.succ_le_succ (Nat.zero_le _), fun d' hd' => ?_⟩
    obtain rfl : d' = d := by simpa using hd'
    exact hd

/-- After a dispatch the watch is reset, or counts it. -/
lemma watch_fastForward (e : Entry Block) (deadline : UInt64) (m : Machine TranslatorStats Block δ) :
    (m.fastForward e deadline).2.watch = {} ∨
      m.idleThreshold e ≠ 0xFFFFFFFF ∧ m.cpu.pc = e.pc ∧
        (m.fastForward e deadline).2.watch = m.watch.next e.pc := by
  rw [fastForward]
  dsimp only
  split
  · exact .inl rfl
  · rename_i hcount
    rw [not_or, not_not] at hcount
    split
    · exact .inr ⟨hcount.1, hcount.2, rfl⟩
    · exact .inl rfl

/-- A skip comes once enough dispatches were counted, the last one included. -/
lemma counted_of_skip (hskip : (m.fastForward e deadline).1 = true) :
    m.idleThreshold e ≠ 0xFFFFFFFF ∧ m.cpu.pc = e.pc ∧ (m.idleThreshold e).toNat ≤ (m.watch.next e.pc).passes := by
  rw [fastForward] at hskip
  dsimp only at hskip
  split at hskip
  · simp at hskip
  · rename_i hcount
    rw [not_or, not_not] at hcount
    split at hskip
    · simp at hskip
    · rename_i henough
      exact ⟨hcount.1, hcount.2, not_lt.mp henough⟩

lemma Starts.watch {P : Parts TranslatorStats Block δ} (hs : h.Starts P deadline e x) : x.watch = h.watch := by
  obtain ⟨y, hintercept, hfind⟩ := hs.found
  have hy := watch_intercept P h.cpu.pc h
  have hx := watch_findBlock P h.cpu.pc y
  rw [hintercept] at hy
  rw [hfind] at hx
  exact hx.trans hy

/-- All along a history the watch counts rounds. -/
lemma tallied_of_history (hwired : m₀.recompiler.Wired) (hstocked : m₀.recompiler.Stocked) (hwatch : m₀.watch = {})
    (hm : History (.standard hw hooks) m₀ ds m) : Tallied hw hooks ds m.watch := by
  induction hm with
  | start => exact hwatch ▸ tallied_reset hw hooks []
  | @dispatch ds m x deadline e hm hs ih =>
    have hready := hs.ready (hm.invariant (codeInvariant_wired hw hooks).invariant hwired)
      (hm.invariant (codeInvariant_stocked hw hooks).invariant hstocked)
    let d : Dispatch δ := ⟨e, deadline, x⟩
    have hlooked : (d.looked (.standard hw hooks)).watch = m.watch := (watch_looked _ d).trans hs.watch
    rw [hs.pass_eq]
    rcases watch_fastForward e deadline (d.looked (.standard hw hooks)) with hreset | ⟨hthreshold, hpc, hnext⟩
    · exact hreset ▸ tallied_reset hw hooks _
    · have hwaits : d.Waits hw hooks e.pc := waits_of_counted hready hthreshold hpc
      rw [hlooked] at hnext
      exact hnext ▸ ih.next hwaits
  | pass _ hgo hnot ih => exact (watch_pass hgo hnot).symm ▸ ih
  | events _ ih => exact (watch_dispatchEvents _ _).symm ▸ ih
  | newFrame _ ih => exact ih
  | @reset ds m m' _ heq ih =>
    obtain ⟨flushed, -, rfl⟩ := reset_eq_ok heq
    exact tallied_reset hw hooks ds
  | flushCode _ heq ih => exact (watch_flushCode heq).symm ▸ ih
  | invalidate addr len _ ih => exact (watch_invalidate _ addr len).symm ▸ ih
  | queue _ _ ih => exact ih
  | resetStats _ ih => exact ih

/-- When the dispatcher skips, it has counted at least as many dispatches in a row as the threshold of the waiting
block asks for, the one just done included.  Each started at this block and came back to its start.  It ran no other
block, unless the condition of the loop failed and the exit past the loop was linked; and control came back by the
last block, unless the block starts at the vector of an exception or of an interrupt. -/
theorem skip_waits {settings : Settings} {bios : ByteArray} {device : δ}
    (hstart : ofTranslator (.standard hw hooks) settings bios device {} = .ok m₀)
    (hm : AtHead (.standard hw hooks) m₀ h) (hs : h.Starts (.standard hw hooks) deadline e x)
    (hskip : ((Dispatch.looked (.standard hw hooks) ⟨e, deadline, x⟩).fastForward e deadline).1 = true) :
    (∃ ds, History (.standard hw hooks) m₀ ds h) ∧
      ∀ ds, History (.standard hw hooks) m₀ ds h →
        let counted := (h.watch.next e.pc).passes
        ((Dispatch.looked (.standard hw hooks) ⟨e, deadline, x⟩).idleThreshold e).toNat ≤ counted ∧
          counted ≤ ds.length + 1 ∧ ∀ d ∈ (⟨e, deadline, x⟩ :: ds).take counted, d.Waits hw hooks e.pc := by
  refine ⟨History.exists_atHead hm, fun ds hds => ?_⟩
  have hready := hs.ready_of_atHead hstart hm
  let d : Dispatch δ := ⟨e, deadline, x⟩
  have hlooked : (d.looked (.standard hw hooks)).watch = h.watch := (watch_looked _ d).trans hs.watch
  obtain ⟨hthreshold, hpc, henough⟩ := counted_of_skip hskip
  replace henough : ((d.looked (.standard hw hooks)).idleThreshold e).toNat ≤
      ((d.looked (.standard hw hooks)).watch.next e.pc).passes := henough
  rw [hlooked] at henough
  have hwatch : m₀.watch = {} := by
    obtain ⟨r, -, rfl⟩ := ofTranslator_eq_ok hstart
    rfl
  have hwaits : d.Waits hw hooks e.pc := waits_of_counted hready hthreshold hpc
  have hcounted := (tallied_of_history (wired_ofTranslator hstart) (stocked_ofTranslator hstart) hwatch hds).next
    hwaits
  have hpcs : (h.watch.next e.pc).pc = e.pc := by
    rw [IdleWatch.next]
    split
    · rename_i hsame
      exact hsame.1
    · rfl
  have hrounds := hcounted.rounds
  rw [hpcs] at hrounds
  exact ⟨henough, hcounted.length, hrounds⟩

/-- The second round of the loop of `poll_run` is skipped, and both rounds were rounds of the loop. -/
theorem skip_waits_poll :
    let P := Parts.standard soonDevice (.none Unit)
    ∃ m₀ ds h e x, ofTranslator P pollSettings pollRom () {} = .ok m₀ ∧ AtHead P m₀ h ∧ h.Starts P 68864 e x ∧
      ((Dispatch.looked P ⟨e, 68864, x⟩).fastForward e 68864).1 = true ∧ History P m₀ ds h ∧
        ∀ d ∈ (⟨e, 68864, x⟩ :: ds).take (h.watch.next e.pc).passes, d.Waits soonDevice (.none Unit) e.pc := by
  intro P
  obtain ⟨m₀, h, e, x, hstart, hdeadline, -, hhead, hs, -, -, -, -, hskip, -⟩ := poll_run
  have hm : AtHead P m₀ h := by
    rw [← hdeadline] at hhead
    exact ⟨m₀, Schedule.never, .start, hhead⟩
  obtain ⟨⟨ds, hds⟩, hall⟩ := skip_waits hstart hm hs hskip
  exact ⟨m₀, ds, h, e, x, hstart, hm, hs, hskip, hds, (hall ds hds).2.2⟩

end Machine

end R3000
