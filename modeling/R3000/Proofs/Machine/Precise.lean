import Mathlib
import R3000.Proofs.Chains.Points
import R3000.Proofs.Faults
import R3000.Proofs.Machine.Overrun

/-!
# Precise exceptions

An instruction that raises an exception anywhere in a chain of blocks is the last one of the dispatch.  The
instructions before it have had all of their effects, it has had none itself, and the machine goes on at the
exception vector.
-/

namespace R3000.Machine

variable {δ : Type} {hw : Hardware δ} {hooks : Hooks δ} {m m₀ : Machine TranslatorStats Block δ}
  {e : Entry Block} {deadline : UInt64} {p : Point (Board δ)}

/-- The instructions that a dispatch comes to, in any block of its chain. -/
def Comes (hw : Hardware δ) (e : Entry Block) (deadline : UInt64) (m : Machine TranslatorStats Block δ) :
    Point (Board δ) → Prop :=
  Chain.Comes (Board.serve hw m.cycles) m.recompiler.store e.code (m.budget deadline)
    (m.armed (m.budget deadline)) m.board

/-- A machine after a dispatch that an exception ended: registers, memory and devices are those at the instruction
that raised it, save for what notes the exception. -/
structure Precise (m : Machine TranslatorStats Block δ) (p : Point (Board δ)) (f : Fault)
    (m' : Machine TranslatorStats Block δ) : Prop where
  raised : Cpu.Raised { p.cpu with currentPc := p.pc } f m'.cpu
  board : m'.board = p.rest
  pc : m'.cpu.pc = p.cpu.vector
  inBlock : m'.cpu.inBlock = 0
  blockAborted : m'.cpu.blockAborted = 0
  cycles : m'.cycles = m.cycles + p.charged.toUInt64

lemma chargeSpent_of_pos {budget left : Int32} {spent : Nat} (hspent : budget.toInt - left.toInt = spent)
    (hpos : 0 < spent) (m : Machine TranslatorStats Block δ) :
    m.chargeSpent budget left = m.charge spent.toUInt64 := by
  rw [chargeSpent, hspent]
  exact if_pos (Int.natCast_pos.mpr hpos)

/-- A dispatch whose chain raised an exception goes on at the vector. -/
lemma precise_settle {f : Fault} {budget left : Int32} {c : Cpu}
    (hc : Cpu.Aborts { p.cpu with currentPc := p.pc } f c) (hleft : left.toInt = budget.toInt - p.charged) :
    m.Precise p f (m.settle e budget ⟨left, { c with cyclesLeft := left }, p.rest⟩) := by
  have hpos : 0 < p.charged := Nat.add_pos_right p.spent p.instr.cost_pos
  have hspent : budget.toInt - left.toInt = p.charged := by omega
  rw [settle, chargeSpent_of_pos hspent hpos, resumeAborted, Cpu.takeAbort, if_neg hc.blockAborted]
  constructor
  · obtain ⟨hgpr, hhi, hlo, hdata, hcontrol, hpc, hcode, hbad, hstatus, hothers⟩ := hc.toRaised
    exact ⟨hgpr, hhi, hlo, hdata, hcontrol, hpc, hcode, hbad, hstatus, hothers⟩
  · rfl
  · exact hc.abortPc
  · rfl
  · rfl
  · rfl

section Dispatch

variable (hwired : m.recompiler.Wired) {pc : UInt32} (he : m.recompiler.cache.get? pc = some e)
  (hp : m.Comes (.absent δ) e deadline p)

include hp

lemma inBlock_of_comes : p.cpu.inBlock ≠ 0 := by
  have hin := Chain.inBlock_of_comes (Board.steady_serve (modest_absent δ) m.cycles) hp
  rw [hin]
  exact (by decide : (1 : UInt32) ≠ 0)

include hwired he

lemma precise_runBlock {f : Fault} (hf : p.instr.fault p.cpu = some f) :
    m.Precise p f (m.runBlock (.standard (.absent δ) hooks) e deadline) := by
  obtain ⟨hstop, haborts, hrest⟩ :=
    (p.instr.exec_obeys m.cycles p.pc p.cpu p.rest).raises f hf (inBlock_of_comes hp)
  have hbudget : 0 ≤ (m.budget deadline).toInt := by
    rw [toInt_budget]
    exact Int.natCast_nonneg _
  obtain ⟨hrun, hleft⟩ := Chain.run_of_comes hwired.sound he hbudget hp hstop
  have hchain : m.chain (.standard (.absent δ) hooks) e (m.budget deadline) m.settings.chainLimit = _ := hrun
  have hprecise := precise_settle (m := m) (e := e) haborts hleft
  rw [runBlock_eq_settle, hchain, Point.stopped, Point.exec, hrest]
  exact hprecise

/-- Without an exception left over from before, only a fault stops the chain. -/
lemma stop_iff_fault (habort : m.cpu.blockAborted = 0) :
    (p.exec (Board.serve (.absent δ) m.cycles)).stop = true ↔ (p.instr.fault p.cpu).isSome := by
  have hobeys := p.instr.exec_obeys m.cycles p.pc p.cpu p.rest
  have hin : (m.armed (m.budget deadline)).inBlock ≠ 0 := (by decide : (1 : UInt32) ≠ 0)
  have harmed : (m.armed (m.budget deadline)).blockAborted = 0 := habort
  have hquiet := Chain.blockAborted_of_comes (Board.steady_serve (modest_absent δ) m.cycles) hwired.sound
    ⟨pc, e, he, rfl⟩ hin harmed hp
  rw [Point.exec]
  cases hf : p.instr.fault p.cpu with
  | none =>
    have hgo := hobeys.quiet hf hquiet
    simpa using hgo
  | some f =>
    have hstop := (hobeys.raises f hf (inBlock_of_comes hp)).1
    simpa using hstop

end Dispatch

/-- Of every cached block, whatever the registers, memory and devices hold: if its chain comes to an instruction
that raises an exception, the dispatch ends there precisely; and an instruction stops the chain only so. -/
theorem runBlock_precise {settings : Settings} {bios : ByteArray} {device : δ}
    (hstart : ofTranslator (.standard (.absent δ) hooks) settings bios device {} = .ok m₀)
    (hm : BeforeRun (.standard (.absent δ) hooks) m₀ m) {pc : UInt32}
    (he : m.recompiler.cache.get? pc = some e) (c : Cpu) (b : Board δ)
    (hp : { m with cpu := c, board := b }.Comes (.absent δ) e deadline p) :
    (∀ f, p.instr.fault p.cpu = some f → { m with cpu := c, board := b }.Precise p f
        ({ m with cpu := c, board := b }.runBlock (.standard (.absent δ) hooks) e deadline)) ∧
      (c.blockAborted = 0 →
        ((p.exec (Board.serve (.absent δ) m.cycles)).stop = true ↔ (p.instr.fault p.cpu).isSome)) := by
  let m' : Machine TranslatorStats Block δ := { m with cpu := c, board := b }
  have hwired : m'.recompiler.Wired := wired_beforeRun (m := m) (wired_ofTranslator hstart) hm
  have he' : m'.recompiler.cache.get? pc = some e := he
  exact ⟨fun f => precise_runBlock hwired he' hp, stop_iff_fault hwired he' hp⟩

/-! ### A fault after a hop -/

/-- Where a departure through a link word goes on: the block behind it, and the cycles left. -/
def hopsTo (store : CodeStore Block) {σ : Type} (d : Departed σ) : Option (Block × Int32) :=
  match d.departure with
  | .leave _ => none
  | .hop site left =>
    match store.word? site with
    | some (.block code) => some (code, left)
    | _ => none

lemma exists_hop_of_hopsTo {store : CodeStore Block} {σ : Type} {d : Departed σ} {code : Block} {left : Int32}
    (h : hopsTo store d = some (code, left)) :
    ∃ site, d.departure = .hop site left ∧ store.word? site = some (.block code) := by
  rw [hopsTo] at h
  split at h
  · cases h
  · rename_i site _ hdeparture
    split at h
    · rename_i _ hword
      cases h
      exact ⟨site, hdeparture, hword⟩
    · cases h

/-- A boot ROM whose first block writes a register that code keeps and jumps to a second one, a call with a load in its
delay slot that is off its alignment. -/
def slotRom : ByteArray :=
  ⟨#[0x05, 0, 0x1D, 0x24, 0x03, 0, 0xF0, 0x0B, 0, 0, 0, 0, 0, 0, 0xF0, 0x0F, 0x01, 0, 0xA8, 0x8F]⟩

/-- The load is come to through a link word, with what the first block wrote and with the link register of the call.  It
ends the dispatch there, at the cycles of both blocks so far. -/
theorem runBlock_precise_slot :
    let P := Parts.standard (.absent Unit) (.none Unit)
    ∃ m₀ m e p, ofTranslator P smallSettings slotRom () {} = .ok m₀ ∧ BeforeRun P m₀ m ∧
      m.recompiler.cache.get? resetVector = some e ∧ m.Comes (.absent Unit) e 100 p ∧
        p.pc = resetVector + 16 ∧ p.charged = 6 ∧ p.cpu.reg 29 = 5 ∧ p.cpu.reg 31 = resetVector + 20 ∧
          p.instr.fault p.cpu = some ⟨.addressLoad, some 6⟩ ∧
            m.Precise p ⟨.addressLoad, some 6⟩ (m.runBlock P e 100) := by
  intro P
  let m₀ := assemble P smallSettings slotRom () (.bare {} smallSettings.limits)
  have hstart : ofTranslator P smallSettings slotRom () {} = .ok m₀ := ofTranslator_eq_bare (by decide) _ _ _
  let slot : Instr := .load .word 8 29 1
  let first (m : Machine TranslatorStats Block Unit) (e : Entry Block) : Departed (Board Unit) :=
    Block.enter (Board.serve (.absent Unit) m.cycles) e.code (m.budget 100) (m.armed (m.budget 100)) m.board
  -- the first dispatch runs the first block alone, and the second block is translated and linked
  have hrun : (m₀.headAfter P (m₀.stepDeadline 100) 1).any (fun h =>
      let m := (h.findBlock P (resetVector + 12)).2
      (m.recompiler.cache.get? resetVector).any fun e =>
        (hopsTo m.recompiler.store (first m e)).any fun x =>
          x.1.plan.body = [] ∧ x.1.plan.ending = some ⟨.jump resetVector true, some slot⟩ ∧
            x.1.plan.endingPc = resetVector + 12 ∧ e.code.plan.cost = 3 ∧ (first m e).cpu.reg 29 = 5) = true := by
    decide +kernel
  obtain ⟨h, hpasses, hfound⟩ := exists_passes hrun
  obtain ⟨e, he, hhop⟩ := (Option.any_eq_true ..).mp hfound
  obtain ⟨⟨code, left⟩, hnext, hcode⟩ := (Option.any_eq_true ..).mp hhop
  obtain ⟨hbody, hending, hpc, hcost, hreg⟩ := of_decide_eq_true hcode
  obtain ⟨site, hdeparture, hword⟩ := exists_hop_of_hopsTo hnext
  let m := (h.findBlock P (resetVector + 12)).2
  have hm : BeforeRun P m₀ m := .findBlock _ (.head ⟨m₀, 100, .start, hpasses⟩)
  have hp : m.Comes (.absent Unit) e 100 _ := .next hdeparture hword (.here (.slot hending rfl (by rw [hbody]; rfl)))
  let c := (Transfer.jump resetVector true).linked code.plan.endingPc (first m e).cpu
  have hkept : c.reg 29 = 5 := by
    rw [← hreg]
    exact RegFile.get_put ..
  have hlink : c.reg 31 = resetVector + 20 := by
    have hset : c.reg 31 = Block.returnAddress code.plan.endingPc := RegFile.get_put ..
    rw [hset, hpc]
    decide
  have hfault : slot.fault c = some ⟨.addressLoad, some 6⟩ := by
    change Fault.ofAddress .addressLoad (c.reg 29 + 1) .word = _
    rw [hkept]
    decide
  refine ⟨m₀, m, e, _, hstart, hm, he, hp, ?pc, ?charged, hkept, hlink, hfault,
    (runBlock_precise hstart hm he _ _ hp).1 _ hfault⟩
  case pc => exact (congrArg (· + 4) hpc).trans (by decide)
  case charged =>
    change e.code.plan.cost + (Instr.costs code.plan.body + 1) + 2 = 6
    rw [hcost, hbody]
    decide

end R3000.Machine
