import Mathlib
import R3000.Proofs.Chains.Charge
import R3000.Proofs.Planning

/-!
# Points of a chain

A chain comes to an instruction once all instructions before it were carried out in full: those of the blocks
it hopped from, and those of its own block.  If the instruction then stops its block the chain ends there, with
the cycles of the instructions so far charged and nothing carried out after it.
-/

namespace R3000

variable {σ : Type} {host : Host σ}

/-- An instruction that is about to be carried out, with the cycles charged before it. -/
structure Point (σ : Type) where
  pc : UInt32
  instr : Instr
  spent : Nat
  cpu : Cpu
  rest : σ

/-- The state after the instruction of a point. -/
def Point.exec (host : Host σ) (p : Point σ) : Executed σ := p.instr.exec host p.pc p.cpu p.rest

/-- The cycles charged up to and including the instruction of a point. -/
def Point.charged (p : Point σ) : Nat := p.spent + p.instr.cost

/-- What is left after the instruction of a point stopped its block. -/
def Point.stopped (host : Host σ) (budget : Int32) (p : Point σ) : Departed σ :=
  .leave (spend budget p.charged) (p.exec host).cpu (p.exec host).rest

namespace Block

variable {b : Block} {budget left : Int32} {c : Cpu} {s : σ} {p : Point σ}

/-- The points that the run of a block comes to: an instruction of its body after all those before, or its delay
slot after the whole body and the link register of the transfer. -/
inductive Comes (host : Host σ) (b : Block) (budget : Int32) (c : Cpu) (s : σ) : Point σ → Prop
  | body {before after : List Instr} {i : Instr} {left : Int32} {c' : Cpu} {s' : σ} :
    b.plan.body = before ++ i :: after →
      steps host b.plan.start before budget c s = .running left c' s' →
        Comes host b budget c s
          ⟨Plan.wordPc b.plan.start before.length, i, Instr.costs before, c', s'⟩
  | slot {e : Ending} {i : Instr} {left : Int32} {c' : Cpu} {s' : σ} :
    b.plan.ending = some e → e.delay = some i →
      steps host b.plan.start b.plan.body budget c s = .running left c' s' →
        Comes host b budget c s
          ⟨b.plan.endingPc + 4, i, Instr.costs b.plan.body + 1, e.transfer.linked b.plan.endingPc c', s'⟩

/-! ### A block that is stopped -/

lemma steps_append (host : Host σ) (pc : UInt32) (xs ys : List Instr) (left : Int32) (c : Cpu) (s : σ) :
    steps host pc (xs ++ ys) left c s =
      match steps host pc xs left c s with
      | .running left c s => steps host (Plan.wordPc pc xs.length) ys left c s
      | .departed d => .departed d := by
  induction xs generalizing pc left c s with
  | nil => simp [steps]
  | cons x xs ih =>
    rw [List.cons_append, steps, steps, List.length_cons, Plan.wordPc_succ]
    cases step host pc x left c s with
    | running left' c' s' => exact ih ..
    | departed d => rfl

lemma step_of_stop {pc : UInt32} {i : Instr} (h : (i.exec host pc c s).stop = true) :
    step host pc i left c s =
      .departed (.leave (spend left i.cost) (i.exec host pc c s).cpu (i.exec host pc c s).rest) := by
  dsimp only [step]
  rw [if_pos h]

/-- A block is left at an instruction that stops it. -/
lemma enter_of_comes (hp : Comes host b budget c s p) (hstop : (p.exec host).stop = true) :
    enter host b budget c s = p.stopped host budget := by
  cases hp with
  | @body before after i left c' s' hbody hsteps =>
    have hspent := steps_spent host b.plan.start before budget c s
    rw [hsteps] at hspent
    cases hspent
    have hstep : steps host b.plan.start b.plan.body budget c s = .departed (Point.stopped host budget
        ⟨Plan.wordPc b.plan.start before.length, i, Instr.costs before, c', s'⟩) := by
      rw [hbody, steps_append, hsteps]
      dsimp only
      rw [steps, step_of_stop hstop, spend_spend]
      rfl
    rw [enter_eq, interpret, hstep]
  | @slot e i left c' s' hending hslot hsteps =>
    have hspent := steps_spent host b.plan.start b.plan.body budget c s
    rw [hsteps] at hspent
    cases hspent
    rw [enter_eq, interpret, hsteps, hending]
    dsimp only
    rw [finish_eq, hslot, delay, step_of_stop hstop, spend_spend, spend_spend, ← Nat.add_assoc]
    rfl

lemma charged_le_of_comes (hp : Comes host b budget c s p) : p.charged ≤ b.plan.cost := by
  cases hp with
  | @body before after i left c' s' hbody hsteps =>
    simp only [Point.charged, Plan.cost, hbody, Instr.costs_append, Instr.costs_cons]
    omega
  | @slot e i left c' s' hending hslot hsteps =>
    simp only [Point.charged, Plan.cost, hending, Plan.endingCost, Plan.delayCost, hslot, Option.map_some,
      Option.getD_some]
    omega

end Block

/-! ### The flags of a running block -/

/-- A departure takes nothing more of the budget, and leaves the flags of the processor alone. -/
structure Departed.After (left : Int32) (c : Cpu) (d : Departed σ) : Prop where
  left : d.departure.left = left
  inBlock : d.cpu.inBlock = c.inBlock
  blockAborted : d.cpu.blockAborted = c.blockAborted

/-- The processor after some instructions. -/
def Progress.cpu : Progress σ → Cpu
  | .running _ c _ => c
  | .departed d => d.cpu

namespace Block

variable {b : Block} {budget left : Int32} {c : Cpu} {s : σ} {p : Point σ}

lemma step_inBlock (h : host.Steady) (pc : UInt32) (i : Instr) (left : Int32) (c : Cpu) (s : σ) :
    (step host pc i left c s).cpu.inBlock = c.inBlock := by
  have hexec := i.exec_inBlock h pc c s
  dsimp only [step]
  split <;> exact hexec

lemma steps_inBlock (h : host.Steady) (pc : UInt32) (is : List Instr) (left : Int32) (c : Cpu) (s : σ) :
    (steps host pc is left c s).cpu.inBlock = c.inBlock := by
  induction is generalizing pc left c s with
  | nil => rfl
  | cons i is ih =>
    have hstep := step_inBlock h pc i left c s
    rw [steps]
    split <;> rename_i heq <;> rw [heq] at hstep
    · exact (ih ..).trans hstep
    · exact hstep

lemma delay_inBlock (h : host.Steady) (pc : UInt32) (slot : Option Instr) (left : Int32) (c : Cpu) (s : σ) :
    (delay host pc slot left c s).cpu.inBlock = c.inBlock := by
  cases slot with
  | none => rfl
  | some i => exact step_inBlock h ..

lemma after_directExit (exits : List Exit) (target : UInt32) (left : Int32) (c : Cpu) (s : σ) :
    (directExit exits target left c s).After left c := by
  dsimp only [directExit]
  split
  · exact ⟨rfl, rfl, rfl⟩
  · split <;> exact ⟨rfl, rfl, rfl⟩

lemma after_go (t : Transfer) (exits : List Exit) (pc fallthrough : UInt32) (c c' : Cpu) (left : Int32) (s : σ) :
    (t.go exits pc fallthrough c left c' s).After left c' := by
  cases t with
  | jump target link | branch cond rs rt target link => exact after_directExit ..
  | jumpReg rs link => exact ⟨rfl, rfl, rfl⟩

lemma finish_inBlock (h : host.Steady) (exits : List Exit) (pc fallthrough : UInt32) (e : Ending)
    (left : Int32) (c : Cpu) (s : σ) :
    (finish host exits pc fallthrough e left c s).cpu.inBlock = c.inBlock := by
  have hdelay := delay_inBlock h (pc + 4) e.delay (spend left 1) (e.transfer.linked pc c) s
  rw [e.transfer.inBlock_linked] at hdelay
  rw [finish_eq]
  cases hslot : delay host (pc + 4) e.delay (spend left 1) (e.transfer.linked pc c) s with
  | running left' c' s' =>
    rw [hslot] at hdelay
    exact (after_go ..).inBlock.trans hdelay
  | departed d =>
    rw [hslot] at hdelay
    exact hdelay

lemma enter_inBlock (h : host.Steady) (b : Block) (budget : Int32) (c : Cpu) (s : σ) :
    (enter host b budget c s).cpu.inBlock = c.inBlock := by
  have hsteps := steps_inBlock h b.plan.start b.plan.body budget c s
  rw [enter_eq, interpret]
  split <;> rename_i heq <;> rw [heq] at hsteps
  · exact hsteps
  · split
    · exact (finish_inBlock h ..).trans hsteps
    · split
      · exact hsteps
      · exact (after_directExit ..).inBlock.trans hsteps

/-- A block that comes to its exit raised no exception. -/
lemma blockAborted_of_runsThrough (h : host.Steady) (hin : c.inBlock ≠ 0) (habort : c.blockAborted = 0)
    (hruns : b.runsThrough host budget c s = true) : (enter host b budget c s).cpu.blockAborted = 0 := by
  have hcharged := steps_charged h b.plan.start b.plan.body budget hin habort s
  rw [runsThrough, progress] at hruns
  rw [enter_eq, interpret]
  cases hsteps : steps host b.plan.start b.plan.body budget c s with
  | departed d => simp [hsteps, Progress.completed] at hruns
  | running left' c' s' =>
    rw [hsteps] at hcharged hruns
    obtain ⟨hblock, habort', -⟩ := hcharged
    dsimp only at hruns ⊢
    cases hending : b.plan.ending with
    | none =>
      dsimp only
      split
      · exact habort'
      · exact (after_directExit ..).blockAborted.trans habort'
    | some e =>
      rw [hending] at hruns
      dsimp only at hruns ⊢
      have hslot := delay_charged h (b.plan.endingPc + 4) e.delay (c := e.transfer.linked b.plan.endingPc c')
        (spend left' 1) (by simpa [hblock]) (by simpa) s'
      rw [finish_eq]
      cases hdelay : delay host (b.plan.endingPc + 4) e.delay (spend left' 1)
          (e.transfer.linked b.plan.endingPc c') s' with
      | departed d => simp [hdelay, Progress.completed] at hruns
      | running left'' c'' s'' =>
        rw [hdelay] at hslot
        exact (after_go ..).blockAborted.trans hslot.2.1

/-- A block that hops raised no exception. -/
lemma blockAborted_of_hop (h : host.Steady) (hb : b.Linkable) (hin : c.inBlock ≠ 0) (habort : c.blockAborted = 0)
    {site : Site} (hhop : (enter host b budget c s).departure = .hop site left) :
    (enter host b budget c s).cpu.blockAborted = 0 := by
  refine blockAborted_of_runsThrough h hin habort (eq_true_of_ne_false fun hstops => ?_)
  have hlinked := enter_linked h.toBlind hb budget c s c.linkBudget c.cyclesLeft
  rw [hstops, Departed.linked_of_left (.inl (by simp))] at hlinked
  rw [show c.withBudgets c.linkBudget c.cyclesLeft = c from rfl] at hlinked
  rw [hlinked] at hhop
  cases hhop

lemma inBlock_of_comes (h : host.Steady) (hp : Comes host b budget c s p) : p.cpu.inBlock = c.inBlock := by
  cases hp with
  | @body before after i left c' s' hbody hsteps =>
    have hkeeps := steps_inBlock h b.plan.start before budget c s
    rw [hsteps] at hkeeps
    exact hkeeps
  | slot hending hslot hsteps =>
    have hkeeps := steps_inBlock h b.plan.start b.plan.body budget c s
    rw [hsteps] at hkeeps
    exact (Transfer.inBlock_linked ..).trans hkeeps

lemma blockAborted_of_comes (h : host.Steady) (hin : c.inBlock ≠ 0) (habort : c.blockAborted = 0)
    (hp : Comes host b budget c s p) : p.cpu.blockAborted = 0 := by
  cases hp with
  | @body before after i left c' s' hbody hsteps =>
    have hcharged := steps_charged h b.plan.start before budget hin habort s
    rw [hsteps] at hcharged
    exact hcharged.2.1
  | slot hending hslot hsteps =>
    have hcharged := steps_charged h b.plan.start b.plan.body budget hin habort s
    rw [hsteps] at hcharged
    exact (Transfer.blockAborted_linked ..).trans hcharged.2.1

end Block

/-! ### Chains -/

namespace Chain

variable {cache : Cache Block} {store : CodeStore Block} {b : Block} {budget : Int32} {c : Cpu} {s : σ} {p : Point σ}

/-- The points that a chain comes to: those of its first block, and those that it comes to after a hop. -/
inductive Comes (host : Host σ) (store : CodeStore Block) : Block → Int32 → Cpu → σ → Point σ → Prop
  | here {b : Block} {budget : Int32} {c : Cpu} {s : σ} {p : Point σ} :
    b.Comes host budget c s p → Comes host store b budget c s p
  | next {b code : Block} {budget left : Int32} {c : Cpu} {s : σ} {p : Point σ} {site : Site} :
    (Block.enter host b budget c s).departure = .hop site left → store.word? site = some (.block code) →
      Comes host store code left (Block.enter host b budget c s).cpu (Block.enter host b budget c s).rest p →
        Comes host store b budget c s { p with spent := b.plan.cost + p.spent }

/-- What a hop leaves: the cycles of the whole block are charged, and the next block is a cached one. -/
lemma exists_of_hop (hs : Sound cache store) (hb : ∃ pc e, cache.get? pc = some e ∧ e.code = b) {site : Site}
    {left : Int32} {code : Block} (hhop : (Block.enter host b budget c s).departure = .hop site left)
    (hcode : store.word? site = some (.block code)) :
    left = spend budget b.plan.cost ∧ 0 < left ∧ ∃ pc e, cache.get? pc = some e ∧ e.code = code := by
  obtain ⟨pc, e, he, rfl⟩ := hb
  have hspent := Block.enter_spent host e.code budget c s
  rw [hhop] at hspent
  cases hspent with
  | hop hx hpos => exact ⟨rfl, hpos, _, hs.word pc e he _ hx code hcode⟩

/-- A block that costs something leaves fewer cycles to go on with than it was given. -/
lemma fuel_enter_lt (host : Host σ) {left : Int32} (hleft : 0 < left) (hpos : 0 < b.plan.cost)
    (hlt : b.plan.cost < 2 ^ 31) (c : Cpu) (s : σ) :
    fuel (Block.enter host b left c s).departure < left.toNatClampNeg := by
  have hspent := Block.enter_spent host b left c s
  have hspend := toNat_spend_lt hleft hpos hlt
  cases hdeparture : (Block.enter host b left c s).departure with
  | leave l => exact Nat.zero_lt_of_lt hspend
  | hop site l =>
    rw [hdeparture] at hspent
    cases hspent
    exact hspend

/-- A chain that comes to an instruction that stops its block ends there. -/
lemma follow_of_comes (hs : Sound cache store) (hb : ∃ pc e, cache.get? pc = some e ∧ e.code = b)
    (hbudget : 0 ≤ budget.toInt) (hp : Comes host store b budget c s p) (hstop : (p.exec host).stop = true)
    {cycles : Nat} (hcycles : fuel (Block.enter host b budget c s).departure ≤ cycles) :
    follow (Block.enter host) store cycles (Block.enter host b budget c s) =
        ⟨spend budget p.charged, (p.stopped host budget).cpu, (p.stopped host budget).rest⟩ ∧
      p.charged < budget.toInt + 2 ^ 31 := by
  induction hp generalizing cycles with
  | @here b budget c s p hp =>
    obtain ⟨pc, e, he, rfl⟩ := hb
    rw [Block.enter_of_comes hp hstop]
    constructor
    · cases cycles <;> rfl
    · have hle := Block.charged_le_of_comes hp
      have hlt := (hs.cost pc e he).2
      omega
  | @next b code budget left c s p site hhop hcode hp ih =>
    obtain ⟨rfl, hpos, hnext⟩ := exists_of_hop hs hb hhop hcode
    obtain ⟨pc, e, he, rfl⟩ := hb
    obtain ⟨pc', e', he', rfl⟩ := hnext
    have hlt := (hs.cost pc e he).2
    have hpos' : 0 < (spend budget e.code.plan.cost).toInt := Int32.lt_iff_toInt_lt.mp hpos
    have hleft : (spend budget e.code.plan.cost).toInt = budget.toInt - e.code.plan.cost :=
      toInt_spend hbudget (by omega)
    -- the cycles left at the hop are more than those left after the next block
    have hfuel := fuel_enter_lt host hpos (hs.cost pc' e' he').1 (hs.cost pc' e' he').2
      (Block.enter host e.code budget c s).cpu (Block.enter host e.code budget c s).rest
    rw [hhop, fuel] at hcycles
    obtain ⟨cycles, rfl⟩ : ∃ n, cycles = n + 1 :=
      Nat.exists_eq_add_one.mpr (Nat.zero_lt_of_lt (hfuel.trans_le hcycles))
    obtain ⟨hrest, hcharged⟩ := ih ⟨pc', e', he', rfl⟩ hpos'.le hstop
      (Nat.lt_succ_iff.mp (hfuel.trans_le hcycles))
    have htotal : e.code.plan.cost + p.charged = e.code.plan.cost + p.spent + p.instr.cost :=
      (Nat.add_assoc ..).symm
    constructor
    · rw [follow, hhop]
      dsimp only
      rw [hcode]
      dsimp only
      rw [hrest, Point.stopped, spend_spend, htotal]
      rfl
    · simp only [Point.charged] at hcharged ⊢
      omega

/-- A chain that comes to an instruction that stops its block ends with what the instruction left, and has charged
the cycles of the instructions up to it. -/
theorem run_of_comes (hs : Sound cache store) {pc : UInt32} {e : Entry Block} (he : cache.get? pc = some e)
    (hbudget : 0 ≤ budget.toInt) (hp : Comes host store e.code budget c s p)
    (hstop : (p.exec host).stop = true) :
    run (Block.enter host) store e.code budget c s =
        ⟨spend budget p.charged, (p.stopped host budget).cpu, (p.stopped host budget).rest⟩ ∧
      (spend budget p.charged).toInt = budget.toInt - p.charged := by
  obtain ⟨hrun, hcharged⟩ := follow_of_comes hs ⟨pc, e, he, rfl⟩ hbudget hp hstop le_rfl
  exact ⟨hrun, toInt_spend hbudget hcharged⟩

lemma inBlock_of_comes (h : host.Steady) (hp : Comes host store b budget c s p) : p.cpu.inBlock = c.inBlock := by
  induction hp with
  | here hp => exact Block.inBlock_of_comes h hp
  | next _ _ _ ih => exact ih.trans (Block.enter_inBlock h ..)

lemma blockAborted_of_comes (h : host.Steady) (hs : Sound cache store)
    (hb : ∃ pc e, cache.get? pc = some e ∧ e.code = b) (hin : c.inBlock ≠ 0) (habort : c.blockAborted = 0)
    (hp : Comes host store b budget c s p) : p.cpu.blockAborted = 0 := by
  induction hp with
  | here hp => exact Block.blockAborted_of_comes h hin habort hp
  | next hhop hcode _ ih =>
    obtain ⟨-, -, hnext⟩ := exists_of_hop hs hb hhop hcode
    obtain ⟨pc, e, he, rfl⟩ := hb
    apply ih hnext
    · rw [Block.enter_inBlock h]
      exact hin
    · exact Block.blockAborted_of_hop h (hs.linkable pc e he) hin habort hhop

end Chain

end R3000
