import Mathlib
import R3000.Proofs.Chains.Solo

/-!
# Blocks without links to spend

With no links to spend a block leaves to the dispatcher, wherever its link words point.  So what such a chain
returns depends on the plan of its one block alone, not on the link words or the other code in the store.
-/

namespace R3000

variable {σ : Type} {host : Host σ}

lemma Cpu.eq_withBudgets {c : Cpu} (hlinks : c.linkBudget = 0) : c = c.withBudgets 0 c.cyclesLeft := by
  rw [withBudgets, ← hlinks]

namespace Block

lemma directExit_unlinked (exits : List Exit) (target : UInt32) (left : Int32) {c : Cpu} (s : σ)
    (hlinks : c.linkBudget = 0) :
    directExit exits target left c s = directExit [] target left c s := by
  change directExit exits target left c s = .leave left { c with pc := target } s
  rw [directExit]
  dsimp only
  split
  · rfl
  · exact if_pos (.inr hlinks)

lemma go_unlinked (t : Transfer) (exits : List Exit) (pc fallthrough : UInt32) (start : Cpu) (left : Int32)
    {c : Cpu} (s : σ) (hlinks : c.linkBudget = 0) :
    t.go exits pc fallthrough start left c s = t.go [] pc fallthrough start left c s := by
  cases t with
  | jump target link => exact directExit_unlinked _ _ _ _ hlinks
  | jumpReg rs link => rfl
  | branch cond rs rt target link => exact directExit_unlinked _ _ _ _ hlinks

/-- Ways out that agree without links to spend agree after steps that keep the links. -/
lemma leaveBy_unlinked {go go' : Int32 → Cpu → σ → Departed σ}
    (hgo : ∀ left (c : Cpu) s, c.linkBudget = 0 → go left c s = go' left c s) (p : Progress σ) (k : Int32) :
    (p.withBudgets 0 k).leaveBy go = (p.withBudgets 0 k).leaveBy go' := by
  cases p with
  | running left c s => exact hgo left _ s rfl
  | departed d => rfl

lemma finish_unlinked (h : host.Blind) (exits : List Exit) (pc fallthrough : UInt32) (e : Ending) (left : Int32)
    {c : Cpu} (s : σ) (hlinks : c.linkBudget = 0) :
    finish host exits pc fallthrough e left c s = finish host [] pc fallthrough e left c s := by
  rw [finish_eq, finish_eq, Cpu.eq_withBudgets hlinks, Transfer.linked_withBudgets, delay_withBudgets h]
  exact leaveBy_unlinked (fun left c s hlinks => go_unlinked _ _ _ _ _ _ _ hlinks) _ _

/-- Without links to spend a block runs as if it had no direct exits. -/
theorem enter_unlinked (h : host.Blind) (b : Block) (left : Int32) {c : Cpu} (s : σ) (hlinks : c.linkBudget = 0) :
    enter host b left c s = enter host ⟨b.plan, []⟩ left c s := by
  rw [enter_eq, enter_eq, interpret, interpret, Cpu.eq_withBudgets hlinks, steps_withBudgets h]
  cases steps host b.plan.start b.plan.body left c s with
  | departed d => rfl
  | running left' c' s' =>
    dsimp only [Progress.withBudgets]
    cases b.plan.ending with
    | some e => exact finish_unlinked h _ _ _ _ _ _ rfl
    | none =>
      dsimp only
      split
      · rfl
      · exact directExit_unlinked _ _ _ _ rfl

/-- A block without direct exits leaves to the dispatcher. -/
lemma leave_of_unlinked (h : host.Blind) (p : Plan) (left : Int32) (c : Cpu) (s : σ) :
    ∃ left', (enter host ⟨p, []⟩ left c s).departure = .leave left' := by
  have hsolo := enter_linked h (b := ⟨p, []⟩) (fun _ => rfl) left c s c.linkBudget c.cyclesLeft
  rw [Departed.linked_of_left (.inr rfl)] at hsolo
  exact ⟨_, congrArg Departed.departure hsolo⟩

end Block

/-- Without links to spend a chain is one block, and returns the same for every block of the same plan, whatever
stands in the store. -/
theorem Chain.run_unlinked (h : host.Blind) {b b' : Block} (hplan : b'.plan = b.plan) (store store' : CodeStore Block)
    (budget : Int32) {c : Cpu} (hlinks : c.linkBudget = 0) (s : σ) :
    run (Block.enter host) store' b' budget c s = run (Block.enter host) store b budget c s := by
  have hreturn : ∀ (store : CodeStore Block) (b : Block), run (Block.enter host) store b budget c s =
      let d := Block.enter host ⟨b.plan, []⟩ budget c s
      ⟨d.departure.left, d.cpu, d.rest⟩ := by
    intro store b
    obtain ⟨left, hleave⟩ := Block.leave_of_unlinked h b.plan budget c s
    rw [run, Block.enter_unlinked h b budget s hlinks]
    dsimp only
    rw [hleave]
    change follow _ store 0 _ = _
    rw [follow, hleave]
    rfl
  rw [hreturn, hreturn, hplan]

end R3000
