import Mathlib
import R3000.Proofs.Chains.Charge

/-!
# Chains and lookups

The dispatcher could run the blocks of a chain one at a time, each alone, and look up the next one at the
program counter.  `Chain.lookups` does so, as long as the exit taken is linked; the chain runs the same
blocks and ends in the same state.
-/

namespace R3000.Chain

variable {β σ : Type} {enter : Enter β σ} {store : CodeStore β}

/-! ### The blocks of a chain -/

/-- Code that notes each of its runs. -/
def logged (enter : Enter β σ) : Enter β (σ × List β) := fun code left c s =>
  let d := enter code left c s.1
  ⟨d.departure, d.cpu, (d.rest, s.2 ++ [code])⟩

/-- The blocks that a dispatch runs, in order. -/
def blocks (enter : Enter β σ) (store : CodeStore β) (code : β) (budget : Int32) (c : Cpu) (s : σ) :
    List β :=
  (run (logged enter) store code budget c (s, [])).rest.2

/-- Notes change nothing else. -/
lemma follow_logged (fuel : Nat) (d : Departed σ) (log : List β) :
    ∃ log', follow (logged enter) store fuel ⟨d.departure, d.cpu, (d.rest, log)⟩ =
      ⟨(follow enter store fuel d).left, (follow enter store fuel d).cpu,
        ((follow enter store fuel d).rest, log')⟩ := by
  induction fuel generalizing d log with
  | zero =>
    rw [follow, follow]
    cases d.departure <;> exact ⟨log, rfl⟩
  | succ fuel ih =>
    rw [follow, follow]
    cases d.departure with
    | leave left => exact ⟨log, rfl⟩
    | hop site left =>
      dsimp only
      rcases store.word? site with _ | _ | code
      · exact ⟨log, rfl⟩
      · exact ⟨log, rfl⟩
      · exact ih (enter code left d.cpu d.rest) (log ++ [code])

lemma run_logged (enter : Enter β σ) (store : CodeStore β) (code : β) (budget : Int32) (c : Cpu) (s : σ) :
    ∃ log, run (logged enter) store code budget c (s, []) =
      ⟨(run enter store code budget c s).left, (run enter store code budget c s).cpu,
        ((run enter store code budget c s).rest, log)⟩ :=
  follow_logged _ (enter code budget c s) [code]

/-! ### Lookups -/

variable {host : Host σ} {cache : Cache Block} {store : CodeStore Block}

/-- Whether a block that is run alone leaves without abort through a linked exit, with cycles to go on. -/
def goesOn (host : Host σ) (store : CodeStore Block) (b : Block) (left : Int32) (c : Cpu) (s : σ) : Bool :=
  let d := Block.enter host b left c s
  b.runsThrough host left c s && decide (0 < d.departure.left) &&
    (b.exits.find? (·.target == d.cpu.pc)).any fun x =>
      match store.word? x.site with
      | some (.block _) => true
      | _ => false

/-- Runs a block alone, then looks up the next one at the program counter while the exit taken is linked and
links are left; gives the blocks in order too. -/
def lookups (host : Host σ) (cache : Cache Block) (store : CodeStore Block) :
    (links : Nat) → Block → Int32 → Cpu → σ → List Block × Returned σ
  | 0, b, left, c, s =>
    let d := Block.enter host b left { c with linkBudget := 0 } s
    ([b], ⟨d.departure.left, d.cpu, d.rest⟩)
  | links + 1, b, left, c, s =>
    let d := Block.enter host b left { c with linkBudget := 0 } s
    match if goesOn host store b left { c with linkBudget := 0 } s then cache.get? d.cpu.pc else none with
    | some e =>
      let (bs, r) := lookups host cache store links e.code d.departure.left d.cpu d.rest
      (b :: bs, r)
    | none => ([b], ⟨d.departure.left, d.cpu, d.rest⟩)

lemma length_lookups_le (links : Nat) (b : Block) (left : Int32) (c : Cpu) (s : σ) :
    (lookups host cache store links b left c s).1.length ≤ links + 1 := by
  induction links generalizing b left c s with
  | zero => simp [lookups]
  | succ links ih =>
    rw [lookups]
    dsimp only
    split
    · rename_i e _
      exact Nat.succ_le_succ (ih e.code _ _ _)
    · simp

/-- A block alone is run the same with cycles noted before. -/
lemma enter_solo (h : host.Blind) {b : Block} (hb : b.Linkable) (left : Int32) (c : Cpu) (s : σ) :
    Block.enter host b left { c with linkBudget := 0 } s =
      Block.enter host b left (c.withBudgets 0 0) s := by
  have hlinked := Block.enter_linked h hb left c s 0
  have hleaves : ∀ k d completed,
      Departed.linked (σ := σ) b.exits 0 k completed d = d.linked b.exits 0 0 completed := by
    intro k d completed
    rw [Departed.linked_of_left (.inl (by simp)), Departed.linked_of_left (.inl (by simp))]
  exact (hlinked c.cyclesLeft).trans ((hleaves _ _ _).trans (hlinked 0).symm)

/-- What is asked of a block that is left for another. -/
lemma goesOn_iff (h : host.Blind) {b : Block} (hb : b.Linkable) {left : Int32} {c : Cpu} {s : σ} :
    let d := Block.enter host b left (c.withBudgets 0 0) s
    goesOn host store b left { c with linkBudget := 0 } s = true ↔
      (b.runsThrough host left c s = true ∧ 0 < d.departure.left) ∧ ∃ x code,
        b.exits.find? (·.target == d.cpu.pc) = some x ∧ store.word? x.site = some (.block code) := by
  have hruns : b.runsThrough host left { c with linkBudget := 0 } s = b.runsThrough host left c s :=
    Block.runsThrough_withBudgets h b left c s 0 c.cyclesLeft
  simp only [goesOn, hruns, enter_solo h hb, Bool.and_eq_true, decide_eq_true_iff, Option.any_eq_true]
  refine and_congr_right fun _ => exists_congr fun x => ?_
  rcases store.word? x.site with _ | _ | code <;> simp

/-- A chain stops where the lookups stop. -/
lemma follow_linked (h : host.Blind) {b : Block} (hb : b.Linkable) {left : Int32} {c : Cpu} {s : σ} {n : UInt32}
    (hstop : n = 0 ∨ ¬ goesOn host store b left { c with linkBudget := 0 } s) (k : Int32) (fuel : Nat)
    (log : List Block) :
    let d := Block.enter host b left (c.withBudgets 0 0) s
    let l := d.linked b.exits n k (b.runsThrough host left c s)
    follow (logged (Block.enter host)) store fuel ⟨l.departure, l.cpu, (l.rest, log)⟩ =
      ⟨d.departure.left, l.cpu, (d.rest, log)⟩ := by
  intro d
  have hleave : ∀ c : Cpu, follow (logged (Block.enter host)) store fuel
      ⟨.leave d.departure.left, c, (d.rest, log)⟩ = ⟨d.departure.left, c, (d.rest, log)⟩ := by
    intro c
    cases fuel <;> rfl
  rw [Departed.linked]
  split
  · rename_i x hx
    split
    · rename_i hgo
      -- the hop ends at the stub
      have hword : ∀ code, store.word? x.site ≠ some (.block code) := fun code hcode =>
        (hstop.resolve_left hgo.2.2) ((goesOn_iff h hb).mpr ⟨⟨hgo.1, hgo.2.1⟩, x, code, hx, hcode⟩)
      cases fuel with
      | zero => rfl
      | succ fuel =>
        simp only [follow]
        split
        · rename_i code hcode
          exact absurd hcode (hword code)
        · rfl
        · rfl
    · exact hleave _
  · exact hleave _

/-- The state in which a chain returns, up to the budgets that it notes in the processor, with the blocks that
it ran. -/
structure Agrees (got : Returned (σ × List Block)) (log : List Block) (want : List Block × Returned σ) :
    Prop where
  blocks : got.rest.2 = log ++ want.1
  left : got.left = want.2.left
  cpu : got.cpu.withBudgets 0 0 = want.2.cpu.withBudgets 0 0
  rest : got.rest.1 = want.2.rest

/-- A chain that has just run a block goes on as the lookups do. -/
lemma follow_lookups (h : host.Blind) (hs : Sound cache store) {pc : UInt32} {e : Entry Block}
    (he : cache.get? pc = some e) {n : UInt32} {links : Nat} (hn : n.toNat = links) (k left : Int32) (c : Cpu)
    (s : σ) (log : List Block) {cycles : Nat} :
    let l := Block.enter host e.code left (c.withBudgets n k) s
    fuel l.departure ≤ cycles →
      Agrees (follow (logged (Block.enter host)) store cycles ⟨l.departure, l.cpu, (l.rest, log ++ [e.code])⟩)
        log (lookups host cache store links e.code left c s) := by
  induction links generalizing pc e n left c s log cycles with
  | zero =>
    intro l _
    obtain rfl : n = 0 := UInt32.toNat_inj.mp hn
    have hb := hs.linkable pc e he
    rw [show l = _ from Block.enter_linked h hb left c s 0 k, follow_linked h hb (.inl rfl), lookups,
      enter_solo h hb]
    exact ⟨rfl, rfl, Departed.withBudgets_linked .., rfl⟩
  | succ links ih =>
    intro l hfuel
    have hb := hs.linkable pc e he
    have hlinked : l = _ := Block.enter_linked h hb left c s n k
    have hn0 : n ≠ 0 := by
      rintro rfl
      simp at hn
    by_cases hgo : goesOn host store e.code left { c with linkBudget := 0 } s = true
    · obtain ⟨⟨hruns, hpos⟩, x, code, hx, hcode⟩ := (goesOn_iff h hb).mp hgo
      have hlookups := enter_solo h hb left c s
      set d := Block.enter host e.code left (c.withBudgets 0 0) s with hd
      have htarget : x.target = d.cpu.pc := by simpa using List.find?_some hx
      obtain ⟨e', he', rfl⟩ := hs.word pc e he x (List.mem_of_find?_eq_some hx) code hcode
      rw [htarget] at he'
      have hl : l = ⟨.hop x.site d.departure.left, d.cpu.withBudgets (n - 1) k, d.rest⟩ := by
        rw [hlinked, Departed.linked, hx]
        exact if_pos ⟨hruns, hpos, hn0⟩
      replace hlookups : lookups host cache store (links + 1) e.code left c s =
          let r := lookups host cache store links e'.code d.departure.left d.cpu d.rest
          (e.code :: r.1, r.2) := by
        simp only [lookups, hlookups, hgo, if_true, he']
      -- the next block, entered by the hop, has the cycles left for fuel
      obtain ⟨hcost, hcost'⟩ := hs.cost _ e' he'
      have hlt := fuel_lt (Block.enter_spent host e'.code d.departure.left (d.cpu.withBudgets (n - 1) k) d.rest)
        hpos hcost hcost'
      rw [hl] at hfuel ⊢
      obtain ⟨cycles, rfl⟩ : ∃ m, cycles = m + 1 :=
        Nat.exists_eq_add_one.mpr (Nat.zero_lt_of_lt (hlt.trans_le hfuel))
      have hn' : (n - 1).toNat = links := by
        have hle : 1 ≤ n := by
          rw [UInt32.le_iff_toNat_le, hn]
          exact Nat.succ_le_succ (Nat.zero_le links)
        rw [UInt32.toNat_sub_of_le _ _ hle, hn]
        rfl
      have hagrees := ih he' hn' d.departure.left d.cpu d.rest (log ++ [e.code])
        (Nat.lt_succ_iff.mp (hlt.trans_le hfuel))
      rw [hlookups]
      simp only [follow, hcode, logged]
      exact ⟨hagrees.blocks.trans (List.append_assoc ..), hagrees.left, hagrees.cpu, hagrees.rest⟩
    · rw [hlinked, follow_linked h hb (.inr hgo)]
      simp only [lookups, hgo, Bool.false_eq_true, if_false, enter_solo h hb]
      exact ⟨rfl, rfl, Departed.withBudgets_linked .., rfl⟩

/-- A dispatch runs the blocks that the lookups give, to the same state up to the budgets noted in the
processor, and there is at most one more of them than there are links to spend. -/
theorem run_lookups (h : host.Blind) (hs : Sound cache store) {pc : UInt32} {e : Entry Block}
    (he : cache.get? pc = some e) (budget : Int32) (c : Cpu) (s : σ) :
    let got := run (Block.enter host) store e.code budget c s
    let (bs, want) := lookups host cache store c.linkBudget.toNat e.code budget c s
    blocks (Block.enter host) store e.code budget c s = bs ∧ bs.length ≤ c.linkBudget.toNat + 1 ∧
      got.left = want.left ∧ got.cpu.withBudgets 0 0 = want.cpu.withBudgets 0 0 ∧
        got.rest = want.rest := by
  have hagrees : Agrees (run (logged (Block.enter host)) store e.code budget c (s, [])) []
      (lookups host cache store c.linkBudget.toNat e.code budget c s) :=
    follow_lookups (n := c.linkBudget) h hs he rfl c.cyclesLeft budget c s [] le_rfl
  obtain ⟨log, hlogged⟩ := run_logged (Block.enter host) store e.code budget c s
  intro got
  obtain ⟨hblocks, hleft, hcpu, hrest⟩ := hagrees
  rw [hlogged] at hleft hcpu hrest
  exact ⟨hblocks, length_lookups_le .., hleft, hcpu, hrest⟩

-- a block that jumps to itself runs once more for each of two links
example :
    let b : Block := ⟨⟨⟨[], some ⟨.jump 0 false, none⟩, 8⟩, 0⟩, [⟨0, 0⟩]⟩
    let store : CodeStore Block := ⟨#[.block b], 0, 1, 1, 0, {}, 0, {}⟩
    blocks (Block.enter fun _ _ _ c s => ⟨0, c, s⟩) store b 100 { Cpu.fresh with linkBudget := 2 } () =
      [b, b, b] := by
  decide +kernel

end R3000.Chain
