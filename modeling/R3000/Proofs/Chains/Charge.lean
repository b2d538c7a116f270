import Mathlib
import R3000.Cache
import R3000.Proofs.Chains.Solo

/-!
# What a chain charges

A block charges no more than it costs, whatever its host does, and hops only with cycles left.  So a chain
never runs further past its budget than the most expensive block.
-/

namespace R3000

variable {σ : Type} {host : Host σ} {left : Int32} {cost : Nat}

/-! ### A block -/

/-- Some instructions charge their cost, or fewer cycles if they leave the block. -/
def Progress.Spent (left : Int32) (cost : Nat) : Progress σ → Prop
  | .running left' _ _ => left' = spend left cost
  | .departed d => ∃ n ≤ cost, d.departure = .leave (spend left n)

/-- A departure that charged at most some cycles, or hopped through an exit with cycles left and charged them
all. -/
inductive Departure.Spent (exits : List Exit) (left : Int32) (cost : Nat) : Departure → Prop
  | leave {n : Nat} : n ≤ cost → Spent exits left cost (.leave (spend left n))
  | hop {x : Exit} : x ∈ exits → 0 < spend left cost →
    Spent exits left cost (.hop x.site (spend left cost))

namespace Block

lemma step_spent (host : Host σ) (pc : UInt32) (i : Instr) (left : Int32) (c : Cpu) (s : σ) :
    (step host pc i left c s).Spent left i.cost := by
  dsimp only [step]
  split
  · exact ⟨i.cost, le_rfl, rfl⟩
  · rfl

lemma steps_spent (host : Host σ) (pc : UInt32) (is : List Instr) (left : Int32) (c : Cpu) (s : σ) :
    (steps host pc is left c s).Spent left (Instr.costs is) := by
  induction is generalizing pc left c s with
  | nil => simp [steps, Progress.Spent, spend]
  | cons i is ih =>
    have hstep := step_spent host pc i left c s
    rw [steps]
    cases heq : step host pc i left c s with
    | running left' c' s' =>
      rw [heq] at hstep
      cases hstep
      have hrest := ih (pc + 4) (spend left i.cost) c' s'
      dsimp only
      cases hsteps : steps host (pc + 4) is (spend left i.cost) c' s' with
      | running left'' c'' s'' =>
        rw [hsteps] at hrest
        cases hrest
        exact spend_spend ..
      | departed d =>
        rw [hsteps] at hrest
        obtain ⟨n, hn, hd⟩ := hrest
        refine ⟨i.cost + n, ?_, ?_⟩
        · simpa using hn
        · rw [hd, spend_spend]
    | departed d =>
      rw [heq] at hstep
      obtain ⟨n, hn, hd⟩ := hstep
      refine ⟨n, ?_, hd⟩
      rw [Instr.costs_cons]
      omega

lemma delay_spent (host : Host σ) (pc : UInt32) (slot : Option Instr) (left : Int32) (c : Cpu) (s : σ) :
    (delay host pc slot left c s).Spent left (Plan.delayCost slot) := by
  cases slot with
  | none => rfl
  | some i => exact step_spent ..

lemma directExit_spent (exits : List Exit) (target : UInt32) (n : Nat) (c : Cpu) (s : σ) :
    (directExit exits target (spend left n) c s).departure.Spent exits left n := by
  rw [directExit]
  dsimp only
  split
  · exact .leave le_rfl
  · rename_i x hx
    split
    · exact .leave le_rfl
    · rename_i hgo
      rw [not_or, Int32.not_le] at hgo
      exact .hop (List.mem_of_find?_eq_some hx) hgo.1

lemma go_spent (t : Transfer) (exits : List Exit) (pc fallthrough : UInt32) (c : Cpu) (n : Nat) (c' : Cpu) (s : σ) :
    (t.go exits pc fallthrough c (spend left n) c' s).departure.Spent exits left n := by
  cases t with
  | jump target link | branch cond rs rt target link => exact directExit_spent ..
  | jumpReg rs link => exact .leave le_rfl

lemma finish_spent (exits : List Exit) (pc fallthrough : UInt32) (e : Ending) (n : Nat) (c : Cpu) (s : σ) :
    (finish host exits pc fallthrough e (spend left n) c s).departure.Spent exits left
      (n + Plan.endingCost e) := by
  have hdelay := delay_spent host (pc + 4) e.delay (spend (spend left n) 1) (e.transfer.linked pc c) s
  rw [finish_eq]
  cases hslot : delay host (pc + 4) e.delay (spend (spend left n) 1) (e.transfer.linked pc c) s with
  | running left' c' s' =>
    rw [hslot] at hdelay
    cases hdelay
    rw [spend_spend, spend_spend, Plan.endingCost, ← Nat.add_assoc]
    exact go_spent ..
  | departed d =>
    rw [hslot] at hdelay
    obtain ⟨k, hk, hd⟩ := hdelay
    rw [Progress.leaveBy, hd, spend_spend, spend_spend]
    apply Departure.Spent.leave
    rw [Plan.endingCost]
    omega

/-- A block charges at most its cost. -/
theorem enter_spent (host : Host σ) (b : Block) (budget : Int32) (c : Cpu) (s : σ) :
    (enter host b budget c s).departure.Spent b.exits budget b.plan.cost := by
  have hsteps := steps_spent host b.plan.start b.plan.body budget c s
  rw [enter_eq, interpret, Plan.cost]
  split <;> rename_i heq <;> rw [heq] at hsteps
  · obtain ⟨n, hn, hd⟩ := hsteps
    rw [hd]
    exact .leave (hn.trans (Nat.le_add_right ..))
  · cases hsteps
    split
    · rename_i e hending
      rw [hending]
      exact finish_spent ..
    · rename_i hending
      rw [hending]
      split
      · exact .leave (Nat.le_add_right ..)
      · exact directExit_spent ..

/-- A block hops only with cycles left. -/
lemma hop_pos {b : Block} {budget : Int32} {c : Cpu} {s : σ} {site : Site}
    (h : (enter host b budget c s).departure = .hop site left) : 0 < left := by
  have hspent := enter_spent host b budget c s
  rw [h] at hspent
  cases hspent with | hop _ hpos => exact hpos

end Block

/-! ### A chain -/

namespace Chain

variable {cache : Cache Block} {store : CodeStore Block} {most : Nat} {pc : UInt32} {e : Entry Block}

/-- Words of cached blocks lead to the cached blocks for their targets, and every cached block costs
something. -/
structure Sound (cache : Cache Block) (store : CodeStore Block) : Prop where
  word : ∀ pc e, cache.get? pc = some e → ∀ x ∈ e.code.exits, ∀ code,
    store.word? x.site = some (.block code) → ∃ e', cache.get? x.target = some e' ∧ e'.code = code
  linkable : ∀ pc e, cache.get? pc = some e → e.code.Linkable
  cost : ∀ pc e, cache.get? pc = some e → 0 < e.code.plan.cost ∧ e.code.plan.cost < 2 ^ 31

/-- Cycles are taken off a budget that is not overrun, as far as the processor can count. -/
lemma toInt_spend {left : Int32} {cost : Nat} (hleft : 0 ≤ left.toInt) (hlt : cost < left.toInt + 2 ^ 31) :
    (spend left cost).toInt = left.toInt - cost := by
  have hbound := left.toInt_lt
  have hcost : (Int32.ofNat cost).toInt = (cost : Int).bmod (2 ^ 32) := Int32.toInt_ofNat'
  rw [spend, Int32.toInt_sub, hcost, Int.sub_bmod_bmod]
  exact Int.bmod_eq_of_le (by omega) (by omega)

/-- A block with a cost leaves fewer cycles than it was given. -/
lemma toNat_spend_lt {left : Int32} {cost : Nat} (hleft : 0 < left) (hpos : 0 < cost)
    (hlt : cost < 2 ^ 31) : (spend left cost).toNatClampNeg < left.toNatClampNeg := by
  have hleft' : 0 < left.toInt := Int32.lt_iff_toInt_lt.mp hleft
  rw [Int32.toNatClampNeg, Int32.toNatClampNeg, toInt_spend hleft'.le (by omega)]
  omega

/-- A budget that is not spent is overrun by less than the cycles charged. -/
lemma neg_lt_spend (hleft : 0 < left) (hlt : cost < 2 ^ 31) (hcost : cost ≤ most) :
    -(most : Int) < (spend left cost).toInt := by
  have hleft' : 0 < left.toInt := Int32.lt_iff_toInt_lt.mp hleft
  rw [toInt_spend hleft'.le (by omega)]
  omega

lemma follow_left (hs : Sound cache store)
    (hcost : ∀ pc e, cache.get? pc = some e → e.code.plan.cost ≤ most) (fuel : Nat)
    (he : cache.get? pc = some e) (hleft : 0 < left) {d : Departed σ}
    (hd : d.departure.Spent e.code.exits left e.code.plan.cost) :
    -(most : Int) < (follow (Block.enter host) store fuel d).left.toInt := by
  have hle := hcost pc e he
  have hlt := (hs.cost pc e he).2
  induction fuel generalizing pc e left d with
  | zero =>
    rw [follow]
    cases hdeparture : d.departure with
    | leave l =>
      rw [hdeparture] at hd
      cases hd with | leave hn => exact neg_lt_spend hleft (hn.trans_lt hlt) (hn.trans hle)
    | hop site l =>
      rw [hdeparture] at hd
      cases hd with | hop => exact neg_lt_spend hleft hlt hle
  | succ fuel ih =>
    rw [follow]
    cases hdeparture : d.departure with
    | leave l =>
      rw [hdeparture] at hd
      cases hd with | leave hn => exact neg_lt_spend hleft (hn.trans_lt hlt) (hn.trans hle)
    | hop site l =>
      rw [hdeparture] at hd
      cases hd with
      | hop hx hpos =>
        dsimp only
        split
        · rename_i code hcode
          obtain ⟨e', he', rfl⟩ := hs.word pc e he _ hx code hcode
          exact ih he' hpos (Block.enter_spent host e'.code _ d.cpu d.rest) (hcost _ e' he') (hs.cost _ e' he').2
        · exact neg_lt_spend hleft hlt hle
        · exact neg_lt_spend hleft hlt hle

/-- A chain overruns its budget by less than the most expensive cached block costs. -/
theorem run_left (host : Host σ) (hs : Sound cache store)
    (hcost : ∀ pc e, cache.get? pc = some e → e.code.plan.cost ≤ most) (he : cache.get? pc = some e)
    {budget : Int32} (hbudget : 0 < budget) (c : Cpu) (s : σ) :
    -(most : Int) < (run (Block.enter host) store e.code budget c s).left.toInt := by
  exact follow_left hs hcost _ he hbudget (Block.enter_spent host e.code budget c s)

/-! ### Ends -/

/-- Fewer blocks can follow one than it was given cycles. -/
lemma fuel_lt {exits : List Exit} {d : Departed σ} (hd : d.departure.Spent exits left cost) (hleft : 0 < left)
    (hpos : 0 < cost) (hlt : cost < 2 ^ 31) : fuel d.departure < left.toNatClampNeg := by
  have hspend := toNat_spend_lt hleft hpos hlt
  cases hdeparture : d.departure with
  | leave l => exact Nat.zero_lt_of_lt hspend
  | hop site l =>
    rw [hdeparture] at hd
    cases hd with | hop => exact hspend

lemma follow_leave {d : Departed σ} (h : d.departure = .leave left) (n : Nat) :
    follow (Block.enter host) store n d = ⟨left, d.cpu, d.rest⟩ := by
  cases n <;> rw [follow, h]

lemma follow_more (hs : Sound cache store) (he : cache.get? pc = some e) {d : Departed σ}
    (hd : d.departure.Spent e.code.exits left e.code.plan.cost) {n n' : Nat} (hfuel : fuel d.departure ≤ n)
    (hn : n ≤ n') : follow (Block.enter host) store n d = follow (Block.enter host) store n' d := by
  induction n generalizing pc e left d n' with
  | zero =>
    cases hdeparture : d.departure with
    | leave l => rw [follow_leave hdeparture, follow_leave hdeparture]
    | hop site l =>
      rw [hdeparture] at hd hfuel
      cases hd with
      | hop _ hpos =>
        have hpos' : 0 < (spend left e.code.plan.cost).toInt := Int32.lt_iff_toInt_lt.mp hpos
        rw [fuel, Int32.toNatClampNeg] at hfuel
        omega
  | succ n ih =>
    obtain ⟨k, rfl⟩ : ∃ k, n' = k + 1 := Nat.exists_eq_add_one.mpr (by omega)
    rw [follow, follow]
    cases hdeparture : d.departure with
    | leave l => rfl
    | hop site l =>
      rw [hdeparture] at hd hfuel
      cases hd with
      | hop hx hpos =>
        dsimp only
        split
        · rename_i code hcode
          obtain ⟨e', he', rfl⟩ := hs.word pc e he _ hx code hcode
          obtain ⟨hcost, hlt⟩ := hs.cost _ e' he'
          have hspent := Block.enter_spent host e'.code (spend left e.code.plan.cost) d.cpu d.rest
          have hfewer := fuel_lt hspent hpos hcost hlt
          exact ih he' hspent (Nat.lt_succ_iff.mp (hfewer.trans_le hfuel)) (Nat.le_of_succ_le_succ hn)
        · rfl
        · rfl

/-- A chain ends by itself: the cycles left at its first hop bound the blocks that follow. -/
theorem run_ends (host : Host σ) (hs : Sound cache store) (he : cache.get? pc = some e) (budget : Int32) (c : Cpu)
    (s : σ) {n : Nat} (hn : fuel (Block.enter host e.code budget c s).departure ≤ n) :
    follow (Block.enter host) store n (Block.enter host e.code budget c s) =
      run (Block.enter host) store e.code budget c s :=
  (follow_more hs he (Block.enter_spent host e.code budget c s) le_rfl hn).symm

/-! ### Entries -/

/-- Code that notes the cycles left whenever it is entered. -/
def timed {β : Type} (enter : Enter β σ) : Enter β (σ × List Int32) := fun code left c s =>
  let d := enter code left c s.1
  ⟨d.departure, d.cpu, (d.rest, s.2 ++ [left])⟩

/-- The cycles left at each block that a dispatch enters, in order. -/
def budgets {β : Type} (enter : Enter β σ) (store : CodeStore β) (code : β) (budget : Int32) (c : Cpu) (s : σ) :
    List Int32 :=
  (run (timed enter) store code budget c (s, [])).rest.2

/-- A block is entered only with cycles left. -/
lemma follow_timed {store : CodeStore Block} (fuel : Nat) {d : Departed (σ × List Int32)}
    (hhop : ∀ site left, d.departure = .hop site left → 0 < left) (hlog : ∀ left ∈ d.rest.2, 0 < left) :
    ∀ left ∈ (follow (timed (Block.enter host)) store fuel d).rest.2, 0 < left := by
  induction fuel generalizing d with
  | zero =>
    rw [follow]
    split <;> exact hlog
  | succ fuel ih =>
    rw [follow]
    split
    · exact hlog
    · rename_i site left hdeparture
      split
      · rename_i code _
        apply ih
        · exact fun site' left' h => Block.hop_pos (s := d.rest.1) h
        · intro left' hleft'
          rcases List.mem_append.mp hleft' with hold | hnew
          · exact hlog left' hold
          · rw [List.mem_singleton.mp hnew]
            exact hhop site left hdeparture
      · exact hlog
      · exact hlog

/-- Every block of a chain is entered with cycles left. -/
theorem budgets_pos (host : Host σ) (store : CodeStore Block) (code : Block) {budget : Int32}
    (hbudget : 0 < budget) (c : Cpu) (s : σ) :
    ∀ left ∈ budgets (Block.enter host) store code budget c s, 0 < left := by
  apply follow_timed
  · exact fun site left h => Block.hop_pos (s := s) h
  · intro left hleft
    rw [List.mem_singleton.mp hleft]
    exact hbudget

end Chain

end R3000
