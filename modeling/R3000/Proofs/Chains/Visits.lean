import Mathlib
import R3000.Proofs.Chains.Points

/-!
# The blocks of a chain

A chain visits its first block and, hop by hop, others.  What it returns is what the chain that begins with
any of its visits returns.  A block that the chain hops to is the cached one for the address to which the block
before left, which is one of the addresses to which that block leaves directly.
-/

namespace R3000

variable {σ : Type} {host : Host σ}

/-! ### How a block hops -/

/-- Where an ending goes, with the registers after the instructions before it: a jump to its target, a branch to its
target or past the block.  A jump through a register never hops. -/
def Ending.GoesTo (e : Ending) (fallthrough : UInt32) (c : Cpu) (pc : UInt32) : Prop :=
  match e.transfer with
  | .jump target _ => pc = target
  | .jumpReg .. => False
  | .branch cond rs rt target _ => pc = if cond.holds (c.reg rs) (c.reg rt) then target else fallthrough

namespace Block

variable {b : Block} {budget left : Int32} {c : Cpu} {s : σ} {site : Site}

/-- A departure through a link word is one through the direct exit for the address that control goes to. -/
lemma directExit_hop {exits : List Exit} {target : UInt32} {left left' : Int32}
    (h : (directExit exits target left c s).departure = .hop site left') :
    (∃ x ∈ exits, x.site = site ∧ x.target = (directExit exits target left c s).cpu.pc) ∧
      (directExit exits target left c s).cpu.pc = target := by
  dsimp only [directExit] at h ⊢
  split at h
  · simp [Departed.leave] at h
  · rename_i x hx
    split at h
    · simp [Departed.leave] at h
    · rename_i hgo
      rw [if_neg hgo]
      cases h
      exact ⟨⟨x, List.mem_of_find?_eq_some hx, rfl, by simpa using List.find?_some hx⟩, rfl⟩

lemma departed_of_steps {pc : UInt32} {is : List Instr} {d : Departed σ}
    (h : steps host pc is budget c s = .departed d) : ∃ left, d.departure = .leave left := by
  have hspent := steps_spent host pc is budget c s
  rw [h] at hspent
  obtain ⟨n, -, hd⟩ := hspent
  exact ⟨_, hd⟩

/-- A block hops through the direct exit for the address that control goes to: where its ending goes, or past the
block if it has none. -/
theorem exists_exit_of_hop (h : (enter host b budget c s).departure = .hop site left) :
    (∃ x ∈ b.exits, x.site = site ∧ x.target = (enter host b budget c s).cpu.pc) ∧
      ∃ left c' s', steps host b.plan.start b.plan.body budget c s = .running left c' s' ∧
        match b.plan.ending with
        | some e => e.GoesTo b.plan.fallthrough c' (enter host b budget c s).cpu.pc
        | none => b.plan.endsAtBarrier = false ∧ (enter host b budget c s).cpu.pc = b.plan.fallthrough := by
  rw [enter_eq, interpret] at h ⊢
  cases hsteps : steps host b.plan.start b.plan.body budget c s with
  | departed d =>
    obtain ⟨l, hl⟩ := departed_of_steps hsteps
    simp [hsteps, hl] at h
  | running l c' s' =>
    rw [hsteps] at h
    dsimp only at h ⊢
    cases hending : b.plan.ending with
    | none =>
      rw [hending] at h
      dsimp only at h ⊢
      cases hbarrier : b.plan.endsAtBarrier with
      | true => simp [hbarrier, Departed.leave] at h
      | false =>
        simp only [hbarrier, Bool.false_eq_true, if_false] at h ⊢
        obtain ⟨hexit, hpc⟩ := directExit_hop h
        exact ⟨hexit, l, c', s', rfl, trivial, hpc⟩
    | some e =>
      rw [hending] at h
      dsimp only at h ⊢
      rw [finish_eq] at h ⊢
      cases hdelay : delay host (b.plan.endingPc + 4) e.delay (spend l 1)
          (e.transfer.linked b.plan.endingPc c') s' with
      | departed d =>
        have hspent := delay_spent host (b.plan.endingPc + 4) e.delay (spend l 1)
          (e.transfer.linked b.plan.endingPc c') s'
        rw [hdelay] at h hspent
        obtain ⟨n, -, hd⟩ := hspent
        simp [Progress.leaveBy, hd] at h
      | running l' c'' s'' =>
        rw [hdelay] at h
        dsimp only [Progress.leaveBy, Ending.GoesTo] at h ⊢
        cases htransfer : e.transfer with
        | jumpReg rs link => simp [htransfer, Transfer.go, indirectExit, Departed.leave] at h
        | jump target link =>
          rw [htransfer] at h
          obtain ⟨hexit, hpc⟩ := directExit_hop h
          exact ⟨hexit, l, c', s', rfl, hpc⟩
        | branch cond rs rt target link =>
          rw [htransfer] at h
          obtain ⟨hexit, hpc⟩ := directExit_hop h
          exact ⟨hexit, l, c', s', rfl, hpc⟩

end Block

/-! ### Visits -/

/-- A block that control is about to enter, with a budget. -/
structure Visit (σ : Type) where
  code : Block
  left : Int32
  cpu : Cpu
  rest : σ

namespace Visit

/-- How the block is left. -/
def departed (host : Host σ) (v : Visit σ) : Departed σ := Block.enter host v.code v.left v.cpu v.rest

/-- The instructions that a visit comes to. -/
def Comes (host : Host σ) (v : Visit σ) : Point σ → Prop := v.code.Comes host v.left v.cpu v.rest

/-- `Block.exists_exit_of_hop` for a visit. -/
lemma exists_exit_of_hop (v : Visit σ) {site : Site} {left : Int32}
    (h : (v.departed host).departure = .hop site left) :
    (∃ x ∈ v.code.exits, x.site = site ∧ x.target = (v.departed host).cpu.pc) ∧
      ∃ left c s, Block.steps host v.code.plan.start v.code.plan.body v.left v.cpu v.rest = .running left c s ∧
        match v.code.plan.ending with
        | some e => e.GoesTo v.code.plan.fallthrough c (v.departed host).cpu.pc
        | none =>
          v.code.plan.endsAtBarrier = false ∧ (v.departed host).cpu.pc = v.code.plan.fallthrough :=
  Block.exists_exit_of_hop h

/-- What the chain returns that begins with the visit. -/
def returned (host : Host σ) (store : CodeStore Block) (v : Visit σ) : Returned σ :=
  Chain.run (Block.enter host) store v.code v.left v.cpu v.rest

/-- The return of a chain that ends with the visit. -/
def last (host : Host σ) (v : Visit σ) : Returned σ :=
  ⟨(v.departed host).departure.left, (v.departed host).cpu, (v.departed host).rest⟩

end Visit

namespace Chain

variable {cache : Cache Block} {store : CodeStore Block} {v w : Visit σ} {n : Nat}

/-- The visits of a chain, with the number of hops before each. -/
inductive Visits (host : Host σ) (store : CodeStore Block) (v : Visit σ) : Nat → Visit σ → Prop
  | first : Visits host store v 0 v
  | hop {n : Nat} {w : Visit σ} {code : Block} {site : Site} {left : Int32} : Visits host store v n w →
    (w.departed host).departure = .hop site left → store.word? site = some (.block code) →
      Visits host store v (n + 1) ⟨code, left, (w.departed host).cpu, (w.departed host).rest⟩

/-- A chain has one visit after a number of hops. -/
lemma visits_unique {w' : Visit σ} (hw : Visits host store v n w) (hw' : Visits host store v n w') : w = w' := by
  induction hw generalizing w' with
  | first => cases hw'; rfl
  | hop _ hhop hword ih =>
    cases hw' with
    | hop hw' hhop' hword' =>
      obtain rfl := ih hw'
      obtain ⟨rfl, rfl⟩ := Departure.hop.inj (hhop.symm.trans hhop')
      obtain rfl := LinkWord.block.inj (Option.some.inj (hword.symm.trans hword'))
      rfl

/-- A hop from a cached block leads to the cached block for the address that control goes to. -/
lemma cached_of_hop (hs : Sound cache store) {pc : UInt32} {e : Entry Block} (he : cache.get? pc = some e)
    (hcode : e.code = w.code) {site : Site} {left : Int32} {code : Block}
    (hhop : (w.departed host).departure = .hop site left) (hword : store.word? site = some (.block code)) :
    ∃ x e', x ∈ w.code.exits ∧ x.target = (w.departed host).cpu.pc ∧
      cache.get? (w.departed host).cpu.pc = some e' ∧ e'.code = code := by
  obtain ⟨⟨x, hx, rfl, htarget⟩, -⟩ := w.exists_exit_of_hop hhop
  obtain ⟨e', he', hcode'⟩ := hs.word pc e he x (hcode ▸ hx) code hword
  exact ⟨x, e', hx, htarget, htarget ▸ he', hcode'⟩

/-- Every block that a chain visits is a cached one. -/
lemma cached_of_visits (hs : Sound cache store) (hv : ∃ pc e, cache.get? pc = some e ∧ e.code = v.code)
    (hw : Visits host store v n w) : ∃ pc e, cache.get? pc = some e ∧ e.code = w.code := by
  induction hw with
  | first => exact hv
  | hop _ hhop hword ih =>
    obtain ⟨pc, e, he, hcode⟩ := ih
    obtain ⟨-, e', -, -, he', hcode'⟩ := cached_of_hop hs he hcode hhop hword
    exact ⟨_, e', he', hcode'⟩

/-- A chain returns what the chain that begins with any of its visits returns. -/
theorem returned_of_visits (hs : Sound cache store) (hv : ∃ pc e, cache.get? pc = some e ∧ e.code = v.code)
    (hw : Visits host store v n w) : v.returned host store = w.returned host store := by
  induction hw with
  | first => rfl
  | @hop n w code site left hw hhop hword ih =>
    obtain ⟨pc, e, he, hcode⟩ := cached_of_visits hs hv hw
    obtain ⟨-, e', -, -, he', rfl⟩ := cached_of_hop hs he hcode hhop hword
    have hpos : 0 < left := Block.hop_pos hhop
    obtain ⟨hcost, hlt⟩ := hs.cost _ e' he'
    have hfewer := fuel_enter_lt host hpos hcost hlt (w.departed host).cpu (w.departed host).rest
    -- the cycles left at the hop are enough for the blocks that follow the next one
    have hrest := run_ends host hs he' left (w.departed host).cpu (w.departed host).rest
      (Nat.le_sub_one_of_lt hfewer)
    obtain ⟨k, hk⟩ : ∃ k, left.toNatClampNeg = k + 1 :=
      Nat.exists_eq_add_one.mpr (Nat.zero_lt_of_lt hfewer)
    rw [hk, Nat.add_sub_cancel] at hrest
    rw [ih, Visit.returned, run]
    change follow (Block.enter host) store (fuel (w.departed host).departure) (w.departed host) = _
    rw [hhop, fuel, hk, follow, hhop]
    dsimp only
    rw [hword]
    exact hrest

/-- A chain ends with a visit from which it does not hop on. -/
theorem returned_of_last (hs : Sound cache store) (hv : ∃ pc e, cache.get? pc = some e ∧ e.code = v.code)
    (hw : Visits host store v n w)
    (hlast : ∀ site left code, (w.departed host).departure = .hop site left →
      store.word? site ≠ some (.block code)) : v.returned host store = w.last host := by
  rw [returned_of_visits hs hv hw, Visit.returned, run]
  change follow (Block.enter host) store (fuel (w.departed host).departure) (w.departed host) = _
  rw [Visit.last]
  cases hdeparture : (w.departed host).departure with
  | leave left => exact follow_leave hdeparture _
  | hop site left =>
    generalize fuel (.hop site left) = k
    cases k with
    | zero => rw [follow, hdeparture]; rfl
    | succ k =>
      rw [follow, hdeparture]
      dsimp only
      split
      · rename_i code hword
        exact absurd hword (hlast site left code hdeparture)
      · rfl
      · rfl

end Chain

end R3000
