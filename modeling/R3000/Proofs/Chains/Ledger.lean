import Mathlib
import R3000.Proofs.Chains.Visits

/-!
# The ledger of a chain

A block that no instruction stops charges what it costs, whichever way it is left.  One that an instruction stops
charges the instructions up to that one.  So a chain charges the costs of the blocks that it completed and, if an
instruction stopped the last one, those of its instructions so far; and no count of cycles overflows on the way.
-/

namespace R3000

variable {σ : Type} {host : Host σ}

/-! ### A block -/

namespace Block

variable {b : Block} {budget left : Int32} {c : Cpu} {s : σ}

lemma stop_of_departed {pc : UInt32} {i : Instr} {d : Departed σ} (h : step host pc i left c s = .departed d) :
    (i.exec host pc c s).stop = true := by
  dsimp only [step] at h
  split at h
  · assumption
  · cases h

/-- Instructions that leave a block come to one that stops it. -/
lemma exists_stop_of_departed {pc : UInt32} {is : List Instr} {d : Departed σ}
    (h : steps host pc is left c s = .departed d) : ∃ before i after left' c' s', is = before ++ i :: after ∧
      steps host pc before left c s = .running left' c' s' ∧
        (i.exec host (Plan.wordPc pc before.length) c' s').stop = true := by
  induction is generalizing pc left c s with
  | nil => simp [steps] at h
  | cons i is ih =>
    rw [steps] at h
    cases hstep : step host pc i left c s with
    | running left' c' s' =>
      rw [hstep] at h
      obtain ⟨before, j, after, left'', c'', s'', rfl, hrun, hstop⟩ := ih h
      refine ⟨i :: before, j, after, left'', c'', s'', rfl, ?_, ?_⟩
      · rw [steps, hstep]
        exact hrun
      · rw [List.length_cons, Plan.wordPc_succ]
        exact hstop
    | departed d' =>
      refine ⟨[], i, is, left, c, s, rfl, rfl, ?_⟩
      rw [List.length_nil, Plan.wordPc_zero]
      exact stop_of_departed hstep

/-- No instruction that a block comes to stops it. -/
def Completes (host : Host σ) (b : Block) (budget : Int32) (c : Cpu) (s : σ) : Prop :=
  ∀ p, b.Comes host budget c s p → (p.exec host).stop = false

namespace Completes

variable (h : Completes host b budget c s)

include h

lemma exists_steps : ∃ c' s', steps host b.plan.start b.plan.body budget c s =
    .running (spend budget (Instr.costs b.plan.body)) c' s' := by
  have hspent := steps_spent host b.plan.start b.plan.body budget c s
  cases hsteps : steps host b.plan.start b.plan.body budget c s with
  | running left' c' s' =>
    rw [hsteps] at hspent
    cases hspent
    exact ⟨c', s', rfl⟩
  | departed d =>
    obtain ⟨before, i, after, left', c', s', hbody, hrun, hstop⟩ := exists_stop_of_departed hsteps
    exact absurd hstop (ne_true_of_eq_false (h _ (.body hbody hrun)))

lemma exists_delay {e : Ending} (hending : b.plan.ending = some e) {left : Int32} {c' : Cpu} {s' : σ}
    (hsteps : steps host b.plan.start b.plan.body budget c s = .running left c' s') (left' : Int32) :
    ∃ c'' s'', delay host (b.plan.endingPc + 4) e.delay left' (e.transfer.linked b.plan.endingPc c') s' =
      .running (spend left' (Plan.delayCost e.delay)) c'' s'' := by
  cases hslot : e.delay with
  | none => exact ⟨_, _, rfl⟩
  | some i =>
    have hgo := h _ (.slot hending hslot hsteps)
    rw [delay, step]
    exact ⟨_, _, if_neg (ne_true_of_eq_false hgo)⟩

end Completes

/-- A block that no instruction stops charges what it costs: past its body, past its transfer whether it is taken or
not, and past a delay slot without an instruction. -/
theorem left_of_completes (h : Completes host b budget c s) :
    (enter host b budget c s).departure.left = spend budget b.plan.cost := by
  obtain ⟨c', s', hsteps⟩ := h.exists_steps
  rw [enter_eq, interpret, hsteps, Plan.cost]
  cases hending : b.plan.ending with
  | none =>
    dsimp only
    split
    · rfl
    · exact (after_directExit ..).left
  | some e =>
    obtain ⟨c'', s'', hdelay⟩ := h.exists_delay hending hsteps (spend (spend budget (Instr.costs b.plan.body)) 1)
    dsimp only
    rw [finish_eq, hdelay, Progress.leaveBy, (after_go ..).left, spend_spend, spend_spend]
    rfl

/-- A block that no instruction stops raised no exception. -/
lemma blockAborted_of_completes (hsteady : host.Steady) (h : Completes host b budget c s) (hin : c.inBlock ≠ 0)
    (habort : c.blockAborted = 0) : (enter host b budget c s).cpu.blockAborted = 0 := by
  obtain ⟨c', s', hsteps⟩ := h.exists_steps
  have hcharged := steps_charged hsteady b.plan.start b.plan.body budget hin habort s
  rw [hsteps] at hcharged
  obtain ⟨hblock, habort', -⟩ := hcharged
  rw [enter_eq, interpret, hsteps]
  cases hending : b.plan.ending with
  | none =>
    dsimp only
    split
    · exact habort'
    · exact (after_directExit ..).blockAborted.trans habort'
  | some e =>
    obtain ⟨c'', s'', hdelay⟩ := h.exists_delay hending hsteps (spend (spend budget (Instr.costs b.plan.body)) 1)
    have hslot := delay_charged hsteady (b.plan.endingPc + 4) e.delay (c := e.transfer.linked b.plan.endingPc c')
      (spend (spend budget (Instr.costs b.plan.body)) 1) (by simpa [hblock]) (by simpa) s'
    rw [hdelay] at hslot
    dsimp only
    rw [finish_eq, hdelay, Progress.leaveBy, (after_go ..).blockAborted]
    exact hslot.2.1

/-- A block that an instruction stops raised an exception. -/
lemma blockAborted_of_stop (hsteady : host.Steady) {p : Point σ} (hp : b.Comes host budget c s p)
    (hstop : (p.exec host).stop = true) (hin : c.inBlock ≠ 0) (habort : c.blockAborted = 0) :
    (enter host b budget c s).cpu.blockAborted ≠ 0 := by
  have hin' : p.cpu.inBlock ≠ 0 := inBlock_of_comes hsteady hp ▸ hin
  have habort' := blockAborted_of_comes hsteady hin habort hp
  rw [enter_of_comes hp hstop]
  exact (p.instr.exec_stop hsteady.toOrderly p.pc hin' habort' p.rest).mp hstop

end Block

/-! ### A visit -/

/-- How the block of a visit ends: no instruction stops it, or one does. -/
inductive Visit.Ends (host : Host σ) (v : Visit σ) : Option (Point σ) → Prop
  | completed : v.code.Completes host v.left v.cpu v.rest → v.Ends host none
  | stopped {p : Point σ} : v.Comes host p → (p.exec host).stop = true → v.Ends host (some p)

/-- The cycles of a block: all that its entry says, or those up to the instruction that stopped it. -/
def Entry.charged (e : Entry Block) : Option (Point σ) → Nat
  | none => e.cycles.toNat
  | some p => p.charged

/-- The cycles of blocks that were completed, as their entries say. -/
def Entry.total (done : List (Entry Block)) : Nat := (done.map (·.cycles.toNat)).sum

lemma Entry.total_concat (done : List (Entry Block)) (e : Entry Block) :
    total (done ++ [e]) = total done + e.cycles.toNat := by
  simp [total]

/-- The counts of a visit are exact in words with a sign: the cycles that it begins with are what the blocks before
left of the budget, and are some; and however many of its own have been charged, neither they nor what is left
overflow. -/
structure Visit.Counts (budget : Int32) (before whole : Nat) (v : Visit σ) : Prop where
  left : v.left.toInt = budget.toInt - before
  pos : 0 < v.left.toInt
  cost : v.code.plan.cost = whole
  spent : ∀ k ≤ whole, (Int32.ofNat k).toInt = k ∧ (spend v.left k).toInt = v.left.toInt - k

namespace Visit

variable {v : Visit σ} {e : Entry Block} {stop : Option (Point σ)}

lemma exists_ends (host : Host σ) (v : Visit σ) : ∃ stop, v.Ends host stop := by
  by_cases h : v.code.Completes host v.left v.cpu v.rest
  · exact ⟨none, .completed h⟩
  · simp only [Block.Completes, not_forall, Bool.not_eq_false] at h
    obtain ⟨p, hp, hstop⟩ := h
    exact ⟨some p, .stopped hp hstop⟩

/-- A block that hops was completed. -/
lemma ends_of_hop {site : Site} {left : Int32} (hhop : (v.departed host).departure = .hop site left) :
    v.Ends host none := by
  refine .completed fun p hp => eq_false_of_ne_true fun hstop => ?_
  rw [departed, Block.enter_of_comes hp hstop] at hhop
  cases hhop

/-- A visit is charged at least one cycle, and no more than its block costs. -/
lemma Ends.left (h : v.Ends host stop) (hcost : e.cycles.toNat = v.code.plan.cost) (hpos : 0 < v.code.plan.cost) :
    (v.departed host).departure.left = spend v.left (e.charged stop) ∧ 1 ≤ e.charged stop ∧
      e.charged stop ≤ e.cycles.toNat := by
  cases h with
  | completed h =>
    rw [Entry.charged, hcost]
    exact ⟨Block.left_of_completes h, hpos, le_rfl⟩
  | @stopped p hp hstop =>
    rw [Entry.charged, hcost, departed, Block.enter_of_comes hp hstop]
    exact ⟨rfl, Nat.add_pos_right p.spent p.instr.cost_pos, Block.charged_le_of_comes hp⟩

lemma Ends.blockAborted (hsteady : host.Steady) (h : v.Ends host stop) (hin : v.cpu.inBlock ≠ 0)
    (habort : v.cpu.blockAborted = 0) : (v.departed host).cpu.blockAborted = 0 ↔ stop = none := by
  cases h with
  | completed h => exact iff_of_true (Block.blockAborted_of_completes hsteady h hin habort) rfl
  | stopped hp hstop => exact iff_of_false (Block.blockAborted_of_stop hsteady hp hstop hin habort) (by simp)

end Visit

/-! ### A chain -/

namespace Chain

variable {cache : Cache Block} {store : CodeStore Block} {e last : Entry Block} {v w : Visit σ}
  {done : List (Entry Block)} {pc : UInt32}

/-- The visits that a chain comes to from the visit of an entry: the entries of the blocks that it completed before,
in order, and the entry of the block visited, which the cache has for the address that control goes to. -/
inductive Ledger (host : Host σ) (cache : Cache Block) (store : CodeStore Block) (e : Entry Block) (v : Visit σ) :
    List (Entry Block) → Entry Block → Visit σ → Prop
  | first : Ledger host cache store e v [] e v
  | hop {done : List (Entry Block)} {last next : Entry Block} {w : Visit σ} {site : Site} {left : Int32} :
    Ledger host cache store e v done last w → w.Ends host none →
      (w.departed host).departure = .hop site left → store.word? site = some (.block next.code) →
        cache.get? (w.departed host).cpu.pc = some next → Ledger host cache store e v (done ++ [last]) next
          ⟨next.code, left, (w.departed host).cpu, (w.departed host).rest⟩

namespace Ledger

lemma visits (h : Ledger host cache store e v done last w) : Visits host store v done.length w := by
  induction h with
  | first => exact .first
  | hop _ _ hhop hword _ ih =>
    rw [List.length_append]
    exact ih.hop hhop hword

lemma cached (he : cache.get? pc = some e) (hcode : e.code = v.code) (h : Ledger host cache store e v done last w) :
    ∃ pc, cache.get? pc = some last ∧ last.code = w.code := by
  cases h with
  | first => exact ⟨pc, he, hcode⟩
  | hop _ _ _ _ hnext => exact ⟨_, hnext, rfl⟩

end Ledger

/-- Every visit of a chain is one that it comes to by way of cached entries. -/
lemma exists_ledger (hs : Sound cache store) (he : cache.get? pc = some e) (hcode : e.code = v.code) {n : Nat}
    (h : Visits host store v n w) :
    ∃ done last, Ledger host cache store e v done last w ∧ done.length = n := by
  induction h with
  | first => exact ⟨[], e, .first, rfl⟩
  | hop _ hhop hword ih =>
    obtain ⟨done, last, hledger, rfl⟩ := ih
    obtain ⟨a, ha, hsame⟩ := hledger.cached he hcode
    obtain ⟨-, next, -, -, hnext, rfl⟩ := cached_of_hop hs ha hsame hhop hword
    exact ⟨done ++ [last], next, hledger.hop (Visit.ends_of_hop hhop) hhop hword hnext, by simp⟩

/-- A cache whose entries say what their blocks cost. -/
def Priced (cache : Cache Block) : Prop := ∀ pc e, cache.get? pc = some e → e.cycles.toNat = e.code.plan.cost

section Ledger

variable (hs : Sound cache store) (hprice : Priced cache) (he : cache.get? pc = some e) (hcode : e.code = v.code)
  (hpos : 0 < v.left.toInt)

include hs hprice

/-- The counts of a visit are exact if it begins with what is left of the budget. -/
lemma counts_of_left {a : UInt32} (hlast : cache.get? a = some last) (hsame : last.code = w.code) {budget : Int32}
    {before : Nat} (hleft : w.left.toInt = budget.toInt - before) (hpos : 0 < w.left.toInt) :
    w.Counts budget before last.cycles.toNat := by
  have hlt := (hs.cost a last hlast).2
  have hcost := hprice a last hlast
  refine ⟨hleft, hpos, hsame ▸ hcost.symm, fun k hk => ⟨?_, ?_⟩⟩
  · exact Int32.toInt_ofNat_of_lt (by omega)
  · exact toInt_spend hpos.le (by omega)

include he hcode

lemma length_le_total (h : Ledger host cache store e v done last w) : done.length ≤ Entry.total done := by
  induction h with
  | first => exact Nat.zero_le _
  | @hop done last next w site left hledger _ hhop hword hnext ih =>
    obtain ⟨a, ha, -⟩ := hledger.cached he hcode
    have hcost := (hs.cost a last ha).1
    rw [← hprice a last ha] at hcost
    rw [Entry.total_concat, List.length_append, List.length_singleton]
    omega

include hpos

/-- What one hop keeps, a chain keeps: its visits begin with what the blocks before them left of the budget. -/
theorem Ledger.counts (h : Ledger host cache store e v done last w) :
    w.Counts v.left (Entry.total done) last.cycles.toNat := by
  induction h with
  | first => exact counts_of_left hs hprice he hcode (by simp [Entry.total]) hpos
  | @hop done last next w site left hledger _ hhop hword hnext ih =>
    obtain ⟨a, ha, hsame⟩ := hledger.cached he hcode
    obtain ⟨hleft, hpos', -⟩ := exists_of_hop hs ⟨a, last, ha, hsame⟩ hhop hword
    have hspent := (ih.spent _ le_rfl).2
    rw [← ih.cost, ← hleft, ih.left] at hspent
    refine counts_of_left hs hprice hnext rfl ?_ (Int32.lt_iff_toInt_lt.mp hpos')
    rw [Entry.total_concat, hspent, ih.cost]
    omega

/-- A chain has a last visit: every block before it took some of the cycles. -/
theorem exists_last (host : Host σ) : ∃ done last w, Ledger host cache store e v done last w ∧
    ∀ u, ¬ Visits host store v (done.length + 1) u := by
  by_contra hnone
  push Not at hnone
  have hall : ∀ n, ∃ done last w, Ledger host cache store e v done last w ∧ done.length = n := by
    intro n
    induction n with
    | zero => exact ⟨[], e, v, .first, rfl⟩
    | succ n ih =>
      obtain ⟨done, last, w, hledger, rfl⟩ := ih
      obtain ⟨u, hu⟩ := hnone done last w hledger
      obtain ⟨done', last', hledger', hlength⟩ := exists_ledger hs he hcode hu
      exact ⟨done', last', u, hledger', hlength⟩
  obtain ⟨done, last, w, hledger, hlength⟩ := hall v.left.toInt.toNat
  have hcounts := hledger.counts hs hprice he hcode hpos
  have hle := length_le_total hs hprice he hcode hledger
  have hleft := hcounts.left
  have hsome := hcounts.pos
  omega

/-- What a chain returns is what its last visit leaves, and of the budget it has charged the blocks before and the
cycles of the last one. -/
theorem returned_charged (h : Ledger host cache store e v done last w)
    (hlast : ∀ u, ¬ Visits host store v (done.length + 1) u) {stop : Option (Point σ)} (hstop : w.Ends host stop) :
    v.returned host store = w.last host ∧
      (w.last host).left.toInt = v.left.toInt - (Entry.total done + last.charged stop : Nat) ∧
        1 ≤ last.charged stop ∧ Entry.total done + last.charged stop < v.left.toInt + last.cycles.toNat := by
  obtain ⟨a, ha, hsame⟩ := h.cached he hcode
  have hcounts := h.counts hs hprice he hcode hpos
  have hcost : 0 < w.code.plan.cost := hsame ▸ (hs.cost a last ha).1
  obtain ⟨hleft, hone, hle⟩ := hstop.left hcounts.cost.symm hcost
  have hexact := (hcounts.spent _ hle).2
  rw [← hleft, hcounts.left] at hexact
  have hbegan := hcounts.left
  have hsome := hcounts.pos
  refine ⟨?_, ?_, hone, by omega⟩
  · exact returned_of_last hs ⟨pc, e, he, hcode⟩ h.visits
      fun site left code hhop hword => hlast _ (h.visits.hop hhop hword)
  · rw [Visit.last, hexact]
    omega

end Ledger

/-- Every visit of a chain begins without an exception. -/
lemma Visits.quiet (hsteady : host.Steady) (hs : Sound cache store)
    (hv : ∃ pc e, cache.get? pc = some e ∧ e.code = v.code) (hin : v.cpu.inBlock ≠ 0)
    (habort : v.cpu.blockAborted = 0) {n : Nat} (h : Visits host store v n w) :
    w.cpu.inBlock ≠ 0 ∧ w.cpu.blockAborted = 0 := by
  induction h with
  | first => exact ⟨hin, habort⟩
  | @hop n w code site left hw hhop hword ih =>
    obtain ⟨hin', habort'⟩ := ih
    obtain ⟨a, b, hb, hsame⟩ := cached_of_visits hs hv hw
    refine ⟨?_, Block.blockAborted_of_hop hsteady (hsame ▸ hs.linkable a b hb) hin' habort' hhop⟩
    rw [Visit.departed, Block.enter_inBlock hsteady]
    exact hin'

end Chain

end R3000
