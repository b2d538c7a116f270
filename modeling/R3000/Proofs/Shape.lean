import Mathlib
import R3000.Proofs.Extent

/-!
# The shape of a plan

Planning reads one word after another, and one reading decides the body, the transfer with its delay slot, the
length and the cost together.  Every plan is `WellFormed`, whether or not reserved words have a fallback, also
where the addresses come round and where the cap falls on the transfer.  Planning fails only at its first word,
and `Refuses` says when.
-/

namespace R3000.Plan

variable {source : Source} {fallback : Bool} {cap : Nat} {pc : UInt32} {p : Plan}

/-- Why no instruction of a block can stand at an address. -/
inductive Refuses (source : Source) (fallback : Bool) (pc : UInt32) : TranslateError → Prop
  | unreadable {e : TranslateError} : source pc = .error e → Refuses source fallback pc e
  | reserved {w : UInt32} {i : Instr} : fallback = false → source pc = .ok w → decode w pc = .instr i →
      i.isReserved → Refuses source fallback pc (.unsupportedOpcode pc w)

lemma usable_iff {i : Instr} : usable fallback i ↔ (fallback = false → ¬ i.isReserved) := by
  cases fallback <;> simp [usable]

lemma firstError_eq_some {e : TranslateError} :
    firstError source fallback pc = some e ↔ Refuses source fallback pc e := by
  constructor
  · intro h
    rw [firstError] at h
    split at h
    · rename_i e hw
      obtain rfl := Option.some.inj h
      exact .unreadable hw
    · rename_i w hw
      split at h
      · cases h
      · rename_i i hi
        split at h
        · cases h
        · rename_i husable
          obtain rfl := Option.some.inj h
          rw [usable_iff, Classical.not_imp, not_not] at husable
          exact .reserved husable.1 hw hi husable.2
  · rintro (hw | ⟨hfallback, hw, hi, hreserved⟩)
    · rw [firstError, hw]
    · simp [firstError, hw, hi, usable, hfallback, hreserved]

lemma ofSource_eq_error {cap : UInt32} {e : TranslateError} :
    ofSource source fallback pc cap = .error e ↔ Refuses source fallback pc e := by
  rw [← firstError_eq_some, ofSource]
  cases firstError source fallback pc <;> simp

lemma delaySlot_eq_some {i : Instr} : delaySlot source fallback pc = some i ↔
    ∃ w, source pc = .ok w ∧ decode w pc = .instr i ∧ (fallback = false → ¬ i.isReserved) := by
  rw [delaySlot, ← usable_iff]
  cases source pc with
  | error e => simp
  | ok w => cases hdecode : decode w pc <;> simp [hdecode]; grind

/-! ### What gathering leaves out -/

/-- Instructions and an ending are the readings of all words from an address on, up to one that ends the block, one
that cannot stand in it, or the cap. -/
structure Fills (source : Source) (fallback : Bool) (cap : Nat) (pc : UInt32) (is : List Instr)
    (ending : Option Ending) : Prop extends Reads source cap pc is ending where
  usable : ∀ i ∈ is, Plan.usable fallback i
  barrier : ∀ k i, is[k]? = some i → i.endsBlock → k + 1 = is.length ∧ ending = none
  room : ending.isSome → is.length < cap
  delay : ∀ e, ending = some e → e.delay = delaySlot source fallback (wordPc pc (is.length + 1))
  stops : ending = none →
    is.length = cap ∨ (∃ i ∈ is, i.endsBlock) ∨ ∃ e, Refuses source fallback (wordPc pc is.length) e

namespace Fills

lemma full (source : Source) (fallback : Bool) (pc : UInt32) : Fills source fallback 0 pc [] none where
  toReads := .nil ..
  usable := by simp
  barrier := by simp
  room := by simp
  delay := by simp
  stops _ := .inl rfl

lemma refused {e : TranslateError} (h : Refuses source fallback pc e) : Fills source fallback cap pc [] none where
  toReads := .nil ..
  usable := by simp
  barrier := by simp
  room := by simp
  delay := by simp
  stops _ := .inr (.inr ⟨e, by rwa [List.length_nil, wordPc_zero]⟩)

lemma of_transfer {w : UInt32} {t : Transfer} (hw : source pc = .ok w) (ht : decode w pc = .transfer t) :
    Fills source fallback (cap + 1) pc [] (some ⟨t, delaySlot source fallback (pc + 4)⟩) where
  length_le := Nat.zero_le _
  instr := by simp
  transfer := by
    rintro e he
    obtain rfl := Option.some.inj he
    exact ⟨w, by rwa [List.length_nil, wordPc_zero], by rwa [List.length_nil, wordPc_zero]⟩
  usable := by simp
  barrier := by simp
  room _ := Nat.succ_pos cap
  delay := by
    rintro e he
    obtain rfl := Option.some.inj he
    rw [List.length_nil, wordPc_succ, wordPc_zero]
  stops := by simp

lemma of_barrier {w : UInt32} {i : Instr} (hw : source pc = .ok w) (hi : decode w pc = .instr i)
    (husable : Plan.usable fallback i) (hends : i.endsBlock) : Fills source fallback (cap + 1) pc [i] none where
  toReads := .cons hw hi (.nil ..)
  usable := by simpa using husable
  barrier k j hj _ := by
    obtain ⟨hk, -⟩ := List.getElem?_eq_some_iff.mp hj
    rw [List.length_singleton] at hk ⊢
    exact ⟨by omega, rfl⟩
  room := by simp
  delay := by simp
  stops _ := .inr (.inl ⟨i, by simp, hends⟩)

/-- An instruction that does not end the block goes before what fills the words behind it. -/
lemma cons {w : UInt32} {i : Instr} {is : List Instr} {ending : Option Ending} (hw : source pc = .ok w)
    (hi : decode w pc = .instr i) (husable : Plan.usable fallback i) (hends : ¬ i.endsBlock)
    (h : Fills source fallback cap (pc + 4) is ending) : Fills source fallback (cap + 1) pc (i :: is) ending where
  toReads := .cons hw hi h.toReads
  usable := by
    rintro j hj
    rcases List.mem_cons.mp hj with rfl | hj
    · exact husable
    · exact h.usable j hj
  barrier k j hj hjends := by
    cases k with
    | zero =>
      obtain rfl : i = j := by simpa using hj
      exact absurd hjends hends
    | succ k =>
      obtain ⟨hlast, hnone⟩ := h.barrier k j (by simpa using hj) hjends
      exact ⟨by rw [List.length_cons, hlast], hnone⟩
  room hsome := Nat.succ_lt_succ (h.room hsome)
  delay e he := by
    rw [List.length_cons, wordPc_succ]
    exact h.delay e he
  stops hnone := by
    rcases h.stops hnone with hfull | ⟨j, hj, hjends⟩ | ⟨e, he⟩
    · exact .inl (by rw [List.length_cons, hfull])
    · exact .inr (.inl ⟨j, List.mem_cons_of_mem i hj, hjends⟩)
    · exact .inr (.inr ⟨e, by rwa [List.length_cons, wordPc_succ]⟩)

end Fills

lemma fills_gather (source : Source) (fallback : Bool) (cap : Nat) (pc : UInt32) (taken : List Instr) :
    ∃ is, (gather source fallback cap pc taken).body = taken.reverse ++ is ∧
      Fills source fallback cap pc is (gather source fallback cap pc taken).ending := by
  fun_induction gather source fallback cap pc taken with
  | case1 => exact ⟨[], by simp, .full ..⟩
  | case2 cap pc taken e hw => exact ⟨[], by simp, .refused (.unreadable hw)⟩
  | case3 cap pc taken w hw t ht => exact ⟨[], by simp, .of_transfer hw ht⟩
  | case4 cap pc taken w hw i hi husable hends => exact ⟨[i], by simp, .of_barrier hw hi husable hends⟩
  | case5 cap pc taken w hw i hi husable hends ih =>
    obtain ⟨is, his, hfills⟩ := ih
    exact ⟨i :: is, by rw [his]; simp, .cons hw hi husable hends hfills⟩
  | case6 cap pc taken w hw i hi husable =>
    rw [usable_iff, Classical.not_imp, not_not] at husable
    exact ⟨[], by simp, .refused (.reserved husable.1 hw hi husable.2)⟩

variable {cap : UInt32}

lemma fills_ofSource (h : ofSource source fallback pc cap = .ok p) :
    Fills source fallback (max cap.toNat 1) pc p.body p.ending := by
  obtain ⟨-, -, hgather⟩ := ofSource_eq_gather.mp h
  obtain ⟨is, his, hfills⟩ := fills_gather source fallback (max cap.toNat 1) pc []
  rw [← hgather] at his hfills
  obtain rfl : p.body = is := his
  exact hfills

/-- An address at which a block can start gives it at least one word. -/
lemma one_le_length (h : ofSource source fallback pc cap = .ok p) : 1 ≤ p.length := by
  by_contra hzero
  rw [length] at hzero
  have hbody : p.body = [] := List.length_eq_zero_iff.mp (by omega)
  have hending : p.ending = none := by
    by_contra hsome
    rw [← Option.ne_none_iff_isSome.mp hsome] at hzero
    simp at hzero
  obtain ⟨hfirst, -, -⟩ := ofSource_eq_gather.mp h
  rcases (fills_ofSource h).stops hending with hcap | ⟨i, hi, -⟩ | ⟨e, he⟩
  · rw [hbody, List.length_nil] at hcap
    omega
  · rw [hbody] at hi
    exact List.not_mem_nil hi
  · rw [hbody, List.length_nil, wordPc_zero, ← firstError_eq_some, hfirst] at he
    cases he

/-! ### Costs -/

/-- The cycles of the instructions of a plan, with one for a delay slot without an instruction. -/
def total (p : Plan) : Nat :=
  (p.body.map Instr.cost).sum + p.ending.elim 0 fun e => 1 + e.delay.elim 1 Instr.cost

lemma cost_eq_total (p : Plan) : p.cost = p.total := by
  have hbody : ∀ is : List Instr, Instr.costs is = (is.map Instr.cost).sum := by
    intro is
    induction is with
    | nil => rfl
    | cons i is ih => rw [Instr.costs_cons, ih, List.map_cons, List.sum_cons]
  have hending : (p.ending.map endingCost).getD 0 = p.ending.elim 0 fun e => 1 + e.delay.elim 1 Instr.cost := by
    cases p.ending with
    | none => rfl
    | some e => cases hdelay : e.delay <;> simp [endingCost, delayCost, hdelay]
  rw [cost, total, hbody, hending]

lemma length_le_total (p : Plan) : p.length ≤ p.total := by
  have hbody : p.body.length ≤ (p.body.map Instr.cost).sum := by
    have hsum := List.length_le_sum_of_one_le (p.body.map Instr.cost) (by simpa using fun i _ => i.cost_pos)
    rwa [List.length_map] at hsum
  rw [length, total]
  cases p.ending with
  | none => simpa using hbody
  | some e =>
    have hdelay : 1 ≤ e.delay.elim 1 Instr.cost := by
      cases e.delay with
      | none => exact Nat.le_refl 1
      | some i => exact i.cost_pos
    simp only [Option.isSome_some, if_true, Option.elim_some]
    omega

/-! ### Whole plans -/

/-- A plan holds the words from an address on, up to one that ends the block, and its measures agree with them. -/
structure WellFormed (source : Source) (fallback : Bool) (pc cap : UInt32) (p : Plan) : Prop where
  start : p.start = pc
  body : ∀ k i, p.body[k]? = some i → ∃ w, source (wordPc pc k) = .ok w ∧ decode w (wordPc pc k) = .instr i
  /-- Only the last instruction can end the block, and then no transfer follows it. -/
  barrier : ∀ k i, p.body[k]? = some i → i.endsBlock → k + 1 = p.body.length ∧ p.ending = none
  transfer : ∀ e, p.ending = some e → ∃ w,
    source (wordPc pc p.body.length) = .ok w ∧ decode w (wordPc pc p.body.length) = .transfer e.transfer
  delay : ∀ e, p.ending = some e → ∀ i, e.delay = some i ↔ ∃ w,
    source (wordPc pc (p.body.length + 1)) = .ok w ∧ decode w (wordPc pc (p.body.length + 1)) = .instr i ∧
      (fallback = false → ¬ i.isReserved)
  usable : fallback = false → ∀ i ∈ p.body, ¬ i.isReserved
  /-- Without a transfer the block is full, ended by its last instruction, or followed by a word that cannot stand
  in it. -/
  stops : p.ending = none → p.body.length = max cap.toNat 1 ∨ (∃ i ∈ p.body, i.endsBlock) ∨
    ∃ e, Refuses source fallback (wordPc pc p.body.length) e
  sourceLen : p.sourceLen.toNat = p.body.length + if p.ending.isSome then 2 else 0
  sourceLen_pos : 1 ≤ p.sourceLen.toNat
  sourceLen_le : p.sourceLen.toNat ≤ max cap.toNat 1 + 1
  /-- Control falls to the word after the last one of the block. -/
  fallthrough : p.fallthrough = wordPc pc p.body.length + (if p.ending.isSome then 8 else 0) ∧
    p.fallthrough = wordPc pc p.sourceLen.toNat
  cycles : p.total < 2 ^ 32 → p.cycles.toNat = p.total ∧ p.sourceLen ≤ p.cycles

lemma wordPc_length (p : Plan) :
    wordPc p.start p.length = wordPc p.start p.body.length + if p.ending.isSome then 8 else 0 := by
  have hlen : ∀ n : Nat, (n + 2).toUInt32 = n.toUInt32 + 2 := fun n => UInt32.ofNat_add n 2
  rw [length, wordPc, wordPc]
  split
  · rw [hlen]
    grind
  · simp

/-- Every plan is well formed, and planning fails exactly where the first word refuses to start a block: it cannot
be read, or it is reserved and there is no fallback. -/
theorem ofSource_wellFormed (source : Source) (fallback : Bool) (pc cap : UInt32) :
    (∀ p, ofSource source fallback pc cap = .ok p → WellFormed source fallback pc cap p) ∧
    ∀ e, ofSource source fallback pc cap = .error e ↔ Refuses source fallback pc e := by
  refine ⟨fun p h => ?_, fun e => ofSource_eq_error⟩
  obtain ⟨-, hstart, -⟩ := ofSource_eq_gather.mp h
  have hfills := fills_ofSource h
  have hlen := toNat_sourceLen h
  have hfallthrough : p.fallthrough = wordPc pc p.length := by
    rw [fallthrough_eq h, hstart, sourceLen, wordPc]
  have hwords := wordPc_length p
  rw [hstart] at hwords
  refine ⟨hstart, hfills.instr, hfills.barrier, hfills.transfer, fun e he i => ?_, fun hfallback i hi => ?_,
    hfills.stops, hlen, ?_, ?_, ⟨hfallthrough.trans hwords, ?_⟩, fun hfits => ?_⟩
  · rw [hfills.delay e he, delaySlot_eq_some]
  · exact usable_iff.mp (hfills.usable i hi) hfallback
  · rw [hlen]
    exact one_le_length h
  · rw [hlen, length]
    split
    · rename_i hsome
      have hroom := hfills.room hsome
      omega
    · have hbody := hfills.length_le
      omega
  · rw [hfallthrough, hlen]
  · have hcycles : p.cycles.toNat = p.total := by
      rw [Plan.cycles, cost_eq_total]
      exact UInt32.toNat_ofNat_of_lt' hfits
    refine ⟨hcycles, ?_⟩
    rw [UInt32.le_iff_toNat_le, hlen, hcycles]
    exact length_le_total p

/-- A block over the end of the addresses whose cap falls on its transfer, with a reserved word in the delay slot. -/
theorem ofSource_wellFormed_slot :
    let source : Source := fun a =>
      if a = 0xFFFFFFFC then .ok 0x24420001 else if a = 0 then .ok 0x1000FFFE
      else if a = 4 then .ok 0x3F else .error (.memoryRead a)
    ∃ p, ofSource source false 0xFFFFFFFC 2 = .ok p ∧ WellFormed source false 0xFFFFFFFC 2 p ∧
      p.sourceLen = 3 ∧ p.fallthrough = 8 ∧ p.total = 3 ∧ (∃ e, p.ending = some e ∧ e.delay = none) ∧
      ofSource source false 4 2 = .error (.unsupportedOpcode 4 0x3F) := by
  intro source
  obtain ⟨p, hplan, hlen, hnext, htotal, hdelay⟩ : ∃ p, ofSource source false 0xFFFFFFFC 2 = .ok p ∧
      p.sourceLen = 3 ∧ p.fallthrough = 8 ∧ p.total = 3 ∧ ∃ e, p.ending = some e ∧ e.delay = none :=
    ⟨_, rfl, rfl, by decide, rfl, _, rfl, rfl⟩
  refine ⟨p, hplan, (ofSource_wellFormed source false 0xFFFFFFFC 2).1 p hplan, hlen, hnext, htotal, hdelay,
    ((ofSource_wellFormed source false 4 2).2 _).mpr ?_⟩
  exact .reserved (i := .reserved 0x3F) rfl rfl rfl rfl

end R3000.Plan
