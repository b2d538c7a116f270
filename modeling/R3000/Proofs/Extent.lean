import Mathlib
import R3000.Proofs.Planning

/-!
# The range of a plan

The words that a plan reports are those that it was made from.  Which other addresses hold words matters, since
planning ends where a word is missing, but what they hold does not.
-/

namespace R3000.Plan

variable {source source' : Source} {fallback : Bool} {cap : Nat} {pc : UInt32} {taken : List Instr} {p : Plan}

/-! ### What gathering reads -/

/-- Instructions and an ending are the readings of the words from an address on. -/
structure Reads (source : Source) (cap : Nat) (pc : UInt32) (is : List Instr) (ending : Option Ending) : Prop where
  length_le : is.length ≤ cap
  instr : ∀ k i, is[k]? = some i → ∃ w, source (wordPc pc k) = .ok w ∧ decode w (wordPc pc k) = .instr i
  transfer : ∀ e, ending = some e →
    ∃ w, source (wordPc pc is.length) = .ok w ∧ decode w (wordPc pc is.length) = .transfer e.transfer

namespace Reads

lemma nil (source : Source) (cap : Nat) (pc : UInt32) : Reads source cap pc [] none where
  length_le := Nat.zero_le cap
  instr := by simp
  transfer := by simp

lemma cons {w : UInt32} {i : Instr} {is : List Instr} {ending : Option Ending} (hw : source pc = .ok w)
    (hi : decode w pc = .instr i) (h : Reads source cap (pc + 4) is ending) :
    Reads source (cap + 1) pc (i :: is) ending where
  length_le := Nat.succ_le_succ h.length_le
  instr k j hj := by
    cases k with
    | zero =>
      obtain rfl : i = j := by simpa using hj
      exact ⟨w, by rwa [wordPc_zero], by rwa [wordPc_zero]⟩
    | succ k =>
      rw [wordPc_succ]
      exact h.instr k j (by simpa using hj)
  transfer e he := by
    rw [List.length_cons, wordPc_succ]
    exact h.transfer e he

end Reads

lemma reads_gather (source : Source) (fallback : Bool) (cap : Nat) (pc : UInt32) (taken : List Instr) :
    ∃ is, (gather source fallback cap pc taken).body = taken.reverse ++ is ∧
      Reads source cap pc is (gather source fallback cap pc taken).ending := by
  fun_induction gather source fallback cap pc taken with
  | case1 => exact ⟨[], by simp, .nil ..⟩
  | case2 => exact ⟨[], by simp, .nil ..⟩
  | case3 cap pc taken w hw t ht =>
    refine ⟨[], by simp, Nat.zero_le _, by simp, ?_⟩
    rintro e he
    obtain rfl := Option.some.inj he
    exact ⟨w, by rwa [List.length_nil, wordPc_zero], by rwa [List.length_nil, wordPc_zero]⟩
  | case4 cap pc taken w hw i hi husable hends => exact ⟨[i], by simp, .cons hw hi (.nil ..)⟩
  | case5 cap pc taken w hw i hi husable hends ih =>
    obtain ⟨is, his, hreads⟩ := ih
    exact ⟨i :: is, by rw [his]; simp, .cons hw hi hreads⟩
  | case6 => exact ⟨[], by simp, .nil ..⟩

/-- Where the addresses come round the body would meet its own transfer as an instruction. -/
lemma Reads.length_lt {is : List Instr} {e : Ending} (h : Reads source cap pc is (some e)) :
    is.length < 2 ^ 30 := by
  by_contra hge
  obtain ⟨k, hk⟩ : ∃ k, is.length = k + 2 ^ 30 := ⟨is.length - 2 ^ 30, by omega⟩
  have hround : wordPc pc is.length = wordPc pc k := by
    apply UInt32.toNat_inj.mp
    simp only [wordPc, UInt32.toNat_add, UInt32.toNat_mul]
    simp
    omega
  obtain ⟨w, hw, ht⟩ := h.transfer e rfl
  obtain ⟨w', hw', hi⟩ := h.instr k is[k] (List.getElem?_eq_getElem _)
  rw [hround] at hw ht
  obtain rfl : w = w' := Except.ok.inj (hw.symm.trans hw')
  rw [ht] at hi
  cases hi

/-! ### The reported range -/

variable {cap : UInt32}

lemma reads_ofSource (h : ofSource source fallback pc cap = .ok p) :
    Reads source (max cap.toNat 1) pc p.body p.ending := by
  obtain ⟨-, -, hgather⟩ := ofSource_eq_gather.mp h
  obtain ⟨is, his, hreads⟩ := reads_gather source fallback (max cap.toNat 1) pc []
  rw [← hgather] at his hreads
  obtain rfl : p.body = is := his
  exact hreads

lemma toNat_sourceLen (h : ofSource source fallback pc cap = .ok p) : p.sourceLen.toNat = p.length := by
  have hreads := reads_ofSource h
  have hcap := cap.toNat_lt
  have hbody := hreads.length_le
  refine UInt32.toNat_ofNat_of_lt' ?_
  rw [length, UInt32.size]
  cases hending : p.ending with
  | none => simp only [Option.isSome_none, Bool.false_eq_true, if_false]; omega
  | some e =>
    rw [hending] at hreads
    have hshort := hreads.length_lt
    simp only [Option.isSome_some, if_true]
    omega

/-- The address of a word in the range that a plan reports. -/
def Covers (p : Plan) (addr : UInt32) : Prop := ∃ k < p.sourceLen.toNat, addr = wordPc p.start k

/-- A plan starts where it was asked for, and a source with words at the same addresses, and the same words in the
reported range, gives the plan again.  A word whose change changes the plan lies in that range. -/
theorem ofSource_local (h : ofSource source true pc cap = .ok p) : p.start = pc ∧
    (∀ source' : Source, (∀ a, (source'.word? a).isSome = (source.word? a).isSome) →
      (∀ a, p.Covers a → source'.word? a = source.word? a) → ofSource source' true pc cap = .ok p) ∧
    ∀ a w, (source.word? a).isSome → ofSource (Function.update source a (.ok w)) true pc cap ≠ .ok p →
      p.Covers a := by
  obtain ⟨-, hstart, -⟩ := ofSource_eq_ok.mp h
  have hlen := toNat_sourceLen h
  have hlocal : ∀ source' : Source, (∀ a, (source'.word? a).isSome = (source.word? a).isSome) →
      (∀ a, p.Covers a → source'.word? a = source.word? a) → ofSource source' true pc cap = .ok p := by
    intro source' hread hwords
    refine ofSource_congr h hread fun k hk => hwords _ ⟨k, by rwa [hlen], by rw [hstart]⟩
  refine ⟨hstart, hlocal, fun a w ha hne => ?_⟩
  by_contra hout
  have hother : ∀ b, b ≠ a → Source.word? (Function.update source a (.ok w)) b = source.word? b := by
    intro b hba
    rw [Source.word?, Function.update_of_ne hba, Source.word?]
  refine hne (hlocal _ (fun b => ?_) fun b hb => hother b ?_)
  · by_cases hba : b = a
    · subst hba
      rw [ha, Source.word?_of_ok (Function.update_self ..)]
      rfl
    · rw [hother b hba]
  · rintro rfl
    exact hout hb

/-- A loop over three words, in sources that agree on those alone. -/
theorem ofSource_local_loop :
    let source (w : UInt32) : Source := fun a =>
      if a = 0x1000 then .ok 0x24420001 else if a = 0x1004 then .ok 0x1000FFFE
      else if a = 0x1008 then .ok 0 else .ok w
    ∃ p, ofSource (source 0) true 0x1000 64 = .ok p ∧ p.sourceLen = 3 ∧
      ofSource (source 0xD) true 0x1000 64 = .ok p := by
  intro source
  obtain ⟨p, hp, hlen⟩ : ∃ p, ofSource (source 0) true 0x1000 64 = .ok p ∧ p.sourceLen = 3 := ⟨_, rfl, rfl⟩
  obtain ⟨hstart, hlocal, -⟩ := ofSource_local hp
  refine ⟨p, hp, hlen, hlocal (source 0xD) (fun a => ?_) ?_⟩
  · simp only [source, Source.word?]
    split_ifs <;> rfl
  · rintro a ⟨k, hk, rfl⟩
    have hk : k < 3 := by rwa [hlen] at hk
    rw [hstart]
    interval_cases k <;> rfl

end R3000.Plan
