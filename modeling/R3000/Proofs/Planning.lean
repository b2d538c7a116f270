import Mathlib
import R3000.Block.Plan

/-!
# Planning reads the words it covers

With a fallback for reserved words the plan at an address depends on the words that it covers, and on which
addresses hold words at all.  Every covered word but the last can be read; the last may be a delay slot that
cannot.
-/

namespace R3000

/-! ### Words of a source -/

namespace Source

variable {source : Source} {addr w : UInt32}

lemma word?_of_ok (h : source addr = .ok w) : source.word? addr = some w := by
  rw [word?, h]
  rfl

lemma word?_of_error {e : TranslateError} (h : source addr = .error e) : source.word? addr = none := by
  rw [word?, h]
  rfl

lemma word?_eq_some : source.word? addr = some w ↔ source addr = .ok w := by
  constructor
  · intro h
    cases hread : source addr with
    | ok v => rw [← Option.some.inj ((word?_of_ok hread).symm.trans h)]
    | error e => rw [word?_of_error hread] at h; cases h
  · exact word?_of_ok

lemma word?_eq_none : source.word? addr = none ↔ ∃ e, source addr = .error e := by
  cases hread : source addr with
  | ok v => simp [word?_of_ok hread]
  | error e => simp [word?_of_error hread]

lemma isSome_word?_iff : (source.word? addr).isSome ↔ ∃ w, source addr = .ok w := by
  rw [Option.isSome_iff_exists]
  exact exists_congr fun w => word?_eq_some

/-- If the source has no word at an address, that is the program's fault. -/
def Sound (source : Source) (pc : UInt32) : Prop := ∀ err, source pc = .error err → err.isGuestFault = true

end Source

namespace Plan

variable {source source' : Source} {cap : Nat} {pc : UInt32} {taken : List Instr} {p : Plan}

/-- The address of a word of a block at `pc`. -/
def wordPc (pc : UInt32) (k : Nat) : UInt32 := pc + 4 * k.toUInt32

@[simp] lemma wordPc_zero (pc : UInt32) : wordPc pc 0 = pc := by
  simp [wordPc]

lemma wordPc_succ (pc : UInt32) (k : Nat) : wordPc pc (k + 1) = wordPc (pc + 4) k := by
  have hk : (k + 1).toUInt32 = k.toUInt32 + 1 := UInt32.ofNat_add k 1
  rw [wordPc, wordPc, hk]
  grind

/-- The number of words that some instructions and an ending cover. -/
def covered (g : Gathered) : Nat := g.body.length + if g.ending.isSome then 2 else 0

lemma usable_true (i : Instr) : usable true i = true := rfl

/-! ### Gathering -/

lemma taken_le_covered (source : Source) (fallback : Bool) (cap : Nat) (pc : UInt32) (taken : List Instr) :
    taken.length ≤ covered (gather source fallback cap pc taken) := by
  fun_induction gather source fallback cap pc taken with
  | case1 => simp [covered]
  | case2 => simp [covered]
  | case3 => simp [covered]
  | case4 => simp [covered]
  | case5 cap pc taken w hw i hi husable hends ih =>
    rw [List.length_cons] at ih
    omega
  | case6 => simp [covered]

lemma covered_le (source : Source) (fallback : Bool) (cap : Nat) (pc : UInt32) (taken : List Instr) :
    covered (gather source fallback cap pc taken) ≤ taken.length + cap + 1 := by
  fun_induction gather source fallback cap pc taken with
  | case1 => simp [covered]
  | case2 => simp [covered]; omega
  | case3 => simp [covered]
  | case4 => simp [covered]
  | case5 cap pc taken w hw i hi husable hends ih =>
    rw [List.length_cons] at ih
    omega
  | case6 => simp [covered]; omega

/-- Every word gathered but the last can be read. -/
lemma isSome_of_gather {k : Nat} (hk : taken.length + k + 1 < covered (gather source true cap pc taken)) :
    (source.word? (wordPc pc k)).isSome := by
  fun_induction gather source true cap pc taken generalizing k with
  | case1 => simp [covered] at hk; omega
  | case2 => simp [covered] at hk; omega
  | case3 cap pc taken w hw t ht =>
    obtain rfl : k = 0 := by simpa [covered] using hk
    rw [wordPc_zero, Source.word?_of_ok hw]
    rfl
  | case4 => simp [covered] at hk
  | case5 cap pc taken w hw i hi husable hends ih =>
    cases k with
    | zero =>
      rw [wordPc_zero, Source.word?_of_ok hw]
      rfl
    | succ k =>
      rw [wordPc_succ]
      apply ih
      rw [List.length_cons]
      omega
  | case6 cap pc taken w hw i hi husable => exact absurd (usable_true i) husable

/-- Gathering stops behind the words it covers. -/
lemma fallthrough_gather (source : Source) (fallback : Bool) (cap : Nat) (pc : UInt32) (taken : List Instr) :
    (gather source fallback cap pc taken).fallthrough + 4 * taken.length.toUInt32 =
      pc + 4 * (covered (gather source fallback cap pc taken)).toUInt32 := by
  have hadd : ∀ m n : Nat, (m + n).toUInt32 = m.toUInt32 + n.toUInt32 := UInt32.ofNat_add
  fun_induction gather source fallback cap pc taken with
  | case1 => simp [covered]
  | case2 => simp [covered]
  | case3 =>
    simp only [covered, List.length_reverse, Option.isSome_some, if_true, hadd]
    grind
  | case4 =>
    simp only [covered, List.length_reverse, List.length_cons, Option.isSome_none, Bool.false_eq_true, if_false, hadd]
    grind
  | case5 cap pc taken w hw i hi husable hends ih =>
    rw [List.length_cons, hadd] at ih
    grind
  | case6 => simp [covered]

/-- A delay slot depends on its word alone. -/
lemma delaySlot_congr {fallback : Bool} (h : source'.word? pc = source.word? pc) :
    delaySlot source' fallback pc = delaySlot source fallback pc := by
  rw [delaySlot, delaySlot]
  cases hread : source pc with
  | ok w => rw [Source.word?_eq_some.mp (h.trans (Source.word?_of_ok hread))]
  | error e =>
    obtain ⟨e', hread'⟩ := Source.word?_eq_none.mp (h.trans (Source.word?_of_error hread))
    rw [hread']

/-- Two sources that give the words gathered, and words at the same addresses, gather the same. -/
lemma gather_congr (hread : ∀ a, (source'.word? a).isSome = (source.word? a).isSome)
    (hwords : ∀ k, taken.length + k < covered (gather source true cap pc taken) →
      source'.word? (wordPc pc k) = source.word? (wordPc pc k)) :
    gather source' true cap pc taken = gather source true cap pc taken := by
  -- the next word, when it is one of those gathered
  have hnext : ∀ {pc w}, source pc = .ok w → source'.word? (wordPc pc 0) = source.word? (wordPc pc 0) →
      source' pc = .ok w := by
    intro pc w hw hsame
    rw [wordPc_zero, Source.word?_of_ok hw] at hsame
    exact Source.word?_eq_some.mp hsame
  fun_induction gather source true cap pc taken with
  | case1 => rfl
  | case2 cap pc taken e hw =>
    have hnone : source'.word? pc = none := by simpa [Source.word?_of_error hw] using hread pc
    obtain ⟨e', hw'⟩ := Source.word?_eq_none.mp hnone
    rw [gather, hw']
  | case3 cap pc taken w hw t ht =>
    have hslot := hwords 1 (by simp [covered])
    rw [wordPc_succ, wordPc_zero] at hslot
    rw [gather, hnext hw (hwords 0 (by simp [covered]))]
    simp only [ht, delaySlot_congr hslot]
  | case4 cap pc taken w hw i hi husable hends =>
    rw [gather, hnext hw (hwords 0 (by simp [covered]))]
    simp only [hi, husable, hends, if_true]
  | case5 cap pc taken w hw i hi husable hends ih =>
    have hmore := taken_le_covered source true cap (pc + 4) (i :: taken)
    rw [List.length_cons] at hmore
    rw [gather, hnext hw (hwords 0 (by omega))]
    simp only [hi, husable, hends, if_true]
    refine ih fun k hk => ?_
    rw [← wordPc_succ]
    apply hwords
    rw [List.length_cons] at hk
    omega
  | case6 cap pc taken w hw i hi husable => exact absurd (usable_true i) husable

/-! ### Whole plans -/

lemma firstError_true (source : Source) (pc : UInt32) :
    firstError source true pc = none ↔ (source.word? pc).isSome := by
  rw [firstError]
  cases hread : source pc with
  | error e => simp [Source.word?_of_error hread]
  | ok w => cases hdecode : decode w pc <;> simp [Source.word?_of_ok hread, hdecode, usable]

/-- The words of a program make no block because the source has none, or because of the program. -/
lemma isGuestFault_of_ofSource {fallback : Bool} {cap : UInt32} {e : TranslateError}
    (h : ofSource source fallback pc cap = .error e) : source pc = .error e ∨ e.isGuestFault = true := by
  rw [ofSource, firstError] at h
  cases hread : source pc with
  | error e' =>
    rw [hread] at h
    obtain rfl := Except.error.inj h
    exact .inl rfl
  | ok w =>
    rw [hread] at h
    cases hdecode : decode w pc with
    | transfer t =>
      simp only [hdecode] at h
      cases h
    | instr i =>
      simp only [hdecode] at h
      cases husable : usable fallback i with
      | true =>
        simp only [husable, if_true] at h
        cases h
      | false =>
        simp only [husable, Bool.false_eq_true, if_false] at h
        obtain rfl := Except.error.inj h
        exact .inr rfl

lemma ofSource_of_error {fallback : Bool} {cap : UInt32} {e : TranslateError} (h : source pc = .error e) :
    ofSource source fallback pc cap = .error e := by
  rw [ofSource, firstError, h]

/-- A plan is what is gathered from an address at which a block can start. -/
lemma ofSource_eq_gather {fallback : Bool} {cap : UInt32} : ofSource source fallback pc cap = .ok p ↔
    firstError source fallback pc = none ∧ p.start = pc ∧
      p.toGathered = gather source fallback (max cap.toNat 1) pc [] := by
  rw [ofSource]
  cases firstError source fallback pc with
  | some e => simp
  | none =>
    obtain ⟨g, start⟩ := p
    simp only [true_and, Except.ok.injEq, Plan.mk.injEq]
    tauto

/-- With a fallback there is a plan wherever there is a word. -/
lemma ofSource_eq_ok {cap : UInt32} : ofSource source true pc cap = .ok p ↔
    (source.word? pc).isSome ∧ p.start = pc ∧ p.toGathered = gather source true (max cap.toNat 1) pc [] := by
  rw [ofSource_eq_gather, firstError_true]

variable {cap : UInt32}

lemma covered_eq_length (p : Plan) : covered p.toGathered = p.length := rfl

/-- Control falls to the word behind the last one of the block. -/
lemma fallthrough_eq {fallback : Bool} (h : ofSource source fallback pc cap = .ok p) :
    p.fallthrough = p.start + 4 * p.sourceLen := by
  obtain ⟨-, hstart, hgather⟩ := ofSource_eq_gather.mp h
  have hstop := fallthrough_gather source fallback (max cap.toNat 1) pc []
  rw [← hgather, covered_eq_length] at hstop
  simpa [hstart, sourceLen] using hstop

lemma length_pos (h : ofSource source true pc cap = .ok p) : 0 < p.length := by
  obtain ⟨hsome, -, hgather⟩ := ofSource_eq_ok.mp h
  obtain ⟨w, hw⟩ := Source.isSome_word?_iff.mp hsome
  obtain ⟨n, hn⟩ : ∃ n, max cap.toNat 1 = n + 1 := ⟨max cap.toNat 1 - 1, by omega⟩
  rw [hn, gather, hw] at hgather
  rw [← covered_eq_length, hgather]
  dsimp only
  split
  · simp [covered]
  · rename_i i hi
    rw [if_pos (usable_true i)]
    split
    · simp [covered]
    · exact taken_le_covered source true n (pc + 4) [i]

/-- A block covers at most one word more than its cap, the delay slot of its transfer. -/
lemma length_le_of_cap {fallback : Bool} (h : ofSource source fallback pc cap = .ok p) :
    p.length ≤ max cap.toNat 1 + 1 := by
  obtain ⟨-, -, hgather⟩ := ofSource_eq_gather.mp h
  have hle := covered_le source fallback (max cap.toNat 1) pc []
  rw [← hgather, covered_eq_length] at hle
  simpa using hle

/-- Every covered word but the last can be read. -/
lemma isSome_of_lt_length (h : ofSource source true pc cap = .ok p) {k : Nat} (hk : k + 1 < p.length) :
    (source.word? (wordPc pc k)).isSome := by
  obtain ⟨-, -, hgather⟩ := ofSource_eq_ok.mp h
  have hcovered : ([] : List Instr).length + k + 1 < covered (gather source true (max cap.toNat 1) pc []) := by
    rw [← hgather, covered_eq_length, List.length_nil]
    omega
  exact isSome_of_gather hcovered

/-- A plan is made by every source that gives the words it covers, and words at the same addresses. -/
theorem ofSource_congr (h : ofSource source true pc cap = .ok p)
    (hread : ∀ a, (source'.word? a).isSome = (source.word? a).isSome)
    (hwords : ∀ k < p.length, source'.word? (wordPc pc k) = source.word? (wordPc pc k)) :
    ofSource source' true pc cap = .ok p := by
  obtain ⟨hsome, hstart, hgather⟩ := ofSource_eq_ok.mp h
  refine ofSource_eq_ok.mpr ⟨by rw [hread]; exact hsome, hstart, ?_⟩
  rw [hgather]
  refine (gather_congr hread fun k hk => hwords k ?_).symm
  rw [← hgather, covered_eq_length, List.length_nil] at hk
  omega

/-! ### Single instructions -/

/-- The plan of a single instruction. -/
def single (pc : UInt32) (i : Instr) : Plan := ⟨⟨[i], none, pc + 4⟩, pc⟩

/-- The plan of a single transfer. -/
def lone (pc : UInt32) (e : Ending) : Plan := ⟨⟨[], some e, pc + 8⟩, pc⟩

lemma ofSource_one_instr {w : UInt32} {i : Instr} (hw : source pc = .ok w) (hi : decode w pc = .instr i) :
    ofSource source true pc 1 = .ok (single pc i) := by
  refine ofSource_eq_ok.mpr ⟨by rw [Source.word?_of_ok hw]; rfl, rfl, ?_⟩
  change _ = gather source true 1 pc []
  simp [gather, hw, hi, usable, single]

lemma ofSource_one_transfer {w : UInt32} {t : Transfer} (hw : source pc = .ok w)
    (ht : decode w pc = .transfer t) :
    ofSource source true pc 1 = .ok (lone pc ⟨t, delaySlot source true (pc + 4)⟩) := by
  refine ofSource_eq_ok.mpr ⟨by rw [Source.word?_of_ok hw]; rfl, rfl, ?_⟩
  change _ = gather source true 1 pc []
  simp [gather, hw, ht, lone]

/-- The plans of the instructions from an address on as blocks of their own: one for each, and one for a transfer
with its delay slot. -/
def pieces : UInt32 → List Instr → Option Ending → List Plan
  | _, [], none => []
  | pc, [], some e => [lone pc e]
  | pc, i :: is, ending => single pc i :: pieces (pc + 4) is ending

lemma length_pieces (pc : UInt32) (is : List Instr) (ending : Option Ending) :
    (pieces pc is ending).length = is.length + if ending.isSome then 1 else 0 := by
  induction is generalizing pc with
  | nil => cases ending <;> rfl
  | cons i is ih =>
    rw [pieces, List.length_cons, ih, List.length_cons]
    omega

lemma start_pieces {is : List Instr} {ending : Option Ending} {k : Nat} {p : Plan}
    (h : (pieces pc is ending)[k]? = some p) : p.start = wordPc pc k := by
  induction is generalizing pc k with
  | nil =>
    cases ending with
    | none => simp [pieces] at h
    | some e =>
      cases k with
      | zero =>
        obtain rfl : lone pc e = p := by simpa [pieces] using h
        simp [lone]
      | succ k => simp [pieces] at h
  | cons i is ih =>
    cases k with
    | zero =>
      obtain rfl : single pc i = p := by simpa [pieces] using h
      simp [single]
    | succ k =>
      rw [wordPc_succ]
      exact ih (by simpa [pieces] using h)

/-- The pieces of what was gathered are planned with a cap of one instruction. -/
lemma ofSource_of_gather (source : Source) (cap : Nat) (pc : UInt32) (taken : List Instr) :
    ∃ is, (gather source true cap pc taken).body = taken.reverse ++ is ∧
      ∀ p ∈ pieces pc is (gather source true cap pc taken).ending, ofSource source true p.start 1 = .ok p := by
  fun_induction gather source true cap pc taken with
  | case1 => exact ⟨[], by simp, by simp [pieces]⟩
  | case2 => exact ⟨[], by simp, by simp [pieces]⟩
  | case3 cap pc taken w hw t ht =>
    refine ⟨[], by simp, ?_⟩
    rintro p hp
    obtain rfl := List.mem_singleton.mp hp
    exact ofSource_one_transfer hw ht
  | case4 cap pc taken w hw i hi husable hends =>
    refine ⟨[i], by simp, ?_⟩
    rintro p hp
    obtain rfl := List.mem_singleton.mp hp
    exact ofSource_one_instr hw hi
  | case5 cap pc taken w hw i hi husable hends ih =>
    obtain ⟨is, his, hpieces⟩ := ih
    refine ⟨i :: is, by rw [his]; simp, ?_⟩
    rintro p hp
    rcases List.mem_cons.mp hp with rfl | hp
    · exact ofSource_one_instr hw hi
    · exact hpieces p hp
  | case6 cap pc taken w hw i hi husable => exact absurd (usable_true i) husable

/-- A block is planned in pieces with a cap of one instruction. -/
theorem ofSource_pieces (h : ofSource source true pc cap = .ok p) :
    ∀ q ∈ pieces p.start p.body p.ending, ofSource source true q.start 1 = .ok q := by
  obtain ⟨-, hstart, hgather⟩ := ofSource_eq_ok.mp h
  obtain ⟨is, his, hpieces⟩ := ofSource_of_gather source (max cap.toNat 1) pc []
  rw [← hgather] at his hpieces
  obtain rfl : p.body = is := his
  rw [hstart]
  exact hpieces

/-! ### Cost -/

lemma cost_le (p : Plan) : p.cost ≤ 36 * p.length := by
  have hbody : ∀ is : List Instr, Instr.costs is ≤ 36 * is.length := by
    intro is
    induction is with
    | nil => simp
    | cons i is ih =>
      have hi := i.cost_le
      simp only [Instr.costs_cons, List.length_cons]
      omega
  have hdelay : ∀ slot : Option Instr, delayCost slot ≤ 36 := by
    intro slot
    cases slot with
    | none => simp [delayCost]
    | some i => exact i.cost_le
  have hstart := hbody p.body
  rw [cost, length]
  cases p.ending with
  | none => simpa using hstart
  | some e =>
    have hslot := hdelay e.delay
    simp only [Option.map_some, Option.getD_some, endingCost, Option.isSome_some, if_true]
    omega

lemma cost_pos (h : 0 < p.length) : 0 < p.cost := by
  rw [length] at h
  rw [cost]
  cases hending : p.ending with
  | some e =>
    simp only [Option.map_some, Option.getD_some, endingCost]
    omega
  | none =>
    cases hbody : p.body with
    | nil => simp [hending, hbody] at h
    | cons i is =>
      have hi := i.cost_pos
      simp only [Instr.costs_cons]
      omega

end Plan

end R3000
