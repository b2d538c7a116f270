import Mathlib
import R3000.Serve
import R3000.Block.Run

/-!
# Words as integers

A word stands for a natural number, or for a signed one when its highest bit is a sign.  The operations of the
processor compute on words; here is what they compute on the numbers, for every operand.
-/

namespace R3000

namespace Word

/-- The number that a word stands for when its highest bit is a sign. -/
def signed (v : UInt32) : Int := v.toInt32.toInt

/-- The number that the low bits of a word stand for when the highest of them is a sign. -/
def signedLow (bits : Nat) (v : UInt32) : Int := (v.toNat : Int).bmod (2 ^ bits)

/-- A word stands for the number, as a signed one. -/
def Fits (v : Int) : Prop := -2 ^ 31 ≤ v ∧ v < 2 ^ 31

instance (v : Int) : Decidable (Fits v) := inferInstanceAs (Decidable (_ ∧ _))

lemma fits_signed (v : UInt32) : Fits (signed v) := ⟨v.toInt32.le_toInt, v.toInt32.toInt_lt⟩

lemma signed_eq (v : UInt32) :
    signed v = if v.toNat < 2 ^ 31 then (v.toNat : Int) else v.toNat - 2 ^ 32 := by
  have hcond : v.toBitVec.toInt = _ := BitVec.toInt_eq_toNat_cond v.toBitVec
  change v.toBitVec.toInt = _
  rw [hcond]
  change (if 2 * v.toNat < 2 ^ 32 then (v.toNat : Int) else v.toNat - (2 ^ 32 : Nat)) = _
  split <;> split <;> omega

/-- The two numbers of a word differ by a multiple of the number of words. -/
lemma signed_emod (v : UInt32) : signed v % 2 ^ 32 = v.toNat := by
  have hlt := v.toNat_lt
  rw [signed_eq]
  split <;> omega

/-! ### Sums and differences -/

lemma signed_add (a b : UInt32) : signed (a + b) ≡ signed a + signed b [ZMOD 2 ^ 32] := by
  rw [Int.ModEq, signed_emod, Int.add_emod, signed_emod, signed_emod, UInt32.toNat_add]
  rfl

lemma signed_sub (a b : UInt32) : signed (a - b) ≡ signed a - signed b [ZMOD 2 ^ 32] := by
  rw [show signed (a - b) = (signed a - signed b).bmod (2 ^ 32) from Int32.toInt_sub a.toInt32 b.toInt32]
  exact Int.bmod_emod

lemma eq_of_modEq {x y : Int} (hx : Fits x) (hy : Fits y) (h : x ≡ y [ZMOD 2 ^ 32]) : x = y := by
  rw [Int.ModEq] at h
  rw [Fits] at hx hy
  omega

lemma signed_neg_iff (v : UInt32) : signed v < 0 ↔ v.toBitVec.msb = true := by
  rw [BitVec.msb_eq_toInt, decide_eq_true_eq]
  rfl

lemma signed_and_neg (a b : UInt32) : signed (a &&& b) < 0 ↔ signed a < 0 ∧ signed b < 0 := by
  simp [signed_neg_iff, BitVec.msb_and]

lemma signed_xor_neg (a b : UInt32) : signed (a ^^^ b) < 0 ↔ ¬ (signed a < 0 ↔ signed b < 0) := by
  simp only [signed_neg_iff, UInt32.toBitVec_xor, BitVec.msb_xor]
  cases a.toBitVec.msb <;> cases b.toBitVec.msb <;> decide

end Word

open Word

namespace Arith

/-- The signs of the terms and of the sum tell whether the sum fits. -/
theorem traps_add (a b : UInt32) : add.traps a b = true ↔ ¬ Fits (signed a + signed b) := by
  have hsign : add.traps a b = true ↔ signed ((a ^^^ (a + b)) &&& (b ^^^ (a + b))) < 0 := by
    simp [traps, signed, Int32.lt_iff_toInt_lt]
  have ha := fits_signed a
  have hb := fits_signed b
  have hsum := fits_signed (a + b)
  have hmod := signed_add a b
  rw [hsign, signed_and_neg, signed_xor_neg, signed_xor_neg]
  simp only [Fits, Int.ModEq] at *
  omega

/-- The signs of the terms and of the difference tell whether the difference fits. -/
theorem traps_sub (a b : UInt32) : sub.traps a b = true ↔ ¬ Fits (signed a - signed b) := by
  have hsign : sub.traps a b = true ↔ signed ((a ^^^ b) &&& (a ^^^ (a - b))) < 0 := by
    simp [traps, signed, Int32.lt_iff_toInt_lt]
  have ha := fits_signed a
  have hb := fits_signed b
  have hdiff := fits_signed (a - b)
  have hmod := signed_sub a b
  rw [hsign, signed_and_neg, signed_xor_neg, signed_xor_neg]
  simp only [Fits, Int.ModEq] at *
  omega

/-- A comparison of signed numbers. -/
lemma eval_slt (a b : UInt32) : slt.eval a b = if signed a < signed b then 1 else 0 := by
  simp only [eval, Int32.lt_iff_toInt_lt]
  rfl

/-- A comparison of natural numbers. -/
lemma eval_sltu (a b : UInt32) : sltu.eval a b = if a.toNat < b.toNat then 1 else 0 := by
  simp [eval, UInt32.lt_iff_toNat_lt]

end Arith

/-! ### Products and quotients -/

namespace Instr

/-- The halves of a product of natural numbers. -/
theorem product_unsigned (a b : UInt32) :
    ((product false a b >>> 32).toUInt32.toNat * 2 ^ 32 + (product false a b).toUInt32.toNat : Nat) =
      a.toNat * b.toNat := by
  have hlt : a.toNat * b.toNat < 2 ^ 64 := by
    rw [show 2 ^ 64 = 2 ^ 32 * 2 ^ 32 by decide]
    exact Nat.mul_lt_mul'' a.toNat_lt b.toNat_lt
  have hprod : (product false a b).toNat = a.toNat * b.toNat := by
    simpa [product] using hlt
  have hhalf : (product false a b >>> 32).toUInt32.toNat = (product false a b).toNat / 2 ^ 32 % 2 ^ 32 := by
    simp [Nat.shiftRight_eq_div_pow]
  rw [hhalf, UInt64.toNat_toUInt32, ← hprod]
  omega

lemma toInt_product (a b : UInt32) : (product true a b).toInt64.toInt = signed a * signed b := by
  obtain ⟨ha, ha'⟩ := fits_signed a
  obtain ⟨hb, hb'⟩ := fits_signed b
  have hmul : (product true a b).toInt64.toInt = (signed a * signed b).bmod (2 ^ 64) := by
    change (a.toInt32.toInt64 * b.toInt32.toInt64).toInt = _
    rw [Int64.toInt_mul, Int32.toInt_toInt64, Int32.toInt_toInt64]
    rfl
  have hlow : -2 ^ 62 ≤ signed a * signed b := by nlinarith
  have hhigh : signed a * signed b ≤ 2 ^ 62 := by nlinarith
  rw [hmul]
  apply Int.bmod_eq_of_le <;> omega

/-- The halves of a product of signed numbers. -/
theorem product_signed (a b : UInt32) :
    signed (product true a b >>> 32).toUInt32 * 2 ^ 32 + (product true a b).toUInt32.toNat =
      signed a * signed b := by
  have hhalf : (product true a b >>> 32).toUInt32.toNat = (product true a b).toNat / 2 ^ 32 % 2 ^ 32 := by
    simp [Nat.shiftRight_eq_div_pow]
  have hlt := (product true a b).toNat_lt
  have hcond : (product true a b).toInt64.toInt = _ := BitVec.toInt_eq_toNat_cond (product true a b).toBitVec
  rw [← toInt_product, hcond, signed_eq, hhalf, UInt64.toNat_toUInt32]
  change _ = if 2 * (product true a b).toNat < 2 ^ 64 then ((product true a b).toNat : Int)
    else (product true a b).toNat - (2 ^ 64 : Nat)
  split <;> split <;> omega

end Instr

namespace Cpu

/-- The quotient of two signed words is a signed word, with one exception. -/
lemma fits_tdiv {n d : Int} (hn : Fits n) (hd : d ≠ 0) (hno : ¬ (n = -2 ^ 31 ∧ d = -1)) : Fits (n.tdiv d) := by
  have habs : (n.tdiv d).natAbs ≤ n.natAbs := (Int.natAbs_tdiv n d).trans_le (Nat.div_le_self ..)
  have hsplit := Int.mul_tdiv_add_tmod n d
  have hless : (n.tmod d).natAbs < d.natAbs := by
    rw [Int.natAbs_tmod]
    exact Nat.mod_lt _ (Int.natAbs_pos.mpr hd)
  rw [Fits] at hn ⊢
  -- only a quotient one past the greatest signed word is left to exclude
  suffices n.tdiv d ≠ 2 ^ 31 by omega
  intro hq
  rw [hq] at hsplit
  omega

/-- The remainder and the quotient of two signed words: the quotient is cut toward zero, so the remainder has the sign
of the dividend.  One quotient fits only modulo the number of words, and none is asked for zero. -/
def Divides (n d hi lo : UInt32) : Prop :=
  if d = 0 then hi = n ∧ lo = if 0 ≤ signed n then 0xFFFFFFFF else 1
  else signed n ≡ signed lo * signed d + signed hi [ZMOD 2 ^ 32] ∧
    (¬ (signed n = -2 ^ 31 ∧ signed d = -1) → signed n = signed lo * signed d + signed hi) ∧
      |signed hi| < |signed d| ∧ (signed hi = 0 ∨ (signed hi).sign = (signed n).sign)

/-- The remainder and the quotient of two words. -/
def DividesUnsigned (n d hi lo : UInt32) : Prop :=
  if d = 0 then hi = n ∧ lo = 0xFFFFFFFF
  else n.toNat = lo.toNat * d.toNat + hi.toNat ∧ hi.toNat < d.toNat

lemma divides_zero (n : UInt32) : Divides n 0 n (if 0 ≤ signed n then 0xFFFFFFFF else 1) := by
  rw [Divides, if_pos rfl]
  exact ⟨rfl, rfl⟩

lemma divides_of_ne_zero (n : UInt32) {d : UInt32} (hd : d ≠ 0) :
    Divides n d (n.toInt32 % d.toInt32).toUInt32 (n.toInt32 / d.toInt32).toUInt32 := by
  have hd' : signed d ≠ 0 := by
    intro hzero
    have hmod := signed_emod d
    rw [hzero] at hmod
    exact hd (UInt32.toNat_inj.mp (by simpa using hmod.symm))
  have hhi : signed (n.toInt32 % d.toInt32).toUInt32 = (signed n).tmod (signed d) := Int32.toInt_mod ..
  have hlo : signed (n.toInt32 / d.toInt32).toUInt32 = ((signed n).tdiv (signed d)).bmod (2 ^ 32) :=
    Int32.toInt_div ..
  have hsplit := Int.mul_tdiv_add_tmod (signed n) (signed d)
  rw [Divides, if_neg hd, hhi, hlo]
  refine ⟨?_, fun hno => ?_, ?_, ?_⟩
  · have hquot := (Int.ModEq.symm (Int.bmod_emod (x := (signed n).tdiv (signed d)) (m := 2 ^ 32))).mul_right (signed d)
    calc signed n = (signed n).tdiv (signed d) * signed d + (signed n).tmod (signed d) := by linarith
      _ ≡ _ [ZMOD 2 ^ 32] := hquot.add_right _
  · obtain ⟨hlow, hhigh⟩ := fits_tdiv (fits_signed n) hd' hno
    rw [Int.bmod_eq_of_le (by omega) (by omega)]
    linarith
  · rw [Int.abs_eq_natAbs, Int.abs_eq_natAbs, Int.natAbs_tmod]
    exact_mod_cast Nat.mod_lt _ (Int.natAbs_pos.mpr hd')
  · rw [← Int.sign_eq_zero_iff_zero, Int.sign_tmod]
    split <;> simp

/-- A signed division leaves the remainder and the quotient, and nothing else. -/
theorem divide_divides (c : Cpu) (n d : UInt32) : ∃ hi lo, Divides n d hi lo ∧ c.divide n d = { c with hi, lo } := by
  by_cases hd : d = 0
  · subst hd
    refine ⟨_, _, divides_zero n, ?_⟩
    simp only [divide, if_true, Int32.le_iff_toInt_le]
    rfl
  · exact ⟨_, _, divides_of_ne_zero n hd, if_neg hd⟩

/-- A division leaves the remainder and the quotient, and nothing else. -/
theorem divideUnsigned_divides (c : Cpu) (n d : UInt32) :
    ∃ hi lo, DividesUnsigned n d hi lo ∧ c.divideUnsigned n d = { c with hi, lo } := by
  rw [divideUnsigned]
  split
  · rename_i hd
    exact ⟨n, 0xFFFFFFFF, by rw [DividesUnsigned, if_pos hd]; exact ⟨rfl, rfl⟩, rfl⟩
  · rename_i hd
    have hpos : 0 < d.toNat := Nat.pos_of_ne_zero fun h => hd (UInt32.toNat_inj.mp h)
    refine ⟨n % d, n / d, ?_, rfl⟩
    rw [DividesUnsigned, if_neg hd, UInt32.toNat_mod, UInt32.toNat_div, Nat.mul_comm]
    exact ⟨(Nat.div_add_mod ..).symm, Nat.mod_lt _ hpos⟩

end Cpu

/-! ### Shifts -/

namespace Shift

lemma toNat_amount (n : UInt32) : (n &&& 31).toNat = n.toNat % 32 := by
  rw [UInt32.toNat_and]
  exact Nat.and_two_pow_sub_one_eq_mod n.toNat 5

theorem toNat_left (v n : UInt32) : (left.eval v n).toNat = v.toNat * 2 ^ (n.toNat % 32) % 2 ^ 32 := by
  rw [eval, UInt32.toNat_shiftLeft, toNat_amount, Nat.mod_mod, Nat.shiftLeft_eq]

theorem toNat_rightLogical (v n : UInt32) : (rightLogical.eval v n).toNat = v.toNat / 2 ^ (n.toNat % 32) := by
  rw [eval, UInt32.toNat_shiftRight, toNat_amount, Nat.mod_mod, Nat.shiftRight_eq_div_pow]

/-- Filling with the sign divides the signed number, rounding down. -/
theorem signed_rightArithmetic (v n : UInt32) :
    signed (rightArithmetic.eval v n) = signed v / 2 ^ (n.toNat % 32) := by
  have hamount : ((n &&& 31).toBitVec.smod 32).toNat = n.toNat % 32 := by
    have hsmall : ∀ k : Fin 32, ((UInt32.ofNat k).toBitVec.smod 32).toNat = k := by decide
    have hlt : (n &&& 31).toNat < 32 := toNat_amount n ▸ Nat.mod_lt _ (by decide)
    rw [← toNat_amount]
    simpa using hsmall ⟨(n &&& 31).toNat, hlt⟩
  change (v.toInt32 >>> (n &&& 31).toInt32).toBitVec.toInt = _
  rw [Int32.toBitVec_shiftRight]
  change (v.toBitVec.sshiftRight ((n &&& 31).toBitVec.smod 32).toNat).toInt = _
  rw [hamount, BitVec.toInt_sshiftRight, Int.shiftRight_eq_div_pow]
  norm_cast

end Shift

/-! ### Extensions -/

/-- The mask of a width is the largest number that an access moves. -/
lemma Width.toNat_mask (w : Width) : w.mask.toNat = 2 ^ (8 * w.bytes) - 1 := by
  cases w <;> rfl

theorem signed_signExtendByte (v : UInt32) : signed (signExtendByte v) = signedLow 8 v := by
  have hbyte : v.toUInt8.toInt8.toInt = (v.toUInt8.toNat : Int).bmod (2 ^ 8) := BitVec.toInt_eq_toNat_bmod ..
  change v.toUInt8.toInt8.toInt32.toInt = _
  rw [Int8.toInt_toInt32, hbyte, UInt32.toNat_toUInt8, signedLow]
  push_cast
  exact Int.emod_bmod ..

theorem signed_signExtendHalf (v : UInt32) : signed (signExtendHalf v) = signedLow 16 v := by
  have hhalf : v.toUInt16.toInt16.toInt = (v.toUInt16.toNat : Int).bmod (2 ^ 16) := BitVec.toInt_eq_toNat_bmod ..
  change v.toUInt16.toInt16.toInt32.toInt = _
  rw [Int16.toInt_toInt32, hhalf, UInt32.toNat_toUInt16, signedLow]
  push_cast
  exact Int.emod_bmod ..

end R3000
