import Mathlib
import R3000.Block.Plan
import R3000.Proofs.Memory.Pages

/-!
# The boot ROM

A new memory holds the boot image and zeros otherwise.  So the words that can be fetched from it are known
from the image alone.
-/

namespace R3000

/-- The byte of an image at an offset, and zero past its end. -/
def imageByte (image : ByteArray) (i : Nat) : UInt8 := if h : i < image.size then image[i] else 0

/-- The word of an image at an offset. -/
def imageWord (image : ByteArray) (i : Nat) : UInt32 :=
  (imageByte image i).toUInt32 ||| (imageByte image (i + 1)).toUInt32 <<< 8 |||
    (imageByte image (i + 2)).toUInt32 <<< 16 ||| (imageByte image (i + 3)).toUInt32 <<< 24

/-- The words that a new machine with a boot image fetches. -/
def imageSource (image : ByteArray) : Source := fun addr =>
  if addr &&& 3 = 0 then
    match Region.ofAddress addr with
    | .ram _ => .ok 0
    | .bios i => .ok (imageWord image (Width.word.align i))
    | _ => .error (.memoryRead addr)
  else .error (.memoryRead addr)

/-- A copy goes to the bytes from its start on that lie in the bank. -/
lemma Bank.byte_blit {n : Nat} (b : Bank n) (start : Nat) (data : ByteArray) (j : Nat) :
    (b.blit start data).byte j =
      if j < 4 * n ∧ start ≤ j ∧ j - start < data.size then imageByte data (j - start) else b.byte j := by
  have hfold : ∀ k (hk : k ≤ data.size),
      (k.fold (fun i h b => b.setByte (start + i) (data.get i (h.trans_le hk))) b).byte j =
        if j < 4 * n ∧ start ≤ j ∧ j - start < k then imageByte data (j - start) else b.byte j := by
    intro k
    induction k with
    | zero => simp
    | succ k ih =>
      intro hk
      rw [Nat.fold_succ]
      by_cases heq : start + k = j
      · subst heq
        by_cases hin : start + k < 4 * n
        · rw [byte_setByte _ hin, if_pos rfl, if_pos ⟨hin, by omega, by omega⟩, Nat.add_sub_cancel_left, imageByte,
            dif_pos (by omega)]
          rfl
        · -- past the end there is no byte
          have hout : ∀ b : Bank n, b.byte (start + k) = 0 := fun b => by
            rw [byte, dif_neg hin]
          rw [hout, if_neg fun h => hin h.1, hout]
      · rw [byte_setByte_of_ne (Ne.symm heq), ih (by omega)]
        by_cases hlt : j < 4 * n ∧ start ≤ j ∧ j - start < k
        · rw [if_pos hlt, if_pos (by omega)]
        · rw [if_neg hlt, if_neg (by omega)]
  exact hfold data.size le_rfl

/-- A new memory gives the words of its boot image. -/
theorem Memory.source_ofBios {image : ByteArray} (hfits : image.size ≤ 4 * biosWords) :
    (ofBios image).source = imageSource image := by
  have hbyte : ∀ i, (blankBios.blit 0 image).byte i = imageByte image i := by
    intro i
    rw [Bank.byte_blit]
    by_cases hi : i < image.size
    · rw [if_pos ⟨by omega, i.zero_le, hi⟩, Nat.sub_zero]
    · rw [if_neg (fun h => hi h.2.2), imageByte, dif_neg hi]
      simp [blankBios]
  funext addr
  rw [source, fetch, imageSource]
  split
  · cases Region.ofAddress addr with
    | ram i =>
      have hram : (Bank.zero ramWords).read .word i = 0 := by simp [Bank.read, Bank.wordAt]
      exact congrArg Except.ok hram
    | bios i =>
      have hword : (blankBios.blit 0 image).read .word i = imageWord image (Width.word.align i) := by
        simp only [Bank.read, Bank.wordAt, imageWord, hbyte]
      exact congrArg Except.ok hword
    | _ => rfl
  · rfl

end R3000
