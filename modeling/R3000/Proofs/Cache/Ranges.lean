import Mathlib
import R3000.Cache

/-!
# Blocks and ranges

Invalidating a range compares ends: those of the range with those of the words that a block covers, none of
which goes past the greatest word.  Unless the block is empty, that is to ask whether they have a byte in common.
-/

namespace R3000

variable {β : Type} {e : Entry β} {start len : UInt32}

lemma toNat_saturatingAdd (a b : UInt32) :
    (saturatingAdd a b).toNat = min (a.toNat + b.toNat) 0xFFFFFFFF :=
  UInt32.toNat_ofNat_of_lt' (by rw [UInt32.size]; omega)

/-- A physical address lies in a range. -/
def InRange (start len : UInt32) (byte : Nat) : Prop :=
  start.toNat ≤ byte ∧ byte < min (start.toNat + len.toNat) 0xFFFFFFFF

namespace Entry

/-- The block covers the byte at a physical address. -/
def HasByte (e : Entry β) (byte : Nat) : Prop :=
  (e.pc &&& 0x1FFFFFFF).toNat ≤ byte ∧
    byte < min ((e.pc &&& 0x1FFFFFFF).toNat + 4 * e.sourceLen.toNat) 0xFFFFFFFF

/-- The block meets a range that is not empty. -/
def hits (start len : UInt32) (e : Entry β) : Bool := len != 0 && e.overlaps start (saturatingAdd start len)

/-- A block of some words meets a range if a byte of it lies there. -/
lemma hits_iff (h : 0 < e.sourceLen) : e.hits start len = true ↔ ∃ byte, e.HasByte byte ∧ InRange start len byte := by
  have hbytes : e.sourceBytes.toNat = min (e.sourceLen.toNat * 4) 0xFFFFFFFF :=
    UInt32.toNat_ofNat_of_lt' (by rw [UInt32.size]; omega)
  have hphys : (e.pc &&& 0x1FFFFFFF).toNat < 2 ^ 29 := by
    rw [UInt32.toNat_and]
    exact Nat.and_lt_two_pow _ (n := 29) (by decide)
  have hlen : len ≠ 0 ↔ 0 < len.toNat := by
    rw [ne_eq, ← UInt32.toNat_inj, UInt32.toNat_zero]
    exact Nat.pos_iff_ne_zero.symm
  have hpos : 0 < e.sourceLen.toNat := h
  have hstart := start.toNat_lt
  simp only [hits, overlaps, Bool.and_eq_true, bne_iff_ne, hlen, decide_eq_true_eq, UInt32.lt_iff_toNat_lt,
    toNat_saturatingAdd, hbytes, HasByte, InRange]
  constructor
  · intro hmeet
    exact ⟨max (e.pc &&& 0x1FFFFFFF).toNat start.toNat, by omega⟩
  · rintro ⟨byte, hbyte, hrange⟩
    omega

end Entry

end R3000
