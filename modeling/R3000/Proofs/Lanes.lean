import Mathlib
import R3000.Proofs.Chains.Partition
import R3000.Proofs.Integers.Words
import R3000.Proofs.Memory.Accesses

/-!
# The lanes of the interrupt registers

A load reads the lanes of the register that it addresses.  A store moves its bits to the low lanes whichever it
addresses and clears what lies above, so it changes its lanes alone only if it addresses the whole register.
-/

namespace R3000

open Board (wordAddress toNat_wordAddress)

/-! ### Lanes -/

/-- The number of the lowest bit that an access addresses in the word around it. -/
def Word.lane (addr : UInt32) : Nat := 8 * (addr.toNat % 4)

open Word

namespace Width

/-- An access addresses a bit of the word around it. -/
def Drives (w : Width) (addr : UInt32) (n : Nat) : Prop := lane addr ≤ n ∧ n < lane addr + 8 * w.bytes

instance (w : Width) (addr : UInt32) (n : Nat) : Decidable (w.Drives addr n) := inferInstanceAs (Decidable (_ ∧ _))

/-- Only a half or a word at the start of the word addresses all of the eleven sources. -/
lemma drives_iff {addr : UInt32} {w : Width} (haligned : Board.aligned addr w = true) :
    (∀ n < 11, w.Drives addr n) ↔ w ≠ .byte ∧ addr.toNat % 4 = 0 := by
  rw [Board.aligned, beq_iff_eq] at haligned
  constructor
  · intro h
    have hfirst := h 0 (by decide)
    have hlast := h 10 (by decide)
    cases w <;> simp only [Drives, lane, bytes] at * <;> grind
  · rintro ⟨hbyte, hstart⟩ n hn
    cases w <;> simp only [Drives, lane, bytes] at * <;> grind

end Width

namespace Interrupts

variable {i i' : Interrupts} {addr v : UInt32} {w : Width}

lemma testBit_sources (n : Nat) : sources.toNat.testBit n = decide (n < 11) := by
  rw [show sources.toNat = 2 ^ 11 - 1 from rfl, Nat.testBit_two_pow_sub_one]

/-! ### Loads -/

lemma toNat_shift (addr : UInt32) : ((addr &&& 3) * 8).toNat % 32 = lane addr := by
  rw [UInt32.toNat_mul, UInt32.toNat_and, show (3 : UInt32).toNat = 2 ^ 2 - 1 from rfl, Nat.and_two_pow_sub_one_eq_mod,
    show (8 : UInt32).toNat = 8 from rfl, lane]
  omega

lemma testBit_read (i : Interrupts) (addr : UInt32) (w : Width) (n : Nat) :
    (i.read addr w).toNat.testBit n =
      (decide (n < 8 * w.bytes) && (i.readWord addr).toNat.testBit (lane addr + n)) := by
  rw [read, UInt32.toNat_and, UInt32.toNat_shiftRight, toNat_shift, Nat.testBit_and, Nat.testBit_shiftRight,
    w.toNat_mask, Nat.testBit_two_pow_sub_one, Bool.and_comm]

lemma readWord_mask (h : wordAddress addr = irqMaskRegister) (i : Interrupts) :
    (i.readWord addr).toNat = i.mask.toNat := by
  rw [wordAddress] at h
  rw [readWord, h, if_neg (by decide), if_pos rfl, UInt16.toNat_toUInt32]

/-! ### Stores -/

/-- A store that changes the bits of the addressed lanes and no others.  In the mask register those become the bits
stored; in the status register those fall of which the stored bit is zero. -/
structure Lanewise (i i' : Interrupts) (addr v : UInt32) (w : Width) : Prop where
  mask : wordAddress (physical addr) = irqMaskRegister → i'.stat = i.stat ∧ ∀ n < 11,
    i'.mask.toNat.testBit n = if w.Drives addr n then v.toNat.testBit (n - lane addr) else i.mask.toNat.testBit n
  stat : wordAddress (physical addr) = irqStatusRegister → i'.mask = i.mask ∧ ∀ n < 11,
    i'.stat.toNat.testBit n =
      (i.stat.toNat.testBit n && if w.Drives addr n then v.toNat.testBit (n - lane addr) else true)

/-- The bits that a store moves, at the low end of a register. -/
def moved (v : UInt32) (w : Width) (n : Nat) : Bool := decide (n < 11) && decide (n < 8 * w.bytes) && v.toNat.testBit n

/-- A store of which the moved bits become the mask register, or all others fall from the status register. -/
structure Driven (i i' : Interrupts) (addr v : UInt32) (w : Width) : Prop where
  mask : wordAddress (physical addr) = irqMaskRegister → i'.stat = i.stat ∧
    ∀ n, i'.mask.toNat.testBit n = moved v w n
  stat : wordAddress (physical addr) = irqStatusRegister → i'.mask = i.mask ∧
    ∀ n, i'.stat.toNat.testBit n = (i.stat.toNat.testBit n && moved v w n)

lemma testBit_moved (v : UInt32) (w : Width) (n : Nat) :
    ((v &&& w.mask).toUInt16 &&& sources).toNat.testBit n = moved v w n := by
  rw [UInt16.toNat_and, UInt32.toNat_toUInt16, UInt32.toNat_and, Nat.testBit_and, Nat.testBit_mod_two_pow,
    Nat.testBit_and, w.toNat_mask, Nat.testBit_two_pow_sub_one, testBit_sources, moved]
  grind

lemma write_and_mask (i : Interrupts) (addr v : UInt32) (w : Width) :
    i.write addr (v &&& w.mask) w = i.write addr v w := by
  rw [write, UInt32.and_assoc, UInt32.and_self, write]

lemma driven_write (i : Interrupts) (addr v : UInt32) (w : Width) :
    Driven i (i.write (physical addr) v w) addr v w := by
  constructor
  · intro hmask
    rw [wordAddress] at hmask
    rw [write, writeWord, hmask, if_neg (by decide), if_pos rfl]
    exact ⟨rfl, testBit_moved v w⟩
  · intro hstat
    rw [wordAddress] at hstat
    rw [write, writeWord, if_pos hstat]
    refine ⟨rfl, fun n => ?_⟩
    rw [UInt16.toNat_and, Nat.testBit_and, testBit_moved]

-- a byte that acknowledges the first source acknowledges the tenth too
example : Interrupts.write ⟨0x201, 0⟩ irqStatusRegister 0xFE .byte = ⟨0, 0⟩ := by decide

/-- A store that addresses every source changes the addressed lanes and no others. -/
lemma Driven.lanewise (h : Driven i i' addr v w) (hall : ∀ n < 11, w.Drives addr n) : Lanewise i i' addr v w := by
  have hlane : lane addr = 0 := Nat.le_zero.mp (hall 0 (by decide)).1
  have hmoved : ∀ n < 11, moved v w n = v.toNat.testBit n := by
    intro n hn
    have hlt : n < 8 * w.bytes := by simpa [hlane] using (hall n hn).2
    simp [moved, hn, hlt]
  constructor
  · intro hmask
    refine ⟨(h.mask hmask).1, fun n hn => ?_⟩
    rw [(h.mask hmask).2, hmoved n hn, if_pos (hall n hn), hlane, Nat.sub_zero]
  · intro hstat
    refine ⟨(h.stat hstat).1, fun n hn => ?_⟩
    rw [(h.stat hstat).2, hmoved n hn, if_pos (hall n hn), hlane, Nat.sub_zero]

/-- The bits of all sources show which of them a store of zeros leaves. -/
lemma Driven.drives (h : Driven ⟨sources, sources⟩ i' addr 0 w) (hlane : Lanewise ⟨sources, sources⟩ i' addr 0 w)
    (hreg : isIrqRegister (physical addr) = true) {n : Nat} (hn : n < 11) : w.Drives addr n := by
  have hfalls : moved 0 w n = false := by simp [moved]
  have hraised : sources.toNat.testBit n = true := by rw [testBit_sources, decide_eq_true hn]
  rw [isIrqRegister, Bool.or_eq_true, beq_iff_eq, beq_iff_eq] at hreg
  by_contra hout
  rcases hreg with hstat | hmask
  · have hbit := ((h.stat hstat).2 n).symm.trans ((hlane.stat hstat).2 n hn)
    rw [hfalls, if_neg hout, hraised] at hbit
    cases hbit
  · have hbit := ((h.mask hmask).2 n).symm.trans ((hlane.mask hmask).2 n hn)
    rw [hfalls, if_neg hout, hraised] at hbit
    cases hbit

end Interrupts

/-! ### The bus -/

lemma Region.ofAddress_of_irq {addr : UInt32} (h : isIrqRegister (physical addr) = true) :
    ofAddress addr = .device (physical addr) := by
  rw [isIrqRegister, Bool.or_eq_true, beq_iff_eq, beq_iff_eq, ← UInt32.toNat_inj, ← UInt32.toNat_inj] at h
  have hword := toNat_wordAddress (physical addr)
  rw [wordAddress] at hword
  rw [hword] at h
  simp only [irqStatusRegister, irqMaskRegister, UInt32.reduceToNat] at h
  rw [ofAddress]
  simp only [UInt32.lt_iff_toNat_lt, UInt32.reduceToNat]
  split_ifs <;> first | rfl | omega

namespace Board

open Interrupts (Driven Lanewise driven_write testBit_read)

variable {δ : Type} {c : Cpu} {addr : UInt32} {w : Width}

lemma load_irq (hreg : isIrqRegister (physical addr) = true) (hw : Hardware δ) (now : UInt64) (b : Board δ)
    (w : Width) : b.load hw now addr w = (b.io.interrupts.read (physical addr) w, b) := by
  rw [load, Memory.load, Region.ofAddress_of_irq hreg]
  dsimp only [Io.window]
  rw [if_pos hreg]

lemma store_irq (hreg : isIrqRegister (physical addr) = true) {isolated : Bool}
    (hpass : Memory.passesCache isolated addr = true) (hw : Hardware δ) (now : UInt64) (b : Board δ) (v : UInt32)
    (w : Width) :
    b.store hw now isolated addr v w = { b with io.interrupts := b.io.interrupts.write (physical addr) v w } := by
  rw [store]
  dsimp only
  rw [Memory.store, if_pos hpass, Region.ofAddress_of_irq hreg]
  dsimp only [Io.window]
  rw [if_pos hreg]

lemma serveLoad_irq (haligned : aligned addr w = true) (hreg : isIrqRegister (physical addr) = true)
    (hw : Hardware δ) (now : UInt64) (c : Cpu) (b : Board δ) :
    serveLoad hw now w addr c b = ⟨b.io.interrupts.read (physical addr) w, c, b⟩ := by
  rw [serveLoad, if_pos haligned, load_irq hreg]

lemma serveStore_irq (haligned : aligned addr w = true) (hreg : isIrqRegister (physical addr) = true)
    (hpass : Memory.passesCache c.isolated addr = true) (hw : Hardware δ) (now : UInt64) (v : UInt32) (b : Board δ) :
    serveStore hw now w addr v c b =
      ⟨0, c, { b with io.interrupts := b.io.interrupts.write (physical addr) v w }⟩ := by
  rw [serveStore, if_pos haligned, store_irq hreg hpass, Interrupts.write_and_mask]

/-- An aligned load of an interrupt register reads its lanes.  A store that gets past the data cache moves its bits to
the low lanes of the register; it changes its lanes alone, whatever the registers hold and is stored, exactly if it is
of a half or a word at the start of the register.  A load then reads back the sources among the bits that were stored
in the mask register, except in the second byte. -/
theorem serve_lanes (haligned : aligned addr w = true) (hreg : isIrqRegister (physical addr) = true)
    (hw : Hardware δ) (now : UInt64) (c : Cpu) (b : Board δ) :
    (∃ x, serveLoad hw now w addr c b = ⟨x, c, b⟩ ∧ ∀ n, x.toNat.testBit n =
      (decide (n < 8 * w.bytes) && (b.io.interrupts.readWord (physical addr)).toNat.testBit (lane addr + n))) ∧
    if Memory.passesCache c.isolated addr then
      (∀ v, ∃ i, serveStore hw now w addr v c b = ⟨0, c, { b with io.interrupts := i }⟩ ∧
        Driven b.io.interrupts i addr v w) ∧
      ((∀ (b : Board δ) v, Lanewise b.io.interrupts (serveStore hw now w addr v c b).rest.io.interrupts addr v w) ↔
        w ≠ .byte ∧ addr.toNat % 4 = 0) ∧
      (wordAddress (physical addr) = irqMaskRegister → ¬ (w = .byte ∧ addr.toNat % 4 = 1) → ∀ v n,
        (serveLoad hw now w addr c (serveStore hw now w addr v c b).rest).answer.toNat.testBit n =
          (decide (n < 8 * w.bytes) && decide (lane addr + n < 11) && v.toNat.testBit n))
    else ∀ v, serveStore hw now w addr v c b = ⟨0, c, b⟩ := by
  have hlane : lane (physical addr) = lane addr := by
    rw [lane, lane, toNat_physical]
    omega
  constructor
  · refine ⟨_, serveLoad_irq haligned hreg hw now c b, fun n => ?_⟩
    rw [testBit_read, hlane]
  split
  · rename_i hpass
    have hstore := fun b v => serveStore_irq haligned hreg hpass hw now v b
    refine ⟨fun v => ⟨_, hstore b v, driven_write ..⟩, ?_, fun hmask hsecond v n => ?_⟩
    · rw [← Width.drives_iff haligned]
      constructor
      · intro hlanewise n hn
        have hzero := hlanewise { b with io.interrupts := ⟨Interrupts.sources, Interrupts.sources⟩ } 0
        rw [hstore] at hzero
        exact (driven_write _ addr 0 w).drives hzero hreg hn
      · intro hall b v
        rw [hstore]
        exact (driven_write _ addr v w).lanewise hall
    · rw [hstore, serveLoad_irq haligned hreg]
      dsimp only
      rw [testBit_read, Interrupts.readWord_mask hmask, ((driven_write _ addr v w).mask hmask).2, hlane,
        Interrupts.moved]
      -- no source has a bit in the upper half of the register
      obtain hfirst | hupper : lane addr = 0 ∨ 16 ≤ lane addr := by
        rw [aligned, beq_iff_eq] at haligned
        cases w <;> simp only [lane, Width.bytes] at * <;> grind
      · rw [hfirst, Nat.zero_add]
        grind
      · grind
  · rename_i hblocked
    intro v
    rw [serveStore, if_pos haligned, store]
    dsimp only
    rw [Memory.store, if_neg hblocked]

/-- Every half stored in the mask register is a store to its lanes, and some byte is not. -/
theorem serve_lanes_mask :
    let stored (w : Width) (b : Board Unit) (v : UInt32) :=
      (serveStore (.absent Unit) 0 w 0x1F801074 v running b).rest.io.interrupts
    aligned 0x1F801074 .half = true ∧ aligned 0x1F801074 .byte = true ∧
      isIrqRegister (physical 0x1F801074) = true ∧
      (∀ b v, Lanewise b.io.interrupts (stored .half b v) 0x1F801074 v .half) ∧
      ∃ b v, ¬ Lanewise b.io.interrupts (stored .byte b v) 0x1F801074 v .byte := by
  intro stored
  have hhalf : aligned 0x1F801074 .half = true := by decide
  have hbyte : aligned 0x1F801074 .byte = true := by decide
  have hreg : isIrqRegister (physical 0x1F801074) = true := by decide
  have hpass : Memory.passesCache running.isolated 0x1F801074 = true := by decide
  obtain ⟨-, hhalves⟩ := serve_lanes hhalf hreg (.absent Unit) 0 running idle
  obtain ⟨-, hbytes⟩ := serve_lanes hbyte hreg (.absent Unit) 0 running idle
  rw [if_pos hpass] at hhalves hbytes
  refine ⟨hhalf, hbyte, hreg, hhalves.2.1.mpr ⟨by decide, by decide⟩, ?_⟩
  by_contra hall
  push Not at hall
  exact (hbytes.2.1.mp hall).1 rfl

end Board

end R3000
