import Mathlib
import R3000.Proofs.Chains.Partition
import R3000.Proofs.Memory.Bytes

/-!
# Words at any address

A word at any address is moved by two instructions, one for its low bytes and one for its high bytes.  Each moves the
bytes that lie in one aligned word and keeps the others, so that the two move the whole word in either order.
-/

namespace R3000

open Word

namespace Cpu

variable {r : Reg}

lemma reg_set_self (hr : r ≠ 0) (c : Cpu) (v : UInt32) : (c.set r v).reg r = v := by
  rw [set, if_neg hr, reg, if_neg hr]
  exact (RegFile.get_put ..).trans (if_pos rfl)

/-- The later of two writes to a register stays. -/
lemma set_again (c : Cpu) (r : Reg) (v w pc : UInt32) :
    Cpu.set { c.set r v with currentPc := pc } r w = Cpu.set { c with currentPc := pc } r w := by
  by_cases hr : r = 0
  · rw [hr]
    rfl
  · have hput : (c.gpr.put r v).put r w = c.gpr.put r w := Vector.set_set ..
    rw [set, set, set, if_neg hr, if_neg hr, if_neg hr, hput]

end Cpu

/-! ### Merging bytes -/

namespace Unaligned

/-- The lane of a byte. -/
def shift (j : Nat) : UInt32 := (8 * j).toUInt32

/-- The word `x` with the upper bytes of `y` in its lower end. -/
def fillLow (j : Nat) (x y : UInt32) : UInt32 := x &&& ((0xFFFFFF00 : UInt32) <<< (24 - shift j)) ||| y >>> shift j

/-- The word `x` with the lower bytes of `y` in its upper end. -/
def fillHigh (j : Nat) (x y : UInt32) : UInt32 := x &&& ((0x00FFFFFF : UInt32) >>> (24 - shift j)) ||| y <<< shift j

variable {j k : Nat}

lemma toNat_shift (hj : j < 4) : (shift j).toNat % 32 = 8 * j := by
  interval_cases j <;> rfl

lemma testBit_fillLow (hj : j < 4) (x y : UInt32) {i : Nat} (hi : i < 32) :
    (fillLow j x y).toNat.testBit i = if i + 8 * j < 32 then y.toNat.testBit (8 * j + i) else x.toNat.testBit i := by
  have hmask : ∀ j : Fin 4, ∀ i : Fin 32,
      ((0xFFFFFF00 : UInt32) <<< (24 - shift j)).toNat.testBit i = !decide (i.val + 8 * j.val < 32) := by
    decide
  have hmask' := hmask ⟨j, hj⟩ ⟨i, hi⟩
  simp only [fillLow, UInt32.toNat_or, UInt32.toNat_and, UInt32.toNat_shiftRight, toNat_shift hj, Nat.testBit_or,
    Nat.testBit_and, Nat.testBit_shiftRight, hmask']
  split
  · simp [*]
  · rename_i hge
    have hlarge : y.toNat.testBit (8 * j + i) = false :=
      Nat.testBit_lt_two_pow (y.toNat_lt.trans_le (Nat.pow_le_pow_right (by decide) (by omega)))
    simp [hge, hlarge]

lemma testBit_fillHigh (hj : j < 4) (x y : UInt32) {i : Nat} (hi : i < 32) :
    (fillHigh j x y).toNat.testBit i = if i < 8 * j then x.toNat.testBit i else y.toNat.testBit (i - 8 * j) := by
  have hmask : ∀ j : Fin 4, ∀ i : Fin 32,
      ((0x00FFFFFF : UInt32) >>> (24 - shift j)).toNat.testBit i = decide (i.val < 8 * j.val) := by
    decide
  have hmask' := hmask ⟨j, hj⟩ ⟨i, hi⟩
  simp only [fillHigh, UInt32.toNat_or, UInt32.toNat_and, UInt32.toNat_shiftLeft, toNat_shift hj, Nat.testBit_or,
    Nat.testBit_and, Nat.testBit_mod_two_pow, Nat.testBit_shiftLeft, hmask']
  split <;> rename_i hlt
  · simp [hlt]
  · simp [hlt, hi, not_lt.mp hlt]

/-- Bytes are the same if their bits are. -/
lemma byteOf_eq {v w : UInt32} {k k' : Nat}
    (h : ∀ i < 8, v.toNat.testBit (8 * k + i) = w.toNat.testBit (8 * k' + i)) : byteOf v k = byteOf w k' := by
  apply UInt8.toNat_inj.mp
  simp only [byteOf, Nat.toUInt8, UInt8.toNat_ofNat']
  apply Nat.eq_of_testBit_eq
  intro i
  simp only [Nat.testBit_mod_two_pow, Nat.testBit_shiftRight]
  by_cases hi : i < 8
  · rw [h i hi]
  · simp [hi]

lemma byteOf_fillLow (hj : j < 4) (x y : UInt32) (hk : k < 4) :
    byteOf (fillLow j x y) k = if k + j < 4 then byteOf y (k + j) else byteOf x k := by
  split <;> refine byteOf_eq fun i hi => ?_ <;> rw [testBit_fillLow hj x y (by omega)]
  · rw [if_pos (by omega)]
    congr 1
    omega
  · rw [if_neg (by omega)]

lemma byteOf_fillHigh (hj : j < 4) (x y : UInt32) (hk : k < 4) :
    byteOf (fillHigh j x y) k = if k < j then byteOf x k else byteOf y (k - j) := by
  split <;> refine byteOf_eq fun i hi => ?_ <;> rw [testBit_fillHigh hj x y (by omega)]
  · rw [if_pos (by omega)]
  · rw [if_neg (by omega)]
    congr 1
    omega

/-! ### The two halves -/

/-- The half of a word that an instruction moves. -/
inductive Half
  /-- The low bytes, by the right instructions. -/
  | low
  /-- The high bytes, by the left instructions. -/
  | high
  deriving DecidableEq, Repr

namespace Half

/-- The other half. -/
def other : Half → Half
  | low => high
  | high => low

/-- The byte of the word that the instruction addresses. -/
def byte : Half → Nat
  | low => 0
  | high => 3

/-- The address that the instruction is given for a word at an address. -/
def address (h : Half) (a : UInt32) : UInt32 := a + h.byte.toUInt32

/-- The load of a half. -/
def load : Half → LoadKind
  | low => .wordRight
  | high => .wordLeft

/-- The store of a half. -/
def store : Half → StoreKind
  | low => .wordRight
  | high => .wordLeft

/-- Whether a byte of the word is moved: it lies in the aligned word around the addressed one, which is in lane `j`. -/
def Moves (h : Half) (j k : Nat) : Prop := h.byte ≤ k + j ∧ k + j < h.byte + 4

instance (h : Half) (j k : Nat) : Decidable (h.Moves j k) := inferInstanceAs (Decidable (_ ∧ _))

/-- The merge of a load. -/
def mergeLoad : Half → UInt32 → UInt32 → UInt32 → UInt32
  | low => loadRight
  | high => loadLeft

/-- The merge of a store. -/
def mergeStore : Half → UInt32 → UInt32 → UInt32 → UInt32
  | low => storeRight
  | high => storeLeft

end Half

lemma lane_eq (addr : UInt32) : lane addr = shift (addr.toNat % 4) := by
  have hlow : (addr &&& 3).toNat = addr.toNat % 4 := by
    rw [UInt32.toNat_and]
    exact Nat.and_two_pow_sub_one_eq_mod addr.toNat 2
  apply UInt32.toNat_inj.mp
  rw [lane, shift, UInt32.toNat_mul, hlow]
  simp

lemma sub_shift (hj : j < 4) : 24 - shift j = shift (3 - j) := by
  interval_cases j <;> rfl

/-- A load moves the bytes that lie in the aligned word, and keeps the others of the register. -/
lemma byteOf_mergeLoad (h : Half) (addr word rt : UInt32) (hk : k < 4) :
    byteOf (h.mergeLoad addr word rt) k = if h.Moves (addr.toNat % 4) k then
      byteOf word (k + addr.toNat % 4 - h.byte) else byteOf rt k := by
  have hj : addr.toNat % 4 < 4 := Nat.mod_lt _ (by decide)
  cases h with
  | low =>
    have hmerge : loadRight addr word rt = fillLow (addr.toNat % 4) rt word := by rw [loadRight, lane_eq, fillLow]
    rw [Half.mergeLoad, hmerge, byteOf_fillLow hj _ _ hk]
    simp [Half.Moves, Half.byte]
  | high =>
    have hmerge : loadLeft addr word rt = fillHigh (3 - addr.toNat % 4) rt word := by
      rw [loadLeft, lane_eq, fillHigh, ← sub_shift hj, sub_sub_cancel]
    rw [Half.mergeLoad, hmerge, byteOf_fillHigh (by omega) _ _ hk]
    generalize addr.toNat % 4 = j at hj ⊢
    by_cases hmoves : 3 ≤ k + j
    · rw [if_neg (by omega), if_pos ⟨hmoves, by simp only [Half.byte]; omega⟩, Half.byte,
        show k - (3 - j) = k + j - 3 by omega]
    · rw [if_pos (by omega), if_neg fun h => hmoves h.1]

/-- A store moves bytes of the register into the aligned word, and keeps the others of the word. -/
lemma byteOf_mergeStore (h : Half) (addr word rt : UInt32) (hk : k < 4) :
    byteOf (h.mergeStore addr word rt) k =
      if addr.toNat % 4 ≤ k + h.byte ∧ k + h.byte < addr.toNat % 4 + 4 then
        byteOf rt (k + h.byte - addr.toNat % 4) else byteOf word k := by
  have hj : addr.toNat % 4 < 4 := Nat.mod_lt _ (by decide)
  cases h with
  | low =>
    have hmerge : storeRight addr word rt = fillHigh (addr.toNat % 4) word rt := by rw [storeRight, lane_eq, fillHigh]
    rw [Half.mergeStore, hmerge, byteOf_fillHigh hj _ _ hk, Half.byte]
    generalize addr.toNat % 4 = j at hj ⊢
    by_cases hmoves : j ≤ k
    · rw [if_neg (by omega), if_pos ⟨hmoves, by omega⟩, Nat.add_zero]
    · rw [if_pos (by omega), if_neg fun h => hmoves h.1]
  | high =>
    have hmerge : storeLeft addr word rt = fillLow (3 - addr.toNat % 4) word rt := by
      rw [storeLeft, lane_eq, fillLow, ← sub_shift hj, sub_sub_cancel]
    rw [Half.mergeStore, hmerge, byteOf_fillLow (by omega) _ _ hk, Half.byte]
    generalize addr.toNat % 4 = j at hj ⊢
    by_cases hmoves : k + 3 < j + 4
    · rw [if_pos (by omega), if_pos ⟨by omega, hmoves⟩, show k + (3 - j) = k + 3 - j by omega]
    · rw [if_neg (by omega), if_neg fun h => hmoves h.2]

/-! ### Where the bytes lie -/

/-- The four bytes of the word at an address lie in one store. -/
def Spans (a : UInt32) : Prop := ∃ s, ∀ k < 4, (cellOf (a + k.toUInt32)).map Prod.fst = some s

/-- The cells of the word at an address: four in a row, where the first cell of a store follows the last one. -/
def Cells (a : UInt32) (s : Store) (i : Nat) : Prop :=
  ∀ k < 4, cellOf (a + k.toUInt32) = some (s, (i + k) % (4 * s.words))

variable {a : UInt32} {s : Store} {i : Nat}

lemma toNat_add_byte (a : UInt32) (hk : k < 4) : (a + k.toUInt32).toNat = (a.toNat + k) % 2 ^ 32 := by
  rw [UInt32.toNat_add]
  interval_cases k <;> rfl

lemma cellOf_add {j : Nat} (h : cellOf a = some (s, i)) (hk : k < 4) (hj : cellOf (a + k.toUInt32) = some (s, j)) :
    j = (i + k) % (4 * s.words) := by
  rw [cellOf_eq_some, toNat_physical] at h hj
  rw [toNat_add_byte a hk] at hj
  cases s <;> simp only [Store.base, Store.window, Store.words, ramWords, scratchpadWords] at h hj ⊢ <;> omega

lemma Spans.exists_cells (h : Spans a) : ∃ s i, Cells a s i := by
  obtain ⟨s, hs⟩ := h
  have hcell : ∀ k < 4, ∃ i, cellOf (a + k.toUInt32) = some (s, i) := by
    intro k hk
    obtain ⟨⟨s', i⟩, hi, rfl⟩ := Option.map_eq_some_iff.mp (hs k hk)
    exact ⟨i, hi⟩
  obtain ⟨i, hi⟩ := hcell 0 (by decide)
  refine ⟨s, i, fun k hk => ?_⟩
  obtain ⟨j, hj⟩ := hcell k hk
  rw [hj, cellOf_add (by simpa using hi) hk hj]

/-- An address of the first cell is one of the whole word, if it spans a word. -/
lemma Cells.alias (h : Cells a s i) {a' : UInt32} (ha' : Spans a') (hsame : cellOf a' = cellOf a) : Cells a' s i := by
  obtain ⟨s', i', h'⟩ := ha'.exists_cells
  have hzero : ∀ x : UInt32, x + Nat.toUInt32 0 = x := UInt32.add_zero
  have hfirst := h 0 (by decide)
  have hfirst' := h' 0 (by decide)
  rw [hzero] at hfirst hfirst'
  rw [hsame] at hfirst'
  obtain ⟨rfl, hcell⟩ := Prod.mk.inj (Option.some.inj (hfirst'.symm.trans hfirst))
  have hmod : i' ≡ i [MOD 4 * s'.words] := hcell
  intro k hk
  rw [h' k hk, hmod.add_right k]

lemma Cells.address (h : Cells a s i) (half : Half) :
    cellOf (half.address a) = some (s, (i + half.byte) % (4 * s.words)) :=
  h half.byte (by cases half <;> decide)

lemma cell_ne {k' : Nat} (hk : k < 4) (hk' : k' < 4) (hne : k ≠ k') :
    (i + k) % (4 * s.words) ≠ (i + k') % (4 * s.words) := by
  cases s <;> simp only [Store.words, ramWords, scratchpadWords] <;> omega

/-- The cell of a byte that is moved, in the aligned word around the addressed one. -/
lemma cell_of_moves {h : Half} (hk : k < 4) {x : Nat} (hx : x = (i + h.byte) % (4 * s.words))
    (hmoves : h.Moves (x % 4) k) : x / 4 * 4 + (k + x % 4 - h.byte) = (i + k) % (4 * s.words) := by
  obtain ⟨hlow, hhigh⟩ := hmoves
  cases h <;> cases s <;> simp only [Half.byte, Store.words, ramWords, scratchpadWords] at hx hlow hhigh ⊢ <;> omega

lemma moves_or (h : Half) (a : UInt32) (hk : k < 4) :
    h.Moves ((h.address a).toNat % 4) k ∨ h.other.Moves ((h.other.address a).toNat % 4) k := by
  have hlane : ∀ h : Half, (h.address a).toNat % 4 = (a.toNat + h.byte) % 4 := by
    intro h
    rw [Half.address, toNat_add_byte a (by cases h <;> decide)]
    omega
  rw [hlane, hlane]
  cases h <;> simp only [Half.Moves, Half.other, Half.byte] <;> omega

/-! ### Loads -/

open Board

variable {δ : Type} {hw : Hardware δ} {now : UInt64} {a pc offset v : UInt32} {c : Cpu} {b : Board δ} {rt base : Reg}
  {s : Store} {i k : Nat}

lemma Cells.byte? (h : Cells a s i) (m : Memory) (hk : k < 4) :
    m.byte? (a + k.toUInt32) = some (m.cell (s, (i + k) % (4 * s.words))) := by
  rw [Memory.byte?, h k hk, Option.map_some]

lemma Spans.exists_holds (h : Spans a) (m : Memory) : ∃ v, m.Holds a v := by
  obtain ⟨s, i, hcells⟩ := h.exists_cells
  refine ⟨ofBytes fun k => m.cell (s, (i + k) % (4 * s.words)), fun k hk => ?_⟩
  rw [hcells.byte? m hk, byteOf_ofBytes _ hk]

lemma serve_load (h : Half) (addr old : UInt32) : serve hw now (Instr.loadService h.load) addr old c b =
    ⟨h.mergeLoad addr (b.load hw now (wordAddress addr) .word).1 old, c,
      (b.load hw now (wordAddress addr) .word).2⟩ := by
  cases h <;> rfl

/-- The load of a half changes the bytes of the register that it moves, and nothing else. -/
lemma exec_load (hw : Hardware δ) (now : UInt64) (rt : Reg) (pc : UInt32) {h : Half} (hspan : Spans a)
    (hv : b.memory.Holds a v) (haddr : c.reg base + offset = h.address a) (habort : c.blockAborted = 0) :
    ∃ v', (Instr.load h.load rt base offset).exec (serve hw now) pc c b =
      ⟨false, { c with currentPc := pc }.set rt v', b⟩ ∧
        ∀ k < 4, byteOf v' k =
          if h.Moves ((h.address a).toNat % 4) k then byteOf v k else byteOf (c.reg rt) k := by
  obtain ⟨s, i, hcells⟩ := hspan.exists_cells
  have hcell := hcells.address h
  refine ⟨h.mergeLoad (h.address a) (b.load hw now (wordAddress (h.address a)) .word).1 (c.reg rt), ?_, ?_⟩
  · have hargument : Instr.loadArgument h.load (c.reg rt) = c.reg rt := by cases h <;> rfl
    have hextend : ∀ v, Instr.extend h.load v = v := by intro v; cases h <;> rfl
    dsimp only [Instr.exec, Host.ask]
    rw [haddr, hargument, serve_load, load_word hcell, Instr.whenServed, if_pos habort, hextend]
  · intro k hk
    rw [byteOf_mergeLoad _ _ _ _ hk]
    split
    · rename_i hmoves
      have hlane := mod_four_of_cellOf hcell
      rw [← hlane] at hmoves ⊢
      have hlow : k + (i + h.byte) % (4 * s.words) % 4 - h.byte < 4 := by
        have hhigh := hmoves.2
        omega
      rw [byteOf_load hcell hlow, cell_of_moves hk rfl hmoves]
      exact Option.some.inj ((hcells.byte? b.memory hk).symm.trans (hv k hk))
    · rfl

/-! ### Stores -/

/-- Some bytes of a word were stored at an address.  Nothing else is changed, apart from the record of the pages of
code. -/
structure Stored (P : Nat → Prop) (a v : UInt32) (b b' : Board δ) : Prop where
  io : b'.io = b.io
  bios : b'.memory.bios = b.memory.bios
  cacheControl : b'.memory.cacheControl = b.memory.cacheControl
  bytes : ∀ k < 4, P k → b'.memory.byte? (a + k.toUInt32) = some (byteOf v k)
  others : ∀ addr, (∀ k < 4, P k → cellOf addr ≠ cellOf (a + k.toUInt32)) →
    b'.memory.byte? addr = b.memory.byte? addr

lemma Stored.all {P : Nat → Prop} {b' : Board δ} (h : Stored P a v b b') (hP : ∀ k < 4, P k) :
    Stored (fun _ => True) a v b b' where
  io := h.io
  bios := h.bios
  cacheControl := h.cacheControl
  bytes k hk _ := h.bytes k hk (hP k hk)
  others addr haddr := h.others addr fun k hk _ => haddr k hk trivial

/-- Bytes that are stored one after another. -/
lemma Stored.trans {P Q : Nat → Prop} {b' b'' : Board δ} (hspan : Spans a) (h : Stored P a v b b')
    (h' : Stored Q a v b' b'') : Stored (fun k => P k ∨ Q k) a v b b'' where
  io := h'.io.trans h.io
  bios := h'.bios.trans h.bios
  cacheControl := h'.cacheControl.trans h.cacheControl
  bytes k hk hPQ := by
    by_cases hQ : Q k
    · exact h'.bytes k hk hQ
    · -- the later bytes have other cells than this one
      obtain ⟨s, i, hcells⟩ := hspan.exists_cells
      rw [h'.others, h.bytes k hk (hPQ.resolve_right hQ)]
      intro k' hk' hQ' hsame
      rw [hcells k hk, hcells k' hk'] at hsame
      have hne : k ≠ k' := by
        rintro rfl
        exact hQ hQ'
      exact cell_ne hk hk' hne (congrArg Prod.snd (Option.some.inj hsame))
  others addr haddr := by
    rw [h'.others addr fun k hk hQ => haddr k hk (.inr hQ), h.others addr fun k hk hP => haddr k hk (.inl hP)]

lemma serve_store (h : Half) (addr v : UInt32) : serve hw now (Instr.storeService h.store) addr v c b =
    ⟨0, c, (b.load hw now (wordAddress addr) .word).2.store hw now c.isolated (wordAddress addr)
      (h.mergeStore addr (b.load hw now (wordAddress addr) .word).1 v) .word⟩ := by
  cases h <;> rfl

lemma writesWord_store {x : UInt32} (hcell : cellOf x = some (s, i)) (v : UInt32) :
    (b.store hw now false (wordAddress x) v .word).io = b.io ∧
      Memory.WritesWord s (i / 4 * 4) v b.memory (b.store hw now false (wordAddress x) v .word).memory := by
  obtain ⟨memory, io⟩ := b
  have hpass : Memory.passesCache false (wordAddress x) = true := rfl
  exact Memory.store_word hpass (cellOf_wordAddress hcell) v io

/-- What the store of a half makes of a cell in the aligned word. -/
lemma cell_mergeStore {h : Half} {m : Memory} (hm : Memory.WritesWord s (i / 4 * 4)
    (h.mergeStore a (b.load hw now (wordAddress a) .word).1 v) b.memory m) (hcell : cellOf a = some (s, i)) {t : Nat}
    (ht : t < 4) : m.cell (s, i / 4 * 4 + t) = if i % 4 ≤ t + h.byte ∧ t + h.byte < i % 4 + 4 then
      byteOf v (t + h.byte - i % 4) else b.memory.cell (s, i / 4 * 4 + t) := by
  have hdiv : (i / 4 * 4 + t) / 4 = i / 4 * 4 / 4 := by omega
  have hmod : (i / 4 * 4 + t) % 4 = t := by omega
  rw [hm.cell, if_pos ⟨rfl, hdiv⟩, hmod, byteOf_mergeStore _ _ _ _ ht, byteOf_load hcell ht, mod_four_of_cellOf hcell]

/-- The store of a half changes the bytes of memory that it moves, and nothing else. -/
lemma exec_store (hw : Hardware δ) (now : UInt64) (b : Board δ) (rt : Reg) (pc : UInt32) {h : Half} (hspan : Spans a)
    (haddr : c.reg base + offset = h.address a) (habort : c.blockAborted = 0) (hisolated : c.isolated = false) :
    ∃ b', (Instr.store h.store rt base offset).exec (serve hw now) pc c b =
      ⟨false, { c with currentPc := pc }, b'⟩ ∧
        Stored (h.Moves ((h.address a).toNat % 4)) a (c.reg rt) b b' := by
  obtain ⟨s, i, hcells⟩ := hspan.exists_cells
  have hcell := hcells.address h
  have hlane := mod_four_of_cellOf hcell
  set x := (i + h.byte) % (4 * s.words) with hx
  obtain ⟨hio, hwrites⟩ := writesWord_store (b := b) hcell
    (h.mergeStore (h.address a) (b.load hw now (wordAddress (h.address a)) .word).1 (c.reg rt))
  refine ⟨_, ?_, hio, hwrites.bios, hwrites.cacheControl, ?_, ?_⟩
  · have hisolated' : Cpu.isolated { c with currentPc := pc } = false := hisolated
    dsimp only [Instr.exec, Host.ask]
    rw [haddr, serve_store, hisolated', Instr.whenServed, if_pos habort, load_word hcell]
  · intro k hk hmoves
    rw [← hlane] at hmoves
    have hwhere := cell_of_moves hk hx hmoves
    obtain ⟨hlow, hhigh⟩ := hmoves
    rw [hcells.byte? _ hk, ← hwhere, cell_mergeStore hwrites hcell (by omega), if_pos (by omega),
      show k + x % 4 - h.byte + h.byte - x % 4 = k by omega]
  · intro addr hothers
    rw [Memory.byte?, Memory.byte?]
    cases haddr : cellOf addr with
    | none => rfl
    | some y =>
      obtain ⟨s', j⟩ := y
      rw [Option.map_some, Option.map_some]
      by_cases hin : s' = s ∧ j / 4 = x / 4
      · obtain ⟨rfl, hdiv⟩ := hin
        obtain ⟨t, ht, rfl⟩ : ∃ t < 4, j = x / 4 * 4 + t := ⟨j % 4, by omega, by omega⟩
        rw [cell_mergeStore hwrites hcell ht]
        split
        · rename_i hmoved
          -- the cell is that of a byte that is moved
          have hmoves : h.Moves (x % 4) (t + h.byte - x % 4) := ⟨by omega, by omega⟩
          have hk : t + h.byte - x % 4 < 4 := by omega
          refine absurd ?_ (hothers _ hk (hlane ▸ hmoves))
          rw [haddr, hcells _ hk, ← cell_of_moves hk hx hmoves]
          congr 3
          omega
        · rfl
      · rw [hwrites.cell, if_neg]
        intro hin'
        exact hin ⟨hin'.1, by omega⟩

/-! ### Pairs -/

/-- The two halves of a word at an address are loaded in either order: the register then holds the word, whatever it
held before, and nothing else is changed. -/
def LoadsWord (hw : Hardware δ) (now : UInt64) (a v : UInt32) (b : Board δ) : Prop :=
  ∀ (h : Half) (rt base base' : Reg) (offset offset' pc pc' : UInt32) (c : Cpu), c.blockAborted = 0 →
    let r := (Instr.load h.load rt base offset).exec (serve hw now) pc c b
    c.reg base + offset = h.address a → r.cpu.reg base' + offset' = h.other.address a →
      r.stop = false ∧ (Instr.load h.other.load rt base' offset').exec (serve hw now) pc' r.cpu r.rest =
        ⟨false, { c with currentPc := pc' }.set rt v, b⟩

/-- The two halves of a register are stored at an address in either order: memory then holds the word, and nothing else
is changed.  The word is loaded again from any address of its bytes. -/
def StoresWord (hw : Hardware δ) (now : UInt64) (a : UInt32) (b : Board δ) : Prop :=
  ∀ (h : Half) (rt base base' : Reg) (offset offset' pc pc' : UInt32) (c : Cpu), c.blockAborted = 0 →
    c.isolated = false → c.reg base + offset = h.address a → c.reg base' + offset' = h.other.address a →
      let r := (Instr.store h.store rt base offset).exec (serve hw now) pc c b
      ∃ b', r.stop = false ∧ (Instr.store h.other.store rt base' offset').exec (serve hw now) pc' r.cpu r.rest =
        ⟨false, { c with currentPc := pc' }, b'⟩ ∧ Stored (fun _ => True) a (c.reg rt) b b' ∧
          ∀ a', Spans a' → cellOf a' = cellOf a → LoadsWord hw now a' (c.reg rt) b'

lemma loadsWord_of_holds (hspan : Spans a) (hv : b.memory.Holds a v) : LoadsWord hw now a v b := by
  intro h rt base base' offset offset' pc pc' c habort r haddr haddr'
  obtain ⟨v₁, hexec, hbytes⟩ := exec_load hw now rt pc hspan hv haddr habort
  replace hexec : r = _ := hexec
  clear_value r
  subst hexec
  obtain ⟨v₂, hexec, hbytes'⟩ := exec_load hw now rt pc' hspan hv haddr' (by simpa using habort)
  refine ⟨rfl, hexec.trans ?_⟩
  by_cases hrt : rt = 0
  · rw [hrt]
    rfl
  · have hword : v₂ = v := by
      refine eq_of_byteOf fun k hk => ?_
      rw [hbytes' k hk, Cpu.reg_set_self hrt]
      split
      · rfl
      · rename_i hother
        rw [hbytes k hk, if_pos ((moves_or h a hk).resolve_right hother)]
    rw [hword, Cpu.set_again]

/-- Bytes are those of the cell, whatever the address. -/
lemma Stored.holds (h : Stored (fun _ => True) a v b b') (hcells : Cells a s i) {a' : UInt32} (ha' : Cells a' s i) :
    b'.memory.Holds a' v := by
  intro k hk
  rw [ha'.byte? _ hk, ← hcells.byte? _ hk]
  exact h.bytes k hk trivial

lemma storesWord (hspan : Spans a) : StoresWord hw now a b := by
  intro h rt base base' offset offset' pc pc' c habort hisolated haddr haddr' r
  obtain ⟨b₁, hexec, hstored⟩ := exec_store hw now b rt pc hspan haddr habort hisolated
  replace hexec : r = _ := hexec
  clear_value r
  subst hexec
  obtain ⟨b₂, hexec, hstored'⟩ := exec_store hw now b₁ rt pc' (c := { c with currentPc := pc }) hspan
    haddr' habort hisolated
  have hall : Stored (fun _ => True) a (c.reg rt) b b₂ := (hstored.trans hspan hstored').all fun k hk => moves_or h a hk
  refine ⟨b₂, rfl, hexec, hall, fun a' ha' hsame => ?_⟩
  obtain ⟨s, i, hcells⟩ := hspan.exists_cells
  exact loadsWord_of_holds ha' (hall.holds hcells (hcells.alias ha' hsame))

end Unaligned

/-- The two halves of a word are moved exactly, at any address whose four bytes lie in one store. -/
theorem Board.unaligned_exact {δ : Type} (hw : Hardware δ) (now : UInt64) {a : UInt32} (ha : Unaligned.Spans a)
    (b : Board δ) :
    (∃ v, b.memory.Holds a v ∧ Unaligned.LoadsWord hw now a v b) ∧ Unaligned.StoresWord hw now a b := by
  obtain ⟨v, hv⟩ := ha.exists_holds b.memory
  exact ⟨⟨v, hv, Unaligned.loadsWord_of_holds ha hv⟩, Unaligned.storesWord ha⟩

/-- A register stored across the seam of two images of main memory, and loaded through another segment and image. -/
theorem Board.unaligned_exact_seam :
    let host := serve (.absent Unit) 0
    let r := (Instr.store .wordRight 8 0 0x001FFFFE).exec host 0 running idle
    ∃ b, (Instr.store .wordLeft 8 0 0x00200001).exec host 4 r.cpu r.rest = ⟨false, { running with currentPc := 4 }, b⟩ ∧
      let r := (Instr.load .wordLeft 9 0 0xA0400001).exec host 8 running b
      (Instr.load .wordRight 9 0 0xA03FFFFE).exec host 12 r.cpu r.rest =
        ⟨false, { running with currentPc := 12 }.set 9 0x7FFFFFFF, b⟩ := by
  intro host r
  have hreg : running.reg 8 = 0x7FFFFFFF := by decide
  obtain ⟨-, hstores⟩ := unaligned_exact (.absent Unit) 0 (a := 0x001FFFFE) ⟨.ram, by decide⟩ idle
  obtain ⟨b, -, hexec, -, hloads⟩ := hstores .low 8 0 0 0x001FFFFE 0x00200001 0 4 running (by decide) (by decide)
    (by decide) (by decide)
  have hloads' := hloads 0xA03FFFFE ⟨.ram, by decide⟩ (by decide) .high 9 0 0 0xA0400001 0xA03FFFFE 8 12 running
    (by decide) (by decide) (by rw [Cpu.reg_zero]; decide)
  rw [hreg] at hloads'
  exact ⟨b, hexec, hloads'.2⟩

end R3000
