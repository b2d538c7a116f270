import Mathlib
import R3000.Proofs.Memory.Fetch
import R3000.Proofs.Memory.Pages
import R3000.Serve

/-!
# Memory byte by byte

Main memory and the scratchpad hold words with their low bytes first.  A cell is a byte of either; `cellOf` says which
one is behind an address, so that addresses in different images and segments have the same cell.  A word is read from
four cells and written to four, and nothing else is changed by it.
-/

namespace R3000

/-! ### The bytes of a word -/

/-- A byte of a word, the low one first. -/
def Word.byteOf (v : UInt32) (k : Nat) : UInt8 := (v.toNat >>> (8 * k)).toUInt8

open Word

namespace Word

variable {v w : UInt32} {k : Nat}

lemma toNat_byteOf (v : UInt32) (k : Nat) : (byteOf v k).toNat = v.toNat / 2 ^ (8 * k) % 256 := by
  rw [byteOf, Nat.toUInt8, UInt8.toNat_ofNat', Nat.shiftRight_eq_div_pow]

lemma toUInt8_shiftRight (v n : UInt32) (hn : n.toNat = 8 * k) (hk : k < 4) : (v >>> n).toUInt8 = byteOf v k := by
  have hmod : 8 * k % 32 = 8 * k := Nat.mod_eq_of_lt (by omega)
  apply UInt8.toNat_inj.mp
  rw [toNat_byteOf, UInt32.toNat_toUInt8, UInt32.toNat_shiftRight, hn, hmod, Nat.shiftRight_eq_div_pow]

lemma toNat_place (x : UInt8) {n : UInt32} (hn : n.toNat = k) (hk : k ≤ 24) :
    (x.toUInt32 <<< n).toNat = 2 ^ k * x.toNat := by
  have hpow : 2 ^ k * x.toNat < 2 ^ 32 :=
    (Nat.mul_lt_mul_of_le_of_lt (Nat.pow_le_pow_right (by decide) hk) x.toNat_lt (by decide)).trans_eq
      (by decide : 2 ^ 24 * 2 ^ 8 = 2 ^ 32)
  rw [UInt32.toNat_shiftLeft, UInt8.toNat_toUInt32, hn, Nat.mod_eq_of_lt (hk.trans_lt (by decide)), Nat.shiftLeft_eq,
    Nat.mul_comm, Nat.mod_eq_of_lt hpow]

/-- The word with some bytes, the low one first. -/
def ofBytes (f : Nat → UInt8) : UInt32 :=
  (f 0).toUInt32 ||| (f 1).toUInt32 <<< 8 ||| (f 2).toUInt32 <<< 16 ||| (f 3).toUInt32 <<< 24

lemma toNat_ofBytes (f : Nat → UInt8) : (ofBytes f).toNat =
    2 ^ 24 * (f 3).toNat + (2 ^ 16 * (f 2).toNat + (2 ^ 8 * (f 1).toNat + (f 0).toNat)) := by
  have h0 := (f 0).toNat_lt
  have h1 := (f 1).toNat_lt
  have h2 := (f 2).toNat_lt
  rw [ofBytes, UInt32.toNat_or, UInt32.toNat_or, UInt32.toNat_or, toNat_place _ (k := 8) rfl (by decide),
    toNat_place _ (k := 16) rfl (by decide), toNat_place _ (k := 24) rfl (by decide), UInt8.toNat_toUInt32,
    Nat.or_comm _ (2 ^ 8 * _), ← Nat.two_pow_add_eq_or_of_lt h0, Nat.or_comm _ (2 ^ 16 * _),
    ← Nat.two_pow_add_eq_or_of_lt (by omega), Nat.or_comm _ (2 ^ 24 * _), ← Nat.two_pow_add_eq_or_of_lt (by omega)]

lemma byteOf_ofBytes (f : Nat → UInt8) (hk : k < 4) : byteOf (ofBytes f) k = f k := by
  have h0 := (f 0).toNat_lt
  have h1 := (f 1).toNat_lt
  have h2 := (f 2).toNat_lt
  have h3 := (f 3).toNat_lt
  apply UInt8.toNat_inj.mp
  rw [toNat_byteOf, toNat_ofBytes]
  interval_cases k <;> simp only [Nat.reduceMul, Nat.reducePow] <;> omega

/-- Masking the low bits away. -/
lemma and_high {n a b : Nat} (h : n < 2 ^ (a + b)) : n &&& ((2 ^ b - 1) * 2 ^ a) = n / 2 ^ a * 2 ^ a := by
  have hlow : (n &&& ((2 ^ b - 1) * 2 ^ a)) % 2 ^ a = 0 := by
    rw [Nat.and_mod_two_pow, Nat.mul_mod_left, Nat.and_zero]
  have hhigh : (n &&& ((2 ^ b - 1) * 2 ^ a)) / 2 ^ a = n / 2 ^ a := by
    rw [Nat.and_div_two_pow, Nat.mul_div_cancel _ (Nat.two_pow_pos a), Nat.and_two_pow_sub_one_eq_mod]
    exact Nat.mod_eq_of_lt (Nat.div_lt_of_lt_mul (by rwa [← Nat.pow_add]))
  rw [← hhigh, Nat.div_mul_cancel (Nat.dvd_of_mod_eq_zero hlow)]

/-- A word is known by its bytes. -/
lemma eq_of_byteOf (h : ∀ k < 4, byteOf v k = byteOf w k) : v = w := by
  have hbyte : ∀ k < 4, v.toNat / 2 ^ (8 * k) % 256 = w.toNat / 2 ^ (8 * k) % 256 := by
    intro k hk
    rw [← toNat_byteOf, ← toNat_byteOf, h k hk]
  have hv := v.toNat_lt
  have hw := w.toNat_lt
  have h0 := hbyte 0 (by decide)
  have h1 := hbyte 1 (by decide)
  have h2 := hbyte 2 (by decide)
  have h3 := hbyte 3 (by decide)
  apply UInt32.toNat_inj.mp
  omega

end Word

namespace Bank

variable {n : Nat}

lemma read_word (b : Bank n) (i : Nat) : b.read .word i = b.wordAt (i / 4 * 4) := rfl

/-- A word is read with its low byte first. -/
lemma byteOf_wordAt (b : Bank n) (i : Nat) {k : Nat} (hk : k < 4) : byteOf (b.wordAt i) k = b.byte (i + k) :=
  byteOf_ofBytes (fun k => b.byte (i + k)) hk

/-- A unit is read with its low byte first, and zeros above. -/
lemma byteOf_read (b : Bank n) (w : Width) (i : Nat) {k : Nat} (hk : k < 4) :
    byteOf (b.read w i) k = if k < w.bytes then b.byte (w.align i + k) else 0 := by
  have hread : b.read w i = ofBytes fun k => if k < w.bytes then b.byte (w.align i + k) else 0 := by
    cases w <;> simp [read, halfAt, wordAt, ofBytes, Width.bytes, Width.align]
  rw [hread, byteOf_ofBytes _ hk]

/-- A unit is written with its low byte first, and no other byte is. -/
lemma byte_write (b : Bank n) (w : Width) {i : Nat} (hi : i < 4 * n) (v : UInt32) (j : Nat) :
    (b.write w i v).byte j =
      if w.align i ≤ j ∧ j < w.align i + w.bytes then byteOf v (j - w.align i) else b.byte j := by
  have h0 : v.toUInt8 = byteOf v 0 := by simp [byteOf]
  have h1 : (v >>> 8).toUInt8 = byteOf v 1 := toUInt8_shiftRight v 8 rfl (by decide)
  have h2 : (v >>> 16).toUInt8 = byteOf v 2 := toUInt8_shiftRight v 16 rfl (by decide)
  have h3 : (v >>> 24).toUInt8 = byteOf v 3 := toUInt8_shiftRight v 24 rfl (by decide)
  have hbyte : Width.byte.align i = i := Nat.div_mul_cancel (one_dvd i)
  have hfits := w.align_add_bytes_le hi
  cases w with
  | byte =>
    simp only [write, h0, hbyte, Width.bytes] at hfits ⊢
    rw [byte_setByte _ (by omega)]
    grind
  | half =>
    simp only [write, h0, h1, Width.bytes] at hfits ⊢
    rw [byte_setByte _ (by omega), byte_setByte _ (by omega)]
    grind
  | word =>
    simp only [write, h0, h1, h2, h3, Width.bytes] at hfits ⊢
    rw [byte_setByte _ (by omega), byte_setByte _ (by omega), byte_setByte _ (by omega), byte_setByte _ (by omega)]
    grind

end Bank

/-! ### Cells -/

/-- A store whose bytes programs read and write. -/
inductive Store
  | ram
  | scratchpad
  deriving DecidableEq, Repr

namespace Store

/-- The number of words of a store. -/
def words : Store → Nat
  | ram => ramWords
  | scratchpad => scratchpadWords

/-- The physical address at which the images of a store begin. -/
def base : Store → Nat
  | ram => 0
  | scratchpad => 0x1F800000

/-- The number of addresses that the images of a store take. -/
def window : Store → Nat
  | ram => 0x800000
  | scratchpad => 0x400

end Store

/-- A byte of a store. -/
abbrev Cell := Store × Nat

/-- The cell behind an address. -/
def cellOf (addr : UInt32) : Option Cell :=
  match Region.ofAddress addr with
  | .ram i => some (.ram, i)
  | .scratchpad i => some (.scratchpad, i)
  | _ => none

namespace Memory

/-- The bank of a store. -/
def bank (m : Memory) : (s : Store) → Bank s.words
  | .ram => m.ram
  | .scratchpad => m.scratchpad

/-- The byte of a cell. -/
def cell (m : Memory) (x : Cell) : UInt8 := (m.bank x.1).byte x.2

@[simp] lemma cell_ram (m : Memory) (i : Nat) : m.cell (.ram, i) = m.ram.byte i := rfl

@[simp] lemma cell_scratchpad (m : Memory) (i : Nat) : m.cell (.scratchpad, i) = m.scratchpad.byte i := rfl

/-- The byte behind an address, if it has a cell. -/
def byte? (m : Memory) (addr : UInt32) : Option UInt8 := (cellOf addr).map m.cell

/-- A word lies at an address, the low byte first. -/
def Holds (m : Memory) (a v : UInt32) : Prop := ∀ k < 4, m.byte? (a + k.toUInt32) = some (byteOf v k)

end Memory

variable {addr : UInt32} {s : Store} {i : Nat}

/-- The images of a store are one after another. -/
lemma cellOf_eq_some : cellOf addr = some (s, i) ↔ s.base ≤ (physical addr).toNat ∧
    (physical addr).toNat < s.base + s.window ∧ i = ((physical addr).toNat - s.base) % (4 * s.words) := by
  have hoffset : 0x1F800000 ≤ (physical addr).toNat →
      (physical addr - 0x1F800000).toNat = (physical addr).toNat - 0x1F800000 :=
    fun hle => UInt32.toNat_sub_of_le _ _ (UInt32.le_iff_toNat_le.mpr hle)
  rw [cellOf, Region.ofAddress]
  simp only [UInt32.lt_iff_toNat_lt, UInt32.reduceToNat]
  cases s <;> simp only [Store.base, Store.window, Store.words, ramWords, scratchpadWords] <;> split_ifs <;>
    simp only [Option.some.injEq, Prod.mk.injEq, reduceCtorEq, true_and, false_and, false_iff] <;> omega

lemma mod_four_of_cellOf (h : cellOf addr = some (s, i)) : i % 4 = addr.toNat % 4 := by
  rw [cellOf_eq_some, toNat_physical] at h
  cases s <;> simp only [Store.base, Store.window, Store.words, ramWords, scratchpadWords] at h <;> omega

/-! ### Words of cells -/

namespace Board

lemma toNat_wordAddress (addr : UInt32) : (wordAddress addr).toNat = addr.toNat / 4 * 4 := by
  rw [wordAddress, UInt32.toNat_and]
  exact and_high (a := 2) (b := 30) addr.toNat_lt

/-- The word around an address begins at a cell whose number is a multiple of four. -/
lemma cellOf_wordAddress (h : cellOf addr = some (s, i)) : cellOf (wordAddress addr) = some (s, i / 4 * 4) := by
  rw [cellOf_eq_some, toNat_physical] at h ⊢
  rw [toNat_wordAddress]
  cases s <;> simp only [Store.base, Store.window, Store.words, ramWords, scratchpadWords] at h ⊢ <;> omega

variable {δ : Type} {hw : Hardware δ} {now : UInt64} {b : Board δ}

lemma load_word (h : cellOf addr = some (s, i)) :
    b.load hw now (wordAddress addr) .word = ((b.memory.bank s).wordAt (i / 4 * 4), b) := by
  have hword := cellOf_wordAddress h
  rw [cellOf] at hword
  split at hword <;> rename_i hregion
  case h_3 => cases hword
  all_goals
    obtain ⟨rfl, hj⟩ := Prod.mk.inj (Option.some.inj hword)
    rw [load, Memory.load, hregion]
    dsimp only
    rw [Bank.read_word, hj, Nat.mul_div_cancel _ (by decide)]
    rfl

/-- The bytes of the word around an address are those of its cells. -/
lemma byteOf_load (h : cellOf addr = some (s, i)) {k : Nat} (hk : k < 4) :
    byteOf (b.load hw now (wordAddress addr) .word).1 k = b.memory.cell (s, i / 4 * 4 + k) := by
  rw [load_word h]
  exact Bank.byteOf_wordAt _ _ hk

end Board

namespace Memory

variable {σ : Type} {m : Memory} {window : Window σ}

/-- What a unit that is stored changes: the cells of the aligned unit around a cell. -/
structure Writes (s : Store) (w : Width) (i : Nat) (v : UInt32) (m m' : Memory) : Prop where
  bios : m'.bios = m.bios
  cacheControl : m'.cacheControl = m.cacheControl
  cell : ∀ x : Cell, m'.cell x =
    if x.1 = s ∧ w.align i ≤ x.2 ∧ x.2 < w.align i + w.bytes then byteOf v (x.2 - w.align i) else m.cell x

variable {w : Width} {v : UInt32} {m' : Memory}

lemma writes_ram (m : Memory) (w : Width) (i : Fin (4 * ramWords)) (v : UInt32) :
    Writes .ram w i v m { m with ram := m.ram.write w i v } where
  bios := rfl
  cacheControl := rfl
  cell := by
    rintro ⟨s, j⟩
    cases s with
    | ram => simp [Bank.byte_write]
    | scratchpad => simp

lemma writes_scratchpad (m : Memory) (w : Width) (i : Fin (4 * scratchpadWords)) (v : UInt32) :
    Writes .scratchpad w i v m { m with scratchpad := m.scratchpad.write w i v } where
  bios := rfl
  cacheControl := rfl
  cell := by
    rintro ⟨s, j⟩
    cases s with
    | ram => simp
    | scratchpad => simp [Bank.byte_write]

lemma Writes.touch (h : Writes s w i v m m') (p : Page) : Writes s w i v m (m'.touch p) := by
  rw [Memory.touch]
  split
  · exact ⟨h.bios, h.cacheControl, h.cell⟩
  · exact h

lemma store_cell {isolated : Bool} (hpass : passesCache isolated addr = true) (h : cellOf addr = some (s, i))
    (m : Memory) (window : Window σ) (w : Width) (v : UInt32) (x : σ) :
    (m.store window isolated addr v w x).2 = x ∧ Writes s w i v m (m.store window isolated addr v w x).1 := by
  rw [store, if_pos hpass]
  rw [cellOf] at h
  split at h <;> rename_i hregion <;> cases h <;> rw [hregion]
  · exact ⟨rfl, (writes_ram m w _ v).touch _⟩
  · exact ⟨rfl, writes_scratchpad m w _ v⟩

/-- What a word that is stored changes: the four cells around a cell. -/
structure WritesWord (s : Store) (i : Nat) (v : UInt32) (m m' : Memory) : Prop where
  bios : m'.bios = m.bios
  cacheControl : m'.cacheControl = m.cacheControl
  cell : ∀ x : Cell, m'.cell x = if x.1 = s ∧ x.2 / 4 = i / 4 then byteOf v (x.2 % 4) else m.cell x

lemma Writes.word (h : Writes s .word i v m m') : WritesWord s i v m m' where
  bios := h.bios
  cacheControl := h.cacheControl
  cell x := by
    have halign : Width.word.align i = i / 4 * 4 := rfl
    have hbytes : Width.word.bytes = 4 := rfl
    rw [h.cell]
    by_cases hx : x.1 = s ∧ x.2 / 4 = i / 4
    · rw [if_pos hx, if_pos ⟨hx.1, by omega, by omega⟩]
      congr 1
      omega
    · rw [if_neg hx, if_neg fun h => hx ⟨h.1, by omega⟩]

lemma store_word {isolated : Bool} (hpass : passesCache isolated addr = true) (h : cellOf addr = some (s, i))
    (v : UInt32) (x : σ) : (m.store window isolated addr v .word x).2 = x ∧
      WritesWord s i v m (m.store window isolated addr v .word x).1 :=
  (store_cell hpass h m window .word v x).imp_right Writes.word

end Memory

end R3000
