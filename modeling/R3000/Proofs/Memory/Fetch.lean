import Mathlib
import R3000.Memory.Basic
import R3000.Proofs.Planning

/-!
# Where instruction words come from

Words can be fetched from main memory and the boot ROM, whatever these hold, so a block ends where its store
ends.  It may run from one image of main memory into the next one.
-/

namespace R3000

variable {m m' : Memory} {addr pc : UInt32} {cap : UInt32} {p : Plan}

/-! ### Addresses -/

lemma toNat_physical (addr : UInt32) : (physical addr).toNat = addr.toNat % 2 ^ 29 := by
  rw [physical, UInt32.toNat_and]
  exact Nat.and_two_pow_sub_one_eq_mod addr.toNat 29

lemma aligned_iff (addr : UInt32) : addr &&& 3 = 0 ↔ addr.toNat % 4 = 0 := by
  rw [← UInt32.toNat_inj, UInt32.toNat_and]
  exact iff_of_eq (congrArg (· = 0) (Nat.and_two_pow_sub_one_eq_mod addr.toNat 2))

lemma toNat_wordPc (pc : UInt32) (k : Nat) : (Plan.wordPc pc k).toNat = (pc.toNat + 4 * k) % 2 ^ 32 := by
  rw [Plan.wordPc, UInt32.toNat_add, UInt32.toNat_mul]
  simp

lemma toNat_physical_wordPc (pc : UInt32) (k : Nat) (h : (physical pc).toNat + 4 * k < 2 ^ 29) :
    (physical (Plan.wordPc pc k)).toNat = (physical pc).toNat + 4 * k := by
  rw [toNat_physical] at h
  rw [toNat_physical, toNat_physical, toNat_wordPc]
  omega

/-! ### Readable addresses -/

namespace Memory

lemma ofAddress_of_ram (h : (physical addr).toNat < 0x800000) :
    Region.ofAddress addr = .ram ⟨(physical addr).toNat % (4 * ramWords), Nat.mod_lt _ (by decide)⟩ :=
  if_pos (UInt32.lt_iff_toNat_lt.mpr h)

lemma physical_of_ram {start : Fin (4 * ramWords)} (h : Region.ofAddress addr = .ram start) :
    (physical addr).toNat < 0x800000 ∧ start.val = (physical addr).toNat % 0x200000 := by
  have hphys : (physical addr).toNat < 0x800000 := by
    by_contra hge
    rw [Region.ofAddress] at h
    rw [if_neg fun hlt => hge (UInt32.lt_iff_toNat_lt.mp hlt)] at h
    split_ifs at h
  rw [ofAddress_of_ram hphys] at h
  exact ⟨hphys, (congrArg Fin.val (Region.ram.inj h)).symm⟩

/-- Which addresses hold words. -/
lemma isSome_fetch (m : Memory) (addr : UInt32) : (m.fetch addr).isSome ↔ addr.toNat % 4 = 0 ∧
    ((physical addr).toNat < 0x800000 ∨
      0x1FC00000 ≤ (physical addr).toNat ∧ (physical addr).toNat < 0x1FC80000) := by
  rw [fetch, ← aligned_iff]
  split
  · rename_i haligned
    rw [and_iff_right haligned, Region.ofAddress]
    simp only [UInt32.lt_iff_toNat_lt, UInt32.reduceToNat]
    split_ifs <;> simp only [Option.isSome_some, Option.isSome_none, Bool.false_eq_true, true_iff,
      false_iff] <;> omega
  · rename_i haligned
    simp [haligned]

lemma isSome_fetch_congr (m m' : Memory) (addr : UInt32) :
    (m'.fetch addr).isSome = (m.fetch addr).isSome := by
  rw [Bool.eq_iff_iff, isSome_fetch, isSome_fetch]

@[simp] lemma word?_source (m : Memory) (addr : UInt32) : m.source.word? addr = m.fetch addr := by
  rw [Source.word?, source]
  cases m.fetch addr <;> rfl

/-- Where memory has no word, the program is at fault. -/
lemma sound_source (m : Memory) (pc : UInt32) : m.source.Sound pc := by
  intro err herr
  rw [source] at herr
  cases hfetch : m.fetch pc with
  | none =>
    rw [hfetch] at herr
    obtain rfl := Except.error.inj herr
    rfl
  | some w =>
    rw [hfetch] at herr
    cases herr

/-- A fetch depends on the boot ROM and on one word of main memory. -/
lemma fetch_congr (hbios : m'.bios = m.bios)
    (hram : ∀ i, Region.ofAddress addr = .ram i → m'.ram.read .word i = m.ram.read .word i) :
    m'.fetch addr = m.fetch addr := by
  rw [fetch, fetch]
  split
  · cases hregion : Region.ofAddress addr with
    | ram i => exact congrArg some (hram i hregion)
    | bios i => exact congrArg (fun bios => some (Bank.read bios .word i)) hbios
    | _ => rfl
  · rfl

lemma source_congr (hbios : m'.bios = m.bios)
    (hram : ∀ i, Region.ofAddress addr = .ram i → m'.ram.read .word i = m.ram.read .word i) :
    m'.source addr = m.source addr := by
  rw [source, source, fetch_congr hbios hram]

/-! ### The extent of a block -/

/-- A block made of fetched words leaves its store by one word at most, which is then a delay slot. -/
lemma extent (h : Plan.ofSource m.source true pc cap = .ok p) : pc.toNat % 4 = 0 ∧
    ((physical pc).toNat < 0x800000 ∧ (physical pc).toNat + 4 * p.length ≤ 0x800000 + 4 ∨
      0x1FC00000 ≤ (physical pc).toNat ∧ (physical pc).toNat < 0x1FC80000 ∧
        (physical pc).toNat + 4 * p.length ≤ 0x1FC80000 + 4) := by
  obtain ⟨haligned, hstore⟩ := (isSome_fetch m pc).mp (word?_source m pc ▸ (Plan.ofSource_eq_ok.mp h).1)
  -- the first word past the store would have to be readable
  have hbound : ∀ stop : Nat, (physical pc).toNat < stop → stop % 4 = 0 → stop < 2 ^ 29 →
      (∀ a, (physical a).toNat = stop → ¬ (m.fetch a).isSome) →
        (physical pc).toNat + 4 * p.length ≤ stop + 4 := by
    intro stop hlt hstop hsmall hunreadable
    by_contra hlong
    have hphys := toNat_physical pc
    obtain ⟨k, hk⟩ : ∃ k, (physical pc).toNat + 4 * k = stop :=
      ⟨(stop - (physical pc).toNat) / 4, by omega⟩
    have hword := toNat_physical_wordPc pc k (by omega)
    exact hunreadable _ (hword.trans hk) (word?_source m _ ▸ Plan.isSome_of_lt_length h (by omega))
  refine ⟨haligned, ?_⟩
  rcases hstore with hram | ⟨hlow, hhigh⟩
  · refine .inl ⟨hram, hbound _ hram (by decide) (by decide) fun a ha => ?_⟩
    rw [isSome_fetch]
    omega
  · refine .inr ⟨hlow, hhigh, hbound _ hhigh (by decide) (by decide) fun a ha => ?_⟩
    rw [isSome_fetch]
    omega

/-- No block made of fetched words is longer than main memory's window. -/
lemma length_le (h : Plan.ofSource m.source true pc cap = .ok p) : p.length ≤ 0x200001 := by
  obtain ⟨-, hextent⟩ := extent h
  omega

end Memory

end R3000
