import Mathlib
import R3000.Translator
import R3000.Machine.Basic
import R3000.Proofs.Cache.Ranges
import R3000.Proofs.Memory.Fetch
import R3000.Proofs.Memory.Pages

/-!
# Blocks and the memory behind them

A block is made of the words that memory held when it was translated.  `Backs` says what is left of that:
the boot ROM is as it was then, and so is every page of main memory that the block covers in the image it
starts in, which is marked.  A block that stays in its image is then a translation of memory as it is now.

Words past the end of the image are not watched: no mark is set for them.
-/

namespace R3000

variable {cap : UInt32} {e : Entry Block} {m m' : Memory} {p : Page}

namespace Entry

/-- The block is what a source of words gives at its address. -/
structure Translates (source : Source) (cap : UInt32) (e : Entry Block) : Prop where
  plan : Plan.ofSource source true e.pc cap = .ok e.code.plan
  sourceLen : e.sourceLen = e.code.plan.sourceLen
  cycles : e.cycles = e.code.plan.cycles

/-- The block ends in the image of main memory that it starts in; the last image ends with main memory. -/
def StaysInImage (e : Entry Block) : Prop :=
  (physical e.pc).toNat < 0x600000 →
    (physical e.pc).toNat % (4 * ramWords) + 4 * e.sourceLen.toNat ≤ 4 * ramWords

/-- A word after an address lies in the image of main memory that the address lies in. -/
def InImage (pc : UInt32) (k : Nat) : Prop :=
  ∀ start, Region.ofAddress pc = .ram start → start + 4 * k < 4 * ramWords

/-- The page holds a word of the block, in the image of main memory that the block starts in. -/
def Covers (e : Entry Block) (p : Page) : Prop :=
  ∃ start, Region.ofAddress e.pc = .ram start ∧ ∃ k < e.code.plan.length,
    start + 4 * k < 4 * ramWords ∧ (start + 4 * k) / pageBytes = p

namespace Translates

lemma toNat_sourceLen (h : e.Translates m.source cap) : e.sourceLen.toNat = e.code.plan.length := by
  have hle := Memory.length_le h.plan
  rw [h.sourceLen, Plan.sourceLen]
  exact UInt32.toNat_ofNat_of_lt' (by rw [UInt32.size]; omega)

lemma toNat_sourceBytes (h : e.Translates m.source cap) :
    e.sourceBytes.toNat = 4 * e.code.plan.length := by
  have hle := Memory.length_le h.plan
  rw [sourceBytes, h.toNat_sourceLen]
  refine (UInt32.toNat_ofNat_of_lt' ?_).trans ?_
  · rw [UInt32.size]
    omega
  · omega

/-- Marking a block marks every page it covers. -/
lemma isCode_markCode (h : e.Translates m.source cap) (hp : e.Covers p) :
    (m.markCode e.pc e.sourceBytes).isCode p := by
  obtain ⟨start, hregion, k, hk, himage, hpage⟩ := hp
  rw [Memory.isCode_markCode hregion, h.toNat_sourceBytes]
  simp only [pageBytes] at hpage
  simp only [Memory.touches, pageBytes, ← hpage, Bool.or_eq_true, Bool.and_eq_true, decide_eq_true_eq]
  right
  omega

/-- A block overlaps every page it covers, in the image it starts in. -/
lemma overlaps_of_covers (h : e.Translates m.source cap) (hp : e.Covers p) :
    ∃ image ∈ Machine.ramImages,
      e.overlaps ((p.val * pageBytes).toUInt32 + image)
        (saturatingAdd ((p.val * pageBytes).toUInt32 + image) pageBytes.toUInt32) := by
  obtain ⟨start, hregion, k, hk, himage, hpage⟩ := hp
  obtain ⟨hphys, hstart⟩ := Memory.physical_of_ram hregion
  have hbytes := h.toNat_sourceBytes
  have hle := Memory.length_le h.plan
  rw [hstart] at himage hpage
  -- the block starts in the image with this number
  obtain ⟨n, hn⟩ : ∃ n, n = (physical e.pc).toNat / 0x200000 := ⟨_, rfl⟩
  have hn4 : n < 4 := by omega
  have himages : (n * 0x200000).toUInt32 ∈ Machine.ramImages := by
    interval_cases n <;> decide
  have hp : p.val < 0x200 := p.isLt
  have hfirst : ((p.val * pageBytes).toUInt32 + (n * 0x200000).toUInt32).toNat =
      p.val * 0x1000 + n * 0x200000 := by
    rw [← UInt32.ofNat_add]
    exact UInt32.toNat_ofNat_of_lt' (by rw [UInt32.size, pageBytes]; omega)
  -- a word of the block lies in the page
  obtain ⟨hlow, hhigh⟩ : (physical e.pc).toNat < p.val * 0x1000 + n * 0x200000 + 0x1000 ∧
      p.val * 0x1000 + n * 0x200000 < (physical e.pc).toNat + 4 * e.code.plan.length := by
    simp only [pageBytes] at hpage
    omega
  have hpc : e.pc &&& 0x1FFFFFFF = physical e.pc := rfl
  refine ⟨_, himages, ?_⟩
  simp only [overlaps, Bool.and_eq_true, decide_eq_true_eq, UInt32.lt_iff_toNat_lt, toNat_saturatingAdd,
    hfirst, hbytes, hpc, Nat.lt_min]
  exact ⟨⟨hlow, by omega⟩, hhigh, by omega⟩

end Translates

end Entry

/-! ### Memory behind a block -/

namespace Memory

/-- Memory still holds what a block was made of: in the boot ROM, and in the pages that the block covers
in the image it starts in, which are marked. -/
def Backs (cap : UInt32) (m : Memory) (e : Entry Block) : Prop :=
  ∃ old : Memory, e.Translates old.source cap ∧ m.bios = old.bios ∧
    ∀ p, e.Covers p → m.isCode p ∧ SamePage old m p

namespace Backs

/-- Marks stay over stores as long as no page of the block waits in the queue. -/
lemma watched (h : m.Backs cap e) (hw : Watched m m') (hclean : ∀ p, e.Covers p → p ∉ m'.dirty) :
    m'.Backs cap e := by
  obtain ⟨old, htranslates, hbios, hpages⟩ := h
  refine ⟨old, htranslates, hw.bios.trans hbios, fun p hp => ?_⟩
  obtain ⟨hcode, hsame⟩ := hpages p hp
  obtain hdirty | ⟨hcode', hsame'⟩ := hw.page p hcode
  · exact absurd hdirty (hclean p hp)
  · exact ⟨hcode', hsame.trans hsame'⟩

/-- A block just made is backed once its pages are marked. -/
lemma of_translates (h : e.Translates m.source cap) : (m.markCode e.pc e.sourceBytes).Backs cap e := by
  have hmark := watched_markCode m e.pc e.sourceBytes
  refine ⟨m, h, hmark.bios, fun p hp => ⟨h.isCode_markCode hp, ?_⟩⟩
  rw [markCode]
  split <;> exact fun _ _ => rfl

lemma markCode (h : m.Backs cap e) (addr len : UInt32) : (m.markCode addr len).Backs cap e := by
  obtain ⟨old, htranslates, hbios, hpages⟩ := h
  have hdirty : (m.markCode addr len).dirty = m.dirty := by
    rw [Memory.markCode]
    split <;> rfl
  refine ⟨old, htranslates, (watched_markCode m addr len).bios.trans hbios, fun p hp => ?_⟩
  obtain ⟨hcode, hsame⟩ := hpages p hp
  rw [Memory.markCode]
  split
  · refine ⟨?_, hsame⟩
    have hmarked : m.codePages[p.val] = true := hcode
    simp [isCode, hmarked]
  · exact ⟨hcode, hsame⟩

/-- The words of the block in the image that it starts in are as they were. -/
lemma exists_source (h : m.Backs cap e) : ∃ old : Memory, e.Translates old.source cap ∧
    ∀ k < e.code.plan.length, Entry.InImage e.pc k →
      m.source (Plan.wordPc e.pc k) = old.source (Plan.wordPc e.pc k) := by
  obtain ⟨old, htranslates, hbios, hpages⟩ := h
  refine ⟨old, htranslates, fun k hk himage => source_congr hbios fun i hi => ?_⟩
  obtain ⟨hi, hival⟩ := physical_of_ram hi
  obtain ⟨-, ⟨hram, hlong⟩ | ⟨hlow, -, hlong⟩⟩ := extent htranslates.plan
  · have hword := toNat_physical_wordPc e.pc k (by omega)
    have hstart := ofAddress_of_ram hram
    have hk' : (physical e.pc).toNat % 0x200000 + 4 * k < 0x200000 := himage _ hstart
    have hpage : i.val / pageBytes < ramPages := Nat.div_lt_of_lt_mul i.isLt
    refine Bank.read_word_congr fun j hj => (hpages ⟨i / pageBytes, hpage⟩ ?_).2 j hj
    refine ⟨_, hstart, k, hk, hk', ?_⟩
    change ((physical e.pc).toNat % 0x200000 + 4 * k) / pageBytes = i / pageBytes
    rw [hival, hword]
    congr 1
    omega
  · -- the boot ROM is not main memory
    have hword := toNat_physical_wordPc e.pc k (by omega)
    omega

/-- A block that stays in its image is a translation of memory as it is now. -/
lemma translates (h : m.Backs cap e) (hstays : e.StaysInImage) : e.Translates m.source cap := by
  obtain ⟨old, htranslates, hwords⟩ := h.exists_source
  have hlen := htranslates.toNat_sourceLen
  refine ⟨Plan.ofSource_congr htranslates.plan (by simpa using isSome_fetch_congr old m) fun k hk => ?_,
    htranslates.sourceLen, htranslates.cycles⟩
  by_cases himage : Entry.InImage e.pc k
  · rw [Source.word?, hwords k hk himage, Source.word?]
  · -- the word past the last image is no word at all
    obtain ⟨start, hstart, hpast⟩ : ∃ start, Region.ofAddress e.pc = .ram start ∧
        0x200000 ≤ start.val + 4 * k := by
      simpa [Entry.InImage, ramWords] using himage
    obtain ⟨hram, hval⟩ := physical_of_ram hstart
    obtain ⟨-, ⟨-, hlong⟩ | ⟨hlow, -⟩⟩ := extent htranslates.plan
    · have hlast : 0x600000 ≤ (physical e.pc).toNat := by
        by_contra hlt
        have hend : (physical e.pc).toNat % 0x200000 + 4 * e.sourceLen.toNat ≤ 0x200000 :=
          hstays (not_le.mp hlt)
        omega
      have hword := toNat_physical_wordPc e.pc k (by omega)
      have hnone : ∀ memory : Memory, memory.fetch (Plan.wordPc e.pc k) = none := by
        intro memory
        rw [← Option.not_isSome_iff_eq_none, isSome_fetch]
        omega
      rw [word?_source, word?_source, hnone, hnone]
    · omega

end Backs

end Memory

end R3000
