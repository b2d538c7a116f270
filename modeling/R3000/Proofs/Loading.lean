import Mathlib
import R3000.Proofs.Machine.Reached
import R3000.Proofs.Memory.Accesses

/-!
# Loading executable images

An image is loaded as a whole or not at all.  The fields of its header are any words, and the image may end before the
text that the header speaks of, or before the header does.
-/

namespace R3000

open Word

namespace Exe

/-! ### Headers -/

/-- A word lies at an offset of the image, low byte first. -/
def HasWord (image : ByteArray) (offset : Nat) (v : UInt32) : Prop := ∀ k < 4, image[offset + k]? = some (byteOf v k)

/-- The image holds the fields of a header and begins with the mark. -/
def WellFormed (image : ByteArray) : Prop := 0x38 ≤ image.size ∧ ∀ k < 8, image[k]? = mark[k]?

instance (image : ByteArray) (offset : Nat) (v : UInt32) : Decidable (HasWord image offset v) :=
  inferInstanceAs (Decidable (∀ k, k < 4 → _))

instance (image : ByteArray) : Decidable (WellFormed image) := inferInstanceAs (Decidable (_ ∧ ∀ k, k < 8 → _))

namespace Header

/-- The fields of the header lie at their places in the image. -/
structure In (image : ByteArray) (h : Header) : Prop where
  pc : HasWord image 0x10 h.pc
  gp : HasWord image 0x14 h.gp
  textAddr : HasWord image 0x18 h.textAddr
  textSize : HasWord image 0x1C h.textSize
  stackAddr : HasWord image 0x30 h.stackAddr
  stackSize : HasWord image 0x34 h.stackSize

/-- The offset in main memory at which the text begins. -/
def textStart (h : Header) : Nat := h.textAddr.toNat % 2 ^ 29

/-- The bytes of the text that the image holds. -/
def textBytes (h : Header) (image : ByteArray) : Nat := min h.textSize.toNat (image.size - 0x800)

/-- The word in a general register when the program starts. -/
def startWord (h : Header) (r : Reg) (old : UInt32) : UInt32 :=
  if r = 4 ∨ r = 5 then 0
  else if r = 28 then h.gp
  else if (r = 29 ∨ r = 30) ∧ h.stackAddr ≠ 0 then h.stackAddr + h.stackSize
  else old

end Header

variable {image : ByteArray} {h : Header} {c : Cpu} {m : Memory}

lemma getElem?_eq_byteAt {i : Nat} (hi : i < image.size) : image[i]? = some (byteAt image i) :=
  (Memory.getElem?_data image i).trans (if_pos hi)

lemma HasWord.unique {offset : Nat} {v w : UInt32} (hv : HasWord image offset v) (hw : HasWord image offset w) :
    v = w :=
  eq_of_byteOf fun k hk => Option.some.inj ((hv k hk).symm.trans (hw k hk))

lemma hasWord_wordAt {offset : Nat} (hfits : offset + 4 ≤ image.size) : HasWord image offset (wordAt image offset) := by
  intro k hk
  rw [getElem?_eq_byteAt (by omega)]
  exact congrArg some (byteOf_ofBytes (fun k => byteAt image (offset + k)) hk).symm

lemma isMarked_iff (hsize : 0x38 ≤ image.size) : isMarked image = true ↔ ∀ k < 8, image[k]? = mark[k]? := by
  have hlen : mark.length = 8 := rfl
  rw [isMarked, beq_iff_eq, List.map_eq_iff, hlen]
  constructor
  · intro hmark k hk
    rw [hmark k, List.getElem?_range hk, Option.map_some, getElem?_eq_byteAt (by omega)]
  · intro hmark k
    by_cases hk : k < 8
    · rw [← hmark k hk, List.getElem?_range hk, Option.map_some, getElem?_eq_byteAt (by omega)]
    · rw [List.getElem?_eq_none (by omega), List.getElem?_eq_none (by rw [List.length_range]; omega), Option.map_none]

/-- A well-formed image has a header, and no other has. -/
lemma header_cases (image : ByteArray) : if WellFormed image then ∃ h, header image = .ok h ∧ h.In image
    else header image = .error .badHeader := by
  rw [header]
  by_cases hsize : 0x38 ≤ image.size
  · have hlong : decide (image.size < leastSize) = false := decide_eq_false (by rw [leastSize]; omega)
    simp only [WellFormed, hsize, true_and, ← isMarked_iff hsize, hlong, Bool.false_or, Bool.not_eq_true']
    cases isMarked image with
    | false => rfl
    | true =>
      rw [if_pos rfl]
      refine ⟨_, if_neg (by simp), ?_, ?_, ?_, ?_, ?_, ?_⟩ <;> exact hasWord_wordAt (by omega)
  · have hshort : decide (image.size < leastSize) = true := decide_eq_true (by rw [leastSize]; omega)
    rw [if_neg fun hw => hsize hw.1, hshort, Bool.true_or, if_pos rfl]

/-! ### Registers -/

/-- The program counter and the registers that the header speaks of are set, and nothing else. -/
lemma startRegisters_eq (h : Header) (c : Cpu) : ∃ gpr, startRegisters h c = { c with pc := h.pc, gpr } ∧
    ∀ r, gpr.get r = h.startWord r (c.gpr.get r) := by
  by_cases hstack : h.stackAddr = 0
  · refine ⟨((c.gpr.put 28 h.gp).put 4 0).put 5 0, by simp [startRegisters, Cpu.set, hstack], fun r => ?_⟩
    simp only [RegFile.get_put, Header.startWord]
    grind
  · let top := h.stackAddr + h.stackSize
    refine ⟨((((c.gpr.put 28 h.gp).put 29 top).put 30 top).put 4 0).put 5 0,
      by simp [startRegisters, Cpu.set, hstack, top], fun r => ?_⟩
    simp only [RegFile.get_put, Header.startWord]
    grind

/-! ### Text -/

lemma size_text (h : Header) (image : ByteArray) : (text h image).size = h.textBytes image := by
  rw [text, ByteArray.size_extract, Header.textBytes, textOffset]
  omega

lemma getElem?_text {k : Nat} (hk : k < h.textBytes image) :
    image[0x800 + k]? = some (imageByte (text h image) k) := by
  have hsize : k < (text h image).size := by rwa [size_text]
  have hin : 0x800 + k < image.size := by
    rw [Header.textBytes] at hk
    omega
  rw [imageByte, dif_pos hsize, getElem?_pos image _ hin]
  exact congrArg some (ByteArray.getElem_extract hsize).symm

/-- What a program that was loaded leaves. -/
structure Loaded (image : ByteArray) (h : Header) (c c' : Cpu) (m m' : Memory) : Prop where
  /-- The program counter and the registers that the header speaks of are set, and nothing else. -/
  cpu : ∃ gpr, c' = { c with pc := h.pc, gpr } ∧ ∀ r, gpr.get r = h.startWord r (c.gpr.get r)
  inside : h.textStart + h.textBytes image ≤ m.ram.bytes.size
  text : ∀ k < h.textBytes image, image[0x800 + k]? = some (m'.ram.byte (h.textStart + k))
  others : ∀ j, ¬ (h.textStart ≤ j ∧ j < h.textStart + h.textBytes image) → m'.ram.byte j = m.ram.byte j
  scratchpad : m'.scratchpad = m.scratchpad
  bios : m'.bios = m.bios
  cacheControl : m'.cacheControl = m.cacheControl
  /-- Every marked page that holds a byte of the text joins those that wait. -/
  dirty : ∀ p ∈ m.dirty, p ∈ m'.dirty
  reached : ∀ p, m.isCode p → ∀ k < h.textBytes image, (h.textStart + k) / pageBytes = p → p ∈ m'.dirty

lemma loaded (h : Header) (image : ByteArray) (c : Cpu) (m : Memory)
    (hfits : h.textStart + h.textSize.toNat ≤ 4 * ramWords) :
    Loaded image h c (startRegisters h c) m (m.loadRam (h.textAddr &&& 0x1FFFFFFF) (text h image)) := by
  have hstart : (h.textAddr &&& 0x1FFFFFFF).toNat = h.textStart := toNat_physical h.textAddr
  have hbytes : h.textBytes image ≤ h.textSize.toNat := Nat.min_le_left ..
  have hbyte := m.byte_loadRam (h.textAddr &&& 0x1FFFFFFF) (text h image)
  rw [hstart, size_text] at hbyte
  obtain ⟨codePages, dirty, hcopy⟩ := m.loadRam_eq (h.textAddr &&& 0x1FFFFFFF) (text h image)
  refine
    { cpu := startRegisters_eq h c
      inside := (Nat.add_le_add_left hbytes _).trans (hfits.trans_eq m.ram.size_bytes.symm)
      text := fun k hk => ?_
      others := fun j hj => ?_
      scratchpad := by rw [hcopy]
      bios := by rw [hcopy]
      cacheControl := by rw [hcopy]
      dirty := (m.watched_loadRam _ _).dirty
      reached := fun p hp k hk hpage => ?_ }
  · rw [hbyte, if_pos (by omega), Nat.add_sub_cancel_left, getElem?_text hk]
  · rw [hbyte, if_neg (by omega)]
  · refine Memory.mem_dirty_loadRam hp (j := h.textStart + k) ?_ ?_ hpage
    · omega
    · rw [size_text]
      omega

/-- An image is loaded as a whole or not at all.  One without the fields of a header and the mark, or whose text does
not fit in main memory, gives an error, and the processor and the memory are as they were; a machine that has it queued
goes on with them. -/
theorem install_exact (image : ByteArray) (c : Cpu) (m : Memory) :
    (if WellFormed image then
      ∃ h : Header, h.In image ∧
        if h.textStart + h.textSize.toNat ≤ 0x200000 then
          ∃ c' m', install image c m = (.ok (), c', m') ∧ Loaded image h c c' m m'
        else install image c m = (.error (.outOfRange h.textAddr h.textSize), c, m)
    else install image c m = (.error .badHeader, c, m)) ∧
      ∀ {τ β δ : Type} (machine : Machine τ β δ) (e : LoadError),
        (install image machine.cpu machine.memory).1 = .error e →
          (machine.queue image).loadQueued = .ok { machine.queue image with loaded := true } := by
  refine ⟨?_, fun machine e he => ?_⟩
  · have hcases := header_cases image
    split at hcases
    · rename_i hwell
      obtain ⟨h, hheader, hin⟩ := hcases
      have hstart : (h.textAddr &&& 0x1FFFFFFF).toNat = h.textStart := toNat_physical h.textAddr
      rw [if_pos hwell, install, hheader]
      dsimp only
      rw [hstart]
      refine ⟨h, hin, ?_⟩
      split
      · rename_i hfits
        exact ⟨_, _, if_neg (not_lt.mpr hfits), loaded h image c m hfits⟩
      · rename_i hlong
        exact if_pos (not_le.mp hlong)
    · rename_i hbad
      rw [if_neg hbad, install, hcases]
  · rcases install_cases image machine.cpu machine.memory with ⟨e', hkept⟩ | ⟨h, hloaded⟩
    · rw [Machine.memory] at hkept
      rw [Machine.loadQueued]
      dsimp only [Machine.queue, Machine.memory]
      rw [hkept]
    · rw [hloaded] at he
      cases he

/-- An image with two words of text at 0x80010000 of the 0x100 bytes that its header speaks of.  It starts there, with a
stack of 0xF0 bytes from 0x801FFF00 on. -/
def shortImage : ByteArray :=
  ⟨(mark ++ List.replicate 8 0 ++ [0, 0, 1, 0x80, 0, 0x20, 1, 0x80, 0, 0, 1, 0x80, 0, 1, 0, 0] ++
    List.replicate 16 0 ++ [0, 0xFF, 0x1F, 0x80, 0xF0, 0, 0, 0] ++ List.replicate 0x7C8 0 ++
      [1, 0, 0x42, 0x24, 8, 0, 0xE0, 3]).toArray⟩

/-- The text is loaded over code, and the page of the code waits to be dropped.  An image without a header is not
loaded. -/
theorem install_exact_marked :
    let m := (Memory.ofBios .empty).markCode 0x80010004 4
    let p : Page := ⟨16, by decide⟩
    m.isCode p = true ∧ m.dirty = #[] ∧
      (∃ c' m', install shortImage .fresh m = (.ok (), c', m') ∧ c'.pc = 0x80010000 ∧ c'.gpr.get 29 = 0x801FFFF0 ∧
        m'.ram.byte 0x10000 = 1 ∧ m'.ram.byte 0x10007 = 3 ∧ m'.ram.byte 0x10008 = 0 ∧ p ∈ m'.dirty) ∧
      ∃ machine : Machine Unit Nat Unit, install .empty machine.cpu m = (.error .badHeader, machine.cpu, m) ∧
        (machine.queue .empty).loadQueued = .ok { machine.queue .empty with loaded := true } := by
  intro m p
  have hmarked : m.isCode p = true := by decide +kernel
  refine ⟨hmarked, rfl, ?_, ?_⟩
  · -- as a variable, so that nothing evaluates the image but what is asked of it
    obtain ⟨image, himage⟩ : ∃ image, image = shortImage := ⟨_, rfl⟩
    have hwell : WellFormed image := himage ▸ by decide +kernel
    have hword : ∀ {offset v}, HasWord shortImage offset v → HasWord image offset v := fun h => himage ▸ h
    obtain ⟨hload, -⟩ := install_exact image .fresh m
    rw [if_pos hwell] at hload
    obtain ⟨h, hin, hload⟩ := hload
    have hpc : h.pc = 0x80010000 := hin.pc.unique (hword (by decide +kernel))
    have haddr : h.textAddr = 0x80010000 := hin.textAddr.unique (hword (by decide +kernel))
    have hsize : h.textSize = 0x100 := hin.textSize.unique (hword (by decide +kernel))
    have hstack : h.stackAddr = 0x801FFF00 := hin.stackAddr.unique (hword (by decide +kernel))
    have htop : h.stackSize = 0xF0 := hin.stackSize.unique (hword (by decide +kernel))
    have hstart : h.textStart = 0x10000 := by
      rw [Header.textStart, haddr]
      decide
    have hbytes : h.textBytes image = 8 := by
      rw [Header.textBytes, hsize, himage, show shortImage.size = 0x808 by decide +kernel]
      decide
    rw [if_pos (by rw [hstart, hsize]; decide)] at hload
    obtain ⟨c', m', hload, hloaded⟩ := hload
    obtain ⟨gpr, rfl, hgpr⟩ := hloaded.cpu
    have htext := hloaded.text
    have hothers := hloaded.others
    have hreached := hloaded.reached
    rw [hbytes, hstart] at htext hothers hreached
    rw [himage] at hload htext
    refine ⟨_, m', hload, hpc, ?_, ?_, ?_, ?_, ?_⟩
    · rw [hgpr, Header.startWord, if_neg (by decide), if_neg (by decide), hstack, if_pos (by decide), htop]
      rfl
    · exact Option.some.inj ((htext 0 (by decide)).symm.trans (by decide +kernel))
    · exact Option.some.inj ((htext 7 (by decide)).symm.trans (by decide +kernel))
    · exact (hothers 0x10008 (by omega)).trans (Bank.byte_zero ramWords _)
    · exact hreached p hmarked 0 (by decide) rfl
  · let machine : Machine Unit Nat Unit :=
      { settings := {}
        cpu := .fresh
        board := ⟨m, ⟨{}, .empty, ()⟩⟩
        raster := .ofStandard .ntsc
        recompiler := .bare () {}
        loader := none
        loaded := true
        cycles := 0
        watch := {}
        frameDone := false
        stats := {} }
    obtain ⟨hload, hkept⟩ := install_exact .empty machine.cpu machine.memory
    rw [if_neg (by decide)] at hload
    exact ⟨machine, hload, hkept machine _ (congrArg Prod.fst hload)⟩

end Exe

end R3000
