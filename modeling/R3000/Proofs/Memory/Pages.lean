import Mathlib
import R3000.Memory.Basic

/-!
# Pages of code

A store changes bytes of one page, and notes that if the page is marked.  So a page that was marked is in
the queue or has kept its mark and its bytes: `Watched` says so of all pages, over any number of stores.
-/

namespace R3000

/-! ### Banks -/

namespace Bank

variable {n : Nat} {b b' : Bank n}

@[simp] lemma byte_zero (n i : Nat) : (zero n).byte i = 0 := by
  rw [byte]
  split
  · exact Array.getElem_replicate ..
  · rfl

lemma byte_setByte_of_ne {i j : Nat} (h : j ≠ i) (v : UInt8) : (b.setByte i v).byte j = b.byte j := by
  obtain ⟨bytes, hsize⟩ := b
  dsimp only [setByte]
  split
  · rename_i hi
    simp only [byte]
    split
    · exact Array.getElem_set_ne _ _ (Ne.symm h)
    · rfl
  · rfl

lemma byte_setByte (b : Bank n) {i : Nat} (h : i < 4 * n) (j : Nat) (v : UInt8) :
    (b.setByte i v).byte j = if i = j then v else b.byte j := by
  split
  · rename_i heq
    obtain ⟨bytes, hsize⟩ := b
    subst heq
    dsimp only [setByte]
    rw [dif_pos h, byte, dif_pos h]
    exact Array.getElem_set_self ..
  · rename_i hne
    exact byte_setByte_of_ne (Ne.symm hne) v

/-- A write changes no byte of another page. -/
lemma byte_write_of_page {w : Width} {i j : Nat} (h : j / pageBytes ≠ i / pageBytes) (v : UInt32) :
    (b.write w i v).byte j = b.byte j := by
  simp only [pageBytes] at h
  cases w <;> simp only [write, Width.align, Width.bytes]
  · exact byte_setByte_of_ne (by omega) _
  · repeat rw [byte_setByte_of_ne (by omega)]
  · repeat rw [byte_setByte_of_ne (by omega)]

/-- A word is read from bytes of one page. -/
lemma read_word_congr {i : Nat} (h : ∀ j, j / pageBytes = i / pageBytes → b'.byte j = b.byte j) :
    b'.read .word i = b.read .word i := by
  simp only [pageBytes] at h
  simp only [read, Width.align, Width.bytes, wordAt]
  rw [h _ (by omega), h _ (by omega), h _ (by omega), h _ (by omega)]

end Bank

/-! ### Marks and the queue -/

namespace Memory

variable {m m' m'' : Memory} {p : Page}

/-- Two memories hold the same bytes in a page. -/
def SamePage (m m' : Memory) (p : Page) : Prop := ∀ i, i / pageBytes = p → m'.ram.byte i = m.ram.byte i

lemma SamePage.refl (m : Memory) (p : Page) : SamePage m m p := fun _ _ => rfl

lemma SamePage.trans (h : SamePage m m' p) (h' : SamePage m' m'' p) : SamePage m m'' p :=
  fun i hi => (h' i hi).trans (h i hi)

/-- What stores and marks do to memory: each page that was marked is in the queue, or has kept its mark and
its bytes. -/
structure Watched (m m' : Memory) : Prop where
  bios : m'.bios = m.bios
  dirty : ∀ p ∈ m.dirty, p ∈ m'.dirty
  page : ∀ p, m.isCode p → p ∈ m'.dirty ∨ m'.isCode p ∧ SamePage m m' p

namespace Watched

lemma refl (m : Memory) : Watched m m := ⟨rfl, fun _ hp => hp, fun p hp => .inr ⟨hp, .refl m p⟩⟩

lemma trans (h : Watched m m') (h' : Watched m' m'') : Watched m m'' where
  bios := h'.bios.trans h.bios
  dirty p hp := h'.dirty p (h.dirty p hp)
  page p hp := by
    rcases h.page p hp with hdirty | ⟨hcode, hsame⟩
    · exact .inl (h'.dirty p hdirty)
    · exact (h'.page p hcode).imp_right fun ⟨hcode', hsame'⟩ => ⟨hcode', hsame.trans hsame'⟩

end Watched

lemma watched_touch (m : Memory) (p : Page) : Watched m (m.touch p) := by
  rw [touch]
  split
  · refine ⟨rfl, fun q hq => Array.mem_push.mpr (.inl hq), fun q hq => ?_⟩
    by_cases hqp : q = p
    · exact .inl (hqp ▸ Array.mem_push_self)
    · refine .inr ⟨?_, fun _ _ => rfl⟩
      have hne : p.val ≠ q.val := fun heq => hqp (Fin.ext heq.symm)
      simpa [isCode, Vector.getElem_set_ne, hne] using hq
  · exact .refl m

lemma mem_dirty_touch (h : m.isCode p) : p ∈ (m.touch p).dirty := by
  have hmarked : m.codePages[p] = true := h
  rw [touch, if_pos hmarked]
  exact Array.mem_push_self

/-- A store is seen by the page that it goes to. -/
lemma watched_store {σ : Type} (m : Memory) (window : Window σ) (isolated : Bool) (addr v : UInt32)
    (w : Width) (s : σ) : Watched m (m.store window isolated addr v w s).1 := by
  rw [store]
  split
  · split
    · rename_i i hregion
      dsimp only
      set p : Page := ⟨i / pageBytes, Nat.div_lt_of_lt_mul i.isLt⟩ with hp
      set written : Memory := { m with ram := m.ram.write w i v } with hwritten
      have htouch := watched_touch written p
      refine ⟨htouch.bios, htouch.dirty, fun q hq => ?_⟩
      have hq' : written.isCode q := hq
      by_cases hqp : q = p
      · subst hqp
        exact .inl (mem_dirty_touch hq')
      · refine (htouch.page q hq').imp_right fun ⟨hcode, hsame⟩ => ⟨hcode, fun j hj => ?_⟩
        rw [hsame j hj]
        refine Bank.byte_write_of_page (fun heq => hqp (Fin.ext ?_)) v
        exact hj.symm.trans heq
    all_goals exact ⟨rfl, fun _ hp => hp, fun p hp => .inr ⟨hp, fun _ _ => rfl⟩⟩
  · exact .refl m

/-- Marking code changes neither memory nor the queue. -/
lemma watched_markCode (m : Memory) (addr len : UInt32) : Watched m (m.markCode addr len) := by
  rw [markCode]
  split
  · refine ⟨rfl, fun _ hp => hp, fun p hp => .inr ⟨?_, fun _ _ => rfl⟩⟩
    have hmarked : m.codePages[p.val] = true := hp
    simp [isCode, hmarked]
  · exact .refl m

/-- Which pages are marked after marking code: those that were, and those of the image of main memory
that the code starts in. -/
lemma isCode_markCode {addr len : UInt32} {start : Fin (4 * ramWords)}
    (h : Region.ofAddress addr = .ram start) : (m.markCode addr len).isCode p =
      (m.isCode p || touches start (min (start + max len.toNat 1) (4 * ramWords) - 1) p) := by
  rw [markCode, h]
  simp [isCode]

lemma fetch_markCode (m : Memory) (addr len : UInt32) : (m.markCode addr len).fetch = m.fetch := by
  rw [markCode]
  split <;> rfl

lemma source_markCode (m : Memory) (addr len : UInt32) : (m.markCode addr len).source = m.source := by
  funext a
  rw [source, source, fetch_markCode]

end Memory

end R3000
