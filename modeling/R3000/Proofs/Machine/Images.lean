import Mathlib
import R3000.Proofs.Cache.Ranges
import R3000.Proofs.Cache.Map
import R3000.Proofs.Machine.Freshness
import R3000.Proofs.Recovery

/-!
# Images of main memory

Invalidating a range of main memory drops the blocks that meet it in any of the four images.  The range is
laid out from where it starts in each image, so the part of it that goes on past the end of main memory is
looked for at the start of the image that follows, and never in the first image.
-/

namespace R3000

/-! ### Ranges -/

/-- The bytes of main memory that a range names, if it goes on at the start where main memory ends. -/
def Machine.Names (base len offset : Nat) : Prop := ∃ j < len, (base + j) % 0x200000 = offset

namespace Entry

variable {β : Type} {e : Entry β} {base start len : UInt32} {byte offset : Nat}

/-- A word of the block has the byte at a physical address. -/
def CoversByte (e : Entry β) (byte : Nat) : Prop :=
  ∃ k < e.sourceLen.toNat, (physical (Plan.wordPc e.pc k)).toNat ≤ byte ∧
    byte < (physical (Plan.wordPc e.pc k)).toNat + 4

/-- The block ends where the physical addresses end, or before. -/
def Ends (e : Entry β) : Prop := (physical e.pc).toNat + 4 * e.sourceLen.toNat ≤ 2 ^ 29

/-- The block meets a range of main memory, laid out from where it starts in each image. -/
def meets (base len : UInt32) (e : Entry β) : Bool := Machine.ramImages.any fun image => e.hits (base + image) len

/-- A block made of memory ends before the physical addresses do. -/
lemma Translates.ends {memory : Memory} {cap : UInt32} {e : Entry Block} (h : e.Translates memory.source cap) :
    e.Ends := by
  rw [Ends, h.toNat_sourceLen]
  obtain ⟨-, ⟨-, hend⟩ | ⟨-, -, hend⟩⟩ := Memory.extent h.plan <;> omega

lemma CoversByte.between (h : e.CoversByte byte) (hends : e.Ends) :
    (physical e.pc).toNat ≤ byte ∧ byte < (physical e.pc).toNat + 4 * e.sourceLen.toNat := by
  obtain ⟨k, hk, hlow, hhigh⟩ := h
  rw [Ends] at hends
  rw [toNat_physical_wordPc e.pc k (by omega)] at hlow hhigh
  omega

/-- A block that covers a byte of the window meets every range over that byte. -/
lemma hits_of_byte (hcovers : e.CoversByte byte) (hends : e.Ends) (hwindow : byte < 0x800000)
    (hfirst : start.toNat ≤ byte) (hlast : byte < start.toNat + len.toNat) :
    e.hits start len = true := by
  obtain ⟨hlow, hhigh⟩ := hcovers.between hends
  have hlen : len ≠ 0 := by
    rintro rfl
    exact absurd (hfirst.trans_lt hlast) (lt_irrefl _)
  have hbytes : e.sourceBytes.toNat = min (e.sourceLen.toNat * 4) 0xFFFFFFFF :=
    UInt32.toNat_ofNat_of_lt' (by rw [UInt32.size]; omega)
  have hpc : e.pc &&& 0x1FFFFFFF = physical e.pc := rfl
  rw [hits, bne_iff_ne.mpr hlen, Bool.true_and]
  simp only [overlaps, Bool.and_eq_true, decide_eq_true_eq, UInt32.lt_iff_toNat_lt,
    toNat_saturatingAdd, hpc, hbytes]
  omega

/-- Only before its start in the first image can a byte that the range names escape it. -/
lemma meets_of_names (hbase : base.toNat < 0x200000) (hnames : Machine.Names base.toNat len.toNat offset)
    (hcovers : e.CoversByte byte) (hends : e.Ends) (hwindow : byte < 0x800000)
    (hfolds : byte % 0x200000 = offset) (hfrom : base.toNat ≤ byte) : e.meets base len = true := by
  obtain ⟨j, hj, hoffset⟩ := hnames
  -- the image from whose layout of the range the byte is less than one image away
  obtain ⟨n, hn⟩ : ∃ n, n = (byte - base.toNat) / 0x200000 := ⟨_, rfl⟩
  have hn4 : n < 4 := by omega
  have himage : (n * 0x200000).toUInt32 ∈ Machine.ramImages := by
    interval_cases n <;> decide
  have hstart : (base + (n * 0x200000).toUInt32).toNat = base.toNat + n * 0x200000 := by
    rw [UInt32.toNat_add, UInt32.toNat_ofNat_of_lt' (by rw [UInt32.size]; omega)]
    omega
  refine List.any_eq_true.mpr ⟨_, himage, hits_of_byte hcovers hends hwindow ?_ ?_⟩
  · omega
  · omega

end Entry

/-! ### The recompiler -/

namespace Recompiler

variable {τ β : Type} {r : Recompiler τ β} {p q : Entry β → Bool} {s s' : Nat × Recompiler τ β}

/-- The blocks with a property were taken out of the cache, as many as were counted, and no others. -/
structure Dropped (p : Entry β → Bool) (r : Recompiler τ β) (s : Nat × Recompiler τ β) : Prop where
  valid : s.2.cache.Valid
  rest : ∀ pc, s.2.cache.get? pc = (r.cache.get? pc).filter (!p ·)
  gone : ∃ gone : List (Entry β), s.1 = gone.length ∧ r.cache.toList.Perm (gone ++ s.2.cache.toList)

lemma Dropped.none (h : r.cache.Valid) : Dropped (fun _ => false) r (0, r) where
  valid := h
  rest pc := by cases r.cache.get? pc <;> rfl
  gone := ⟨[], rfl, .refl _⟩

lemma Dropped.trans (h : Dropped p r s) (h' : Dropped q s.2 s') :
    Dropped (fun e => p e || q e) r (s.1 + s'.1, s'.2) where
  valid := h'.valid
  rest pc := by
    rw [h'.rest, h.rest, Option.filter_filter]
    congr 1
    funext e
    exact (Bool.not_or ..).symm
  gone := by
    obtain ⟨gone, hcount, hperm⟩ := h.gone
    obtain ⟨gone', hcount', hperm'⟩ := h'.gone
    refine ⟨gone ++ gone', ?_, ?_⟩
    · rw [List.length_append, hcount, hcount']
    · rw [List.append_assoc]
      exact hperm.trans (hperm'.append_left gone)

/-- Invalidating a range takes out the blocks that meet it. -/
lemma dropped_invalidate (h : r.cache.Valid) (start len : UInt32) :
    Dropped (·.hits start len) r (r.invalidate start len) := by
  by_cases hlen : len = 0
  · have hkeep : ∀ e : Entry β, e.hits start len = false := fun e => by simp [Entry.hits, hlen]
    rw [show r.invalidate start len = (0, r) from if_pos hlen]
    simpa only [hkeep] using Dropped.none h
  · have hhits : ∀ e : Entry β, e.hits start len = e.overlaps start (saturatingAdd start len) := fun e => by
      simp [Entry.hits, hlen]
    simp only [hhits]
    refine ⟨valid_invalidate h start len, fun pc => ?_,
      (r.cache.eraseWhere (·.overlaps start (saturatingAdd start len))).1, ?_, ?_⟩
    · rw [invalidate_cache r start hlen]
      exact h.get?_eraseWhere _ pc
    · rw [invalidate, if_neg hlen]
      dsimp only
      split <;> rename_i heq <;> rw [heq]
      rfl
    · rw [invalidate_cache r start hlen]
      exact h.toList_eraseAll _

/-- Invalidating a range in several images takes out the blocks that meet it in one of them. -/
lemma dropped_images (base len : UInt32) (images : List UInt32) (hs : Dropped p r s) :
    Dropped (fun e => p e || images.any fun image => e.hits (base + image) len) r
      (images.foldl
        (fun s image =>
          (s.1 + (s.2.invalidate (base + image) len).1, (s.2.invalidate (base + image) len).2)) s) := by
  induction images generalizing p s with
  | nil => simpa using hs
  | cons image images ih =>
    have hfirst := hs.trans (dropped_invalidate hs.valid (base + image) len)
    have hrest := ih hfirst
    simpa only [List.any_cons, List.foldl_cons, Bool.or_assoc] using hrest

end Recompiler

/-! ### The machine -/

namespace Machine

variable {τ β δ : Type} {m : Machine τ β δ} {addr len : UInt32}

/-- Invalidating a range that starts in the window of main memory takes the blocks that meet it in one of the
images out of the cache, leaves the others as they are, and gives the number of those taken out.  A block that is
left, and does not run past the end of the physical addresses, covers a byte that the range names only before the
start of the range in the first image, and then the range runs past the end of main memory. -/
theorem invalidate_images (h : m.recompiler.cache.Valid) (hram : physical addr < 0x00800000) (len : UInt32) :
    let base := physical addr &&& 0x001FFFFF
    let left := (m.invalidate addr len).2.recompiler.cache
    (∀ pc, left.get? pc = (m.recompiler.cache.get? pc).filter fun e => !e.meets base len) ∧
      (∃ gone : List (Entry β), (m.invalidate addr len).1 = gone.length ∧
        m.recompiler.cache.toList.Perm (gone ++ left.toList)) ∧
      ∀ pc e, left.get? pc = some e → e.Ends → ∀ byte offset, Names base.toNat len.toNat offset →
        e.CoversByte byte → byte < 0x800000 → byte % 0x200000 = offset →
          byte < base.toNat ∧ 0x200000 < base.toNat + len.toNat := by
  intro base left
  have hbase : base.toNat < 0x200000 := by
    rw [UInt32.toNat_and]
    exact Nat.and_lt_two_pow _ (n := 21) (by decide)
  have himages := Recompiler.dropped_images base len ramImages (Recompiler.Dropped.none h)
  have heq : ((m.invalidate addr len).1, (m.invalidate addr len).2.recompiler) =
      ramImages.foldl
        (fun s image =>
          (s.1 + (s.2.invalidate (base + image) len).1, (s.2.invalidate (base + image) len).2))
        (0, m.recompiler) := by
    rw [invalidate]
    dsimp only
    rw [if_pos hram]
  rw [← heq] at himages
  simp only [Bool.false_or] at himages
  refine ⟨himages.rest, himages.gone, fun pc e he hends byte offset hnames hcovers hwindow hfolds => ?_⟩
  have hmissed : e.meets base len = false := by
    have hkept := (Option.filter_eq_some_iff.mp ((himages.rest pc).symm.trans he)).2
    exact (Bool.not_eq_true' _).mp hkept
  have hlow : byte < base.toNat := by
    by_contra hfrom
    have hmeets := Entry.meets_of_names hbase hnames hcovers hends hwindow hfolds (not_lt.mp hfrom)
    rw [hmissed] at hmeets
    cases hmeets
  refine ⟨hlow, ?_⟩
  obtain ⟨j, hj, hoffset⟩ := hnames
  omega

/-- A range over the seam between two images: the block behind the seam goes, and the one that holds the same
bytes in the first image stays. -/
theorem invalidate_images_seam :
    let block (pc : UInt32) : Entry Nat := ⟨pc, 0, 1, 1, .none⟩
    ∃ m : Machine Unit Nat Unit, m.recompiler.cache.Valid ∧ physical 0x801FFFF0 < 0x00800000 ∧
      m.recompiler.cache.get? 0x80000000 = some (block 0x80000000) ∧
        m.recompiler.cache.get? 0x80200000 = some (block 0x80200000) ∧
          let left := (m.invalidate 0x801FFFF0 0x100).2.recompiler.cache
          left.get? 0x80200000 = none ∧ left.get? 0x80000000 = some (block 0x80000000) ∧
            Names 0x1FFFF0 0x100 0 ∧ (block 0x80000000).CoversByte 0 := by
  intro block
  let filled := Cache.run [.insert (block 0x80000000), .insert (block 0x80200000)] (.blank 0 1, fun _ => none)
  have hvalid : filled.1.Valid := by
    obtain ⟨hblank, hnil⟩ := Cache.valid_blank (β := Nat) 0 1
    exact (hblank.run (funext fun pc => hblank.get?_of_toList_nil hnil pc) _).1
  have hfirst : filled.1.get? 0x80000000 = some (block 0x80000000) := by decide +kernel
  have hsecond : filled.1.get? 0x80200000 = some (block 0x80200000) := by decide +kernel
  let m : Machine Unit Nat Unit :=
    { settings := {}
      cpu := .fresh
      board := ⟨.ofBios .empty, ⟨{}, .empty, ()⟩⟩
      raster := .ofStandard .ntsc
      recompiler := { Recompiler.bare () {} with cache := filled.1 }
      loader := none
      loaded := true
      cycles := 0
      watch := {}
      frameDone := false
      stats := {} }
  have hram : physical 0x801FFFF0 < 0x00800000 := by decide
  obtain ⟨hrest, -, -⟩ := invalidate_images (m := m) hvalid hram 0x100
  refine ⟨m, hvalid, hram, hfirst, hsecond, ?_, ?_, ⟨16, by decide, by decide⟩, ⟨0, by decide, by decide⟩⟩
  · rw [hrest, show m.recompiler.cache.get? 0x80200000 = _ from hsecond]
    decide
  · rw [hrest, show m.recompiler.cache.get? 0x80000000 = _ from hfirst]
    decide

end Machine

end R3000
