import Mathlib
import R3000.Proofs.Cache.Accounting
import R3000.Proofs.Counts
import R3000.Proofs.Recovery

/-!
# The sizes of the stores

A recompiler keeps the sizes that it was created with, whatever is asked of it.  So a flush leaves, but for the
counts, the recompiler that would be created anew.
-/

namespace R3000

variable {β : Type}

/-! ### The cache -/

namespace Cache

variable {c c' : Cache β}

/-- A cleared cache is a blank one, but for the counts. -/
lemma clear_eq_blank {bits pool : Nat} (hbits : c.bits = bits) (hpool : c.poolCapacity = pool) :
    ∃ k, c.clear = (blank bits pool).counted k := by
  subst hbits hpool
  exact ⟨_, rfl⟩

end Cache

/-! ### The recompiler -/

namespace Recompiler

variable {limits : Limits} {r r' : Recompiler TranslatorStats Block} {fallback : Bool} {unlinked : List UInt32}
  {source : Source} {pc : UInt32}

/-- The stores have the sizes that were asked for. -/
structure Sized (limits : Limits) (r : Recompiler TranslatorStats Block) : Prop where
  maxBlock : r.maxBlock = limits.maxBlock
  linkCapacity : r.store.linkCapacity = limits.linkCapacity
  codeCapacity : r.store.codeCapacity = limits.codeCapacity
  flushMargin : r.store.flushMargin = limits.flushMargin
  native : r.store.native = limits.native
  cacheSlots : r.cache.bits = Cache.bitsFor limits.cacheSlots
  poolNodes : r.cache.poolCapacity = limits.poolNodes
  patchSites : r.linker.capacity = limits.patchSites

namespace Sized

lemma congr (h : r.Sized limits) (hmax : r'.maxBlock = r.maxBlock) (hstore : r.store.SameFrame r'.store)
    (hcache : r.cache.SameSizes r'.cache) (hlinker : r'.linker.capacity = r.linker.capacity) : r'.Sized limits where
  maxBlock := hmax.trans h.maxBlock
  linkCapacity := hstore.links.trans h.linkCapacity
  codeCapacity := hstore.code.trans h.codeCapacity
  flushMargin := hstore.margin.trans h.flushMargin
  native := hstore.native.trans h.native
  cacheSlots := hcache.bits.trans h.cacheSlots
  poolNodes := hcache.poolCapacity.trans h.poolNodes
  patchSites := hlinker.trans h.patchSites

lemma with_stats (h : r.Sized limits) (cacheStats : CacheStats) (stats : RecompilerStats) :
    { r with cache.stats := cacheStats, stats }.Sized limits :=
  h.congr rfl (.refl _) ⟨rfl, rfl⟩ rfl

lemma flush (h : r.Sized limits) (hflush : r.flush = .ok r') : r'.Sized limits := by
  obtain ⟨-, rfl⟩ := eq_of_flush hflush
  exact
    { maxBlock := h.maxBlock, linkCapacity := h.linkCapacity, codeCapacity := h.codeCapacity
      flushMargin := h.flushMargin, native := h.native, cacheSlots := h.cacheSlots, poolNodes := h.poolNodes
      patchSites := h.patchSites }

lemma publish (h : r.Sized limits) {x : Except PublishError (Entry Block)}
    (hpublish : r.publish (.standard fallback unlinked) source pc = (x, r')) : r'.Sized limits := by
  obtain ⟨hstore, hmax, -⟩ := publish_frame hpublish
  cases x with
  | error err =>
    obtain rfl := publish_eq_error hpublish
    exact h.congr hmax hstore ⟨rfl, rfl⟩ rfl
  | ok e =>
    obtain ⟨t, cache, -, -, hinsert, rfl⟩ := publish_eq_ok hpublish
    exact h.congr hmax hstore (Cache.sameSizes_insert hinsert) (linkExits_capacity ..)

lemma resolve (h : r.Sized limits) (fallback : Bool) (unlinked : List UInt32) (source : Source) (pc : UInt32) :
    (r.resolve (.standard fallback unlinked) source pc).2.Sized limits := by
  have hkeeps : Keeps (.standard fallback unlinked) source pc (Sized limits) fun _ => Sized limits := {
    count := fun r cacheStats stats _ hr => hr.with_stats cacheStats stats
    flush := fun r r' hr hflush => hr.flush hflush
    publish := fun r e r' hr _ hpublish => hr.publish hpublish
    fail := fun r err r' hr _ hpublish => hr.publish hpublish }
  exact hkeeps.resolve_snd h

lemma invalidate (h : r.Sized limits) (start len : UInt32) : (r.invalidate start len).2.Sized limits := by
  by_cases hlen : len = 0
  · rw [Recompiler.invalidate, if_pos hlen]
    exact h
  · refine h.congr (invalidate_frame r start len).2 (sameFrame_invalidate r start len) ?_
      (capacity_invalidate r start len)
    rw [invalidate_cache r start hlen]
    exact Cache.sameSizes_eraseAll ..

lemma refineIdle (h : r.Sized limits) (pc : UInt32) (idle : Idle) : (r.refineIdle pc idle).2.Sized limits :=
  h.congr rfl (.refl _) (Cache.sameSizes_setIdle r.cache pc idle) rfl

lemma resetStats (h : r.Sized limits) (T : Translator TranslatorStats Block) : (r.resetStats T).Sized limits :=
  h.congr rfl ⟨⟨rfl, rfl, rfl⟩, rfl, rfl⟩ ⟨rfl, rfl⟩ rfl

lemma create {t : TranslatorStats} (h : Recompiler.create t limits = .ok r) : r.Sized limits := by
  obtain ⟨-, rfl⟩ := create_eq_ok_iff.mp h
  exact ⟨rfl, rfl, rfl, rfl, rfl, rfl, rfl, rfl⟩

/-- A flush leaves a recompiler as it is created, but for the counts. -/
theorem sameCode_flush (h : r.Sized limits) (hflush : r.flush = .ok r') (t : TranslatorStats) :
    (bare t limits).SameCode r' := by
  obtain ⟨k, hcache⟩ := Cache.clear_eq_blank h.cacheSlots h.poolNodes
  obtain ⟨-, rfl⟩ := eq_of_flush hflush
  refine ⟨⟨r.translator, r.store.generation + 1, r.store.reset.withStubs.stats, k, r.linker.stats,
    { r.stats with flushes := r.stats.flushes + 1 }⟩, ?_⟩
  rw [counted, bare, ← hcache, ← h.maxBlock, ← h.linkCapacity, ← h.codeCapacity, ← h.flushMargin, ← h.patchSites,
    ← h.native, ← Nat.zero_add r.store.native.stubs]
  rfl

end Sized

end Recompiler

end R3000
