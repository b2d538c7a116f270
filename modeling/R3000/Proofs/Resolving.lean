import Mathlib
import R3000.Proofs.Cache.Contents
import R3000.Proofs.Space
import R3000.Proofs.Translation

/-!
# Resolving an address

`resolve` counts a lookup, and on a miss publishes, flushes, or publishes again after a flush.  What each of
these keeps, `resolve` keeps; so an invariant of the recompiler is checked against them alone.
-/

namespace R3000.Recompiler

variable {τ β : Type} {T : Translator τ β} {source : Source} {pc : UInt32} {r r' : Recompiler τ β}
  {P : Recompiler τ β → Prop} {Q : Entry β → Recompiler τ β → Prop}

/-- What an answer leaves: `Q` once a block was published, and `P` otherwise; a hit is in the cache. -/
def Leaves (pc : UInt32) (P : Recompiler τ β → Prop) (Q : Entry β → Recompiler τ β → Prop) :
    Except RecompileError (Resolved β) × Recompiler τ β → Prop
  | (.ok (.compiled e), r) => Q e r
  | (.ok (.hit e), r) => P r ∧ r.cache.get? pc = some e
  | (_, r) => P r

/-- The parts of `resolve` keep `P`, and a block published leaves `Q`. -/
structure Keeps (T : Translator τ β) (source : Source) (pc : UInt32) (P : Recompiler τ β → Prop)
    (Q : Entry β → Recompiler τ β → Prop) : Prop where
  count : ∀ r cacheStats stats, stats.flushes = r.stats.flushes → P r → P { r with cache.stats := cacheStats, stats }
  flush : ∀ r r', P r → r.flush = .ok r' → P r'
  publish : ∀ r e r', P r → r.cache.get? pc = none → r.publish T source pc = (.ok e, r') → Q e r'
  fail : ∀ r err r', P r → r.cache.get? pc = none → r.publish T source pc = (.error err, r') → P r'

/-! ### Flushing -/

/-- A flush works with space for the stubs, and starts every store over. -/
lemma flush_eq_ok_iff : r.flush = .ok r' ↔ r.store.FitsStubs ∧
    r' = { r with
      store := r.store.reset.withStubs
      cache := r.cache.clear
      linker := r.linker.clear
      stats.flushes := r.stats.flushes + 1 } := by
  have hspace : r.store.reset.used + r.store.reset.native.stubs = r.store.native.stubs := Nat.zero_add _
  rw [flush]
  cases hstubs : r.store.reset.emitStubs with
  | error e =>
    refine iff_of_false nofun fun h => ?_
    rw [CodeStore.emitStubs_eq_ok_iff.mpr ⟨hspace.trans_le h.1, rfl⟩] at hstubs
    cases hstubs
  | ok store =>
    obtain ⟨hfits, rfl⟩ := CodeStore.emitStubs_eq_ok_iff.mp hstubs
    rw [hspace] at hfits
    exact ⟨fun h => ⟨hfits, (Except.ok.inj h).symm⟩, fun h => h.2 ▸ rfl⟩

lemma eq_of_flush (h : r.flush = .ok r') : r.store.FitsStubs ∧
    r' = { r with
      store := r.store.reset.withStubs
      cache := r.cache.clear
      linker := r.linker.clear
      stats.flushes := r.stats.flushes + 1 } :=
  flush_eq_ok_iff.mp h

/-- A flush leaves no block, and keeps the translator and the limit of a block. -/
lemma flush_eq_ok (h : r.flush = .ok r') :
    r'.cache = r.cache.clear ∧ r'.linker = r.linker.clear ∧ r'.translator = r.translator ∧
      r'.maxBlock = r.maxBlock := by
  obtain ⟨-, rfl⟩ := eq_of_flush h
  exact ⟨rfl, rfl, rfl, rfl⟩

lemma flush_stats (h : r.flush = .ok r') : r'.stats = { r.stats with flushes := r.stats.flushes + 1 } := by
  obtain ⟨-, rfl⟩ := eq_of_flush h
  rfl

lemma get?_of_flush (h : r.flush = .ok r') (pc : UInt32) : r'.cache.get? pc = none := by
  obtain ⟨hvalid, hnil⟩ := Cache.valid_clear r.cache
  rw [(flush_eq_ok h).1]
  exact hvalid.get?_of_toList_nil hnil pc

/-! ### Publishing and invalidating -/

/-- A block that is published is the translation's, and has entered the cache. -/
lemma publish_eq_ok {e : Entry β} (h : r.publish T source pc = (.ok e, r')) :
    let t := T.translate source pc (max r.maxBlock 1) r.translator r.store
    ∃ translation cache, t.result = .ok translation ∧ e = translation.entry pc ∧
      r.cache.insert e = .ok cache ∧
        let s := linkExits cache pc translation.exits (r.linker, t.store)
        let linked := (s.1.apply s.2 pc e.code).2
        r' = { r with
          translator := t.state
          cache
          linker := linked.1
          store := linked.2.refresh
          stats.blocksCompiled := r.stats.blocksCompiled + 1 } := by
  rw [publish] at h
  dsimp only at h
  split at h
  · simp at h
  · rename_i translation ht
    split at h
    · simp at h
    · rename_i cache hinsert
      obtain ⟨rfl, rfl⟩ : translation.entry pc = e ∧ _ = r' := by simpa using h
      exact ⟨translation, cache, ht, rfl, hinsert, rfl⟩

/-- A translation whose block enters the cache is published. -/
lemma exists_publish {translation : Translation β} {cache : Cache β}
    (ht : (T.translate source pc (max r.maxBlock 1) r.translator r.store).result = .ok translation)
    (hinsert : r.cache.insert (translation.entry pc) = .ok cache) :
    ∃ r', r.publish T source pc = (.ok (translation.entry pc), r') := by
  rw [publish]
  dsimp only
  rw [ht]
  dsimp only
  rw [hinsert]
  exact ⟨_, rfl⟩

/-- A failed publication may have taken link words; it changes no block and no site. -/
lemma publish_eq_error {err : PublishError} (h : r.publish T source pc = (.error err, r')) :
    let t := T.translate source pc (max r.maxBlock 1) r.translator r.store
    r' = { r with translator := t.state, store := t.store } := by
  rw [publish] at h
  dsimp only at h
  split at h
  · exact (Prod.mk.inj h).2.symm
  · split at h
    · exact (Prod.mk.inj h).2.symm
    · simp at h

/-- Invalidating a range erases the blocks that overlap it. -/
lemma invalidate_cache (r : Recompiler τ β) (start : UInt32) {len : UInt32} (hlen : len ≠ 0) :
    (r.invalidate start len).2.cache =
      (r.cache.eraseWhere (·.overlaps start (saturatingAdd start len))).2 := by
  rw [invalidate, if_neg hlen]
  dsimp only
  split <;> rename_i heq <;> rw [heq]

/-- A block that is left after a range was invalidated was there before, outside the range. -/
lemma get?_invalidate (h : r.cache.Valid) {start len : UInt32} {e : Entry β}
    (he : (r.invalidate start len).2.cache.get? pc = some e) :
    r.cache.get? pc = some e ∧ (len ≠ 0 → ¬ e.overlaps start (saturatingAdd start len)) := by
  by_cases hlen : len = 0
  · subst hlen
    exact ⟨he, fun hne => absurd rfl hne⟩
  · rw [invalidate_cache r start hlen, h.get?_eraseWhere, Option.filter_eq_some_iff] at he
    exact ⟨he.1, fun _ => by simpa using he.2⟩

lemma valid_invalidate (h : r.cache.Valid) (start len : UInt32) : (r.invalidate start len).2.cache.Valid := by
  by_cases hlen : len = 0
  · subst hlen
    exact h
  · rw [invalidate_cache r start hlen]
    exact h.valid_eraseWhere _

lemma invalidate_frame (r : Recompiler τ β) (start len : UInt32) :
    (r.invalidate start len).2.translator = r.translator ∧
      (r.invalidate start len).2.maxBlock = r.maxBlock := by
  rw [invalidate]
  split
  · exact ⟨rfl, rfl⟩
  · dsimp only
    split <;> exact ⟨rfl, rfl⟩

/-! ### Resolving -/

namespace Keeps

lemma countFailure (k : Keeps T source pc P Q) (h : P r) : P r.countFailure :=
  k.count r r.cache.stats { r.stats with compileFailures := r.stats.compileFailures + 1 } rfl h

lemma flushThen (k : Keeps T source pc P Q) (h : P r)
    {go : Recompiler τ β → Except RecompileError (Resolved β) × Recompiler τ β}
    (hgo : ∀ r, P r → r.cache.get? pc = none → Leaves pc P Q (go r)) :
    Leaves pc P Q (r.flushThen go) := by
  rw [Recompiler.flushThen]
  split
  · exact h
  · rename_i r' hflush
    exact hgo r' (k.flush r r' h hflush) (get?_of_flush hflush pc)

lemma publishLast (k : Keeps T source pc P Q) (h : P r) (hnone : r.cache.get? pc = none) :
    Leaves pc P Q (r.publishLast T source pc) := by
  rw [Recompiler.publishLast]
  split
  · rename_i e r' heq
    exact k.publish r e r' h hnone heq
  · rename_i e r' heq
    exact k.fail r _ r' h hnone heq
  · rename_i e r' heq
    have hP := k.fail r _ r' h hnone heq
    split
    · exact k.countFailure hP
    · exact hP

lemma publishOrFlush (k : Keeps T source pc P Q) (h : P r) (hnone : r.cache.get? pc = none) :
    Leaves pc P Q (r.publishOrFlush T source pc) := by
  rw [Recompiler.publishOrFlush]
  split
  · rename_i e r' heq
    exact k.publish r e r' h hnone heq
  · rename_i e r' heq
    exact k.flushThen (k.fail r _ r' h hnone heq) fun r hP hr => k.publishLast hP hr
  · rename_i e r' heq
    have hP := k.fail r _ r' h hnone heq
    split
    · exact k.countFailure hP
    · exact k.flushThen hP fun r hP hr => k.publishLast hP hr

/-- Resolving an address leaves what its parts leave. -/
theorem resolve (k : Keeps T source pc P Q) (h : P r) : Leaves pc P Q (r.resolve T source pc) := by
  obtain ⟨stats, hcounted⟩ := Cache.getCounted_snd r.cache pc
  have hfst := Cache.getCounted_fst r.cache pc
  rw [Recompiler.resolve]
  split
  · rename_i e cache heq
    obtain rfl : { r.cache with stats } = cache := by rw [← hcounted, heq]
    refine ⟨k.count r stats _ rfl h, ?_⟩
    rw [heq] at hfst
    exact hfst.symm
  · rename_i cache heq
    obtain rfl : { r.cache with stats } = cache := by rw [← hcounted, heq]
    have hnone : r.cache.get? pc = none := by rw [← hfst, heq]
    have hP : P { r with cache.stats := stats } := k.count r stats r.stats rfl h
    dsimp only
    split
    · exact k.flushThen hP fun r hP hr => k.publishOrFlush hP hr
    · exact k.publishOrFlush hP hnone

/-- What is kept in any case holds after resolving an address. -/
lemma resolve_snd (k : Keeps T source pc P fun _ => P) (h : P r) : P (r.resolve T source pc).2 := by
  have hleaves := k.resolve h
  dsimp only [Leaves] at hleaves
  split at hleaves
  · rename_i heq
    rw [heq]
    exact hleaves
  · rename_i heq
    rw [heq]
    exact hleaves.1
  · rename_i heq
    rw [heq]
    exact hleaves

end Keeps

/-! ### Sources -/

/-- A translator that reads from one source, whatever it is given. -/
def reading (T : Translator τ β) (source : Source) : Translator τ β :=
  { T with translate := fun _ => T.translate source }

end R3000.Recompiler
