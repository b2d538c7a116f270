import Mathlib
import R3000.Proofs.Holding
import R3000.Proofs.Tracing

/-!
# What an answer says and leaves

An answer is faithful to the cache: a hit is what the cache had, and leaves everything but the counters; a block
that was compiled is cached now, and no other address has another block for it, though after a flush it may have
none; and a fault of the program leaves no trace, unless the stores were flushed before.
-/

namespace R3000.Recompiler

variable {τ β : Type} {T : Translator τ β} {fallback : Bool} {unlinked : List UInt32} {source : Source}
  {pc : UInt32} {r r' : Recompiler τ β} {b b' b₀ : Recompiler TranslatorStats Block} {a : Resolved Block}
  {e : Entry Block} {err : TranslateError} {n : Nat}

/-! ### The way to an answer -/

/-- An error of the planning translator is the program's fault or the source's, or a store was full. -/
lemma isFull_of_publish {err : PublishError}
    (h : b.publish (.standard fallback unlinked) source pc = (.error err, b')) :
    (∃ fault, err = .translate fault ∧ (fault.isGuestFault = true ∨ source pc = .error fault) ∧ b' = b) ∨
      err.isFull = true ∧ ∀ fault, err = .translate fault → fault.isGuestFault = false := by
  rcases publish_standard fallback unlinked source pc b with
    ⟨e, b₁, heq⟩ | ⟨fault, hplan, heq⟩ | ⟨full, b₁, hfull, heq⟩
  · cases h.symm.trans heq
  · cases h.symm.trans heq
    exact .inl ⟨_, rfl, (Plan.isGuestFault_of_ofSource hplan).symm, rfl⟩
  · cases h.symm.trans heq
    refine .inr ⟨hfull, ?_⟩
    rintro fault rfl
    cases fault <;> first | rfl | cases hfull

/-- A source that gave up gives up again. -/
lemma publishLast_of_error (herr : source pc = .error err) (hfault : err.isGuestFault = false)
    (b : Recompiler TranslatorStats Block) :
    b.publishLast (.standard fallback unlinked) source pc = (.error (.translate pc err), b) := by
  rw [publishLast, publish_of_error herr]
  simp [hfault]

/-- An answer that came without another try. -/
lemma tried_of_publishLast (h : b.publishLast (.standard fallback unlinked) source pc = (.ok a, b')) :
    Tried (.standard fallback unlinked) source pc 0 b a b' := by
  rw [publishLast] at h
  split at h
  · rename_i e b₁ hpublish
    cases h
    exact .compiled hpublish
  · cases h
  · rename_i err b₁ hpublish
    split at h
    · rename_i hfault
      cases h
      exact .failed hpublish hfault
    · cases h

/-- An answer that came with one more try at most. -/
lemma tried_of_publishOrFlush (h : b.publishOrFlush (.standard fallback unlinked) source pc = (.ok a, b')) :
    ∃ n, Tried (.standard fallback unlinked) source pc n b a b' := by
  have hretry : ∀ err b₁, b.publish (.standard fallback unlinked) source pc = (.error err, b₁) →
      err.isFull = true → b₁.flushThen (publishLast (.standard fallback unlinked) source pc) = (.ok a, b') →
        ∃ n, Tried (.standard fallback unlinked) source pc n b a b' := by
    intro err b₁ hpublish hfull hthen
    rw [flushThen] at hthen
    split at hthen
    · cases hthen
    · rename_i b₂ hflush
      exact ⟨1, .retry hpublish hfull hflush (tried_of_publishLast hthen)⟩
  rw [publishOrFlush] at h
  split at h
  · rename_i e b₁ hpublish
    cases h
    exact ⟨0, .compiled hpublish⟩
  · rename_i err b₁ hpublish
    exact hretry _ _ hpublish rfl h
  · rename_i err b₁ hpublish
    split at h
    · rename_i hfault
      cases h
      exact ⟨0, .failed hpublish hfault⟩
    · rename_i hfault
      obtain ⟨fault, heq, hguest | herr, -⟩ | ⟨hfull, -⟩ := isFull_of_publish hpublish
      · cases heq
        exact absurd hguest hfault
      · cases heq
        rw [flushThen] at h
        split at h
        · cases h
        · rename_i b₂ hflush
          rw [publishLast_of_error herr (by simpa using hfault)] at h
          cases h
      · exact hretry _ _ hpublish hfull h

/-- An answer for an address that is not cached came from publishing, perhaps after a flush. -/
lemma exists_tried (hnone : b.cache.get? pc = none)
    (h : b.resolve (.standard fallback unlinked) source pc = (.ok a, b')) :
    ∃ cacheStats n b₁, Tried (.standard fallback unlinked) source pc n b₁ a b' ∧
      (b₁ = { b with cache.stats := cacheStats } ∨
        flush { b with cache.stats := cacheStats } = .ok b₁) := by
  obtain ⟨stats, hcounted⟩ := Cache.getCounted_snd b.cache pc
  have hfst := (Cache.getCounted_fst b.cache pc).trans hnone
  rw [resolve, show b.cache.getCounted pc = (none, { b.cache with stats }) from Prod.ext hfst hcounted] at h
  dsimp only at h
  refine ⟨stats, ?_⟩
  split at h
  · rw [flushThen] at h
    split at h
    · cases h
    · rename_i b₁ hflush
      obtain ⟨n, htried⟩ := tried_of_publishOrFlush h
      exact ⟨n, b₁, htried, .inr hflush⟩
  · obtain ⟨n, htried⟩ := tried_of_publishOrFlush h
    exact ⟨n, _, htried, .inl rfl⟩

/-! ### What an answer leaves -/

/-- Publishing never finds a block in the cache. -/
lemma Tried.ne_hit (h : Tried T source pc n r a' r') (x : Entry β) : a' ≠ .hit x := by
  induction h with
  | compiled => simp
  | failed => simp
  | retry _ _ _ _ ih => exact ih

/-- A block that was compiled is cached, beside those before it or, after a flush, alone. -/
lemma Tried.get?_compiled (hvalid : Cache.Valid b.cache)
    (h : Tried (.standard fallback unlinked) source pc n b a b') (ha : a = .compiled e) :
    b'.cache.get? = Function.update (if n = 0 then b.cache.get? else fun _ => none) pc (some e) := by
  induction h with
  | compiled hpublish =>
    cases ha
    obtain ⟨t, cache, -, rfl, hinsert, rfl⟩ := publish_eq_ok hpublish
    rw [if_pos rfl]
    exact hvalid.get?_insert hinsert
  | failed => cases ha
  | @retry n b b₁ b₂ b' err a hpublish _ hflush _ ih =>
    have hflushed : Cache.Valid b₂.cache := by
      rw [(flush_eq_ok hflush).1]
      exact (Cache.valid_clear _).1
    have hnone : b₂.cache.get? = fun _ => none := funext (get?_of_flush hflush)
    rw [ih hflushed ha, hnone, ite_self, if_neg (Nat.succ_ne_zero n)]

/-- A fault of the program changes only the counters, unless there was another try, and caches nothing. -/
lemma Tried.failed_eq (h : Tried (.standard fallback unlinked) source pc n b a b') (ha : a = .failed err)
    (hnone : b.cache.get? pc = none) : b'.cache.get? pc = none ∧ (n = 0 → b' = b.countFailure) := by
  induction h with
  | compiled => cases ha
  | failed hpublish hfault =>
    obtain ⟨fault, -, -, rfl⟩ | ⟨-, hnot⟩ := isFull_of_publish hpublish
    · exact ⟨hnone, fun _ => rfl⟩
    · exact absurd (hfault.symm.trans (hnot _ rfl)) Bool.noConfusion
  | retry _ _ hflush _ ih => exact ⟨(ih ha (get?_of_flush hflush pc)).1, fun h => absurd h (Nat.succ_ne_zero _)⟩

/-! ### Hits and misses -/

/-- What is cached is a hit, whatever the translator. -/
lemma resolve_of_some {x : Entry β} (hsome : r.cache.get? pc = some x) (T : Translator τ β) (source : Source) :
    ∃ cacheStats, r.resolve T source pc = (.ok (.hit x),
      { r with cache.stats := cacheStats, stats.cacheHits := r.stats.cacheHits + 1 }) := by
  obtain ⟨stats, hcounted⟩ := Cache.getCounted_snd r.cache pc
  have hfst := (Cache.getCounted_fst r.cache pc).trans hsome
  rw [resolve, show r.cache.getCounted pc = (some x, { r.cache with stats }) from Prod.ext hfst hcounted]
  exact ⟨stats, rfl⟩

/-- A hit calls no translator. -/
lemma calls_of_some {x : Entry β} (hsome : r.cache.get? pc = some x) (T : Translator τ β) (source : Source) :
    r.calls T source pc = [] := by
  obtain ⟨stats, heq⟩ := resolve_of_some (r := r.traced) hsome T.traced source
  rw [calls, heq]
  rfl

/-- An answer other than a hit is about an address that was not cached. -/
lemma none_of_resolve {a' : Resolved β} (h : r.resolve T source pc = (.ok a', r')) (ha : ∀ x, a' ≠ .hit x) :
    r.cache.get? pc = none := by
  by_contra hsome
  obtain ⟨x, hx⟩ := Option.ne_none_iff_exists'.mp hsome
  obtain ⟨stats, heq⟩ := resolve_of_some hx T source
  rw [heq] at h
  cases h
  exact ha x rfl

/-- A hit is what the cache has. -/
lemma resolve_eq_hit_iff : (b.resolve (.standard fallback unlinked) source pc).1 = .ok (.hit e) ↔
    b.cache.get? pc = some e := by
  constructor
  · intro hresolve
    cases hget : b.cache.get? pc with
    | none =>
      obtain ⟨-, n, b₁, htried, -⟩ := exists_tried hget (Prod.ext hresolve rfl)
      exact absurd rfl (htried.ne_hit e)
    | some x =>
      obtain ⟨stats, heq⟩ := resolve_of_some hget (.standard fallback unlinked) source
      rw [heq] at hresolve
      cases hresolve
      rfl
  · intro hget
    obtain ⟨stats, heq⟩ := resolve_of_some hget (.standard fallback unlinked) source
    rw [heq]

/-! ### Answers are faithful -/

/-- What was compiled is cached, and the other addresses have the blocks that they had, or after a flush none. -/
lemma get?_of_compiled (hvalid : Cache.Valid b.cache)
    (h : b.resolve (.standard fallback unlinked) source pc = (.ok (.compiled e), b')) :
    b'.cache.get? pc = some e ∧ ∀ other, other ≠ pc →
      b'.cache.get? other = if b'.stats.flushes = b.stats.flushes then b.cache.get? other else none := by
  obtain ⟨stats, n, b₁, htried, hstart⟩ := exists_tried (none_of_resolve h (by simp)) h
  have hflushes := htried.flushes
  obtain rfl | hflush := hstart
  · -- the stores were flushed if there was another try
    have hcounted : b'.stats.flushes = b.stats.flushes + n := hflushes
    have hget := htried.get?_compiled (hvalid.with_stats stats) rfl
    change b'.cache.get? = Function.update (if n = 0 then b.cache.get? else fun _ => none) pc (some e) at hget
    refine ⟨by rw [hget, Function.update_self], fun other hother => ?_⟩
    rw [hget, Function.update_of_ne hother]
    by_cases hn : n = 0
    · rw [if_pos hn, if_pos (by omega)]
    · rw [if_neg hn, if_neg (by omega)]
  · have hempty : b₁.cache.get? = fun _ => none := funext (get?_of_flush hflush)
    have hcleared : Cache.Valid b₁.cache := by
      rw [(flush_eq_ok hflush).1]
      exact (Cache.valid_clear _).1
    have hget := htried.get?_compiled hcleared rfl
    have hcounted : b'.stats.flushes = b.stats.flushes + 1 + n := by
      rw [hflushes, (flushed_of_flush hflush).2.2]
    refine ⟨by rw [hget, Function.update_self], fun other hother => ?_⟩
    rw [hget, Function.update_of_ne hother, hempty, ite_self, if_neg (by omega)]

/-- A fault of the program caches nothing, and without a flush only counters change. -/
lemma eq_of_failed (h : b.resolve (.standard fallback unlinked) source pc = (.ok (.failed err), b')) :
    b'.cache.get? pc = none ∧ (b'.stats.flushes = b.stats.flushes → ∃ cacheStats, b' =
      { b with cache.stats := cacheStats, stats.compileFailures := b.stats.compileFailures + 1 }) := by
  have hnone := none_of_resolve h (by simp)
  obtain ⟨stats, n, b₁, htried, hstart⟩ := exists_tried hnone h
  have hflushes := htried.flushes
  obtain rfl | hflush := hstart
  · obtain ⟨hleft, heq⟩ := htried.failed_eq rfl hnone
    replace hflushes : b'.stats.flushes = b.stats.flushes + n := hflushes
    exact ⟨hleft, fun hsame => ⟨stats, heq (by omega)⟩⟩
  · have hcounted : b'.stats.flushes = b.stats.flushes + 1 + n := by
      rw [hflushes, (flushed_of_flush hflush).2.2]
    exact ⟨(htried.failed_eq rfl (get?_of_flush hflush pc)).1, fun hsame => by omega⟩

/-- What resolving an address answers and leaves, with the stores flushed on the way or not. -/
structure Faithful (T : Translator τ β) (source : Source) (pc : UInt32) (r : Recompiler τ β) : Prop where
  hit_iff : ∀ e, (r.resolve T source pc).1 = .ok (.hit e) ↔ r.cache.get? pc = some e
  /-- A hit calls no translator, and counts. -/
  hit : (r.cache.get? pc).isSome → r.calls T source pc = [] ∧
    ∃ cacheStats, (r.resolve T source pc).2 =
      { r with cache.stats := cacheStats, stats.cacheHits := r.stats.cacheHits + 1 }
  compiled : ∀ e r', r.resolve T source pc = (.ok (.compiled e), r') → r'.cache.get? pc = some e ∧
    ∀ other, other ≠ pc →
      r'.cache.get? other = if r'.stats.flushes = r.stats.flushes then r.cache.get? other else none
  /-- A fault counts, and without a flush it leaves everything else as it was. -/
  failed : ∀ err r', r.resolve T source pc = (.ok (.failed err), r') → r'.cache.get? pc = none ∧
    (r'.stats.flushes = r.stats.flushes → ∃ cacheStats, r' =
      { r with cache.stats := cacheStats, stats.compileFailures := r.stats.compileFailures + 1 })

/-- Answers about a valid cache are faithful. -/
lemma faithful_of_valid (h : Cache.Valid b.cache) (fallback : Bool) (unlinked : List UInt32) (source : Source)
    (pc : UInt32) : Faithful (.standard fallback unlinked) source pc b where
  hit_iff _ := resolve_eq_hit_iff
  hit hsome := by
    obtain ⟨x, hx⟩ := Option.isSome_iff_exists.mp hsome
    obtain ⟨stats, heq⟩ := resolve_of_some hx (.standard fallback unlinked) source
    exact ⟨calls_of_some hx _ source, stats, by rw [heq]⟩
  compiled _ _ hresolve := get?_of_compiled h hresolve
  failed _ _ hresolve := eq_of_failed hresolve

/-- A recompiler with a valid cache and no call noted. -/
lemma once_traced (hvalid : Cache.Valid r.cache) (hstubs : r.store.FitsStubs) : r.traced.Once where
  valid := hvalid
  stubs := hstubs
  nodup := List.nodup_nil
  past _ hk := absurd hk List.not_mem_nil
  cached _ hpc := absurd hpc List.not_mem_nil

/-- Whatever becomes of a new recompiler, its answers are faithful.  From there on, as long as no range is
invalidated, no address is translated twice in a generation of the stores, which lasts from one flush to the next. -/
theorem resolve_faithful {limits : Limits} {s : TranslatorStats} (hcreate : create s limits = .ok b₀)
    (hb : Becomes (.standard fallback unlinked) b₀ b) :
    (∀ source pc, Faithful (.standard fallback unlinked) source pc b) ∧
      ∀ x, Continues (Translator.standard fallback unlinked).traced b.traced x →
        Continues (.standard fallback unlinked) b x.untraced ∧ (Translator.made x.translator.2).Nodup := by
  have hcarves := Translator.standard_carves fallback unlinked
  have hvalid := (hb.holds (P := fun _ => True) (fun _ _ _ _ _ _ => trivial) (fun _ _ _ => trivial)
    (.create hcreate)).valid
  have hstubs : b.store.FitsStubs := hb.fitsStubs hcarves (fitsStubs_of_create hcreate)
  refine ⟨faithful_of_valid hvalid fallback unlinked, fun x hx => ⟨?_, ?_⟩⟩
  · exact hx.mapState (Translator.traced_notes _)
  · exact (hx.once hcarves (once_traced hvalid hstubs)).nodup

/-- A block that leads back to the one before it, then words that make none: the fault caches nothing, and the block
is translated once. -/
theorem resolve_faithful_fault :
    let source : Source := fun pc =>
      if pc = 0x10 then .error (.memoryRead pc) else .ok (match pc with | 0 => 0x08000008 | 0x20 => 0x08000000 | _ => 0)
    let T := Translator.standard true []
    ∃ b₀, create {} { cacheSlots := 1, poolNodes := 1, patchSites := 1 } = .ok b₀ ∧
      let b := run T [.resolve source 0] b₀
      Becomes T b₀ b ∧ (∀ pc, Faithful T source pc b) ∧
        (b.resolve T source 0x10).1 = .ok (.failed (.memoryRead 0x10)) ∧
          (b.resolve T source 0x10).2.linker.pending = [⟨0, 0x20, 0⟩] ∧
            let x := ((b.traced.resolve T.traced source 0x20).2.resolve T.traced source 0x20).2
            Continues T b x.untraced ∧ Translator.made x.translator.2 = [(0, 0x20)] := by
  intro source T
  let b₀ : Recompiler TranslatorStats Block := bare {} { cacheSlots := 1, poolNodes := 1, patchSites := 1 }
  have hcreate : create {} { cacheSlots := 1, poolNodes := 1, patchSites := 1 } = .ok b₀ :=
    create_eq_bare _ (by decide)
  have hb : Becomes T b₀ (run T [.resolve source 0] b₀) := Becomes.start.run _
  obtain ⟨hfaithful, honce⟩ := resolve_faithful hcreate hb
  exact ⟨b₀, hcreate, hb, hfaithful source, by decide +kernel, by decide +kernel,
    (honce _ (.resolve source 0x20 (.resolve source 0x20 .start))).1, by decide +kernel⟩

end R3000.Recompiler
