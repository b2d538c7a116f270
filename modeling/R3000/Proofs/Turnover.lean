import Mathlib
import R3000.Proofs.Resolving

/-!
# Turnover

The cache counts the blocks that enter and leave it and the lookups that find one; the recompiler counts them once
more, and its answers.  `Cache.Turnover` says what an operation counts, `Recompiler.Since` goes through the changes
of a recompiler and keeps the moment from which on nothing was cleared or forgotten.  The counts of both agree at
every moment, and since a clearing the blocks that entered and those that left differ by the size.
-/

namespace R3000

/-! ### The cache -/

namespace Cache

variable {β : Type} {c c' c'' : Cache β} {e : Entry β} {pc : UInt32}

/-- What a cache has counted from one moment to another with no clearing in between. -/
structure Turnover (c c' : Cache β) (added removed found : Nat) : Prop where
  inserts : c'.stats.inserts = c.stats.inserts + added
  removals : c'.stats.removals = c.stats.removals + removed
  hits : c'.stats.chainHits + c'.stats.directHits = c.stats.chainHits + c.stats.directHits + found
  clears : c'.stats.clears = c.stats.clears
  size : c'.size + removed = c.size + added

namespace Turnover

lemma refl (c : Cache β) : Turnover c c 0 0 0 := ⟨rfl, rfl, rfl, rfl, rfl⟩

lemma trans {a a' r r' f f' : Nat} (h : Turnover c c' a r f) (h' : Turnover c' c'' a' r' f') :
    Turnover c c'' (a + a') (r + r') (f + f') where
  inserts := by rw [h'.inserts, h.inserts, Nat.add_assoc]
  removals := by rw [h'.removals, h.removals, Nat.add_assoc]
  hits := by rw [h'.hits, h.hits, Nat.add_assoc]
  clears := h'.clears.trans h.clears
  size := by
    have hsize := h.size
    have hsize' := h'.size
    omega

end Turnover

lemma turnover_getCounted (c : Cache β) (pc : UInt32) :
    Turnover c (c.getCounted pc).2 0 0 (if (c.get? pc).isSome then 1 else 0) := by
  rw [getCounted, get?]
  cases c.resident? pc with
  | some e => exact ⟨rfl, rfl, rfl, rfl, rfl⟩
  | none =>
    cases (c.node? pc).bind c.entryAt with
    | some e => exact ⟨rfl, rfl, Nat.add_right_comm .., rfl, rfl⟩
    | none => exact ⟨rfl, rfl, rfl, rfl, rfl⟩

/-- An insertion adds a block or replaces one. -/
lemma turnover_insert (h : c.insert e = .ok c') : ∃ added, Turnover c c' added 0 0 := by
  rw [insert] at h
  dsimp only at h
  split at h
  · obtain rfl := Except.ok.inj h
    exact ⟨1, rfl, rfl, rfl, rfl, rfl⟩
  · split at h
    · obtain rfl := Except.ok.inj h
      exact ⟨0, rfl, rfl, rfl, rfl, rfl⟩
    · split at h
      · obtain rfl := Except.ok.inj h
        exact ⟨0, rfl, rfl, rfl, rfl, rfl⟩
      · rw [pushFront, takeNode] at h
        dsimp only at h
        split at h
        · rename_i i x htake
          obtain rfl := Except.ok.inj h
          split at htake
          · obtain ⟨rfl, rfl⟩ := Prod.mk.inj (Option.some.inj htake)
            exact ⟨1, rfl, rfl, rfl, rfl, rfl⟩
          · split at htake
            · obtain ⟨rfl, rfl⟩ := Prod.mk.inj (Option.some.inj htake)
              exact ⟨1, rfl, rfl, rfl, rfl, rfl⟩
            · cases htake
        · cases h

lemma turnover_setIdle (c : Cache β) (pc : UInt32) (idle : Idle) : Turnover c (c.setIdle pc idle).2 0 0 0 := by
  rw [setIdle]
  split <;> exact ⟨rfl, rfl, rfl, rfl, rfl⟩

lemma stats_unlink (c : Cache β) (s i : Nat) : (c.unlink s i).stats = c.stats := by
  rw [unlink, bypass]
  split <;> rfl

/-- An erasure removes the block that it gives back. -/
lemma turnover_erase (h : Valid c) (pc : UInt32) :
    Turnover c (c.erase pc).2 0 (c.erase pc).1.toList.length 0 := by
  -- the size follows from the blocks that are left
  have hsize : (c.erase pc).2.size + (c.erase pc).1.toList.length = c.size := by
    rcases h.erase pc with ⟨heq, -⟩ | ⟨x, c', heq, -, hvalid, hperm⟩
    · rw [heq]
      rfl
    · have hlength := hperm.length_eq
      rw [List.length_cons] at hlength
      rw [heq, h.counted, hlength]
      exact congrArg (· + 1) hvalid.counted
  have hstats : (c.erase pc).2.stats =
      { c.stats with removals := c.stats.removals + (c.erase pc).1.toList.length } := by
    rw [erase]
    dsimp only
    split
    · split
      · rw [countRemoval, stats_unlink]
        rfl
      · rfl
    · rename_i i _ hnode
      obtain ⟨x, -, -, -, hx, -⟩ := node?_eq_some h.pool hnode
      rw [countRemoval, stats_unlink, hx]
      rfl
    · rfl
  exact ⟨by rw [hstats]; rfl, by rw [hstats], by rw [hstats]; rfl, by rw [hstats], by rw [hsize]; rfl⟩

lemma turnover_eraseAll (h : Valid c) (pcs : List UInt32) :
    Turnover c (c.eraseAll pcs).2 0 (c.eraseAll pcs).1.length 0 := by
  induction pcs generalizing c with
  | nil => exact .refl c
  | cons pc pcs ih =>
    have hrest := (turnover_erase h pc).trans (ih (h.valid_erase pc))
    rw [eraseAll]
    dsimp only
    rw [List.length_append]
    exact hrest

lemma turnover_eraseWhere (h : Valid c) (p : Entry β → Bool) :
    Turnover c (c.eraseWhere p).2 0 (c.eraseWhere p).1.length 0 := turnover_eraseAll h _

end Cache

/-! ### The recompiler -/

namespace Recompiler

variable {τ β : Type} {T : Translator τ β} {source : Source} {pc : UInt32} {r r' r₀ s : Recompiler τ β}

/-- The counts of the recompiler agree with those of its cache. -/
structure Reconciled (r : Recompiler τ β) : Prop where
  valid : r.cache.Valid
  invalidated : r.stats.invalidatedBlocks = r.cache.stats.removals
  flushes : r.stats.flushes = r.cache.stats.clears
  hits : r.cache.stats.chainHits + r.cache.stats.directHits = r.stats.cacheHits

/-- A change of a recompiler other than a flush. -/
inductive Turn (T : Translator τ β) : Recompiler τ β → Recompiler τ β → Prop
  | lookup (r : Recompiler τ β) (pc : UInt32) : Turn T r
    { r with
      cache := (r.cache.getCounted pc).2
      stats.cacheHits := r.stats.cacheHits + if (r.cache.get? pc).isSome then 1 else 0 }
  | publish (source : Source) (pc : UInt32) (r : Recompiler τ β) : Turn T r (r.publish T source pc).2
  | fail (r : Recompiler τ β) : Turn T r r.countFailure
  | invalidate (r : Recompiler τ β) (start len : UInt32) : Turn T r (r.invalidate start len).2
  | refineIdle (r : Recompiler τ β) (pc : UInt32) (idle : Idle) : Turn T r (r.refineIdle pc idle).2

/-- What a change counts, the cache and the recompiler count alike. -/
structure Turn.Counts (r r' : Recompiler τ β) (added removed found : Nat) : Prop where
  valid : r'.cache.Valid
  cache : Cache.Turnover r.cache r'.cache added removed found
  invalidated : r'.stats.invalidatedBlocks = r.stats.invalidatedBlocks + removed
  flushes : r'.stats.flushes = r.stats.flushes
  cacheHits : r'.stats.cacheHits = r.stats.cacheHits + found

/-- Invalidating a range counts the blocks that it erases. -/
lemma stats_invalidate (r : Recompiler τ β) (start : UInt32) {len : UInt32} (hlen : len ≠ 0) :
    (r.invalidate start len).2.stats =
      { r.stats with
        invalidatedBlocks := r.stats.invalidatedBlocks +
          (r.cache.eraseWhere (·.overlaps start (saturatingAdd start len))).1.length } := by
  rw [invalidate, if_neg hlen]
  dsimp only
  split <;> rename_i heq
  · rw [heq]
    rfl
  · rw [heq]

lemma counts_invalidate (h : r.cache.Valid) (start len : UInt32) :
    ∃ removed, Turn.Counts r (r.invalidate start len).2 0 removed 0 := by
  have hvalid := valid_invalidate h start len
  by_cases hlen : len = 0
  · subst hlen
    exact ⟨0, h, .refl _, rfl, rfl, rfl⟩
  · have hcache := invalidate_cache r start hlen
    have hturnover := Cache.turnover_eraseWhere h (·.overlaps start (saturatingAdd start len))
    have hstats := stats_invalidate r start hlen
    exact ⟨_, hvalid, hcache ▸ hturnover, by rw [hstats], by rw [hstats], by rw [hstats]; rfl⟩

lemma counts_publish (h : r.cache.Valid) (source : Source) (pc : UInt32) :
    ∃ added, Turn.Counts r (r.publish T source pc).2 added 0 0 := by
  obtain ⟨result, r', heq⟩ : ∃ result r', r.publish T source pc = (result, r') := ⟨_, _, rfl⟩
  rw [heq]
  cases result with
  | ok e =>
    obtain ⟨t, cache, -, rfl, hinsert, rfl⟩ := publish_eq_ok heq
    obtain ⟨added, hturnover⟩ := Cache.turnover_insert hinsert
    exact ⟨added, (h.insert hinsert).1, hturnover, rfl, rfl, rfl⟩
  | error err =>
    obtain rfl := publish_eq_error heq
    exact ⟨0, h, .refl _, rfl, rfl, rfl⟩

lemma Turn.counts (h : Turn T r r') (hr : r.cache.Valid) : ∃ added removed found, Counts r r' added removed found := by
  cases h with
  | lookup _ pc =>
    obtain ⟨stats, hstats⟩ := Cache.getCounted_snd r.cache pc
    have hturnover := Cache.turnover_getCounted r.cache pc
    exact ⟨0, 0, _, hstats ▸ hr.with_stats stats, hturnover, rfl, rfl, rfl⟩
  | publish source pc _ =>
    obtain ⟨added, hcounts⟩ := counts_publish hr source pc
    exact ⟨added, 0, 0, hcounts⟩
  | fail => exact ⟨0, 0, 0, hr, .refl _, rfl, rfl, rfl⟩
  | invalidate _ start len =>
    obtain ⟨removed, hcounts⟩ := counts_invalidate hr start len
    exact ⟨0, removed, 0, hcounts⟩
  | refineIdle _ pc idle =>
    exact ⟨0, 0, 0, hr.valid_setIdle pc idle, Cache.turnover_setIdle _ pc idle, rfl, rfl, rfl⟩

lemma Turn.reconciled (h : Turn T r r') (hr : r.Reconciled) : r'.Reconciled := by
  obtain ⟨added, removed, found, hcounts⟩ := h.counts hr.valid
  refine ⟨hcounts.valid, ?_, ?_, ?_⟩
  · rw [hcounts.invalidated, hcounts.cache.removals, hr.invalidated]
  · rw [hcounts.flushes, hcounts.cache.clears, hr.flushes]
  · rw [hcounts.cacheHits, hcounts.cache.hits, hr.hits]

/-- Where the blocks of a recompiler are counted from. -/
inductive Origin
  | began
  | flushed
  /-- The owner had the counts forgotten. -/
  | forgot
  deriving DecidableEq, Repr

/-- The changes that lead from one recompiler to another, with the last moment at which it was flushed or its counts
were forgotten; `began` stands for the first moment. -/
inductive Since (T : Translator τ β) (r₀ : Recompiler τ β) : Origin → Recompiler τ β → Recompiler τ β → Prop
  | start : Since T r₀ .began r₀ r₀
  | turn {o : Origin} {s r r' : Recompiler τ β} : Since T r₀ o s r → Turn T r r' → Since T r₀ o s r'
  | flush {o : Origin} {s r r' : Recompiler τ β} : Since T r₀ o s r → r.flush = .ok r' → Since T r₀ .flushed r' r'
  | resetStats {o : Origin} {s r : Recompiler τ β} :
    Since T r₀ o s r → Since T r₀ .forgot (r.resetStats T) (r.resetStats T)

namespace Since

lemma reconciled {o : Origin} (h : Since T r₀ o s r) (h₀ : r₀.Reconciled) : r.Reconciled := by
  induction h with
  | start => exact h₀
  | turn _ hturn ih => exact hturn.reconciled ih
  | @flush o s r r' _ hflush ih =>
    have hcache := (flush_eq_ok hflush).1
    have hstats := flush_stats hflush
    refine ⟨hcache ▸ (Cache.valid_clear _).1, ?_, ?_, ?_⟩ <;> rw [hcache, hstats]
    · exact ih.invalidated
    · exact congrArg (· + 1) ih.flushes
    · exact ih.hits
  | resetStats _ ih => exact ⟨ih.valid.with_stats {}, rfl, rfl, rfl⟩

/-- What the cache has counted since. -/
lemma turnover {o : Origin} (h : Since T r₀ o s r) (h₀ : r₀.cache.Valid) :
    r.cache.Valid ∧ ∃ added removed found, Cache.Turnover s.cache r.cache added removed found := by
  induction h with
  | start => exact ⟨h₀, 0, 0, 0, .refl _⟩
  | turn _ hturn ih =>
    obtain ⟨hvalid, a, m, f, hturnover⟩ := ih
    obtain ⟨a', m', f', hcounts⟩ := hturn.counts hvalid
    exact ⟨hcounts.valid, _, _, _, hturnover.trans hcounts.cache⟩
  | flush _ hflush => exact ⟨(flush_eq_ok hflush).1 ▸ (Cache.valid_clear _).1, 0, 0, 0, .refl _⟩
  | resetStats _ ih => exact ⟨ih.1.with_stats {}, 0, 0, 0, .refl _⟩

/-- Only a flush, of those three, leaves a clearing in the counts. -/
lemma clears_pos_iff {o : Origin} (h : Since T r₀ o s r) (h₀ : r₀.cache.stats.clears = 0) :
    0 < s.cache.stats.clears ↔ o = .flushed := by
  induction h with
  | start => simp [h₀]
  | turn _ _ ih => exact ih
  | flush _ hflush => simp [(flush_eq_ok hflush).1, Cache.clear]
  | resetStats => simp [Recompiler.resetStats, Cache.resetStats]

lemma size_eq_zero {o : Origin} (h : Since T r₀ o s r) (h₀ : r₀.cache.size = 0) (ho : o ≠ .forgot) :
    s.cache.size = 0 := by
  induction h with
  | start => exact h₀
  | turn _ _ ih => exact ih ho
  | flush _ hflush =>
    rw [(flush_eq_ok hflush).1]
    rfl
  | resetStats => exact absurd rfl ho

end Since

/-! ### Answers -/

/-- Whether an answer is a block of the cache, as a count. -/
def hits : Except RecompileError (Resolved β) → Nat
  | .ok (.hit _) => 1
  | _ => 0

/-- Whether an answer is a new block, as a count. -/
def made : Except RecompileError (Resolved β) → Nat
  | .ok (.compiled _) => 1
  | _ => 0

/-- Whether an answer is a fault of the program, as a count. -/
def faults : Except RecompileError (Resolved β) → Nat
  | .ok (.failed _) => 1
  | _ => 0

/-- The recompiler has counted its answer, and went through changes on the way. -/
structure Counted (T : Translator τ β) (r : Recompiler τ β)
    (x : Except RecompileError (Resolved β) × Recompiler τ β) : Prop where
  since : ∀ r₀ o s, Since T r₀ o s r → ∃ o' s', Since T r₀ o' s' x.2
  cacheHits : x.2.stats.cacheHits = r.stats.cacheHits + hits x.1
  blocksCompiled : x.2.stats.blocksCompiled = r.stats.blocksCompiled + made x.1
  compileFailures : x.2.stats.compileFailures = r.stats.compileFailures + faults x.1

namespace Counted

variable {x : Except RecompileError (Resolved β) × Recompiler τ β}

/-- A change that counts no answer may come first. -/
lemma turn (hturn : Turn T r r') (hhits : r'.stats.cacheHits = r.stats.cacheHits)
    (hmade : r'.stats.blocksCompiled = r.stats.blocksCompiled)
    (hfaults : r'.stats.compileFailures = r.stats.compileFailures) (h : Counted T r' x) : Counted T r x where
  since r₀ o s hr := h.since r₀ o s (hr.turn hturn)
  cacheHits := hhits ▸ h.cacheHits
  blocksCompiled := hmade ▸ h.blocksCompiled
  compileFailures := hfaults ▸ h.compileFailures

lemma error (r : Recompiler τ β) (err : RecompileError) : Counted T r (.error err, r) where
  since _ o s hr := ⟨o, s, hr⟩
  cacheHits := rfl
  blocksCompiled := rfl
  compileFailures := rfl

/-- So may a publication that came to nothing. -/
lemma of_publish_error {err : PublishError} (hpublish : r.publish T source pc = (.error err, r'))
    (h : Counted T r' x) : Counted T r x := by
  have hturn : Turn T r r' := by
    have hpublished := Turn.publish (T := T) source pc r
    rwa [hpublish] at hpublished
  obtain rfl := publish_eq_error hpublish
  exact turn hturn rfl rfl rfl h

lemma of_publish {e : Entry β} (hpublish : r.publish T source pc = (.ok e, r')) :
    Counted T r (.ok (.compiled e), r') where
  since r₀ o s hr := by
    have hpublished := Turn.publish (T := T) source pc r
    rw [hpublish] at hpublished
    exact ⟨o, s, hr.turn hpublished⟩
  cacheHits := by
    obtain ⟨t, cache, -, -, -, rfl⟩ := publish_eq_ok hpublish
    rfl
  blocksCompiled := by
    obtain ⟨t, cache, -, -, -, rfl⟩ := publish_eq_ok hpublish
    rfl
  compileFailures := by
    obtain ⟨t, cache, -, -, -, rfl⟩ := publish_eq_ok hpublish
    rfl

lemma failed (r : Recompiler τ β) (e : TranslateError) : Counted T r (.ok (.failed e), r.countFailure) where
  since _ o s hr := ⟨o, s, hr.turn (.fail r)⟩
  cacheHits := rfl
  blocksCompiled := rfl
  compileFailures := rfl

lemma flushThen {go : Recompiler τ β → Except RecompileError (Resolved β) × Recompiler τ β}
    (hgo : ∀ r, Counted T r (go r)) : Counted T r (r.flushThen go) := by
  rw [Recompiler.flushThen]
  split
  · exact error r _
  · rename_i r' hflush
    have hstats := flush_stats hflush
    have hcounted := hgo r'
    refine ⟨fun r₀ o s hr => hcounted.since r₀ _ _ (hr.flush hflush), ?_, ?_, ?_⟩
    · rw [hcounted.cacheHits, hstats]
    · rw [hcounted.blocksCompiled, hstats]
    · rw [hcounted.compileFailures, hstats]

lemma publishLast (r : Recompiler τ β) : Counted T r (r.publishLast T source pc) := by
  rw [Recompiler.publishLast]
  split
  · rename_i e r' hpublish
    exact of_publish hpublish
  · rename_i e r' hpublish
    exact of_publish_error hpublish (error r' _)
  · rename_i e r' hpublish
    split
    · exact of_publish_error hpublish (failed r' e)
    · exact of_publish_error hpublish (error r' _)

lemma publishOrFlush (r : Recompiler τ β) : Counted T r (r.publishOrFlush T source pc) := by
  rw [Recompiler.publishOrFlush]
  split
  · rename_i e r' hpublish
    exact of_publish hpublish
  · rename_i e r' hpublish
    exact of_publish_error hpublish (flushThen publishLast)
  · rename_i e r' hpublish
    split
    · exact of_publish_error hpublish (failed r' e)
    · exact of_publish_error hpublish (flushThen publishLast)

/-- Every answer is counted, a hit once as such and a block or a failure once even if a flush came before it. -/
theorem resolve (T : Translator τ β) (source : Source) (pc : UInt32) (r : Recompiler τ β) :
    Counted T r (r.resolve T source pc) := by
  have hlookup := Turn.lookup (T := T) r pc
  have hfst := Cache.getCounted_fst r.cache pc
  rw [Recompiler.resolve]
  split
  · rename_i e cache heq
    rw [heq] at hfst hlookup
    rw [← hfst, Option.isSome_some, if_pos rfl] at hlookup
    exact ⟨fun _ o s hr => ⟨o, s, hr.turn hlookup⟩, rfl, rfl, rfl⟩
  · rename_i cache heq
    rw [heq] at hfst hlookup
    rw [← hfst, Option.isSome_none, if_neg Bool.false_ne_true] at hlookup
    refine turn hlookup rfl rfl rfl ?_
    dsimp only
    split
    · exact flushThen publishOrFlush
    · exact publishOrFlush _

end Counted

end Recompiler

end R3000
