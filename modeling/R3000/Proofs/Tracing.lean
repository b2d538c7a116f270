import Mathlib
import R3000.Proofs.Recovery

/-!
# The calls of a translator

A translator that notes its calls shows when a recompiler asks for a translation at all: never for an address
that is cached, and always for one that is not.  So between two flushes no address is translated twice, unless
its block was removed.
-/

namespace R3000

variable {τ β : Type}

namespace Translator

/-- A call of a translator. -/
structure Call where
  /-- The generation of the code store, of which each flush begins another. -/
  generation : Nat
  pc : UInt32
  /-- Whether there was a translation. -/
  made : Bool
  deriving DecidableEq, Repr

/-- A translator that also notes its calls, the latest last. -/
def traced (T : Translator τ β) : Translator (τ × List Call) β where
  translate source pc cap s store :=
    let t := T.translate source pc cap s.1 store
    { result := t.result
      state := (t.state, s.2 ++ [⟨store.generation, pc, t.result.isOk⟩])
      store := t.store }
  stats s := T.stats s.1
  resetStats s := (T.resetStats s.1, s.2)

/-- Calls are notes. -/
lemma traced_notes (T : Translator τ β) : Notes Prod.fst T.traced T where
  translate _ _ _ _ _ := rfl
  resetStats _ := rfl

/-- The translations among some calls, each by its generation and address. -/
def made (calls : List Call) : List (Nat × UInt32) := (calls.filter (·.made)).map fun k => (k.generation, k.pc)

lemma made_append (calls : List Call) (k : Call) :
    made (calls ++ [k]) = made calls ++ if k.made then [(k.generation, k.pc)] else [] := by
  rw [made, List.filter_append, List.map_append]
  by_cases hk : k.made <;> simp [made, hk]

lemma mem_made_append {calls : List Call} {k : Call} {x : Nat × UInt32} (h : x ∈ made (calls ++ [k])) :
    x ∈ made calls ∨ x = (k.generation, k.pc) := by
  rw [made_append] at h
  refine (List.mem_append.mp h).imp_right fun hx => ?_
  split at hx
  · exact List.mem_singleton.mp hx
  · cases hx

lemma nodup_made_append {calls : List Call} {k : Call} (h : (made calls).Nodup)
    (hk : (k.generation, k.pc) ∉ made calls) : (made (calls ++ [k])).Nodup := by
  rw [made_append]
  split
  · refine List.nodup_append.mpr ⟨h, List.nodup_singleton _, ?_⟩
    rintro a ha b hb rfl
    exact hk (List.mem_singleton.mp hb ▸ ha)
  · rwa [List.append_nil]

/-- A translator that carves code and words out of the store, whose size and generation stay. -/
structure Carves (T : Translator τ β) : Prop where
  codeCapacity : ∀ source pc cap s store,
    (T.translate source pc cap s store).store.codeCapacity = store.codeCapacity
  native : ∀ source pc cap s store, (T.translate source pc cap s store).store.native = store.native
  generation : ∀ source pc cap s store, (T.translate source pc cap s store).store.generation = store.generation

lemma Carves.traced {T : Translator τ β} (h : T.Carves) : T.traced.Carves where
  codeCapacity source pc cap s store := h.codeCapacity source pc cap s.1 store
  native source pc cap s store := h.native source pc cap s.1 store
  generation source pc cap s store := h.generation source pc cap s.1 store

lemma standard_carves (fallback : Bool) (unlinked : List UInt32) : (standard fallback unlinked).Carves where
  codeCapacity source pc cap s store :=
    (Recompiler.sameFrame_translate fallback unlinked source pc cap s store).code
  native source pc cap s store := (Recompiler.sameFrame_translate fallback unlinked source pc cap s store).native
  generation source pc cap s store :=
    (Recompiler.sameFrame_translate fallback unlinked source pc cap s store).generation

end Translator

namespace Recompiler

variable {T : Translator τ β} {source : Source} {pc : UInt32} {r : Recompiler τ β}
  {s s' : Recompiler (τ × List Translator.Call) β}

/-- A publication changes neither the size nor the generation of the store. -/
lemma publish_carves {x : Except PublishError (Entry β)} {r' : Recompiler τ β} (hT : T.Carves)
    (h : r.publish T source pc = (x, r')) :
    (r.store.FitsStubs → r'.store.FitsStubs) ∧ r'.store.generation = r.store.generation := by
  obtain ⟨hroom, -, hgeneration⟩ := sameFrame_publish h
  refine ⟨fun hstubs => hroom.fitsStubs ?_, hgeneration.trans (hT.generation ..)⟩
  rwa [CodeStore.FitsStubs, hT.native, hT.codeCapacity]

/-- A command leaves space for the stubs. -/
lemma fitsStubs_perform (hT : T.Carves) (h : r.store.FitsStubs) (cmd : Command) :
    (perform T r cmd).store.FitsStubs := by
  cases cmd with
  | resolve source pc =>
    let P (r : Recompiler τ β) : Prop := r.store.FitsStubs
    have hkeeps : Keeps T source pc P fun _ => P := {
      count := fun _ _ _ _ h => h
      flush := fun _ _ h hflush => (flushed_of_flush hflush).2.1.fitsStubs h
      publish := fun _ _ _ h _ hpublish => (publish_carves hT hpublish).1 h
      fail := fun _ _ _ h _ hpublish => (publish_carves hT hpublish).1 h }
    exact hkeeps.resolve_snd h
  | invalidate start len => exact (sameFrame_invalidate r start len).fitsStubs h
  | refineIdle pc idle => exact h
  | flush =>
    rw [perform]
    split
    · rename_i r' hflush
      exact (flushed_of_flush hflush).2.1.fitsStubs h
    · exact h

lemma Becomes.fitsStubs (hT : T.Carves) {r₀ : Recompiler τ β} (h : Becomes T r₀ r) (h₀ : r₀.store.FitsStubs) :
    r.store.FitsStubs := by
  induction h with
  | start => exact h₀
  | perform cmd _ ih => exact fitsStubs_perform hT ih cmd
  | resetStats _ ih => exact ih

/-! ### Tracing a recompiler -/

/-- A recompiler of whose translator no call is noted yet. -/
def traced (r : Recompiler τ β) : Recompiler (τ × List Translator.Call) β := { r with translator := (r.translator, []) }

/-- A recompiler without what was noted. -/
def untraced (s : Recompiler (τ × List Translator.Call) β) : Recompiler τ β := s.mapState Prod.fst

/-- The calls that are made to resolve an address. -/
def calls (T : Translator τ β) (source : Source) (pc : UInt32) (r : Recompiler τ β) : List Translator.Call :=
  (r.traced.resolve T.traced source pc).2.translator.2

/-- Every publication is a call. -/
lemma publish_calls (T : Translator τ β) (source : Source) (pc : UInt32) (s : Recompiler (τ × List Translator.Call) β) :
    (s.publish T.traced source pc).2.translator.2 = s.translator.2 ++ [⟨s.store.generation, pc,
      (T.translate source pc (max s.maxBlock 1) s.translator.1 s.store).result.isOk⟩] := by
  rw [publish]
  dsimp only
  split
  · rfl
  · split <;> rfl

/-- The translator was called for an address. -/
def Called (pc : UInt32) (s : Recompiler (τ × List Translator.Call) β) : Prop := ∃ k ∈ s.translator.2, k.pc = pc

lemma called_publish (T : Translator τ β) (source : Source) (pc : UInt32)
    (s : Recompiler (τ × List Translator.Call) β) : (s.publish T.traced source pc).2.Called pc :=
  ⟨_, by rw [publish_calls]; exact List.mem_append_right _ List.mem_cons_self, rfl⟩

lemma called_publishLast (T : Translator τ β) (source : Source) (pc : UInt32)
    (s : Recompiler (τ × List Translator.Call) β) : (s.publishLast T.traced source pc).2.Called pc := by
  have hcalled := called_publish T source pc s
  rw [publishLast]
  split <;> rename_i heq <;> rw [heq] at hcalled
  · exact hcalled
  · exact hcalled
  · split <;> exact hcalled

lemma called_flushThen {α : Type}
    {go : Recompiler (τ × List Translator.Call) β → Except RecompileError α × Recompiler (τ × List Translator.Call) β}
    (hgo : ∀ s, (go s).2.Called pc) (hs : s.Called pc) : (s.flushThen go).2.Called pc := by
  rw [flushThen]
  split
  · exact hs
  · exact hgo _

lemma called_publishOrFlush (T : Translator τ β) (source : Source) (pc : UInt32)
    (s : Recompiler (τ × List Translator.Call) β) : (s.publishOrFlush T.traced source pc).2.Called pc := by
  have hcalled := called_publish T source pc s
  rw [publishOrFlush]
  split <;> rename_i heq <;> rw [heq] at hcalled
  · exact hcalled
  · exact called_flushThen (called_publishLast T source pc) hcalled
  · split
    · exact hcalled
    · exact called_flushThen (called_publishLast T source pc) hcalled

/-- The translator is called for an address that is not cached. -/
lemma calls_of_none (T : Translator τ β) (source : Source) (hstubs : r.store.FitsStubs)
    (hnone : r.cache.get? pc = none) : ∃ k ∈ r.calls T source pc, k.pc = pc := by
  have hfst := Cache.getCounted_fst r.cache pc
  obtain ⟨found, cache, hcounted⟩ : ∃ found cache, r.cache.getCounted pc = (found, cache) := ⟨_, _, rfl⟩
  rw [hcounted] at hfst
  obtain rfl : found = none := hfst.trans hnone
  change (r.traced.resolve T.traced source pc).2.Called pc
  rw [resolve, show r.traced.cache.getCounted pc = (none, cache) from hcounted]
  dsimp only
  split
  · obtain ⟨s, hflush⟩ := exists_flush (r := { r.traced with cache }) hstubs
    rw [flushThen, hflush]
    exact called_publishOrFlush T source pc s
  · exact called_publishOrFlush T source pc _

/-! ### Translations of one generation -/

/-- No address was translated twice in a generation. -/
structure Apart (s : Recompiler (τ × List Translator.Call) β) : Prop where
  valid : Cache.Valid s.cache
  stubs : s.store.FitsStubs
  nodup : (Translator.made s.translator.2).Nodup
  past : ∀ k ∈ Translator.made s.translator.2, k.1 ≤ s.store.generation

/-- No address was translated twice in a generation, and what was translated in this one is cached. -/
structure Once (s : Recompiler (τ × List Translator.Call) β) : Prop extends Apart s where
  cached : ∀ pc, (s.store.generation, pc) ∈ Translator.made s.translator.2 → (s.cache.get? pc).isSome

/-- A flush begins a generation. -/
lemma Apart.exists_flush (h : s.Apart) : ∃ s', s.flush = .ok s' ∧ s'.Once ∧ s'.Flushed := by
  obtain ⟨s', hflush⟩ := Recompiler.exists_flush h.stubs
  obtain ⟨hcache, -, htranslator, -⟩ := flush_eq_ok hflush
  obtain ⟨hflushed, hroom, -⟩ := flushed_of_flush hflush
  have hgeneration : s'.store.generation = s.store.generation + 1 := by
    obtain ⟨-, rfl⟩ := eq_of_flush hflush
    rfl
  refine ⟨s', hflush, ⟨⟨?_, ?_, ?_, ?_⟩, ?_⟩, hflushed⟩
  · rw [hcache]
    exact (Cache.valid_clear s.cache).1
  · exact hroom.fitsStubs h.stubs
  · rw [htranslator]
    exact h.nodup
  · intro k hk
    rw [htranslator] at hk
    exact (h.past k hk).trans (hgeneration ▸ Nat.le_succ _)
  · intro pc hpc
    rw [htranslator, hgeneration] at hpc
    exact absurd (h.past _ hpc) (by simp)

namespace Once

/-- Blocks may stay cached in another cache. -/
lemma congr (h : s.Once) (hvalid : Cache.Valid s'.cache) (hstore : s'.store = s.store)
    (htranslator : s'.translator.2 = s.translator.2)
    (hsome : ∀ pc, (s.cache.get? pc).isSome → (s'.cache.get? pc).isSome) : s'.Once where
  valid := hvalid
  stubs := hstore ▸ h.stubs
  nodup := htranslator ▸ h.nodup
  past := hstore ▸ htranslator ▸ h.past
  cached pc hpc := by
    rw [hstore, htranslator] at hpc
    exact hsome pc (h.cached pc hpc)

/-- A publication is a call for an address that was not translated in its generation. -/
lemma apart_publish (hT : T.Carves) (h : s.Once) (hnone : s.cache.get? pc = none)
    {x : Except PublishError (Entry β)} (hpublish : s.publish T.traced source pc = (x, s'))
    (hvalid : Cache.Valid s'.cache) : s'.Apart := by
  have hcalls := publish_calls T source pc s
  obtain ⟨hstubs, hgeneration⟩ := publish_carves hT.traced hpublish
  rw [hpublish] at hcalls
  have hnew : (s.store.generation, pc) ∉ Translator.made s.translator.2 := by
    intro hmem
    have hsome := h.cached pc hmem
    rw [hnone] at hsome
    cases hsome
  refine ⟨hvalid, hstubs h.stubs, ?_, fun k hk => ?_⟩
  · rw [hcalls]
    exact Translator.nodup_made_append h.nodup hnew
  · rw [hcalls] at hk
    rw [hgeneration]
    obtain hk | rfl := Translator.mem_made_append hk
    · exact h.past k hk
    · exact le_rfl

/-- A block that is published is cached. -/
lemma publish (hT : T.Carves) (h : s.Once) (hnone : s.cache.get? pc = none) {e : Entry β}
    (hpublish : s.publish T.traced source pc = (.ok e, s')) : s'.Once := by
  have hcalls := publish_calls T source pc s
  obtain ⟨-, hgeneration⟩ := publish_carves hT.traced hpublish
  rw [hpublish] at hcalls
  obtain ⟨t, cache, -, rfl, hinsert, hs'⟩ := publish_eq_ok hpublish
  have hcache : s'.cache = cache := by rw [hs']
  have hvalid : Cache.Valid s'.cache := hcache ▸ (h.valid.insert hinsert).1
  refine ⟨h.apart_publish hT hnone hpublish hvalid, fun a ha => ?_⟩
  rw [hcalls, hgeneration] at ha
  rw [hcache, h.valid.get?_insert hinsert, Function.update_apply]
  split
  · rfl
  · rename_i hne
    obtain ha | ha := Translator.mem_made_append ha
    · exact h.cached a ha
    · exact absurd (congrArg Prod.snd ha) hne

/-- A translation that fails is none of those made. -/
lemma publish_error (hT : T.Carves) (h : s.Once) (hnone : s.cache.get? pc = none) {err : TranslateError}
    (hpublish : s.publish T.traced source pc = (.error (.translate err), s')) : s'.Once := by
  have hcalls := publish_calls T source pc s
  obtain ⟨-, hgeneration⟩ := publish_carves hT.traced hpublish
  have hs' := publish_eq_error hpublish
  have hcache : s'.cache = s.cache := by rw [hs']
  refine ⟨h.apart_publish hT hnone hpublish (hcache ▸ h.valid), fun a ha => ?_⟩
  have hfailed : (T.translate source pc (max s.maxBlock 1) s.translator.1 s.store).result.isOk = false := by
    rw [Recompiler.publish] at hpublish
    dsimp only [Translator.traced] at hpublish
    split at hpublish
    · rename_i hresult
      rw [hresult]
      rfl
    · split at hpublish <;> cases hpublish
  rw [hpublish, hfailed] at hcalls
  rw [hcalls, hgeneration, Translator.made_append, if_neg Bool.false_ne_true, List.append_nil] at ha
  rw [hcache]
  exact h.cached a ha

/-- Publishing into stores just flushed: the cache takes every block. -/
lemma publishLast (hT : T.Carves) (h : s.Once) (hflushed : s.Flushed) (source : Source) (pc : UInt32) :
    (s.publishLast T.traced source pc).2.Once := by
  obtain ⟨c, hcache⟩ := hflushed.cache
  have hnone : s.cache.get? pc = none := by
    obtain ⟨hvalid, hnil⟩ := Cache.valid_clear c
    rw [hcache]
    exact hvalid.get?_of_toList_nil hnil pc
  rw [Recompiler.publishLast]
  split
  · rename_i e s' hpublish
    exact h.publish hT hnone hpublish
  · rename_i err s' hpublish
    rw [Recompiler.publish] at hpublish
    dsimp only at hpublish
    split at hpublish
    · cases hpublish
    · rename_i t _
      obtain ⟨c', hinsert⟩ := exists_insert_clear c (t.entry pc)
      rw [hcache, hinsert] at hpublish
      cases hpublish
  · rename_i err s' hpublish
    have honce := h.publish_error hT hnone hpublish
    split
    · exact honce.congr honce.valid rfl rfl fun _ h => h
    · exact honce

lemma flushThen (hT : T.Carves) (h : s.Apart) (source : Source) (pc : UInt32) :
    (s.flushThen (Recompiler.publishLast T.traced source pc)).2.Once := by
  obtain ⟨s', hflush, honce, hflushed⟩ := h.exists_flush
  rw [Recompiler.flushThen, hflush]
  exact honce.publishLast hT hflushed source pc

lemma publishOrFlush (hT : T.Carves) (h : s.Once) (hnone : s.cache.get? pc = none) (source : Source) :
    (s.publishOrFlush T.traced source pc).2.Once := by
  rw [Recompiler.publishOrFlush]
  split
  · rename_i e s' hpublish
    exact h.publish hT hnone hpublish
  · rename_i err s' hpublish
    have hcache : s'.cache = s.cache := by rw [publish_eq_error hpublish]
    exact flushThen hT (h.apart_publish hT hnone hpublish (hcache ▸ h.valid)) source pc
  · rename_i err s' hpublish
    have honce := h.publish_error hT hnone hpublish
    split
    · exact honce.congr honce.valid rfl rfl fun _ h => h
    · exact flushThen hT honce.toApart source pc

/-- Resolving an address translates none twice in a generation. -/
lemma resolve (hT : T.Carves) (h : s.Once) (source : Source) (pc : UInt32) :
    (s.resolve T.traced source pc).2.Once := by
  obtain ⟨stats, hcounted⟩ := Cache.getCounted_snd s.cache pc
  have hfst := Cache.getCounted_fst s.cache pc
  have hcount : { s with cache.stats := stats }.Once := h.congr (h.valid.with_stats stats) rfl rfl fun _ h => h
  rw [Recompiler.resolve]
  split
  · rename_i e cache heq
    obtain rfl : { s.cache with stats } = cache := by rw [← hcounted, heq]
    exact hcount.congr hcount.valid rfl rfl fun _ h => h
  · rename_i cache heq
    obtain rfl : { s.cache with stats } = cache := by rw [← hcounted, heq]
    have hnone : s.cache.get? pc = none := by rw [← hfst, heq]
    dsimp only
    split
    · obtain ⟨s', hflush, honce, -⟩ := hcount.toApart.exists_flush
      rw [Recompiler.flushThen, hflush]
      exact honce.publishOrFlush hT (get?_of_flush hflush pc) source
    · exact hcount.publishOrFlush hT hnone source

end Once

/-! ### Runs without removals -/

/-- A recompiler that comes from another without a range being invalidated. -/
inductive Continues (T : Translator τ β) (r₀ : Recompiler τ β) : Recompiler τ β → Prop
  | start : Continues T r₀ r₀
  | resolve {r : Recompiler τ β} (source : Source) (pc : UInt32) :
    Continues T r₀ r → Continues T r₀ (r.resolve T source pc).2
  | refineIdle {r : Recompiler τ β} (pc : UInt32) (idle : Idle) :
    Continues T r₀ r → Continues T r₀ (r.refineIdle pc idle).2
  | flush {r r' : Recompiler τ β} : Continues T r₀ r → r.flush = .ok r' → Continues T r₀ r'
  | resetStats {r : Recompiler τ β} : Continues T r₀ r → Continues T r₀ (r.resetStats T)

/-- A run with notes is a run without them. -/
lemma Continues.mapState {σ : Type} {f : σ → τ} {T' : Translator σ β} (hT : Translator.Notes f T' T)
    {r₀ r : Recompiler σ β} (h : Continues T' r₀ r) : Continues T (r₀.mapState f) (r.mapState f) := by
  induction h with
  | start => exact .start
  | @resolve r source pc _ ih =>
    have hresolve : ((r.mapState f).resolve T source pc).2 = (r.resolve T' source pc).2.mapState f :=
      congrArg Prod.snd (resolve_mapState source pc r hT)
    exact hresolve ▸ ih.resolve source pc
  | refineIdle pc idle _ ih => exact ih.refineIdle pc idle
  | @flush r r' _ hflush ih => exact ih.flush (by rw [flush_mapState, hflush]; rfl)
  | resetStats _ ih => exact resetStats_mapState _ hT ▸ ih.resetStats

/-- No address is translated twice in a generation as long as no block is removed. -/
lemma Continues.once (hT : T.Carves) {s₀ : Recompiler (τ × List Translator.Call) β} (hs₀ : s₀.Once)
    (h : Continues T.traced s₀ s) : s.Once := by
  induction h with
  | start => exact hs₀
  | resolve source pc _ ih => exact ih.resolve hT source pc
  | @refineIdle s pc idle _ ih =>
    refine ih.congr (ih.valid.valid_setIdle pc idle) rfl rfl fun a hsome => ?_
    change ((s.cache.setIdle pc idle).2.get? a).isSome
    rw [ih.valid.get?_setIdle, Function.update_apply]
    split
    · rename_i hpc
      rwa [Option.isSome_map, ← hpc]
    · exact hsome
  | flush _ hflush ih =>
    obtain ⟨s', hflush', honce, -⟩ := ih.toApart.exists_flush
    cases hflush.symm.trans hflush'
    exact honce
  | resetStats _ ih => exact ih.congr (ih.valid.with_stats {}) rfl rfl fun _ h => h

end Recompiler

end R3000
