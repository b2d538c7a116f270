import Mathlib
import R3000.Recompiler

/-!
# Counts do not matter

Statistics and the generation of the code store are written and never read: with other counts the recompiler finds,
makes and drops the same blocks, fails in the same way, and differs afterwards in nothing but its counts.
-/

namespace R3000

variable {β : Type}

/-! ### The code store -/

namespace CodeStore

/-- The store with another generation and other counts. -/
def counted (generation : Nat) (stats : StoreStats) (s : CodeStore β) : CodeStore β := { s with generation, stats }

variable (g : Nat) (k : StoreStats)

lemma patchAll_counted (s : CodeStore β) (links : List Link) (w : LinkWord β) :
    ∃ k', Linker.patchAll (s.counted g k) links w = (Linker.patchAll s links w).counted g k' := by
  induction links generalizing s k with
  | nil => exact ⟨k, rfl⟩
  | cons link links ih => exact ih { k with refreshes := k.refreshes + 1 } (s.patch link.site w)

lemma allocLink_counted (s : CodeStore β) :
    ∃ k', (s.counted g k).allocLink = s.allocLink.map fun x => (x.1, x.2.counted g k') := by
  refine ⟨{ k with linksAllocated := k.linksAllocated + 1 }, ?_⟩
  dsimp only [allocLink, counted]
  split <;> rfl

lemma allocExits_counted (targets : List UInt32) (s : CodeStore β) :
    ∃ k', Translator.allocExits targets (s.counted g k) =
      ((Translator.allocExits targets s).1, (Translator.allocExits targets s).2.counted g k') := by
  induction targets generalizing s k with
  | nil => exact ⟨k, rfl⟩
  | cons target targets ih =>
    obtain ⟨k₁, halloc⟩ := allocLink_counted g k s
    rw [Translator.allocExits, Translator.allocExits, halloc]
    cases s.allocLink with
    | error err => exact ⟨k, rfl⟩
    | ok x =>
      obtain ⟨site, s₁⟩ := x
      obtain ⟨k₂, hrest⟩ := ih k₁ s₁
      dsimp only [Except.map]
      rw [hrest]
      refine ⟨k₂, ?_⟩
      cases Translator.allocExits targets s₁ with
      | mk result s₂ => cases result <;> rfl

lemma define_counted (s : CodeStore β) (bytes : Nat) :
    ∃ k', (s.counted g k).define bytes = (s.define bytes).map (counted g k') := by
  refine ⟨{ k with functionsDefined := k.functionsDefined + 1, bytesEmitted := k.bytesEmitted + bytes }, ?_⟩
  dsimp only [define, counted]
  split <;> rfl

lemma emitStubs_counted (s : CodeStore β) : ∃ k', (s.counted g k).emitStubs = s.emitStubs.map (counted g k') := by
  obtain ⟨k₁, hslow⟩ := define_counted g k s s.native.slowPath
  rw [emitStubs, emitStubs, show (s.counted g k).native = s.native from rfl, hslow]
  cases s.define s.native.slowPath with
  | error err => exact ⟨k₁, rfl⟩
  | ok s₁ =>
    obtain ⟨k₂, hexit⟩ := define_counted g k₁ s₁ s₁.native.exit
    change ∃ k', (s₁.counted g k₁).define s₁.native.exit >>= _ = (s₁.define s₁.native.exit >>= _).map _
    rw [hexit]
    cases s₁.define s₁.native.exit with
    | error err => exact ⟨k₂, rfl⟩
    | ok s₂ => exact define_counted g k₂ s₂ s₂.native.bridge

end CodeStore

/-! ### The cache -/

namespace Cache

/-- The cache with other counts. -/
def counted (stats : CacheStats) (c : Cache β) : Cache β := { c with stats }

variable (k : CacheStats)

@[simp] lemma resident_counted (c : Cache β) : (c.counted k).resident = c.resident := rfl

@[simp] lemma resident?_counted (c : Cache β) : (c.counted k).resident? = c.resident? := rfl

@[simp] lemma node?_counted (c : Cache β) : (c.counted k).node? = c.node? := rfl

@[simp] lemma entryAt_counted (c : Cache β) : (c.counted k).entryAt = c.entryAt := rfl

@[simp] lemma head_counted (c : Cache β) : (c.counted k).head = c.head := rfl

@[simp] lemma chain_counted (c : Cache β) : (c.counted k).chain = c.chain := rfl

@[simp] lemma slot_counted (c : Cache β) : (c.counted k).slot = c.slot := rfl

lemma getCounted_counted (c : Cache β) (pc : UInt32) :
    ∃ k', (c.counted k).getCounted pc = ((c.getCounted pc).1, (c.getCounted pc).2.counted k') := by
  simp only [getCounted, resident?_counted, node?_counted, entryAt_counted]
  cases c.resident? pc with
  | some e => exact ⟨_, rfl⟩
  | none => cases (c.node? pc).bind c.entryAt <;> exact ⟨_, rfl⟩

lemma takeNode_counted (c : Cache β) (n : Node β) :
    (c.counted k).takeNode n = (c.takeNode n).map fun x => (x.1, x.2.counted k) := by
  obtain ⟨bits, residents, heads, nodes, free, capacity, size, stats⟩ := c
  cases free with
  | cons i free => rfl
  | nil =>
    dsimp only [takeNode, counted]
    split <;> rfl

lemma pushFront_counted (c : Cache β) (e : Entry β) :
    ∃ k', (c.counted k).pushFront e = (c.pushFront e).map (counted k') := by
  refine ⟨{ k with inserts := k.inserts + 1, collisions := k.collisions + 1 }, ?_⟩
  rw [pushFront, pushFront]
  dsimp only
  rw [takeNode_counted, slot_counted, head_counted]
  cases htake : c.takeNode ⟨e, c.head (c.slot e.pc)⟩ with
  | none => rfl
  | some x => rfl

lemma insert_counted (c : Cache β) (e : Entry β) :
    ∃ k', (c.counted k).insert e = (c.insert e).map (counted k') := by
  rw [insert, insert]
  dsimp only
  rw [slot_counted, resident_counted, node?_counted]
  cases c.resident (c.slot e.pc) with
  | none => exact ⟨_, rfl⟩
  | some resident =>
    dsimp only
    by_cases hsame : resident.pc = e.pc
    · rw [if_pos hsame, if_pos hsame]
      exact ⟨_, rfl⟩
    · rw [if_neg hsame, if_neg hsame]
      cases c.node? e.pc with
      | some i => exact ⟨_, rfl⟩
      | none => exact pushFront_counted k c e

lemma setIdle_counted (c : Cache β) (pc : UInt32) (idle : Idle) :
    (c.counted k).setIdle pc idle = ((c.setIdle pc idle).1, (c.setIdle pc idle).2.counted k) := by
  simp only [setIdle, resident?_counted, node?_counted]
  cases c.resident? pc with
  | some e => rfl
  | none => cases c.node? pc <;> rfl

lemma unlink_counted (c : Cache β) (s i : Nat) : (c.counted k).unlink s i = (c.unlink s i).counted k := by
  rw [unlink, unlink, bypass, bypass, chain_counted]
  cases before i (c.chain s) <;> rfl

lemma erase_counted (c : Cache β) (pc : UInt32) :
    ∃ k', (c.counted k).erase pc = ((c.erase pc).1, (c.erase pc).2.counted k') := by
  simp only [erase, resident?_counted, node?_counted, slot_counted, head_counted, entryAt_counted]
  cases c.resident? pc with
  | some e =>
    cases c.head (c.slot pc) with
    | none => exact ⟨_, rfl⟩
    | some i =>
      refine ⟨{ k with removals := k.removals + 1 }, ?_⟩
      have hmoved := unlink_counted k (c.setResident (c.slot pc) (c.entryAt i)) (c.slot pc) i
      dsimp only
      rw [show (c.counted k).setResident (c.slot pc) (c.entryAt i) =
        (c.setResident (c.slot pc) (c.entryAt i)).counted k from rfl, hmoved]
      rfl
  | none =>
    cases c.node? pc with
    | none => exact ⟨k, rfl⟩
    | some i =>
      refine ⟨{ k with removals := k.removals + 1 }, ?_⟩
      dsimp only
      rw [unlink_counted]
      rfl

lemma eraseAll_counted (c : Cache β) (pcs : List UInt32) :
    ∃ k', (c.counted k).eraseAll pcs = ((c.eraseAll pcs).1, (c.eraseAll pcs).2.counted k') := by
  induction pcs generalizing c k with
  | nil => exact ⟨k, rfl⟩
  | cons pc pcs ih =>
    obtain ⟨k₁, herase⟩ := erase_counted k c pc
    obtain ⟨k₂, hrest⟩ := ih k₁ (c.erase pc).2
    refine ⟨k₂, ?_⟩
    rw [eraseAll, eraseAll, herase]
    dsimp only
    rw [hrest]

lemma eraseWhere_counted (c : Cache β) (p : Entry β → Bool) :
    ∃ k', (c.counted k).eraseWhere p = ((c.eraseWhere p).1, (c.eraseWhere p).2.counted k') :=
  eraseAll_counted k c _

end Cache

/-! ### The linker -/

namespace Linker

/-- The linker with other counts. -/
def counted (stats : LinkerStats) (l : Linker) : Linker := { l with stats }

variable (k : LinkerStats) (g : Nat) (ks : StoreStats)

lemma defer_counted (l : Linker) (link : Link) :
    ∃ k', (l.counted k).defer link = ((l.defer link).1, (l.defer link).2.counted k') := by
  by_cases hroom : l.pending.length < l.capacity
  · have hroom' : (l.counted k).pending.length < (l.counted k).capacity := hroom
    rw [defer, defer, if_pos hroom, if_pos hroom']
    exact ⟨_, rfl⟩
  · have hroom' : ¬ (l.counted k).pending.length < (l.counted k).capacity := hroom
    rw [defer, defer, if_neg hroom, if_neg hroom']
    exact ⟨_, rfl⟩

lemma deferAll_counted (links : List Link) (l : Linker) :
    ∃ k', links.foldl (fun l link => (l.defer link).2) (l.counted k) =
      (links.foldl (fun l link => (l.defer link).2) l).counted k' := by
  induction links generalizing l k with
  | nil => exact ⟨k, rfl⟩
  | cons link links ih =>
    obtain ⟨k₁, hdefer⟩ := defer_counted k l link
    rw [List.foldl_cons, List.foldl_cons, hdefer]
    exact ih k₁ (l.defer link).2

lemma linkExit_counted (l : Linker) (s : CodeStore β) (kc : CacheStats) (c : Cache β) (owner : UInt32) (x : Exit) :
    ∃ k' ks', (l.counted k).linkExit (s.counted g ks) (c.counted kc) owner x =
      ((l.linkExit s c owner x).1, (l.linkExit s c owner x).2.1.counted k',
        (l.linkExit s c owner x).2.2.counted g ks') := by
  rw [linkExit, linkExit]
  dsimp only
  rw [show (c.counted kc).get? x.target = c.get? x.target from rfl]
  cases c.get? x.target with
  | some e => exact ⟨_, _, rfl⟩
  | none =>
    obtain ⟨k', hdefer⟩ := defer_counted k l ⟨x.site, x.target, owner⟩
    dsimp only
    rw [hdefer]
    exact ⟨k', ks, rfl⟩

lemma linkExits_counted (kc : CacheStats) (c : Cache β) (owner : UInt32) (exits : List Exit) (l : Linker)
    (s : CodeStore β) :
    ∃ k' ks', Recompiler.linkExits (c.counted kc) owner exits (l.counted k, s.counted g ks) =
      ((Recompiler.linkExits c owner exits (l, s)).1.counted k',
        (Recompiler.linkExits c owner exits (l, s)).2.counted g ks') := by
  induction exits generalizing l s k ks with
  | nil => exact ⟨k, ks, rfl⟩
  | cons x exits ih =>
    obtain ⟨k₁, ks₁, hlink⟩ := linkExit_counted k g ks l s kc c owner x
    rw [Recompiler.linkExits, Recompiler.linkExits, hlink]
    exact ih k₁ ks₁ _ _

lemma apply_counted (l : Linker) (s : CodeStore β) (target : UInt32) (code : β) :
    ∃ k' ks', (l.counted k).apply (s.counted g ks) target code =
      ((l.apply s target code).1, (l.apply s target code).2.1.counted k',
        (l.apply s target code).2.2.counted g ks') := by
  obtain ⟨ks', hpatch⟩ := CodeStore.patchAll_counted g ks s (l.pending.filter (·.target == target)) (.block code)
  refine ⟨{ k with applied := k.applied + (l.pending.filter (·.target == target)).length }, ks', ?_⟩
  rw [apply, apply]
  dsimp only
  rw [show (l.counted k).pending = l.pending from rfl, hpatch]
  rfl

lemma unlinkWhere_counted (l : Linker) (s : CodeStore β) (p : UInt32 → Bool) :
    ∃ k' ks', (l.counted k).unlinkWhere (s.counted g ks) p =
      ((l.unlinkWhere s p).1, (l.unlinkWhere s p).2.1.counted k', (l.unlinkWhere s p).2.2.counted g ks') := by
  let broken := (l.linked.filter fun link => p link.target).reverse
  obtain ⟨ks', hpatch⟩ := CodeStore.patchAll_counted g ks s broken .slowPath
  obtain ⟨k', hdefer⟩ := deferAll_counted { k with unlinked := k.unlinked + broken.length } broken
    { l with
      linked := l.linked.filter fun link => !p link.target
      stats.unlinked := l.stats.unlinked + broken.length }
  refine ⟨k', ks', ?_⟩
  rw [unlinkWhere, unlinkWhere]
  exact congrArg₂ (fun x y => (broken.length, x, y)) hdefer hpatch

end Linker

/-! ### The recompiler -/

namespace Recompiler

/-- What a recompiler counts. -/
structure Counts where
  translator : TranslatorStats
  generation : Nat
  store : StoreStats
  cache : CacheStats
  linker : LinkerStats
  recompiler : RecompilerStats

/-- The recompiler with other counts. -/
def counted (k : Counts) (r : Recompiler TranslatorStats Block) : Recompiler TranslatorStats Block :=
  { r with
    translator := k.translator
    store := r.store.counted k.generation k.store
    cache := r.cache.counted k.cache
    linker := r.linker.counted k.linker
    stats := k.recompiler }

variable (k : Counts) {fallback : Bool} {unlinked : List UInt32} {source : Source} {pc : UInt32}

lemma translate_counted (fallback : Bool) (unlinked : List UInt32) (source : Source) (pc cap : UInt32)
    (t : TranslatorStats) (s : CodeStore Block) (kt : TranslatorStats) (g : Nat) (ks : StoreStats) :
    let T := Translator.standard fallback unlinked
    ∃ kt' ks', T.translate source pc cap kt (s.counted g ks) =
      ⟨(T.translate source pc cap t s).result, kt', (T.translate source pc cap t s).store.counted g ks'⟩ := by
  intro T
  dsimp only [T, Translator.standard]
  cases Plan.ofSource source fallback pc cap with
  | error err => exact ⟨kt, ks, rfl⟩
  | ok plan =>
    obtain ⟨ks', halloc⟩ := CodeStore.allocExits_counted g ks (plan.directTargets unlinked) s
    dsimp only
    rw [halloc]
    cases Translator.allocExits (plan.directTargets unlinked) s with
    | mk result s' =>
      cases result with
      | error err => exact ⟨_, _, rfl⟩
      | ok exits =>
        obtain ⟨ks'', hdefine⟩ := CodeStore.define_counted g ks' s' (s'.native.block ⟨plan, exits⟩)
        dsimp only
        rw [show (s'.counted g ks').native = s'.native from rfl, hdefine]
        cases s'.define (s'.native.block ⟨plan, exits⟩) <;> exact ⟨_, _, rfl⟩

lemma publish_counted (fallback : Bool) (unlinked : List UInt32) (source : Source) (pc : UInt32)
    (r : Recompiler TranslatorStats Block) :
    ∃ k', (r.counted k).publish (.standard fallback unlinked) source pc =
      ((r.publish (.standard fallback unlinked) source pc).1,
        (r.publish (.standard fallback unlinked) source pc).2.counted k') := by
  obtain ⟨kt, ks, htranslate⟩ := translate_counted fallback unlinked source pc (max r.maxBlock 1) r.translator r.store
    k.translator k.generation k.store
  rw [publish, publish]
  dsimp only [counted]
  rw [htranslate]
  dsimp only
  generalize (Translator.standard fallback unlinked).translate source pc (max r.maxBlock 1) r.translator r.store = t
  cases t.result with
  | error err => exact ⟨⟨kt, k.generation, ks, k.cache, k.linker, k.recompiler⟩, rfl⟩
  | ok translation =>
    obtain ⟨kc, hinsert⟩ := Cache.insert_counted k.cache r.cache (translation.entry pc)
    dsimp only
    rw [hinsert]
    cases r.cache.insert (translation.entry pc) with
    | error err => exact ⟨⟨kt, k.generation, ks, k.cache, k.linker, k.recompiler⟩, rfl⟩
    | ok cache =>
      obtain ⟨kl, ks₁, hlink⟩ :=
        Linker.linkExits_counted k.linker k.generation ks kc cache pc translation.exits r.linker t.store
      dsimp only [Except.map]
      rw [hlink]
      generalize linkExits cache pc translation.exits (r.linker, t.store) = linked
      obtain ⟨kl', ks₂, happly⟩ :=
        Linker.apply_counted kl k.generation ks₁ linked.1 linked.2 pc (translation.entry pc).code
      dsimp only
      rw [happly]
      exact ⟨⟨kt, k.generation, _, kc, kl', _⟩, rfl⟩

lemma flush_counted (r : Recompiler TranslatorStats Block) :
    ∃ k', (r.counted k).flush = r.flush.map (counted k') := by
  obtain ⟨ks, hstubs⟩ := CodeStore.emitStubs_counted (k.generation + 1) { k.store with resets := k.store.resets + 1 }
    r.store.reset
  have hreset : (r.counted k).store.reset = r.store.reset.counted (k.generation + 1)
    { k.store with resets := k.store.resets + 1 } := rfl
  rw [flush, flush, hreset, hstubs]
  cases r.store.reset.emitStubs with
  | error err => exact ⟨k, rfl⟩
  | ok s => exact ⟨⟨k.translator, k.generation + 1, ks, _, k.linker, _⟩, rfl⟩

/-- What goes on after a flush is blind to the counts if what goes on is. -/
lemma flushThen_counted {α : Type}
    {go : Recompiler TranslatorStats Block → Except RecompileError α × Recompiler TranslatorStats Block}
    (hgo : ∀ k r, ∃ k', go (r.counted k) = ((go r).1, (go r).2.counted k')) (r : Recompiler TranslatorStats Block) :
    ∃ k', (r.counted k).flushThen go = ((r.flushThen go).1, (r.flushThen go).2.counted k') := by
  obtain ⟨k₁, hflush⟩ := flush_counted k r
  rw [flushThen, flushThen, hflush]
  cases r.flush with
  | error err => exact ⟨k, rfl⟩
  | ok r₁ => exact hgo k₁ r₁

lemma publishLast_counted (fallback : Bool) (unlinked : List UInt32) (source : Source) (pc : UInt32)
    (r : Recompiler TranslatorStats Block) :
    ∃ k', (r.counted k).publishLast (.standard fallback unlinked) source pc =
      ((r.publishLast (.standard fallback unlinked) source pc).1,
        (r.publishLast (.standard fallback unlinked) source pc).2.counted k') := by
  obtain ⟨k₁, hpublish⟩ := publish_counted k fallback unlinked source pc r
  rw [publishLast, publishLast, hpublish]
  rcases r.publish (.standard fallback unlinked) source pc with ⟨(err | err) | e, r₁⟩
  · dsimp only
    split
    · exact ⟨{ k₁ with recompiler.compileFailures := k₁.recompiler.compileFailures + 1 }, rfl⟩
    · exact ⟨k₁, rfl⟩
  · exact ⟨k₁, rfl⟩
  · exact ⟨k₁, rfl⟩

lemma publishOrFlush_counted (fallback : Bool) (unlinked : List UInt32) (source : Source) (pc : UInt32)
    (r : Recompiler TranslatorStats Block) :
    ∃ k', (r.counted k).publishOrFlush (.standard fallback unlinked) source pc =
      ((r.publishOrFlush (.standard fallback unlinked) source pc).1,
        (r.publishOrFlush (.standard fallback unlinked) source pc).2.counted k') := by
  have hlast := fun k r => publishLast_counted k fallback unlinked source pc r
  obtain ⟨k₁, hpublish⟩ := publish_counted k fallback unlinked source pc r
  rw [publishOrFlush, publishOrFlush, hpublish]
  rcases r.publish (.standard fallback unlinked) source pc with ⟨(err | err) | e, r₁⟩
  · dsimp only
    by_cases hfault : err.isGuestFault = true
    · rw [if_pos hfault, if_pos hfault]
      exact ⟨{ k₁ with recompiler.compileFailures := k₁.recompiler.compileFailures + 1 }, rfl⟩
    · rw [if_neg hfault, if_neg hfault]
      exact flushThen_counted k₁ hlast r₁
  · exact flushThen_counted k₁ hlast r₁
  · exact ⟨k₁, rfl⟩

/-- With other counts an address is resolved in the same way. -/
theorem resolve_counted (fallback : Bool) (unlinked : List UInt32) (source : Source) (pc : UInt32)
    (r : Recompiler TranslatorStats Block) :
    ∃ k', (r.counted k).resolve (.standard fallback unlinked) source pc =
      ((r.resolve (.standard fallback unlinked) source pc).1,
        (r.resolve (.standard fallback unlinked) source pc).2.counted k') := by
  have hpublish := fun k r => publishOrFlush_counted k fallback unlinked source pc r
  obtain ⟨kc, hget⟩ := Cache.getCounted_counted k.cache r.cache pc
  rw [resolve, resolve, show (r.counted k).cache = r.cache.counted k.cache from rfl, hget]
  rcases r.cache.getCounted pc with ⟨_ | e, cache⟩
  · dsimp only
    by_cases hneeds : r.store.needsFlush = true
    · have hneeds' : (r.counted k).store.needsFlush = true := hneeds
      rw [if_pos hneeds, if_pos hneeds']
      exact flushThen_counted { k with cache := kc } hpublish { r with cache }
    · have hneeds' : ¬ (r.counted k).store.needsFlush = true := hneeds
      rw [if_neg hneeds, if_neg hneeds']
      exact hpublish { k with cache := kc } { r with cache }
  · exact ⟨{ k with cache := kc, recompiler.cacheHits := k.recompiler.cacheHits + 1 }, rfl⟩

/-- With other counts the same blocks are removed. -/
theorem invalidate_counted (r : Recompiler TranslatorStats Block) (start len : UInt32) :
    ∃ k', (r.counted k).invalidate start len = ((r.invalidate start len).1, (r.invalidate start len).2.counted k') := by
  rw [invalidate, invalidate]
  by_cases hlen : len = 0
  · rw [if_pos hlen, if_pos hlen]
    exact ⟨k, rfl⟩
  · obtain ⟨kc, herase⟩ :=
      Cache.eraseWhere_counted k.cache r.cache (·.overlaps start (saturatingAdd start len))
    rw [if_neg hlen, if_neg hlen]
    dsimp only
    rw [show (r.counted k).cache = r.cache.counted k.cache from rfl, herase]
    rcases r.cache.eraseWhere (·.overlaps start (saturatingAdd start len)) with ⟨_ | ⟨e, removed⟩, cache⟩
    · exact ⟨{ k with cache := kc }, rfl⟩
    · let gone := ((e :: removed).map (·.pc)).contains
      let forgotten := (r.linker.forgetOwnedBy gone).2
      obtain ⟨kl, ks, hunlink⟩ := Linker.unlinkWhere_counted
        ((r.linker.counted k.linker).forgetOwnedBy gone).2.stats k.generation k.store forgotten r.store gone
      let invalidated := k.recompiler.invalidatedBlocks + (e :: removed).length
      let k' : Counts :=
        { k with store := ks, cache := kc, linker := kl, recompiler.invalidatedBlocks := invalidated }
      exact ⟨k', congrArg (fun x : Nat × Linker × CodeStore Block => ((e :: removed).length,
        { r.counted k with
          cache := cache.counted kc
          linker := x.2.1
          store := x.2.2
          stats.invalidatedBlocks := invalidated })) hunlink⟩

lemma refineIdle_counted (r : Recompiler TranslatorStats Block) (pc : UInt32) (idle : Idle) :
    (r.counted k).refineIdle pc idle = ((r.refineIdle pc idle).1, (r.refineIdle pc idle).2.counted k) := by
  have hidle := Cache.setIdle_counted k.cache r.cache pc idle
  rw [refineIdle, refineIdle, show (r.counted k).cache = r.cache.counted k.cache from rfl, hidle]
  rfl

/-- The recompilers differ at most in what they counted and in the generation of the store. -/
def SameCode (r r' : Recompiler TranslatorStats Block) : Prop := ∃ k, r' = r.counted k

end Recompiler

end R3000
