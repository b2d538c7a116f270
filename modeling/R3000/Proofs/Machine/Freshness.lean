import Mathlib
import R3000.Proofs.Memory.Backing
import R3000.Proofs.Resolving
import R3000.Proofs.Running
import R3000.Proofs.Links.Graph
import R3000.Proofs.Machine.Reached

/-!
# Freshness of the code that runs

Memory backs every block in the cache whenever the dispatcher looks for one: a store to a covered page puts
it in the queue, and the blocks of every page in the queue are dropped before the next look.  So the block
that is found is a translation of memory as it is, unless it runs from one image of main memory into the
next: of such a block only the words in its first image are watched.
-/

namespace R3000

/-! ### The recompiler -/

namespace Recompiler

variable {memory memory' : Memory} {r r' : Recompiler TranslatorStats Block} {pc : UInt32}

/-- Memory backs every block in the cache. -/
structure Backed (memory : Memory) (r : Recompiler TranslatorStats Block) : Prop where
  valid : Cache.Valid r.cache
  backs : ∀ pc e, r.cache.get? pc = some e → memory.Backs (max r.maxBlock 1) e

namespace Backed

lemma of_empty (hvalid : Cache.Valid r.cache) (hnil : r.cache.toList = []) : Backed memory r where
  valid := hvalid
  backs pc e he := by simp [hvalid.get?_of_toList_nil hnil] at he

lemma flush (hflush : r.flush = .ok r') : Backed memory r' := by
  obtain ⟨hvalid, hnil⟩ := Cache.valid_clear r.cache
  obtain ⟨hcache, -⟩ := flush_eq_ok hflush
  exact of_empty (hcache ▸ hvalid) (hcache ▸ hnil)

end Backed

/-- Every block in the cache is a translation of some memory, and memory backs those that cover no page that
waits. -/
structure BackedBut (waiting : Page → Prop) (memory : Memory) (r : Recompiler TranslatorStats Block) : Prop where
  valid : Cache.Valid r.cache
  made : ∀ pc e, r.cache.get? pc = some e → ∃ old : Memory, e.Translates old.source (max r.maxBlock 1)
  backs : ∀ pc e, r.cache.get? pc = some e → (∀ p, e.Covers p → ¬ waiting p) →
    memory.Backs (max r.maxBlock 1) e

lemma Backed.but (h : Backed memory r) (waiting : Page → Prop) : BackedBut waiting memory r where
  valid := h.valid
  made pc e he := by
    obtain ⟨old, htranslates, -⟩ := h.backs pc e he
    exact ⟨old, htranslates⟩
  backs pc e he _ := h.backs pc e he

namespace BackedBut

variable {waiting : Page → Prop}

/-- Where no page waits memory backs every block. -/
lemma backed (h : BackedBut (fun _ => False) memory r) : Backed memory r where
  valid := h.valid
  backs pc e he := h.backs pc e he fun _ _ => id

lemma with_stats (h : BackedBut waiting memory r) (cacheStats : CacheStats) (stats : RecompilerStats) :
    BackedBut waiting memory { r with cache.stats := cacheStats, stats } where
  valid := h.valid.with_stats cacheStats
  made := h.made
  backs := h.backs

lemma refineIdle (h : BackedBut waiting memory r) (pc : UInt32) (idle : Idle) :
    BackedBut waiting memory (r.refineIdle pc idle).2 := by
  -- the block found is one from before, up to how it waits
  have hold : ∀ a e, (r.refineIdle pc idle).2.cache.get? a = some e →
      ∃ x, r.cache.get? a = some x ∧ (e = x ∨ e = { x with idle }) := by
    intro a e he
    have hget : (r.cache.setIdle pc idle).2.get? a = some e := he
    rw [h.valid.get?_setIdle, Function.update_apply] at hget
    split at hget
    · rename_i heq
      obtain ⟨x, hx, rfl⟩ := Option.map_eq_some_iff.mp hget
      exact ⟨x, heq ▸ hx, .inr rfl⟩
    · exact ⟨e, hget, .inl rfl⟩
  refine ⟨h.valid.valid_setIdle pc idle, fun a e he => ?_, fun a e he hclean => ?_⟩
  · obtain ⟨x, hx, rfl | rfl⟩ := hold a e he
    · exact h.made a _ hx
    · obtain ⟨old, hplan, hlen, hcycles⟩ := h.made a x hx
      exact ⟨old, hplan, hlen, hcycles⟩
  · obtain ⟨x, hx, rfl | rfl⟩ := hold a e he
    · exact h.backs a _ hx hclean
    · obtain ⟨old, ⟨hplan, hlen, hcycles⟩, hrest⟩ := h.backs a x hx hclean
      exact ⟨old, ⟨hplan, hlen, hcycles⟩, hrest⟩

/-- Stores and marks leave backed what covers no page in the queue. -/
lemma watched (h : BackedBut (· ∈ memory.dirty) memory r) (hw : memory.Watched memory') :
    BackedBut (· ∈ memory'.dirty) memory' r where
  valid := h.valid
  made := h.made
  backs pc e he hclean := (h.backs pc e he fun p hp hdirty => hclean p hp (hw.dirty p hdirty)).watched hw hclean

end BackedBut

/-! ### Dropping blocks -/

/-- Of the blocks only those are left that have a property. -/
structure Thinned (kept : Entry Block → Prop) (r r' : Recompiler TranslatorStats Block) : Prop where
  valid : Cache.Valid r'.cache
  maxBlock : r'.maxBlock = r.maxBlock
  left : ∀ pc e, r'.cache.get? pc = some e → r.cache.get? pc = some e ∧ kept e

lemma Thinned.trans {r'' : Recompiler TranslatorStats Block} {kept kept' : Entry Block → Prop}
    (h : Thinned kept r r') (h' : Thinned kept' r' r'') : Thinned (fun e => kept e ∧ kept' e) r r'' where
  valid := h'.valid
  maxBlock := h'.maxBlock.trans h.maxBlock
  left pc e he := by
    obtain ⟨he', hkept'⟩ := h'.left pc e he
    obtain ⟨he'', hkept⟩ := h.left pc e he'
    exact ⟨he'', hkept, hkept'⟩

lemma Thinned.backedBut {kept : Entry Block → Prop} {waiting : Page → Prop} (ht : Thinned kept r r')
    (h : BackedBut waiting memory r) : BackedBut waiting memory r' where
  valid := ht.valid
  made pc e he := ht.maxBlock ▸ h.made pc e (ht.left pc e he).1
  backs pc e he := ht.maxBlock ▸ h.backs pc e (ht.left pc e he).1

lemma Thinned.backed {kept : Entry Block → Prop} (ht : Thinned kept r r') (h : Backed memory r) :
    Backed memory r' := (ht.backedBut (h.but _)).backed

lemma thinned_invalidate (h : Cache.Valid r.cache) (start len : UInt32) :
    Thinned (fun e => len ≠ 0 → ¬ e.overlaps start (saturatingAdd start len)) r
      (r.invalidate start len).2 :=
  ⟨valid_invalidate h start len, (invalidate_frame r start len).2, fun _ _ he => get?_invalidate h he⟩

/-- Invalidating a range in several images of main memory. -/
lemma thinned_images (h : Cache.Valid r.cache) (offset len : UInt32) (images : List UInt32) :
    Thinned (fun e => ∀ image ∈ images, len ≠ 0 →
        ¬ e.overlaps (offset + image) (saturatingAdd (offset + image) len)) r
      (images.foldl (fun r image => (r.invalidate (offset + image) len).2) r) := by
  induction images generalizing r with
  | nil => exact ⟨h, rfl, fun pc e he => ⟨he, by simp⟩⟩
  | cons image images ih =>
    have hfirst := thinned_invalidate h (offset + image) len
    have hrest := hfirst.trans (ih hfirst.valid)
    refine ⟨hrest.valid, hrest.maxBlock, fun pc e he => ?_⟩
    obtain ⟨hget, hkept, hkept'⟩ := hrest.left pc e he
    exact ⟨hget, List.forall_mem_cons.mpr ⟨hkept, hkept'⟩⟩

end Recompiler

/-! ### The machine -/

namespace Machine

open Recompiler

variable {δ : Type} {hw : Hardware δ} {m m' m₀ : Machine TranslatorStats Block δ} {pc : UInt32}
  {e : Entry Block}

/-- Without hooks no call is intercepted. -/
lemma intercept_none (hw : Hardware δ) (pc : UInt32) (m : Machine TranslatorStats Block δ) :
    m.intercept (.standard hw (.none δ)) pc = (false, m) :=
  intercept_of_none rfl pc m

lemma backed_flushCode (hflush : m.flushCode = .ok m') : m'.recompiler.Backed m'.memory := by
  obtain ⟨r, hr, rfl⟩ := flushCode_eq_ok hflush
  exact Backed.flush hr

lemma backed_invalidate (h : m.recompiler.Backed m.memory) (addr len : UInt32) :
    (m.invalidate addr len).2.recompiler.Backed (m.invalidate addr len).2.memory := by
  rw [(quiet_invalidate m addr len).2.1]
  by_cases hram : physical addr < 0x00800000
  · rw [recompiler_invalidate_ram hram]
    exact (thinned_images h.valid _ len ramImages).backed h
  · rw [recompiler_invalidate hram]
    exact (thinned_invalidate h.valid _ len).backed h

/-! ### Dirty pages -/

/-- Dropping a page drops the blocks that cover it. -/
lemma thinned_page (h : Cache.Valid m.recompiler.cache) (p : Page) :
    Thinned (fun e => ∀ memory : Memory, e.Translates memory.source (max m.recompiler.maxBlock 1) →
        ¬ e.Covers p) m.recompiler
      (m.invalidate (p.val * pageBytes).toUInt32 pageBytes.toUInt32).2.recompiler := by
  have hp : p.val < 0x200 := p.isLt
  have haddr : (p.val * pageBytes).toUInt32.toNat = p.val * 0x1000 :=
    UInt32.toNat_ofNat_of_lt' (by rw [UInt32.size, pageBytes]; omega)
  have hphys : physical (p.val * pageBytes).toUInt32 = (p.val * pageBytes).toUInt32 := by
    rw [← UInt32.toNat_inj, toNat_physical, haddr]
    omega
  have hoffset : (p.val * pageBytes).toUInt32 &&& 0x001FFFFF = (p.val * pageBytes).toUInt32 := by
    rw [← UInt32.toNat_inj, UInt32.toNat_and, haddr]
    refine (Nat.and_two_pow_sub_one_eq_mod (p.val * 0x1000) 21).trans ?_
    omega
  have hram : (p.val * pageBytes).toUInt32 < 0x00800000 := by
    rw [UInt32.lt_iff_toNat_lt, haddr]
    change p.val * 0x1000 < 0x800000
    omega
  have himages := thinned_images h (p.val * pageBytes).toUInt32 pageBytes.toUInt32 ramImages
  rw [recompiler_invalidate_ram (hphys.symm ▸ hram), hphys, hoffset]
  refine ⟨himages.valid, himages.maxBlock, fun pc e he => ?_⟩
  obtain ⟨hget, hkept⟩ := himages.left pc e he
  refine ⟨hget, fun memory htranslates hcovers => ?_⟩
  obtain ⟨image, himage, hoverlaps⟩ := htranslates.overlaps_of_covers hcovers
  exact hkept image himage (by decide) hoverlaps

/-- Dropping the pages in the queue, one by one. -/
lemma thinned_pages (h : Cache.Valid m.recompiler.cache) (pages : List Page) :
    let dropped := pages.foldl dropPage m
    dropped.memory = m.memory ∧
      Thinned (fun e => ∀ p ∈ pages, ∀ memory : Memory,
        e.Translates memory.source (max m.recompiler.maxBlock 1) → ¬ e.Covers p)
        m.recompiler dropped.recompiler := by
  induction pages generalizing m with
  | nil => exact ⟨rfl, h, rfl, fun pc e he => ⟨he, by simp⟩⟩
  | cons p pages ih =>
    have hpage := thinned_page h p
    obtain ⟨hmem, hrest⟩ := ih (m := m.dropPage p) hpage.valid
    refine ⟨hmem.trans (quiet_invalidate m _ _).2.1, ?_⟩
    have hboth := hpage.trans hrest
    refine ⟨hboth.valid, hboth.maxBlock, fun pc e he => ?_⟩
    obtain ⟨hget, hfirst, hlater⟩ := hboth.left pc e he
    refine ⟨hget, fun q hq memory htranslates => ?_⟩
    rcases List.mem_cons.mp hq with rfl | hq
    · exact hfirst memory htranslates
    · exact hlater q hq memory (hpage.maxBlock ▸ htranslates)

/-- After the queue was dropped memory backs what is left. -/
lemma backed_dropDirtyCode (h : m.recompiler.BackedBut (· ∈ m.memory.dirty) m.memory) :
    m.dropDirtyCode.recompiler.Backed m.dropDirtyCode.memory := by
  rw [dropDirtyCode_eq]
  obtain ⟨hmemory, hthinned⟩ :=
    thinned_pages (m := { m with board.memory := { m.memory with dirty := #[] } }) h.valid
      m.memory.dirty.toList
  refine ⟨hthinned.valid, fun pc e he => ?_⟩
  obtain ⟨hget, hclean⟩ := hthinned.left pc e he
  rw [hmemory, hthinned.maxBlock]
  obtain ⟨made, hmade⟩ := h.made pc e hget
  obtain ⟨old, htranslates, hbios, hpages⟩ := h.backs pc e hget fun p hp hdirty =>
    hclean p (Array.mem_toList_iff.mpr hdirty) made hmade hp
  exact ⟨old, htranslates, hbios, hpages⟩

/-- What blocks write is watched. -/
lemma watched_runBlock (hw : Hardware δ) (hooks : Hooks δ) (e : Entry Block) (deadline : UInt64)
    (m : Machine TranslatorStats Block δ) :
    m.memory.Watched (m.runBlock (.standard hw hooks) e deadline).memory := by
  change m.memory.Watched (m.runBlock (.standard hw hooks) e deadline).board.memory
  rw [board_runBlock]
  have hserve : ∀ service x y c (s : Board δ), m.memory.Watched s.memory →
      m.memory.Watched (Board.serve hw m.cycles service x y c s).rest.memory :=
    fun service x y c s hs => hs.trans (Board.watched_serve service x y c)
  exact Chain.run_keeps (J := fun b : Board δ => m.memory.Watched b.memory)
    (fun b left c s hs => Block.enter_keeps (J := fun b : Board δ => m.memory.Watched b.memory)
      hserve b left c hs) _ _ _ _ (.refl _)

/-- Running a block and dropping what it wrote over, from memory that backs what covers no page in the queue. -/
lemma backed_settled (hooks : Hooks δ) (h : m.recompiler.BackedBut (· ∈ m.memory.dirty) m.memory) (e : Entry Block)
    (deadline : UInt64) :
    let ran := (m.runBlock (.standard hw hooks) e deadline).dropDirtyCode
    ran.recompiler.Backed ran.memory := by
  apply backed_dropDirtyCode
  have hrun : (m.runBlock (.standard hw hooks) e deadline).recompiler.BackedBut (· ∈ m.memory.dirty) m.memory := by
    rcases recompiler_runBlock (.standard hw hooks) e deadline m with hr | hr <;> rw [hr]
    · exact h
    · exact h.refineIdle e.pc .none
  exact hrun.watched (watched_runBlock hw hooks e deadline m)

/-- Running a block and dropping what it wrote over. -/
lemma backed_run (h : m.recompiler.Backed m.memory) (e : Entry Block) (deadline : UInt64) :
    let ran := (m.runBlock (.standard hw (.none δ)) e deadline).dropDirtyCode
    ran.recompiler.Backed ran.memory :=
  backed_settled (.none δ) (h.but _) e deadline

/-! ### Finding a block -/

/-- A look for a block leaves memory and translated code in step but for the pages that wait, and gives a cached
block. -/
lemma backedBut_findBlock (hw : Hardware δ) (hooks : Hooks δ) {waiting : Page → Prop}
    (h : m.recompiler.BackedBut waiting m.memory) (pc : UInt32) :
    let found := m.findBlock (.standard hw hooks) pc
    found.2.recompiler.BackedBut waiting found.2.memory ∧ found.2.memory.source = m.memory.source ∧
      found.2.recompiler.maxBlock = m.recompiler.maxBlock ∧
        ∀ e, found.1 = .ok (some e) → found.2.recompiler.cache.get? pc = some e := by
  -- what a look leaves: the block just made is a translation of memory, its pages are not marked yet
  let P (r : Recompiler TranslatorStats Block) : Prop :=
    r.BackedBut waiting m.memory ∧ r.maxBlock = m.recompiler.maxBlock
  let Q (e : Entry Block) (r : Recompiler TranslatorStats Block) : Prop :=
    r.cache.get? pc = some e ∧ e.Translates m.memory.source (max r.maxBlock 1) ∧
      Cache.Valid r.cache ∧ r.maxBlock = m.recompiler.maxBlock ∧
        ∀ a x, r.cache.get? a = some x → x = e ∨ (∃ old : Memory, x.Translates old.source (max r.maxBlock 1)) ∧
          ((∀ p, x.Covers p → ¬ waiting p) → m.memory.Backs (max r.maxBlock 1) x)
  have hkeeps : Keeps (Parts.standard hw hooks).translator m.memory.source pc P Q := {
    count := fun r cacheStats stats _ hr => ⟨hr.1.with_stats cacheStats stats, hr.2⟩
    flush := fun r r' hr hflush =>
      ⟨(Backed.flush hflush).but waiting, (flush_eq_ok hflush).2.2.2.trans hr.2⟩
    publish := fun r e r' hr hnone hpublish => by
      obtain ⟨t, cache, ht, rfl, hinsert, rfl⟩ := publish_eq_ok hpublish
      obtain ⟨hplan, -, -, hlen, hcycles, -⟩ := Translator.standard_eq_ok ht
      have hget := hr.1.valid.get?_insert hinsert
      refine ⟨?_, ⟨hplan, hlen, hcycles⟩, (hr.1.valid.insert hinsert).1, hr.2, fun a x hx => ?_⟩
      · exact (congrFun hget pc).trans (Function.update_self ..)
      · replace hx : cache.get? a = some x := hx
        rw [hget, Function.update_apply] at hx
        split at hx
        · exact .inl (Option.some.inj hx).symm
        · exact .inr ⟨hr.1.made a x hx, hr.1.backs a x hx⟩
    fail := fun r err r' hr hnone hpublish => by
      obtain rfl := publish_eq_error hpublish
      exact ⟨⟨hr.1.valid, hr.1.made, hr.1.backs⟩, hr.2⟩ }
  have hleaves := hkeeps.resolve ⟨h, rfl⟩
  intro found
  dsimp only [found, findBlock]
  split
  · rename_i e he
    refine ⟨h, rfl, rfl, fun e' he' => ?_⟩
    obtain rfl : e = e' := by simpa using he'
    rw [Cache.get?, he]
    rfl
  · cases hresolve : m.recompiler.resolve (Parts.standard hw hooks).translator m.memory.source pc with
    | mk result r' =>
      rw [hresolve] at hleaves
      rcases result with err | e | e | err
      · exact ⟨hleaves.1, rfl, hleaves.2, fun e' he' => by simp at he'⟩
      · refine ⟨hleaves.1.1, rfl, hleaves.1.2, fun e' he' => ?_⟩
        obtain rfl : e = e' := by simpa using he'
        exact hleaves.2
      · obtain ⟨hget, htranslates, hvalid, hmax, hothers⟩ := hleaves
        refine ⟨⟨hvalid, fun a x hx => ?_, fun a x hx hclean => ?_⟩, Memory.source_markCode .., hmax,
          fun e' he' => ?_⟩
        · rcases hothers a x hx with rfl | ⟨hmade, -⟩
          · exact ⟨_, htranslates⟩
          · exact hmade
        · rcases hothers a x hx with rfl | ⟨-, hbacks⟩
          · exact .of_translates htranslates
          · exact (hbacks hclean).markCode ..
        · obtain rfl : e = e' := by simpa using he'
          exact hget
      · exact ⟨hleaves.1, rfl, hleaves.2, fun e' he' => by simp at he'⟩

/-- A look for a block leaves memory and translated code in step, and gives a cached block. -/
lemma backed_findBlock (hw : Hardware δ) (h : m.recompiler.Backed m.memory) (pc : UInt32) :
    let found := m.findBlock (.standard hw (.none δ)) pc
    found.2.recompiler.Backed found.2.memory ∧ found.2.memory.source = m.memory.source ∧
      found.2.recompiler.maxBlock = m.recompiler.maxBlock ∧
        ∀ e, found.1 = .ok (some e) → found.2.recompiler.cache.get? pc = some e := by
  obtain ⟨hbacked, hrest⟩ := backedBut_findBlock hw (.none δ) (h.but fun _ => False) pc
  exact ⟨hbacked.backed, hrest⟩

/-! ### Every pass -/

lemma backed_loadQueued (h : m.recompiler.Backed m.memory) (hload : m.loadQueued = .ok m') :
    m'.recompiler.Backed m'.memory := by
  obtain rfl | ⟨header, memory, hflush⟩ := loadQueued_eq_ok hload
  · exact h
  · exact backed_flushCode hflush

/-- Memory backs every block in the cache after whatever happens to the machine. -/
lemma codeInvariant_backed (hw : Hardware δ) : CodeInvariant (.standard hw (.none δ))
    fun m : Machine TranslatorStats Block δ => m.recompiler.Backed m.memory where
  quiet m m' h hquiet := by
    rw [hquiet.recompiler, hquiet.memory]
    exact h
  intercept m pc h := by
    rw [intercept_none]
    exact h
  loadQueued m m' := backed_loadQueued
  findBlock m pc h := (backed_findBlock hw h pc).1
  run m pc m' e deadline h hfind := by
    have hfound := (backed_findBlock hw h pc).1
    rw [hfind] at hfound
    exact backed_run hfound e deadline
  flushCode m m' h := backed_flushCode
  invalidate m addr len h := backed_invalidate h addr len
  resetStats m h := ⟨h.valid.with_stats {}, h.backs⟩

/-- A new machine has no code. -/
lemma backed_ofTranslator {P : Parts TranslatorStats Block δ} {settings : Settings} {bios : ByteArray}
    {device : δ} (h : ofTranslator P settings bios device {} = .ok m₀) :
    m₀.recompiler.Backed m₀.memory := by
  obtain ⟨r, hcreate, rfl⟩ := ofTranslator_eq_ok h
  obtain ⟨hvalid, hnil⟩ := cache_of_create hcreate
  exact .of_empty (r := r) hvalid hnil

/-- A new machine finds the instruction that its boot ROM begins with. -/
lemma findBlock_instr {bios : ByteArray} {w : UInt32} {i : Instr}
    (hword : (Memory.ofBios bios).source resetVector = .ok w) (hinstr : decode w resetVector = .instr i) :
    let P := Parts.standard (.absent Unit) (.none Unit)
    let settings : Settings := { limits := { cacheSlots := 1, poolNodes := 1, maxBlock := 1 } }
    ∃ m₀ e m', ofTranslator P settings bios () {} = .ok m₀ ∧
      m₀.findBlock P resetVector = (.ok (some e), m') ∧ e.code.plan = .single resetVector i := by
  intro P settings
  let r : Recompiler TranslatorStats Block := .bare {} settings.limits
  have hresident : r.cache.resident? resetVector = none := by decide
  have hresolve : ∀ source : Source, source resetVector = .ok w → ∃ (t : Translation Block) (r' : _),
      r.resolve P.translator source resetVector = (.ok (.compiled (t.entry resetVector)), r') ∧
        t.code.plan = .single resetVector i := by
    intro source hword
    let plan : Plan := .single resetVector i
    have hplan : Plan.ofSource source true resetVector 1 = .ok plan := Plan.ofSource_one_instr hword hinstr
    obtain ⟨t, ht⟩ : ∃ t, (P.translator.translate source resetVector 1 {} r.store).result = .ok t := by
      change ∃ t, ((Translator.standard true Translator.functionVectors).translate
        source resetVector 1 {} r.store).result = .ok t
      have htargets : plan.directTargets Translator.functionVectors =
          if i.endsBlock then [] else [0xBFC00004] := by
        have hnext : plan.fallthrough = 0xBFC00004 := rfl
        cases hends : i.endsBlock with
        | true => simp [Plan.directTargets, Plan.leaves, Plan.endsAtBarrier, plan, Plan.single, hends]
        | false =>
          have hleaves : plan.leaves = [0xBFC00004] := by
            simp [Plan.leaves, Plan.endsAtBarrier, plan, Plan.single, hends, ← hnext]
          rw [Plan.directTargets, hleaves]
          decide
      simp only [Translator.standard, hplan, htargets]
      cases i.endsBlock <;> exact ⟨_, rfl⟩
    have htplan : t.code.plan = plan := by
      have hok := (Translator.standard_eq_ok ht).1
      rw [hplan] at hok
      exact (Except.ok.inj hok).symm
    let counted : Recompiler TranslatorStats Block := { r with cache.stats.misses := 1 }
    obtain ⟨cache, hinsert⟩ : ∃ cache, counted.cache.insert (t.entry resetVector) = .ok cache := by
      rw [Cache.insert, show counted.cache.resident _ = none from Cache.join_replicate ..]
      exact ⟨_, rfl⟩
    obtain ⟨r', hpublish⟩ := exists_publish (T := P.translator) (r := counted) ht hinsert
    have hcounted : r.cache.getCounted resetVector = (none, counted.cache) := by
      rw [Cache.getCounted, hresident, show r.cache.node? resetVector = none from by decide]
      rfl
    refine ⟨t, r', ?_, htplan⟩
    rw [resolve, hcounted]
    change counted.publishOrFlush P.translator source resetVector = _
    rw [publishOrFlush, hpublish]
  let m₀ := assemble P settings bios () r
  have hstart : ofTranslator P settings bios () {} = .ok m₀ :=
    ofTranslator_eq_bare (by decide) _ _ _
  obtain ⟨t, r', hresolve, hplan⟩ := hresolve m₀.memory.source hword
  obtain ⟨m', hfind⟩ : ∃ m', m₀.findBlock P resetVector = (.ok (some (t.entry resetVector)), m') := by
    rw [findBlock, show m₀.recompiler = r from rfl, hresident, hresolve]
    exact ⟨_, rfl⟩
  exact ⟨m₀, t.entry resetVector, m', hstart, hfind, hplan⟩

/-- The block that is found at the head of the dispatcher's loop starts at the address asked for, and its
words in the image of main memory it starts in are those that memory holds.  If it stays in that image
it is, with its length and its cycles, the translation of memory. -/
theorem findBlock_fresh {settings : Settings} {bios : ByteArray} {device : δ}
    (hstart : ofTranslator (.standard hw (.none δ)) settings bios device {} = .ok m₀)
    (hm : AtHead (.standard hw (.none δ)) m₀ m)
    (hfind : m.findBlock (.standard hw (.none δ)) pc = (.ok (some e), m')) :
    e.pc = pc ∧
      (∃ old : Memory, e.Translates old.source (max m.recompiler.maxBlock 1) ∧
        ∀ k < e.code.plan.length, Entry.InImage pc k →
          m.memory.source (Plan.wordPc pc k) = old.source (Plan.wordPc pc k)) ∧
        (e.StaysInImage → e.Translates m.memory.source (max m.recompiler.maxBlock 1)) := by
  have hbacked := (codeInvariant_backed hw).invariant.atHead (backed_ofTranslator hstart) hm
  obtain ⟨hfound, hfetch, hmax, hget⟩ := backed_findBlock hw hbacked pc
  rw [hfind] at hfound hfetch hmax hget
  dsimp only at hfound hfetch hmax hget
  have he := hget e rfl
  obtain ⟨-, rfl⟩ := hfound.valid.get?_eq_some_iff.mp he
  have hbacks := hfound.backs e.pc e he
  rw [← hfetch, ← hmax]
  exact ⟨rfl, hbacks.exists_source, hbacks.translates⟩

/-! ### A block that is written over -/

/-- A boot ROM that writes a function to main memory, calls it, writes a half of its first word over through another
image of main memory, and calls it again. -/
def rewriteRom : ByteArray :=
  ⟨#[0, 0x80, 0x08, 0x3C, 0x02, 0x24, 0x09, 0x3C, 0x01, 0, 0x29, 0x35, 0, 0, 0x09, 0xAD, 0xE0, 0x03, 0x09, 0x3C,
    0x08, 0, 0x29, 0x35, 0x04, 0, 0x09, 0xAD, 0x09, 0xF8, 0, 0x01, 0, 0, 0, 0, 0x01, 0x01, 0x0A, 0x24,
    0x20, 0xA0, 0x0B, 0x3C, 0, 0, 0x6A, 0xA5, 0x08, 0, 0, 0x01]⟩

/-- Settings with room for a few blocks. -/
def smallSettings : Settings := { limits := { cacheSlots := 1, poolNodes := 4, maxBlock := 16 } }

/-- The function gives one when it is first called and 257 when it is called again: the block that is found then is a
translation of memory as it has become, and the one that was found first is not. -/
theorem findBlock_fresh_rewritten :
    let P := Parts.standard (.absent Unit) (.none Unit)
    ∃ m₀ h e x h' e' x', ofTranslator P smallSettings rewriteRom () {} = .ok m₀ ∧
      AtHead P m₀ h ∧ h.findBlock P 0x80000000 = (.ok (some e), x) ∧ e.code.plan.body = [.arith .addu 2 0 (.imm 1)] ∧
        AtHead P m₀ h' ∧ h'.findBlock P 0x80000000 = (.ok (some e'), x') ∧
          e'.code.plan.body = [.arith .addu 2 0 (.imm 257)] ∧ e'.StaysInImage ∧
            e'.Translates h'.memory.source (max h'.recompiler.maxBlock 1) ∧
              ¬ e.Translates h'.memory.source (max h'.recompiler.maxBlock 1) := by
  intro P
  let m₀ := assemble P smallSettings rewriteRom () (.bare {} smallSettings.limits)
  have hstart : ofTranslator P smallSettings rewriteRom () {} = .ok m₀ := ofTranslator_eq_bare (by decide) _ _ _
  have hfirst : (m₀.headAfter P (m₀.stepDeadline 100) 1).any (fun h =>
      (h.findBlock P 0x80000000).1.toOption.join.any fun e =>
        e.pc = 0x80000000 ∧ e.code.plan.body = [.arith .addu 2 0 (.imm 1)]) = true := by
    decide +kernel
  have hsecond : (m₀.headAfter P (m₀.stepDeadline 100) 3).any (fun h =>
      (h.findBlock P 0x80000000).1.toOption.join.any fun e =>
        e.code.plan.body = [.arith .addu 2 0 (.imm 257)] ∧ e.sourceLen = 3) = true := by
    decide +kernel
  obtain ⟨h, hpasses, hfound⟩ := exists_passes hfirst
  obtain ⟨e, x, hfind, hwas⟩ := exists_found hfound
  obtain ⟨h', hpasses', hfound'⟩ := exists_passes hsecond
  obtain ⟨e', x', hfind', his⟩ := exists_found hfound'
  obtain ⟨hpc, hone⟩ := of_decide_eq_true hwas
  obtain ⟨hmany, hlen⟩ := of_decide_eq_true his
  have hhead : AtHead P m₀ h := ⟨m₀, 100, .start, hpasses⟩
  have hhead' : AtHead P m₀ h' := ⟨m₀, 100, .start, hpasses'⟩
  obtain ⟨hpc', -, htranslates⟩ := findBlock_fresh hstart hhead' hfind'
  have hstays : e'.StaysInImage := by
    intro _
    rw [hpc', hlen]
    decide
  refine ⟨m₀, h, e, x, h', e', x', hstart, hhead, hfind, hone, hhead', hfind', hmany, hstays, htranslates hstays, ?_⟩
  intro hstale
  have hsame := hstale.plan.symm.trans (hpc ▸ hpc' ▸ (htranslates hstays).plan)
  rw [Except.ok.inj hsame, hmany] at hone
  exact absurd hone (by decide)

end Machine

end R3000
