import Mathlib
import R3000.Proofs.Chains.Lookups
import R3000.Proofs.Links.Graph
import R3000.Proofs.Memory.Fetch
import R3000.Proofs.Machine.Reached

/-!
# The link graph of a machine

Planned blocks show their exits, so the link graph of a machine needs no log of them: it holds with the exits
that the cached blocks have, and each of these blocks is a translation of some memory.
-/

namespace R3000

/-! ### Planned blocks -/

/-- A block planned from some memory, with an exit for each direct target. -/
structure Block.Planned (b : Block) : Prop where
  plan : ∃ (memory : Memory) (pc cap : UInt32), Plan.ofSource memory.source true pc cap = .ok b.plan
  exits : b.exits.map (·.target) = b.plan.directTargets Translator.functionVectors

namespace Block.Planned

variable {b : Block}

lemma linkable (h : b.Planned) : b.Linkable := by
  intro hleaves
  have hexits := h.exits
  rw [Plan.directTargets, hleaves] at hexits
  exact List.map_eq_nil_iff.mp hexits

/-- A block costs something, and the processor can count it. -/
lemma cost (h : b.Planned) : 0 < b.plan.cost ∧ b.plan.cost < 2 ^ 31 := by
  obtain ⟨memory, pc, cap, hplan⟩ := h.plan
  have hlen := Memory.length_le hplan
  have hle := b.plan.cost_le
  exact ⟨Plan.cost_pos (Plan.length_pos hplan), by omega⟩

end Block.Planned

/-! ### The recompiler -/

namespace Recompiler

variable {r r' : Recompiler TranslatorStats Block} {pc : UInt32}

/-- The exits of the cached block at an address. -/
def exits (r : Recompiler TranslatorStats Block) (pc : UInt32) : List Exit :=
  ((r.cache.get? pc).map (·.code.exits)).getD []

/-- The link graph holds with the exits that the cached blocks have, each of which was planned. -/
structure Wired (r : Recompiler TranslatorStats Block) : Prop where
  linked : ∃ todo, r.IsLinked r.exits todo
  planned : ∀ pc e, r.cache.get? pc = some e → e.code.Planned

lemma exits_of_get? {e : Entry Block} (h : r.cache.get? pc = some e) : r.exits pc = e.code.exits := by
  rw [exits, h]
  rfl

namespace Wired

/-- Blocks may go, and their entries may change, but not their code. -/
lemma of_codes (h : r.Wired) {todo : Nat} (hlinked : r'.IsLinked r.exits todo)
    (hcode : ∀ pc e', r'.cache.get? pc = some e' → ∃ e, r.cache.get? pc = some e ∧ e.code = e'.code) :
    r'.Wired where
  linked := by
    refine ⟨todo, hlinked.congr_exits fun pc hpc => ?_⟩
    obtain ⟨e', he'⟩ := Option.isSome_iff_exists.mp hpc
    obtain ⟨e, he, hsame⟩ := hcode pc e' he'
    rw [exits_of_get? he', exits_of_get? he, hsame]
  planned pc e' he' := by
    obtain ⟨e, he, hsame⟩ := hcode pc e' he'
    exact hsame ▸ h.planned pc e he

lemma of_isLinked (hlinked : r.IsLinked (fun _ => []) 0) (hnone : ∀ pc, r.cache.get? pc = none) : r.Wired where
  linked := ⟨0, hlinked.congr_exits fun pc hpc => by rw [hnone] at hpc; simp at hpc⟩
  planned pc e he := by rw [hnone] at he; simp at he

lemma flush (hflush : r.flush = .ok r') : r'.Wired :=
  .of_isLinked (isLinked_flush hflush) (get?_of_flush hflush)

lemma create {limits : Limits} {stats : TranslatorStats} (h : Recompiler.create stats limits = .ok r) :
    r.Wired := by
  obtain ⟨hvalid, hnil⟩ := cache_of_create h
  exact .of_isLinked (isLinked_create h) (hvalid.get?_of_toList_nil hnil)

lemma with_stats (h : r.Wired) (cacheStats : CacheStats) (stats : RecompilerStats) :
    { r with cache.stats := cacheStats, stats }.Wired := by
  obtain ⟨todo, hlinked⟩ := h.linked
  exact h.of_codes (hlinked.with_stats cacheStats stats) fun pc e he => ⟨e, he, rfl⟩

lemma resetStats (h : r.Wired) (T : Translator TranslatorStats Block) : (r.resetStats T).Wired := by
  obtain ⟨todo, hlinked⟩ := h.linked
  exact h.of_codes (hlinked.resetStats T) fun pc e he => ⟨e, he, rfl⟩

lemma refineIdle (h : r.Wired) (pc : UInt32) (idle : Idle) : (r.refineIdle pc idle).2.Wired := by
  obtain ⟨todo, hlinked⟩ := h.linked
  refine h.of_codes (hlinked.refineIdle pc idle) fun a e' he' => ?_
  replace he' : (r.cache.setIdle pc idle).2.get? a = some e' := he'
  rw [hlinked.valid.get?_setIdle, Function.update_apply] at he'
  split at he'
  · rename_i ha
    obtain ⟨e, he, rfl⟩ := Option.map_eq_some_iff.mp he'
    exact ⟨e, ha ▸ he, rfl⟩
  · exact ⟨e', he', rfl⟩

lemma invalidate (h : r.Wired) (start len : UInt32) : (r.invalidate start len).2.Wired := by
  obtain ⟨todo, hlinked⟩ := h.linked
  exact h.of_codes (hlinked.invalidate start len) fun pc e he =>
    ⟨e, (get?_invalidate hlinked.valid he).1, rfl⟩

/-- Publishing a planned block. -/
lemma publish (h : r.Wired) {source : Source} {e : Entry Block} (hnone : r.cache.get? pc = none)
    (hsource : ∃ memory : Memory, source = memory.source)
    (hpublish : r.publish (.standard true Translator.functionVectors) source pc = (.ok e, r')) : r'.Wired := by
  obtain ⟨todo, hlinked⟩ := h.linked
  have hfresh := Translator.standard_fresh true Translator.functionVectors
  obtain ⟨t, ht, -, -, hlinked'⟩ := hlinked.publish hfresh hnone hpublish
  obtain ⟨t', cache, ht', rfl, hinsert, rfl⟩ := publish_eq_ok hpublish
  obtain rfl : t = t' := Except.ok.inj (ht.symm.trans ht')
  obtain ⟨hplan, halloc, hexits, -⟩ := Translator.standard_eq_ok ht
  have hget : cache.get? = Function.update r.cache.get? pc (some (t.entry pc)) :=
    hlinked.valid.get?_insert hinsert
  have hplanned : t.code.Planned := by
    obtain ⟨memory, rfl⟩ := hsource
    refine ⟨⟨memory, pc, _, hplan⟩, ?_⟩
    rw [hexits]
    exact (Translator.allocExits_eq_ok (Prod.ext halloc rfl)).1
  constructor
  · refine ⟨todo, hlinked'.congr_exits fun a ha => ?_⟩
    rw [exits, show Cache.get? _ a = cache.get? a from rfl, hget]
    by_cases hpc : a = pc
    · rw [hpc, Function.update_self, Function.update_self]
      exact hexits
    · rw [Function.update_of_ne hpc, Function.update_of_ne hpc]
      rfl
  · intro a e he
    replace he : cache.get? a = some e := he
    rw [hget, Function.update_apply] at he
    split at he
    · obtain rfl := Option.some.inj he
      exact hplanned
    · exact h.planned a e he

lemma publish_error (h : r.Wired) {source : Source} {err : PublishError}
    (hpublish : r.publish (.standard true Translator.functionVectors) source pc = (.error err, r')) :
    r'.Wired := by
  obtain ⟨todo, hlinked⟩ := h.linked
  have hlinked' := hlinked.publish_error (Translator.standard_fresh true _) hpublish
  obtain rfl := publish_eq_error hpublish
  exact h.of_codes hlinked' fun pc e he => ⟨e, he, rfl⟩

lemma resolve (h : r.Wired) (memory : Memory) (pc : UInt32) :
    (r.resolve (.standard true Translator.functionVectors) memory.source pc).2.Wired := by
  have hkeeps : Keeps (.standard true Translator.functionVectors) memory.source pc Wired fun _ => Wired := {
    count := fun r cacheStats stats _ hr => hr.with_stats cacheStats stats
    flush := fun r r' _ hflush => Wired.flush hflush
    publish := fun r e r' hr hnone hpublish => hr.publish hnone ⟨memory, rfl⟩ hpublish
    fail := fun r err r' hr _ hpublish => hr.publish_error hpublish }
  exact hkeeps.resolve_snd h

/-- The link words of cached blocks lead to the cached blocks for their targets. -/
lemma sound (h : r.Wired) : Chain.Sound r.cache r.store where
  word pc e he x hx code hcode := by
    obtain ⟨todo, hlinked⟩ := h.linked
    have hx' : x ∈ r.exits pc := (exits_of_get? he).symm ▸ hx
    rcases hlinked.live (by rw [he]; rfl) hx' with hslow | ⟨e', he', hblock⟩
    · simp [hslow] at hcode
    · rw [hblock] at hcode
      exact ⟨e', he', LinkWord.block.inj (Option.some.inj hcode)⟩
  linkable pc e he := (h.planned pc e he).linkable
  cost pc e he := (h.planned pc e he).cost

end Wired

end Recompiler

/-! ### The machine -/

namespace Machine

open Recompiler

variable {δ : Type} {hw : Hardware δ} {hooks : Hooks δ} {m m' m₀ : Machine TranslatorStats Block δ}

/-- The block that is found is cached. -/
lemma cached_findBlock {P : Parts TranslatorStats Block δ} (h : Cache.Valid m.recompiler.cache) {pc : UInt32}
    {e : Entry Block} (hfind : m.findBlock P pc = (.ok (some e), m')) :
    m'.recompiler.cache.get? pc = some e := by
  let I (r : Recompiler TranslatorStats Block) : Prop := Cache.Valid r.cache
  have hkeeps : Keeps P.translator m.memory.source pc I fun e r => r.cache.get? pc = some e := {
    count := fun r cacheStats stats _ hr => hr.with_stats cacheStats
    flush := fun r r' _ hflush => by
      dsimp only [I]
      rw [(flush_eq_ok hflush).1]
      exact (Cache.valid_clear r.cache).1
    publish := fun r e r' hr _ hpublish => by
      obtain ⟨t, cache, -, rfl, hinsert, rfl⟩ := publish_eq_ok hpublish
      exact (congrFun (hr.get?_insert hinsert) pc).trans (Function.update_self ..)
    fail := fun r err r' hr _ hpublish => by
      obtain rfl := publish_eq_error hpublish
      exact hr }
  have hleaves := hkeeps.resolve h
  rw [findBlock] at hfind
  split at hfind
  · rename_i x hx
    cases hfind
    rw [Cache.get?, hx]
    rfl
  · generalize m.recompiler.resolve P.translator m.memory.source pc = found at hfind hleaves
    obtain ⟨err | x | x | err, r⟩ := found <;> cases hfind
    · exact hleaves.2
    · exact hleaves

lemma lasting_wired : Lasting (.standard true Translator.functionVectors) Wired where
  resolve _ memory pc h := h.resolve memory pc
  flush _ _ _ := Wired.flush
  invalidate _ start len h := h.invalidate start len
  refineIdle _ pc h := h.refineIdle pc .none
  resetStats _ h := h.resetStats _

/-- The link graph holds after whatever happens to the machine. -/
lemma codeInvariant_wired (hw : Hardware δ) (hooks : Hooks δ) : CodeInvariant (.standard hw hooks)
    fun m : Machine TranslatorStats Block δ => m.recompiler.Wired :=
  lasting_wired.codeInvariant

lemma wired_flushCode (hflush : m.flushCode = .ok m') : m'.recompiler.Wired := by
  obtain ⟨r, hr, rfl⟩ := flushCode_eq_ok hflush
  exact Wired.flush hr

lemma wired_invalidate (h : m.recompiler.Wired) (addr len : UInt32) :
    (m.invalidate addr len).2.recompiler.Wired :=
  lasting_wired.invalidateImages h addr len

lemma wired_findBlock (hw : Hardware δ) (hooks : Hooks δ) (h : m.recompiler.Wired) (pc : UInt32) :
    (m.findBlock (.standard hw hooks) pc).2.recompiler.Wired :=
  (codeInvariant_wired hw hooks).findBlock m pc h

lemma wired_ofTranslator {P : Parts TranslatorStats Block δ} {settings : Settings} {bios : ByteArray}
    {device : δ} (h : ofTranslator P settings bios device {} = .ok m₀) : m₀.recompiler.Wired := by
  obtain ⟨r, hcreate, rfl⟩ := ofTranslator_eq_ok h
  exact Wired.create hcreate

end Machine

end R3000
