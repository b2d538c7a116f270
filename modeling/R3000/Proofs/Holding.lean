import Mathlib
import R3000.Proofs.Recovery
import R3000.Proofs.Machine.Reached

/-!
# What every cached block has

A property that each translation gives its block, and that does not depend on how the block waits, every cached
block has, whatever is asked of the recompiler, and whatever happens to the machine that it is part of.
-/

namespace R3000

variable {τ β : Type} {T : Translator τ β} {source : Source} {cap pc : UInt32} {P : Entry β → Prop}

/-- The translations of a source give their blocks a property, under a cap on the instructions. -/
def Translator.Makes (T : Translator τ β) (source : Source) (cap : UInt32) (P : Entry β → Prop) : Prop :=
  ∀ pc s store t, (T.translate source pc (max cap 1) s store).result = .ok t → P (t.entry pc)

namespace Recompiler

variable {r r' r₀ : Recompiler τ β}

/-- Every cached block has a property, and blocks are translated under a cap on their instructions. -/
structure Holds (cap : UInt32) (P : Entry β → Prop) (r : Recompiler τ β) : Prop where
  valid : Cache.Valid r.cache
  maxBlock : r.maxBlock = cap
  every : ∀ pc e, r.cache.get? pc = some e → P e

namespace Holds

lemma of_none (hvalid : Cache.Valid r.cache) (hmax : r.maxBlock = cap) (hnone : ∀ pc, r.cache.get? pc = none) :
    r.Holds cap P where
  valid := hvalid
  maxBlock := hmax
  every pc e he := by
    rw [hnone] at he
    cases he

lemma create {limits : Limits} {s : τ} (h : Recompiler.create s limits = .ok r) : r.Holds limits.maxBlock P := by
  obtain ⟨hvalid, hnil⟩ := cache_of_create h
  obtain ⟨-, rfl⟩ := create_eq_ok_iff.mp h
  exact of_none hvalid rfl (hvalid.get?_of_toList_nil hnil)

lemma flush (h : r.Holds cap P) (hflush : r.flush = .ok r') : r'.Holds cap P := by
  obtain ⟨hcache, -, -, hmax⟩ := flush_eq_ok hflush
  refine of_none ?_ (hmax.trans h.maxBlock) (get?_of_flush hflush)
  rw [hcache]
  exact (Cache.valid_clear r.cache).1

lemma with_stats (h : r.Holds cap P) (cacheStats : CacheStats) (stats : RecompilerStats) :
    { r with cache.stats := cacheStats, stats }.Holds cap P :=
  ⟨h.valid.with_stats cacheStats, h.maxBlock, h.every⟩

lemma resetStats (h : r.Holds cap P) (T : Translator τ β) : (r.resetStats T).Holds cap P :=
  ⟨h.valid.with_stats {}, h.maxBlock, h.every⟩

lemma invalidate (h : r.Holds cap P) (start len : UInt32) : (r.invalidate start len).2.Holds cap P where
  valid := valid_invalidate h.valid start len
  maxBlock := (invalidate_frame r start len).2.trans h.maxBlock
  every pc e he := h.every pc e (get?_invalidate h.valid he).1

lemma refineIdle {idle : Idle} (hidle : ∀ e, P e → P { e with idle }) (h : r.Holds cap P) (pc : UInt32) :
    (r.refineIdle pc idle).2.Holds cap P where
  valid := h.valid.valid_setIdle pc idle
  maxBlock := h.maxBlock
  every a e he := by
    have hget : (r.cache.setIdle pc idle).2.get? a = some e := he
    rw [h.valid.get?_setIdle, Function.update_apply] at hget
    split at hget
    · obtain ⟨x, hx, rfl⟩ := Option.map_eq_some_iff.mp hget
      exact hidle x (h.every pc x hx)
    · exact h.every a e hget

lemma publish (hT : T.Makes source cap P) (h : r.Holds cap P) {e : Entry β}
    (hpublish : r.publish T source pc = (.ok e, r')) : r'.Holds cap P := by
  obtain ⟨t, cache, ht, rfl, hinsert, rfl⟩ := publish_eq_ok hpublish
  rw [h.maxBlock] at ht
  refine ⟨(h.valid.insert hinsert).1, h.maxBlock, fun a x hx => ?_⟩
  replace hx : cache.get? a = some x := hx
  rw [h.valid.get?_insert hinsert, Function.update_apply] at hx
  split at hx
  · cases hx
    exact hT pc _ _ t ht
  · exact h.every a x hx

/-- A look for a block keeps what every block has. -/
lemma resolve (hT : T.Makes source cap P) (h : r.Holds cap P) (pc : UInt32) :
    (r.resolve T source pc).2.Holds cap P := by
  have hkeeps : Keeps T source pc (Holds cap P) fun _ => Holds cap P := {
    count := fun r cacheStats stats _ hr => hr.with_stats cacheStats stats
    flush := fun r r' hr hflush => hr.flush hflush
    publish := fun r e r' hr _ hpublish => hr.publish hT hpublish
    fail := fun r err r' hr _ hpublish => by
      obtain rfl := publish_eq_error hpublish
      exact ⟨hr.valid, hr.maxBlock, hr.every⟩ }
  exact hkeeps.resolve_snd h

/-- Every command keeps what every block has. -/
lemma perform (hT : ∀ source, T.Makes source cap P) (hidle : ∀ e idle, P e → P { e with idle })
    (h : r.Holds cap P) (cmd : Command) : (perform T r cmd).Holds cap P := by
  cases cmd with
  | resolve source pc => exact h.resolve (hT source) pc
  | invalidate start len => exact h.invalidate start len
  | refineIdle pc idle => exact h.refineIdle (fun e => hidle e idle) pc
  | flush =>
    rw [Recompiler.perform]
    split
    · rename_i r' hflush
      exact h.flush hflush
    · exact h

end Holds

/-- Whatever becomes of a recompiler, its blocks have what translations give them. -/
lemma Becomes.holds (hT : ∀ source, T.Makes source cap P) (hidle : ∀ e idle, P e → P { e with idle })
    (hr₀ : r₀.Holds cap P) (h : Becomes T r₀ r) : r.Holds cap P := by
  induction h with
  | start => exact hr₀
  | perform cmd _ ih => exact ih.perform hT hidle cmd
  | resetStats _ ih => exact ih.resetStats T

end Recompiler

namespace Machine

open Recompiler

/-- What translations of memories give their blocks, every cached block has whatever happens to the machine. -/
lemma lasting_holds (hT : ∀ memory : Memory, T.Makes memory.source cap P)
    (hidle : ∀ e, P e → P { e with idle := .none }) : Lasting T (Holds cap P) where
  resolve _ memory pc h := h.resolve (hT memory) pc
  flush _ _ h hflush := h.flush hflush
  invalidate _ start len h := h.invalidate start len
  refineIdle _ pc h := h.refineIdle hidle pc
  resetStats _ h := h.resetStats T

lemma holds_ofTranslator {δ : Type} {parts : Parts τ β δ} {settings : Settings} {bios : ByteArray} {device : δ}
    {s : τ} {m : Machine τ β δ} (h : ofTranslator parts settings bios device s = .ok m) :
    m.recompiler.Holds settings.limits.maxBlock P := by
  obtain ⟨r, hcreate, rfl⟩ := ofTranslator_eq_ok h
  exact .create hcreate

end Machine

end R3000
