import Mathlib
import R3000.Proofs.Resolving

/-!
# Translators that keep notes

A translator may note what it is asked for beside the state that it works with.  Every operation of a
recompiler commutes with forgetting such notes, so what is noted says something about the recompiler that
keeps none.
-/

namespace R3000

variable {σ τ β : Type} {f : σ → τ} {T' : Translator σ β} {T : Translator τ β}

/-- What a translation leaves, with another view of the translator's state. -/
def Translated.mapState (f : σ → τ) (t : Translated σ β) : Translated τ β where
  result := t.result
  state := f t.state
  store := t.store

/-- A translator that does what another does, and keeps notes in its state that `f` forgets. -/
structure Translator.Notes (f : σ → τ) (T' : Translator σ β) (T : Translator τ β) : Prop where
  translate : ∀ source pc cap s store,
    T.translate source pc cap (f s) store = (T'.translate source pc cap s store).mapState f
  resetStats : ∀ s, T.resetStats (f s) = f (T'.resetStats s)

namespace Recompiler

/-- A recompiler with another view of its translator's state. -/
def mapState (f : σ → τ) (r : Recompiler σ β) : Recompiler τ β := { r with translator := f r.translator }

/-- An answer, with another view of the translator's state in the recompiler that it leaves. -/
def mapAnswer {α : Type} (f : σ → τ) (a : α × Recompiler σ β) : α × Recompiler τ β := (a.1, a.2.mapState f)

variable (source : Source) (pc : UInt32) (r : Recompiler σ β)

lemma flush_mapState (f : σ → τ) : (r.mapState f).flush = r.flush.map (mapState f) := by
  dsimp only [flush, mapState]
  cases r.store.reset.emitStubs <;> rfl

lemma invalidate_mapState (f : σ → τ) (start len : UInt32) :
    (r.mapState f).invalidate start len = mapAnswer f (r.invalidate start len) := by
  rw [invalidate, invalidate]
  split
  · rfl
  · dsimp only [mapState]
    split <;> rfl

lemma flushThen_mapState {α : Type} {go : Recompiler τ β → Except RecompileError α × Recompiler τ β}
    {go' : Recompiler σ β → Except RecompileError α × Recompiler σ β}
    (hgo : ∀ r, go (r.mapState f) = mapAnswer f (go' r)) :
    (r.mapState f).flushThen go = mapAnswer f (r.flushThen go') := by
  rw [flushThen, flushThen, flush_mapState]
  cases r.flush with
  | error e => rfl
  | ok r => exact hgo r

section Notes

variable (h : Translator.Notes f T' T)

include h

lemma resetStats_mapState : (r.mapState f).resetStats T = (r.resetStats T').mapState f := by
  simp only [resetStats, mapState, h.resetStats]

lemma publish_mapState : (r.mapState f).publish T source pc = mapAnswer f (r.publish T' source pc) := by
  dsimp only [publish, mapState]
  rw [h.translate]
  dsimp only [Translated.mapState]
  split
  · rfl
  · split <;> rfl

lemma publishLast_mapState :
    (r.mapState f).publishLast T source pc = mapAnswer f (r.publishLast T' source pc) := by
  rw [publishLast, publishLast, publish_mapState _ _ _ h]
  obtain ⟨(e | e) | e, r'⟩ := r.publish T' source pc
  · dsimp only [mapAnswer]
    split <;> rfl
  · rfl
  · rfl

lemma publishOrFlush_mapState :
    (r.mapState f).publishOrFlush T source pc = mapAnswer f (r.publishOrFlush T' source pc) := by
  have hlast := fun r => publishLast_mapState source pc r h
  rw [publishOrFlush, publishOrFlush, publish_mapState _ _ _ h]
  obtain ⟨(e | e) | e, r'⟩ := r.publish T' source pc
  · dsimp only [mapAnswer]
    split
    · rfl
    · exact flushThen_mapState r' hlast
  · exact flushThen_mapState r' hlast
  · rfl

/-- Resolving an address commutes with forgetting notes. -/
lemma resolve_mapState : (r.mapState f).resolve T source pc = mapAnswer f (r.resolve T' source pc) := by
  have hpublish := fun r => publishOrFlush_mapState source pc r h
  dsimp only [resolve, mapState]
  obtain ⟨found, cache⟩ := r.cache.getCounted pc
  cases found with
  | some e => rfl
  | none =>
    dsimp only
    split
    · exact flushThen_mapState { r with cache } hpublish
    · exact hpublish { r with cache }

end Notes

end Recompiler

end R3000
