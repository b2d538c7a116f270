import Mathlib
import R3000.Proofs.Cache.Contents
import R3000.Proofs.Space

/-!
# A new recompiler

A recompiler is created exactly if its stores can be had and there is space for the stubs; it is then a bare one, which
has no code but these.  All that is known of a new recompiler follows from this.
-/

namespace R3000

/-- The stores can be had, and there is space for the stubs. -/
structure Limits.Available (limits : Limits) : Prop where
  links : limits.linkCapacity * CodeStore.linkWordBytes < allocationLimit
  code : limits.native.stubs ≤ limits.codeCapacity
  slots : 1 <<< Cache.bitsFor limits.cacheSlots * Cache.slotBytes < allocationLimit
  pool : limits.poolNodes * Cache.nodeBytes < allocationLimit

lemma Limits.available_iff (limits : Limits) :
    limits.Available ↔
      limits.linkCapacity * CodeStore.linkWordBytes < allocationLimit ∧ limits.native.stubs ≤ limits.codeCapacity ∧
        1 <<< Cache.bitsFor limits.cacheSlots * Cache.slotBytes < allocationLimit ∧
          limits.poolNodes * Cache.nodeBytes < allocationLimit :=
  ⟨fun h => ⟨h.links, h.code, h.slots, h.pool⟩, fun ⟨hlinks, hcode, hslots, hpool⟩ => ⟨hlinks, hcode, hslots, hpool⟩⟩

/-- Every block within the limit on instructions has space beside the stubs, so space for code never runs out for
good. -/
def Limits.CodeFits (limits : Limits) : Prop :=
  ∀ b : Block, b.plan.length ≤ (max limits.maxBlock 1).toNat + 1 →
    limits.native.stubs + limits.native.block b ≤ limits.codeCapacity

/-- A host that runs plans as they are needs no more than the stubs. -/
lemma Limits.codeFits_of_plain {limits : Limits} (hnative : limits.native = {}) (hcode : 3 ≤ limits.codeCapacity) :
    limits.CodeFits := by
  intro b _
  rw [hnative]
  exact hcode

instance (limits : Limits) : Decidable limits.Available := decidable_of_iff _ limits.available_iff.symm

namespace Recompiler

variable {τ β : Type} {limits : Limits} {s : τ} {r : Recompiler τ β}

/-- A recompiler with no code but the stubs. -/
def bare (translator : τ) (limits : Limits) : Recompiler τ β where
  translator
  maxBlock := limits.maxBlock
  store :=
    { words := #[]
      used := limits.native.stubs
      linkCapacity := limits.linkCapacity
      codeCapacity := limits.codeCapacity
      flushMargin := limits.flushMargin
      native := limits.native
      generation := 0
      stats := { functionsDefined := 3, bytesEmitted := limits.native.stubs } }
  cache := .blank (Cache.bitsFor limits.cacheSlots) limits.poolNodes
  linker := .empty limits.patchSites
  stats := {}

lemma create_eq_bare (s : τ) (h : limits.Available) : create s limits = .ok (bare s limits : Recompiler τ β) := by
  have hstubs : ∀ store : CodeStore β, store.used = 0 → store.native = limits.native →
      store.codeCapacity = limits.codeCapacity → store.emitStubs = .ok store.withStubs := by
    intro store hused hnative hcode
    exact CodeStore.emitStubs_eq_ok_iff.mpr ⟨by rw [hused, hnative, hcode, Nat.zero_add]; exact h.code, rfl⟩
  rw [create, CodeStore.create, if_pos h.links]
  dsimp only [Except.mapError, bind, Except.bind]
  rw [hstubs _ rfl rfl rfl]
  dsimp only
  rw [Cache.create, if_pos ⟨h.slots, h.pool⟩]
  simp [bare, CodeStore.withStubs, pure, Except.pure]

/-- Each store is asked for in turn, and the first that cannot be had ends the creation. -/
lemma available_of_create (h : create s limits = .ok r) : limits.Available := by
  by_cases hlinks : limits.linkCapacity * CodeStore.linkWordBytes < allocationLimit
  case neg =>
    rw [create, CodeStore.create, if_neg hlinks] at h
    cases h
  rw [create, CodeStore.create, if_pos hlinks] at h
  dsimp only [Except.mapError, bind, Except.bind] at h
  split at h
  · cases h
  · rename_i store hmapped
    split at hmapped
    · cases hmapped
    · rename_i store' hstubs
      obtain ⟨hcode, -⟩ := CodeStore.emitStubs_eq_ok_iff.mp hstubs
      by_cases hcache : 1 <<< Cache.bitsFor limits.cacheSlots * Cache.slotBytes < allocationLimit ∧
        limits.poolNodes * Cache.nodeBytes < allocationLimit
      case neg =>
        rw [Cache.create, if_neg hcache] at h
        cases h
      exact ⟨hlinks, by simpa using hcode, hcache.1, hcache.2⟩

lemma create_eq_ok_iff : create s limits = .ok r ↔ limits.Available ∧ r = bare s limits := by
  constructor
  · intro h
    have havailable := available_of_create h
    rw [create_eq_bare s havailable] at h
    exact ⟨havailable, (Except.ok.inj h).symm⟩
  · rintro ⟨havailable, rfl⟩
    exact create_eq_bare s havailable

/-- A new recompiler has no block. -/
lemma cache_of_create (h : create s limits = .ok r) : r.cache.Valid ∧ r.cache.toList = [] := by
  obtain ⟨-, rfl⟩ := create_eq_ok_iff.mp h
  exact Cache.valid_blank (Cache.bitsFor limits.cacheSlots) limits.poolNodes

/-- A new recompiler has space for the stubs. -/
lemma fitsStubs_of_create (h : create s limits = .ok r) : r.store.FitsStubs := by
  obtain ⟨havailable, rfl⟩ := create_eq_ok_iff.mp h
  exact havailable.code

end Recompiler

end R3000
