import Mathlib
import R3000.Recompiler

/-!
# Space for code

The stubs of a generation fit as a whole or not at all, and what they leave of a store is known.  The space in use
never passes the capacity, so the next flush comes when it is within the margin of it.
-/

namespace R3000.CodeStore

variable {β : Type} {s s' : CodeStore β} {bytes : Nat}

lemma define_eq_ok_iff : s.define bytes = .ok s' ↔ s.used + bytes ≤ s.codeCapacity ∧
    s' = { s with
      used := s.used + bytes
      stats.functionsDefined := s.stats.functionsDefined + 1
      stats.bytesEmitted := s.stats.bytesEmitted + bytes } := by
  rw [define]
  split
  · rename_i hfits
    simp [hfits, eq_comm]
  · rename_i hfull
    simp [hfull]

/-- The stubs alone fit into the space for code. -/
def FitsStubs (s : CodeStore β) : Prop := s.native.stubs ≤ s.codeCapacity

/-- The store with its stubs. -/
def withStubs (s : CodeStore β) : CodeStore β :=
  { s with
    used := s.used + s.native.stubs
    stats.functionsDefined := s.stats.functionsDefined + 3
    stats.bytesEmitted := s.stats.bytesEmitted + s.native.stubs }

/-- The stubs can be had exactly if there is space for all of them. -/
lemma emitStubs_eq_ok_iff : s.emitStubs = .ok s' ↔ s.used + s.native.stubs ≤ s.codeCapacity ∧ s' = s.withStubs := by
  have hstubs : s.native.stubs = s.native.slowPath + s.native.exit + s.native.bridge := rfl
  constructor
  · intro h
    rw [emitStubs] at h
    cases hslow : s.define s.native.slowPath with
    | error e => rw [hslow] at h; cases h
    | ok s₁ =>
      rw [hslow] at h
      obtain ⟨-, rfl⟩ := define_eq_ok_iff.mp hslow
      change (define _ s.native.exit >>= fun s => s.define s.native.bridge) = _ at h
      cases hexit : define _ s.native.exit with
      | error e => rw [hexit] at h; cases h
      | ok s₂ =>
        rw [hexit] at h
        obtain ⟨-, rfl⟩ := define_eq_ok_iff.mp hexit
        obtain ⟨hfits, rfl⟩ := define_eq_ok_iff.mp h
        dsimp only at hfits
        exact ⟨by omega, by simp [withStubs, hstubs, Nat.add_assoc]⟩
  · rintro ⟨hfits, rfl⟩
    rw [emitStubs, define_eq_ok_iff.mpr ⟨by omega, rfl⟩]
    change (define _ s.native.exit >>= fun s => s.define s.native.bridge) = _
    rw [define_eq_ok_iff.mpr ⟨by dsimp only; omega, rfl⟩]
    refine define_eq_ok_iff.mpr ⟨by dsimp only; omega, ?_⟩
    simp [withStubs, hstubs, Nat.add_assoc]

end R3000.CodeStore
