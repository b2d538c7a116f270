import Mathlib
import R3000.Proofs.Events.Pending

/-!
# Events some cycles later

Whether an event is due, and which of those that are due fires first, depends on how the deadlines and the ages
compare.  If all deadlines and the present cycle are moved by one distance, and all ages by another, the same events
fire in the same order.
-/

namespace R3000

/-! ### Cycles -/

/-- The second cycle is a distance after the first one. -/
def Apart (c x y : UInt64) : Prop := y.toNat = x.toNat + c.toNat

namespace Apart

variable {c x x' y y' : UInt64}

lemma lt_iff (h : Apart c x x') (h' : Apart c y y') : x' < y' ↔ x < y := by
  rw [Apart] at h h'
  rw [UInt64.lt_iff_toNat_lt, UInt64.lt_iff_toNat_lt]
  omega

lemma le_iff (h : Apart c x x') (h' : Apart c y y') : x' ≤ y' ↔ x ≤ y := by
  rw [Apart] at h h'
  rw [UInt64.le_iff_toNat_le, UInt64.le_iff_toNat_le]
  omega

lemma min (h : Apart c x x') (h' : Apart c y y') : Apart c (min x y) (min x' y') := by
  rw [Apart] at h h' ⊢
  rw [UInt64.toNat_min, UInt64.toNat_min]
  omega

lemma max (h : Apart c x x') (h' : Apart c y y') : Apart c (max x y) (max x' y') := by
  rw [Apart] at h h' ⊢
  rw [UInt64.toNat_max, UInt64.toNat_max]
  omega

lemma eq_add (h : Apart c x x') : x' = x + c := by
  rw [Apart] at h
  have hlt := x'.toNat_lt
  rw [← UInt64.toNat_inj, UInt64.toNat_add, Nat.mod_eq_of_lt (h ▸ hlt), h]

lemma of_fits (hfits : x.toNat + c.toNat < 2 ^ 64) : Apart c x (x + c) := by
  rw [Apart, UInt64.toNat_add, Nat.mod_eq_of_lt hfits]

/-- Distances stay when both cycles go on by the same number, as far as a cycle can be counted. -/
lemma add (h : Apart c x x') {n : UInt64} (hfits : (x + n).toNat + c.toNat < 2 ^ 64) :
    Apart c (x + n) (x' + n) := by
  rw [h.eq_add, show x + c + n = x + n + c by grind]
  exact of_fits hfits

/-- So they do if there is room for the sum. -/
lemma add_of_fits (h : Apart c x x') {n : UInt64} (hfits : x.toNat + n.toNat + c.toNat < 2 ^ 64) :
    Apart c (x + n) (x' + n) := by
  apply h.add
  rw [UInt64.toNat_add]
  exact (Nat.add_le_add_right (Nat.mod_le ..) _).trans_lt hfits

lemma sub_eq (h : Apart c x x') (h' : Apart c y y') : y' - x' = y - x := by
  rw [h.eq_add, h'.eq_add]
  grind

end Apart

/-- The second event is due a distance after the first one, and of a number of events more; its callback is the same
one. -/
structure Pending.Later (c : UInt64) (age : Nat) (p p' : Pending) : Prop where
  deadline : Apart c p.deadline p'.deadline
  age : p'.age = p.age + age
  callback : p'.callback = p.callback

lemma Pending.Later.before_eq {c : UInt64} {age : Nat} {p p' q q' : Pending} (h : Pending.Later c age p p')
    (h' : Pending.Later c age q q') : p'.before q' = p.before q := by
  rw [Bool.eq_iff_iff, before_iff, before_iff]
  have hp := h.deadline
  have hq := h'.deadline
  rw [Apart] at hp hq
  rw [hp, hq, h.age, h'.age]
  omega

namespace Schedule

variable {c now now' d d' : UInt64} {age mark : Nat} {s s' : Schedule}

/-- The second schedule has the events of the first one, each due a distance later, in the same order. -/
structure Later (c : UInt64) (age : Nat) (s s' : Schedule) : Prop where
  tidy : s.Tidy
  tidy' : s'.Tidy
  nextAge : s'.nextAge = s.nextAge + age
  events : ∀ k, Option.Rel (Pending.Later c age) (s.get? k) (s'.get? k)

/-- Looking at the slots only if the soonest deadline has come changes nothing. -/
lemma Tidy.due_eq (h : s.Tidy) (now : UInt64) (mark : Nat) :
    s.due now mark = EventKind.all.foldl (s.pick now mark) none := by
  rw [Schedule.due_eq]
  split
  · rename_i hsooner
    cases hfold : EventKind.all.foldl (s.pick now mark) none with
    | none => rfl
    | some x =>
      exfalso
      rcases ((s.foldl_pick now mark EventKind.all none).1 x.1 x.2 hfold).chosen with hnone | hdue
      · cases hnone
      · have hsoonest := h.soonest_le hdue.1
        exact UInt64.not_le.mpr hsooner (UInt64.le_trans hsoonest hdue.2.1)
  · rfl

/-- Some event has the soonest deadline, if there is one at all. -/
lemma Tidy.exists_soonest (h : s.Tidy) {k : EventKind} {p : Pending} (hp : s.get? k = some p) :
    ∃ j q, s.get? j = some q ∧ q.deadline = s.soonest := by
  by_contra hnone
  push Not at hnone
  -- otherwise every deadline is later than the soonest one
  have hnext : (s.soonest + 1).toNat = s.soonest.toNat + 1 := by
    have hlt := UInt64.lt_iff_toNat_lt.mp (UInt64.lt_of_le_of_ne (h.soonest_le hp) (hnone k p hp).symm)
    have hbound := p.deadline.toNat_lt
    rw [UInt64.toNat_add]
    exact Nat.mod_eq_of_lt (by change s.soonest.toNat + 1 < _; omega)
  have hle : s.soonest + 1 ≤ s.soonest := h.le_soonest.mpr fun j q hq => by
    have hlt := UInt64.lt_iff_toNat_lt.mp (UInt64.lt_of_le_of_ne (h.soonest_le hq) (hnone j q hq).symm)
    rw [UInt64.le_iff_toNat_le, hnext]
    exact hlt
  rw [UInt64.le_iff_toNat_le, hnext] at hle
  omega

namespace Later

lemma exists_later (h : s.Later c age s') {k : EventKind} {p : Pending} (hp : s.get? k = some p) :
    ∃ p', s'.get? k = some p' ∧ Pending.Later c age p p' := by
  have hevents := h.events k
  rw [hp] at hevents
  generalize s'.get? k = x at hevents
  cases hevents with
  | some hlater => exact ⟨_, rfl, hlater⟩

lemma exists_sooner (h : s.Later c age s') {k : EventKind} {p' : Pending} (hp' : s'.get? k = some p') :
    ∃ p, s.get? k = some p ∧ Pending.Later c age p p' := by
  have hevents := h.events k
  rw [hp'] at hevents
  generalize s.get? k = x at hevents
  cases hevents with
  | some hlater => exact ⟨_, rfl, hlater⟩

lemma add (h : s.Later c age s') (k : EventKind) (callback : Callback) (hd : Apart c d d') :
    (s.add k d callback).Later c age (s'.add k d' callback) where
  tidy := h.tidy.add k d callback
  tidy' := h.tidy'.add k d' callback
  nextAge := by
    rw [nextAge_add, nextAge_add, h.nextAge]
    omega
  events j := by
    rw [get?_add, get?_add]
    split
    · exact .some ⟨hd, h.nextAge, rfl⟩
    · exact h.events j

lemma erase (h : s.Later c age s') (k : EventKind) : (s.erase k).Later c age (s'.erase k) where
  tidy := h.tidy.erase k
  tidy' := h.tidy'.erase k
  nextAge := by rw [nextAge_erase, nextAge_erase, h.nextAge]
  events j := by
    rw [get?_erase, get?_erase]
    split
    · exact .none
    · exact h.events j

/-- Cleared schedules differ in the ages of the events to come. -/
lemma clear (c : UInt64) (hage : s.nextAge ≤ s'.nextAge) : s.clear.Later c (s'.nextAge - s.nextAge) s'.clear where
  tidy := .clear s
  tidy' := .clear s'
  nextAge := (Nat.add_sub_cancel' hage).symm
  events k := by
    rw [get?_clear, get?_clear]
    exact .none

lemma soonest (h : s.Later c age s') {k : EventKind} {p : Pending} (hp : s.get? k = some p) :
    Apart c s.soonest s'.soonest := by
  obtain ⟨j, q, hq, hsoonest⟩ := h.tidy.exists_soonest hp
  obtain ⟨q', hq', hq⟩ := h.exists_later hq
  obtain ⟨i, r', hr', hsoonest'⟩ := h.tidy'.exists_soonest hq'
  obtain ⟨r, hr, hr'⟩ := h.exists_sooner hr'
  have hle := UInt64.le_iff_toNat_le.mp (h.tidy.soonest_le hr)
  have hle' := UInt64.le_iff_toNat_le.mp (h.tidy'.soonest_le hq')
  have hqdeadline := hq.deadline
  have hrdeadline := hr'.deadline
  rw [Apart, hsoonest] at hqdeadline
  rw [Apart, hsoonest'] at hrdeadline
  rw [Apart]
  omega

/-- The same event fires first of those that are due. -/
theorem due_eq (h : s.Later c age s') (hnow : Apart c now now') (mark : Nat) :
    Option.Rel (fun x y => y.1 = x.1 ∧ Pending.Later c age x.2 y.2) (s.due now mark) (s'.due now' (mark + age)) := by
  let R (best best' : Option (EventKind × Pending)) : Prop :=
    Option.Rel (fun x y => y.1 = x.1 ∧ Pending.Later c age x.2 y.2) best best'
  have hpick : ∀ k best best', R best best' → R (s.pick now mark best k) (s'.pick now' (mark + age) best' k) := by
    intro k best best' hbest
    have hevents := h.events k
    rw [pick, pick]
    generalize s.get? k = x, s'.get? k = x' at hevents
    cases hevents with
    | none => exact hbest
    | @some p p' hp =>
      have hdue : p'.deadline ≤ now' ∧ p'.age < mark + age ↔ p.deadline ≤ now ∧ p.age < mark := by
        rw [hp.deadline.le_iff hnow, hp.age, Nat.add_lt_add_iff_right]
      dsimp only
      simp only [hdue]
      split
      · cases hbest with
        | none => exact .some ⟨rfl, hp⟩
        | @some b b' hb =>
          dsimp only
          rw [hp.before_eq hb.2]
          split
          · exact .some ⟨rfl, hp⟩
          · exact .some hb
      · exact hbest
  have hfold : R (EventKind.all.foldl (s.pick now mark) none) (EventKind.all.foldl (s'.pick now' (mark + age)) none) :=
    List.foldl_rel (r := R) .none fun k _ best best' => hpick k best best'
  rw [h.tidy.due_eq, h.tidy'.due_eq]
  exact hfold

end Later

end Schedule

end R3000
