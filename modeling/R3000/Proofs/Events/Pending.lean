import Mathlib
import R3000.Schedule

/-!
# Pending events

A schedule made by adding and dropping events is tidy: it knows its soonest deadline, and the next event
will be younger than every pending one.  Firing takes the events that were due before it began, one of each
kind at most, whatever the callbacks add.
-/

namespace R3000

namespace EventKind

lemma exists_index (i : Fin 9) : ∃ k : EventKind, k.index = i := by
  have hall : ∀ i : Fin 9, ∃ k ∈ all, k.index = i := by decide
  obtain ⟨k, -, hk⟩ := hall i
  exact ⟨k, hk⟩

end EventKind

namespace Pending

variable {p q r : Pending}

lemma before_iff :
    p.before q = true ↔ p.deadline.toNat < q.deadline.toNat ∨
      p.deadline.toNat = q.deadline.toNat ∧ p.age < q.age := by
  simp [before, UInt64.lt_iff_toNat_lt, ← UInt64.toNat_inj]

lemma before_trans (h : p.before q = true) (h' : q.before r = true) : p.before r = true := by
  rw [before_iff] at h h' ⊢
  omega

/-- Events of different ages are in order. -/
lemma before_of_not (h : ¬ q.before p = true) (hage : p.age ≠ q.age) : p.before q = true := by
  rw [before_iff] at h ⊢
  omega

end Pending

namespace Schedule

variable {s s' s'' : Schedule} {j k : EventKind} {p q : Pending} {now : UInt64} {mark : Nat}

/-! ### Slots -/

lemma get_fill (slots : Vector (Option Pending) 9) (x : Option Pending) :
    (fill slots k x).get j.index = if j = k then x else slots.get j.index := by
  rw [fill, Vector.get_eq_getElem, Vector.get_eq_getElem, Vector.getElem_set]
  by_cases h : j = k
  · simp [h]
  · have hne : (k.index : Nat) ≠ j.index := by
      intro heq
      exact h (EventKind.index_inj.mp (Fin.ext heq)).symm
    simp [h, hne]

@[simp] lemma get?_add (s : Schedule) (k j : EventKind) (deadline : UInt64) (c : Callback) :
    (s.add k deadline c).get? j = if j = k then some ⟨deadline, s.nextAge, c⟩ else s.get? j :=
  get_fill ..

@[simp] lemma get?_erase (s : Schedule) (k j : EventKind) :
    (s.erase k).get? j = if j = k then none else s.get? j := by
  rw [erase]
  split
  · exact get_fill ..
  · rename_i hnone
    by_cases h : j = k
    · simpa [h] using hnone
    · simp [h]

@[simp] lemma get?_clear (s : Schedule) (k : EventKind) : s.clear.get? k = none := by
  simp [get?, clear]

@[simp] lemma nextAge_add (s : Schedule) (k : EventKind) (deadline : UInt64) (c : Callback) :
    (s.add k deadline c).nextAge = s.nextAge + 1 := rfl

@[simp] lemma nextAge_erase (s : Schedule) (k : EventKind) : (s.erase k).nextAge = s.nextAge := by
  rw [erase]
  split <;> rfl

/-! ### The soonest deadline -/

lemma le_never (d : UInt64) : d ≤ never := UInt64.le_iff_toNat_le.mpr (Nat.le_of_lt_succ d.toNat_lt)

lemma le_foldl_min (l : List (Option Pending)) (d a : UInt64) :
    d ≤ l.foldl (fun d p => p.elim d fun p => min d p.deadline) a ↔
      d ≤ a ∧ ∀ p, some p ∈ l → d ≤ p.deadline := by
  induction l generalizing a with
  | nil => simp
  | cons x l ih =>
    rw [List.foldl_cons, ih]
    cases x with
    | none => simp
    | some p => simp [Std.le_min_iff, and_assoc]

lemma le_least {slots : Vector (Option Pending) 9} {d : UInt64} :
    d ≤ least slots ↔ ∀ (k : EventKind) p, slots.get k.index = some p → d ≤ p.deadline := by
  rw [least, ← Vector.foldl_toList, le_foldl_min]
  simp only [le_never d, true_and]
  constructor
  · intro h k p hp
    apply h p
    rw [← hp]
    simp [Vector.get_eq_getElem]
  · intro h p hp
    obtain ⟨i, hi, hslot⟩ := List.mem_iff_getElem.mp hp
    obtain ⟨k, hk⟩ := EventKind.exists_index ⟨i, by simpa using hi⟩
    apply h k
    rw [← hslot, hk]
    simp [Vector.get_eq_getElem]

/-- The soonest deadline is known, and ages grow. -/
structure Tidy (s : Schedule) : Prop where
  soonest : s.soonest = least s.slots
  age : ∀ k p, s.get? k = some p → p.age < s.nextAge

namespace Tidy

lemma le_soonest (h : s.Tidy) {d : UInt64} :
    d ≤ s.soonest ↔ ∀ k p, s.get? k = some p → d ≤ p.deadline := by
  rw [h.soonest]
  exact le_least

lemma soonest_le (h : s.Tidy) (hp : s.get? k = some p) : s.soonest ≤ p.deadline :=
  h.le_soonest.mp (UInt64.le_refl _) k p hp

lemma clear (s : Schedule) : s.clear.Tidy where
  soonest := by
    have hleast : never ≤ least s.clear.slots := le_least.mpr fun k p hp => by
      rw [show s.clear.slots.get k.index = s.clear.get? k from rfl, get?_clear] at hp
      cases hp
    exact UInt64.le_antisymm hleast (le_never _)
  age k p hp := by simp at hp

lemma add (h : s.Tidy) (k : EventKind) (deadline : UInt64) (c : Callback) : (s.add k deadline c).Tidy where
  soonest := by
    dsimp only [Schedule.add]
    split
    · rename_i hle
      -- the new event is the soonest, and no other one is sooner
      apply UInt64.le_antisymm
      · apply le_least.mpr
        intro j p hp
        rw [get_fill] at hp
        split at hp
        · cases hp
          exact UInt64.le_refl _
        · exact UInt64.le_trans hle (h.soonest_le hp)
      · apply le_least.mp (UInt64.le_refl _) k ⟨deadline, s.nextAge, c⟩
        rw [get_fill, if_pos rfl]
    · rfl
  age j p hp := by
    rw [get?_add] at hp
    rw [nextAge_add]
    split at hp
    · cases hp
      exact Nat.lt_succ_self _
    · exact Nat.lt_succ_of_lt (h.age j p hp)

lemma erase (h : s.Tidy) (k : EventKind) : (s.erase k).Tidy where
  soonest := by
    rw [Schedule.erase]
    split
    · rfl
    · exact h.soonest
  age j p hp := by
    rw [get?_erase] at hp
    rw [nextAge_erase]
    split at hp
    · cases hp
    · exact h.age j p hp

end Tidy

/-! ### What is due -/

/-- The first event to fire among the due ones seen so far, after another kind was looked at. -/
def pick (s : Schedule) (now : UInt64) (mark : Nat) (best : Option (EventKind × Pending))
    (k : EventKind) : Option (EventKind × Pending) :=
  match s.get? k with
  | none => best
  | some p =>
    if p.deadline ≤ now ∧ p.age < mark then
      match best with
      | none => some (k, p)
      | some (_, q) => if p.before q then some (k, p) else best
    else best

lemma due_eq (s : Schedule) (now : UInt64) (mark : Nat) :
    s.due now mark = if now < s.soonest then none else EventKind.all.foldl (s.pick now mark) none := rfl

/-- An event of the kind is due and older than a mark. -/
def IsDue (s : Schedule) (now : UInt64) (mark : Nat) (k : EventKind) (p : Pending) : Prop :=
  s.get? k = some p ∧ p.deadline ≤ now ∧ p.age < mark

lemma pick_cases (s : Schedule) (now : UInt64) (mark : Nat) (best : Option (EventKind × Pending))
    (k : EventKind) :
    (s.pick now mark best k = best ∧
        ∀ p, s.IsDue now mark k p → ∃ b, best = some b ∧ ¬ p.before b.2 = true) ∨
      ∃ p, s.pick now mark best k = some (k, p) ∧ s.IsDue now mark k p ∧
        ∀ b, best = some b → p.before b.2 = true := by
  rw [pick]
  split
  · rename_i hnone
    refine .inl ⟨rfl, fun p hp => ?_⟩
    rw [hp.1] at hnone
    cases hnone
  · rename_i p hp
    split
    · rename_i hdue
      split
      · exact .inr ⟨p, rfl, ⟨hp, hdue⟩, fun b hb => by cases hb⟩
      · split
        · rename_i hbefore
          refine .inr ⟨p, rfl, ⟨hp, hdue⟩, fun b hb => ?_⟩
          cases hb
          exact hbefore
        · rename_i hnot
          refine .inl ⟨rfl, fun q hq => ⟨_, rfl, ?_⟩⟩
          cases hp.symm.trans hq.1
          exact hnot
    · rename_i hnot
      refine .inl ⟨rfl, fun q hq => absurd ?_ hnot⟩
      cases hp.symm.trans hq.1
      exact hq.2

/-- The event is the first of the due ones seen so far and of those of some other kinds. -/
structure Least (s : Schedule) (now : UInt64) (mark : Nat) (kinds : List EventKind)
    (best : Option (EventKind × Pending)) (k : EventKind) (p : Pending) : Prop where
  chosen : best = some (k, p) ∨ s.IsDue now mark k p
  seen : ∀ b, best = some b → ¬ b.2.before p = true
  least : ∀ j ∈ kinds, ∀ q, s.IsDue now mark j q → ¬ q.before p = true

lemma foldl_pick (s : Schedule) (now : UInt64) (mark : Nat) (kinds : List EventKind)
    (best : Option (EventKind × Pending)) :
    (∀ k p, kinds.foldl (s.pick now mark) best = some (k, p) → s.Least now mark kinds best k p) ∧
      (kinds.foldl (s.pick now mark) best = none →
        best = none ∧ ∀ k ∈ kinds, ∀ p, ¬ s.IsDue now mark k p) := by
  induction kinds generalizing best with
  | nil =>
    refine ⟨fun k p h => ⟨.inl h, fun b hb => ?_, by simp⟩, fun h => ⟨h, by simp⟩⟩
    cases hb.symm.trans h
    simp [Pending.before_iff]
  | cons j kinds ih =>
    obtain ⟨hsome, hnone⟩ := ih (s.pick now mark best j)
    rw [List.foldl_cons]
    rcases s.pick_cases now mark best j with ⟨hkept, hbeaten⟩ | ⟨q, hpicked, hdue, hbeats⟩
    · rw [hkept] at hsome hnone ⊢
      refine ⟨fun k p h => ?_, fun h => ?_⟩
      · obtain ⟨hchosen, hseen, hleast⟩ := hsome k p h
        refine ⟨hchosen, hseen, fun i hi q hq => ?_⟩
        rcases List.mem_cons.mp hi with rfl | hi
        · -- the kind that was looked at does not fire before the best one, and that not before the last
          obtain ⟨b, hb, hnot⟩ := hbeaten q hq
          have hlast := hseen b hb
          rw [Pending.before_iff] at hnot hlast ⊢
          omega
        · exact hleast i hi q hq
      · obtain ⟨hbest, hrest⟩ := hnone h
        refine ⟨hbest, fun k hk p hp => ?_⟩
        rcases List.mem_cons.mp hk with rfl | hk
        · obtain ⟨b, hb, -⟩ := hbeaten p hp
          cases hbest.symm.trans hb
        · exact hrest k hk p hp
    · rw [hpicked] at hsome hnone ⊢
      refine ⟨fun k p h => ?_, fun h => ?_⟩
      · obtain ⟨hchosen, hseen, hleast⟩ := hsome k p h
        have hq := hseen _ rfl
        refine ⟨?_, fun b hb hbefore => hq ?_, fun i hi r hr => ?_⟩
        · rcases hchosen with heq | hdue'
          · cases heq
            exact .inr hdue
          · exact .inr hdue'
        · exact Pending.before_trans (hbeats b hb) hbefore
        · rcases List.mem_cons.mp hi with rfl | hi
          · cases hr.1.symm.trans hdue.1
            exact hq
          · exact hleast i hi r hr
      · cases (hnone h).1

/-- What is due fires first of all that is due. -/
lemma due_eq_some (h : s.due now mark = some (k, p)) :
    s.IsDue now mark k p ∧ ∀ j q, s.IsDue now mark j q → ¬ q.before p = true := by
  rw [due_eq] at h
  split at h
  · cases h
  · obtain ⟨hchosen, -, hleast⟩ := (s.foldl_pick now mark EventKind.all none).1 k p h
    rcases hchosen with hnone | hdue
    · cases hnone
    · exact ⟨hdue, fun j q hq => hleast j j.mem_all q hq⟩

/-- The soonest deadline cuts the search off only if nothing is due. -/
lemma due_eq_none (hs : s.Tidy) (h : s.due now mark = none) (k : EventKind) (p : Pending) :
    ¬ s.IsDue now mark k p := by
  rw [due_eq] at h
  split at h
  · rename_i hsooner
    intro hp
    exact UInt64.not_le.mpr hsooner (UInt64.le_trans (hs.soonest_le hp.1) hp.2.1)
  · exact ((s.foldl_pick now mark EventKind.all none).2 h).2 k k.mem_all p

/-! ### Changes made by a callback -/

/-- Events were added and dropped: those older than the change were there before it. -/
structure Follows (s s' : Schedule) : Prop where
  tidy : s.Tidy → s'.Tidy
  nextAge : s.nextAge ≤ s'.nextAge
  old : ∀ k p, s'.get? k = some p → p.age < s.nextAge → s.get? k = some p

namespace Follows

lemma refl (s : Schedule) : s.Follows s := ⟨id, le_rfl, fun _ _ hp _ => hp⟩

lemma trans (h : s.Follows s') (h' : s'.Follows s'') : s.Follows s'' where
  tidy hs := h'.tidy (h.tidy hs)
  nextAge := h.nextAge.trans h'.nextAge
  old k p hp hage := h.old k p (h'.old k p hp (hage.trans_le h.nextAge)) hage

lemma congr (h : s.Follows s') (heq : s'' = s') : s.Follows s'' := heq ▸ h

lemma add (s : Schedule) (k : EventKind) (deadline : UInt64) (c : Callback) : s.Follows (s.add k deadline c) where
  tidy hs := hs.add k deadline c
  nextAge := Nat.le_succ _
  old j p hp hage := by
    rw [get?_add] at hp
    split at hp
    · cases hp
      exact absurd hage (lt_irrefl _)
    · exact hp

lemma erase (s : Schedule) (k : EventKind) : s.Follows (s.erase k) where
  tidy hs := hs.erase k
  nextAge := (nextAge_erase s k).ge
  old j p hp _ := by
    rw [get?_erase] at hp
    split at hp
    · cases hp
    · exact hp

lemma clear (s : Schedule) : s.Follows s.clear where
  tidy _ := .clear s
  nextAge := le_rfl
  old j p hp _ := by simp at hp

end Follows

/-! ### Firing -/

/-- Whether an event of the kind is pending that is older than a mark. -/
def hasOld (s : Schedule) (mark : Nat) (k : EventKind) : Bool := (s.get? k).any fun p => p.age < mark

lemma hasOld_iff : s.hasOld mark k = true ↔ ∃ p, s.get? k = some p ∧ p.age < mark := by
  simp [hasOld, Option.any_eq_true]

/-- The number of events older than a mark. -/
def old (s : Schedule) (mark : Nat) : Nat := EventKind.all.countP (s.hasOld mark)

lemma old_le (h : s.Follows s') (hmark : mark ≤ s.nextAge) : s'.old mark ≤ s.old mark := by
  apply List.countP_mono_left
  intro k _ hk
  obtain ⟨p, hp, hage⟩ := hasOld_iff.mp hk
  exact hasOld_iff.mpr ⟨p, h.old k p hp (hage.trans_le hmark), hage⟩

lemma old_erase_lt (hp : s.get? k = some p) (hage : p.age < mark) : (s.erase k).old mark < s.old mark := by
  have hle : ∀ l : List EventKind, l.countP ((s.erase k).hasOld mark) ≤ l.countP (s.hasOld mark) := by
    intro l
    apply List.countP_mono_left
    intro j _ hj
    simp only [hasOld, get?_erase] at hj ⊢
    split at hj
    · cases hj
    · exact hj
  obtain ⟨l, l', hall⟩ := List.append_of_mem k.mem_all
  have hbefore : s.hasOld mark k = true := by simp [hasOld, hp, hage]
  have hafter : (s.erase k).hasOld mark k = false := by simp [hasOld]
  have hl := hle l
  have hl' := hle l'
  simp only [old, hall, List.countP_append, List.countP_cons, hbefore, hafter]
  simp only [if_true, Bool.false_eq_true, if_false]
  omega

section Fire

variable {σ : Type} {get : σ → Schedule} {put : Schedule → σ → σ} {call : Callback → EventKind → σ → σ}

/-- The kinds that fire, in order. -/
def firedBefore (get : σ → Schedule) (put : Schedule → σ → σ) (call : Callback → EventKind → σ → σ)
    (now : UInt64) (mark : Nat) : (fuel : Nat) → σ → List EventKind
  | 0, _ => []
  | fuel + 1, x =>
    match (get x).due now mark with
    | none => []
    | some (k, p) => k :: firedBefore get put call now mark fuel (call p.callback k (put ((get x).erase k) x))

/-- The kinds that fire at a cycle, in order. -/
def fired (get : σ → Schedule) (put : Schedule → σ → σ) (call : Callback → EventKind → σ → σ)
    (now : UInt64) (x : σ) : List EventKind :=
  firedBefore get put call now (get x).nextAge EventKind.all.length x

/-- As many kinds fire as are counted. -/
theorem length_fired (x : σ) :
    (fired get put call now x).length = (dispatch get put call now x).1 := by
  have hlength : ∀ mark fuel (x : σ), (firedBefore get put call now mark fuel x).length =
      (fireBefore get put call now mark fuel x).1 := by
    intro mark fuel
    induction fuel with
    | zero => exact fun x => rfl
    | succ fuel ih =>
      intro x
      rw [firedBefore, fireBefore]
      cases (get x).due now mark with
      | none => rfl
      | some k => exact congrArg (· + 1) (ih _)
  exact hlength ..

/-- Firing adds and drops events. -/
lemma follows_dispatch (hput : ∀ s x, get (put s x) = s)
    (hcall : ∀ c k x, (get x).Follows (get (call c k x))) (x : σ) :
    (get x).Follows (get (dispatch get put call now x).2) := by
  have hfire : ∀ mark fuel (x : σ), (get x).Follows (get (fireBefore get put call now mark fuel x).2) := by
    intro mark fuel
    induction fuel with
    | zero => exact fun x => .refl _
    | succ fuel ih =>
      intro x
      rw [fireBefore]
      cases (get x).due now mark with
      | none => exact .refl _
      | some due =>
        obtain ⟨k, p⟩ := due
        have hfollows := hcall p.callback k (put ((get x).erase k) x)
        rw [hput] at hfollows
        exact (Follows.erase _ k).trans (hfollows.trans (ih _))
  exact hfire ..

/-- After firing nothing older than the mark is due, if there was fuel for all that was older. -/
lemma due_fireBefore (hput : ∀ s x, get (put s x) = s) (hcall : ∀ c k x, (get x).Follows (get (call c k x)))
    (fuel : Nat) {x : σ} (hmark : mark ≤ (get x).nextAge) (hfuel : (get x).old mark ≤ fuel) :
    (get (fireBefore get put call now mark fuel x).2).due now mark = none := by
  induction fuel generalizing x with
  | zero =>
    rw [fireBefore]
    cases hdue : (get x).due now mark with
    | none => rfl
    | some due =>
      obtain ⟨k, p⟩ := due
      obtain ⟨⟨hp, -, hage⟩, -⟩ := due_eq_some hdue
      have hlt := old_erase_lt hp hage
      omega
  | succ fuel ih =>
    rw [fireBefore]
    cases hdue : (get x).due now mark with
    | none => exact hdue
    | some due =>
      obtain ⟨k, p⟩ := due
      obtain ⟨⟨hp, -, hage⟩, -⟩ := due_eq_some hdue
      have hfollows := hcall p.callback k (put ((get x).erase k) x)
      rw [hput] at hfollows
      have hmark' : mark ≤ ((get x).erase k).nextAge := by
        rw [nextAge_erase]
        exact hmark
      apply ih
      · exact hmark'.trans hfollows.nextAge
      · have hlt := old_erase_lt hp hage
        have hle := old_le hfollows hmark'
        omega

/-- After firing nothing is due that was pending before. -/
theorem due_dispatch (hput : ∀ s x, get (put s x) = s)
    (hcall : ∀ c k x, (get x).Follows (get (call c k x))) (x : σ) :
    (get (dispatch get put call now x).2).due now (get x).nextAge = none :=
  due_fireBefore hput hcall _ le_rfl List.countP_le_length

/-- What firing one pending event keeps, a dispatch keeps. -/
lemma dispatch_induct {I : σ → Prop}
    (hfire : ∀ k p x, (get x).get? k = some p → I x → I (call p.callback k (put ((get x).erase k) x)))
    {x : σ} (h : I x) : I (dispatch get put call now x).2 := by
  have hfuel : ∀ mark fuel (x : σ), I x → I (fireBefore get put call now mark fuel x).2 := by
    intro mark fuel
    induction fuel with
    | zero => exact fun _ hx => hx
    | succ fuel ih =>
      intro x hx
      rw [fireBefore]
      split
      · exact hx
      · rename_i k p hdue
        obtain ⟨⟨hp, -⟩, -⟩ := due_eq_some hdue
        exact ih _ (hfire k p x hp hx)
  exact hfuel _ _ x h

/-- What every change of the schedule and every callback keep, a dispatch keeps. -/
lemma dispatch_keeps {I : σ → Prop} (hput : ∀ s x, I x → I (put s x))
    (hcall : ∀ c k x, I x → I (call c k x)) {x : σ} (h : I x) :
    I (dispatch get put call now x).2 :=
  dispatch_induct (fun k p x _ hx => hcall p.callback k _ (hput _ x hx)) h

end Fire

/-! ### Firing in two states -/

/-- Firing what is due in two states keeps a relation between them, if events of the same kind and with the same
callback are due in related states and firing one of them keeps the relation. -/
lemma fireBefore_rel {σ : Type} {R : σ → σ → Prop} {get : σ → Schedule} {put : Schedule → σ → σ}
    {call call' : Callback → EventKind → σ → σ} {now' : UInt64} {mark' : Nat} {S : Pending → Pending → Prop}
    (hsame : ∀ p q, S p q → q.callback = p.callback)
    (hdue : ∀ x y, R x y → Option.Rel (fun d d' => d'.1 = d.1 ∧ S d.2 d'.2) ((get x).due now mark)
      ((get y).due now' mark'))
    (hfire : ∀ k p x y, R x y → (get x).due now mark = some (k, p) →
      R (call p.callback k (put ((get x).erase k) x)) (call' p.callback k (put ((get y).erase k) y)))
    (fuel : Nat) {x y : σ} (h : R x y) :
    R (fireBefore get put call now mark fuel x).2 (fireBefore get put call' now' mark' fuel y).2 := by
  induction fuel generalizing x y with
  | zero => exact h
  | succ fuel ih =>
    rw [fireBefore, fireBefore]
    have hboth := hdue x y h
    cases hx : (get x).due now mark with
    | none =>
      rw [hx] at hboth
      generalize (get y).due now' mark' = due at hboth
      cases hboth
      exact h
    | some d =>
      obtain ⟨k, p⟩ := d
      rw [hx] at hboth
      generalize (get y).due now' mark' = due at hboth
      obtain @⟨-, ⟨j, q⟩, hkind, hlater⟩ := hboth
      obtain rfl : j = k := hkind
      have hfired := hfire j p x y h hx
      dsimp only
      rw [hsame p q hlater]
      exact ih hfired

/-- Firing what is due in two states with one schedule keeps a relation between them that firing one event keeps. -/
lemma dispatch_rel {σ : Type} {R : σ → σ → Prop} {get : σ → Schedule} {put : Schedule → σ → σ}
    {call : Callback → EventKind → σ → σ} (hget : ∀ x y, R x y → get y = get x)
    (hfire : ∀ c k x y, R x y → R (call c k (put ((get x).erase k) x)) (call c k (put ((get x).erase k) y)))
    (now : UInt64) {x y : σ} (h : R x y) :
    R (dispatch get put call now x).2 (dispatch get put call now y).2 := by
  rw [dispatch, dispatch, hget x y h]
  have hsame : ∀ p q : Pending, p = q → q.callback = p.callback := fun p q h => h ▸ rfl
  refine fireBefore_rel hsame (fun x y hxy => ?_) (fun k p x y hxy _ => ?_) _ h
  · rw [hget x y hxy]
    cases (get x).due now (get _).nextAge with
    | none => exact .none
    | some d => exact .some ⟨rfl, rfl⟩
  · rw [hget x y hxy]
    exact hfire p.callback k x y hxy

end Schedule

end R3000
