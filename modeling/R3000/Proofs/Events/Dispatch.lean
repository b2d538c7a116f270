import Mathlib
import R3000.Proofs.Events.Pending

/-!
# Dispatch of events

A dispatch fires what was due when it began, in order of deadline and age, whatever the callbacks add and
drop.  The argument is over a run of firings: an event older than the run that is pending behind some firing
comes later in the order, since that firing was the first of all that was due.
-/

namespace R3000

namespace Schedule

variable {s s' : Schedule} {j k : EventKind} {p q : Pending} {now : UInt64} {mark : Nat}

/-! ### Edits -/

/-- A schedule is made from another by adding and dropping events. -/
inductive Edited (s : Schedule) : Schedule → Prop
  | refl : Edited s s
  | add {s' : Schedule} (k : EventKind) (deadline : UInt64) (c : Callback) :
    Edited s s' → Edited s (s'.add k deadline c)
  | erase {s' : Schedule} (k : EventKind) : Edited s s' → Edited s (s'.erase k)
  | clear {s' : Schedule} : Edited s s' → Edited s s'.clear

lemma Edited.trans {s'' : Schedule} (h : s.Edited s') (h' : s'.Edited s'') : s.Edited s'' := by
  induction h' with
  | refl => exact h
  | add k deadline c _ ih => exact ih.add k deadline c
  | erase k _ ih => exact ih.erase k
  | clear _ ih => exact ih.clear

lemma Edited.follows (h : s.Edited s') : s.Follows s' := by
  induction h with
  | refl => exact .refl s
  | add k deadline c _ ih => exact ih.trans (.add ..)
  | erase k _ ih => exact ih.trans (.erase ..)
  | clear _ ih => exact ih.trans (.clear _)

/-- No two events are of one age. -/
def Distinct (s : Schedule) : Prop :=
  ∀ j k p q, s.get? j = some p → s.get? k = some q → p.age = q.age → j = k

lemma Distinct.add (h : s.Distinct) (hs : s.Tidy) (k : EventKind) (deadline : UInt64) (c : Callback) :
    (s.add k deadline c).Distinct := by
  intro i j p q hp hq hage
  rw [get?_add] at hp hq
  split at hp <;> split at hq
  · simp_all
  · cases hp
    have hlt := hs.age j q hq
    dsimp only at hage
    omega
  · cases hq
    have hlt := hs.age i p hp
    dsimp only at hage
    omega
  · exact h i j p q hp hq hage

lemma Distinct.erase (h : s.Distinct) (k : EventKind) : (s.erase k).Distinct := by
  intro i j p q hp hq hage
  rw [get?_erase] at hp hq
  split at hp <;> split at hq
  · cases hp
  · cases hp
  · cases hq
  · exact h i j p q hp hq hage

lemma Edited.distinct (h : s.Edited s') (hs : s.Tidy) (hd : s.Distinct) : s'.Distinct := by
  induction h with
  | refl => exact hd
  | add k deadline c hprev ih => exact ih.add (hprev.follows.tidy hs) k deadline c
  | erase k _ ih => exact ih.erase k
  | clear => exact fun i j p q hp => by simp at hp

lemma get?_empty (k : EventKind) : empty.get? k = none := by simp [get?, empty]

lemma Tidy.empty : Schedule.empty.Tidy := Tidy.clear .empty

/-- What was made from nothing is tidy, with events of distinct ages. -/
lemma Edited.of_empty (h : Schedule.empty.Edited s) : s.Tidy ∧ s.Distinct := by
  have hdistinct : Schedule.empty.Distinct := by
    intro i j p q hp
    rw [get?_empty] at hp
    cases hp
  exact ⟨h.follows.tidy .empty, h.distinct .empty hdistinct⟩

/-- The event that is due fires before every other one that is due. -/
lemma due_before (hd : s.Distinct) (hdue : s.due now mark = some (k, p)) (hq : s.IsDue now mark j q) (hne : j ≠ k) :
    p.before q = true := by
  obtain ⟨⟨hp, -⟩, hleast⟩ := due_eq_some hdue
  apply Pending.before_of_not (hleast j q hq)
  intro hage
  exact hne (hd k j p q hp hq.1 hage).symm

/-! ### Runs of firings -/

/-- An event that fired. -/
structure Firing (σ : Type) where
  kind : EventKind
  event : Pending
  /-- The state in which its callback ran. -/
  entered : σ

variable {σ : Type} {get : σ → Schedule} {put : Schedule → σ → σ} {call : Callback → EventKind → σ → σ}
variable {x y : σ} {fs : List (Firing σ)}

/-- A run of firings: each takes out the first event that is due and older than a mark, and runs its
callback on what is left. -/
inductive Fires (get : σ → Schedule) (put : Schedule → σ → σ) (call : Callback → EventKind → σ → σ) (now : UInt64)
    (mark : Nat) : σ → List (Firing σ) → σ → Prop
  | done (x : σ) : Fires get put call now mark x [] x
  | fire {x y : σ} {k : EventKind} {p : Pending} {fs : List (Firing σ)} :
    (get x).due now mark = some (k, p) →
      Fires get put call now mark (call p.callback k (put ((get x).erase k) x)) fs y →
        Fires get put call now mark x (⟨k, p, put ((get x).erase k) x⟩ :: fs) y

/-- Firing is a run of firings. -/
lemma exists_fires (fuel : Nat) (x : σ) :
    ∃ fs, Fires get put call now mark x fs (fireBefore get put call now mark fuel x).2 ∧
      fs.length = (fireBefore get put call now mark fuel x).1 ∧
        fs.map (·.kind) = firedBefore get put call now mark fuel x := by
  induction fuel generalizing x with
  | zero => exact ⟨[], .done x, rfl, rfl⟩
  | succ fuel ih =>
    rw [fireBefore, firedBefore]
    cases hdue : (get x).due now mark with
    | none => exact ⟨[], .done x, rfl, rfl⟩
    | some due =>
      obtain ⟨k, p⟩ := due
      obtain ⟨fs, hfs, hlength, hkinds⟩ := ih (call p.callback k (put ((get x).erase k) x))
      refine ⟨_ :: fs, .fire hdue hfs, ?_, ?_⟩
      · exact congrArg (· + 1) hlength
      · exact congrArg (k :: ·) hkinds

namespace Fires

section Edits

variable (hput : ∀ s x, get (put s x) = s)
include hput

/-- Every event is removed before its callback runs. -/
lemma removed (h : Fires get put call now mark x fs y) :
    ∀ f ∈ fs, (get f.entered).get? f.kind = none := by
  induction h with
  | done x => simp
  | @fire x y k p fs _ _ ih =>
    intro f hf
    rcases List.mem_cons.mp hf with rfl | hf
    · rw [hput, get?_erase, if_pos rfl]
    · exact ih f hf

/-- An event that was dropped without firing was dropped by a callback. -/
lemma exists_dropped (h : Fires get put call now mark x fs y) (hp : (get x).get? k = some p)
    (hdropped : (get y).get? k ≠ some p) (hnot : ∀ f ∈ fs, f.kind ≠ k) :
    ∃ f ∈ fs, (get f.entered).get? k = some p ∧ (get (call f.event.callback f.kind f.entered)).get? k ≠ some p := by
  induction h with
  | done x => exact absurd hp hdropped
  | @fire x y j q fs _ _ ih =>
    have hne : k ≠ j := (hnot _ List.mem_cons_self).symm
    have hentered : (get (put ((get x).erase j) x)).get? k = some p := by
      rw [hput, get?_erase, if_neg hne]
      exact hp
    by_cases hkept : (get (call q.callback j (put ((get x).erase j) x))).get? k = some p
    · obtain ⟨f, hf, hdrop⟩ := ih hkept hdropped fun f hf => hnot f (List.mem_cons_of_mem _ hf)
      exact ⟨f, List.mem_cons_of_mem _ hf, hdrop⟩
    · exact ⟨_, List.mem_cons_self, hentered, hkept⟩

/-- An event that was not there at the start was added by a callback. -/
lemma exists_added (h : Fires get put call now mark x fs y) (hp : (get x).get? k ≠ some p)
    (hadded : (get y).get? k = some p) :
    ∃ f ∈ fs, (get f.entered).get? k ≠ some p ∧ (get (call f.event.callback f.kind f.entered)).get? k = some p := by
  induction h with
  | done x => exact absurd hadded hp
  | @fire x y j q fs _ _ ih =>
    have hentered : (get (put ((get x).erase j) x)).get? k ≠ some p := by
      rw [hput, get?_erase]
      split
      · simp
      · exact hp
    by_cases hnew : (get (call q.callback j (put ((get x).erase j) x))).get? k = some p
    · exact ⟨_, List.mem_cons_self, hentered, hnew⟩
    · obtain ⟨f, hf, hadd⟩ := ih hnew hadded
      exact ⟨f, List.mem_cons_of_mem _ hf, hadd⟩

variable (hcall : ∀ c k x, (get x).Edited (get (call c k x)))
include hcall

/-- What one firing does to the events. -/
lemma edited_fire (c : Callback) (k : EventKind) (x : σ) :
    (get x).Edited (get (call c k (put ((get x).erase k) x))) := by
  have hcall := hcall c k (put ((get x).erase k) x)
  rw [hput] at hcall
  exact (Edited.refl.erase k).trans hcall

lemma edited (h : Fires get put call now mark x fs y) : (get x).Edited (get y) := by
  induction h with
  | done x => exact .refl
  | fire _ _ ih => exact (edited_fire hput hcall ..).trans ih

/-- Every event that fired was due at the start. -/
lemma isDue (h : Fires get put call now mark x fs y) (hmark : mark ≤ (get x).nextAge) :
    ∀ f ∈ fs, (get x).IsDue now mark f.kind f.event := by
  induction h with
  | done x => simp
  | @fire x y k p fs hdue _ ih =>
    intro f hf
    rcases List.mem_cons.mp hf with rfl | hf
    · exact (due_eq_some hdue).1
    · have hfollows := (edited_fire hput hcall p.callback k x).follows
      obtain ⟨hpending, hle, hage⟩ := ih (hmark.trans hfollows.nextAge) f hf
      exact ⟨hfollows.old _ _ hpending (hage.trans_le hmark), hle, hage⟩

/-- What is due behind a firing comes after it in the order. -/
lemma before_entered (h : Fires get put call now mark x fs y) (hs : (get x).Tidy) (hd : (get x).Distinct) :
    ∀ f ∈ fs, ∀ k p, (get f.entered).IsDue now mark k p → f.event.before p = true := by
  induction h with
  | done x => simp
  | @fire x y k p fs hdue _ ih =>
    intro f hf j q hq
    rcases List.mem_cons.mp hf with rfl | hf
    · obtain ⟨hpending, hrest⟩ := hq
      rw [hput, get?_erase] at hpending
      split at hpending
      · cases hpending
      · rename_i hne
        exact due_before hd hdue ⟨hpending, hrest⟩ hne
    · have hedited := edited_fire hput hcall p.callback k x
      exact ih (hedited.follows.tidy hs) (hedited.distinct hs hd) f hf j q hq

/-- The events fire in order. -/
lemma ordered (h : Fires get put call now mark x fs y) (hs : (get x).Tidy) (hd : (get x).Distinct)
    (hmark : mark ≤ (get x).nextAge) : fs.Pairwise fun f g => f.event.before g.event = true := by
  induction h with
  | done x => exact .nil
  | @fire x y k p fs hdue hrest ih =>
    have hedited := edited_fire hput hcall p.callback k x
    have hlater := hmark.trans hedited.follows.nextAge
    refine .cons (fun g hg => ?_) (ih (hedited.follows.tidy hs) (hedited.distinct hs hd) hlater)
    -- the later event was pending behind the first firing
    have hdue' := hrest.isDue hput hcall hlater g hg
    have hfollows := hcall p.callback k (put ((get x).erase k) x)
    have hold := hfollows.follows.old g.kind g.event hdue'.1
    rw [hput, nextAge_erase] at hold
    have hpending := hold (hdue'.2.2.trans_le hmark)
    rw [get?_erase] at hpending
    split at hpending
    · cases hpending
    · rename_i hne
      exact due_before hd hdue ⟨hpending, hdue'.2⟩ hne

/-- Each kind fires at most once. -/
lemma nodup (h : Fires get put call now mark x fs y) (hs : (get x).Tidy) (hd : (get x).Distinct)
    (hmark : mark ≤ (get x).nextAge) : (fs.map (·.kind)).Nodup := by
  have hdue := h.isDue hput hcall hmark
  rw [List.Nodup, List.pairwise_map]
  refine (h.ordered hput hcall hs hd hmark).imp_of_mem fun {f g} hf hg hbefore heq => ?_
  -- two firings of one kind would be of one event, and no event comes before itself
  have hsame := (hdue f hf).1
  rw [heq] at hsame
  have hevent : f.event = g.event := Option.some.inj (hsame.symm.trans (hdue g hg).1)
  rw [hevent, Pending.before_iff] at hbefore
  omega

end Edits

end Fires

/-! ### The dispatch -/

/-- A dispatch at a cycle that ran some firings is exact. -/
structure Exact (get : σ → Schedule) (put : Schedule → σ → σ) (call : Callback → EventKind → σ → σ) (now : UInt64)
    (x : σ) (count : Nat) (fs : List (Firing σ)) (y : σ) : Prop where
  /-- The firings lead from the start to the end. -/
  fires : Fires get put call now (get x).nextAge x fs y
  /-- They end because nothing older than the dispatch is due any more. -/
  ended : (get y).due now (get x).nextAge = none
  count : count = fs.length
  bound : fs.length ≤ 9
  /-- What fired was pending at the start, and due. -/
  due : ∀ f ∈ fs, (get x).get? f.kind = some f.event ∧ f.event.deadline ≤ now
  ordered : fs.Pairwise fun f g => f.event.before g.event = true
  once : (fs.map (·.kind)).Nodup
  removed : ∀ f ∈ fs, (get f.entered).get? f.kind = none
  /-- An event that was due at the start and did not fire was taken away by a callback that ran before its turn. -/
  skipped : ∀ k p, (get x).get? k = some p → p.deadline ≤ now → (∀ f ∈ fs, f.kind ≠ k) →
    ∃ f ∈ fs, f.event.before p = true ∧ (get f.entered).get? k = some p ∧
      (get (call f.event.callback f.kind f.entered)).get? k ≠ some p
  /-- An event that is due at the end was added by a callback, after the start. -/
  young : ∀ k p, (get y).get? k = some p → p.deadline ≤ now → (get x).nextAge ≤ p.age ∧
    ∃ f ∈ fs, (get f.entered).get? k ≠ some p ∧ (get (call f.event.callback f.kind f.entered)).get? k = some p
  /-- The events at the end come from those at the start by adding and dropping. -/
  edited : (get x).Edited (get y)

/-- Every dispatch is exact, from every schedule that was made by adding and dropping events, at every cycle
and with callbacks that add and drop any events. -/
theorem dispatch_exact (hput : ∀ s x, get (put s x) = s)
    (hcall : ∀ c k x, (get x).Edited (get (call c k x))) (now : UInt64) (x : σ)
    (hx : Schedule.empty.Edited (get x)) :
    ∃ fs, fs.map (·.kind) = fired get put call now x ∧
      Exact get put call now x (dispatch get put call now x).1 fs (dispatch get put call now x).2 := by
  obtain ⟨hs, hd⟩ := hx.of_empty
  obtain ⟨fs, hfires, hlength, hkinds⟩ :
      ∃ fs, Fires get put call now (get x).nextAge x fs (dispatch get put call now x).2 ∧
        fs.length = (dispatch get put call now x).1 ∧ fs.map (·.kind) = fired get put call now x :=
    exists_fires EventKind.all.length x
  have hended : (get (dispatch get put call now x).2).due now (get x).nextAge = none :=
    due_dispatch hput (fun c k x => (hcall c k x).follows) x
  have hedited := hfires.edited hput hcall
  have hgone : ∀ k p, (get x).get? k = some p → p.deadline ≤ now →
      (get (dispatch get put call now x).2).get? k ≠ some p := by
    intro k p hp hle hkept
    exact due_eq_none (hedited.follows.tidy hs) hended k p ⟨hkept, hle, hs.age k p hp⟩
  have hnodup := hfires.nodup hput hcall hs hd le_rfl
  refine ⟨fs, hkinds, hfires, hended, hlength.symm, ?_, ?_, hfires.ordered hput hcall hs hd le_rfl, hnodup,
    hfires.removed hput, ?_, ?_, hedited⟩
  · have hsub : fs.map (·.kind) ⊆ EventKind.all := fun k _ => k.mem_all
    have hle := (hnodup.subperm hsub).length_le
    rwa [List.length_map] at hle
  · intro f hf
    have hdue := hfires.isDue hput hcall le_rfl f hf
    exact ⟨hdue.1, hdue.2.1⟩
  · intro k p hp hle hnot
    obtain ⟨f, hf, hpending, hdropped⟩ := hfires.exists_dropped hput hp (hgone k p hp hle) hnot
    refine ⟨f, hf, ?_, hpending, hdropped⟩
    exact hfires.before_entered hput hcall hs hd f hf k p ⟨hpending, hle, hs.age k p hp⟩
  · intro k p hp hle
    have hage : (get x).nextAge ≤ p.age := by
      by_contra hold
      exact due_eq_none (hedited.follows.tidy hs) hended k p ⟨hp, hle, not_le.mp hold⟩
    refine ⟨hage, hfires.exists_added hput (fun hstart => ?_) hp⟩
    have hold := hs.age k p hstart
    omega

/-- A callback that drops the event behind it and adds its own again: of three events that are due, two
fire. -/
theorem dispatch_exact_dropped :
    let call : Callback → EventKind → Schedule → Schedule := fun c k s =>
      if c = .batch then (s.erase .timer1).add k 5 c else s
    let s := (((empty.add .timer1 7).add .cdrom 9).add .hblank 3 .batch).add .vblank 100 .blank
    (dispatch id (fun s _ => s) call 10 s).1 = 2 ∧
      ∃ fs, Exact id (fun s _ => s) call 10 s (dispatch id (fun s _ => s) call 10 s).1 fs
        (dispatch id (fun s _ => s) call 10 s).2 := by
  intro call s
  have hcall : ∀ c k (s : Schedule), s.Edited (call c k s) := by
    intro c k s
    dsimp only [call]
    split
    · exact (Edited.refl.erase _).add _ _ _
    · exact .refl
  have hs : empty.Edited s := (((Edited.refl.add _ _ _).add _ _ _).add _ _ _).add _ _ _
  obtain ⟨fs, -, hexact⟩ := @dispatch_exact _ id (fun s _ => s) call (fun _ _ => rfl) hcall 10 s hs
  exact ⟨by decide, fs, hexact⟩

end Schedule

end R3000
