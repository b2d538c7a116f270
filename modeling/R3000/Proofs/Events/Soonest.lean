import Mathlib
import R3000.Proofs.Events.Dispatch
import R3000.Proofs.Events.Later

/-!
# The soonest deadline in use

A schedule is used by adding and dropping events and by dispatches, whose callbacks use it in the same ways while
the dispatch is under way, dispatches of their own included.  `Use.Leads` takes such uses step by step, with a log
of the changes.  At every step, inside callbacks as well, `Use.Known` holds: the soonest deadline, the pending
events and their ages are what the log says.
-/

namespace R3000

namespace Schedule

variable {s : Schedule} {k : EventKind} {d : UInt64}

/-! ### Changes -/

/-- A change of the pending events. -/
inductive Change
  | add (k : EventKind) (deadline : UInt64) (callback : Callback)
  | erase (k : EventKind)
  | clear
  deriving DecidableEq, Repr

/-- The schedule after a change. -/
def Change.apply : Change → Schedule → Schedule
  | add k deadline c, s => s.add k deadline c
  | erase k, s => s.erase k
  | clear, s => s.clear

/-- The number of events that a log, latest change first, has added. -/
def additions : List Change → Nat
  | [] => 0
  | .add .. :: log => additions log + 1
  | _ :: log => additions log

/-- The event of a kind that a log added last and has not dropped since. -/
def lastAdded (k : EventKind) : List Change → Option Pending
  | [] => none
  | .add j deadline c :: log => if j = k then some ⟨deadline, additions log, c⟩ else lastAdded k log
  | .erase j :: log => if j = k then none else lastAdded k log
  | .clear :: _ => none

lemma Edited.change {s s' : Schedule} (h : s.Edited s') (c : Change) : s.Edited (c.apply s') := by
  cases c with
  | add k deadline c => exact h.add k deadline c
  | erase k => exact h.erase k
  | clear => exact h.clear

/-- A schedule holds what a log has added and not dropped. -/
structure Holds (log : List Change) (s : Schedule) : Prop where
  edited : empty.Edited s
  nextAge : s.nextAge = additions log
  get? : ∀ k, s.get? k = lastAdded k log

namespace Holds

lemma empty : Holds [] Schedule.empty := ⟨.refl, rfl, get?_empty⟩

lemma change {log : List Change} (h : Holds log s) (c : Change) : Holds (c :: log) (c.apply s) where
  edited := h.edited.change c
  nextAge := by
    cases c with
    | add k deadline c => exact congrArg (· + 1) h.nextAge
    | erase k => exact (nextAge_erase s k).trans h.nextAge
    | clear => exact h.nextAge
  get? j := by
    cases c with
    | add k deadline c =>
      rw [Change.apply, get?_add, lastAdded, h.get?, h.nextAge]
      simp only [eq_comm]
    | erase k =>
      rw [Change.apply, get?_erase, lastAdded, h.get?]
      simp only [eq_comm]
    | clear => exact get?_clear s j

end Holds

/-! ### The soonest deadline -/

/-- The deadlines of pending events that can come. -/
def comings (s : Schedule) : Set UInt64 := {d | d < never ∧ ∃ k, s.deadline? k = some d}

lemma deadline?_eq_some : s.deadline? k = some d ↔ ∃ p, s.get? k = some p ∧ p.deadline = d := by
  rw [deadline?, Option.map_eq_some_iff]

lemma Tidy.nextDeadline_eq_some (h : s.Tidy) : s.nextDeadline = some d ↔ IsLeast s.comings d := by
  constructor
  · intro hnext
    rw [nextDeadline] at hnext
    split at hnext
    · cases hnext
    · rename_i hever
      obtain rfl := Option.some.inj hnext
      have hlt : s.soonest < never := UInt64.lt_of_le_of_ne (le_never _) hever
      have hsome : ∃ k p, s.get? k = some p := by
        by_contra hnone
        push Not at hnone
        exact UInt64.not_le.mpr hlt (h.le_soonest.mpr fun k p hp => absurd hp (hnone k p))
      obtain ⟨k, p, hp⟩ := hsome
      obtain ⟨j, q, hq, hsoonest⟩ := h.exists_soonest hp
      refine ⟨⟨hlt, j, deadline?_eq_some.mpr ⟨q, hq, hsoonest⟩⟩, ?_⟩
      rintro e ⟨-, i, hi⟩
      obtain ⟨r, hr, rfl⟩ := deadline?_eq_some.mp hi
      exact h.soonest_le hr
  · rintro ⟨⟨hlt, k, hk⟩, hleast⟩
    obtain ⟨p, hp, rfl⟩ := deadline?_eq_some.mp hk
    have hle := h.soonest_le hp
    have hsoonest : s.soonest = p.deadline := by
      obtain ⟨j, q, hq, hsoonest⟩ := h.exists_soonest hp
      have hcomes : s.soonest < never := UInt64.lt_of_le_of_lt hle hlt
      exact UInt64.le_antisymm hle (hleast ⟨hcomes, j, deadline?_eq_some.mpr ⟨q, hq, hsoonest⟩⟩)
    rw [nextDeadline, hsoonest, if_neg (UInt64.ne_of_lt hlt)]

lemma Tidy.nextDeadline_eq_none (h : s.Tidy) : s.nextDeadline = none ↔ s.comings = ∅ := by
  constructor
  · intro hnone
    rw [Set.eq_empty_iff_forall_notMem]
    rintro e ⟨hlt, k, hk⟩
    obtain ⟨p, hp, rfl⟩ := deadline?_eq_some.mp hk
    rw [nextDeadline] at hnone
    split at hnone
    · rename_i hnever
      exact UInt64.not_le.mpr hlt (hnever ▸ h.soonest_le hp)
    · cases hnone
  · intro hempty
    by_contra hsome
    obtain ⟨e, he⟩ := Option.ne_none_iff_exists'.mp hsome
    have hleast := h.nextDeadline_eq_some.mp he
    rw [hempty] at hleast
    exact hleast.1

/-! ### Uses -/

/-- A moment in the use of a schedule. -/
structure Use where
  /-- The dispatches under way, the innermost first, each with its cycle and the age at which it began. -/
  dispatches : List (UInt64 × Nat)
  /-- The changes so far, the latest first. -/
  log : List Change
  schedule : Schedule

namespace Use

variable {u v w : Use} {now : UInt64} {mark : Nat}

/-- The moment before any use. -/
def start : Use := ⟨[], [], .empty⟩

/-- The use goes on with a change. -/
def change (u : Use) (c : Change) : Use := { u with log := c :: u.log, schedule := c.apply u.schedule }

/-- What happens next, outside every callback or in that of the innermost dispatch. -/
inductive Step : Use → Use → Prop
  | change (u : Use) (c : Change) : Step u (u.change c)
  | dispatch (u : Use) (now : UInt64) :
    Step u { u with dispatches := (now, u.schedule.nextAge) :: u.dispatches }
  /-- The innermost dispatch takes out the event whose callback runs next. -/
  | fire {u : Use} {now : UInt64} {mark : Nat} {outer : List (UInt64 × Nat)} {k : EventKind} {p : Pending} :
    u.dispatches = (now, mark) :: outer → u.schedule.due now mark = some (k, p) → Step u (u.change (.erase k))
  | finish {u : Use} {now : UInt64} {mark : Nat} {outer : List (UInt64 × Nat)} :
    u.dispatches = (now, mark) :: outer → u.schedule.due now mark = none → Step u { u with dispatches := outer }

/-- Any number of steps. -/
abbrev Leads : Use → Use → Prop := Relation.ReflTransGen Step

lemma Step.holds (h : Step u v) (hu : Holds u.log u.schedule) : Holds v.log v.schedule := by
  cases h with
  | change c => exact hu.change c
  | dispatch now => exact hu
  | @fire now mark outer k p _ _ => exact hu.change (.erase k)
  | finish _ _ => exact hu

lemma Leads.holds (h : Leads u v) (hu : Holds u.log u.schedule) : Holds v.log v.schedule := by
  induction h with
  | refl => exact hu
  | tail _ hstep ih => exact hstep.holds ih

lemma Leads.edited (h : Leads u v) : u.schedule.Edited v.schedule := by
  induction h with
  | refl => exact .refl
  | tail _ hstep ih =>
    cases hstep with
    | change c => exact ih.change c
    | dispatch now => exact ih
    | @fire now mark outer k p _ _ => exact ih.change (.erase k)
    | finish _ _ => exact ih

/-- The schedule is what the changes made of it. -/
structure Known (u : Use) : Prop where
  /-- The soonest deadline is the least one that can come, and there is none only if no deadline can come. -/
  nextDeadline : (∀ d, u.schedule.nextDeadline = some d ↔ IsLeast u.schedule.comings d) ∧
    (u.schedule.nextDeadline = none ↔ u.schedule.comings = ∅)
  /-- Of each kind the event that was added last is pending, unless it was dropped since. -/
  last : ∀ k, u.schedule.get? k = lastAdded k u.log
  distinct : ∀ j k p q, u.schedule.get? j = some p → u.schedule.get? k = some q → p.age = q.age → j = k
  /-- Every pending event is older than the next one to be added. -/
  older : ∀ k p, u.schedule.get? k = some p → p.age < u.schedule.nextAge

lemma known_of_holds (h : Holds u.log u.schedule) : u.Known := by
  obtain ⟨htidy, hdistinct⟩ := h.edited.of_empty
  exact ⟨⟨fun d => htidy.nextDeadline_eq_some, htidy.nextDeadline_eq_none⟩, h.get?, hdistinct, htidy.age⟩

end Use

/-! ### Code that uses a schedule -/

section Code

variable {σ : Type} {get : σ → Schedule} {put : Schedule → σ → σ} {call : Callback → EventKind → σ → σ}
variable {calls : Callback → EventKind → σ → List Change} {f g : σ → σ} {cs ds : σ → List Change}
variable {now : UInt64} {mark : Nat}

/-- Code on a larger state uses the schedule in it, and ends with the dispatches under way that it began with; `cs`
tells the changes that it makes. -/
def Performs (get : σ → Schedule) (f : σ → σ) (cs : σ → List Change) : Prop :=
  ∀ x dispatches log, Use.Leads ⟨dispatches, log, get x⟩ ⟨dispatches, cs x ++ log, get (f x)⟩

lemma Performs.change (hput : ∀ s x, get (put s x) = s) (c : Change) :
    Performs get (fun x => put (c.apply (get x)) x) (fun _ => [c]) := by
  intro x dispatches log
  have hstep := Use.Step.change ⟨dispatches, log, get x⟩ c
  rw [hput]
  exact .single hstep

lemma Performs.comp (hg : Performs get g ds) (hf : Performs get f cs) :
    Performs get (fun x => g (f x)) (fun x => ds (f x) ++ cs x) := by
  intro x dispatches log
  dsimp only
  rw [List.append_assoc]
  exact (hf x dispatches log).trans (hg (f x) dispatches (cs x ++ log))

/-- The changes that firing makes. -/
def changesBefore (get : σ → Schedule) (put : Schedule → σ → σ) (call : Callback → EventKind → σ → σ)
    (calls : Callback → EventKind → σ → List Change) (now : UInt64) (mark : Nat) : (fuel : Nat) → σ → List Change
  | 0, _ => []
  | fuel + 1, x =>
    match (get x).due now mark with
    | none => []
    | some (k, p) =>
      let entered := put ((get x).erase k) x
      changesBefore get put call calls now mark fuel (call p.callback k entered) ++
        calls p.callback k entered ++ [.erase k]

/-- The changes that a dispatch makes: it drops each event that fires, and then come those of its callback. -/
def changes (get : σ → Schedule) (put : Schedule → σ → σ) (call : Callback → EventKind → σ → σ)
    (calls : Callback → EventKind → σ → List Change) (now : UInt64) (x : σ) : List Change :=
  changesBefore get put call calls now (get x).nextAge EventKind.all.length x

lemma leads_fireBefore (hput : ∀ s x, get (put s x) = s) (hcall : ∀ c k, Performs get (call c k) (calls c k))
    (outer : List (UInt64 × Nat)) (fuel : Nat) (x : σ) (log : List Change) :
    Use.Leads ⟨(now, mark) :: outer, log, get x⟩
      ⟨(now, mark) :: outer, changesBefore get put call calls now mark fuel x ++ log,
        get (fireBefore get put call now mark fuel x).2⟩ := by
  induction fuel generalizing x log with
  | zero => exact .refl
  | succ fuel ih =>
    rw [changesBefore, fireBefore]
    cases hdue : (get x).due now mark with
    | none => exact .refl
    | some due =>
      obtain ⟨k, p⟩ := due
      have hfire : Use.Step ⟨(now, mark) :: outer, log, get x⟩
          ⟨(now, mark) :: outer, .erase k :: log, (get x).erase k⟩ := .fire rfl hdue
      have hcalls := hcall p.callback k (put ((get x).erase k) x) ((now, mark) :: outer) (.erase k :: log)
      rw [hput] at hcalls
      have hrest := ih (call p.callback k (put ((get x).erase k) x))
        (calls p.callback k (put ((get x).erase k) x) ++ .erase k :: log)
      dsimp only
      rw [List.append_assoc, List.append_assoc, List.singleton_append]
      exact .head hfire (hcalls.trans hrest)

/-- A dispatch uses the schedule if its callbacks do. -/
lemma performs_dispatch (hput : ∀ s x, get (put s x) = s) (hcall : ∀ c k, Performs get (call c k) (calls c k)) :
    Performs get (fun x => (dispatch get put call now x).2) (changes get put call calls now) := by
  intro x dispatches log
  have hbegin : Use.Step ⟨dispatches, log, get x⟩ ⟨(now, (get x).nextAge) :: dispatches, log, get x⟩ :=
    .dispatch _ now
  have hfires : Use.Leads ⟨(now, (get x).nextAge) :: dispatches, log, get x⟩
      ⟨(now, (get x).nextAge) :: dispatches, changes get put call calls now x ++ log,
        get (dispatch get put call now x).2⟩ := leads_fireBefore hput hcall dispatches _ x log
  have hfollows : ∀ c k x, (get x).Follows (get (call c k x)) := fun c k x => (hcall c k x [] []).edited.follows
  have hended : (get (dispatch get put call now x).2).due now (get x).nextAge = none :=
    due_dispatch hput hfollows x
  exact .head hbegin (hfires.tail (.finish rfl hended))

end Code

/-- The soonest deadline, the pending events and their ages are known at every step of every use, and dispatching
with callbacks that use the schedule is such a use, which makes the changes of its callbacks. -/
theorem leads_known : (∀ u, Use.start.Leads u → u.Known) ∧
    ∀ (σ : Type) (get : σ → Schedule) (put : Schedule → σ → σ) (call : Callback → EventKind → σ → σ)
      (calls : Callback → EventKind → σ → List Change) (now : UInt64), (∀ s x, get (put s x) = s) →
      (∀ c k, Performs get (call c k) (calls c k)) →
      Performs get (fun x => (dispatch get put call now x).2) (changes get put call calls now) :=
  ⟨fun _ hu => Use.known_of_holds (hu.holds .empty), fun _ _ _ _ _ _ hput hcall =>
    performs_dispatch hput hcall⟩

/-- A callback that drops an event, dispatches at a later cycle and adds its own event again at the present one. -/
theorem leads_known_nested :
    let put : Schedule → Schedule → Schedule := fun s _ => s
    let rest : Callback → EventKind → Schedule → Schedule := fun _ _ s => s
    let call : Callback → EventKind → Schedule → Schedule := fun c k s =>
      if c = .blank then (dispatch id put rest 20 (s.erase .timer1)).2.add k 10 c else s
    let s := ((empty.add .timer1 7).add .cdrom 15).add .vblank 3 .blank
    let s' := (dispatch id put call 10 s).2
    ∃ log, Use.start.Leads ⟨[], log, s'⟩ ∧ Use.Known ⟨[], log, s'⟩ ∧
      log.take 4 = [.add .vblank 10 .blank, .erase .cdrom, .erase .timer1, .erase .vblank] ∧
      s'.nextDeadline = some 10 ∧ s'.get? .vblank = some ⟨10, 3, .blank⟩ := by
  intro put rest call s s'
  have hput : ∀ s x : Schedule, id (put s x) = s := fun _ _ => rfl
  have hrest : ∀ c k, Performs id (rest c k) (fun _ => []) := fun _ _ _ _ _ => .refl
  let calls : Callback → EventKind → Schedule → List Change := fun c k s =>
    if c = .blank then
      [.add k 10 c] ++ (changes id put rest (fun _ _ _ => []) 20 (s.erase .timer1) ++ [.erase .timer1])
    else []
  have hcall : ∀ c k, Performs id (call c k) (calls c k) := by
    intro c k
    by_cases hc : c = .blank
    · have hinner := leads_known.2 Schedule id put rest (fun _ _ _ => []) 20 hput hrest
      have hdrop := Performs.change hput (.erase .timer1)
      have hadd := Performs.change hput (.add k 10 c)
      simp only [call, calls, hc, if_true] at hadd ⊢
      exact hadd.comp (hinner.comp hdrop)
    · simp only [call, calls, hc, if_false]
      exact fun _ _ _ => .refl
  let log : List Change := [.add .vblank 3 .blank, .add .cdrom 15 .device, .add .timer1 7 .device]
  have hs : Use.start.Leads ⟨[], log, s⟩ :=
    ((Relation.ReflTransGen.single (.change _ _)).tail (.change _ _)).tail (.change _ _)
  have hu : Use.start.Leads ⟨[], changes id put call calls 10 s ++ log, s'⟩ :=
    hs.trans (leads_known.2 Schedule id put call calls 10 hput hcall s [] log)
  exact ⟨_, hu, leads_known.1 _ hu, by decide, by decide, by decide⟩

end Schedule

end R3000
