/-!
# Schedule

At most one event of each kind is pending, with the cycle at which it is due, its age, which is the number of
events scheduled before it, and the callback that it was scheduled with.  `Schedule.dispatch` runs what is due in
order of deadline, older events first; an event scheduled by a callback waits for the next call even if it is
already due.
-/

namespace R3000

/-- What an event is for. -/
inductive EventKind
  | timer0
  | timer1
  | timer2
  /-- The frame blank. -/
  | vblank
  /-- A batch of scanlines. -/
  | hblank
  | cdrom
  /-- The first response of a drive command, put off. -/
  | cdromDeferred
  /-- The drive's interrupt, put off. -/
  | cdromIrq
  | sio
  deriving DecidableEq, Repr

namespace EventKind

/-- The kinds in order. -/
def all : List EventKind :=
  [timer0, timer1, timer2, vblank, hblank, cdrom, cdromDeferred, cdromIrq, sio]

/-- The place of a kind in `all`. -/
def index : EventKind → Fin 9
  | timer0 => 0
  | timer1 => 1
  | timer2 => 2
  | vblank => 3
  | hblank => 4
  | cdrom => 5
  | cdromDeferred => 6
  | cdromIrq => 7
  | sio => 8

/-- The name of a kind. -/
def name : EventKind → String
  | timer0 => "Timer0"
  | timer1 => "Timer1"
  | timer2 => "Timer2"
  | vblank => "VBlank"
  | hblank => "HBlank"
  | cdrom => "CdRom"
  | cdromDeferred => "CdRomDeferred"
  | cdromIrq => "CdRomIrq"
  | sio => "Sio"

/-- Whether the machine itself keeps events of this kind going, so that no device may move them. -/
def isVideo : EventKind → Bool
  | vblank | hblank => true
  | _ => false

theorem mem_all (k : EventKind) : k ∈ all := by cases k <;> decide

theorem index_inj {j k : EventKind} : j.index = k.index ↔ j = k := by cases j <;> cases k <;> decide

end EventKind

/-- What is called when an event fires. -/
inductive Callback
  /-- A batch of scanlines is done. -/
  | batch
  /-- The frame blank begins. -/
  | blank
  /-- The devices are told of the event. -/
  | device
  deriving DecidableEq, Repr

/-- What is called for events of a kind. -/
def EventKind.callback : EventKind → Callback
  | hblank => .batch
  | vblank => .blank
  | _ => .device

/-- An event that has not fired. -/
structure Pending where
  deadline : UInt64
  age : Nat
  callback : Callback
  deriving DecidableEq, Repr

namespace Pending

/-- Whether `p` fires before `q`: by deadline, and of two with one deadline the older. -/
def before (p q : Pending) : Bool :=
  p.deadline < q.deadline || p.deadline == q.deadline && p.age < q.age

end Pending

/-- The deadline that never comes. -/
def Schedule.never : UInt64 := 0xFFFFFFFFFFFFFFFF

/-- The pending events, and the age of the next one. -/
structure Schedule where
  slots : Vector (Option Pending) 9
  /-- The soonest deadline, `Schedule.never` without events; every change keeps it up to date. -/
  soonest : UInt64
  nextAge : Nat

namespace Schedule

/-- The soonest deadline in some slots. -/
def least (slots : Vector (Option Pending) 9) : UInt64 :=
  slots.foldl (fun d p => p.elim d fun p => min d p.deadline) never

/-- The schedule without events. -/
def empty : Schedule where
  slots := .replicate 9 none
  soonest := never
  nextAge := 0

/-- The slots with another event, or none, of a kind. -/
def fill (slots : Vector (Option Pending) 9) (k : EventKind) (p : Option Pending) : Vector (Option Pending) 9 :=
  slots.set k.index p

/-- The pending event of a kind. -/
def get? (s : Schedule) (k : EventKind) : Option Pending := s.slots.get k.index

/-- Sets the event of a kind to fire at a cycle, in place of its pending one.  Only a deadline that is not
the soonest may have replaced the soonest one, so only then are all slots searched. -/
def add (s : Schedule) (k : EventKind) (deadline : UInt64) (callback : Callback := .device) : Schedule :=
  let slots := fill s.slots k (some ⟨deadline, s.nextAge, callback⟩)
  { slots
    soonest := if deadline ≤ s.soonest then deadline else least slots
    nextAge := s.nextAge + 1 }

/-- Drops the pending event of a kind. -/
def erase (s : Schedule) (k : EventKind) : Schedule :=
  if (s.get? k).isSome then
    let slots := fill s.slots k none
    { s with slots, soonest := least slots }
  else s

/-- Drops all pending events; ages go on. -/
def clear (s : Schedule) : Schedule :=
  { s with slots := .replicate 9 none, soonest := never }

/-- The cycle at which the event of a kind is due. -/
def deadline? (s : Schedule) (k : EventKind) : Option UInt64 := (s.get? k).map (·.deadline)

/-- Whether an event of the kind is pending. -/
def contains (s : Schedule) (k : EventKind) : Bool := (s.get? k).isSome

/-- The number of pending events. -/
def size (s : Schedule) : Nat := EventKind.all.countP s.contains

/-- The pending events with their deadlines, by kind. -/
def toList (s : Schedule) : List (EventKind × UInt64) :=
  EventKind.all.filterMap fun k => (s.deadline? k).map (k, ·)

/-- The soonest deadline, unless all are `never`. -/
def nextDeadline (s : Schedule) : Option UInt64 :=
  if s.soonest = never then none else some s.soonest

/-- The first to fire of the events that are due at `now` and older than `mark`.  The slots are searched only
if the soonest deadline has come. -/
def due (s : Schedule) (now : UInt64) (mark : Nat) : Option (EventKind × Pending) :=
  if now < s.soonest then none
  else
    EventKind.all.foldl
      (fun best k =>
        match s.get? k with
        | none => best
        | some p =>
          if p.deadline ≤ now ∧ p.age < mark then
            match best with
            | none => some (k, p)
            | some (_, q) => if p.before q then some (k, p) else best
          else best)
      none

/-- Fires at most `fuel` due events older than `mark`, each removed before its callback runs. -/
def fireBefore {σ : Type} (get : σ → Schedule) (put : Schedule → σ → σ)
    (call : Callback → EventKind → σ → σ) (now : UInt64) (mark : Nat) : (fuel : Nat) → σ → Nat × σ
  | 0, s => (0, s)
  | fuel + 1, s =>
    match (get s).due now mark with
    | none => (0, s)
    | some (k, p) =>
      let (fired, s) :=
        fireBefore get put call now mark fuel (call p.callback k (put ((get s).erase k) s))
      (fired + 1, s)

/-- Fires every event that is due at `now` in the schedule inside a larger state, and counts them.  The
events older than the call are at most one of each kind, which bounds the number of rounds. -/
def dispatch {σ : Type} (get : σ → Schedule) (put : Schedule → σ → σ) (call : Callback → EventKind → σ → σ)
    (now : UInt64) (s : σ) : Nat × σ :=
  fireBefore get put call now (get s).nextAge EventKind.all.length s

/-- A dispatch of events that share a callback. -/
def fireDue {σ : Type} (get : σ → Schedule) (put : Schedule → σ → σ) (callback : EventKind → σ → σ)
    (now : UInt64) (s : σ) : Nat × σ :=
  dispatch get put (fun _ => callback) now s

/-- The pending events in braces, each kind with its deadline. -/
def summary (s : Schedule) : String :=
  let entries := s.toList.map fun (k, d) => k.name ++ ": " ++ toString d
  "\x7b" ++ ", ".intercalate entries ++ "\x7d"

end Schedule

end R3000
