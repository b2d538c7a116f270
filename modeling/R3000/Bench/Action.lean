import R3000.Hardware

/-!
# Scripted actions

What a stand-in for a device does when it is called, written down as data.
-/

namespace R3000

/-- An amount in an action: fixed, or the value that the call moves. -/
inductive Amount
  | fixed (n : Nat)
  | moved
  deriving DecidableEq, Repr

/-- The amount, given the value that the call moves. -/
def Amount.eval (value : UInt32) : Amount → Nat
  | fixed n => n
  | moved => value.toNat

/-- One thing that a script does. -/
inductive Action
  /-- Schedules an event some cycles from now. -/
  | after (kind : EventKind) (delay : Amount)
  /-- Schedules an event at a cycle. -/
  | at (kind : EventKind) (deadline : Amount)
  | cancel (kind : EventKind)
  /-- Drops all events. -/
  | clear
  | irq (number : Amount)
  /-- Changes the value that a register gives. -/
  | latch (register : UInt32) (v : Amount)
  deriving DecidableEq, Repr

namespace Action

/-- The action on a schedule alone. -/
def onSchedule (now : UInt64) (s : Schedule) : Action → Schedule
  | after k n => s.add k (now + (n.eval 0).toUInt64)
  | .at k n => s.add k (n.eval 0).toUInt64
  | cancel k => s.erase k
  | clear => s.clear
  | irq _ | latch .. => s

/-- The request that the action makes of the machine. -/
def request (now : UInt64) (value : UInt32) : Action → Option Request
  | after k n => some (.schedule k (now + (n.eval value).toUInt64))
  | .at k n => some (.schedule k (n.eval value).toUInt64)
  | cancel k => some (.cancel k)
  | irq n => some (.signal (n.eval value).toUInt32)
  | clear | latch .. => none

end Action

end R3000
