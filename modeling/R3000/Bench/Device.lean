import R3000.Bench.Action
import R3000.Machine.Basic
import Std.Data.HashMap

/-!
# Scripted devices

Stand-ins for the devices and the hooks of a machine.  They note every call, answer reads from a table,
and act as their scripts say.
-/

namespace R3000

/-- A call that a stand-in has noted. -/
inductive Note
  | read (addr : UInt32) (w : Width) (now : UInt64)
  | write (addr v : UInt32) (w : Width) (now : UInt64)
  | reset (now : UInt64)
  | event (kind : EventKind) (now : UInt64)
  | frame (now : UInt64)
  | blank (now : UInt64)
  | cop2 (command pc : UInt32)
  /-- A call of a function vector, with its function number. -/
  | call (vector pc number : UInt32)
  deriving DecidableEq, Repr

/-- The state of the stand-ins: the notes, the latest first, and the values of registers. -/
structure Rig where
  notes : List Note := []
  values : Std.HashMap UInt32 UInt32 := {}

namespace Rig

/-- Adds a note. -/
def note (r : Rig) (n : Note) : Rig := { r with notes := n :: r.notes }

/-- Changes the values that the actions latch. -/
def latch (value : UInt32) (r : Rig) : Action → Rig
  | .latch register v => { r with values := r.values.insert register (v.eval value).toUInt32 }
  | _ => r

/-- Carries out actions, given the value that the call moves. -/
def act (r : Rig) (now : UInt64) (value : UInt32) (actions : List Action) : Response Rig where
  value
  device := actions.foldl (latch value) r
  requests := actions.filterMap (·.request now value)

end Rig

/-- What the stand-in for the devices does on each call. -/
structure DeviceScript where
  onRead : UInt32 → List Action
  onWrite : UInt32 → List Action
  onReset : List Action
  onEvent : EventKind → List Action
  onFrame : List Action
  onBlank : List Action
  /-- Interrupt lines with the cycles from which and up to which they are raised. -/
  lines : List (UInt64 × UInt64 × UInt16)

/-- The devices that follow a script.  A register without a value reads as ones. -/
def Hardware.scripted (s : DeviceScript) : Hardware Rig where
  read now addr w r :=
    (r.note (.read addr w now)).act now ((r.values[addr]?).getD w.mask) (s.onRead addr)
  write now addr v w r := (r.note (.write addr v w now)).act now v (s.onWrite addr)
  reset now r := (r.note (.reset now)).act now 0 s.onReset
  onEvent now k r := (r.note (.event k now)).act now 0 (s.onEvent k)
  onFrame now r := (r.note (.frame now)).act now 0 s.onFrame
  onBlank now r := (r.note (.blank now)).act now 0 s.onBlank
  poll now r :=
    (s.lines.foldl
      (fun lines (first, last, raised) => if first ≤ now ∧ now < last then lines ||| raised else lines) 0,
      r)
  cop2 command c r :=
    let c := { c with cop2Control := c.cop2Control.put 31 (c.cop2Control.get 31 + 1) }
    (c.set 2 (c.reg 2 + command), r.note (.cop2 command c.currentPc))

/-- What a stand-in for a function of the boot ROM does. -/
structure HookScript where
  patch : Cpu → Cpu := id
  /-- Pieces copied into main memory. -/
  pieces : List (UInt32 × ByteArray) := []
  handled : Bool := false
  /-- Whether `patch` says where a handled call goes on; otherwise it returns to its caller. -/
  setsPc : Bool := false

/-- The hooks that follow a script for each vector. -/
def Hooks.scripted (script : UInt32 → HookScript) : Hooks Rig where
  intercept vector c m r :=
    let s := script vector
    let r := r.note (.call vector c.pc (c.reg 9))
    let c := s.patch c
    let c := if s.handled && !s.setsPc then { c with pc := c.reg 31 } else c
    (s.handled, c, s.pieces.foldl (fun m (offset, data) => m.loadRam offset data) m, r)

end R3000
