import R3000.Interrupts
import R3000.Memory.Basic
import R3000.Schedule
import R3000.Cpu.Basic

/-!
# Devices

The peripherals behind the device window are a `Hardware` over their own state `δ`.  A device never
touches the machine itself: it answers with requests, which the machine grants, except that nobody but
the machine moves the video events.
-/

namespace R3000

/-- What a device wants of the machine. -/
inductive Request
  /-- An event of a kind at a cycle, in place of its pending one. -/
  | schedule (kind : EventKind) (deadline : UInt64)
  | cancel (kind : EventKind)
  /-- The interrupt source with a number. -/
  | signal (number : UInt32)
  deriving DecidableEq, Repr

/-- A device's new state with its answer and its requests. -/
structure Response (δ : Type) where
  value : UInt32 := 0
  device : δ
  requests : List Request := []

/-- The behaviour of the devices; each call but the last is told the cycle. -/
structure Hardware (δ : Type) where
  read : (now : UInt64) → UInt32 → Width → δ → Response δ
  write : (now : UInt64) → UInt32 → UInt32 → Width → δ → Response δ
  /-- At power-on. -/
  reset : (now : UInt64) → δ → Response δ
  /-- One of the devices' own events fired. -/
  onEvent : (now : UInt64) → EventKind → δ → Response δ
  /-- The last scanline of a frame is done. -/
  onFrame : (now : UInt64) → δ → Response δ
  /-- The frame blank began. -/
  onBlank : (now : UInt64) → δ → Response δ
  /-- The level-triggered interrupt lines. -/
  poll : (now : UInt64) → δ → UInt16 × δ
  /-- A command of the geometry coprocessor. -/
  cop2 : UInt32 → Cpu → δ → Cpu × δ

/-- No devices: reads give ones, writes vanish. -/
def Hardware.absent (δ : Type) : Hardware δ where
  read _ _ w d := ⟨w.mask, d, []⟩
  write _ _ _ _ d := ⟨0, d, []⟩
  reset _ d := ⟨0, d, []⟩
  onEvent _ _ d := ⟨0, d, []⟩
  onFrame _ d := ⟨0, d, []⟩
  onBlank _ d := ⟨0, d, []⟩
  poll _ d := (0, d)
  cop2 _ c d := (c, d)

/-- What stands behind the device window: the interrupt controller, the pending events, the devices. -/
structure Io (δ : Type) where
  interrupts : Interrupts
  schedule : Schedule
  device : δ

namespace Io

variable {δ : Type}

/-- Grants a request. -/
def grant (io : Io δ) (r : Request) : Io δ :=
  match r with
  | .schedule k deadline =>
    if k.isVideo then io else { io with schedule := io.schedule.add k deadline .device }
  | .cancel k => if k.isVideo then io else { io with schedule := io.schedule.erase k }
  | .signal number => { io with interrupts := io.interrupts.signal number }

/-- Takes a response: the new state of the devices, and their requests in order. -/
def accept (io : Io δ) (r : Response δ) : Io δ :=
  r.requests.foldl grant { io with device := r.device }

/-- The device window at a cycle: the registers of the interrupt controller, and the devices. -/
def window (hw : Hardware δ) (now : UInt64) : Window (Io δ) where
  read addr w io :=
    if isIrqRegister addr then (io.interrupts.read addr w, io)
    else
      let r := hw.read now addr w io.device
      (r.value, io.accept r)
  write addr v w io :=
    if isIrqRegister addr then { io with interrupts := io.interrupts.write addr v w }
    else io.accept (hw.write now addr v w io.device)

end Io

/-- Everything that running code reaches outside the processor. -/
structure Board (δ : Type) where
  memory : Memory
  io : Io δ

namespace Board

variable {δ : Type}

/-- A load over the bus. -/
def load (hw : Hardware δ) (now : UInt64) (b : Board δ) (addr : UInt32) (w : Width) :
    UInt32 × Board δ :=
  let (v, io) := b.memory.load (Io.window hw now) addr w b.io
  (v, { b with io })

/-- A store over the bus. -/
def store (hw : Hardware δ) (now : UInt64) (b : Board δ) (isolated : Bool) (addr v : UInt32)
    (w : Width) : Board δ :=
  match b with
  | ⟨memory, io⟩ =>
    let (memory, io) := memory.store (Io.window hw now) isolated addr v w io
    ⟨memory, io⟩

end Board

end R3000
