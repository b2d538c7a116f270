import R3000.Machine.Basic

/-!
# Events and interrupts

What happens when an event of the machine fires, and how the interrupt line reaches the processor.
-/

namespace R3000.Machine

variable {τ β δ : Type}

/-! ### Interrupts -/

/-- Asks the devices for their interrupt lines. -/
def pollLines (P : Parts τ β δ) (m : Machine τ β δ) : Machine τ β δ :=
  m.mapIo fun io =>
    let (lines, device) := P.hardware.poll m.cycles io.device
    { io with interrupts := io.interrupts.assertLines lines, device }

/-- Whether the boot ROM has not put an interrupt handler into main memory yet. -/
def handlerMissing (m : Machine τ β δ) : Bool :=
  m.cpu.vector == Cpu.ramVector && m.memory.ramWord 0x80 == 0

/-- Passes the interrupt line to the processor, which takes the interrupt if its status lets it through
and there is a handler. -/
def syncInterrupts (P : Parts τ β δ) (m : Machine τ β δ) : Machine τ β δ :=
  let m := m.pollLines P
  let raised := m.board.io.interrupts.pending
  let m := { m with cpu := m.cpu.setInterruptLine raised }
  if raised && m.cpu.interruptsEnabled then
    if m.handlerMissing then
      { m with stats.interruptsIgnored := m.stats.interruptsIgnored + 1 }
    else
      { m with
        cpu := { m.cpu with currentPc := m.cpu.pc }.enter .interrupt
        stats.interrupts := m.stats.interrupts + 1 }
  else m

/-! ### Events -/

/-- The end of a frame: its interrupt, and the devices' turn. -/
def endFrame (P : Parts τ β δ) (now : UInt64) (m : Machine τ β δ) : Machine τ β δ :=
  let m := m.mapIo fun io => { io with interrupts := io.interrupts.raise .vblank }
  let m := m.respond (P.hardware.onFrame now)
  { m with frameDone := true, stats.frames := m.stats.frames + 1 }

/-- Sets an event of the machine's own. -/
def schedule (m : Machine τ β δ) (k : EventKind) (deadline : UInt64) (callback : Callback) : Machine τ β δ :=
  m.mapIo fun io => { io with schedule := io.schedule.add k deadline callback }

/-- A batch of scanlines is done. -/
def onBatch (P : Parts τ β δ) (now : UInt64) (m : Machine τ β δ) : Machine τ β δ :=
  let ended := m.raster.endsFrame
  let m := { m with raster := m.raster.advance now }
  let m := if ended then m.endFrame P now else m
  m.schedule .hblank m.raster.deadline .batch

/-- The frame blank begins. -/
def onBlank (P : Parts τ β δ) (now : UInt64) (m : Machine τ β δ) : Machine τ β δ :=
  (m.respond (P.hardware.onBlank now)).schedule .vblank (m.raster.blankDeadline now) .blank

/-- An event of a kind fires, and has its callback run. -/
def onEvent (P : Parts τ β δ) (now : UInt64) (callback : Callback) (k : EventKind) (m : Machine τ β δ) :
    Machine τ β δ :=
  match callback with
  | .batch => m.onBatch P now
  | .blank => m.onBlank P now
  | .device => m.respond (P.hardware.onEvent now k)

/-- Fires every event that is due at a cycle, and counts them. -/
def fireDue (P : Parts τ β δ) (now : UInt64) (m : Machine τ β δ) : Nat × Machine τ β δ :=
  Schedule.dispatch (fun m => m.board.io.schedule)
    (fun s m => m.mapIo fun io => { io with schedule := s }) (onEvent P now) now m

/-- Fires what is due now, and passes the interrupt line on if anything was. -/
def dispatchEvents (P : Parts τ β δ) (m : Machine τ β δ) : Machine τ β δ :=
  match m.board.io.schedule.nextDeadline with
  | some next =>
    if next ≤ m.cycles then
      let (fired, m) := m.fireDue P m.cycles
      { m with stats.eventsDispatched := m.stats.eventsDispatched + fired }.syncInterrupts P
    else m
  | none => m

end R3000.Machine
