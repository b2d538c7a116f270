import R3000.Block.Chain
import R3000.Exe
import R3000.Recompiler
import R3000.Serve

/-!
# The machine

The processor, the board around it, the raster, and the recompiler that turns the program into blocks.
`Parts` are the behaviours that a machine is put together from: how code is made and entered, the
devices, and the hooks on the function vectors of the boot ROM.
-/

namespace R3000

/-- Replacements for functions of the boot ROM. -/
structure Hooks (δ : Type) where
  /-- Offers a call of the function vector at a physical address.  A call that was handled has already set
  the program counter. -/
  intercept : (vector : UInt32) → Cpu → Memory → δ → Bool × Cpu × Memory × δ

/-- No hooks. -/
def Hooks.none (δ : Type) : Hooks δ where
  intercept _ c m d := (false, c, m, d)

/-- The behaviours of a machine with translator state `τ`, code `β` and device state `δ`. -/
structure Parts (τ β δ : Type) where
  translator : Translator τ β
  /-- Enters code, with the cycle of the dispatch. -/
  enter : τ → (now : UInt64) → Enter β (Board δ)
  hardware : Hardware δ
  hooks : Hooks δ

/-- The parts of a machine that runs planned blocks. -/
def Parts.standard {δ : Type} (hardware : Hardware δ) (hooks : Hooks δ) :
    Parts TranslatorStats Block δ where
  translator := .standard true Translator.functionVectors
  enter _ now := Block.enter (Board.serve hardware now)
  hardware
  hooks

/-- What the dispatcher has done so far. -/
structure DispatchStats where
  blocksExecuted : Nat := 0
  fastHits : Nat := 0
  minCharges : Nat := 0
  aborts : Nat := 0
  busErrors : Nat := 0
  addressErrors : Nat := 0
  interrupts : Nat := 0
  interruptsIgnored : Nat := 0
  idleSkips : Nat := 0
  idleCyclesSkipped : Nat := 0
  eventsDispatched : Nat := 0
  biosIntercepts : Nat := 0
  smcPages : Nat := 0
  frames : Nat := 0
  deriving DecidableEq, Repr

/-- The counters by name. -/
def DispatchStats.fields (s : DispatchStats) : List (String × Nat) :=
  [ ("blocks_executed", s.blocksExecuted),
    ("fast_hits", s.fastHits),
    ("min_charges", s.minCharges),
    ("aborts", s.aborts),
    ("bus_errors", s.busErrors),
    ("address_errors", s.addressErrors),
    ("interrupts", s.interrupts),
    ("interrupts_ignored", s.interruptsIgnored),
    ("idle_skips", s.idleSkips),
    ("idle_cycles_skipped", s.idleCyclesSkipped),
    ("events_dispatched", s.eventsDispatched),
    ("bios_intercepts", s.biosIntercepts),
    ("smc_pages", s.smcPages),
    ("frames", s.frames) ]

/-- The counters with the values of their names. -/
def DispatchStats.ofFields (n : String → Nat) : DispatchStats where
  blocksExecuted := n "blocks_executed"
  fastHits := n "fast_hits"
  minCharges := n "min_charges"
  aborts := n "aborts"
  busErrors := n "bus_errors"
  addressErrors := n "address_errors"
  interrupts := n "interrupts"
  interruptsIgnored := n "interrupts_ignored"
  idleSkips := n "idle_skips"
  idleCyclesSkipped := n "idle_cycles_skipped"
  eventsDispatched := n "events_dispatched"
  biosIntercepts := n "bios_intercepts"
  smcPages := n "smc_pages"
  frames := n "frames"

/-- The waiting block that ran last, and how often in a row. -/
structure IdleWatch where
  pc : UInt32 := 0
  passes : Nat := 0
  deriving DecidableEq, Repr

/-- The watch after another pass of a block. -/
def IdleWatch.next (w : IdleWatch) (pc : UInt32) : IdleWatch :=
  if w.pc = pc ∧ 0 < w.passes then { w with passes := w.passes + 1 } else ⟨pc, 1⟩

/-- A machine. -/
structure Machine (τ β δ : Type) where
  settings : Settings
  cpu : Cpu
  board : Board δ
  raster : Raster
  recompiler : Recompiler τ β
  /-- The image to load when the boot ROM hands over. -/
  loader : Option ByteArray
  /-- Whether there is nothing left to load. -/
  loaded : Bool
  cycles : UInt64
  watch : IdleWatch
  frameDone : Bool
  stats : DispatchStats

/-- Why there is no machine, or why it stopped. -/
inductive MachineError
  | recompile (e : RecompileError)
  | biosSize (actual : Nat)
  | load (e : LoadError)
  deriving DecidableEq, Repr

/-- The wording of the error. -/
def MachineError.message : MachineError → String
  | recompile e => "dynarec: " ++ e.message
  | biosSize actual =>
    "BIOS image is " ++ toString actual ++ " bytes, expected " ++ toString (4 * biosWords)
  | load e => "loader: " ++ e.message

namespace Machine

variable {τ β δ : Type}

/-- The memory of the machine. -/
def memory (m : Machine τ β δ) : Memory := m.board.memory

/-- Changes the memory. -/
def mapMemory (m : Machine τ β δ) (f : Memory → Memory) : Machine τ β δ :=
  { m with board.memory := f m.board.memory }

/-- Changes what stands behind the device window. -/
def mapIo (m : Machine τ β δ) (f : Io δ → Io δ) : Machine τ β δ := { m with board.io := f m.board.io }

/-- Takes a response of the devices. -/
def respond (m : Machine τ β δ) (f : δ → Response δ) : Machine τ β δ :=
  m.mapIo fun io => io.accept (f io.device)

/-! ### Power -/

/-- Starts the raster, the video events and the devices at the current cycle. -/
def powerOn (P : Parts τ β δ) (m : Machine τ β δ) : Machine τ β δ :=
  let now := m.cycles
  let raster := m.raster.start now
  let start (s : Schedule) : Schedule :=
    (s.clear.add .hblank raster.deadline .batch).add .vblank (raster.blankDeadline now) .blank
  let m := ({ m with raster }.mapIo fun io => { io with schedule := start io.schedule }).respond
    (P.hardware.reset now)
  { m with loaded := m.loader.isNone, watch := {}, frameDone := false }

/-- A machine with a boot image of any size and a recompiler. -/
def assemble (P : Parts τ β δ) (settings : Settings) (bios : ByteArray) (device : δ)
    (recompiler : Recompiler τ β) : Machine τ β δ :=
  powerOn P
    { settings
      cpu := .fresh
      board := { memory := .ofBios bios, io := { interrupts := {}, schedule := .empty, device } }
      raster := .ofStandard settings.standard
      recompiler
      loader := none
      loaded := true
      cycles := 0
      watch := {}
      frameDone := false
      stats := {} }

/-- A machine with a translator of its own; the boot image may have any size. -/
def ofTranslator (P : Parts τ β δ) (settings : Settings) (bios : ByteArray) (device : δ)
    (translator : τ) : Except MachineError (Machine τ β δ) := do
  let recompiler ← (Recompiler.create translator settings.limits).mapError .recompile
  return assemble P settings bios device recompiler

/-- A machine that runs planned blocks; the boot image fills the boot ROM. -/
def ofBios (P : Parts TranslatorStats Block δ) (settings : Settings) (bios : ByteArray) (device : δ) :
    Except MachineError (Machine TranslatorStats Block δ) :=
  if bios.size = 4 * biosWords then ofTranslator P settings bios device {}
  else .error (.biosSize bios.size)

/-- Drops all translated code. -/
def flushCode (m : Machine τ β δ) : Except RecompileError (Machine τ β δ) := do
  let recompiler ← m.recompiler.flush
  return { m with recompiler }.mapMemory Memory.clearCodeMarks

/-- Restarts the processor, the interrupt controller and the raster.  Memory stays; translated code does
not. -/
def reset (P : Parts τ β δ) (m : Machine τ β δ) : Except RecompileError (Machine τ β δ) := do
  let m := { m with cpu := .fresh }.mapIo fun io => { io with interrupts := {} }
  return powerOn P (← m.flushCode)

/-! ### Loading -/

/-- Queues an image to be loaded when the boot ROM hands over. -/
def queue (m : Machine τ β δ) (image : ByteArray) : Machine τ β δ :=
  { m with loader := some image, loaded := false }

/-- Queues the image in a file, given its contents if it could be read. -/
def queueFile (m : Machine τ β δ) (contents : Option ByteArray) :
    Except MachineError (Machine τ β δ) :=
  match contents with
  | some image => .ok (m.queue image)
  | none => .error (.load .missingFile)

/-! ### Code invalidation -/

/-- Where the four images of main memory start. -/
def ramImages : List UInt32 := [0, 0x00200000, 0x00400000, 0x00600000]

/-- Removes the blocks made from a physical range of bytes, in each of the four images of main memory, and
gives their number. -/
def invalidate (m : Machine τ β δ) (addr len : UInt32) : Nat × Machine τ β δ :=
  let phys := physical addr
  if phys < 0x00800000 then
    let offset := phys &&& 0x001FFFFF
    let (count, recompiler) := ramImages.foldl
      (fun (s : Nat × Recompiler τ β) image =>
        let (n, r) := s.2.invalidate (offset + image) len
        (s.1 + n, r))
      (0, m.recompiler)
    (count, { m with recompiler })
  else
    let (count, recompiler) := m.recompiler.invalidate phys len
    (count, { m with recompiler })

/-- Forgets what was counted. -/
def resetStats (P : Parts τ β δ) (m : Machine τ β δ) : Machine τ β δ :=
  { m with recompiler := m.recompiler.resetStats P.translator, stats := {} }

end Machine

end R3000
