import R3000.Machine.Events

/-!
# The dispatcher

The dispatcher runs blocks up to a deadline, the next event or the end of the run, then fires what is due.
Between blocks it drops code whose memory was written, takes interrupts, and skips the rest of the slice
once a block that only waits has come round often enough.
-/

namespace R3000.Machine

variable {τ β δ : Type}

/-! ### Charging cycles -/

/-- The least charge for a pass of the dispatcher. -/
def minCharge (m : Machine τ β δ) : UInt64 := max m.settings.minCharge 1

/-- Charges cycles. -/
def charge (m : Machine τ β δ) (cycles : UInt64) : Machine τ β δ :=
  { m with cycles := m.cycles + cycles }

/-! ### Finding and running a block -/

/-- The block for an address, or an instruction bus error if there is none. -/
def findBlock (P : Parts τ β δ) (pc : UInt32) (m : Machine τ β δ) :
    Except RecompileError (Option (Entry β)) × Machine τ β δ :=
  match m.recompiler.cache.resident? pc with
  | some e => (.ok (some e), { m with stats.fastHits := m.stats.fastHits + 1 })
  | none =>
    let (result, recompiler) := m.recompiler.resolve P.translator m.memory.source pc
    let m := { m with recompiler }
    match result with
    | .error e => (.error e, m)
    | .ok (.hit e) => (.ok (some e), m)
    | .ok (.compiled e) => (.ok (some e), m.mapMemory (·.markCode e.pc e.sourceBytes))
    | .ok (.failed _) =>
      (.ok none,
        { m with
          cpu := { m.cpu with currentPc := pc }.enter .busInstruction
          stats.busErrors := m.stats.busErrors + 1 })

/-- The budget up to a deadline, as far as the processor can count. -/
def budget (m : Machine τ β δ) (deadline : UInt64) : Int32 :=
  (min (deadline - m.cycles) 0x7FFFFFFF).toUInt32.toInt32

/-- The processor at the start of a dispatch. -/
def armed (m : Machine τ β δ) (budget : Int32) : Cpu :=
  { m.cpu with
    inBlock := 1
    linkBudget := m.settings.chainLimit
    initialCyclesLeft := budget
    cyclesLeft := budget }

/-- Goes on at the vector after an exception in a block, which then does not only wait. -/
def resumeAborted (e : Entry β) (m : Machine τ β δ) : Machine τ β δ :=
  match m.cpu.takeAbort with
  | (none, _) => m
  | (some resume, cpu) =>
    let recompiler :=
      if e.idle.isIdle then (m.recompiler.refineIdle e.pc .none).2 else m.recompiler
    { m with cpu := { cpu with pc := resume }, recompiler, stats.aborts := m.stats.aborts + 1 }

/-- Charges what a dispatch spent of its budget; one that reports nothing is charged the least. -/
def chargeSpent (budget left : Int32) (m : Machine τ β δ) : Machine τ β δ :=
  let spent := budget.toInt - left.toInt
  if 0 < spent then m.charge spent.toNat.toUInt64
  else { m with stats.minCharges := m.stats.minCharges + 1 }.charge m.minCharge

/-- Runs a block and the blocks chained to it, up to a deadline. -/
def runBlock (P : Parts τ β δ) (e : Entry β) (deadline : UInt64) (m : Machine τ β δ) :
    Machine τ β δ :=
  let budget := m.budget deadline
  let r := Chain.run (P.enter m.recompiler.translator m.cycles) m.recompiler.store e.code budget
    (m.armed budget) m.board
  let m := { m with
    cpu := { r.cpu with inBlock := 0 }
    board := r.rest
    stats.blocksExecuted := m.stats.blocksExecuted + 1 }
  (m.resumeAborted e).chargeSpent budget r.left

/-- Removes the blocks of every page in the queue of dirty pages. -/
def dropDirtyCode (m : Machine τ β δ) : Machine τ β δ :=
  let (pages, memory) := m.board.memory.takeDirty
  pages.foldl
    (fun m p =>
      let (_, m) := m.invalidate (p.val * pageBytes).toUInt32 pageBytes.toUInt32
      { m with stats.smcPages := m.stats.smcPages + 1 })
    { m with board.memory := memory }

/-! ### Waiting blocks -/

/-- Passes after which a waiting block ends the slice; the greatest number stands for never. -/
def idleThreshold (m : Machine τ β δ) (e : Entry β) : UInt32 :=
  match e.idle with
  | .none => 0xFFFFFFFF
  | .strong => m.settings.idleStrong
  | .weak =>
    if 0x1FC00000 ≤ physical e.pc then m.settings.idleWeakBios else m.settings.idleWeakRam

/-- Notes a pass of a block, and skips to the deadline if it has waited long enough. -/
def fastForward (e : Entry β) (deadline : UInt64) (m : Machine τ β δ) : Bool × Machine τ β δ :=
  let threshold := m.idleThreshold e
  if threshold = 0xFFFFFFFF ∨ m.cpu.pc ≠ e.pc then (false, { m with watch := {} })
  else
    let watch := m.watch.next e.pc
    if watch.passes < threshold.toNat then (false, { m with watch })
    else
      (true,
        { m with
          cycles := max m.cycles deadline
          watch := {}
          stats.idleSkips := m.stats.idleSkips + 1
          stats.idleCyclesSkipped :=
            m.stats.idleCyclesSkipped + (deadline.toNat - m.cycles.toNat) })

/-! ### Other passes -/

/-- Loads the queued image.  One that does not load leaves the machine in the boot ROM. -/
def loadQueued (m : Machine τ β δ) : Except RecompileError (Machine τ β δ) :=
  let m := { m with loaded := true }
  match m.loader with
  | none => .ok m
  | some image =>
    let (answer, cpu, memory) := Exe.install image m.cpu m.memory
    let m := { m with cpu, board.memory := memory }
    match answer with
    | .ok () => m.flushCode
    | .error _ => .ok m

/-- Offers the call at an address to the hooks if it is a function vector. -/
def intercept (P : Parts τ β δ) (pc : UInt32) (m : Machine τ β δ) : Bool × Machine τ β δ :=
  let vector := physical pc
  if Translator.functionVectors.contains vector then
    match m.board with
    | ⟨memory, ⟨interrupts, schedule, device⟩⟩ =>
      let (handled, cpu, memory, device) := P.hooks.intercept vector m.cpu memory device
      let m := { m with cpu, board := ⟨memory, ⟨interrupts, schedule, device⟩⟩ }
      if handled then (true, { m with stats.biosIntercepts := m.stats.biosIntercepts + 1 })
      else (false, m)
  else (false, m)

/-- The exception for a program counter off its alignment; only a jump through a register leads there,
and left its own address as the current one. -/
def misaligned (pc : UInt32) (m : Machine τ β δ) : Machine τ β δ :=
  { m with
    cpu := m.cpu.addressError pc .addressLoad
    stats.addressErrors := m.stats.addressErrors + 1 }.charge m.minCharge

/-- How a pass of the dispatcher ended. -/
inductive Pass
  | again
  /-- The slice was skipped. -/
  | skipped
  | failed (e : RecompileError)
  deriving DecidableEq

/-- The part of a pass that runs the code at an aligned address. -/
def runPass (P : Parts τ β δ) (deadline : UInt64) (pc : UInt32) (m : Machine τ β δ) :
    Pass × Machine τ β δ :=
  match m.findBlock P pc with
  | (.error e, m) => (.failed e, m)
  | (.ok none, m) => (.again, m.charge m.minCharge)
  | (.ok (some e), m) =>
    let m := ((m.runBlock P e deadline).dropDirtyCode).syncInterrupts P
    match m.fastForward e deadline with
    | (true, m) => (.skipped, m)
    | (false, m) => (.again, m)

/-- One pass of the dispatcher: it loads the queued image, lets a hook handle a call, raises an address
error, or runs blocks.  A hook that turns a call down does not change which code runs next. -/
def pass (P : Parts τ β δ) (deadline : UInt64) (m : Machine τ β δ) : Pass × Machine τ β δ :=
  let pc := m.cpu.pc
  if !m.loaded && pc == m.settings.bootHook then
    match m.loadQueued with
    | .ok m => (.again, m)
    | .error e => (.failed e, m)
  else
    match m.intercept P pc with
    | (true, m) => (.again, (m.charge m.minCharge).syncInterrupts P)
    | (false, m) => if pc &&& 3 = 0 then m.runPass P deadline pc else (.again, m.misaligned pc)

/-- At most `fuel` passes up to a deadline. -/
def passes (P : Parts τ β δ) (deadline : UInt64) :
    (fuel : Nat) → Machine τ β δ → Option RecompileError × Machine τ β δ
  | 0, m => (none, m)
  | fuel + 1, m =>
    if m.cycles < deadline then
      match m.pass P deadline with
      | (.again, m) => passes P deadline fuel m
      | (.skipped, m) => (none, m)
      | (.failed e, m) => (some e, m)
    else (none, m)

/-- Runs code up to a deadline.  Every pass charges at least one cycle save the one that loads an image,
after which nothing is left to load. -/
def execute (P : Parts τ β δ) (deadline : UInt64) (m : Machine τ β δ) :
    Option RecompileError × Machine τ β δ :=
  passes P deadline (deadline.toNat - m.cycles.toNat + 1) m

/-! ### Steps and runs -/

/-- The deadline of a step: the next event, or some cycles on if there is none, but not past a limit. -/
def stepDeadline (m : Machine τ β δ) (limit : UInt64) : UInt64 :=
  min ((m.board.io.schedule.nextDeadline).getD (m.cycles + max m.settings.lookahead 1)) limit

/-- Runs code up to the next event or a limit, then fires what is due. -/
def stepUpTo (P : Parts τ β δ) (limit : UInt64) (m : Machine τ β δ) :
    Option RecompileError × Machine τ β δ :=
  match m.execute P (m.stepDeadline limit) with
  | (some e, m) => (some e, m)
  | (none, m) => (none, m.dispatchEvents P)

/-- Runs code up to the next event, then fires what is due. -/
def step (P : Parts τ β δ) (m : Machine τ β δ) : Option RecompileError × Machine τ β δ :=
  m.stepUpTo P Schedule.never

/-- How a run ended. -/
inductive Run
  | finished
  | failed (e : RecompileError)
  /-- The steps allowed were not enough. -/
  | outOfFuel

/-- Steps while a condition holds, at most `fuel` times. -/
def stepWhile (P : Parts τ β δ) (limit : UInt64) (go : Machine τ β δ → Bool) :
    (fuel : Nat) → Machine τ β δ → Run × Machine τ β δ
  | 0, m => (if go m then .outOfFuel else .finished, m)
  | fuel + 1, m =>
    if go m then
      match m.stepUpTo P limit with
      | (some e, m) => (.failed e, m)
      | (none, m) => stepWhile P limit go fuel m
    else (.finished, m)

/-- Runs until the cycle counter reaches a target. -/
def runUntil (P : Parts τ β δ) (fuel : Nat) (target : UInt64) (m : Machine τ β δ) :
    Run × Machine τ β δ :=
  stepWhile P target (fun m => m.cycles < target) fuel m

/-- Runs until the batch that ends the current frame is done. -/
def runFrame (P : Parts τ β δ) (fuel : Nat) (m : Machine τ β δ) : Run × Machine τ β δ :=
  stepWhile P Schedule.never (fun m => !m.frameDone) fuel { m with frameDone := false }

end R3000.Machine
