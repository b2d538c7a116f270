import R3000.Block.Stub

/-!
# The code of a block

The code made for a block holds copies of the kept registers.  It takes them when it is entered, reads and writes
them in place of the registers, hands them over the bridge at every service, and writes them back at every exit:
through the exit stub to the dispatcher, and by itself before it hops to another block.
-/

namespace R3000

/-- The registers as code reaches them: the processor, and the variables that stand for the kept registers. -/
structure Frame where
  cpu : Cpu
  vars : RegFile

namespace Frame

/-- Whether code keeps a register in its variable. -/
def pinned (r : Reg) : Bool := Stub.kept.contains r

/-- The values of the kept registers, in order. -/
def values (f : Frame) : List UInt32 := Stub.kept.map f.vars.get

/-- Gives values to the variables of the kept registers, in order. -/
def assign (values : List UInt32) (vars : RegFile) : RegFile :=
  (Stub.kept.zip values).foldl (fun vars (r, v) => vars.put r v) vars

/-- Takes the copies; no variable has a value before. -/
def reload (c : Cpu) : Frame := ⟨c, assign (Stub.load c) (.replicate 32 0)⟩

/-- Writes the copies back. -/
def flush (f : Frame) : Cpu := Stub.store f.values f.cpu

/-- The value that code reads from a general register: zero from register zero. -/
def read (f : Frame) (r : Reg) : UInt32 :=
  if r = 0 then 0 else if pinned r then f.vars.get r else f.cpu.gpr.get r

/-- Writes a general register; register zero stays. -/
def write (f : Frame) (r : Reg) (v : UInt32) : Frame :=
  if r = 0 then f
  else if pinned r then { f with vars := f.vars.put r v }
  else { f with cpu.gpr := f.cpu.gpr.put r v }

/-- The value of an operand. -/
def operand (f : Frame) : Operand → UInt32
  | .reg r => f.read r
  | .imm v => v

end Frame

namespace Code

variable {σ : Type}

/-- What a service gives back to code. -/
structure Called (σ : Type) where
  answer : UInt32
  frame : Frame
  rest : σ

/-- Asks for a service over the bridge from the instruction at `pc`. -/
def call (host : Host σ) (service : Service) (a b pc : UInt32) (f : Frame) (s : σ) : Called σ :=
  let (r, values) := Stub.bridge host service a b f.values { f.cpu with currentPc := pc } s
  ⟨r.answer, ⟨r.cpu, Frame.assign values f.vars⟩, r.rest⟩

/-- The state after an instruction, and whether the code has to leave. -/
structure Executed (σ : Type) where
  stop : Bool
  frame : Frame
  rest : σ

/-- Goes on after a service with what it answered, unless it raised an exception. -/
def checked (r : Called σ) (write : UInt32 → Frame → Frame) : Executed σ :=
  if r.frame.cpu.blockAborted = 0 then ⟨false, write r.answer r.frame, r.rest⟩ else ⟨true, r.frame, r.rest⟩

/-- Carries out the instruction at `pc`. -/
def exec (host : Host σ) (pc : UInt32) (i : Instr) (f : Frame) (s : σ) : Executed σ :=
  match i with
  | .arith op rd rs operand =>
    let a := f.read rs
    let b := f.operand operand
    if op.traps a b then
      let r := call host .overflow 0 0 pc f s
      ⟨true, r.frame, r.rest⟩
    else ⟨false, f.write rd (op.eval a b), s⟩
  | .shift op rd rt amount => ⟨false, f.write rd (op.eval (f.read rt) (f.operand amount)), s⟩
  | .multiply signed rs rt =>
    let p := Instr.product signed (f.read rs) (f.read rt)
    ⟨false, { f with cpu := { f.cpu with lo := p.toUInt32, hi := (p >>> 32).toUInt32 } }, s⟩
  | .divide signed rs rt =>
    let r := call host (if signed then .divide else .divideUnsigned) (f.read rs) (f.read rt) pc f s
    ⟨false, r.frame, r.rest⟩
  | .fromHi rd => ⟨false, f.write rd f.cpu.hi, s⟩
  | .fromLo rd => ⟨false, f.write rd f.cpu.lo, s⟩
  | .toHi rs => ⟨false, { f with cpu.hi := f.read rs }, s⟩
  | .toLo rs => ⟨false, { f with cpu.lo := f.read rs }, s⟩
  | .load kind rt base offset =>
    let addr := f.read base + offset
    checked (call host (Instr.loadService kind) addr (Instr.loadArgument kind (f.read rt)) pc f s)
      fun v f => f.write rt (Instr.extend kind v)
  | .store kind rt base offset =>
    checked (call host (Instr.storeService kind) (f.read base + offset) (f.read rt) pc f s) fun _ f => f
  | .mfc0 rt source => checked (call host .mfc0 source.val.toUInt32 0 pc f s) fun v f => f.write rt v
  | .mtc0 rt target => checked (call host .mtc0 target.val.toUInt32 (f.read rt) pc f s) fun _ f => f
  | .rfe =>
    let r := call host .rfe 0 0 pc f s
    ⟨false, r.frame, r.rest⟩
  | .cop2 word => checked (call host .cop2 word 0 pc f s) fun _ f => f
  | .syscall => checked (call host .syscall 0 0 pc f s) fun _ f => f
  | .breakpoint => checked (call host .breakpoint 0 0 pc f s) fun _ f => f
  | .reserved word => checked (call host .reserved word 0 pc f s) fun _ f => f

/-- The state after some instructions: still running, or departed. -/
inductive Progress (σ : Type)
  | running (left : Int32) (frame : Frame) (rest : σ)
  | departed (d : Departed σ)

/-- Leaves to the dispatcher through the exit stub. -/
def leave (left : Int32) (f : Frame) (s : σ) : Departed σ := Stub.exit left f.values f.cpu s

/-- Carries out one instruction and charges its cycles. -/
def step (host : Host σ) (pc : UInt32) (i : Instr) (left : Int32) (f : Frame) (s : σ) : Progress σ :=
  let left := spend left i.cost
  let r := exec host pc i f s
  if r.stop then .departed (leave left r.frame r.rest) else .running left r.frame r.rest

/-- Carries out the instructions from `pc` on. -/
def steps (host : Host σ) : UInt32 → List Instr → Int32 → Frame → σ → Progress σ
  | _, [], left, f, s => .running left f s
  | pc, i :: is, left, f, s =>
    match step host pc i left f s with
    | .running left f s => steps host (pc + 4) is left f s
    | .departed d => .departed d

/-- Carries out a delay slot at `pc`. -/
def delay (host : Host σ) (pc : UInt32) (slot : Option Instr) (left : Int32) (f : Frame) (s : σ) : Progress σ :=
  match slot with
  | some i => step host pc i left f s
  | none => .running (spend left 1) f s

/-- Leaves to a known address: through its link word while there are cycles and links to spend, with the copies
written back for the block behind it; otherwise to the dispatcher. -/
def directExit (exits : List Exit) (target : UInt32) (left : Int32) (f : Frame) (s : σ) : Departed σ :=
  let f := { f with cpu.pc := target }
  match exits.find? (·.target == target) with
  | none => leave left f s
  | some e =>
    let links := f.cpu.linkBudget
    if left ≤ 0 ∨ links = 0 then leave left f s
    else ⟨.hop e.site left, { f.flush with linkBudget := links - 1 }, s⟩

/-- Leaves to an address from a register, noting the jump as the current instruction. -/
def indirectExit (pc target : UInt32) (left : Int32) (f : Frame) (s : σ) : Departed σ :=
  leave left { f with cpu := { f.cpu with currentPc := pc, pc := target } } s

/-- Carries out a transfer at `pc` with its delay slot.  The condition and the target are read before the
link register is written and the delay slot runs. -/
def finish (host : Host σ) (exits : List Exit) (pc fallthrough : UInt32) (e : Ending) (left : Int32) (f : Frame)
    (s : σ) : Departed σ :=
  let after (linked : Frame) (go : Int32 → Frame → σ → Departed σ) : Departed σ :=
    match delay host (pc + 4) e.delay (spend left 1) linked s with
    | .running left f s => go left f s
    | .departed d => d
  match e.transfer with
  | .jump target link =>
    after (if link then f.write Block.linkRegister (Block.returnAddress pc) else f) (directExit exits target)
  | .jumpReg rs link =>
    let target := f.read rs
    after (match link with
      | some rd => f.write rd (Block.returnAddress pc)
      | none => f) (indirectExit pc target)
  | .branch cond rs rt target link =>
    let taken := cond.holds (f.read rs) (f.read rt)
    after (if link then f.write Block.linkRegister (Block.returnAddress pc) else f)
      (directExit exits (if taken then target else fallthrough))

end Code

/-- Runs the code of the block from its start to one of its exits. -/
def Block.enter {σ : Type} (host : Host σ) (b : Block) (budget : Int32) (c : Cpu) (s : σ) : Departed σ :=
  match Code.steps host b.plan.start b.plan.body budget (.reload c) s with
  | .departed d => d
  | .running left f s =>
    match b.plan.ending with
    | some e => Code.finish host b.exits b.plan.endingPc b.plan.fallthrough e left f s
    | none =>
      if b.plan.endsAtBarrier then Code.leave left { f with cpu.pc := b.plan.fallthrough } s
      else Code.directExit b.exits b.plan.fallthrough left f s

end R3000
