import R3000.Block.Exit
import R3000.Block.Service

/-!
# The meaning of a block

`Instr.exec` carries out one instruction on the register files and asks the host for the rest.  A service
that raises an exception sets the abort flag; the block is then left at once, before the instruction
writes its result.  `Block.interpret` carries a block out to one of its exits and says whether it leaves to
the dispatcher or hops through a link word.  The code made for a block does the same with copies of some
registers; `Block.enter` runs that code.
-/

namespace R3000

/-! ### One instruction -/

/-- The state after an instruction, and whether the block has to be left. -/
structure Executed (σ : Type) where
  stop : Bool
  cpu : Cpu
  rest : σ

namespace Instr

/-- Goes on after a service with what it answered, unless it raised an exception. -/
def whenServed {σ : Type} (r : Served σ) (write : UInt32 → Cpu → Cpu) : Executed σ :=
  if r.cpu.blockAborted = 0 then ⟨false, write r.answer r.cpu, r.rest⟩ else ⟨true, r.cpu, r.rest⟩

/-- The product of two words as a double word. -/
def product (signed : Bool) (a b : UInt32) : UInt64 :=
  if signed then (a.toInt32.toInt64 * b.toInt32.toInt64).toUInt64 else a.toUInt64 * b.toUInt64

/-- The service of a load. -/
def loadService : LoadKind → Service
  | .byte | .byteUnsigned => .loadByte
  | .half | .halfUnsigned => .loadHalf
  | .word => .loadWord
  | .wordLeft => .loadWordLeft
  | .wordRight => .loadWordRight

/-- The second word that a load hands over: the old value where the result is merged into it. -/
def loadArgument (kind : LoadKind) (old : UInt32) : UInt32 :=
  match kind with
  | .wordLeft | .wordRight => old
  | _ => 0

/-- The value that a load writes. -/
def extend : LoadKind → UInt32 → UInt32
  | .byte, v => signExtendByte v
  | .half, v => signExtendHalf v
  | _, v => v

/-- The service of a store. -/
def storeService : StoreKind → Service
  | .byte => .storeByte
  | .half => .storeHalf
  | .word => .storeWord
  | .wordLeft => .storeWordLeft
  | .wordRight => .storeWordRight

/-- Carries out the instruction at `pc`. -/
def exec {σ : Type} (host : Host σ) (pc : UInt32) (i : Instr) (c : Cpu) (s : σ) : Executed σ :=
  match i with
  | arith op rd rs operand =>
    let a := c.reg rs
    let b := operand.eval c
    if op.traps a b then
      let r := host.ask .overflow 0 0 pc c s
      ⟨true, r.cpu, r.rest⟩
    else ⟨false, c.set rd (op.eval a b), s⟩
  | shift op rd rt amount => ⟨false, c.set rd (op.eval (c.reg rt) (amount.eval c)), s⟩
  | multiply signed rs rt =>
    let p := product signed (c.reg rs) (c.reg rt)
    ⟨false, { c with lo := p.toUInt32, hi := (p >>> 32).toUInt32 }, s⟩
  | divide signed rs rt =>
    let r := host.ask (if signed then .divide else .divideUnsigned) (c.reg rs) (c.reg rt) pc c s
    ⟨false, r.cpu, r.rest⟩
  | fromHi rd => ⟨false, c.set rd c.hi, s⟩
  | fromLo rd => ⟨false, c.set rd c.lo, s⟩
  | toHi rs => ⟨false, { c with hi := c.reg rs }, s⟩
  | toLo rs => ⟨false, { c with lo := c.reg rs }, s⟩
  | load kind rt base offset =>
    let addr := c.reg base + offset
    whenServed (host.ask (loadService kind) addr (loadArgument kind (c.reg rt)) pc c s)
      fun v c => c.set rt (extend kind v)
  | store kind rt base offset =>
    whenServed (host.ask (storeService kind) (c.reg base + offset) (c.reg rt) pc c s) fun _ c => c
  | mfc0 rt source => whenServed (host.ask .mfc0 source.val.toUInt32 0 pc c s) fun v c => c.set rt v
  | mtc0 rt target =>
    whenServed (host.ask .mtc0 target.val.toUInt32 (c.reg rt) pc c s) fun _ c => c
  | rfe =>
    let r := host.ask .rfe 0 0 pc c s
    ⟨false, r.cpu, r.rest⟩
  | cop2 word => whenServed (host.ask .cop2 word 0 pc c s) fun _ c => c
  | syscall => whenServed (host.ask .syscall 0 0 pc c s) fun _ c => c
  | breakpoint => whenServed (host.ask .breakpoint 0 0 pc c s) fun _ c => c
  | reserved word => whenServed (host.ask .reserved word 0 pc c s) fun _ c => c

end Instr

/-! ### A whole block -/

/-- How a block is left, with the budget that remains. -/
inductive Departure
  /-- To the dispatcher. -/
  | leave (left : Int32)
  /-- Through a link word. -/
  | hop (site : Site) (left : Int32)
  deriving DecidableEq

/-- The state in which a block is left. -/
structure Departed (σ : Type) where
  departure : Departure
  cpu : Cpu
  rest : σ

/-- Leaves to the dispatcher: the budget is noted in the processor. -/
def Departed.leave {σ : Type} (left : Int32) (c : Cpu) (s : σ) : Departed σ :=
  ⟨.leave left, { c with cyclesLeft := left }, s⟩

/-- The budget after a number of cycles. -/
def spend (left : Int32) (cycles : Nat) : Int32 := left - Int32.ofNat cycles

/-- The state after some instructions of a block: still running, or departed. -/
inductive Progress (σ : Type)
  | running (left : Int32) (cpu : Cpu) (rest : σ)
  | departed (d : Departed σ)

namespace Block

/-- Carries out one instruction and charges its cycles. -/
def step {σ : Type} (host : Host σ) (pc : UInt32) (i : Instr) (left : Int32) (c : Cpu) (s : σ) :
    Progress σ :=
  let left := spend left i.cost
  let r := i.exec host pc c s
  if r.stop then .departed (.leave left r.cpu r.rest) else .running left r.cpu r.rest

/-- Carries out the instructions from `pc` on. -/
def steps {σ : Type} (host : Host σ) : UInt32 → List Instr → Int32 → Cpu → σ → Progress σ
  | _, [], left, c, s => .running left c s
  | pc, i :: is, left, c, s =>
    match step host pc i left c s with
    | .running left c s => steps host (pc + 4) is left c s
    | .departed d => .departed d

/-- Carries out a delay slot at `pc`. -/
def delay {σ : Type} (host : Host σ) (pc : UInt32) (slot : Option Instr) (left : Int32) (c : Cpu)
    (s : σ) : Progress σ :=
  match slot with
  | some i => step host pc i left c s
  | none => .running (spend left 1) c s

/-- Leaves to a known address: through its link word while there are cycles and links to spend, otherwise
to the dispatcher. -/
def directExit {σ : Type} (exits : List Exit) (target : UInt32) (left : Int32) (c : Cpu) (s : σ) :
    Departed σ :=
  let c := { c with pc := target }
  match exits.find? (·.target == target) with
  | none => .leave left c s
  | some e =>
    if left ≤ 0 ∨ c.linkBudget = 0 then .leave left c s
    else ⟨.hop e.site left, { c with linkBudget := c.linkBudget - 1 }, s⟩

/-- Leaves to an address from a register, noting the jump as the current instruction. -/
def indirectExit {σ : Type} (pc target : UInt32) (left : Int32) (c : Cpu) (s : σ) : Departed σ :=
  .leave left { c with currentPc := pc, pc := target } s

/-- The address after the delay slot of the transfer at `pc`, which a link register takes. -/
def returnAddress (pc : UInt32) : UInt32 := pc + 8

/-- Register 31. -/
def linkRegister : Reg := 31

/-- Carries out a transfer at `pc` with its delay slot.  The condition and the target are read before the
link register is written and the delay slot runs. -/
def finish {σ : Type} (host : Host σ) (exits : List Exit) (pc fallthrough : UInt32) (e : Ending)
    (left : Int32) (c : Cpu) (s : σ) : Departed σ :=
  let after (linked : Cpu) (go : Int32 → Cpu → σ → Departed σ) : Departed σ :=
    match delay host (pc + 4) e.delay (spend left 1) linked s with
    | .running left c s => go left c s
    | .departed d => d
  match e.transfer with
  | .jump target link =>
    after (if link then c.set linkRegister (returnAddress pc) else c) (directExit exits target)
  | .jumpReg rs link =>
    let target := c.reg rs
    after (match link with
      | some rd => c.set rd (returnAddress pc)
      | none => c) (indirectExit pc target)
  | .branch cond rs rt target link =>
    let taken := cond.holds (c.reg rs) (c.reg rt)
    after (if link then c.set linkRegister (returnAddress pc) else c)
      (directExit exits (if taken then target else fallthrough))

/-- What the block means: its instructions carried out on the register files, from its start to one of its
exits. -/
def interpret {σ : Type} (host : Host σ) (b : Block) (budget : Int32) (c : Cpu) (s : σ) : Departed σ :=
  match steps host b.plan.start b.plan.body budget c s with
  | .departed d => d
  | .running left c s =>
    match b.plan.ending with
    | some e => finish host b.exits b.plan.endingPc b.plan.fallthrough e left c s
    | none =>
      if b.plan.endsAtBarrier then .leave left { c with pc := b.plan.fallthrough } s
      else directExit b.exits b.plan.fallthrough left c s

end Block

end R3000
