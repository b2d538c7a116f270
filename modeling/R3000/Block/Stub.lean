import R3000.Block.Run

/-!
# Stubs

A block keeps some registers to itself while it runs.  Three stubs stand between it and everything else: the
slow path gives the budget straight back, for the dispatcher to find the block at the program counter; the exit
writes the budget and the kept registers back; the bridge writes the kept registers out for a service, and hands
back what the service left in them.
-/

namespace R3000.Stub

variable {σ : Type}

/-- The registers that a block keeps to itself: the result register, the stack, frame and link
registers. -/
def kept : List Reg := [2, 29, 30, 31]

/-- The kept registers as the processor holds them, in order. -/
def load (c : Cpu) : List UInt32 := kept.map c.gpr.get

/-- Writes values to the kept registers, in order. -/
def store (values : List UInt32) (c : Cpu) : Cpu := (kept.zip values).foldl (fun c (r, v) => c.set r v) c

/-- The slow path. -/
def slowPath (left : Int32) (c : Cpu) (s : σ) : Departed σ := ⟨.leave left, c, s⟩

/-- The exit, with the values of the kept registers in order. -/
def exit (left : Int32) (values : List UInt32) (c : Cpu) (s : σ) : Departed σ := .leave left (store values c) s

/-- The bridge to a service: what it gives back, and the values of the kept registers after it. -/
def bridge (host : Host σ) (service : Service) (a b : UInt32) (values : List UInt32) (c : Cpu) (s : σ) :
    Served σ × List UInt32 :=
  let r := host service a b (store values c) s
  (r, load r.cpu)

end R3000.Stub
