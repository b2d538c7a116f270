import R3000.Cpu.Basic

/-!
# Services

What a running block asks of the machine around it: memory, the coprocessors and exceptions.  A block
knows a machine only as a `Host`.
-/

namespace R3000

/-- A request of a running block. -/
inductive Service
  | loadByte
  | loadHalf
  | loadWord
  /-- Merges the high part of a word that lies across two into an old value. -/
  | loadWordLeft
  /-- Merges the low part of a word that lies across two into an old value. -/
  | loadWordRight
  | storeByte
  | storeHalf
  | storeWord
  | storeWordLeft
  | storeWordRight
  | mfc0
  | mtc0
  | rfe
  | syscall
  | breakpoint
  | divide
  | divideUnsigned
  | overflow
  | cop2
  | reserved
  deriving DecidableEq, Repr

/-- The name of a service. -/
def Service.name : Service → String
  | loadByte => "load_u8"
  | loadHalf => "load_u16"
  | loadWord => "load_u32"
  | loadWordLeft => "load_word_left"
  | loadWordRight => "load_word_right"
  | storeByte => "store_u8"
  | storeHalf => "store_u16"
  | storeWord => "store_u32"
  | storeWordLeft => "store_word_left"
  | storeWordRight => "store_word_right"
  | mfc0 => "mfc0"
  | mtc0 => "mtc0"
  | rfe => "rfe"
  | syscall => "syscall"
  | breakpoint => "brk"
  | divide => "div"
  | divideUnsigned => "divu"
  | overflow => "overflow"
  | cop2 => "cop2"
  | reserved => "reserved"

/-- What a service gives back: its answer, and the processor and the rest of the machine after it. -/
structure Served (σ : Type) where
  answer : UInt32
  cpu : Cpu
  rest : σ

/-- A machine as a block sees it: each service takes two words. -/
abbrev Host (σ : Type) := Service → UInt32 → UInt32 → Cpu → σ → Served σ

/-- Asks for a service from the instruction at `pc`. -/
def Host.ask {σ : Type} (host : Host σ) (service : Service) (a b pc : UInt32) (c : Cpu) (s : σ) :
    Served σ :=
  host service a b { c with currentPc := pc } s

end R3000
