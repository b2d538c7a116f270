import R3000.Block.Service
import R3000.Cpu.Status
import R3000.Hardware
import R3000.Instr.Decode
import R3000.Unaligned

/-!
# Serving a block

The services that the machine gives a running block.  Loads and stores off their alignment, coprocessor
instructions without the coprocessor, and words that are no instruction raise exceptions; nothing else is
changed then.
-/

namespace R3000

/-- The quotient and remainder registers after a signed division.  Division by zero leaves the dividend
and one with the opposite of its sign; the quotient of the least word by minus one wraps. -/
def Cpu.divide (c : Cpu) (n d : UInt32) : Cpu :=
  if d = 0 then { c with hi := n, lo := if 0 ≤ n.toInt32 then 0xFFFFFFFF else 1 }
  else { c with hi := (n.toInt32 % d.toInt32).toUInt32, lo := (n.toInt32 / d.toInt32).toUInt32 }

/-- The quotient and remainder registers after an unsigned division. -/
def Cpu.divideUnsigned (c : Cpu) (n d : UInt32) : Cpu :=
  if d = 0 then { c with hi := n, lo := 0xFFFFFFFF } else { c with hi := n % d, lo := n / d }

namespace Board

variable {δ : Type}

/-- Whether an address is aligned for a width. -/
def aligned (addr : UInt32) (w : Width) : Bool := addr.toNat % w.bytes == 0

/-- The aligned word's address around an address. -/
def wordAddress (addr : UInt32) : UInt32 := addr &&& 0xFFFFFFFC

/-- A load that raises an address error off its alignment and then answers zero. -/
def serveLoad (hw : Hardware δ) (now : UInt64) (w : Width) (addr : UInt32) (c : Cpu) (b : Board δ) :
    Served (Board δ) :=
  if aligned addr w then
    let (v, b) := b.load hw now addr w
    ⟨v, c, b⟩
  else ⟨0, c.addressError addr .addressLoad, b⟩

/-- A load of the aligned word around an address, merged into an old value. -/
def serveMerge (hw : Hardware δ) (now : UInt64) (merge : UInt32 → UInt32 → UInt32 → UInt32)
    (addr old : UInt32) (c : Cpu) (b : Board δ) : Served (Board δ) :=
  let (v, b) := b.load hw now (wordAddress addr) .word
  ⟨merge addr v old, c, b⟩

/-- A store that raises an address error off its alignment. -/
def serveStore (hw : Hardware δ) (now : UInt64) (w : Width) (addr v : UInt32) (c : Cpu) (b : Board δ) :
    Served (Board δ) :=
  if aligned addr w then ⟨0, c, b.store hw now c.isolated addr (v &&& w.mask) w⟩
  else ⟨0, c.addressError addr .addressStore, b⟩

/-- A store into a part of the aligned word around an address, which is read first. -/
def serveMergedStore (hw : Hardware δ) (now : UInt64) (merge : UInt32 → UInt32 → UInt32 → UInt32)
    (addr v : UInt32) (c : Cpu) (b : Board δ) : Served (Board δ) :=
  let (word, b) := b.load hw now (wordAddress addr) .word
  ⟨0, c, b.store hw now c.isolated (wordAddress addr) (merge addr word v) .word⟩

/-- The exception for an instruction of a coprocessor that is switched off; the cause register names the
coprocessor. -/
def cop2Unusable (c : Cpu) : Cpu :=
  let c := c.enter .coprocessor
  { c with cop0 := c.cop0.put Cpu.cause (c.readCop0 Cpu.cause ||| 0x20000000) }

/-- The moves between general registers and those of the geometry coprocessor. -/
def serveMove (word : UInt32) (c : Cpu) : Cpu :=
  match (Word.rs word).val with
  | 0 => c.set (Word.rt word) (c.cop2Data.get (Word.rd word))
  | 2 => c.set (Word.rt word) (c.cop2Control.get (Word.rd word))
  | 4 => { c with cop2Data := c.cop2Data.put (Word.rd word) (c.gpr.get (Word.rt word)) }
  | 6 => { c with cop2Control := c.cop2Control.put (Word.rd word) (c.gpr.get (Word.rt word)) }
  | _ => c.enter .reserved

/-- A load into a data register of the geometry coprocessor. -/
def serveCop2Load (hw : Hardware δ) (now : UInt64) (word : UInt32) (c : Cpu) (b : Board δ) :
    Served (Board δ) :=
  let addr := c.gpr.get (Word.rs word) + Word.signedImmediate word
  if aligned addr .word then
    let (v, b) := b.load hw now addr .word
    ⟨0, { c with cop2Data := c.cop2Data.put (Word.rt word) v }, b⟩
  else ⟨0, c.addressError addr .addressLoad, b⟩

/-- An instruction of the geometry coprocessor. -/
def serveCop2 (hw : Hardware δ) (now : UInt64) (word : UInt32) (c : Cpu) (b : Board δ) :
    Served (Board δ) :=
  if c.cop2Usable then
    match (Word.opcode word).toNat with
    | 0x12 =>
      if word &&& 0x02000000 = 0 then ⟨0, serveMove word c, b⟩
      else
        match b with
        | ⟨memory, ⟨interrupts, schedule, device⟩⟩ =>
          let (c, device) := hw.cop2 (word &&& 0x01FFFFFF) c device
          ⟨0, c, ⟨memory, ⟨interrupts, schedule, device⟩⟩⟩
    | 0x32 => serveCop2Load hw now word c b
    | 0x3A =>
      let addr := c.gpr.get (Word.rs word) + Word.signedImmediate word
      serveStore hw now .word addr (c.cop2Data.get (Word.rt word)) c b
    | _ => ⟨0, c.enter .reserved, b⟩
  else ⟨0, cop2Unusable c, b⟩

/-- The machine as a running block sees it, with the cycle at which the dispatch began. -/
def serve (hw : Hardware δ) (now : UInt64) : Host (Board δ) := fun service x y c b =>
  match service with
  | .loadByte => serveLoad hw now .byte x c b
  | .loadHalf => serveLoad hw now .half x c b
  | .loadWord => serveLoad hw now .word x c b
  | .loadWordLeft => serveMerge hw now Unaligned.loadLeft x y c b
  | .loadWordRight => serveMerge hw now Unaligned.loadRight x y c b
  | .storeByte => serveStore hw now .byte x y c b
  | .storeHalf => serveStore hw now .half x y c b
  | .storeWord => serveStore hw now .word x y c b
  | .storeWordLeft => serveMergedStore hw now Unaligned.storeLeft x y c b
  | .storeWordRight => serveMergedStore hw now Unaligned.storeRight x y c b
  | .mfc0 => ⟨c.readCop0 (.ofBits x), c, b⟩
  | .mtc0 => ⟨0, c.writeCop0 (.ofBits x) y, b⟩
  | .rfe => ⟨0, c.rfe, b⟩
  | .syscall => ⟨0, c.enter .syscall, b⟩
  | .breakpoint => ⟨0, c.enter .breakpoint, b⟩
  | .divide => ⟨0, c.divide x y, b⟩
  | .divideUnsigned => ⟨0, c.divideUnsigned x y, b⟩
  | .overflow => ⟨0, c.enter .overflow, b⟩
  | .cop2 => serveCop2 hw now x c b
  | .reserved => ⟨0, c.enter .reserved, b⟩

end Board

end R3000
