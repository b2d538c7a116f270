import R3000.Instr.Basic

/-!
# Decoding

`decode` reads an instruction word at an address.  Every word has a reading: one that is no instruction
is `Instr.reserved`.
-/

namespace R3000

namespace Word

/-- The six bits that select the group of an instruction. -/
def opcode (w : UInt32) : UInt32 := w >>> 26

/-- The first source register. -/
def rs (w : UInt32) : Reg := .ofBits (w >>> 21)

/-- The second source register. -/
def rt (w : UInt32) : Reg := .ofBits (w >>> 16)

/-- The target register. -/
def rd (w : UInt32) : Reg := .ofBits (w >>> 11)

/-- The shift amount. -/
def amount (w : UInt32) : UInt32 := (w >>> 6) &&& 31

/-- The six bits that select an instruction inside a group. -/
def function (w : UInt32) : UInt32 := w &&& 0x3F

/-- The immediate, widened with zeros. -/
def immediate (w : UInt32) : UInt32 := w &&& 0xFFFF

/-- The immediate, widened with its sign. -/
def signedImmediate (w : UInt32) : UInt32 := signExtendHalf w

/-- The target of a branch at an address. -/
def branchTarget (w pc : UInt32) : UInt32 := pc + 4 + 4 * signedImmediate w

/-- The target of a jump at an address: it stays in the segment of the delay slot. -/
def jumpTarget (w pc : UInt32) : UInt32 :=
  ((pc + 4) &&& 0xF0000000) ||| 4 * (w &&& 0x03FFFFFF)

end Word

open Word

/-- The instructions of group zero, which name three registers. -/
def decodeSpecial (w : UInt32) : Decoded :=
  let arith op := Decoded.instr (.arith op (rd w) (rs w) (.reg (rt w)))
  let shift op := Decoded.instr (.shift op (rd w) (rt w) (.imm (amount w)))
  let shiftBy op := Decoded.instr (.shift op (rd w) (rt w) (.reg (rs w)))
  match (function w).toNat with
  | 0x00 => shift .left
  | 0x02 => shift .rightLogical
  | 0x03 => shift .rightArithmetic
  | 0x04 => shiftBy .left
  | 0x06 => shiftBy .rightLogical
  | 0x07 => shiftBy .rightArithmetic
  | 0x08 => .transfer (.jumpReg (rs w) none)
  | 0x09 => .transfer (.jumpReg (rs w) (some (rd w)))
  | 0x0C => .instr .syscall
  | 0x0D => .instr .breakpoint
  | 0x10 => .instr (.fromHi (rd w))
  | 0x11 => .instr (.toHi (rs w))
  | 0x12 => .instr (.fromLo (rd w))
  | 0x13 => .instr (.toLo (rs w))
  | 0x18 => .instr (.multiply true (rs w) (rt w))
  | 0x19 => .instr (.multiply false (rs w) (rt w))
  | 0x1A => .instr (.divide true (rs w) (rt w))
  | 0x1B => .instr (.divide false (rs w) (rt w))
  | 0x20 => arith .add
  | 0x21 => arith .addu
  | 0x22 => arith .sub
  | 0x23 => arith .subu
  | 0x24 => arith .and
  | 0x25 => arith .or
  | 0x26 => arith .xor
  | 0x27 => arith .nor
  | 0x2A => arith .slt
  | 0x2B => arith .sltu
  | _ => .instr (.reserved w)

/-- The branches of group one, told apart by the lowest bit of the second register field and linking when
its upper four bits are 1000. -/
def decodeRegimm (w pc : UInt32) : Decoded :=
  let cond := if (w >>> 16) &&& 1 = 0 then Condition.ltz else .gez
  .transfer (.branch cond (rs w) 0 (branchTarget w pc) ((w >>> 16) &&& 0x1E == 0x10))

/-- The instructions of the system control coprocessor. -/
def decodeCop0 (w : UInt32) : Decoded :=
  match (rs w).val with
  | 0x00 => .instr (.mfc0 (rt w) (rd w))
  | 0x04 => .instr (.mtc0 (rt w) (rd w))
  | 0x10 => .instr (if function w = 0x10 then .rfe else .reserved w)
  | _ => .instr (.reserved w)

/-- The reading of an instruction word at an address. -/
def decode (w pc : UInt32) : Decoded :=
  let arith op v := Decoded.instr (.arith op (rt w) (rs w) (.imm v))
  let branch cond := Decoded.transfer (.branch cond (rs w) (rt w) (branchTarget w pc) false)
  let load kind := Decoded.instr (.load kind (rt w) (rs w) (signedImmediate w))
  let store kind := Decoded.instr (.store kind (rt w) (rs w) (signedImmediate w))
  match (opcode w).toNat with
  | 0x00 => decodeSpecial w
  | 0x01 => decodeRegimm w pc
  | 0x02 => .transfer (.jump (jumpTarget w pc) false)
  | 0x03 => .transfer (.jump (jumpTarget w pc) true)
  | 0x04 => branch .eq
  | 0x05 => branch .ne
  | 0x06 => branch .lez
  | 0x07 => branch .gtz
  | 0x08 => arith .add (signedImmediate w)
  | 0x09 => arith .addu (signedImmediate w)
  | 0x0A => arith .slt (signedImmediate w)
  | 0x0B => arith .sltu (signedImmediate w)
  | 0x0C => arith .and (immediate w)
  | 0x0D => arith .or (immediate w)
  | 0x0E => arith .xor (immediate w)
  | 0x0F => .instr (.arith .or (rt w) 0 (.imm (immediate w <<< 16)))
  | 0x10 => decodeCop0 w
  | 0x12 | 0x32 | 0x3A => .instr (.cop2 w)
  | 0x20 => load .byte
  | 0x21 => load .half
  | 0x22 => load .wordLeft
  | 0x23 => load .word
  | 0x24 => load .byteUnsigned
  | 0x25 => load .halfUnsigned
  | 0x26 => load .wordRight
  | 0x28 => store .byte
  | 0x29 => store .half
  | 0x2A => store .wordLeft
  | 0x2B => store .word
  | 0x2E => store .wordRight
  | _ => .instr (.reserved w)

end R3000
