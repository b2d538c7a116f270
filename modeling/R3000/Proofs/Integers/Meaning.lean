import Mathlib
import R3000.Proofs.Chains.Partition
import R3000.Proofs.Faults
import R3000.Proofs.Integers.Words

/-!
# What integer instructions mean

`Mnemonic` lists the instructions on integers with their encodings, and `Mnemonic.Means` says of each what it does to
the registers, in the numbers that they stand for.  The reading of a word and the services of the machine give every
instruction this meaning.

A device may answer a load with more bits than were asked for.  A load with zeros then takes the answer as it is, a load
with sign takes the low bits.
-/

namespace R3000

open Word

variable {σ δ : Type}

/-! ### Effects -/

namespace Executed

/-- The instruction writes a word with the property to a general register; register zero stays. -/
def Writes (r : Executed σ) (c : Cpu) (s : σ) (rd : Reg) (P : UInt32 → Prop) : Prop :=
  ∃ v, P v ∧ r = ⟨false, c.set rd v, s⟩

/-- The instruction writes the signed number to a general register, or traps if no word stands for it. -/
def Checks (r : Executed σ) (pc : UInt32) (c : Cpu) (s : σ) (rd : Reg) (v : Int) : Prop :=
  if Fits v then r.Writes c s rd (signed · = v)
  else r = ⟨true, { c with currentPc := pc }.enter .overflow, s⟩

/-- The instruction writes words with the property to the registers of products and quotients. -/
def WritesPair (r : Executed σ) (c : Cpu) (s : σ) (P : (hi lo : UInt32) → Prop) : Prop :=
  ∃ hi lo, P hi lo ∧ r = ⟨false, { c with hi, lo }, s⟩

end Executed

/-- The bits of a word are a function of the bits of two numbers. -/
def Word.Bitwise (f : Bool → Bool → Bool) (a b : Nat) (v : UInt32) : Prop :=
  ∀ i < 32, v.toNat.testBit i = f (a.testBit i) (b.testBit i)

namespace Board

/-- A load of the width is not answered by a device that gives more bits than were asked for. -/
def Narrow (hw : Hardware δ) (now : UInt64) (b : Board δ) (addr : UInt32) (w : Width) : Prop :=
  ∀ register, Region.ofAddress addr = .device register → isIrqRegister register = false →
    (hw.read now register w b.io.device).value.toNat < 2 ^ (8 * w.bytes)

end Board

/-! ### Instructions -/

/-- The instructions on integers, by their names. -/
inductive Mnemonic
  | add | addi | addu | addiu | sub | subu
  | and | andi | or | ori | xor | xori | nor | lui
  | slt | slti | sltu | sltiu
  | sll | srl | sra | sllv | srlv | srav
  | mult | multu | div | divu | mfhi | mflo | mthi | mtlo
  | lb | lbu | lh | lhu | lw
  deriving DecidableEq, Repr

/-- What tells the words of an instruction: the upper six bits, or the lower six if the upper ones are zero. -/
inductive Encoding
  | opcode (n : Nat)
  | function (n : Nat)

/-- The words with an encoding. -/
def Encoding.Holds (w : UInt32) : Encoding → Prop
  | opcode n => (Word.opcode w).toNat = n
  | function n => (Word.opcode w).toNat = 0 ∧ (Word.function w).toNat = n

namespace Mnemonic

/-- The encoding of an instruction. -/
def encoding : Mnemonic → Encoding
  | sll => .function 0x00
  | srl => .function 0x02
  | sra => .function 0x03
  | sllv => .function 0x04
  | srlv => .function 0x06
  | srav => .function 0x07
  | mfhi => .function 0x10
  | mthi => .function 0x11
  | mflo => .function 0x12
  | mtlo => .function 0x13
  | mult => .function 0x18
  | multu => .function 0x19
  | div => .function 0x1A
  | divu => .function 0x1B
  | add => .function 0x20
  | addu => .function 0x21
  | sub => .function 0x22
  | subu => .function 0x23
  | and => .function 0x24
  | or => .function 0x25
  | xor => .function 0x26
  | nor => .function 0x27
  | slt => .function 0x2A
  | sltu => .function 0x2B
  | addi => .opcode 0x08
  | addiu => .opcode 0x09
  | slti => .opcode 0x0A
  | sltiu => .opcode 0x0B
  | andi => .opcode 0x0C
  | ori => .opcode 0x0D
  | xori => .opcode 0x0E
  | lui => .opcode 0x0F
  | lb => .opcode 0x20
  | lh => .opcode 0x21
  | lw => .opcode 0x23
  | lbu => .opcode 0x24
  | lhu => .opcode 0x25

/-- A load of a width from the sum of the base register and the immediate: the register gets a word that stands in the
relation to the address and the answer.  Off its alignment, or after an exception, a load writes nothing. -/
def Loads (hw : Hardware δ) (now : UInt64) (w pc : UInt32) (c : Cpu) (b : Board δ) (width : Width)
    (P : (addr answer v : UInt32) → Prop) (r : Executed (Board δ)) : Prop :=
  ∀ addr, signed addr ≡ signed (c.reg (rs w)) + signedLow 16 w [ZMOD 2 ^ 32] → Board.aligned addr width = true →
    c.blockAborted = 0 →
    r.Writes { c with currentPc := pc } (b.load hw now addr width).2 (rt w) (P addr (b.load hw now addr width).1)

/-- What an instruction does that the word `w` at `pc` stands for. -/
def Means (hw : Hardware δ) (now : UInt64) (w pc : UInt32) (c : Cpu) (b : Board δ) (r : Executed (Board δ))
    (k : Mnemonic) : Prop :=
  let s := c.reg (rs w)
  let t := c.reg (rt w)
  let sa := (amount w).toNat
  match k with
  | add => r.Checks pc c b (rd w) (signed s + signed t)
  | addi => r.Checks pc c b (rt w) (signed s + signedLow 16 w)
  | sub => r.Checks pc c b (rd w) (signed s - signed t)
  | addu => r.Writes c b (rd w) fun v => signed v ≡ signed s + signed t [ZMOD 2 ^ 32]
  | addiu => r.Writes c b (rt w) fun v => signed v ≡ signed s + signedLow 16 w [ZMOD 2 ^ 32]
  | subu => r.Writes c b (rd w) fun v => signed v ≡ signed s - signed t [ZMOD 2 ^ 32]
  | and => r.Writes c b (rd w) (Bitwise (· && ·) s.toNat t.toNat)
  | or => r.Writes c b (rd w) (Bitwise (· || ·) s.toNat t.toNat)
  | xor => r.Writes c b (rd w) (Bitwise (· ^^ ·) s.toNat t.toNat)
  | nor => r.Writes c b (rd w) (Bitwise (fun x y => !(x || y)) s.toNat t.toNat)
  | andi => r.Writes c b (rt w) (Bitwise (· && ·) s.toNat (w.toNat % 2 ^ 16))
  | ori => r.Writes c b (rt w) (Bitwise (· || ·) s.toNat (w.toNat % 2 ^ 16))
  | xori => r.Writes c b (rt w) (Bitwise (· ^^ ·) s.toNat (w.toNat % 2 ^ 16))
  | lui => r.Writes c b (rt w) fun v => v.toNat = w.toNat % 2 ^ 16 * 2 ^ 16
  | slt => r.Writes c b (rd w) (· = if signed s < signed t then 1 else 0)
  | slti => r.Writes c b (rt w) (· = if signed s < signedLow 16 w then 1 else 0)
  | sltu => r.Writes c b (rd w) (· = if s.toNat < t.toNat then 1 else 0)
  | sltiu => r.Writes c b (rt w) (· = if s.toNat < signedLow 16 w % 2 ^ 32 then 1 else 0)
  | sll => r.Writes c b (rd w) fun v => v.toNat = t.toNat * 2 ^ sa % 2 ^ 32
  | srl => r.Writes c b (rd w) fun v => v.toNat = t.toNat / 2 ^ sa
  | sra => r.Writes c b (rd w) fun v => signed v = signed t / 2 ^ sa
  | sllv => r.Writes c b (rd w) fun v => v.toNat = t.toNat * 2 ^ (s.toNat % 32) % 2 ^ 32
  | srlv => r.Writes c b (rd w) fun v => v.toNat = t.toNat / 2 ^ (s.toNat % 32)
  | srav => r.Writes c b (rd w) fun v => signed v = signed t / 2 ^ (s.toNat % 32)
  | mult => r.WritesPair c b fun hi lo => signed hi * 2 ^ 32 + lo.toNat = signed s * signed t
  | multu => r.WritesPair c b fun hi lo => hi.toNat * 2 ^ 32 + lo.toNat = s.toNat * t.toNat
  | div => r.WritesPair { c with currentPc := pc } b (Cpu.Divides s t)
  | divu => r.WritesPair { c with currentPc := pc } b (Cpu.DividesUnsigned s t)
  | mfhi => r.Writes c b (rd w) (· = c.hi)
  | mflo => r.Writes c b (rd w) (· = c.lo)
  | mthi => r.WritesPair c b fun hi lo => hi = s ∧ lo = c.lo
  | mtlo => r.WritesPair c b fun hi lo => hi = c.hi ∧ lo = s
  | lb => Loads hw now w pc c b .byte (fun _ answer v => signed v = signedLow 8 answer) r
  | lh => Loads hw now w pc c b .half (fun _ answer v => signed v = signedLow 16 answer) r
  | lw => Loads hw now w pc c b .word (fun _ answer v => v = answer) r
  | lbu => Loads hw now w pc c b .byte (fun addr answer v => v = answer ∧
      (b.Narrow hw now addr .byte → v.toNat = answer.toNat % 2 ^ 8)) r
  | lhu => Loads hw now w pc c b .half (fun addr answer v => v = answer ∧
      (b.Narrow hw now addr .half → v.toNat = answer.toNat % 2 ^ 16)) r

end Mnemonic

/-! ### Operations -/

namespace Word

lemma bitwise_and (a b : UInt32) : Bitwise (· && ·) a.toNat b.toNat (a &&& b) := by
  intro i _
  rw [UInt32.toNat_and, Nat.testBit_and]

lemma bitwise_or (a b : UInt32) : Bitwise (· || ·) a.toNat b.toNat (a ||| b) := by
  intro i _
  rw [UInt32.toNat_or, Nat.testBit_or]

lemma bitwise_xor (a b : UInt32) : Bitwise (· ^^ ·) a.toNat b.toNat (a ^^^ b) := by
  intro i _
  rw [UInt32.toNat_xor, Nat.testBit_xor]

lemma bitwise_nor (a b : UInt32) : Bitwise (fun x y => !(x || y)) a.toNat b.toNat (~~~(a ||| b)) := by
  intro i hi
  have hnot : (~~~(a.toBitVec ||| b.toBitVec)).getLsbD i = !(a.toBitVec ||| b.toBitVec).getLsbD i := by simp [hi]
  rw [BitVec.getLsbD_or] at hnot
  exact hnot

lemma toNat_immediate (w : UInt32) : (immediate w).toNat = w.toNat % 2 ^ 16 := by
  rw [immediate, UInt32.toNat_and]
  exact Nat.and_two_pow_sub_one_eq_mod w.toNat 16

lemma signed_signedImmediate (w : UInt32) : signed (signedImmediate w) = signedLow 16 w := signed_signExtendHalf w

lemma toNat_signedImmediate (w : UInt32) : ((signedImmediate w).toNat : Int) = signedLow 16 w % 2 ^ 32 := by
  rw [← signed_signedImmediate, signed_emod]

lemma toNat_upper (w : UInt32) : ((0 : UInt32) ||| immediate w <<< 16).toNat = w.toNat % 2 ^ 16 * 2 ^ 16 := by
  rw [UInt32.zero_or, UInt32.toNat_shiftLeft, toNat_immediate, show (16 : UInt32).toNat % 32 = 16 from rfl,
    Nat.shiftLeft_eq, Nat.mod_eq_of_lt (by omega)]

lemma amount_mod (w : UInt32) : (amount w).toNat % 32 = (amount w).toNat := by
  have hlt : (amount w).toNat < 32 := Shift.toNat_amount (w >>> 6) ▸ Nat.mod_lt _ (by decide)
  exact Nat.mod_eq_of_lt hlt

/-- A word is known by the signed number that it stands for, up to multiples of the number of words. -/
lemma eq_of_signed_modEq {a b : UInt32} (h : signed a ≡ signed b [ZMOD 2 ^ 32]) : a = b := by
  rw [Int.ModEq, signed_emod, signed_emod] at h
  exact UInt32.toNat_inj.mp (by exact_mod_cast h)

end Word

namespace Instr

variable {hw : Hardware δ} {now : UInt64} {pc : UInt32} {c : Cpu} {b : Board δ} {rd rs rt : Reg} {o : Operand}
  {P : UInt32 → Prop}

lemma checks_of_traps_iff {op : Arith} {exact : Int}
    (htraps : op.traps (c.reg rs) (o.eval c) = true ↔ ¬ Fits exact)
    (heval : signed (op.eval (c.reg rs) (o.eval c)) ≡ exact [ZMOD 2 ^ 32]) :
    ((arith op rd rs o).exec (Board.serve hw now) pc c b).Checks pc c b rd exact := by
  rw [Executed.Checks]
  dsimp only [exec]
  split
  · rename_i hfits
    refine ⟨_, eq_of_modEq (fits_signed _) hfits heval, if_neg ?_⟩
    exact fun htrap => htraps.mp htrap hfits
  · rename_i hfits
    rw [if_pos (htraps.mpr hfits)]
    rfl

lemma checks_add : ((arith .add rd rs o).exec (Board.serve hw now) pc c b).Checks pc c b rd
    (signed (c.reg rs) + signed (o.eval c)) :=
  checks_of_traps_iff (Arith.traps_add ..) (signed_add ..)

lemma checks_sub : ((arith .sub rd rs o).exec (Board.serve hw now) pc c b).Checks pc c b rd
    (signed (c.reg rs) - signed (o.eval c)) :=
  checks_of_traps_iff (Arith.traps_sub ..) (signed_sub ..)

lemma writes_arith {op : Arith} (hno : op.traps (c.reg rs) (o.eval c) = false)
    (h : P (op.eval (c.reg rs) (o.eval c))) :
    ((arith op rd rs o).exec (Board.serve hw now) pc c b).Writes c b rd P := by
  refine ⟨_, h, ?_⟩
  dsimp only [exec]
  rw [hno, if_neg Bool.false_ne_true]

lemma writes_shift {op : Shift} (h : P (op.eval (c.reg rt) (o.eval c))) :
    ((shift op rd rt o).exec (Board.serve hw now) pc c b).Writes c b rd P := ⟨_, h, rfl⟩

/-- An aligned load writes what it was answered, extended. -/
lemma exec_load {kind : LoadKind} {width : Width} {offset : UInt32}
    (hservice : ∀ x y c b, Board.serve hw now (loadService kind) x y c b = Board.serveLoad hw now width x c b)
    (halign : Board.aligned (c.reg rs + offset) width = true) (habort : c.blockAborted = 0) :
    (load kind rt rs offset).exec (Board.serve hw now) pc c b =
      ⟨false, { c with currentPc := pc }.set rt (extend kind (b.load hw now (c.reg rs + offset) width).1),
        (b.load hw now (c.reg rs + offset) width).2⟩ := by
  dsimp only [exec, Host.ask]
  rw [hservice, Board.serveLoad, if_pos halign]
  exact if_pos habort

end Instr

/-! ### Loads -/

/-- The bits of an access tell no number past the width. -/
lemma Width.toNat_mask_lt (w : Width) : w.mask.toNat < 2 ^ (8 * w.bytes) :=
  w.toNat_mask.trans_lt (Nat.sub_one_lt (Nat.two_pow_pos _).ne')

lemma Width.toNat_and_mask_lt (x : UInt32) (w : Width) : (x &&& w.mask).toNat < 2 ^ (8 * w.bytes) := by
  rw [UInt32.toNat_and]
  exact Nat.and_le_right.trans_lt w.toNat_mask_lt

lemma Bank.toNat_read_lt {n : Nat} (bank : Bank n) (w : Width) (i : Nat) :
    (bank.read w i).toNat < 2 ^ (8 * w.bytes) := by
  cases w with
  | byte => exact (bank.byte i).toNat_lt
  | half =>
    have hlow := (bank.byte (Width.half.align i)).toNat_lt
    have hhigh := (bank.byte (Width.half.align i + 1)).toNat_lt
    simp only [read, halfAt, UInt32.toNat_or, UInt8.toNat_toUInt32, UInt32.toNat_shiftLeft, Width.bytes]
    refine Nat.or_lt_two_pow (by omega) ((Nat.mod_le ..).trans_lt ?_)
    rw [Nat.shiftLeft_eq, show (8 : UInt32).toNat % 32 = 8 from rfl]
    omega
  | word => exact UInt32.toNat_lt _

namespace Board

variable {hw : Hardware δ} {now : UInt64} {b : Board δ} {addr : UInt32} {w : Width}

/-- Memory and the interrupt controller answer a load with no more bits than were asked for. -/
lemma Narrow.toNat_load_lt (h : b.Narrow hw now addr w) : (b.load hw now addr w).1.toNat < 2 ^ (8 * w.bytes) := by
  rw [load, Memory.load]
  cases hregion : Region.ofAddress addr with
  | ram | scratchpad | bios => exact Bank.toNat_read_lt ..
  | device register =>
    dsimp only [Io.window]
    split
    · exact Width.toNat_and_mask_lt ..
    · rename_i hirq
      exact h register hregion (by simpa using hirq)
  | cacheControl => exact w.toNat_and_mask_lt ..
  | expansion => exact w.toNat_mask_lt
  | unmapped => exact Nat.two_pow_pos _

end Board

/-! ### Register zero -/

lemma Cpu.get_zero_set (c : Cpu) (r : Reg) (v : UInt32) : (c.set r v).gpr.get 0 = c.gpr.get 0 := by
  rw [set]
  split
  · rfl
  · rename_i hr
    rw [RegFile.get_put, if_neg hr]

namespace Board

variable {hw : Hardware δ} {now : UInt64} {b : Board δ} {c : Cpu}

lemma gpr_serveLoad (w : Width) (addr : UInt32) : (serveLoad hw now w addr c b).cpu.gpr = c.gpr := by
  rw [serveLoad]
  split
  · rfl
  · exact (Cpu.files_enter ..).1

lemma gpr_serveStore (w : Width) (addr v : UInt32) : (serveStore hw now w addr v c b).cpu.gpr = c.gpr := by
  rw [serveStore]
  split
  · rfl
  · exact (Cpu.files_enter ..).1

/-- Outside the geometry coprocessor no service writes a general register. -/
lemma gpr_serve (service : Service) (hservice : service ≠ .cop2) (x y : UInt32) :
    (serve hw now service x y c b).cpu.gpr = c.gpr := by
  cases service with
  | cop2 => exact absurd rfl hservice
  | loadByte | loadHalf | loadWord => exact gpr_serveLoad ..
  | storeByte | storeHalf | storeWord => exact gpr_serveStore ..
  | loadWordLeft | loadWordRight | storeWordLeft | storeWordRight | mfc0 | rfe => rfl
  | syscall | breakpoint | overflow | reserved => exact (Cpu.files_enter ..).1
  | mtc0 =>
    dsimp only [serve, Cpu.writeCop0]
    split
    · rfl
    · split <;> rfl
  | divide =>
    dsimp only [serve, Cpu.divide]
    split <;> rfl
  | divideUnsigned =>
    dsimp only [serve, Cpu.divideUnsigned]
    split <;> rfl

end Board

/-- Outside the geometry coprocessor no instruction writes register zero. -/
theorem Instr.get_zero_exec {hw : Hardware δ} {now : UInt64} {i : Instr} (hi : ∀ word, i ≠ .cop2 word) (pc : UInt32)
    (c : Cpu) (b : Board δ) : (i.exec (Board.serve hw now) pc c b).cpu.gpr.get 0 = c.gpr.get 0 := by
  have hask : ∀ service x y, service ≠ .cop2 → ((Board.serve hw now).ask service x y pc c b).cpu.gpr = c.gpr :=
    fun service x y hservice => Board.gpr_serve service hservice x y
  have hserved : ∀ {service x y write}, service ≠ .cop2 → (∀ v c, (write v c : Cpu).gpr.get 0 = c.gpr.get 0) →
      (whenServed ((Board.serve hw now).ask service x y pc c b) write).cpu.gpr.get 0 = c.gpr.get 0 := by
    intro service x y write hservice hwrite
    rw [whenServed]
    split
    · rw [hwrite, hask _ _ _ hservice]
    · rw [hask _ _ _ hservice]
  cases i with
  | arith op rd rs o =>
    dsimp only [exec]
    split
    · exact congrArg (·.get 0) (hask .overflow 0 0 (by decide))
    · exact Cpu.get_zero_set ..
  | shift | fromHi | fromLo => exact Cpu.get_zero_set ..
  | multiply | toHi | toLo => rfl
  | divide signed =>
    exact congrArg (·.get 0) (hask (if signed then .divide else .divideUnsigned) _ _ (by cases signed <;> decide))
  | rfe => rfl
  | load kind => exact hserved (by cases kind <;> decide) fun _ _ => Cpu.get_zero_set ..
  | mfc0 => exact hserved (by decide) fun _ _ => Cpu.get_zero_set ..
  | store kind => exact hserved (by cases kind <;> decide) fun _ _ => rfl
  | mtc0 | syscall | breakpoint | reserved => exact hserved (by decide) fun _ _ => rfl
  | cop2 word => exact absurd rfl (hi word)

/-! ### From words to meanings -/

namespace Mnemonic

/-- The instruction that a word with the encoding stands for. -/
def instr (w : UInt32) : Mnemonic → Instr
  | add => .arith .add (rd w) (rs w) (.reg (rt w))
  | addu => .arith .addu (rd w) (rs w) (.reg (rt w))
  | sub => .arith .sub (rd w) (rs w) (.reg (rt w))
  | subu => .arith .subu (rd w) (rs w) (.reg (rt w))
  | and => .arith .and (rd w) (rs w) (.reg (rt w))
  | or => .arith .or (rd w) (rs w) (.reg (rt w))
  | xor => .arith .xor (rd w) (rs w) (.reg (rt w))
  | nor => .arith .nor (rd w) (rs w) (.reg (rt w))
  | slt => .arith .slt (rd w) (rs w) (.reg (rt w))
  | sltu => .arith .sltu (rd w) (rs w) (.reg (rt w))
  | addi => .arith .add (rt w) (rs w) (.imm (signedImmediate w))
  | addiu => .arith .addu (rt w) (rs w) (.imm (signedImmediate w))
  | slti => .arith .slt (rt w) (rs w) (.imm (signedImmediate w))
  | sltiu => .arith .sltu (rt w) (rs w) (.imm (signedImmediate w))
  | andi => .arith .and (rt w) (rs w) (.imm (immediate w))
  | ori => .arith .or (rt w) (rs w) (.imm (immediate w))
  | xori => .arith .xor (rt w) (rs w) (.imm (immediate w))
  | lui => .arith .or (rt w) 0 (.imm (immediate w <<< 16))
  | sll => .shift .left (rd w) (rt w) (.imm (amount w))
  | srl => .shift .rightLogical (rd w) (rt w) (.imm (amount w))
  | sra => .shift .rightArithmetic (rd w) (rt w) (.imm (amount w))
  | sllv => .shift .left (rd w) (rt w) (.reg (rs w))
  | srlv => .shift .rightLogical (rd w) (rt w) (.reg (rs w))
  | srav => .shift .rightArithmetic (rd w) (rt w) (.reg (rs w))
  | mult => .multiply true (rs w) (rt w)
  | multu => .multiply false (rs w) (rt w)
  | div => .divide true (rs w) (rt w)
  | divu => .divide false (rs w) (rt w)
  | mfhi => .fromHi (rd w)
  | mflo => .fromLo (rd w)
  | mthi => .toHi (rs w)
  | mtlo => .toLo (rs w)
  | lb => .load .byte (rt w) (rs w) (signedImmediate w)
  | lh => .load .half (rt w) (rs w) (signedImmediate w)
  | lw => .load .word (rt w) (rs w) (signedImmediate w)
  | lbu => .load .byteUnsigned (rt w) (rs w) (signedImmediate w)
  | lhu => .load .halfUnsigned (rt w) (rs w) (signedImmediate w)

/-- The encodings are those that the decoder goes by. -/
theorem decode_eq {k : Mnemonic} {w : UInt32} (h : k.encoding.Holds w) (pc : UInt32) :
    decode w pc = .instr (k.instr w) := by
  cases k <;> simp only [encoding, Encoding.Holds] at h <;> simp [decode, decodeSpecial, h, instr]

variable {hw : Hardware δ} {now : UInt64} {w pc : UInt32} {c : Cpu} {b : Board δ}

lemma loads_exec {kind : LoadKind} {width : Width} {P : (addr answer v : UInt32) → Prop}
    (hservice : ∀ x y c b, Board.serve hw now (Instr.loadService kind) x y c b = Board.serveLoad hw now width x c b)
    (hP : ∀ addr, P addr (b.load hw now addr width).1 (Instr.extend kind (b.load hw now addr width).1)) :
    Loads hw now w pc c b width P
      ((Instr.load kind (rt w) (rs w) (signedImmediate w)).exec (Board.serve hw now) pc c b) := by
  intro addr haddr halign habort
  have hmod := signed_add (c.reg (rs w)) (signedImmediate w)
  rw [signed_signedImmediate] at hmod
  obtain rfl := eq_of_signed_modEq (haddr.trans hmod.symm)
  exact ⟨_, hP _, Instr.exec_load hservice halign habort⟩

/-- An instruction does what its mnemonic means. -/
theorem means_exec (k : Mnemonic) :
    k.Means hw now w pc c b ((k.instr w).exec (Board.serve hw now) pc c b) := by
  cases k with dsimp only [Means, instr]
  | add => exact Instr.checks_add
  | addi =>
    rw [← signed_signedImmediate]
    exact Instr.checks_add
  | sub => exact Instr.checks_sub
  | addu => exact Instr.writes_arith rfl (signed_add ..)
  | addiu =>
    rw [← signed_signedImmediate]
    exact Instr.writes_arith rfl (signed_add ..)
  | subu => exact Instr.writes_arith rfl (signed_sub ..)
  | and => exact Instr.writes_arith rfl (bitwise_and _ _)
  | or => exact Instr.writes_arith rfl (bitwise_or _ _)
  | xor => exact Instr.writes_arith rfl (bitwise_xor _ _)
  | nor => exact Instr.writes_arith rfl (bitwise_nor _ _)
  | andi =>
    rw [← toNat_immediate]
    exact Instr.writes_arith rfl (bitwise_and _ _)
  | ori =>
    rw [← toNat_immediate]
    exact Instr.writes_arith rfl (bitwise_or _ _)
  | xori =>
    rw [← toNat_immediate]
    exact Instr.writes_arith rfl (bitwise_xor _ _)
  | lui => exact Instr.writes_arith rfl (toNat_upper w)
  | slt => exact Instr.writes_arith rfl (Arith.eval_slt ..)
  | slti =>
    rw [← signed_signedImmediate]
    exact Instr.writes_arith rfl (Arith.eval_slt ..)
  | sltu => exact Instr.writes_arith rfl (Arith.eval_sltu ..)
  | sltiu =>
    simp only [← toNat_signedImmediate, Nat.cast_lt]
    exact Instr.writes_arith rfl (Arith.eval_sltu ..)
  | sll =>
    rw [← amount_mod]
    exact Instr.writes_shift (Shift.toNat_left ..)
  | srl =>
    rw [← amount_mod]
    exact Instr.writes_shift (Shift.toNat_rightLogical ..)
  | sra =>
    rw [← amount_mod]
    exact Instr.writes_shift (Shift.signed_rightArithmetic ..)
  | sllv => exact Instr.writes_shift (Shift.toNat_left ..)
  | srlv => exact Instr.writes_shift (Shift.toNat_rightLogical ..)
  | srav => exact Instr.writes_shift (Shift.signed_rightArithmetic ..)
  | mult => exact ⟨_, _, Instr.product_signed .., rfl⟩
  | multu => exact ⟨_, _, Instr.product_unsigned .., rfl⟩
  | div =>
    obtain ⟨hi, lo, hdiv, heq⟩ := Cpu.divide_divides { c with currentPc := pc } (c.reg (rs w)) (c.reg (rt w))
    exact ⟨hi, lo, hdiv, congrArg (Executed.mk false · b) heq⟩
  | divu =>
    obtain ⟨hi, lo, hdiv, heq⟩ := Cpu.divideUnsigned_divides { c with currentPc := pc } (c.reg (rs w)) (c.reg (rt w))
    exact ⟨hi, lo, hdiv, congrArg (Executed.mk false · b) heq⟩
  | mfhi => exact ⟨_, rfl, rfl⟩
  | mflo => exact ⟨_, rfl, rfl⟩
  | mthi => exact ⟨_, _, ⟨rfl, rfl⟩, rfl⟩
  | mtlo => exact ⟨_, _, ⟨rfl, rfl⟩, rfl⟩
  | lb => exact loads_exec (fun _ _ _ _ => rfl) fun _ => signed_signExtendByte _
  | lh => exact loads_exec (fun _ _ _ _ => rfl) fun _ => signed_signExtendHalf _
  | lw => exact loads_exec (fun _ _ _ _ => rfl) fun _ => by simp only [Instr.extend]
  | lbu =>
    refine loads_exec (fun _ _ _ _ => rfl) fun addr => ?_
    simp only [Instr.extend, true_and]
    exact fun hnarrow => (Nat.mod_eq_of_lt hnarrow.toNat_load_lt).symm
  | lhu =>
    refine loads_exec (fun _ _ _ _ => rfl) fun addr => ?_
    simp only [Instr.extend, true_and]
    exact fun hnarrow => (Nat.mod_eq_of_lt hnarrow.toNat_load_lt).symm

/-- Every word with the encoding of a mnemonic is read as an instruction that does what the mnemonic means, and leaves
register zero alone. -/
theorem decoded_means (hw : Hardware δ) (now : UInt64) {k : Mnemonic} {w : UInt32} (hk : k.encoding.Holds w)
    (pc : UInt32) (c : Cpu) (b : Board δ) :
    ∃ i, decode w pc = .instr i ∧ k.Means hw now w pc c b (i.exec (Board.serve hw now) pc c b) ∧
      (i.exec (Board.serve hw now) pc c b).cpu.gpr.get 0 = c.gpr.get 0 :=
  ⟨k.instr w, decode_eq hk pc, means_exec k, Instr.get_zero_exec (by cases k <;> simp [instr]) pc c b⟩

/-- The greatest signed number doubled. -/
theorem decoded_means_overflow : ∃ i, decode 0x01084820 0 = .instr i ∧
    i.exec (Board.serve (.absent Unit) 0) 0 Board.running Board.idle =
      ⟨true, { Board.running with currentPc := 0 }.enter .overflow, Board.idle⟩ := by
  obtain ⟨i, hi, hmeans, -⟩ :=
    decoded_means (.absent Unit) 0 (k := .add) (w := 0x01084820) ⟨rfl, rfl⟩ 0 Board.running Board.idle
  refine ⟨i, hi, ?_⟩
  dsimp only [Means, Executed.Checks] at hmeans
  rwa [if_neg (by decide +kernel)] at hmeans

end Mnemonic

end R3000
