import Mathlib
import R3000.Proofs.Chains.Steady
import R3000.Proofs.Exceptions

/-!
# Faults

An instruction raises an exception for what it finds in the registers, before it writes any of them.
`Instr.fault` says which exception that is, and the services of the machine raise no other.
-/

namespace R3000

/-- An exception raised by an instruction; an address error comes with the address. -/
structure Fault where
  exception : Exception
  address : Option UInt32
  deriving DecidableEq

/-! ### The exception of an instruction -/

/-- The fault of an access to an address off its alignment. -/
def Fault.ofAddress (e : Exception) (addr : UInt32) (w : Width) : Option Fault :=
  if Board.aligned addr w then none else some ⟨e, some addr⟩

@[simp] lemma Fault.ofAddress_byte (e : Exception) (addr : UInt32) : ofAddress e addr .byte = none :=
  if_pos (by simp [Board.aligned, Width.bytes, Nat.mod_one])

/-- The width to which a load has to be aligned. -/
def LoadKind.width : LoadKind → Width
  | .half | .halfUnsigned => .half
  | .word => .word
  | .byte | .byteUnsigned | .wordLeft | .wordRight => .byte

/-- The width to which a store has to be aligned. -/
def StoreKind.width : StoreKind → Width
  | .half => .half
  | .word => .word
  | .byte | .wordLeft | .wordRight => .byte

namespace Instr

/-- The fault of a move between general registers and those of the geometry coprocessor. -/
def moveFault (word : UInt32) : Option Fault :=
  match (Word.rs word).val with
  | 0 | 2 | 4 | 6 => none
  | _ => some ⟨.reserved, none⟩

/-- The fault of an instruction of the geometry coprocessor; a command has none. -/
def cop2Fault (word : UInt32) (c : Cpu) : Option Fault :=
  let addr := c.gpr.get (Word.rs word) + Word.signedImmediate word
  if c.cop2Usable then
    match (Word.opcode word).toNat with
    | 0x12 => if word &&& 0x02000000 = 0 then moveFault word else none
    | 0x32 => Fault.ofAddress .addressLoad addr .word
    | 0x3A => Fault.ofAddress .addressStore addr .word
    | _ => some ⟨.reserved, none⟩
  else some ⟨.coprocessor, none⟩

/-- The fault of an instruction, if it raises an exception. -/
def fault (i : Instr) (c : Cpu) : Option Fault :=
  match i with
  | arith op _ rs operand =>
    if op.traps (c.reg rs) (operand.eval c) then some ⟨.overflow, none⟩ else none
  | load kind _ base offset => Fault.ofAddress .addressLoad (c.reg base + offset) kind.width
  | store kind _ base offset => Fault.ofAddress .addressStore (c.reg base + offset) kind.width
  | cop2 word => cop2Fault word c
  | syscall => some ⟨.syscall, none⟩
  | breakpoint => some ⟨.breakpoint, none⟩
  | reserved _ => some ⟨.reserved, none⟩
  | shift .. | multiply .. | divide .. | fromHi .. | fromLo .. | toHi .. | toLo .. | mfc0 .. | mtc0 ..
  | rfe => none

end Instr

/-! ### The processor after a fault -/

namespace Cpu

/-- The registers in which a fault is noted. -/
def faultRegs : List Reg := [badAddress, status, cause, exceptionPc]

/-- What a fault of the current instruction leaves of the registers: it is noted in the system control registers,
and nothing else is written. -/
structure Raised (c : Cpu) (f : Fault) (c' : Cpu) : Prop where
  gpr : c'.gpr = c.gpr
  hi : c'.hi = c.hi
  lo : c'.lo = c.lo
  cop2Data : c'.cop2Data = c.cop2Data
  cop2Control : c'.cop2Control = c.cop2Control
  exceptionPc : c'.readCop0 exceptionPc = c.currentPc
  code : (c'.readCop0 cause &&& 0x7C) >>> 2 = f.exception.code
  badAddress : c'.readCop0 badAddress = f.address.getD (c.readCop0 badAddress)
  status : c'.readCop0 status =
    c.readCop0 status &&& (0xFFFFFFC0 : UInt32) ||| c.readCop0 status <<< 2 &&& (0x3F : UInt32)
  others : ∀ r ∉ faultRegs, c'.readCop0 r = c.readCop0 r

/-- A fault in a block, which tells the dispatcher where to go on. -/
structure Aborts (c : Cpu) (f : Fault) (c' : Cpu) : Prop extends Raised c f c' where
  blockAborted : c'.blockAborted ≠ 0
  abortPc : c'.abortPc = c.vector

variable {c : Cpu}

/-- Only the code of the exception gets into its field of the cause register. -/
lemma code_cause (old more : UInt32) (hmore : more &&& 0x7C = 0) (e : Exception) :
    ((old &&& (0xFF00 : UInt32) ||| e.code <<< 2 ||| more) &&& 0x7C) >>> 2 = e.code := by
  have hold : (0xFF00 : UInt32) &&& 0x7C = 0 := by decide
  have hcode : ((e.code <<< 2) &&& 0x7C) >>> 2 = e.code := by cases e <;> decide
  rw [or_and_distrib, or_and_distrib, hmore, UInt32.and_assoc, hold, UInt32.and_zero, UInt32.zero_or,
    UInt32.or_zero, hcode]

lemma files_enter (c : Cpu) (e : Exception) : (c.enter e).gpr = c.gpr ∧ (c.enter e).hi = c.hi ∧
    (c.enter e).lo = c.lo ∧ (c.enter e).cop2Data = c.cop2Data ∧
      (c.enter e).cop2Control = c.cop2Control := by
  rw [enter]
  split <;> exact ⟨rfl, rfl, rfl, rfl, rfl⟩

lemma abortPc_enter (h : c.inBlock ≠ 0) (e : Exception) : (c.enter e).abortPc = c.vector := by
  dsimp only [enter]
  rw [if_neg h]

lemma raised_enter (c : Cpu) (e : Exception) : c.Raised ⟨e, none⟩ (c.enter e) := by
  obtain ⟨hgpr, hhi, hlo, hdata, hcontrol⟩ := files_enter c e
  constructor
  · exact hgpr
  · exact hhi
  · exact hlo
  · exact hdata
  · exact hcontrol
  · exact readCop0_enter_exceptionPc ..
  · rw [readCop0_enter_cause, ← UInt32.or_zero (a := _ ||| _)]
    exact code_cause (c.readCop0 cause) 0 (by decide) e
  · exact readCop0_enter_of_ne c e (by decide) (by decide) (by decide)
  · exact readCop0_enter_status ..
  · intro r hr
    simp only [faultRegs, List.mem_cons, List.not_mem_nil, or_false, not_or] at hr
    exact readCop0_enter_of_ne c e hr.2.2.2 hr.2.2.1 hr.2.1

lemma aborts_enter (h : c.inBlock ≠ 0) (e : Exception) : c.Aborts ⟨e, none⟩ (c.enter e) where
  toRaised := raised_enter c e
  blockAborted := blockAborted_enter_ne_zero h e
  abortPc := abortPc_enter h e

lemma aborts_addressError (h : c.inBlock ≠ 0) (addr : UInt32) (e : Exception) :
    c.Aborts ⟨e, some addr⟩ (c.addressError addr e) := by
  have hset : ∀ r, r ≠ badAddress →
      readCop0 { c with cop0 := c.cop0.put badAddress addr } r = c.readCop0 r := by
    intro r hr
    rw [readCop0_set, if_neg hr.symm]
  have hstatus := hset status (by decide)
  have haborts := aborts_enter (c := { c with cop0 := c.cop0.put badAddress addr }) h e
  constructor
  · constructor
    · exact haborts.gpr
    · exact haborts.hi
    · exact haborts.lo
    · exact haborts.cop2Data
    · exact haborts.cop2Control
    · exact haborts.exceptionPc
    · exact haborts.code
    · rw [addressError, haborts.badAddress]
      exact (readCop0_set ..).trans (if_pos rfl)
    · rw [addressError, haborts.status, hstatus]
    · intro r hr
      rw [addressError, haborts.others r hr]
      apply hset
      rintro rfl
      simp [faultRegs] at hr
  · exact haborts.blockAborted
  · rw [addressError, haborts.abortPc, vector, vector, hstatus]

lemma aborts_cop2Unusable (h : c.inBlock ≠ 0) :
    c.Aborts ⟨.coprocessor, none⟩ (Board.cop2Unusable c) := by
  have haborts := aborts_enter h .coprocessor
  have hset : ∀ r, r ≠ cause →
      (Board.cop2Unusable c).readCop0 r = (c.enter .coprocessor).readCop0 r := by
    intro r hr
    rw [Board.cop2Unusable, readCop0_set, if_neg hr.symm]
  constructor
  · constructor
    · exact haborts.gpr
    · exact haborts.hi
    · exact haborts.lo
    · exact haborts.cop2Data
    · exact haborts.cop2Control
    · rw [hset _ (by decide), haborts.exceptionPc]
    · rw [Board.cop2Unusable, readCop0_set, if_pos rfl, readCop0_enter_cause]
      exact code_cause (c.readCop0 cause) 0x20000000 (by decide) .coprocessor
    · rw [hset _ (by decide), haborts.badAddress]
    · rw [hset _ (by decide), haborts.status]
    · intro r hr
      rw [hset r, haborts.others r hr]
      rintro rfl
      simp [faultRegs] at hr
  · exact haborts.blockAborted
  · exact haborts.abortPc

end Cpu

/-! ### The services -/

namespace Board

variable {δ : Type} {hw : Hardware δ} {now : UInt64} {c : Cpu} {b : Board δ}

/-- What a service does for an instruction that has a fault or not: it raises the exception and changes nothing
else, or it leaves the abort flag alone. -/
structure Faults (f : Option Fault) (c : Cpu) (b : Board δ) (r : Served (Board δ)) : Prop where
  raises : ∀ x, f = some x → c.inBlock ≠ 0 → c.Aborts x r.cpu ∧ r.rest = b
  quiet : f = none → r.cpu.blockAborted = c.blockAborted

namespace Faults

lemma of_quiet {r : Served (Board δ)} (h : r.cpu.blockAborted = c.blockAborted) : Faults none c b r where
  raises _ hx := by simp at hx
  quiet _ := h

lemma of_raises {f : Fault} {r : Served (Board δ)} (hcpu : c.inBlock ≠ 0 → c.Aborts f r.cpu)
    (hrest : r.rest = b) : Faults (some f) c b r where
  raises x hx hin := by
    obtain rfl := Option.some.inj hx
    exact ⟨hcpu hin, hrest⟩
  quiet h := by simp at h

lemma enter (e : Exception) : Faults (some ⟨e, none⟩) c b ⟨0, c.enter e, b⟩ :=
  .of_raises (fun hin => Cpu.aborts_enter hin e) rfl

lemma addressError (e : Exception) (addr : UInt32) (w : Width) {r : Served (Board δ)}
    (hr : r.cpu.blockAborted = c.blockAborted) :
    Faults (Fault.ofAddress e addr w) c b (if aligned addr w then r else ⟨0, c.addressError addr e, b⟩) := by
  rw [Fault.ofAddress]
  split
  · exact .of_quiet hr
  · exact .of_raises (fun hin => Cpu.aborts_addressError hin addr e) rfl

end Faults

lemma faults_serveLoad (w : Width) (addr : UInt32) (c : Cpu) (b : Board δ) :
    Faults (Fault.ofAddress .addressLoad addr w) c b (serveLoad hw now w addr c b) :=
  .addressError .addressLoad addr w rfl

lemma faults_serveStore (w : Width) (addr v : UInt32) (c : Cpu) (b : Board δ) :
    Faults (Fault.ofAddress .addressStore addr w) c b (serveStore hw now w addr v c b) :=
  .addressError .addressStore addr w rfl

lemma faults_serveMove (word : UInt32) (c : Cpu) (b : Board δ) :
    Faults (Instr.moveFault word) c b ⟨0, serveMove word c, b⟩ := by
  fun_cases Instr.moveFault word <;> rename_i hrs <;> simp only [serveMove, hrs]
  · exact .of_quiet (Cpu.blockAborted_set ..)
  · exact .of_quiet (Cpu.blockAborted_set ..)
  · exact .of_quiet rfl
  · exact .of_quiet rfl
  · exact .enter .reserved

/-- With no devices the commands of the geometry coprocessor raise nothing. -/
lemma faults_serveCop2 (now : UInt64) (word : UInt32) (c : Cpu) (b : Board δ) :
    Faults (Instr.cop2Fault word c) c b (serveCop2 (.absent δ) now word c b) := by
  fun_cases Instr.cop2Fault word c with
  | case1 husable hopcode hmove =>
    simp only [serveCop2, husable, hopcode, hmove, if_true]
    exact faults_serveMove word c b
  | case2 husable hopcode hcommand =>
    simp only [serveCop2, husable, hopcode, hcommand, if_true, if_false]
    exact .of_quiet rfl
  | case3 addr husable hopcode =>
    simp only [serveCop2, husable, hopcode, if_true]
    exact .addressError .addressLoad addr .word rfl
  | case4 addr husable hopcode =>
    simp only [serveCop2, husable, hopcode, if_true]
    exact faults_serveStore .word addr _ c b
  | case5 husable hmove hload hstore =>
    simp only [serveCop2, husable, if_true]
    exact .enter .reserved
  | case6 hunusable =>
    rw [serveCop2, if_neg hunusable]
    exact .of_raises Cpu.aborts_cop2Unusable rfl

/-- The services of loads. -/
lemma faults_loadService (now : UInt64) (kind : LoadKind) (addr y : UInt32) (c : Cpu) (b : Board δ) :
    Faults (Fault.ofAddress .addressLoad addr kind.width) c b
      (serve hw now (Instr.loadService kind) addr y c b) := by
  cases kind with
  | byte | byteUnsigned | half | halfUnsigned | word => exact faults_serveLoad ..
  | wordLeft | wordRight =>
    rw [LoadKind.width, Fault.ofAddress_byte]
    exact .of_quiet rfl

/-- The services of stores. -/
lemma faults_storeService (now : UInt64) (kind : StoreKind) (addr v : UInt32) (c : Cpu) (b : Board δ) :
    Faults (Fault.ofAddress .addressStore addr kind.width) c b
      (serve hw now (Instr.storeService kind) addr v c b) := by
  cases kind with
  | byte | half | word => exact faults_serveStore ..
  | wordLeft | wordRight =>
    rw [StoreKind.width, Fault.ofAddress_byte]
    exact .of_quiet rfl

end Board

/-! ### Instructions -/

namespace Instr

open Board

variable {δ : Type} {c : Cpu} {b : Board δ}

/-- What an instruction does that has a fault or not: it raises the exception, stops the block and changes nothing
else, or it goes on unless an exception was left over from before. -/
structure Obeys (f : Option Fault) (pc : UInt32) (c : Cpu) (b : Board δ) (r : Executed (Board δ)) : Prop where
  raises : ∀ x, f = some x → c.inBlock ≠ 0 →
    r.stop = true ∧ Cpu.Aborts { c with currentPc := pc } x r.cpu ∧ r.rest = b
  quiet : f = none → c.blockAborted = 0 → r.stop = false

namespace Obeys

lemma of_stop {pc : UInt32} {r : Executed (Board δ)} (h : r.stop = false) : Obeys none pc c b r where
  raises _ hx := by simp at hx
  quiet _ _ := h

lemma of_served {hw : Hardware δ} {now : UInt64} {f : Option Fault} {service : Service} {x y pc : UInt32}
    (h : Faults f { c with currentPc := pc } b (serve hw now service x y { c with currentPc := pc } b))
    (write : UInt32 → Cpu → Cpu) :
    Obeys f pc c b (whenServed ((serve hw now).ask service x y pc c b) write) where
  raises x hx hin := by
    obtain ⟨hcpu, hrest⟩ := h.raises x hx hin
    rw [whenServed, Host.ask, if_neg hcpu.blockAborted]
    exact ⟨rfl, hcpu, hrest⟩
  quiet hf habort := by
    rw [whenServed, Host.ask, if_pos ((h.quiet hf).trans habort)]

end Obeys

/-- An instruction raises the exception of its fault before it changes anything, and no other. -/
theorem exec_obeys (now : UInt64) (pc : UInt32) (i : Instr) (c : Cpu) (b : Board δ) :
    Obeys (i.fault c) pc c b (i.exec (serve (.absent δ) now) pc c b) := by
  cases i with
  | arith op rd rs operand =>
    dsimp only [exec, fault]
    split
    · constructor
      · intro x hx hin
        obtain rfl := Option.some.inj hx
        exact ⟨rfl, Cpu.aborts_enter (c := { c with currentPc := pc }) hin .overflow, rfl⟩
      · simp
    · exact .of_stop rfl
  | shift | multiply | divide | fromHi | fromLo | toHi | toLo | rfe => exact .of_stop rfl
  | load kind rt base offset =>
    dsimp only [exec, fault]
    exact .of_served (faults_loadService now kind ..) _
  | store kind rt base offset =>
    dsimp only [exec, fault]
    exact .of_served (faults_storeService now kind ..) _
  | mfc0 rt source =>
    dsimp only [exec, fault]
    exact .of_served (.of_quiet rfl) _
  | mtc0 rt target =>
    dsimp only [exec, fault]
    refine .of_served (.of_quiet ?_) _
    dsimp only [serve, Cpu.writeCop0]
    split
    · rfl
    · split <;> rfl
  | cop2 word =>
    dsimp only [exec, fault]
    exact .of_served (faults_serveCop2 now word { c with currentPc := pc } b) _
  | syscall | breakpoint | reserved =>
    dsimp only [exec, fault]
    exact .of_served (.enter _) _

end Instr

end R3000
