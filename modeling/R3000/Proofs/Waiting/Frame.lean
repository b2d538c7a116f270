import Mathlib
import R3000.Proofs.Chains.Ledger
import R3000.Proofs.Chains.Partition
import R3000.Proofs.Faults
import R3000.Proofs.Integers.Words
import R3000.Proofs.Running

/-!
# What a waiting loop leaves alone

A block counts as waiting only if none of its instructions has side effects.  Memory is then as before, whatever the
block does.  But the instructions that count are not all that write outside the general registers: products and
quotients, the return from an exception, and loads and commands of the geometry coprocessor do not count.  A file of
registers is as before if the block has no instruction of these that writes it, and raises no exception.
-/

namespace R3000

variable {δ σ : Type} {host : Host σ}

/-! ### Relations along a block -/

/-- The state after some instructions of a block. -/
def Progress.state : Progress σ → Cpu × σ
  | .running _ c s => (c, s)
  | .departed d => (d.cpu, d.rest)

/-- The state after an instruction. -/
def Executed.state (r : Executed σ) : Cpu × σ := (r.cpu, r.rest)

/-- The state in which a block is left. -/
def Departed.state (d : Departed σ) : Cpu × σ := (d.cpu, d.rest)

/-- A relation between an earlier and a later state that looks neither at general registers nor at what an exit
writes. -/
structure Along (R : Cpu × σ → Cpu × σ → Prop) : Prop where
  refl : ∀ x, R x x
  trans : ∀ {x y z}, R x y → R y z → R x z
  set : ∀ c s r v, R (c, s) (c.set r v, s)
  exit : ∀ c s pc currentPc cyclesLeft linkBudget, R (c, s) ({ c with pc, currentPc, cyclesLeft, linkBudget }, s)

namespace Plan

/-- The instructions of a block, with the one in its delay slot. -/
def instrs (p : Plan) : List Instr := p.body ++ (p.ending.bind (·.delay)).toList

/-- No instruction of a waiting block has side effects. -/
lemma hasSideEffects_of_idle {p : Plan} (h : p.idle ≠ .none) {i : Instr} (hi : i ∈ p.instrs) :
    i.hasSideEffects = false := by
  rw [idle] at h
  split at h
  · exact absurd rfl h
  · rename_i e hending
    split at h
    · exact absurd rfl h
    · rename_i hnone
      simp only [Bool.or_eq_true, List.any_eq_true, Option.any_eq_true, not_or, not_exists, not_and,
        Bool.not_eq_true] at hnone
      simp only [instrs, hending, Option.bind_some, List.mem_append, Option.mem_toList] at hi
      exact hi.elim (hnone.1 i) (hnone.2 i)

end Plan

namespace Along

variable {R : Cpu × σ → Cpu × σ → Prop} (hR : Along R)

include hR

lemma step {i : Instr} (hi : ∀ pc c s, R (c, s) (i.exec host pc c s).state) (pc : UInt32) (left : Int32) (c : Cpu)
    (s : σ) : R (c, s) (Block.step host pc i left c s).state := by
  dsimp only [Block.step]
  split
  · exact hR.trans (hi pc c s) (hR.exit ..)
  · exact hi pc c s

lemma steps {is : List Instr} (his : ∀ i ∈ is, ∀ pc c s, R (c, s) (i.exec host pc c s).state) (pc : UInt32)
    (left : Int32) (c : Cpu) (s : σ) : R (c, s) (Block.steps host pc is left c s).state := by
  induction is generalizing pc left c s with
  | nil => exact hR.refl _
  | cons i is ih =>
    have hstep := hR.step (his i List.mem_cons_self) pc left c s
    rw [Block.steps]
    cases heq : Block.step host pc i left c s with
    | running left' c' s' =>
      rw [heq] at hstep
      exact hR.trans hstep (ih (fun j hj => his j (List.mem_cons_of_mem i hj)) ..)
    | departed d =>
      rw [heq] at hstep
      exact hstep

lemma delay {slot : Option Instr} (hslot : ∀ i ∈ slot, ∀ pc c s, R (c, s) (i.exec host pc c s).state) (pc : UInt32)
    (left : Int32) (c : Cpu) (s : σ) : R (c, s) (Block.delay host pc slot left c s).state := by
  cases slot with
  | none => exact hR.refl _
  | some i => exact hR.step (hslot i rfl) pc left c s

lemma directExit (exits : List Exit) (target : UInt32) (left : Int32) (c : Cpu) (s : σ) :
    R (c, s) (Block.directExit exits target left c s).state := by
  dsimp only [Block.directExit]
  split
  · exact hR.exit ..
  · split <;> exact hR.exit ..

lemma linked (t : Transfer) (pc : UInt32) (c : Cpu) (s : σ) : R (c, s) (t.linked pc c, s) := by
  cases t with
  | jump target link | branch cond rs rt target link =>
    cases link with
    | false => exact hR.refl _
    | true => exact hR.set c s Block.linkRegister _
  | jumpReg rs link =>
    cases link with
    | none => exact hR.refl _
    | some rd => exact hR.set ..

lemma go (t : Transfer) (exits : List Exit) (pc fallthrough : UInt32) (c : Cpu) (left : Int32) (c' : Cpu) (s : σ) :
    R (c', s) (t.go exits pc fallthrough c left c' s).state := by
  cases t with
  | jump target link | branch cond rs rt target link => exact hR.directExit ..
  | jumpReg rs link => exact hR.exit ..

lemma finish {e : Ending} (hslot : ∀ i ∈ e.delay, ∀ pc c s, R (c, s) (i.exec host pc c s).state)
    (exits : List Exit) (pc fallthrough : UInt32) (left : Int32) (c : Cpu) (s : σ) :
    R (c, s) (Block.finish host exits pc fallthrough e left c s).state := by
  have hlinked := hR.linked e.transfer pc c s
  have hdelay := hR.delay hslot (pc + 4) (spend left 1) (e.transfer.linked pc c) s
  rw [Block.finish_eq]
  cases heq : Block.delay host (pc + 4) e.delay (spend left 1) (e.transfer.linked pc c) s with
  | running left' c' s' =>
    rw [heq] at hdelay
    exact hR.trans (hR.trans hlinked hdelay) (hR.go ..)
  | departed d =>
    rw [heq] at hdelay
    exact hR.trans hlinked hdelay

/-- What holds along every instruction of a block holds along the block. -/
theorem enter {b : Block} (hb : ∀ i ∈ b.plan.instrs, ∀ pc c s, R (c, s) (i.exec host pc c s).state) (budget : Int32)
    (c : Cpu) (s : σ) : R (c, s) (b.enter host budget c s).state := by
  have hbody := fun i hi => hb i (List.mem_append_left _ hi)
  have hsteps := hR.steps hbody b.plan.start budget c s
  rw [Block.enter_eq, Block.interpret]
  cases heq : Block.steps host b.plan.start b.plan.body budget c s with
  | departed d =>
    rw [heq] at hsteps
    exact hsteps
  | running left c' s' =>
    rw [heq] at hsteps
    refine hR.trans hsteps ?_
    dsimp only
    split
    · rename_i e hending
      refine hR.finish (fun i hi => hb i (List.mem_append_right _ ?_)) ..
      rwa [hending, Option.bind_some, Option.mem_toList]
    · split
      · exact hR.exit ..
      · exact hR.directExit ..

end Along

/-! ### Memory -/

namespace Board

variable {hw : Hardware δ} {now : UInt64} {c : Cpu} {b : Board δ}

lemma memory_serveCop2 {word : UInt32} (hword : (Instr.cop2 word).hasSideEffects = false) :
    (serveCop2 hw now word c b).rest.memory = b.memory := by
  simp only [Instr.hasSideEffects, Bool.or_eq_false_iff, beq_eq_false_iff_ne] at hword
  rw [serveCop2]
  split
  · split
    · split <;> rfl
    · rw [serveCop2Load]
      dsimp only
      split <;> rfl
    · rename_i hopcode
      exact absurd (UInt32.toNat_inj.mp hopcode) hword.1
    · rfl
  · rfl

/-- An instruction without side effects does not write memory. -/
lemma memory_exec {i : Instr} (hi : i.hasSideEffects = false) (pc : UInt32) (c : Cpu) (b : Board δ) :
    (i.exec (serve hw now) pc c b).rest.memory = b.memory := by
  have hserved : ∀ {r : Served (Board δ)} {write}, r.rest.memory = b.memory →
      (Instr.whenServed r write).rest.memory = b.memory := by
    intro r write hr
    rw [Instr.whenServed]
    split <;> exact hr
  cases i with
  | store | mtc0 | syscall | breakpoint => cases hi
  | arith op rd rs operand =>
    dsimp only [Instr.exec]
    split <;> rfl
  | shift | multiply | fromHi | fromLo | toHi | toLo | rfe => rfl
  | divide signed => cases signed <;> rfl
  | load kind =>
    apply hserved
    cases kind with
    | byte | byteUnsigned | half | halfUnsigned | word => exact memory_serveLoad ..
    | wordLeft | wordRight => rfl
  | mfc0 | reserved => exact hserved rfl
  | cop2 word => exact hserved (memory_serveCop2 hi)

end Board

/-! ### Register files -/

/-- A file of registers outside the general ones. -/
inductive RegisterFile
  /-- The registers of products and quotients. -/
  | hiLo
  | cop0
  | cop2Data
  | cop2Control
  deriving DecidableEq, Repr

/-- Two processors hold the same in a file. -/
def RegisterFile.Same (c c' : Cpu) : RegisterFile → Prop
  | hiLo => c'.hi = c.hi ∧ c'.lo = c.lo
  | cop0 => c'.cop0 = c.cop0
  | cop2Data => c'.cop2Data = c.cop2Data
  | cop2Control => c'.cop2Control = c.cop2Control

/-- Whether an instruction may write a file and does not count as one with side effects.  A command of the geometry
coprocessor may write everything. -/
def Instr.escapes (i : Instr) (f : RegisterFile) : Bool :=
  match i with
  | multiply .. | divide .. | toHi .. | toLo .. => f == .hiLo
  | rfe => f == .cop0
  | cop2 word =>
    Word.opcode word == 0x32 && f == .cop2Data || Word.opcode word == 0x12 && word &&& 0x02000000 != 0
  | _ => false

/-- The running block goes on, and either it was aborted or the file is as before. -/
structure Cpu.Keeps (f : RegisterFile) (c c' : Cpu) : Prop where
  inBlock : c'.inBlock = c.inBlock
  same : c.inBlock ≠ 0 → c'.blockAborted = 0 → c.blockAborted = 0 ∧ f.Same c c'

namespace Cpu.Keeps

variable {f : RegisterFile} {c c' c'' : Cpu}

lemma refl (f : RegisterFile) (c : Cpu) : c.Keeps f c where
  inBlock := rfl
  same _ habort := ⟨habort, by cases f <;> simp [RegisterFile.Same]⟩

lemma trans (h : c.Keeps f c') (h' : c'.Keeps f c'') : c.Keeps f c'' where
  inBlock := h'.inBlock.trans h.inBlock
  same hin habort := by
    obtain ⟨habort', hsame'⟩ := h'.same (h.inBlock ▸ hin) habort
    obtain ⟨habort'', hsame⟩ := h.same hin habort'
    refine ⟨habort'', ?_⟩
    cases f with
    | hiLo => exact ⟨hsame'.1.trans hsame.1, hsame'.2.trans hsame.2⟩
    | cop0 | cop2Data | cop2Control => exact Eq.trans hsame' hsame

/-- A processor that differs in general registers, and in words that are shared with the dispatcher. -/
lemma of_eq (hhi : c'.hi = c.hi) (hlo : c'.lo = c.lo) (hcop0 : c'.cop0 = c.cop0) (hdata : c'.cop2Data = c.cop2Data)
    (hcontrol : c'.cop2Control = c.cop2Control) (hin : c'.inBlock = c.inBlock)
    (habort : c'.blockAborted = c.blockAborted) : c.Keeps f c' where
  inBlock := hin
  same _ h := by
    refine ⟨habort ▸ h, ?_⟩
    cases f with
    | hiLo => exact ⟨hhi, hlo⟩
    | cop0 => exact hcop0
    | cop2Data => exact hdata
    | cop2Control => exact hcontrol

lemma set (f : RegisterFile) (c : Cpu) (r : Reg) (v : UInt32) : c.Keeps f (c.set r v) := by
  rw [Cpu.set]
  split
  · exact refl f c
  · exact of_eq rfl rfl rfl rfl rfl rfl rfl

lemma currentPc (f : RegisterFile) (c : Cpu) (pc : UInt32) : c.Keeps f { c with currentPc := pc } :=
  of_eq rfl rfl rfl rfl rfl rfl rfl

/-- An exception aborts the block. -/
lemma of_raised (hin : c'.inBlock = c.inBlock) (habort : c.inBlock ≠ 0 → c'.blockAborted ≠ 0) : c.Keeps f c' where
  inBlock := hin
  same hin h := absurd h (habort hin)

lemma enter (f : RegisterFile) (c : Cpu) (e : Exception) : c.Keeps f (c.enter e) :=
  of_raised (inBlock_enter c e) (blockAborted_enter_ne_zero · e)

lemma addressError (f : RegisterFile) (c : Cpu) (addr : UInt32) (e : Exception) :
    c.Keeps f (c.addressError addr e) :=
  of_raised (inBlock_enter _ e) fun hin =>
    blockAborted_enter_ne_zero (c := { c with cop0 := c.cop0.put badAddress addr }) hin e

lemma along (f : RegisterFile) : Along fun x y : Cpu × σ => x.1.Keeps f y.1 where
  refl x := refl f x.1
  trans := trans
  set c _ r v := set f c r v
  exit _ _ _ _ _ _ := of_eq rfl rfl rfl rfl rfl rfl rfl

end Cpu.Keeps

namespace Board

open Cpu (Keeps)

variable {hw : Hardware δ} {now : UInt64} {f : RegisterFile}

lemma keeps_serveLoad (f : RegisterFile) (w : Width) (addr : UInt32) (c : Cpu) (b : Board δ) :
    c.Keeps f (serveLoad hw now w addr c b).cpu := by
  rw [serveLoad]
  split
  · exact .refl f c
  · exact .addressError ..

lemma keeps_serveMove {word : UInt32} (hfour : Word.rs word ≠ 4) (hsix : Word.rs word ≠ 6) (c : Cpu) :
    c.Keeps f (serveMove word c) := by
  rw [serveMove]
  split
  · exact .set ..
  · exact .set ..
  · rename_i hrs
    exact absurd (Fin.ext hrs) hfour
  · rename_i hrs
    exact absurd (Fin.ext hrs) hsix
  · exact .enter ..

/-- The field that tells moves apart, as it is read and as it is classified. -/
lemma toNat_field (word : UInt32) : ((word >>> 21) &&& 0x1F).toNat = (Word.rs word).val :=
  Shift.toNat_amount (word >>> 21)

lemma keeps_serveCop2 {word : UInt32} (hside : (Instr.cop2 word).hasSideEffects = false)
    (hescapes : (Instr.cop2 word).escapes f = false) (c : Cpu) (b : Board δ) :
    c.Keeps f (serveCop2 hw now word c b).cpu := by
  simp only [Instr.hasSideEffects, Bool.or_eq_false_iff, Bool.and_eq_false_iff, beq_eq_false_iff_ne] at hside
  simp only [Instr.escapes, Bool.or_eq_false_iff, Bool.and_eq_false_iff, beq_eq_false_iff_ne] at hescapes
  obtain ⟨hstore, hmove⟩ := hside
  obtain ⟨hload, hcommand⟩ := hescapes
  rw [serveCop2]
  split
  · split <;> rename_i hopcode
    · have hopcode' : Word.opcode word = 0x12 := UInt32.toNat_inj.mp hopcode
      obtain ⟨hfour, hsix⟩ := hmove.resolve_left (absurd hopcode')
      have hclear : word &&& 0x02000000 = 0 := by
        simpa using hcommand.resolve_left (absurd hopcode')
      rw [if_pos hclear]
      refine keeps_serveMove (fun hrs => hfour ?_) (fun hrs => hsix ?_) c <;>
        exact UInt32.toNat_inj.mp (by rw [toNat_field, hrs]; rfl)
    · have hdata := hload.resolve_left (absurd (UInt32.toNat_inj.mp hopcode))
      dsimp only [serveCop2Load]
      split
      · refine ⟨rfl, fun _ habort => ⟨habort, ?_⟩⟩
        cases f with
        | cop2Data => exact absurd rfl hdata
        | hiLo | cop0 | cop2Control => simp [RegisterFile.Same]
      · exact .addressError ..
    · exact absurd (UInt32.toNat_inj.mp hopcode) hstore
    · exact .enter ..
  · refine .of_raised (Cpu.inBlock_enter c .coprocessor) fun hin => ?_
    exact Cpu.blockAborted_enter_ne_zero hin .coprocessor

/-- An instruction without side effects keeps a file that it does not write, unless it aborts the block. -/
lemma keeps_exec {i : Instr} (hside : i.hasSideEffects = false) (hescapes : i.escapes f = false) (pc : UInt32)
    (c : Cpu) (b : Board δ) : c.Keeps f (i.exec (serve hw now) pc c b).cpu := by
  have hserved : ∀ {r : Served (Board δ)} {write}, Keeps f { c with currentPc := pc } r.cpu →
      (∀ v c, Keeps f c (write v c)) → c.Keeps f (Instr.whenServed r write).cpu := by
    intro r write hr hwrite
    have hcpu := (Keeps.currentPc f c pc).trans hr
    rw [Instr.whenServed]
    split
    · exact hcpu.trans (hwrite ..)
    · exact hcpu
  cases i with
  | store | mtc0 | syscall | breakpoint => cases hside
  | arith op rd rs operand =>
    dsimp only [Instr.exec]
    split
    · exact (Keeps.currentPc f c pc).trans (.enter ..)
    · exact .set ..
  | shift | fromHi | fromLo => exact .set ..
  | multiply | toHi | toLo =>
    refine ⟨rfl, fun _ habort => ⟨habort, ?_⟩⟩
    cases f with
    | hiLo => cases hescapes
    | cop0 | cop2Data | cop2Control => rfl
  | divide signed rs rt =>
    obtain ⟨hi, lo, hdivide⟩ : ∃ hi lo, ((Instr.divide signed rs rt).exec (serve hw now) pc c b).cpu =
        { c with currentPc := pc, hi, lo } := by
      cases signed with
      | true =>
        obtain ⟨hi, lo, -, heq⟩ := Cpu.divide_divides { c with currentPc := pc } (c.reg rs) (c.reg rt)
        exact ⟨hi, lo, heq⟩
      | false =>
        obtain ⟨hi, lo, -, heq⟩ := Cpu.divideUnsigned_divides { c with currentPc := pc } (c.reg rs) (c.reg rt)
        exact ⟨hi, lo, heq⟩
    rw [hdivide]
    refine ⟨rfl, fun _ habort => ⟨habort, ?_⟩⟩
    cases f with
    | hiLo => cases hescapes
    | cop0 | cop2Data | cop2Control => rfl
  | rfe =>
    refine ⟨rfl, fun _ habort => ⟨habort, ?_⟩⟩
    cases f with
    | cop0 => cases hescapes
    | hiLo => exact ⟨rfl, rfl⟩
    | cop2Data | cop2Control => rfl
  | load kind =>
    refine hserved ?_ fun v c => .set ..
    cases kind with
    | byte | byteUnsigned | half | halfUnsigned | word => exact keeps_serveLoad ..
    | wordLeft | wordRight => exact .refl ..
  | mfc0 => exact hserved (.refl ..) fun v c => .set ..
  | reserved => exact hserved (.enter ..) fun v c => .refl ..
  | cop2 word => exact hserved (keeps_serveCop2 hside hescapes ..) fun v c => .refl ..

/-- A waiting block does not write memory; and if it ends without an exception, it leaves alone every file of registers
that none of its instructions escapes to. -/
theorem idle_frame (hw : Hardware δ) (now : UInt64) {b : Block} (hidle : b.plan.idle ≠ .none) (budget : Int32)
    (c : Cpu) (board : Board δ) :
    (b.enter (serve hw now) budget c board).rest.memory = board.memory ∧
      ∀ f : RegisterFile, (∀ i ∈ b.plan.instrs, i.escapes f = false) → c.inBlock ≠ 0 →
        (b.enter (serve hw now) budget c board).cpu.blockAborted = 0 →
          f.Same c (b.enter (serve hw now) budget c board).cpu := by
  have hmemory : Along fun x y : Cpu × Board δ => y.2.memory = x.2.memory :=
    ⟨fun _ => rfl, fun h h' => h'.trans h, fun _ _ _ _ => rfl, fun _ _ _ _ _ _ => rfl⟩
  constructor
  · exact hmemory.enter (fun i hi => memory_exec (Plan.hasSideEffects_of_idle hidle hi)) budget c board
  · intro f hf hin habort
    have hkeeps : c.Keeps f (b.enter (serve hw now) budget c board).cpu := (Keeps.along f).enter
      (fun i hi => keeps_exec (Plan.hasSideEffects_of_idle hidle hi) (hf i hi)) budget c board
    exact (hkeeps.same hin habort).2

/-- A loop on the register of the upper half of a product, with a load in the delay slot. -/
theorem idle_frame_poll :
    ∃ p, Plan.ofSource (program [0x00004010, 0x1500FFFE, 0x8C090000]) true 0 64 = .ok p ∧ p.idle = .weak ∧
      (Block.enter (serve (.absent Unit) 0) ⟨p, []⟩ 100 running idle).rest.memory = idle.memory ∧
        ∀ f : RegisterFile, f.Same running (Block.enter (serve (.absent Unit) 0) ⟨p, []⟩ 100 running idle).cpu := by
  have hplan : Plan.ofSource (program [0x00004010, 0x1500FFFE, 0x8C090000]) true 0 64 = .ok _ := rfl
  refine ⟨_, hplan, rfl, ?_⟩
  refine (idle_frame (.absent Unit) 0 (by decide) 100 running idle).imp_right fun hfiles f => ?_
  exact hfiles f (by cases f <;> decide) (by decide) rfl

/-- A loop with a product counts as waiting. -/
example : ∃ p, Plan.ofSource (program [0x01080018, 0x08000000, 0]) true 0 64 = .ok p ∧ p.idle = .strong ∧
    (Block.enter (serve (.absent Unit) 0) ⟨p, []⟩ 100 running idle).cpu.lo ≠ running.lo :=
  ⟨_, rfl, rfl, by decide +kernel⟩

end Board

end R3000
