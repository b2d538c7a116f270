import Mathlib
import R3000.Proofs.Chains.Points
import R3000.Proofs.Faults
import R3000.Proofs.Integers.Meaning
import R3000.Proofs.Waiting.Frame

/-!
# Address errors of a chain

No program writes register zero, the revision or the faulting address: only an address error sets the last of them.
So a chain of blocks leaves the first two as they were, and the third too, unless it comes to an instruction that
raises an address error, whose address is then the faulting one.
-/

namespace R3000

variable {σ δ : Type}

/-- The address of the address error that an instruction raises, if it raises one. -/
def Instr.errorAddress (i : Instr) (c : Cpu) : Option UInt32 := (i.fault c).bind Fault.address

/-- The address of the address error that the instruction of a point raises. -/
def Point.errorAddress (p : Point σ) : Option UInt32 := p.instr.errorAddress p.cpu

/-! ### Registers that no program writes -/

/-- Register zero and the revision are as before, and the faulting address is that of the latest address error since,
or as before if there was none. -/
structure Cpu.Reports (error : Option UInt32) (c c' : Cpu) : Prop where
  zero : c'.gpr.get 0 = c.gpr.get 0
  revision : c'.readCop0 revision = c.readCop0 revision
  badAddress : c'.readCop0 badAddress = error.getD (c.readCop0 badAddress)

namespace Cpu

namespace Reports

variable {c c' c'' : Cpu} {error error' : Option UInt32}

lemma of_eq (hgpr : c'.gpr = c.gpr) (hcop0 : c'.cop0 = c.cop0) : Reports none c c' where
  zero := by rw [hgpr]
  revision := by rw [readCop0, hcop0, readCop0]
  badAddress := by rw [readCop0, hcop0, Option.getD_none, readCop0]

lemma refl (c : Cpu) : Reports none c c := .of_eq rfl rfl

lemma trans (h : Reports error c c') (h' : Reports error' c' c'') : Reports (error'.or error) c c'' where
  zero := h'.zero.trans h.zero
  revision := h'.revision.trans h.revision
  badAddress := by
    rw [h'.badAddress, h.badAddress]
    cases error' <;> rfl

/-- Nothing more is reported for what came before and raised no address error. -/
lemma after (h : Reports none c c') (h' : Reports error c' c'') : Reports error c c'' := by
  have hboth := h.trans h'
  rwa [Option.or_none] at hboth

/-- What writes none of these registers reports nothing more. -/
lemma congr (h : Reports error c c') (hgpr : c''.gpr = c'.gpr) (hcop0 : c''.cop0 = c'.cop0) : Reports error c c'' :=
  h.trans (.of_eq hgpr hcop0)

lemma set (c : Cpu) (r : Reg) (v : UInt32) : Reports none c (c.set r v) where
  zero := c.get_zero_set r v
  revision := by
    rw [Cpu.set]
    split <;> rfl
  badAddress := by
    rw [Cpu.set]
    split <;> rfl

/-- A write to another system control register. -/
lemma put (c : Cpu) {r : Reg} (hrevision : r ≠ Cpu.revision) (hbad : r ≠ Cpu.badAddress) (v : UInt32) :
    Reports none c { c with cop0 := c.cop0.put r v } where
  zero := rfl
  revision := (readCop0_set ..).trans (if_neg hrevision)
  badAddress := (readCop0_set ..).trans (if_neg hbad)

/-- A program's write to a system control register. -/
lemma writeCop0 (c : Cpu) (r : Reg) (v : UInt32) : Reports none c (c.writeCop0 r v) := by
  rw [Cpu.writeCop0]
  split
  · exact put c (by decide) (by decide) _
  · split
    · exact refl c
    · rename_i hr
      rw [not_or] at hr
      exact put c hr.1 hr.2 v

lemma enter (c : Cpu) (e : Exception) : Reports none c (c.enter e) where
  zero := by rw [(files_enter c e).1]
  revision := readCop0_enter_of_ne c e (by decide) (by decide) (by decide)
  badAddress := readCop0_enter_of_ne c e (by decide) (by decide) (by decide)

/-- An exception at an instruction that is noted first. -/
lemma enterAt (c : Cpu) (pc : UInt32) (e : Exception) : Reports none c ({ c with currentPc := pc }.enter e) := by
  have hnoted : Reports none c { c with currentPc := pc } := .of_eq rfl rfl
  exact hnoted.after (.enter _ e)

/-- An address error sets the faulting address. -/
lemma addressError (c : Cpu) (addr : UInt32) (e : Exception) : Reports (some addr) c (c.addressError addr e) := by
  have henter := enter { c with cop0 := c.cop0.put Cpu.badAddress addr } e
  refine ⟨henter.zero, henter.revision.trans ?_, henter.badAddress.trans ?_⟩
  · exact (readCop0_set ..).trans (if_neg (by decide))
  · exact (readCop0_set ..).trans (if_pos rfl)

/-- An image does not start with a value in register zero. -/
lemma startRegisters (header : Exe.Header) (c : Cpu) : Reports none c (Exe.startRegisters header c) := by
  have hpc : Reports none c { c with pc := header.pc } := .of_eq rfl rfl
  have hgp := hpc.trans (set _ 28 header.gp)
  dsimp only [Exe.startRegisters]
  split
  · exact (hgp.trans (set ..)).trans (set ..)
  · exact (((hgp.trans (set ..)).trans (set ..)).trans (set ..)).trans (set ..)

/-- What is reported of a block that looks neither at these registers nor at what an exit writes. -/
lemma along : Along fun x y : Cpu × σ => Reports none x.1 y.1 where
  refl x := refl x.1
  trans h h' := h.trans h'
  set c _ r v := set c r v
  exit _ _ _ _ _ _ := .of_eq rfl rfl

end Reports

end Cpu

/-! ### Services -/

open Cpu (Reports)

namespace Board

variable {hw : Hardware δ} {now : UInt64} {b : Board δ}

/-- An access that raises an address error off its alignment. -/
lemma reports_ofAddress (e : Exception) (addr : UInt32) (w : Width) (c : Cpu) {r : Served (Board δ)} (hr : r.cpu = c) :
    Reports ((Fault.ofAddress e addr w).bind Fault.address) c
      (if aligned addr w then r else ⟨0, c.addressError addr e, b⟩).cpu := by
  rw [Fault.ofAddress]
  split
  · exact hr ▸ .refl c
  · exact .addressError c addr e

lemma reports_serveMove (word : UInt32) (c : Cpu) :
    Reports ((Instr.moveFault word).bind Fault.address) c (serveMove word c) := by
  fun_cases Instr.moveFault word <;> rename_i hrs <;> simp only [serveMove, hrs]
  · exact .set ..
  · exact .set ..
  · exact .of_eq rfl rfl
  · exact .of_eq rfl rfl
  · exact .enter c .reserved

/-- With no devices the commands of the geometry coprocessor change nothing. -/
lemma reports_serveCop2 (now : UInt64) (word : UInt32) (c : Cpu) (b : Board δ) :
    Reports ((Instr.cop2Fault word c).bind Fault.address) c (serveCop2 (.absent δ) now word c b).cpu := by
  fun_cases Instr.cop2Fault word c with
  | case1 husable hopcode hmove =>
    simp only [serveCop2, husable, hopcode, hmove, if_true]
    exact reports_serveMove word c
  | case2 husable hopcode hcommand =>
    simp only [serveCop2, husable, hopcode, hcommand, if_true, if_false]
    exact .refl c
  | case3 addr husable hopcode =>
    simp only [serveCop2, husable, hopcode, if_true]
    rw [serveCop2Load, Fault.ofAddress]
    dsimp only
    split
    · exact .of_eq rfl rfl
    · exact .addressError c addr .addressLoad
  | case4 addr husable hopcode =>
    simp only [serveCop2, husable, hopcode, if_true]
    exact reports_ofAddress .addressStore addr .word c rfl
  | case5 husable hmove hload hstore =>
    simp only [serveCop2, husable, if_true]
    exact .enter c .reserved
  | case6 hunusable =>
    rw [serveCop2, if_neg hunusable]
    have hraised := Reports.enter c .coprocessor
    exact hraised.trans (.put _ (by decide) (by decide) _)

lemma reports_loadService (now : UInt64) (kind : LoadKind) (addr y : UInt32) (c : Cpu) (b : Board δ) :
    Reports ((Fault.ofAddress .addressLoad addr kind.width).bind Fault.address) c
      (serve hw now (Instr.loadService kind) addr y c b).cpu := by
  cases kind with
  | byte | byteUnsigned | half | halfUnsigned | word => exact reports_ofAddress .addressLoad addr _ c rfl
  | wordLeft | wordRight =>
    rw [LoadKind.width, Fault.ofAddress_byte]
    exact .refl c

lemma reports_storeService (now : UInt64) (kind : StoreKind) (addr v : UInt32) (c : Cpu) (b : Board δ) :
    Reports ((Fault.ofAddress .addressStore addr kind.width).bind Fault.address) c
      (serve hw now (Instr.storeService kind) addr v c b).cpu := by
  cases kind with
  | byte | half | word => exact reports_ofAddress .addressStore addr _ c rfl
  | wordLeft | wordRight =>
    rw [StoreKind.width, Fault.ofAddress_byte]
    exact .refl c

end Board

/-! ### Instructions -/

/-- Services through which every instruction reports the address error that it raises, and no other. -/
def Host.Reports (host : Host σ) : Prop :=
  ∀ (pc : UInt32) (i : Instr) (c : Cpu) (s : σ), Cpu.Reports (i.errorAddress c) c (i.exec host pc c s).cpu

namespace Instr

variable {host : Host σ}

/-- What a service reports, the instruction that asked for it reports. -/
lemma reports_whenServed {error : Option UInt32} {service : Service} {x y pc : UInt32} {c : Cpu} {s : σ}
    (h : Reports error { c with currentPc := pc } (host service x y { c with currentPc := pc } s).cpu)
    {write : UInt32 → Cpu → Cpu} (hwrite : ∀ v c, Reports none c (write v c)) :
    Reports error c (whenServed (host.ask service x y pc c s) write).cpu := by
  have hstarted : Reports none c { c with currentPc := pc } := .of_eq rfl rfl
  have hasked : Reports error c (host.ask service x y pc c s).cpu := hstarted.after h
  rw [whenServed]
  split
  · exact hasked.trans (hwrite ..)
  · exact hasked

/-- An instruction raises the address error of its fault, and no other. -/
theorem reports_serve (now : UInt64) : (Board.serve (.absent δ) now).Reports := by
  intro pc i c b
  cases i with
  | arith op rd rs operand =>
    dsimp only [exec, errorAddress, fault]
    split
    · exact .enterAt c pc .overflow
    · exact .set ..
  | shift | fromHi | fromLo => exact .set ..
  | multiply | toHi | toLo => exact .of_eq rfl rfl
  | divide signed rs rt =>
    cases signed with
    | true =>
      simp only [exec, Host.ask, Board.serve, Cpu.divide, if_true]
      split <;> exact .of_eq rfl rfl
    | false =>
      simp only [exec, Host.ask, Board.serve, Cpu.divideUnsigned, Bool.false_eq_true, if_false]
      split <;> exact .of_eq rfl rfl
  | load kind rt base offset =>
    exact reports_whenServed (Board.reports_loadService now kind _ _ _ b) fun _ c => .set c ..
  | store kind rt base offset =>
    exact reports_whenServed (Board.reports_storeService now kind _ _ _ b) fun _ c => .refl c
  | mfc0 rt source => exact reports_whenServed (.refl _) fun _ c => .set c ..
  | mtc0 rt target => exact reports_whenServed (.writeCop0 ..) fun _ c => .refl c
  | rfe =>
    have hstarted : Reports none c { c with currentPc := pc } := .of_eq rfl rfl
    exact hstarted.trans (.put _ (by decide) (by decide) _)
  | cop2 word =>
    exact reports_whenServed (Board.reports_serveCop2 now word { c with currentPc := pc } b) fun _ c => .refl c
  | syscall | breakpoint | reserved => exact reports_whenServed (.enter ..) fun _ c => .refl c

end Instr

/-! ### Blocks -/

namespace Block

variable {host : Host σ} (h : host.Reports)

include h

lemma reports_step (pc : UInt32) (i : Instr) (left : Int32) (c : Cpu) (s : σ) :
    Reports (i.errorAddress c) c (step host pc i left c s).cpu := by
  have hexec := h pc i c s
  dsimp only [step]
  split
  · exact hexec.congr rfl rfl
  · exact hexec

/-- Instructions in a row report an address error that one of them raises after those before it. -/
lemma exists_reports_steps (pc : UInt32) (is : List Instr) (left : Int32) (c : Cpu) (s : σ) :
    ∃ error, Reports error c (steps host pc is left c s).cpu ∧
      ∀ a ∈ error, ∃ before i after left' c' s', is = before ++ i :: after ∧
        steps host pc before left c s = .running left' c' s' ∧ i.errorAddress c' = some a := by
  induction is generalizing pc left c s with
  | nil => exact ⟨none, .refl c, by simp⟩
  | cons i is ih =>
    have hstep := reports_step h pc i left c s
    have hfirst : ∀ a ∈ i.errorAddress c, ∃ before j after left' c' s', i :: is = before ++ j :: after ∧
        steps host pc before left c s = .running left' c' s' ∧ j.errorAddress c' = some a :=
      fun a ha => ⟨[], i, is, left, c, s, rfl, rfl, ha⟩
    rw [steps]
    cases heq : step host pc i left c s with
    | departed d =>
      rw [heq] at hstep
      exact ⟨_, hstep, hfirst⟩
    | running left₁ c₁ s₁ =>
      rw [heq] at hstep
      obtain ⟨error, hrest, hraised⟩ := ih (pc + 4) left₁ c₁ s₁
      refine ⟨error.or (i.errorAddress c), hstep.trans hrest, fun a ha => ?_⟩
      cases error with
      | none => exact hfirst a ha
      | some x =>
        obtain ⟨before, j, after, left', c', s', rfl, hrun, herror⟩ := hraised a ha
        refine ⟨i :: before, j, after, left', c', s', rfl, ?_, herror⟩
        rw [steps, heq]
        exact hrun

/-- A block reports an address error of a point that it comes to. -/
theorem exists_reports_enter (b : Block) (budget : Int32) (c : Cpu) (s : σ) :
    ∃ error, Reports error c (enter host b budget c s).cpu ∧
      ∀ a ∈ error, ∃ p, b.Comes host budget c s p ∧ p.errorAddress = some a := by
  obtain ⟨error, hsteps, hraised⟩ := exists_reports_steps h b.plan.start b.plan.body budget c s
  have hbody : ∀ a ∈ error, ∃ p, b.Comes host budget c s p ∧ p.errorAddress = some a := by
    intro a ha
    obtain ⟨before, i, after, left', c', s', hsplit, hrun, herror⟩ := hraised a ha
    exact ⟨_, .body hsplit hrun, herror⟩
  rw [enter_eq, interpret]
  cases heq : steps host b.plan.start b.plan.body budget c s with
  | departed d =>
    rw [heq] at hsteps
    exact ⟨error, hsteps, hbody⟩
  | running left c' s' =>
    rw [heq] at hsteps
    dsimp only
    cases hending : b.plan.ending with
    | none =>
      refine ⟨error, ?_, hbody⟩
      dsimp only
      split
      · exact hsteps.congr rfl rfl
      · exact hsteps.trans (Reports.along.directExit b.exits b.plan.fallthrough left c' s')
    | some e =>
      have hlinked : Reports error c (e.transfer.linked b.plan.endingPc c') :=
        hsteps.trans (Reports.along.linked e.transfer b.plan.endingPc c' s')
      have hgo := Reports.along.go (σ := σ) e.transfer b.exits b.plan.endingPc b.plan.fallthrough c'
      dsimp only
      rw [finish_eq]
      cases hslot : e.delay with
      | none => exact ⟨error, hlinked.trans (hgo ..), hbody⟩
      | some i =>
        -- the slot runs after the link register is written
        have hstep := hlinked.trans
          (reports_step h (b.plan.endingPc + 4) i (spend left 1) (e.transfer.linked b.plan.endingPc c') s')
        refine ⟨(i.errorAddress (e.transfer.linked b.plan.endingPc c')).or error, ?_, fun a ha => ?_⟩
        · rw [delay]
          cases hrun : step host (b.plan.endingPc + 4) i (spend left 1) (e.transfer.linked b.plan.endingPc c') s' with
          | running left' c'' s'' =>
            rw [hrun] at hstep
            exact hstep.trans (hgo left' c'' s'')
          | departed d =>
            rw [hrun] at hstep
            exact hstep
        · cases herror : i.errorAddress (e.transfer.linked b.plan.endingPc c') with
          | none =>
            rw [herror] at ha
            exact hbody a ha
          | some x =>
            rw [herror] at ha
            exact ⟨_, .slot hending hslot heq, herror.trans ha⟩

end Block

/-! ### Chains -/

namespace Chain

variable {host : Host σ} (h : host.Reports)

include h

lemma exists_reports_follow (store : CodeStore Block) (fuel : Nat) (b : Block) (budget : Int32) (c : Cpu) (s : σ) :
    ∃ error, Reports error c (follow (Block.enter host) store fuel (Block.enter host b budget c s)).cpu ∧
      ∀ a ∈ error, ∃ p, Comes host store b budget c s p ∧ p.errorAddress = some a := by
  induction fuel generalizing b budget c s with
  | zero =>
    obtain ⟨error, henter, hraised⟩ := Block.exists_reports_enter h b budget c s
    refine ⟨error, ?_, fun a ha => (hraised a ha).imp fun p hp => ⟨.here hp.1, hp.2⟩⟩
    rw [follow]
    split <;> exact henter
  | succ fuel ih =>
    obtain ⟨error, henter, hraised⟩ := Block.exists_reports_enter h b budget c s
    have hhere : ∀ a ∈ error, ∃ p, Comes host store b budget c s p ∧ p.errorAddress = some a :=
      fun a ha => (hraised a ha).imp fun p hp => ⟨.here hp.1, hp.2⟩
    rw [follow]
    split
    · exact ⟨error, henter, hhere⟩
    · rename_i site left hhop
      split
      · rename_i code hcode
        obtain ⟨error', hrest, hraised'⟩ :=
          ih code left (Block.enter host b budget c s).cpu (Block.enter host b budget c s).rest
        refine ⟨error'.or error, henter.trans hrest, fun a ha => ?_⟩
        cases error' with
        | none => exact hhere a ha
        | some x =>
          obtain ⟨p, hp, herror⟩ := hraised' a ha
          exact ⟨_, .next hhop hcode hp, herror⟩
      · exact ⟨error, henter, hhere⟩
      · exact ⟨error, henter, hhere⟩

/-- A chain reports an address error of a point that it comes to. -/
theorem exists_reports_run (store : CodeStore Block) (b : Block) (budget : Int32) (c : Cpu) (s : σ) :
    ∃ error, Reports error c (run (Block.enter host) store b budget c s).cpu ∧
      ∀ a ∈ error, ∃ p, Comes host store b budget c s p ∧ p.errorAddress = some a :=
  exists_reports_follow h store _ b budget c s

end Chain

end R3000
