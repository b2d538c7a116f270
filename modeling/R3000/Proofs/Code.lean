import Mathlib
import R3000.Block.Code

/-!
# Code and its meaning

The code of a block does what the block means.  The state of the code stands for the processor with the copies
written back, `Frame.flush`; reading and writing through the copies is reading and writing the register file of
that processor, the bridge shows a service exactly that processor and takes over what the service made of it, and
every exit leaves it behind.  So the copies show nowhere, whatever a service does to the registers.
-/

namespace R3000

variable {σ : Type} {host : Host σ}

lemma RegFile.ext {f g : RegFile} (h : ∀ r : Reg, f.get r = g.get r) : f = g :=
  Vector.ext fun i hi => h ⟨i, hi⟩

/-! ### Copies -/

namespace Frame

variable (f : Frame)

lemma pinned_iff (r : Reg) : pinned r = true ↔ r = 2 ∨ r = 29 ∨ r = 30 ∨ r = 31 := by
  simp [pinned, Stub.kept]

/-- Writing back changes the kept registers alone. -/
lemma flush_eq : f.flush = { f.cpu with
    gpr := (((f.cpu.gpr.put 2 (f.vars.get 2)).put 29 (f.vars.get 29)).put 30 (f.vars.get 30)).put 31
      (f.vars.get 31) } := rfl

lemma get_flush (r : Reg) : f.flush.gpr.get r = if pinned r then f.vars.get r else f.cpu.gpr.get r := by
  rw [flush_eq]
  simp only [RegFile.get_put]
  by_cases hr : pinned r = true
  · rw [if_pos hr]
    obtain rfl | rfl | rfl | rfl := (pinned_iff r).mp hr <;> rfl
  · rw [if_neg hr]
    simp only [pinned_iff, not_or] at hr
    obtain ⟨h2, h29, h30, h31⟩ := hr
    rw [if_neg (Ne.symm h31), if_neg (Ne.symm h30), if_neg (Ne.symm h29), if_neg (Ne.symm h2)]

/-- The copies written back give a processor that agrees with them and has everything else as it stands. -/
lemma flush_eq_of {c : Cpu} (hgpr : ∀ r, (if pinned r then f.vars.get r else f.cpu.gpr.get r) = c.gpr.get r)
    (hcpu : { f.cpu with gpr := c.gpr } = c) : f.flush = c := by
  have hfile : f.flush.gpr = c.gpr := RegFile.ext fun r => (f.get_flush r).trans (hgpr r)
  calc f.flush = { f.cpu with gpr := f.flush.gpr } := rfl
    _ = c := by rw [hfile, hcpu]

lemma read_eq (r : Reg) : f.read r = f.flush.reg r := by
  rw [read, Cpu.reg, get_flush]

lemma operand_eq (o : Operand) : f.operand o = o.eval f.flush := by
  cases o with
  | reg r => exact f.read_eq r
  | imm v => rfl

lemma flush_write (r : Reg) (v : UInt32) : (f.write r v).flush = f.flush.set r v := by
  rw [write, Cpu.set]
  split
  · rfl
  split
  case isTrue hpinned =>
    refine flush_eq_of _ (fun q => ?_) rfl
    dsimp only
    rw [RegFile.get_put, RegFile.get_put, get_flush]
    by_cases hq : r = q
    · subst hq
      rw [if_pos hpinned, if_pos rfl, if_pos rfl]
    · rw [if_neg hq, if_neg hq]
  case isFalse hpinned =>
    refine flush_eq_of _ (fun q => ?_) rfl
    dsimp only
    rw [RegFile.get_put, RegFile.get_put, get_flush]
    by_cases hq : r = q
    · subst hq
      rw [if_neg hpinned, if_pos rfl, if_pos rfl]
    · rw [if_neg hq, if_neg hq]

/-- Copies just taken are those of the registers, whatever the variables held. -/
lemma flush_assign (c : Cpu) (vars : RegFile) : Frame.flush ⟨c, assign (Stub.load c) vars⟩ = c := by
  refine flush_eq_of _ (fun r => ?_) rfl
  split
  case isTrue hr =>
    obtain rfl | rfl | rfl | rfl := (pinned_iff r).mp hr <;>
      simp [assign, Stub.kept, Stub.load, RegFile.get_put]
  case isFalse => rfl

lemma flush_reload (c : Cpu) : (reload c).flush = c := flush_assign c _

end Frame

/-! ### Instructions -/

namespace Code

variable (host) (pc : UInt32) (f : Frame) (s : σ)

/-- What the code has done, with the copies written back. -/
def Called.served (r : Called σ) : Served σ := ⟨r.answer, r.frame.flush, r.rest⟩

/-- What the code has done, with the copies written back. -/
def Executed.plain (r : Executed σ) : R3000.Executed σ := ⟨r.stop, r.frame.flush, r.rest⟩

/-- What the code has done, with the copies written back. -/
def Progress.plain : Progress σ → R3000.Progress σ
  | .running left f s => .running left f.flush s
  | .departed d => .departed d

/-- A service sees the processor with the copies written back, and the code goes on with what it made of it. -/
lemma served_call (service : Service) (a b : UInt32) :
    (call host service a b pc f s).served = host.ask service a b pc f.flush s := by
  have hstore : Stub.store f.values { f.cpu with currentPc := pc } = { f.flush with currentPc := pc } := rfl
  rw [call, Stub.bridge, hstore, Host.ask]
  dsimp only [Called.served]
  rw [Frame.flush_assign]

lemma plain_checked (r : Called σ) {write : UInt32 → Frame → Frame} {write' : UInt32 → Cpu → Cpu}
    (hwrite : ∀ v f, (write v f).flush = write' v f.flush) :
    (checked r write).plain = Instr.whenServed r.served write' := by
  by_cases haborted : r.frame.cpu.blockAborted = 0
  · rw [checked, Instr.whenServed, if_pos haborted, if_pos (show r.served.cpu.blockAborted = 0 from haborted)]
    dsimp only [Executed.plain]
    rw [hwrite]
    rfl
  · rw [checked, Instr.whenServed, if_neg haborted, if_neg (show ¬r.served.cpu.blockAborted = 0 from haborted)]
    rfl

/-- Code does what its instruction means. -/
lemma plain_exec (i : Instr) : (exec host pc i f s).plain = i.exec host pc f.flush s := by
  have hcall := served_call host pc f s
  cases i with
  | arith op rd rs operand =>
    dsimp only [exec, Instr.exec]
    rw [f.read_eq, f.operand_eq, ← hcall]
    split
    · rfl
    · dsimp only [Executed.plain]
      rw [f.flush_write]
  | shift op rd rt amount =>
    dsimp only [exec, Instr.exec, Executed.plain]
    rw [f.flush_write, f.read_eq, f.operand_eq]
  | multiply signed rs rt =>
    dsimp only [exec, Instr.exec, Executed.plain]
    rw [f.read_eq, f.read_eq]
    rfl
  | divide signed rs rt =>
    dsimp only [exec, Instr.exec]
    rw [f.read_eq, f.read_eq, ← hcall]
    rfl
  | fromHi rd | fromLo rd =>
    dsimp only [exec, Instr.exec, Executed.plain]
    rw [f.flush_write]
    rfl
  | toHi rs | toLo rs =>
    dsimp only [exec, Instr.exec, Executed.plain]
    rw [f.read_eq]
    rfl
  | load kind rt base offset =>
    dsimp only [exec, Instr.exec]
    rw [f.read_eq, f.read_eq, ← hcall]
    exact plain_checked _ fun v f => f.flush_write rt _
  | store kind rt base offset =>
    dsimp only [exec, Instr.exec]
    rw [f.read_eq, f.read_eq, ← hcall]
    exact plain_checked _ fun _ _ => rfl
  | mfc0 rt source =>
    dsimp only [exec, Instr.exec]
    rw [← hcall]
    exact plain_checked _ fun v f => f.flush_write rt v
  | mtc0 rt target =>
    dsimp only [exec, Instr.exec]
    rw [f.read_eq, ← hcall]
    exact plain_checked _ fun _ _ => rfl
  | rfe =>
    dsimp only [exec, Instr.exec]
    rw [← hcall]
    rfl
  | cop2 | syscall | breakpoint | reserved =>
    dsimp only [exec, Instr.exec]
    rw [← hcall]
    exact plain_checked _ fun _ _ => rfl

/-! ### Blocks -/

variable (left : Int32)

lemma plain_step (i : Instr) : (step host pc i left f s).plain = Block.step host pc i left f.flush s := by
  rw [step, Block.step, ← plain_exec]
  obtain ⟨stop, g, s'⟩ := exec host pc i f s
  cases stop <;> rfl

lemma plain_steps (is : List Instr) :
    (steps host pc is left f s).plain = Block.steps host pc is left f.flush s := by
  induction is generalizing pc left f s with
  | nil => rfl
  | cons i is ih =>
    rw [steps, Block.steps, ← plain_step]
    cases step host pc i left f s with
    | running left f s => exact ih ..
    | departed d => rfl

lemma plain_delay (slot : Option Instr) :
    (delay host pc slot left f s).plain = Block.delay host pc slot left f.flush s := by
  cases slot with
  | none => rfl
  | some i => exact plain_step ..

lemma directExit_eq (exits : List Exit) (target : UInt32) :
    directExit exits target left f s = Block.directExit exits target left f.flush s := by
  rw [directExit, Block.directExit]
  cases exits.find? (·.target == target) with
  | none => rfl
  | some e =>
    by_cases hstop : left ≤ 0 ∨ f.cpu.linkBudget = 0
    · exact (if_pos hstop).trans (if_pos hstop).symm
    · exact (if_neg hstop).trans (if_neg hstop).symm

/-- A transfer goes on from its delay slot as it means to, once each way out does. -/
lemma after_delay (slot : Option Instr) {go : Int32 → Frame → σ → Departed σ}
    {go' : Int32 → Cpu → σ → Departed σ} (hgo : ∀ left f s, go left f s = go' left f.flush s) :
    (match delay host pc slot left f s with
      | .running left f s => go left f s
      | .departed d => d) =
      match Block.delay host pc slot left f.flush s with
      | .running left c s => go' left c s
      | .departed d => d := by
  rw [← plain_delay]
  cases delay host pc slot left f s with
  | running left f s => exact hgo left f s
  | departed d => rfl

lemma flush_link (link : Bool) (r : Reg) (v : UInt32) :
    (if link then f.write r v else f).flush = if link then f.flush.set r v else f.flush := by
  cases link with
  | true => exact f.flush_write r v
  | false => rfl

lemma finish_eq (exits : List Exit) (fallthrough : UInt32) (e : Ending) :
    finish host exits pc fallthrough e left f s = Block.finish host exits pc fallthrough e left f.flush s := by
  obtain ⟨transfer, slot⟩ := e
  cases transfer with
  | jump target link =>
    dsimp only [finish, Block.finish]
    rw [← flush_link]
    exact after_delay _ _ _ _ _ _ fun left f s => directExit_eq f s left exits target
  | jumpReg rs link =>
    dsimp only [finish, Block.finish]
    rw [← f.read_eq]
    cases link with
    | none => exact after_delay _ _ _ _ _ _ fun left f s => rfl
    | some rd =>
      dsimp only
      rw [← f.flush_write]
      exact after_delay _ _ _ _ _ _ fun left f s => rfl
  | branch cond rs rt target link =>
    dsimp only [finish, Block.finish]
    rw [← flush_link, ← f.read_eq, ← f.read_eq]
    exact after_delay _ _ _ _ _ _ fun left f s => directExit_eq f s left exits _

end Code

/-- The code of a block does what the block means, for every machine around it: neither the dispatcher nor the
next block, nor any service on the way, can tell the copies from the registers. -/
theorem Block.enter_eq (host : Host σ) (b : Block) (budget : Int32) (c : Cpu) (s : σ) :
    b.enter host budget c s = b.interpret host budget c s := by
  have hsteps := Code.plain_steps host b.plan.start (.reload c) s budget b.plan.body
  rw [Frame.flush_reload] at hsteps
  rw [Block.enter, Block.interpret, ← hsteps]
  cases Code.steps host b.plan.start b.plan.body budget (.reload c) s with
  | departed d => rfl
  | running left f s =>
    dsimp only [Code.Progress.plain]
    cases b.plan.ending with
    | some e => exact Code.finish_eq ..
    | none =>
      dsimp only
      split
      · rfl
      · exact Code.directExit_eq ..

end R3000
