import Mathlib
import R3000.Proofs.Chains.Ledger
import R3000.Proofs.Chains.Partition

/-!
# The way back of a waiting loop

A block that is sure to wait ends in a transfer that is taken whatever the registers hold: it compares a register with
itself, or register zero with zero, before its delay slot runs.  So the block goes back to its own start, unless an
instruction stops it.
-/

namespace R3000

variable {δ σ : Type} {host : Host σ}

/-! ### The transfer -/

lemma Plan.holds_of_alwaysHolds {cond : Condition} {rs rt : Reg} (h : alwaysHolds cond rs rt = true) (c : Cpu) :
    cond.holds (c.reg rs) (c.reg rt) = true := by
  cases cond with
  | eq =>
    obtain rfl : rs = rt := by simpa [alwaysHolds] using h
    exact beq_self_eq_true _
  | gez | lez =>
    obtain rfl : rs = 0 := by simpa [alwaysHolds] using h
    rfl
  | ne | gtz | ltz => cases h

/-- A transfer that is sure to go back goes back, with any registers. -/
lemma Transfer.go_of_strong {start : UInt32} {t : Transfer} (h : Plan.idleTransfer start t = .strong)
    (exits : List Exit) (pc fallthrough : UInt32) (c : Cpu) :
    t.go exits pc fallthrough c = Block.directExit (σ := σ) exits start := by
  cases t with
  | jumpReg rs link => cases h
  | jump target link =>
    cases link with
    | true => cases h
    | false =>
      rw [Plan.idleTransfer] at h
      split at h <;> rename_i htarget
      · rw [htarget, go]
      · cases h
  | branch cond rs rt target link =>
    cases link with
    | true => cases h
    | false =>
      rw [Plan.idleTransfer] at h
      split at h <;> rename_i htarget
      · split at h <;> rename_i halways
        · rw [htarget, go, if_pos (Plan.holds_of_alwaysHolds halways c)]
        · cases h
      · cases h

lemma Plan.exists_strong_transfer {p : Plan} (h : p.idle = .strong) :
    ∃ e, p.ending = some e ∧ idleTransfer p.start e.transfer = .strong := by
  rw [idle] at h
  split at h
  · cases h
  · rename_i e hending
    split at h
    · cases h
    · exact ⟨e, hending, h⟩

lemma Plan.start_of_ofSource {source : Source} {fallback : Bool} {start cap : UInt32} {p : Plan}
    (h : ofSource source fallback start cap = .ok p) : p.start = start := by
  rw [ofSource] at h
  split at h
  · cases h
  · exact congrArg Plan.start (Except.ok.inj h).symm

/-! ### The block -/

namespace Block

variable {b : Block} {budget : Int32} {c : Cpu} {s : σ}

lemma pc_directExit (exits : List Exit) (target : UInt32) (left : Int32) (c : Cpu) (s : σ) :
    (directExit exits target left c s).cpu.pc = target := by
  dsimp only [directExit]
  split
  · rfl
  · split <;> rfl

/-- A block that is sure to wait is back at its start after all its instructions. -/
lemma pc_of_completes (hidle : b.plan.idle = .strong) (h : Completes host b budget c s) :
    (enter host b budget c s).cpu.pc = b.plan.start := by
  obtain ⟨e, hending, hstrong⟩ := Plan.exists_strong_transfer hidle
  obtain ⟨c', s', hsteps⟩ := h.exists_steps
  obtain ⟨c'', s'', hdelay⟩ := h.exists_delay hending hsteps (spend (spend budget (Instr.costs b.plan.body)) 1)
  rw [enter_eq, interpret, hsteps, hending]
  dsimp only
  rw [finish_eq, hdelay, Progress.leaveBy, Transfer.go_of_strong hstrong]
  exact pc_directExit ..

end Block

/-- An instruction that stops its block while it runs leaves the abort flag. -/
lemma Instr.blockAborted_of_stop (h : host.Orderly) {pc : UInt32} {i : Instr} {c : Cpu} {s : σ}
    (hin : c.inBlock ≠ 0) (hstop : (i.exec host pc c s).stop = true) :
    (i.exec host pc c s).cpu.blockAborted ≠ 0 := by
  have hserved : ∀ {r : Served σ} {write}, (whenServed r write).stop = true →
      (whenServed r write).cpu.blockAborted ≠ 0 := by
    intro r write hstop
    rw [whenServed] at hstop ⊢
    split at hstop <;> rename_i habort
    · cases hstop
    · rwa [if_neg habort]
  cases i with
  | arith op rd rs operand =>
    dsimp only [exec] at hstop ⊢
    split at hstop <;> rename_i htraps
    · rw [if_pos htraps]
      exact h.overflow 0 0 { c with currentPc := pc } s hin
    · cases hstop
  | shift | multiply | divide | fromHi | fromLo | toHi | toLo | rfe => cases hstop
  | load | store | mfc0 | mtc0 | cop2 | syscall | breakpoint | reserved => exact hserved hstop

namespace Board

/-- A block that is sure to wait ends at its own start, or at an instruction that stops it: then the abort flag is set,
if the block was still running. -/
theorem strong_returns (hw : Hardware δ) (now : UInt64) {source : Source} {fallback : Bool} {start cap : UInt32}
    {b : Block} (hplan : Plan.ofSource source fallback start cap = .ok b.plan) (hidle : b.plan.idle = .strong)
    (budget : Int32) (c : Cpu) (board : Board δ) :
    (b.enter (serve hw now) budget c board).cpu.pc = start ∨
      ∃ p, b.Comes (serve hw now) budget c board p ∧ (p.exec (serve hw now)).stop = true ∧
        b.enter (serve hw now) budget c board = p.stopped (serve hw now) budget ∧
          (p.cpu.inBlock ≠ 0 → (b.enter (serve hw now) budget c board).cpu.blockAborted ≠ 0) := by
  have hstart := Plan.start_of_ofSource hplan
  by_cases h : b.Completes (serve hw now) budget c board
  · left
    rw [← hstart]
    exact Block.pc_of_completes hidle h
  · right
    simp only [Block.Completes, not_forall, Bool.not_eq_false] at h
    obtain ⟨p, hp, hstop⟩ := h
    have henter := Block.enter_of_comes hp hstop
    refine ⟨p, hp, hstop, henter, fun hin => ?_⟩
    rw [henter]
    exact Instr.blockAborted_of_stop (orderly_serve hw now) hin hstop

/-- A register is compared with itself before the delay slot changes it. -/
theorem strong_returns_slot :
    ∃ p, Plan.ofSource (program [0x1108FFFF, 0x25080001]) true 0 64 = .ok p ∧ p.idle = .strong ∧
      (Block.enter (serve (.absent Unit) 0) ⟨p, []⟩ 100 running idle).cpu.pc = 0 := by
  have hplan : Plan.ofSource (program [0x1108FFFF, 0x25080001]) true 0 64 = .ok _ := rfl
  refine ⟨_, hplan, rfl, ?_⟩
  rcases strong_returns (.absent Unit) 0 (b := ⟨_, []⟩) hplan rfl 100 running idle with hpc | ⟨p, hp, -, -, habort⟩
  · exact hpc
  · have hin := Block.inBlock_of_comes (steady_serve (modest_absent Unit) 0) hp
    exact absurd rfl (habort (hin ▸ by decide))

end Board

end R3000
