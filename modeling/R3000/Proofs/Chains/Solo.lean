import Mathlib
import R3000.Block.Chain
import R3000.Proofs.Code

/-!
# A block alone

A block that may follow no link runs as one that may, up to the exit it leaves through.  So the run of a
block with links to spend is its run alone, followed by the hop that `Departed.linked` adds.
-/

namespace R3000

variable {σ : Type} {host : Host σ}

/-! ### Budgets -/

/-- The processor with other budgets. -/
def Cpu.withBudgets (c : Cpu) (links : UInt32) (left : Int32) : Cpu :=
  { c with linkBudget := links, cyclesLeft := left }

/-- Services that raise an exception only where a block looks for one. -/
structure Host.Orderly (host : Host σ) : Prop where
  quiet : ∀ service ∈ [Service.divide, .divideUnsigned, .rfe], ∀ x y c s,
    (host service x y c s).cpu.blockAborted = c.blockAborted
  overflow : ∀ x y c s, c.inBlock ≠ 0 → (host .overflow x y c s).cpu.blockAborted ≠ 0

/-- Services that see no budget, and leave the budgets alone. -/
structure Host.Blind (host : Host σ) : Prop where
  blind : ∀ service x y c s n k, host service x y (c.withBudgets n k) s =
    ⟨(host service x y c s).answer, (host service x y c s).cpu.withBudgets n k,
      (host service x y c s).rest⟩

/-- Orderly services that see no budget. -/
structure Host.Steady (host : Host σ) : Prop extends Host.Orderly host, Host.Blind host where
  inBlock : ∀ service x y c s, (host service x y c s).cpu.inBlock = c.inBlock

lemma Cpu.set_withBudgets (c : Cpu) (n : UInt32) (k : Int32) (r : Reg) (v : UInt32) :
    (c.withBudgets n k).set r v = (c.set r v).withBudgets n k := by
  rw [set, set]
  split <;> rfl

@[simp] lemma Cpu.inBlock_set (c : Cpu) (r : Reg) (v : UInt32) : (c.set r v).inBlock = c.inBlock := by
  rw [set]
  split <;> rfl

@[simp] lemma Cpu.blockAborted_set (c : Cpu) (r : Reg) (v : UInt32) :
    (c.set r v).blockAborted = c.blockAborted := by
  rw [set]
  split <;> rfl

/-- Processors that instructions do not tell apart: they have the same registers and the same abort flag. -/
structure Cpu.Alike (R : Cpu → Cpu → Prop) : Prop where
  reg : ∀ {c c'}, R c c' → ∀ r, c'.reg r = c.reg r
  hi : ∀ {c c'}, R c c' → c'.hi = c.hi
  lo : ∀ {c c'}, R c c' → c'.lo = c.lo
  blockAborted : ∀ {c c'}, R c c' → c'.blockAborted = c.blockAborted
  set : ∀ {c c'}, R c c' → ∀ r v, R (c.set r v) (c'.set r v)
  files : ∀ {c c'}, R c c' → ∀ hi lo, R { c with hi, lo } { c' with hi, lo }

lemma Cpu.alike_withBudgets (n : UInt32) (k : Int32) : Alike fun c c' => c' = c.withBudgets n k where
  reg := by rintro c _ rfl r; rfl
  hi := by rintro c _ rfl; rfl
  lo := by rintro c _ rfl; rfl
  blockAborted := by rintro c _ rfl; rfl
  set := by rintro c _ rfl r v; exact c.set_withBudgets n k r v
  files := by rintro c _ rfl hi lo; rfl

lemma spend_spend (left : Int32) (a b : Nat) : spend (spend left a) b = spend left (a + b) := by
  rw [spend, spend, spend, Int32.ofNat_add]
  grind

/-! ### One instruction -/

namespace Instr

variable {c : Cpu} {s : σ}

lemma ask_withBudgets (h : host.Blind) (service : Service) (x y pc : UInt32) (c : Cpu) (s : σ)
    (n : UInt32) (k : Int32) : host.ask service x y pc (c.withBudgets n k) s =
      ⟨(host.ask service x y pc c s).answer, (host.ask service x y pc c s).cpu.withBudgets n k,
        (host.ask service x y pc c s).rest⟩ :=
  h.blind service x y { c with currentPc := pc } s n k

lemma whenServed_alike {R : Cpu → Cpu → Prop} (hR : Cpu.Alike R) {r : Served σ} {c' : Cpu} (h : R r.cpu c')
    {write : UInt32 → Cpu → Cpu} (hwrite : ∀ v c c', R c c' → R (write v c) (write v c')) :
    ∃ c₁, R (whenServed r write).cpu c₁ ∧ whenServed ⟨r.answer, c', r.rest⟩ write =
      ⟨(whenServed r write).stop, c₁, (whenServed r write).rest⟩ := by
  simp only [whenServed, hR.blockAborted h]
  split
  · exact ⟨_, hwrite _ _ _ h, rfl⟩
  · exact ⟨_, h, rfl⟩

/-- An instruction does the same for processors that are alike if its services do. -/
lemma exec_alike {R : Cpu → Cpu → Prop} (hR : Cpu.Alike R) {c c' : Cpu} (h : R c c') (pc : UInt32) (i : Instr)
    (s : σ) (hask : ∀ service x y, ∃ c₁, R (host.ask service x y pc c s).cpu c₁ ∧
      host.ask service x y pc c' s =
        ⟨(host.ask service x y pc c s).answer, c₁, (host.ask service x y pc c s).rest⟩) :
    ∃ c₁, R (i.exec host pc c s).cpu c₁ ∧
      i.exec host pc c' s = ⟨(i.exec host pc c s).stop, c₁, (i.exec host pc c s).rest⟩ := by
  have hoperand : ∀ o : Operand, o.eval c' = o.eval c := by
    intro o
    cases o with
    | reg r => exact hR.reg h r
    | imm v => rfl
  have hserved : ∀ service x y write, (∀ v c c', R c c' → R (write v c) (write v c')) →
      ∃ c₁, R (whenServed (host.ask service x y pc c s) write).cpu c₁ ∧
        whenServed (host.ask service x y pc c' s) write =
          ⟨(whenServed (host.ask service x y pc c s) write).stop, c₁,
            (whenServed (host.ask service x y pc c s) write).rest⟩ := by
    intro service x y write hwrite
    obtain ⟨c₁, hc₁, hserve⟩ := hask service x y
    rw [hserve]
    exact whenServed_alike hR hc₁ hwrite
  cases i with
  | arith op rd rs operand =>
    simp only [exec, hR.reg h, hoperand]
    split
    · obtain ⟨c₁, hc₁, hserve⟩ := hask .overflow 0 0
      exact ⟨c₁, hc₁, by rw [hserve]⟩
    · exact ⟨_, hR.set h .., rfl⟩
  | shift op rd rt amount =>
    simp only [exec, hR.reg h, hoperand]
    exact ⟨_, hR.set h .., rfl⟩
  | multiply signed rs rt =>
    simp only [exec, hR.reg h]
    exact ⟨_, hR.files h .., rfl⟩
  | toHi rs =>
    simp only [exec, hR.reg h]
    rw [← hR.lo h]
    exact ⟨_, hR.files h (c.reg rs) c'.lo, rfl⟩
  | toLo rs =>
    simp only [exec, hR.reg h]
    rw [← hR.hi h]
    exact ⟨_, hR.files h c'.hi (c.reg rs), rfl⟩
  | fromHi rd | fromLo rd =>
    simp only [exec, hR.hi h, hR.lo h]
    exact ⟨_, hR.set h .., rfl⟩
  | divide | rfe =>
    simp only [exec, hR.reg h]
    obtain ⟨c₁, hc₁, hserve⟩ := hask _ _ _
    exact ⟨c₁, hc₁, by rw [hserve]⟩
  | load kind rt base offset =>
    simp only [exec, hR.reg h]
    exact hserved _ _ _ _ fun v c c' h => hR.set h rt (extend kind v)
  | mfc0 rt source =>
    simp only [exec]
    exact hserved _ _ _ _ fun v c c' h => hR.set h rt v
  | store | mtc0 | cop2 | syscall | breakpoint | reserved =>
    simp only [exec, hR.reg h]
    exact hserved _ _ _ _ fun _ _ _ h => h

/-- An instruction does the same whatever the budgets, and leaves them alone. -/
lemma exec_withBudgets (h : host.Blind) (pc : UInt32) (i : Instr) (c : Cpu) (s : σ) (n : UInt32)
    (k : Int32) : i.exec host pc (c.withBudgets n k) s =
      ⟨(i.exec host pc c s).stop, (i.exec host pc c s).cpu.withBudgets n k,
        (i.exec host pc c s).rest⟩ := by
  obtain ⟨_, rfl, hexec⟩ := exec_alike (Cpu.alike_withBudgets n k) rfl pc i s fun service x y =>
    ⟨_, rfl, ask_withBudgets h service x y pc c s n k⟩
  exact hexec

/-- A block that runs goes on running. -/
lemma exec_inBlock (h : host.Steady) (pc : UInt32) (i : Instr) (c : Cpu) (s : σ) :
    (i.exec host pc c s).cpu.inBlock = c.inBlock := by
  have hserved : ∀ service x y write, (∀ v c, (write v c).inBlock = Cpu.inBlock c) →
      (whenServed (host.ask service x y pc c s) write).cpu.inBlock = c.inBlock := by
    intro service x y write hwrite
    rw [whenServed]
    split
    · exact (hwrite _ _).trans (h.inBlock ..)
    · exact h.inBlock ..
  cases i with
  | arith op rd rs operand =>
    dsimp only [exec]
    split
    · exact h.inBlock ..
    · exact Cpu.inBlock_set ..
  | shift | fromHi | fromLo => exact Cpu.inBlock_set ..
  | multiply | toHi | toLo => rfl
  | divide | rfe => exact h.inBlock ..
  | load | mfc0 => exact hserved _ _ _ _ fun v c => Cpu.inBlock_set ..
  | store | mtc0 | cop2 | syscall | breakpoint | reserved => exact hserved _ _ _ _ fun v c => rfl

/-- An instruction stops its block exactly if it raised an exception. -/
lemma exec_stop (h : host.Orderly) (pc : UInt32) (i : Instr) (hin : c.inBlock ≠ 0)
    (habort : c.blockAborted = 0) (s : σ) :
    (i.exec host pc c s).stop = true ↔ (i.exec host pc c s).cpu.blockAborted ≠ 0 := by
  have hserved : ∀ service x y write, (∀ v c, (write v c).blockAborted = Cpu.blockAborted c) →
      ((whenServed (host.ask service x y pc c s) write).stop = true ↔
        (whenServed (host.ask service x y pc c s) write).cpu.blockAborted ≠ 0) := by
    intro service x y write hwrite
    rw [whenServed]
    split
    · rename_i hgo
      dsimp only
      rw [hwrite]
      simp [hgo]
    · rename_i hstop
      simp [hstop]
  cases i with
  | arith op rd rs operand =>
    dsimp only [exec]
    split
    · have hoverflow := h.overflow 0 0 { c with currentPc := pc } s hin
      simpa [Host.ask] using hoverflow
    · simp [habort]
  | shift | fromHi | fromLo | multiply | toHi | toLo => simp [exec, habort]
  | divide signed rs rt =>
    have hquiet := h.quiet (if signed then .divide else .divideUnsigned) (by cases signed <;> simp)
      (c.reg rs) (c.reg rt) { c with currentPc := pc } s
    simpa [exec, Host.ask, habort] using hquiet
  | rfe =>
    have hquiet := h.quiet .rfe (by simp) 0 0 { c with currentPc := pc } s
    simpa [exec, Host.ask, habort] using hquiet
  | load | mfc0 => exact hserved _ _ _ _ fun v c => Cpu.blockAborted_set ..
  | store | mtc0 | cop2 | syscall | breakpoint | reserved => exact hserved _ _ _ _ fun v c => rfl

end Instr

/-! ### A whole block -/

/-- The budget with which a block is left. -/
def Departure.left : Departure → Int32
  | .leave left | .hop _ left => left

/-- The processor with other budgets, which a block that is left early has noted itself. -/
def Progress.withBudgets (n : UInt32) (k : Int32) : Progress σ → Progress σ
  | .running left c s => .running left (c.withBudgets n k) s
  | .departed d => .departed { d with cpu := d.cpu.withBudgets n d.departure.left }

/-- What some instructions of a block leave: no exception and the cycles charged, or an exception. -/
def Progress.Charged (inBlock : UInt32) (left : Int32) (cost : Nat) : Progress σ → Prop
  | .running left' c _ => c.inBlock = inBlock ∧ c.blockAborted = 0 ∧ left' = spend left cost
  | .departed d => d.cpu.inBlock = inBlock ∧ d.cpu.blockAborted ≠ 0 ∧
    d.departure = .leave d.departure.left ∧ d.cpu.cyclesLeft = d.departure.left

namespace Block

variable {c : Cpu} {s : σ}

lemma step_withBudgets (h : host.Blind) (pc : UInt32) (i : Instr) (left : Int32) (c : Cpu) (s : σ)
    (n : UInt32) (k : Int32) :
    step host pc i left (c.withBudgets n k) s = (step host pc i left c s).withBudgets n k := by
  simp only [step, i.exec_withBudgets h]
  split <;> rfl

lemma step_charged (h : host.Steady) (pc : UInt32) (i : Instr) (left : Int32) (hin : c.inBlock ≠ 0)
    (habort : c.blockAborted = 0) (s : σ) :
    (step host pc i left c s).Charged c.inBlock left i.cost := by
  have hblock := i.exec_inBlock h pc c s
  have hstop := i.exec_stop h.toOrderly pc hin habort s
  simp only [step]
  split
  · rename_i hs
    exact ⟨hblock, hstop.mp hs, rfl, rfl⟩
  · rename_i hs
    exact ⟨hblock, not_not.mp (mt hstop.mpr hs), rfl⟩

lemma steps_withBudgets (h : host.Blind) (pc : UInt32) (is : List Instr) (left : Int32) (c : Cpu)
    (s : σ) (n : UInt32) (k : Int32) :
    steps host pc is left (c.withBudgets n k) s = (steps host pc is left c s).withBudgets n k := by
  induction is generalizing pc left c s with
  | nil => rfl
  | cons i is ih =>
    rw [steps, steps, step_withBudgets h]
    cases step host pc i left c s with
    | running left c s => exact ih ..
    | departed d => rfl

lemma steps_charged (h : host.Steady) (pc : UInt32) (is : List Instr) (left : Int32)
    (hin : c.inBlock ≠ 0) (habort : c.blockAborted = 0) (s : σ) :
    (steps host pc is left c s).Charged c.inBlock left (Instr.costs is) := by
  induction is generalizing pc left c s with
  | nil => exact ⟨rfl, habort, by simp [spend]⟩
  | cons i is ih =>
    have hstep := step_charged h pc i left hin habort s
    rw [steps]
    cases heq : step host pc i left c s with
    | running left' c' s' =>
      rw [heq] at hstep
      obtain ⟨hblock, habort', rfl⟩ := hstep
      have hrest := ih (pc + 4) (spend left i.cost) (hblock ▸ hin) habort' s'
      rw [hblock] at hrest
      dsimp only
      cases hsteps : steps host (pc + 4) is (spend left i.cost) c' s' with
      | running left'' c'' s'' =>
        rw [hsteps] at hrest
        obtain ⟨hblock'', habort'', rfl⟩ := hrest
        exact ⟨hblock'', habort'', spend_spend ..⟩
      | departed d =>
        rw [hsteps] at hrest
        exact hrest
    | departed d =>
      rw [heq] at hstep
      exact hstep

lemma delay_withBudgets (h : host.Blind) (pc : UInt32) (slot : Option Instr) (left : Int32) (c : Cpu)
    (s : σ) (n : UInt32) (k : Int32) :
    delay host pc slot left (c.withBudgets n k) s = (delay host pc slot left c s).withBudgets n k := by
  cases slot with
  | none => rfl
  | some i => exact step_withBudgets h ..

lemma delay_charged (h : host.Steady) (pc : UInt32) (slot : Option Instr) (left : Int32)
    (hin : c.inBlock ≠ 0) (habort : c.blockAborted = 0) (s : σ) :
    (delay host pc slot left c s).Charged c.inBlock left (Plan.delayCost slot) := by
  cases slot with
  | none => exact ⟨rfl, habort, rfl⟩
  | some i => exact step_charged h pc i left hin habort s

end Block

/-! ### Transfers -/

/-- What a transfer at `pc` does before its delay slot: it writes its link register. -/
def Transfer.linked (t : Transfer) (pc : UInt32) (c : Cpu) : Cpu :=
  match t with
  | .jump _ link | .branch _ _ _ _ link =>
    if link then c.set Block.linkRegister (Block.returnAddress pc) else c
  | .jumpReg _ (some rd) => c.set rd (Block.returnAddress pc)
  | .jumpReg _ none => c

/-- Where a transfer at `pc` goes after its delay slot, with the registers that it read before. -/
def Transfer.go (t : Transfer) (exits : List Exit) (pc fallthrough : UInt32) (c : Cpu) :
    Int32 → Cpu → σ → Departed σ :=
  match t with
  | .jump target _ => Block.directExit exits target
  | .jumpReg rs _ => Block.indirectExit pc (c.reg rs)
  | .branch cond rs rt target _ =>
    Block.directExit exits (if cond.holds (c.reg rs) (c.reg rt) then target else fallthrough)

namespace Transfer

lemma linked_alike {R : Cpu → Cpu → Prop} (hR : Cpu.Alike R) {c c' : Cpu} (h : R c c') (t : Transfer)
    (pc : UInt32) : R (t.linked pc c) (t.linked pc c') := by
  cases t with
  | jump target link | branch cond rs rt target link =>
    cases link with
    | false => exact h
    | true => exact hR.set h Block.linkRegister (Block.returnAddress pc)
  | jumpReg rs link =>
    cases link with
    | none => exact h
    | some rd => exact hR.set h rd (Block.returnAddress pc)

lemma linked_withBudgets (t : Transfer) (pc : UInt32) (c : Cpu) (n : UInt32) (k : Int32) :
    t.linked pc (c.withBudgets n k) = (t.linked pc c).withBudgets n k :=
  t.linked_alike (Cpu.alike_withBudgets n k) rfl pc

@[simp] lemma inBlock_linked (t : Transfer) (pc : UInt32) (c : Cpu) : (t.linked pc c).inBlock = c.inBlock := by
  cases t with
  | jump target link | branch cond rs rt target link => cases link <;> simp [linked]
  | jumpReg rs link => cases link <;> simp [linked]

@[simp] lemma blockAborted_linked (t : Transfer) (pc : UInt32) (c : Cpu) :
    (t.linked pc c).blockAborted = c.blockAborted := by
  cases t with
  | jump target link | branch cond rs rt target link => cases link <;> simp [linked]
  | jumpReg rs link => cases link <;> simp [linked]

end Transfer

/-- A way out after some instructions, unless one of them raised an exception. -/
def Progress.leaveBy (go : Int32 → Cpu → σ → Departed σ) : Progress σ → Departed σ
  | .running left c s => go left c s
  | .departed d => d

lemma Block.finish_eq (host : Host σ) (exits : List Exit) (pc fallthrough : UInt32) (e : Ending) (left : Int32)
    (c : Cpu) (s : σ) : finish host exits pc fallthrough e left c s =
      (delay host (pc + 4) e.delay (spend left 1) (e.transfer.linked pc c) s).leaveBy
        (e.transfer.go exits pc fallthrough c) := by
  obtain ⟨transfer, slot⟩ := e
  rcases transfer with ⟨target, link⟩ | ⟨rs, link⟩ | ⟨cond, rs, rt, target, link⟩
  · rfl
  · cases link <;> rfl
  · rfl

/-! ### The exit of a block -/

/-- Whether some instructions were all carried out. -/
def Progress.completed : Progress σ → Bool
  | .running .. => true
  | .departed _ => false

/-- What is noted when some instructions leave their block: the cycles left. -/
def Progress.Noted : Progress σ → Prop
  | .running .. => True
  | .departed d => d.departure = .leave d.departure.left ∧ d.cpu.cyclesLeft = d.departure.left

/-- The departure of a block that was left alone, had it had links to spend: it hops if all its instructions were
carried out, it was left through a direct exit, and there are cycles and links to go on with. -/
def Departed.linked (exits : List Exit) (n : UInt32) (k : Int32) (completed : Bool) (d : Departed σ) : Departed σ :=
  match exits.find? (·.target == d.cpu.pc) with
  | some x =>
    if completed ∧ 0 < d.departure.left ∧ n ≠ 0 then
      ⟨.hop x.site d.departure.left, d.cpu.withBudgets (n - 1) k, d.rest⟩
    else ⟨.leave d.departure.left, d.cpu.withBudgets n d.departure.left, d.rest⟩
  | none => ⟨.leave d.departure.left, d.cpu.withBudgets n d.departure.left, d.rest⟩

/-- Without links to spend a departure leaves to the dispatcher. -/
lemma Departed.linked_of_left {exits : List Exit} {n : UInt32} {k : Int32} {completed : Bool} {d : Departed σ}
    (h : ¬ (completed ∧ 0 < d.departure.left ∧ n ≠ 0) ∨ exits.find? (·.target == d.cpu.pc) = none) :
    d.linked exits n k completed = ⟨.leave d.departure.left, d.cpu.withBudgets n d.departure.left, d.rest⟩ := by
  rw [linked]
  split
  · rename_i x hx
    rw [if_neg]
    exact h.resolve_right (by simp [hx])
  · rfl

lemma Departed.withBudgets_linked (exits : List Exit) (n : UInt32) (k : Int32) (completed : Bool) (d : Departed σ) :
    (d.linked exits n k completed).cpu.withBudgets 0 0 = d.cpu.withBudgets 0 0 := by
  rw [linked]
  split
  · split <;> rfl
  · rfl

namespace Block

variable {c : Cpu} {s : σ}

/-- A way out of a block whose instructions were all carried out.  With links to spend it goes on as
`Departed.linked` says. -/
structure WayOut (exits : List Exit) (go : Int32 → Cpu → σ → Departed σ) : Prop where
  linked : ∀ left (c : Cpu) s n k,
    go left (c.withBudgets n k) s = (go left (c.withBudgets 0 0) s).linked exits n k true

lemma leaveBy_linked {p : Progress σ} (hp : p.Noted) {exits : List Exit} {go : Int32 → Cpu → σ → Departed σ}
    (hgo : WayOut exits go) (n : UInt32) (k : Int32) :
    (p.withBudgets n k).leaveBy go = ((p.withBudgets 0 0).leaveBy go).linked exits n k p.completed := by
  cases p with
  | running left c s => exact hgo.linked left c s n k
  | departed d =>
    have hsolo : ((Progress.departed d).withBudgets 0 0).leaveBy go =
        { d with cpu := d.cpu.withBudgets 0 d.departure.left } := rfl
    rw [hsolo, Departed.linked_of_left (.inl (by simp [Progress.completed]))]
    change Departed.mk _ _ _ = _
    rw [Departed.mk.injEq]
    exact ⟨hp.1, rfl, rfl⟩

/-! ### Ways out -/

lemma wayOut_directExit (exits : List Exit) (target : UInt32) :
    WayOut exits (directExit exits target : Int32 → Cpu → σ → Departed σ) where
  linked left c s n k := by
    have hsolo : directExit exits target left (c.withBudgets 0 0) s =
        ⟨.leave left, { c with pc := target }.withBudgets 0 left, s⟩ := by
      rw [directExit]
      dsimp only
      split
      · rfl
      · rw [if_pos (.inr rfl)]
        rfl
    have hstops : left ≤ 0 ∨ n = 0 ↔ ¬ (0 < left ∧ n ≠ 0) := by
      rw [not_and_or, Int32.not_lt, not_not]
    rw [hsolo, directExit, Departed.linked]
    dsimp only [Cpu.withBudgets]
    cases exits.find? (·.target == target) with
    | none => rfl
    | some x =>
      by_cases hgo : 0 < left ∧ n ≠ 0
      · exact (if_neg fun hstop => hstops.mp hstop hgo).trans (if_pos ⟨rfl, hgo⟩).symm
      · exact (if_pos (hstops.mpr hgo)).trans (if_neg fun h => hgo h.2).symm

lemma wayOut_leave (change : Cpu → Cpu)
    (hblind : ∀ c n k, change (c.withBudgets n k) = (change c).withBudgets n k) :
    WayOut [] (fun left c s => .leave left (change c) s : Int32 → Cpu → σ → Departed σ) where
  linked left c s n k := by
    rw [Departed.linked_of_left (.inr rfl), hblind, hblind]
    rfl

/-- Where a transfer goes; a jump through a register has no direct exits. -/
lemma wayOut_go {t : Transfer} {exits : List Exit} (hexits : ∀ rs link, t = .jumpReg rs link → exits = [])
    (pc fallthrough : UInt32) (c : Cpu) :
    WayOut exits (t.go exits pc fallthrough c : Int32 → Cpu → σ → Departed σ) := by
  cases t with
  | jump target link => exact wayOut_directExit ..
  | jumpReg rs link =>
    obtain rfl := hexits rs link rfl
    exact wayOut_leave (fun c' => { c' with currentPc := pc, pc := c.reg rs }) fun _ _ _ => rfl
  | branch cond rs rt target link => exact wayOut_directExit ..

lemma go_withBudgets (t : Transfer) (exits : List Exit) (pc fallthrough : UInt32) (c : Cpu) (n : UInt32)
    (k : Int32) : (t.go exits pc fallthrough (c.withBudgets n k) : Int32 → Cpu → σ → Departed σ) =
      t.go exits pc fallthrough c := by
  cases t <;> rfl

/-! ### The whole block -/

/-- What the instructions of a block leave, those of its body and its delay slot. -/
def progress (host : Host σ) (b : Block) (budget : Int32) (c : Cpu) (s : σ) : Progress σ :=
  match steps host b.plan.start b.plan.body budget c s with
  | .departed d => .departed d
  | .running left c s =>
    match b.plan.ending with
    | some e => delay host (b.plan.endingPc + 4) e.delay (spend left 1) (e.transfer.linked b.plan.endingPc c) s
    | none => .running left c s

/-- Whether a block comes to its exit: no instruction stops it. -/
def runsThrough (host : Host σ) (b : Block) (budget : Int32) (c : Cpu) (s : σ) : Bool :=
  (b.progress host budget c s).completed

/-- A block that leaves to no known address has no direct exits. -/
def Linkable (b : Block) : Prop := b.plan.leaves = [] → b.exits = []

lemma step_noted (host : Host σ) (pc : UInt32) (i : Instr) (left : Int32) (c : Cpu) (s : σ) :
    (step host pc i left c s).Noted := by
  dsimp only [step]
  split
  · exact ⟨rfl, rfl⟩
  · trivial

lemma steps_noted (host : Host σ) (pc : UInt32) (is : List Instr) (left : Int32) (c : Cpu) (s : σ) :
    (steps host pc is left c s).Noted := by
  induction is generalizing pc left c s with
  | nil => trivial
  | cons i is ih =>
    have hstep := step_noted host pc i left c s
    rw [steps]
    cases heq : step host pc i left c s with
    | running left c s => exact ih ..
    | departed d =>
      rw [heq] at hstep
      exact hstep

lemma delay_noted (host : Host σ) (pc : UInt32) (slot : Option Instr) (left : Int32) (c : Cpu) (s : σ) :
    (delay host pc slot left c s).Noted := by
  cases slot with
  | none => trivial
  | some i => exact step_noted ..

/-- Whether a block comes to its exit does not depend on the budgets. -/
lemma runsThrough_withBudgets (h : host.Blind) (b : Block) (left : Int32) (c : Cpu) (s : σ) (n : UInt32) (k : Int32) :
    b.runsThrough host left (c.withBudgets n k) s = b.runsThrough host left c s := by
  have hcompleted : ∀ p : Progress σ, (p.withBudgets n k).completed = p.completed := by
    intro p
    cases p <;> rfl
  rw [runsThrough, runsThrough, progress, progress, steps_withBudgets h]
  cases steps host b.plan.start b.plan.body left c s with
  | departed d => rfl
  | running left' c' s' =>
    dsimp only [Progress.withBudgets]
    cases b.plan.ending with
    | none => rfl
    | some e =>
      dsimp only
      rw [Transfer.linked_withBudgets, delay_withBudgets h, hcompleted]

/-- The run of a block with links to spend is its run alone, and then the hop. -/
theorem enter_linked (h : host.Blind) {b : Block} (hb : b.Linkable) (left : Int32) (c : Cpu) (s : σ) (n : UInt32)
    (k : Int32) : enter host b left (c.withBudgets n k) s =
      (enter host b left (c.withBudgets 0 0) s).linked b.exits n k (b.runsThrough host left c s) := by
  have hnoted := steps_noted host b.plan.start b.plan.body left c s
  have hexits : b.plan.leaves = [] → b.exits = [] := hb
  rw [enter_eq, enter_eq, interpret, interpret, steps_withBudgets h, steps_withBudgets h, runsThrough, progress]
  cases hsteps : steps host b.plan.start b.plan.body left c s with
  | departed d =>
    rw [hsteps] at hnoted
    exact leaveBy_linked hnoted (wayOut_directExit b.exits 0) n k
  | running left' c' s' =>
    dsimp only [Progress.withBudgets]
    cases hending : b.plan.ending with
    | some e =>
      have hgo : WayOut (σ := σ) b.exits (e.transfer.go b.exits b.plan.endingPc b.plan.fallthrough c') := by
        refine wayOut_go (fun rs link htransfer => hexits ?_) _ _ _
        obtain ⟨transfer, slot⟩ := e
        obtain rfl : transfer = _ := htransfer
        simp [Plan.leaves, hending]
      have hdelay := delay_noted host (b.plan.endingPc + 4) e.delay (spend left' 1)
        (e.transfer.linked b.plan.endingPc c') s'
      dsimp only
      rw [finish_eq, finish_eq, go_withBudgets, go_withBudgets, Transfer.linked_withBudgets,
        Transfer.linked_withBudgets, delay_withBudgets h, delay_withBudgets h]
      exact leaveBy_linked hdelay hgo n k
    | none =>
      dsimp only
      split
      · rename_i hbarrier
        rw [hexits (by simp [Plan.leaves, hending, hbarrier])]
        exact (wayOut_leave (σ := σ) (fun c => { c with pc := b.plan.fallthrough }) fun _ _ _ => rfl).linked ..
      · exact (wayOut_directExit b.exits b.plan.fallthrough).linked ..

end Block

end R3000
