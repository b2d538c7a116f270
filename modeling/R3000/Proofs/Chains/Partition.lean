import Mathlib
import R3000.Proofs.Chains.Insulated
import R3000.Proofs.Planning
import R3000.Proofs.Translation

/-!
# Blocks cut into single instructions

A block does what its instructions do as blocks of their own, one after another: a block for each instruction of
its body, and one for its transfer with the delay slot.  In between they leave the program counter and the cycles
that are left in the processor, where no instruction looks.
-/

namespace R3000

variable {σ : Type} {host : Host σ}

/-! ### Exits -/

/-- The state after some instructions, entered elsewhere. -/
def Progress.elsewhere (pc : UInt32) (k : Int32) : Progress σ → Progress σ
  | .running left c s => .running left (c.elsewhere pc k) s
  | .departed d => .departed d

/-- A departure to the dispatcher. -/
def Departed.Leaves (d : Departed σ) : Prop := d.departure = .leave d.departure.left

/-- A block that goes on is ready; one that was left early raised an exception. -/
def Progress.Ready : Progress σ → Prop
  | .running _ c _ => c.Ready
  | .departed d => d.cpu.blockAborted ≠ 0 ∧ d.Leaves

lemma Departed.leave_elsewhere (left k : Int32) {c : Cpu} (h : c.blockAborted ≠ 0) (pc : UInt32) (s : σ) :
    Departed.leave left (c.elsewhere pc k) s = .leave left c s := by
  rw [leave, leave, Cpu.elsewhere, if_neg h]

namespace Block

variable {c : Cpu} {s : σ}

lemma step_elsewhere (h : host.Insulated) (pc : UInt32) (i : Instr) (left : Int32) (hc : c.Ready) (s : σ) :
    (∀ q k, ∃ q' k', step host pc i left (c.elsewhere q k) s = (step host pc i left c s).elsewhere q' k') ∧
      (step host pc i left c s).Ready := by
  have hstop := i.exec_stop h.toOrderly pc hc.inBlock hc.blockAborted s
  constructor
  · intro q k
    obtain ⟨q', k', hblind⟩ := i.exec_elsewhere h pc hc s q k
    refine ⟨q', k', ?_⟩
    simp only [step, hblind]
    split
    · rename_i hs
      rw [Departed.leave_elsewhere _ _ (hstop.mp hs)]
      rfl
    · rfl
  · simp only [step]
    split
    · rename_i hs
      exact ⟨hstop.mp hs, rfl⟩
    · rename_i hs
      exact i.ready_exec h pc hc s (not_not.mp (mt hstop.mpr hs))

lemma steps_elsewhere (h : host.Insulated) (pc : UInt32) (is : List Instr) (left : Int32) (hc : c.Ready) (s : σ) :
    (∀ q k, ∃ q' k', steps host pc is left (c.elsewhere q k) s = (steps host pc is left c s).elsewhere q' k') ∧
      (steps host pc is left c s).Ready := by
  induction is generalizing pc left c s with
  | nil => exact ⟨fun q k => ⟨q, k, rfl⟩, hc⟩
  | cons i is ih =>
    obtain ⟨hblind, hready⟩ := step_elsewhere h pc i left hc s
    simp only [steps]
    cases hstep : step host pc i left c s with
    | running left' c' s' =>
      rw [hstep] at hready hblind
      obtain ⟨hrest, hready'⟩ := ih (pc + 4) left' hready s'
      refine ⟨fun q k => ?_, hready'⟩
      obtain ⟨q', k', hfirst⟩ := hblind q k
      rw [hfirst]
      exact hrest q' k'
    | departed d =>
      rw [hstep] at hready hblind
      refine ⟨fun q k => ?_, hready⟩
      obtain ⟨q', k', hfirst⟩ := hblind q k
      rw [hfirst]
      exact ⟨q', k', rfl⟩

lemma delay_elsewhere (h : host.Insulated) (pc : UInt32) (slot : Option Instr) (left : Int32) (hc : c.Ready) (s : σ) :
    (∀ q k, ∃ q' k', delay host pc slot left (c.elsewhere q k) s = (delay host pc slot left c s).elsewhere q' k') ∧
      (delay host pc slot left c s).Ready := by
  cases slot with
  | none => exact ⟨fun q k => ⟨q, k, rfl⟩, hc⟩
  | some i => exact step_elsewhere h pc i left hc s

/-- Without links to spend a direct exit leaves to the dispatcher. -/
lemma directExit_of_ready (exits : List Exit) (target : UInt32) (left : Int32) (hc : c.Ready) (q : UInt32)
    (k : Int32) (s : σ) :
    directExit exits target left (c.elsewhere q k) s = ⟨.leave left, c.elsewhere target left, s⟩ := by
  have hpc : c.elsewhere target left = { c with pc := target, cyclesLeft := left } := by
    rw [Cpu.elsewhere, if_pos hc.blockAborted]
  have hlinks : (c.elsewhere q k).linkBudget = 0 := hc.linkBudget
  rw [directExit, hpc]
  dsimp only
  split
  · rfl
  · rw [if_pos (.inr hlinks)]
    rfl

/-- Without links to spend a transfer goes to the same place elsewhere, whatever exits the block has. -/
lemma go_of_ready (t : Transfer) (pc fallthrough : UInt32) (regs : Cpu) (left : Int32) (hc : c.Ready) (s : σ) :
    ∃ d : Departed σ, d.Leaves ∧
      ∀ exits q k, t.go exits pc fallthrough regs left (c.elsewhere q k) s = d := by
  cases t with
  | jump target link =>
    exact ⟨⟨.leave left, c.elsewhere target left, s⟩, rfl, fun exits q k =>
      directExit_of_ready exits target left hc q k s⟩
  | jumpReg rs link => exact ⟨indirectExit pc (regs.reg rs) left c s, rfl, fun _ _ _ => rfl⟩
  | branch cond rs rt target link =>
    let target := if cond.holds (regs.reg rs) (regs.reg rt) then target else fallthrough
    exact ⟨⟨.leave left, c.elsewhere target left, s⟩, rfl, fun exits q k =>
      directExit_of_ready exits target left hc q k s⟩

/-- A transfer with its delay slot ends the same elsewhere. -/
lemma finish_of_ready (h : host.Insulated) (pc fallthrough : UInt32) (e : Ending) (left : Int32) (hc : c.Ready)
    (s : σ) : ∃ d : Departed σ, d.Leaves ∧
      ∀ exits q k, finish host exits pc fallthrough e left (c.elsewhere q k) s = d := by
  obtain ⟨hslot, hdelay⟩ :=
    delay_elsewhere h (pc + 4) e.delay (spend left 1) (hc.linked e.transfer pc) s
  have hregs : ∀ exits q k, (e.transfer.go exits pc fallthrough (c.elsewhere q k) : _ → _ → σ → _) =
      e.transfer.go exits pc fallthrough c := by
    intro exits q k
    cases e.transfer <;> rfl
  have hrun : ∀ exits q k, ∃ q' k', finish host exits pc fallthrough e left (c.elsewhere q k) s =
      ((delay host (pc + 4) e.delay (spend left 1) (e.transfer.linked pc c) s).elsewhere q' k').leaveBy
        (e.transfer.go exits pc fallthrough c) := by
    intro exits q k
    obtain ⟨q₁, k₁, hlinked⟩ := e.transfer.linked_alike Cpu.alike_elsewhere (c := c) ⟨q, k, rfl⟩ pc
    obtain ⟨q', k', hslot⟩ := hslot q₁ k₁
    refine ⟨q', k', ?_⟩
    rw [finish_eq, hlinked, hslot, hregs]
  cases hend : delay host (pc + 4) e.delay (spend left 1) (e.transfer.linked pc c) s with
  | running left' c' s' =>
    rw [hend] at hdelay hrun
    obtain ⟨d, hleaves, hd⟩ := go_of_ready e.transfer pc fallthrough c left' hdelay s'
    refine ⟨d, hleaves, fun exits q k => ?_⟩
    obtain ⟨q', k', hfinish⟩ := hrun exits q k
    rw [hfinish]
    exact hd exits q' k'
  | departed d =>
    rw [hend] at hdelay hrun
    refine ⟨d, hdelay.2, fun exits q k => ?_⟩
    obtain ⟨q', k', hfinish⟩ := hrun exits q k
    exact hfinish

/-! ### Whole blocks -/

/-- The way out after the body of a block that ends at `pc`, without links to spend. -/
def out (host : Host σ) (pc : UInt32) : Option Ending → Int32 → Cpu → σ → Departed σ
  | none => fun left c s => ⟨.leave left, c.elsewhere pc left, s⟩
  | some e => finish host [] pc (pc + 8) e

lemma leaveBy_out (h : host.Insulated) {p : Progress σ} (hp : p.Ready) (pc : UInt32) (ending : Option Ending) :
    (p.leaveBy (out host pc ending)).Leaves := by
  cases p with
  | departed d => exact hp.2
  | running left c s =>
    cases ending with
    | none => rfl
    | some e =>
      obtain ⟨d, hleaves, hd⟩ := finish_of_ready h pc (pc + 8) e left hp s
      have hself := hd [] c.pc c.cyclesLeft
      rw [Cpu.elsewhere_self hp.blockAborted] at hself
      change (finish host [] pc (pc + 8) e left c s).Leaves
      rw [hself]
      exact hleaves

/-- A block runs its body and takes its way out, wherever it is entered. -/
lemma enter_of_ready (h : host.Insulated) {b : Block} (hb : b.plan.fallthrough = b.plan.start + 4 * b.plan.sourceLen)
    (left : Int32) (hc : c.Ready) (s : σ) (q : UInt32) (k : Int32) : enter host b left (c.elsewhere q k) s =
      (steps host b.plan.start b.plan.body left c s).leaveBy
        (out host (Plan.wordPc b.plan.start b.plan.body.length) b.plan.ending) := by
  obtain ⟨hsteps, hready⟩ := steps_elsewhere h b.plan.start b.plan.body left hc s
  obtain ⟨q', k', hsteps⟩ := hsteps q k
  rw [enter_eq, interpret, hsteps]
  cases hrun : steps host b.plan.start b.plan.body left c s with
  | departed d => rfl
  | running left' c' s' =>
    rw [hrun] at hready
    dsimp only [Progress.elsewhere, Progress.leaveBy]
    cases hending : b.plan.ending with
    | none =>
      have hfallthrough : b.plan.fallthrough = Plan.wordPc b.plan.start b.plan.body.length := by
        rw [hb, Plan.sourceLen, Plan.length, hending]
        rfl
      have hpc : c'.elsewhere b.plan.fallthrough left' =
          { c' with pc := b.plan.fallthrough, cyclesLeft := left' } := by
        rw [Cpu.elsewhere, if_pos hready.blockAborted]
      rw [out, ← hfallthrough]
      dsimp only
      split
      · rw [hpc]
        rfl
      · exact directExit_of_ready _ _ left' hready q' k' s'
    | some e =>
      have hfallthrough : b.plan.fallthrough = b.plan.endingPc + 8 := by
        have hlen : (b.plan.body.length + 2).toUInt32 = b.plan.body.length.toUInt32 + 2 := UInt32.ofNat_add ..
        rw [hb, Plan.sourceLen, Plan.length, hending, Plan.endingPc]
        simp only [Option.isSome_some, if_true, hlen]
        grind
      obtain ⟨d, -, hd⟩ := finish_of_ready h b.plan.endingPc (b.plan.endingPc + 8) e left' hready s'
      have hself := hd [] c'.pc c'.cyclesLeft
      rw [Cpu.elsewhere_self hready.blockAborted] at hself
      dsimp only
      rw [hfallthrough, hd]
      exact hself.symm

/-- A block of one instruction. -/
lemma enter_one (h : host.Insulated) {b : Block} {pc : UInt32} {i : Instr} (hb : b.plan = .single pc i)
    (left : Int32) (hc : c.Ready) (s : σ) (q : UInt32) (k : Int32) :
    enter host b left (c.elsewhere q k) s = (step host pc i left c s).leaveBy (out host (pc + 4) none) := by
  have hnext : Plan.wordPc pc [i].length = pc + 4 := by
    rw [List.length_singleton, Plan.wordPc_succ, Plan.wordPc_zero]
  rw [enter_of_ready h (by rw [hb]; rfl) left hc, hb]
  dsimp only [Plan.single]
  rw [hnext]
  dsimp only [steps]
  cases step host pc i left c s <;> rfl

/-! ### Blocks one after another -/

/-- Runs blocks in order, each with the budget that the one before left, up to the first that raises an exception. -/
def enterEach (host : Host σ) : List Block → Int32 → Cpu → σ → Departed σ
  | [], left, c, s => ⟨.leave left, c, s⟩
  | b :: bs, left, c, s =>
    let d := enter host b left c s
    if d.cpu.blockAborted = 0 then enterEach host bs d.departure.left d.cpu d.rest else d

/-- Blocks of single instructions do what the instructions do. -/
lemma enterEach_pieces (h : host.Insulated) {pc : UInt32} {is : List Instr} {ending : Option Ending}
    {bs : List Block} (hbs : bs.map (·.plan) = Plan.pieces pc is ending) (left : Int32) (hc : c.Ready) (s : σ) :
    enterEach host bs left (c.elsewhere pc left) s =
      (steps host pc is left c s).leaveBy (out host (Plan.wordPc pc is.length) ending) := by
  induction is generalizing pc bs left c s with
  | nil =>
    cases ending with
    | none =>
      obtain rfl : bs = [] := by simpa [Plan.pieces] using hbs
      rw [List.length_nil, Plan.wordPc_zero]
      rfl
    | some e =>
      obtain ⟨b, rfl, hb⟩ : ∃ b, bs = [b] ∧ b.plan = .lone pc e := by
        simpa [Plan.pieces, List.map_eq_singleton_iff] using hbs
      have henter := enter_of_ready h (by rw [hb]; rfl) left hc s pc left
      rw [hb] at henter
      dsimp only [Plan.lone, List.length_nil] at henter
      have hleaves := leaveBy_out h (steps_elsewhere h pc [] left hc s).2 (Plan.wordPc pc 0) (some e)
      rw [enterEach, henter]
      dsimp only [List.length_nil] at hleaves ⊢
      split
      · rw [enterEach, ← hleaves]
      · rfl
  | cons i is ih =>
    obtain ⟨b, bs, rfl, hb, hrest⟩ : ∃ b bs', bs = b :: bs' ∧ b.plan = .single pc i ∧
        bs'.map (·.plan) = Plan.pieces (pc + 4) is ending := by
      simpa [Plan.pieces, List.map_eq_cons_iff] using hbs
    have hready := (step_elsewhere h pc i left hc s).2
    rw [enterEach, enter_one h hb left hc, steps, List.length_cons, Plan.wordPc_succ]
    cases hrun : step host pc i left c s with
    | running left' c' s' =>
      rw [hrun] at hready
      exact (if_pos hready.blockAborted).trans (ih hrest left' hready s')
    | departed d =>
      rw [hrun] at hready
      exact if_neg hready.1

/-- The first block does the same elsewhere. -/
lemma enterEach_elsewhere (h : host.Insulated) {bs : List Block} (hbs : bs ≠ [])
    (hfalls : ∀ b ∈ bs, b.plan.fallthrough = b.plan.start + 4 * b.plan.sourceLen) (left : Int32) (hc : c.Ready)
    (s : σ) (q : UInt32) (k : Int32) :
    enterEach host bs left (c.elsewhere q k) s = enterEach host bs left c s := by
  obtain ⟨b, bs, rfl⟩ := List.exists_cons_of_ne_nil hbs
  have hb := hfalls b List.mem_cons_self
  have hself := enter_of_ready h hb left hc s c.pc c.cyclesLeft
  rw [Cpu.elsewhere_self hc.blockAborted] at hself
  rw [enterEach, enterEach, enter_of_ready h hb left hc, hself]

/-! ### Blocks of a source -/

variable {unlinked : List UInt32} {source : Source} {pc cap : UInt32} {b : Block}

/-- The translator, with a fallback for reserved words, makes the block of the words at `pc`. -/
def Made (unlinked : List UInt32) (source : Source) (pc cap : UInt32) (b : Block) : Prop :=
  ∃ stats store t, ((Translator.standard true unlinked).translate source pc cap stats store).result = .ok t ∧
    t.code = b

/-- The blocks into which the words of a block are cut: one for each instruction of its body, and one for its transfer
with the delay slot. -/
structure Cut (unlinked : List UInt32) (source : Source) (b : Block) (bs : List Block) : Prop where
  length : bs.length = b.plan.body.length + if b.plan.ending.isSome then 1 else 0
  made : ∀ k (h : k < bs.length), Made unlinked source (Plan.wordPc b.plan.start k) 1 bs[k]

lemma Made.plan (h : Made unlinked source pc cap b) : Plan.ofSource source true pc cap = .ok b.plan := by
  obtain ⟨stats, store, t, ht, rfl⟩ := h
  exact (Translator.standard_eq_ok ht).1

/-- The block of a plan whose exits take the first link words of a store. -/
def ofPlan (unlinked : List UInt32) (p : Plan) : Block :=
  ⟨p, List.zipWith Exit.mk (p.directTargets unlinked) (List.range (p.directTargets unlinked).length)⟩

lemma made_ofPlan {p : Plan} (h : Plan.ofSource source true pc cap = .ok p) :
    Made unlinked source pc cap (ofPlan unlinked p) := by
  let targets := p.directTargets unlinked
  let store : CodeStore Block := ⟨#[], 0, targets.length, 0, 0, {}, 0, {}⟩
  have hroom : store.words.size + targets.length ≤ store.linkCapacity := by simp [store]
  obtain ⟨exits, store', halloc⟩ := Translator.exists_allocExits hroom
  obtain ⟨htargets, hsites, -⟩ := Translator.allocExits_eq_ok halloc
  have hexits : exits = List.zipWith Exit.mk targets (List.range targets.length) := by
    have hparts : exits = List.zipWith Exit.mk (exits.map (·.target)) (exits.map (·.site)) := by simp
    rw [htargets, hsites] at hparts
    rw [hparts, List.range_eq_range']
    rfl
  refine ⟨{}, store, ⟨⟨p, exits⟩, p.sourceLen, p.cycles, p.idle, exits⟩, ?_, ?_⟩
  · obtain ⟨words, stats, hstore⟩ := Translator.allocExits_store targets store
    rw [halloc] at hstore
    obtain rfl : store' = _ := hstore
    simp only [Translator.standard, h]
    rw [halloc]
    rfl
  · rw [ofPlan, ← hexits]

/-- The blocks of a cut are planned as the pieces of the block. -/
lemma Cut.plans (hb : Made unlinked source pc cap b) {bs : List Block} (h : b.Cut unlinked source bs) :
    bs.map (·.plan) = Plan.pieces b.plan.start b.plan.body b.plan.ending := by
  apply List.ext_getElem
  · rw [List.length_map, h.length, Plan.length_pieces]
  · intro k hk hk'
    rw [List.getElem_map]
    have hmade := (h.made k (by simpa using hk)).plan
    have hpiece := Plan.ofSource_pieces hb.plan _ (List.getElem_mem hk')
    rw [Plan.start_pieces (List.getElem?_eq_getElem hk'), hmade] at hpiece
    exact Except.ok.inj hpiece

lemma cut_ofPlan (hb : Made unlinked source pc cap b) : b.Cut unlinked source
    ((Plan.pieces b.plan.start b.plan.body b.plan.ending).map (ofPlan unlinked)) where
  length := by rw [List.length_map, Plan.length_pieces]
  made k h := by
    have hk : k < (Plan.pieces b.plan.start b.plan.body b.plan.ending).length := by simpa using h
    have hpiece := Plan.ofSource_pieces hb.plan _ (List.getElem_mem hk)
    rw [Plan.start_pieces (List.getElem?_eq_getElem hk)] at hpiece
    rw [List.getElem_map]
    exact made_ofPlan hpiece

/-- A block does what the blocks of its words do one after another. -/
lemma enterEach_eq (h : host.Insulated) (hb : Made unlinked source pc cap b) {bs : List Block}
    (hbs : b.Cut unlinked source bs) (left : Int32) (hc : c.Ready) (s : σ) :
    enterEach host bs left c s = enter host b left c s := by
  have hne : bs ≠ [] := by
    rintro rfl
    have hpos := Plan.length_pos hb.plan
    have hlength := hbs.length
    rw [Plan.length] at hpos
    cases hending : b.plan.ending.isSome <;> simp [hending] at hpos hlength
    omega
  have henter := enter_of_ready h (Plan.fallthrough_eq hb.plan) left hc s c.pc c.cyclesLeft
  have hfalls : ∀ x ∈ bs, x.plan.fallthrough = x.plan.start + 4 * x.plan.sourceLen := by
    intro x hx
    obtain ⟨k, hk, rfl⟩ := List.getElem_of_mem hx
    exact Plan.fallthrough_eq (hbs.made k hk).plan
  rw [Cpu.elsewhere_self hc.blockAborted] at henter
  rw [← enterEach_elsewhere h hne hfalls left hc s b.plan.start left, henter,
    enterEach_pieces h (Cut.plans hb hbs) left hc s]

end Block

/-- Cutting a block into its instructions is unobservable while a block runs, on machines whose geometry coprocessor
neither looks where the block was entered nor gives links: its words can be cut, and every cut leaves the
same processor, memory, devices and budget. -/
theorem Board.enterEach_cut {δ : Type} {hw : Hardware δ} (h : hw.Insulated) {unlinked : List UInt32}
    {source : Source} {pc cap : UInt32} {b : Block} (hb : Block.Made unlinked source pc cap b) {c : Cpu}
    (hc : c.Ready) (now : UInt64) (budget : Int32) (board : Board δ) :
    (∃ bs, b.Cut unlinked source bs) ∧ ∀ bs, b.Cut unlinked source bs →
      Block.enterEach (Board.serve hw now) bs budget c board = Block.enter (Board.serve hw now) b budget c board :=
  ⟨⟨_, Block.cut_ofPlan hb⟩, fun _ hbs => Block.enterEach_eq (insulated_serve h now) hb hbs budget hc board⟩

namespace Board

/-- The words from address zero on. -/
def program (words : List UInt32) : Source := fun pc => (words[pc.toNat / 4]?).elim (.error (.memoryRead pc)) .ok

/-- A board without devices at power-on. -/
def idle : Board Unit := ⟨.ofBios .empty, ⟨{}, .empty, ()⟩⟩

/-- The processor in a block at address zero, with the geometry coprocessor usable and the largest number in a
register. -/
def running : Cpu where
  __ := Cpu.fresh.set 8 0x7FFFFFFF
  pc := 0
  cop0 := Cpu.freshCop0.put Cpu.status 0x40000000
  inBlock := 1

/-- All four kept registers: one is stored and loaded as another, a call notes where to return in a third, and its
delay slot adds into the fourth. -/
theorem enterEach_cut_kept :
    let source := program [0x241D0005, 0xAFBD0003, 0x8FA20003, 0x0C000040, 0x005DF021]
    ∃ b bs, Block.Made Translator.functionVectors source 0 64 b ∧ b.Cut Translator.functionVectors source bs ∧
      Block.enterEach (serve (.absent Unit) 0) bs 100 running idle =
        Block.enter (serve (.absent Unit) 0) b 100 running idle ∧
          let c := (Block.enter (serve (.absent Unit) 0) b 100 running idle).cpu
          c.reg 29 = 5 ∧ c.reg 2 = 5 ∧ c.reg 31 = 20 ∧ c.reg 30 = 10 ∧ c.pc = 0x100 := by
  intro source
  have hplan : Plan.ofSource source true 0 64 = .ok _ := rfl
  have hb : Block.Made Translator.functionVectors source 0 64 _ := Block.made_ofPlan hplan
  have hready : running.Ready := ⟨by decide, by decide, by decide⟩
  obtain ⟨⟨bs, hbs⟩, hsame⟩ := enterEach_cut (insulated_absent Unit) hb hready 0 100 idle
  exact ⟨_, bs, hb, hbs, hsame bs hbs, by decide +kernel⟩

/-- A machine whose geometry coprocessor has one command. -/
def commanded (f : Cpu → Cpu) : Hardware Unit :=
  { Hardware.absent Unit with cop2 := fun _ c d => (f c, d) }

/-- A block of at most three words that shows where it is cut. -/
def Seams (f : Cpu → Cpu) (words : List UInt32) (c : Cpu) : Prop :=
  ∃ b bs, Block.Made Translator.functionVectors (program words) 0 3 b ∧
    b.Cut Translator.functionVectors (program words) bs ∧
      Block.enterEach (serve (commanded f) 0) bs 100 c idle ≠ Block.enter (serve (commanded f) 0) b 100 c idle

lemma seams_of_ofSource {f : Cpu → Cpu} {words : List UInt32} {c : Cpu} {p : Plan}
    (h : Plan.ofSource (program words) true 0 3 = .ok p)
    (hne : Block.enterEach (serve (commanded f) 0) ((Plan.pieces p.start p.body p.ending).map
      (Block.ofPlan Translator.functionVectors)) 100 c idle ≠
        Block.enter (serve (commanded f) 0) (Block.ofPlan Translator.functionVectors p) 100 c idle) :
    Seams f words c :=
  ⟨_, _, Block.made_ofPlan h, Block.cut_ofPlan (Block.made_ofPlan h), hne⟩

/-- Blocks show where they are cut to a coprocessor that looks there, and where it gives links, aborts a block without
an exception or ends its run; and they do in a state in which no block runs, or one was aborted. -/
theorem exists_seams :
    Seams (fun c => { c with hi := c.pc }) [0x24080005, 0x4A000001] running ∧
      Seams (fun c => { c with hi := c.cyclesLeft.toUInt32 }) [0x24080005, 0x4A000001] running ∧
        Seams (fun c => { c with linkBudget := 2 }) [0x4A000001, 0x24080005] running ∧
          Seams (fun c => { c with blockAborted := 1 }) [0x24080005, 0x4A000001] running ∧
            Seams (fun c => { c with inBlock := 0 }) [0x4A000001, 0x01084820, 0x24090005] running ∧
              Seams id [0x01084820, 0x24090005] { running with inBlock := 0 } ∧
                Seams id [0x24080005, 0x40096000] { running with blockAborted := 1 } := by
  refine ⟨seams_of_ofSource rfl fun h => ?looks, seams_of_ofSource rfl fun h => ?counts,
    seams_of_ofSource rfl fun h => ?links, seams_of_ofSource rfl fun h => ?aborts, seams_of_ofSource rfl fun h => ?ends,
    seams_of_ofSource rfl fun h => ?idle, seams_of_ofSource rfl fun h => ?aborted⟩
  case looks | counts => exact absurd (congrArg (·.cpu.hi) h) (by decide +kernel)
  case links => exact absurd (congrArg (·.cpu.linkBudget) h) (by decide +kernel)
  case aborts | aborted => exact absurd (congrArg (·.cpu.pc) h) (by decide +kernel)
  case ends | idle => exact absurd (congrArg (·.cpu.reg 9) h) (by decide +kernel)

end Board

end R3000
