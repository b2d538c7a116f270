import Mathlib
import R3000.Proofs.Machine.Entries

/-!
# Hook points

The dispatcher offers calls of the function vectors to the hooks, and loads the queued image at the boot hook.
It looks at the program counter before it runs a block.  No exit to a vector is linked, so a chain never hops to
one; but an exit to the boot hook is linked like any other, and a block that begins before one of these addresses
may run on over it.
-/

namespace R3000

section

variable {σ : Type}

/-- Control comes to a word of a visited block, other than a delay slot: the instructions before it were carried
out. -/
structure Visit.Arrives (host : Host σ) (v : Visit σ) (k : Nat) (left : Int32) (c : Cpu) (s : σ) : Prop where
  word : k < v.code.plan.body.length ∨ k = v.code.plan.body.length ∧ v.code.plan.ending.isSome
  steps : Block.steps host v.code.plan.start (v.code.plan.body.take k) v.left v.cpu v.rest = .running left c s

/-- Control comes to the first word of a visited block. -/
lemma Visit.arrives_zero (host : Host σ) (v : Visit σ) {e : Entry Block} {pc : UInt32} (he : e.PlannedAt pc)
    (hcode : e.code = v.code) : v.Arrives host 0 v.left v.cpu v.rest := by
  obtain ⟨memory, cap, hplan⟩ := he.plan
  have hpos := Plan.length_pos hplan
  rw [hcode, Plan.length] at hpos
  refine ⟨?_, rfl⟩
  cases hending : v.code.plan.ending with
  | none => exact .inl (by simpa [hending] using hpos)
  | some ending =>
    rcases Nat.eq_zero_or_pos v.code.plan.body.length with hnil | hbody
    · exact .inr ⟨hnil.symm, rfl⟩
    · exact .inl hbody

/-- The address of a word of a visited block. -/
def Visit.wordPc (v : Visit σ) (k : Nat) : UInt32 := Plan.wordPc v.code.plan.start k

namespace Chain

variable {host : Host σ} {cache : Cache Block} {store : CodeStore Block} {v w : Visit σ} {n : Nat}

/-- A block that was reached by a hop is the cached one for the target of an exit. -/
lemma exists_exit_of_visits (hs : Sound cache store) (hv : ∃ pc e, cache.get? pc = some e ∧ e.code = v.code)
    (hw : Visits host store v (n + 1) w) : ∃ pc e x, cache.get? pc = some e ∧ x ∈ e.code.exits ∧
      ∃ e', cache.get? x.target = some e' ∧ e'.code = w.code := by
  cases hw with
  | hop hw hhop hword =>
    obtain ⟨pc, e, he, hcode⟩ := cached_of_visits hs hv hw
    obtain ⟨x, e', hx, htarget, he', hcode'⟩ := cached_of_hop hs he hcode hhop hword
    exact ⟨pc, e, x, he, hcode ▸ hx, e', htarget ▸ he', hcode'⟩

end Chain

end

/-- No exit of a planned block goes to a function vector. -/
lemma Block.Planned.not_vector {b : Block} (hb : b.Planned) {x : Exit} (hx : x ∈ b.exits) :
    physical x.target ∉ Translator.functionVectors := by
  have hmem : x.target ∈ b.plan.directTargets Translator.functionVectors :=
    hb.exits ▸ List.mem_map_of_mem hx
  rw [Plan.directTargets, List.mem_eraseDups, List.mem_filter] at hmem
  simpa [physical] using hmem.2

namespace Machine

section

variable {τ β δ : Type} {P : Parts τ β δ} {deadline : UInt64} {h x m m' : Machine τ β δ} {e : Entry β}

/-- Looking for a block that is found changes neither the processor nor what can be fetched. -/
lemma findBlock_found {pc : UInt32} (hfind : m.findBlock P pc = (.ok (some e), m')) :
    m'.cpu = m.cpu ∧ m'.board.io = m.board.io ∧ m'.memory.source = m.memory.source := by
  obtain ⟨r, stats, rfl | rfl⟩ := findBlock_eq_some hfind
  · exact ⟨rfl, rfl, rfl⟩
  · exact ⟨rfl, rfl, Memory.source_markCode ..⟩

/-- A look for a block sees of memory what it fetches. -/
lemma findBlock_reading (pc : UInt32) {source : Source} (hfetch : m.memory.source = source) :
    m.findBlock P pc = m.findBlock (P.reading source) pc := by
  subst hfetch
  rfl

/-- At a function vector the hooks are called, and leave the machine as they say. -/
lemma intercept_eq_false {pc : UInt32} (hvector : physical pc ∈ Translator.functionVectors)
    (hintercept : m.intercept P pc = (false, m')) :
    P.hooks.intercept (physical pc) m.cpu m.memory m.board.io.device =
      (false, m'.cpu, m'.memory, m'.board.io.device) := by
  rw [intercept] at hintercept
  dsimp only at hintercept
  rw [if_pos (by simpa using hvector)] at hintercept
  split at hintercept
  · simp at hintercept
  · rename_i hhandled
    obtain ⟨-, rfl⟩ := Prod.mk.inj hintercept
    exact Prod.ext (Bool.eq_false_iff.mpr hhandled) rfl

/-- The hooks were offered the call at the program counter of `h` and turned it down, and `m` is as they left the
machine. -/
def Declined (hooks : Hooks δ) (h m : Machine τ β δ) : Prop :=
  ∃ memory, hooks.intercept (physical h.cpu.pc) h.cpu h.memory h.board.io.device =
      (false, m.cpu, memory, m.board.io.device) ∧ m.memory.source = memory.source

/-- At a function vector the hooks are offered the call before a block runs. -/
lemma Starts.declined (hs : h.Starts P deadline e m) (hvector : physical h.cpu.pc ∈ Translator.functionVectors) :
    h.Declined P.hooks m := by
  obtain ⟨y, hintercept, hfind⟩ := hs.found
  obtain ⟨hcpu, hio, hfetch⟩ := findBlock_found hfind
  refine ⟨y.memory, ?_, hfetch⟩
  rw [hcpu, hio]
  exact intercept_eq_false hvector hintercept

end

variable {δ : Type} {hw : Hardware δ} {hooks : Hooks δ} {settings : Settings}
  {m₀ h x : Machine TranslatorStats Block δ} {e : Entry Block} {deadline : UInt64} {n k : Nat}
  {v : Visit (Board δ)} {left : Int32} {c : Cpu} {b : Board δ}

/-- Control comes to a function vector at the start of a dispatch, after the hooks were offered the call, or inside
a block that begins before it.  While an image is queued it comes to the boot hook only after a hop or inside a block
that begins before it. -/
theorem hook_points {bios : ByteArray} {device : δ}
    (hstart : ofTranslator (.standard hw hooks) settings bios device {} = .ok m₀)
    (hm : AtHead (.standard hw hooks) m₀ h) (hs : h.Starts (.standard hw hooks) deadline e x)
    (hv : x.Visits hw e deadline n v) (hk : v.Arrives (Board.serve hw x.cycles) k left c b) :
    (physical (v.wordPc k) ∈ Translator.functionVectors →
        0 < k ∨ n = 0 ∧ v = x.visit e deadline ∧ v.wordPc k = h.cpu.pc ∧ h.Declined hooks x) ∧
      (h.loaded = false → v.wordPc k = h.settings.bootHook → 0 < k ∨ 0 < n) := by
  have hready := hs.ready_of_atHead hstart hm
  have hfirst : ∃ pc a, x.recompiler.cache.get? pc = some a ∧ a.code = (x.visit e deadline).code :=
    ⟨_, e, hready.cached, rfl⟩
  have hzero : n = 0 → v = x.visit e deadline ∧ v.wordPc 0 = h.cpu.pc := by
    rintro rfl
    cases hv
    exact ⟨rfl, (Plan.wordPc_zero _).trans hready.planned.start⟩
  constructor
  · intro hvector
    rcases Nat.eq_zero_or_pos k with rfl | hpos
    · right
      cases n with
      | zero =>
        obtain ⟨hv, hpc⟩ := hzero rfl
        exact ⟨rfl, hv, hpc, hs.declined (hpc ▸ hvector)⟩
      | succ n =>
        -- no exit goes to a vector
        obtain ⟨pc, a, y, ha, hy, a', ha', hcode⟩ := Chain.exists_exit_of_visits hready.wired.sound hfirst hv
        have hstart : v.wordPc 0 = y.target := by
          rw [Visit.wordPc, ← hcode, (hready.stocked.planned _ a' ha').start, Plan.wordPc_zero]
        exact absurd (hstart ▸ hvector) ((hready.wired.planned pc a ha).not_vector hy)
    · exact .inl hpos
  · intro hloaded hhook
    by_contra hnot
    obtain ⟨rfl, rfl⟩ : k = 0 ∧ n = 0 := by omega
    have hbooted := hs.booted
    rw [hloaded, ← (hzero rfl).2, hhook] at hbooted
    simp at hbooted

/-! ### A call of a function vector -/

/-- A boot ROM that calls a function vector: its address into a register, the jump, and its delay slot. -/
def vectorRom : ByteArray := ⟨#[0xA0, 0, 0x0A, 0x24, 0x08, 0, 0x40, 0x01, 0, 0, 0, 0]⟩

/-- Settings with blocks of two instructions at most, and little room for them. -/
def vectorSettings : Settings := { limits := { cacheSlots := 1, poolNodes := 1, maxBlock := 2 } }

/-- The block of the call. -/
def vectorCall : Block :=
  ⟨⟨⟨[.arith .addu 10 0 (.imm 0xA0)], some ⟨.jumpReg 10 none, some (.shift .left 0 0 (.imm 0))⟩, 0xBFC0000C⟩,
    resetVector⟩, []⟩

lemma source_dropDirtyCode (m : Machine TranslatorStats Block δ) : m.dropDirtyCode.memory.source = m.memory.source := by
  rw [dropDirtyCode_eq]
  let I (y : Machine TranslatorStats Block δ) : Prop := y.memory.source = m.memory.source
  exact List.foldlRecOn (motive := I) m.memory.dirty.toList _ rfl fun y hy p _ =>
    (congrArg Memory.source (quiet_invalidate y _ _).2.1).trans hy

/-- A pass whose blocks leave the board alone changes nothing that can be fetched. -/
lemma Starts.source_pass {P : Parts TranslatorStats Block δ} (hP : P.hooks = .none δ) (hs : h.Starts P deadline e x)
    (hran : (x.runBlock P e deadline).board = x.board) : (h.pass P deadline).2.memory.source = h.memory.source := by
  obtain ⟨y, hintercept, hfind⟩ := hs.found
  rw [intercept_of_none hP] at hintercept
  obtain ⟨-, rfl⟩ := Prod.mk.inj hintercept
  obtain ⟨-, -, hfound⟩ := findBlock_found hfind
  rw [hs.pass_eq, (quiet_fastForward ..).memory, (quiet_syncInterrupts ..).memory, source_dropDirtyCode, memory, hran]
  exact hfound

/-- A new machine with the ROM jumps to the vector in its first dispatch, and then finds a block there. -/
lemma vector_run :
    let P := Parts.standard (.absent Unit) (.none Unit)
    ∃ m₀ h e x, ofTranslator P vectorSettings vectorRom () {} = .ok m₀ ∧ AtHead P m₀ h ∧ h.Starts P 100 e x ∧
      h.cpu.pc = 0xA0 := by
  intro P
  let m₀ := assemble P vectorSettings vectorRom () (.bare {} vectorSettings.limits)
  have hstart : ofTranslator P vectorSettings vectorRom () {} = .ok m₀ :=
    ofTranslator_eq_bare (by decide) _ _ _
  let P' := P.reading (imageSource vectorRom)
  let h := (m₀.pass P' 100).2
  have hsource : m₀.memory.source = imageSource vectorRom := Memory.source_ofBios (by decide)
  have hpass : m₀.pass P 100 = m₀.pass P' 100 := pass_reading rfl 100 hsource
  have hagain : (m₀.pass P' 100).1 = .again := by decide +kernel
  have hhead : AtHead P m₀ h := by
    have hdeadline : m₀.stepDeadline 100 = 100 := by decide +kernel
    refine ⟨m₀, 100, .start, ?_⟩
    rw [hdeadline]
    refine .again .start (by decide +kernel) (hpass.trans ?_)
    rw [← hagain]
  have hfetch : h.memory.source = imageSource vectorRom := by
    have hfound : (m₀.findBlock P' m₀.cpu.pc).1.toOption.join.any (fun e => decide (e.code = vectorCall)) = true := by
      decide +kernel
    obtain ⟨e, x, hfind, hcode⟩ := exists_found hfound
    have hs : m₀.Starts P' 100 e x := {
      early := by decide +kernel
      booted := rfl
      aligned := by decide
      found := ⟨m₀, intercept_of_none rfl m₀.cpu.pc m₀, hfind⟩ }
    refine (hs.source_pass rfl ?_).trans hsource
    rw [board_runBlock, of_decide_eq_true hcode]
    rfl
  have hfound : (h.findBlock P' h.cpu.pc).1.toOption.join.any (fun _ => true) = true := by decide +kernel
  have hbooted : (!h.loaded && h.cpu.pc == h.settings.bootHook) = false := by decide +kernel
  have hearly : h.cycles < 100 := by decide +kernel
  have hpc : h.cpu.pc = 0xA0 := by decide +kernel
  clear_value h
  obtain ⟨e, x, hfind, -⟩ := exists_found hfound
  have haligned : h.cpu.pc &&& 3 = 0 := by
    rw [hpc]
    decide
  have hs : h.Starts P 100 e x := {
    early := hearly
    booted := hbooted
    aligned := haligned
    found := ⟨h, intercept_of_none rfl h.cpu.pc h, (findBlock_reading h.cpu.pc hfetch).trans hfind⟩ }
  exact ⟨m₀, h, e, x, hstart, hhead, hs, hpc⟩

/-- The call of a function vector is offered to the hooks. -/
theorem hook_points_vector :
    let P := Parts.standard (.absent Unit) (.none Unit)
    ∃ m₀ h e x, ofTranslator P vectorSettings vectorRom () {} = .ok m₀ ∧ AtHead P m₀ h ∧ h.Starts P 100 e x ∧
      x.Visits (.absent Unit) e 100 0 (x.visit e 100) ∧
        (x.visit e 100).Arrives (Board.serve (.absent Unit) x.cycles) 0 (x.budget 100) (x.armed (x.budget 100))
          x.board ∧ (x.visit e 100).wordPc 0 = 0xA0 ∧ h.Declined (.none Unit) x := by
  intro P
  obtain ⟨m₀, h, e, x, hstart, hhead, hs, hpc⟩ := vector_run
  have hplanned := (hs.ready_of_atHead hstart hhead).planned
  have harrives := (x.visit e 100).arrives_zero (Board.serve (.absent Unit) x.cycles) hplanned rfl
  have hword : (x.visit e 100).wordPc 0 = 0xA0 := by
    rw [← hpc, ← hplanned.start]
    exact Plan.wordPc_zero _
  have hvector : physical ((x.visit e 100).wordPc 0) ∈ Translator.functionVectors := by
    rw [hword]
    decide
  rcases (hook_points hstart hhead hs .first harrives).1 hvector with hpos | ⟨-, -, -, hdeclined⟩
  · exact absurd hpos (Nat.lt_irrefl 0)
  · exact ⟨m₀, h, e, x, hstart, hhead, hs, .first, harrives, hword, hdeclined⟩

end Machine

end R3000
