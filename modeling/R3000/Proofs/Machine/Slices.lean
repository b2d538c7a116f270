import Mathlib
import R3000.Proofs.Machine.Events
import R3000.Proofs.Memory.Rom

/-!
# Slices

A step fixes its deadline before it runs code: no event that is pending then is due sooner.  So until the
step ends no block starts once such an event is due, and no skip goes past one.  An event that a device asks
for in the meantime is looked at when the step ends, even if it is due sooner.
-/

namespace R3000

/-- Parts whose translator reads from one source. -/
def Parts.reading {τ β δ : Type} (P : Parts τ β δ) (source : Source) : Parts τ β δ :=
  { P with translator := Recompiler.reading P.translator source }

namespace Machine

section

variable {τ β δ : Type} {P : Parts τ β δ} {m m' h x : Machine τ β δ} {e : Entry β} {deadline : UInt64}

/-! ### Starts of blocks -/

/-- A look that finds a block changes translated code and counts, and marks a block that is new. -/
lemma findBlock_eq_some {pc : UInt32} (hfind : m.findBlock P pc = (.ok (some e), m')) :
    ∃ recompiler stats, m' = { m with recompiler, stats } ∨
      m' = { m.mapMemory (·.markCode e.pc e.sourceBytes) with recompiler, stats } := by
  rw [findBlock] at hfind
  split at hfind
  · obtain ⟨-, rfl⟩ := Prod.mk.inj hfind
    exact ⟨_, _, .inl rfl⟩
  · dsimp only at hfind
    split at hfind
    · simp at hfind
    · obtain ⟨-, rfl⟩ := Prod.mk.inj hfind
      exact ⟨_, _, .inl rfl⟩
    · obtain ⟨hfound, rfl⟩ := Prod.mk.inj hfind
      obtain rfl := Option.some.inj (Except.ok.inj hfound)
      exact ⟨_, _, .inr rfl⟩
    · simp at hfind

/-- The dispatcher runs a block from the head `h` of its loop: it is early enough, no image is to be loaded, no
hook takes the call, and there is a block.  `m` is the machine that runs it. -/
structure Starts (P : Parts τ β δ) (deadline : UInt64) (h : Machine τ β δ) (e : Entry β)
    (m : Machine τ β δ) : Prop where
  early : h.cycles < deadline
  booted : (!h.loaded && h.cpu.pc == h.settings.bootHook) = false
  aligned : h.cpu.pc &&& 3 = 0
  found : ∃ x, h.intercept P h.cpu.pc = (false, x) ∧ x.findBlock P h.cpu.pc = (.ok (some e), m)

/-- The pass that runs a block, which no hook has replaced, takes interrupts after it, and then looks whether to skip
the rest of the slice. -/
lemma pass_of_findBlock (hbooted : (!h.loaded && h.cpu.pc == h.settings.bootHook) = false)
    (haligned : h.cpu.pc &&& 3 = 0) (hintercept : h.intercept P h.cpu.pc = (false, x))
    (hfind : x.findBlock P h.cpu.pc = (.ok (some e), m)) :
    let forward := ((m.runBlock P e deadline).dropDirtyCode.syncInterrupts P).fastForward e deadline
    h.pass P deadline = (if forward.1 then .skipped else .again, forward.2) := by
  dsimp only [pass]
  rw [if_neg (by simpa using hbooted), hintercept]
  dsimp only
  rw [if_pos haligned, runPass, hfind]
  dsimp only
  rcases ((m.runBlock P e deadline).dropDirtyCode.syncInterrupts P).fastForward e deadline with ⟨_ | _, z⟩ <;> rfl

lemma Starts.pass_eq (hs : h.Starts P deadline e m) :
    let forward := ((m.runBlock P e deadline).dropDirtyCode.syncInterrupts P).fastForward e deadline
    h.pass P deadline = (if forward.1 then .skipped else .again, forward.2) := by
  obtain ⟨x, hintercept, hfind⟩ := hs.found
  exact pass_of_findBlock hs.booted hs.aligned hintercept hfind

/-- Looking for the block moves neither the counter nor the events. -/
lemma Starts.still (hs : h.Starts P deadline e m) : Still h m := by
  obtain ⟨x, hintercept, hfind⟩ := hs.found
  have hx := still_intercept P h.cpu.pc h
  have hm := still_findBlock P h.cpu.pc x
  rw [hintercept] at hx
  rw [hfind] at hm
  exact hx.trans hm

/-- The cycles at which a dispatch enters its block and those chained to it. -/
def entries (P : Parts τ β δ) (e : Entry β) (deadline : UInt64) (m : Machine τ β δ) : List Int :=
  (Chain.budgets (P.enter m.recompiler.translator m.cycles) m.recompiler.store e.code (m.budget deadline)
    (m.armed (m.budget deadline)) m.board).map
      fun left => m.cycles.toNat + ((m.budget deadline).toInt - left.toInt)

/-- A skip ends at the deadline, or where it began if that was later. -/
lemma cycles_fastForward_le (e : Entry β) (deadline : UInt64) (m : Machine τ β δ) :
    (m.fastForward e deadline).2.cycles ≤ max m.cycles deadline := by
  have hle : m.cycles ≤ max m.cycles deadline := by
    rw [UInt64.le_iff_toNat_le, UInt64.toNat_max]
    exact le_max_left ..
  rw [fastForward]
  dsimp only
  split
  · exact hle
  · split
    · exact hle
    · exact UInt64.le_refl _

/-- Without hooks a pass sees of memory what it fetches, when it translates. -/
lemma pass_reading (hP : P.hooks = .none δ) (deadline : UInt64) {source : Source} (hfetch : m.memory.source = source) :
    m.pass P deadline = m.pass (P.reading source) deadline := by
  subst hfetch
  have hP' : (P.reading m.memory.source).hooks = .none δ := hP
  dsimp only [pass]
  rw [intercept_of_none hP, intercept_of_none hP']
  rfl

end

/-! ### Deadlines -/

variable {δ : Type} {hw : Hardware δ} {hooks : Hooks δ} {settings : Settings}
  {m m₀ h x : Machine TranslatorStats Block δ} {e : Entry Block} {limit deadline : UInt64}

/-- All blocks of a dispatch are entered before its deadline. -/
lemma entries_lt (hw : Hardware δ) (hooks : Hooks δ) (hgo : m.cycles < deadline) (e : Entry Block) :
    ∀ c ∈ m.entries (.standard hw hooks) e deadline, c < deadline.toNat := by
  obtain ⟨hpos, hle⟩ := budget_bounds hgo
  intro c hc
  obtain ⟨left, hleft, rfl⟩ := List.mem_map.mp hc
  have hentered := Chain.budgets_pos (Board.serve hw m.cycles) m.recompiler.store e.code hpos _ _ left hleft
  have hleft' : 0 < left.toInt := Int32.lt_iff_toInt_lt.mp hentered
  omega

/-- Passes add and drop events. -/
lemma follows_passes (hm : Passes (.standard hw hooks) deadline m h) : m.events.Follows h.events := by
  induction hm with
  | start => exact .refl _
  | @again x y _ _ heq ih =>
    have hpass := undisturbed_pass ((Schedule.granted_follows m.events).keeps hw) hooks deadline x
    rw [heq] at hpass
    exact hpass.events ih

/-- The deadlines that are pending when a step begins are respected until it ends: neither the dispatcher nor a
link enters a block once one has come, and the dispatcher does not skip past one.  What else is pending when a
block starts or the dispatcher looks whether to skip was scheduled in the step. -/
theorem deadlines_respected {bios : ByteArray} {device : δ}
    (hstart : ofTranslator (.standard hw hooks) settings bios device {} = .ok m₀)
    (hm : Reached (.standard hw hooks) m₀ m)
    (hhead : Passes (.standard hw hooks) (m.stepDeadline limit) m h)
    (hstarts : h.Starts (.standard hw hooks) (m.stepDeadline limit) e x) :
    let ran := (x.runBlock (.standard hw hooks) e (m.stepDeadline limit)).dropDirtyCode.syncInterrupts
      (.standard hw hooks)
    (∀ k p, m.events.get? k = some p →
        x.cycles < p.deadline ∧
          (∀ c ∈ x.entries (.standard hw hooks) e (m.stepDeadline limit), c < p.deadline.toNat) ∧
            (ran.fastForward e (m.stepDeadline limit)).2.cycles ≤ max ran.cycles p.deadline) ∧
      ∀ k p, x.events.get? k = some p ∨ ran.events.get? k = some p →
        m.events.get? k = some p ∨ m.events.nextAge ≤ p.age := by
  intro ran
  have htidy := (invariant_tidy hw hooks).reached (tidy_ofTranslator hstart) hm
  have hgo : x.cycles < m.stepDeadline limit := hstarts.still.cycles ▸ hstarts.early
  have hgranted := (Schedule.granted_follows m.events).keeps hw
  have hx : m.events.Follows x.events := (follows_passes hhead).congr hstarts.still.schedule
  have hran : m.events.Follows ran.events := (undisturbed_settled hgranted hooks e _ x).events hx
  constructor
  · intro k p hp
    have hdeadline := stepDeadline_le htidy hp limit
    have hdeadline' := UInt64.le_iff_toNat_le.mp hdeadline
    refine ⟨UInt64.lt_of_lt_of_le hgo hdeadline, fun c hc => ?_, ?_⟩
    · have hc' := entries_lt hw hooks hgo e c hc
      omega
    · refine UInt64.le_trans (cycles_fastForward_le e _ ran) ?_
      rw [UInt64.le_iff_toNat_le, UInt64.toNat_max, UInt64.toNat_max]
      exact max_le_max le_rfl hdeadline'
  · intro k p hp
    by_cases hage : p.age < m.events.nextAge
    · rcases hp with hp | hp
      · exact .inl (hx.old k p hp hage)
      · exact .inl (hran.old k p hp hage)
    · exact .inr (not_lt.mp hage)

/-! ### A device that asks for events soon -/

/-- A device that asks for an event whenever it is read: at once at the start, later some cycles on. -/
def soonDevice : Hardware Unit :=
  { Hardware.absent Unit with
    read := fun now _ _ d => ⟨0, d, [.schedule .timer0 (if now = 0 then 1 else now + 100)]⟩ }

/-- A boot ROM that reads a register over and over: an address in two instructions, the jump back, and its
delay slot. -/
def pollRom : ByteArray := ⟨#[0x80, 0x1F, 0x08, 0x3C, 0, 0x11, 0x09, 0x8D, 0, 0, 0xF0, 0x0B]⟩

/-- Settings under which the second pass of an endless loop skips, and no links are followed. -/
def pollSettings : Settings :=
  { idleStrong := 2, chainLimit := 0, limits := { cacheSlots := 1, poolNodes := 1 } }

/-- The second pass of the loop, in a step that works towards the first batch of scanlines. -/
lemma poll_run :
    let P := Parts.standard soonDevice (.none Unit)
    ∃ m₀ h e x, ofTranslator P pollSettings pollRom () {} = .ok m₀ ∧
      m₀.stepDeadline Schedule.never = 68864 ∧ m₀.events.get? .hblank = some ⟨68864, 0, .batch⟩ ∧
        Passes P 68864 m₀ h ∧ h.Starts P 68864 e x ∧ x.cycles = 5 ∧
          x.events.get? .timer0 = some ⟨1, 2, .device⟩ ∧
          let ran := (x.runBlock P e 68864).dropDirtyCode.syncInterrupts P
          ran.cycles = 10 ∧ ran.events.get? .timer0 = some ⟨105, 3, .device⟩ ∧
            (ran.fastForward e 68864).1 = true ∧ (ran.fastForward e 68864).2.cycles = 68864 := by
  intro P
  let m₀ := assemble P pollSettings pollRom () (.bare {} pollSettings.limits)
  have hstart : ofTranslator P pollSettings pollRom () {} = .ok m₀ :=
    ofTranslator_eq_bare (by decide) _ _ _
  -- the first pass translates the words of the image
  let P' := P.reading (imageSource pollRom)
  let h := (m₀.pass P' 68864).2
  have hpass : m₀.pass P 68864 = m₀.pass P' 68864 := pass_reading rfl 68864 (Memory.source_ofBios (by decide))
  have hagain : (m₀.pass P' 68864).1 = .again := by decide +kernel
  have hhead : Passes P 68864 m₀ h := by
    refine .again .start (by decide +kernel) (hpass.trans ?_)
    rw [← hagain]
  -- the second one finds the block in the cache
  have hcached : (h.recompiler.cache.resident? h.cpu.pc).any (fun e =>
      let x := { h with stats.fastHits := h.stats.fastHits + 1 }
      let ran := (x.runBlock P e 68864).dropDirtyCode.syncInterrupts P
      ran.cycles = 10 ∧ ran.events.get? .timer0 = some ⟨105, 3, .device⟩ ∧
        (ran.fastForward e 68864).1 = true ∧ (ran.fastForward e 68864).2.cycles = 68864) = true := by
    decide +kernel
  obtain ⟨e, he, hran⟩ := (Option.any_eq_true ..).mp hcached
  let x := { h with stats.fastHits := h.stats.fastHits + 1 }
  have hfind : h.findBlock P h.cpu.pc = (.ok (some e), x) := by rw [findBlock, he]
  have hstarts : h.Starts P 68864 e x := {
    early := by decide +kernel
    booted := by decide +kernel
    aligned := by decide +kernel
    found := ⟨h, intercept_of_none rfl h.cpu.pc h, hfind⟩ }
  exact ⟨m₀, h, e, x, hstart, by decide +kernel, by decide +kernel, hhead, hstarts, by decide +kernel,
    by decide +kernel, by simpa using hran⟩

/-- In the second pass of the loop the first batch of scanlines is not due yet, and the skip ends when it is. -/
theorem deadlines_respected_poll :
    let P := Parts.standard soonDevice (.none Unit)
    ∃ m₀ h e x, ofTranslator P pollSettings pollRom () {} = .ok m₀ ∧ Reached P m₀ m₀ ∧
      Passes P (m₀.stepDeadline Schedule.never) m₀ h ∧ h.Starts P (m₀.stepDeadline Schedule.never) e x ∧
        m₀.events.get? .hblank = some ⟨68864, 0, .batch⟩ ∧ x.cycles < 68864 ∧
          (((x.runBlock P e 68864).dropDirtyCode.syncInterrupts P).fastForward e 68864).2.cycles ≤ 68864 := by
  intro P
  obtain ⟨m₀, h, e, x, hstart, hdeadline, hbatch, hhead, hstarts, -, -, hcycles, -⟩ := poll_run
  rw [← hdeadline] at hhead hstarts
  obtain ⟨hrespected, -⟩ := deadlines_respected hstart .start hhead hstarts
  obtain ⟨hearly, -, hskip⟩ := hrespected .hblank _ hbatch
  rw [hdeadline, hcycles] at hskip
  exact ⟨m₀, h, e, x, hstart, .start, hhead, hstarts, hbatch, hearly, hskip⟩

/-- Events that a device asks for in a step are not looked at before it ends: a block starts four cycles after one
was due, and the pass then skips past another one that was not due yet. -/
theorem exists_late :
    let P := Parts.standard soonDevice (.none Unit)
    ∃ m₀ h e x z, ofTranslator P pollSettings pollRom () {} = .ok m₀ ∧
      Passes P (m₀.stepDeadline Schedule.never) m₀ h ∧ h.Starts P (m₀.stepDeadline Schedule.never) e x ∧
        (∃ p, x.events.get? .timer0 = some p ∧ p.deadline ≤ x.cycles) ∧
          h.pass P (m₀.stepDeadline Schedule.never) = (.skipped, z) ∧
            let ran := (x.runBlock P e (m₀.stepDeadline Schedule.never)).dropDirtyCode.syncInterrupts P
            ∃ p, ran.events.get? .timer0 = some p ∧ ran.cycles < p.deadline ∧ p.deadline < z.cycles := by
  intro P
  obtain ⟨m₀, h, e, x, hstart, hdeadline, -, hhead, hstarts, hcycles, hevent, hran, hnext, hskips, hskip⟩ :=
    poll_run
  set ran := (x.runBlock P e 68864).dropDirtyCode.syncInterrupts P with hran_def
  have hpass : h.pass P 68864 = (.skipped, (ran.fastForward e 68864).2) := by
    rw [hstarts.pass_eq, ← hran_def, hskips]
    rfl
  refine ⟨m₀, h, e, x, (ran.fastForward e 68864).2, hstart, ?_⟩
  rw [hdeadline]
  refine ⟨hhead, hstarts, ⟨_, hevent, ?_⟩, hpass, _, hnext, ?_, ?_⟩
  · rw [hcycles]
    decide
  · rw [hran]
    decide
  · rw [hskip]
    decide

end Machine

end R3000
