import Mathlib
import R3000.Proofs.Machine.Advance
import R3000.Proofs.Machine.Calls
import R3000.Proofs.Machine.Freshness
import R3000.Proofs.Machine.Twins

/-!
# The sizes of the stores do not show

Two machines that differ in the sizes of their code stores find blocks in different ways: one may have a block in the
cache where the other translates it, or flushes everything first.  In the boot ROM, which nothing writes, both find
the block that the words there make.  With links and skips switched off each dispatch then does the same to both.
-/

namespace R3000

/-! ### Settings -/

/-- Sizes of the stores of a translator. -/
structure Sizes where
  cacheSlots : Nat
  poolNodes : Nat
  patchSites : Nat
  flushMargin : Nat
  linkCapacity : Nat

/-- The settings with stores of other sizes. -/
def Settings.sized (s : Settings) (z : Sizes) : Settings :=
  { s with
    limits := { s.limits with
      cacheSlots := z.cacheSlots
      poolNodes := z.poolNodes
      patchSites := z.patchSites
      flushMargin := z.flushMargin
      linkCapacity := z.linkCapacity } }

/-- No links are followed and no slice is skipped. -/
structure Settings.Plain (s : Settings) : Prop where
  chainLimit : s.chainLimit = 0
  idleStrong : s.idleStrong = 0xFFFFFFFF
  idleWeakBios : s.idleWeakBios = 0xFFFFFFFF
  idleWeakRam : s.idleWeakRam = 0xFFFFFFFF

lemma Settings.Plain.sized {s : Settings} (h : s.Plain) (z : Sizes) : (s.sized z).Plain :=
  ⟨h.chainLimit, h.idleStrong, h.idleWeakBios, h.idleWeakRam⟩

/-! ### The boot ROM -/

/-- Whether an address lies in the boot ROM. -/
def inRom (addr : UInt32) : Bool :=
  match Region.ofAddress addr with
  | .bios _ => true
  | _ => false

lemma not_ram_of_inRom {addr : UInt32} (h : inRom addr) : ¬ (physical addr).toNat < 0x800000 := by
  intro hlow
  rw [inRom, Memory.ofAddress_of_ram hlow] at h
  simp at h

/-- Code in the boot ROM is not marked. -/
lemma Memory.markCode_of_inRom {addr : UInt32} (h : inRom addr) (m : Memory) (len : UInt32) :
    m.markCode addr len = m := by
  rw [markCode]
  split
  · rename_i start hregion
    rw [inRom, hregion] at h
    simp at h
  · rfl

namespace Machine

open Recompiler

variable {δ : Type} {hw : Hardware δ} {settings : Settings} {z z' : Sizes}
  {m m' m₀ x x' : Machine TranslatorStats Block δ} {pc : UInt32} {e e' : Entry Block} {deadline : UInt64}

/-! ### Finding a block -/

/-- A machine with room for code, all of which memory backs. -/
structure Sound (settings : Settings) (m : Machine TranslatorStats Block δ) : Prop where
  sturdy : m.Sturdy settings
  backed : m.recompiler.Backed m.memory

lemma invariant_sound (hw : Hardware δ) (settings : Settings) : Invariant (.standard hw (.none δ))
    fun m : Machine TranslatorStats Block δ => m.Sound settings := by
  have hsplit : (fun m : Machine TranslatorStats Block δ => m.Sound settings) =
      fun m => m.Sturdy settings ∧ m.recompiler.Backed m.memory :=
    funext fun m => propext ⟨fun h => ⟨h.sturdy, h.backed⟩, fun h => ⟨h.1, h.2⟩⟩
  rw [hsplit]
  exact (codeInvariant_sturdy hw (.none δ) settings).invariant.and (codeInvariant_backed hw).invariant

lemma sound_ofTranslator {bios : ByteArray} {device : δ} (hlinks : 2 ≤ settings.limits.linkCapacity)
    (hcode : settings.limits.CodeFits)
    (h : ofTranslator (.standard hw (.none δ)) settings bios device {} = .ok m₀) : m₀.Sound settings where
  sturdy := sturdy_ofTranslator h hlinks hcode
  backed := backed_ofTranslator h

/-- The machine after a look for a block where there is none. -/
def withoutBlock (pc : UInt32) (m : Machine TranslatorStats Block δ) : Machine TranslatorStats Block δ :=
  { m with cpu := { m.cpu with currentPc := pc }.enter .busInstruction }

/-- Where no block is found there is no word. -/
lemma findBlock_none (hw : Hardware δ) (hooks : Hooks δ) (h : m.recompiler.Roomy)
    (hfind : m.findBlock (.standard hw hooks) pc = (.ok none, x)) :
    (m.memory.fetch pc).isSome = false ∧ Alike (m.withoutBlock pc) x := by
  obtain ⟨a, r, hresolve, hanswered⟩ := resolve_of_roomy h true Translator.functionVectors (m.memory.sound_source pc)
  rw [findBlock] at hfind
  split at hfind
  · simp at hfind
  · dsimp only [Parts.standard] at hfind
    rw [hresolve] at hfind
    cases a with
    | hit | compiled => simp at hfind
    | failed err =>
      obtain ⟨hplan, -⟩ := hanswered.plan_eq_error rfl
      constructor
      · rw [← Bool.not_eq_true, ← Memory.word?_source]
        intro hword
        rw [Plan.ofSource, (Plan.firstError_true _ _).mpr hword] at hplan
        simp at hplan
      · obtain ⟨-, rfl⟩ := Prod.mk.inj hfind
        exact .recoded _ r _ _ (m.withoutBlock pc)

/-- A look that finds a block in the boot ROM changes nothing but translated code and counts. -/
lemma alike_findBlock {P : Parts TranslatorStats Block δ} (hfind : m.findBlock P pc = (.ok (some e), x))
    (hrom : inRom e.pc) : Alike m x := by
  obtain ⟨r, stats, rfl | rfl⟩ := findBlock_eq_some hfind
  · exact .recoded _ r _ stats m
  · rw [mapMemory, Memory.markCode_of_inRom hrom]
    exact .recoded _ r _ stats m

/-- A block that is found starts at the address asked for, where there is a word; in the boot ROM it is what the
words there make, however it was found. -/
lemma findBlock_some (h : m.Sound settings)
    (hfind : m.findBlock (.standard hw (.none δ)) pc = (.ok (some e), x)) :
    e.pc = pc ∧ (m.memory.fetch pc).isSome ∧
      (inRom pc → Plan.ofSource m.memory.source true pc (max settings.limits.maxBlock 1) = .ok e.code.plan) := by
  obtain ⟨hbacked, hfetch, hmax, hget⟩ := backed_findBlock hw h.backed pc
  rw [hfind] at hbacked hfetch hmax hget
  dsimp only at hbacked hfetch hmax hget
  have he := hget e rfl
  obtain ⟨-, rfl⟩ := hbacked.valid.get?_eq_some_iff.mp he
  have hbacks := hbacked.backs e.pc e he
  rw [hmax, h.sturdy.capped.code.maxBlock] at hbacks
  obtain ⟨old, htranslates, -⟩ := hbacks.exists_source
  refine ⟨rfl, ?_, fun hrom => ?_⟩
  · rw [Memory.isSome_fetch_congr old, ← Memory.word?_source]
    exact (Plan.ofSource_eq_ok.mp htranslates.plan).1
  · have hstays : e.StaysInImage := fun hlow => absurd (hlow.trans (by decide)) (not_ram_of_inRom hrom)
    rw [← hfetch]
    exact (hbacks.translates hstays).plan

/-! ### Passes -/

/-- With skips switched off no slice is skipped. -/
lemma fastForward_of_plain (h : m.settings.Plain) (e : Entry Block) (deadline : UInt64) :
    m.fastForward e deadline = (false, { m with watch := {} }) := by
  have hthreshold : m.idleThreshold e = 0xFFFFFFFF := by
    rw [idleThreshold]
    split
    · rfl
    · exact h.idleStrong
    · split
      · exact h.idleWeakBios
      · exact h.idleWeakRam
  rw [fastForward]
  exact if_pos (.inl hthreshold)

/-- A dispatch leaves the settings plain. -/
lemma plain_settled (hplain : settings.Plain) (h : m.Capped (settings.sized z))
    (hfind : m.findBlock (.standard hw (.none δ)) pc = (.ok (some e), x)) (deadline : UInt64) :
    ((x.runBlock (.standard hw (.none δ)) e deadline).dropDirtyCode.syncInterrupts
      (.standard hw (.none δ))).settings.Plain := by
  have hran := (codeInvariant_capped hw (.none δ) _).run m pc x e deadline h hfind
  rw [(quiet_syncInterrupts ..).settings, hran.kept]
  exact hplain.sized z

/-- Sound machines that are alike, with the same settings but for the sizes of their stores. -/
structure Twins (settings : Settings) (z z' : Sizes) (m m' : Machine TranslatorStats Block δ) : Prop where
  alike : Alike m m'
  left : m.Sound (settings.sized z)
  right : m'.Sound (settings.sized z')

namespace Twins

/-- Twins find the same block in the boot ROM, or none. -/
lemma findBlock (h : Twins settings z z' m m') (pc : UInt32)
    (hrom : ∀ e x, m.findBlock (.standard hw (.none δ)) pc = (.ok (some e), x) → inRom e.pc) :
    (∃ x x', m.findBlock (.standard hw (.none δ)) pc = (.ok none, x) ∧
        m'.findBlock (.standard hw (.none δ)) pc = (.ok none, x') ∧ Alike x x') ∨
      ∃ e e' x x', m.findBlock (.standard hw (.none δ)) pc = (.ok (some e), x) ∧
        m'.findBlock (.standard hw (.none δ)) pc = (.ok (some e'), x') ∧ e'.code.plan = e.code.plan ∧
          Alike m x ∧ Alike x x' := by
  obtain ⟨found, x, hfind⟩ := exists_findBlock hw (.none δ) h.left.sturdy.room pc
  obtain ⟨found', x', hfind'⟩ := exists_findBlock hw (.none δ) h.right.sturdy.room pc
  have hmemory : m'.memory = m.memory := congrArg Board.memory h.alike.board
  cases found with
  | none =>
    obtain ⟨hword, halike⟩ := findBlock_none hw (.none δ) h.left.sturdy.room hfind
    cases found' with
    | none =>
      obtain ⟨-, halike'⟩ := findBlock_none hw (.none δ) h.right.sturdy.room hfind'
      refine .inl ⟨x, x', hfind, hfind', halike.symm.trans (Alike.trans ?_ halike')⟩
      obtain ⟨limits, r, watch, stats, rfl⟩ := h.alike.exists_recoded
      exact .recoded limits r watch stats (m.withoutBlock pc)
    | some e' =>
      obtain ⟨-, hword', -⟩ := findBlock_some h.right hfind'
      rw [hmemory, hword] at hword'
      simp at hword'
  | some e =>
    obtain ⟨hpc, hword, hplan⟩ := findBlock_some h.left hfind
    have hin := hrom e x hfind
    cases found' with
    | none =>
      obtain ⟨hword', -⟩ := findBlock_none hw (.none δ) h.right.sturdy.room hfind'
      rw [hmemory, hword] at hword'
      simp at hword'
    | some e' =>
      obtain ⟨hpc', -, hplan'⟩ := findBlock_some h.right hfind'
      have halike := alike_findBlock hfind hin
      have halike' := alike_findBlock hfind' (hpc' ▸ hpc ▸ hin)
      refine .inr ⟨e, e', x, x', hfind, hfind', ?_, halike, halike.symm.trans (h.alike.trans halike')⟩
      have hsame := hplan' (hpc ▸ hin)
      rw [hmemory] at hsame
      exact Except.ok.inj (hsame.symm.trans (hplan (hpc ▸ hin)))

lemma runPass (hhw : hw.Blind) (hplain : settings.Plain) (h : Twins settings z z' m m') (deadline : UInt64)
    (pc : UInt32) (hrom : ∀ e x, m.findBlock (.standard hw (.none δ)) pc = (.ok (some e), x) → inRom e.pc) :
    Agrees (m.runPass (.standard hw (.none δ)) deadline pc) (m'.runPass (.standard hw (.none δ)) deadline pc) := by
  rcases h.findBlock pc hrom with ⟨x, x', hfind, hfind', halike⟩ |
    ⟨e, e', x, x', hfind, hfind', hplan, hkept, halike⟩
  · rw [Machine.runPass, Machine.runPass, hfind, hfind']
    dsimp only
    rw [halike.minCharge]
    exact ⟨rfl, halike.charge _⟩
  · have hlinks : x.settings.chainLimit = 0 := by
      have hx := (codeInvariant_capped hw (.none δ) _).findBlock m pc h.left.sturdy.capped
      rw [hfind] at hx
      rw [hx.kept]
      exact hplain.chainLimit
    have hran := halike.runBlock hhw (.none δ) hlinks hplan deadline
    replace hran := hran.dropDirtyCode.syncInterrupts (.standard hw (.none δ))
    rw [Machine.runPass, Machine.runPass, hfind, hfind']
    dsimp only
    rw [fastForward_of_plain (plain_settled hplain h.left.sturdy.capped hfind deadline),
      fastForward_of_plain (plain_settled hplain h.right.sturdy.capped hfind' deadline)]
    exact ⟨rfl, hran.settings, hran.cpu, hran.board, hran.raster, hran.loader, hran.loaded, hran.cycles,
      hran.frameDone⟩

/-- A pass does the same to twins if the block that it runs, if any, starts in the boot ROM. -/
theorem pass (hhw : hw.Blind) (hplain : settings.Plain) (h : Twins settings z z' m m') (hgo : m.cycles < deadline)
    (hrom : ∀ pc, m.block? (.standard hw (.none δ)) = some pc → inRom pc) :
    Agrees (m.pass (.standard hw (.none δ)) deadline) (m'.pass (.standard hw (.none δ)) deadline) := by
  dsimp only [Machine.pass]
  rw [intercept_none, intercept_none, h.alike.loaded, h.alike.cpu, h.alike.bootHook]
  split
  · obtain ⟨x, hload, -⟩ := exists_loadQueued h.left.sturdy.room
    obtain ⟨x', hload', -⟩ := exists_loadQueued h.right.sturdy.room
    rw [hload, hload']
    exact ⟨rfl, h.alike.loadQueued hload hload'⟩
  · rename_i hbooted
    dsimp only
    split
    · rename_i haligned
      refine h.runPass hhw hplain deadline _ fun e x hfind => ?_
      have hs : m.Starts (.standard hw (.none δ)) deadline e x :=
        ⟨hgo, by simpa using hbooted, haligned, m, intercept_none hw _ m, hfind⟩
      exact hrom _ hs.block?_eq
    · exact ⟨rfl, h.alike.misaligned _⟩

/-! ### Runs -/

lemma passes (hhw : hw.Blind) (hplain : settings.Plain) (h : Twins settings z z' m m') (deadline : UInt64) (fuel : Nat)
    (hrom : ∀ pc ∈ m.passesBlocks (.standard hw (.none δ)) deadline fuel, inRom pc) :
    Agrees (m.passes (.standard hw (.none δ)) deadline fuel) (m'.passes (.standard hw (.none δ)) deadline fuel) := by
  induction fuel generalizing m m' with
  | zero => exact ⟨rfl, h.alike⟩
  | succ fuel ih =>
    rw [Machine.passes, Machine.passes, h.alike.cycles]
    by_cases hgo : m.cycles < deadline
    · rw [passesBlocks, if_pos hgo] at hrom
      have hagrees := h.pass hhw hplain hgo fun pc hpc => hrom pc (by simp [hpc])
      have hleft := (invariant_sound hw _).pass m deadline h.left
      have hright := (invariant_sound hw _).pass m' deadline h.right
      obtain ⟨how, x, x', hpass, hpass', halike⟩ := hagrees.exists_eq
      rw [hpass] at hleft hrom
      rw [hpass'] at hright
      rw [if_pos hgo, if_pos hgo, hpass, hpass']
      cases how with
      | again => exact ih ⟨halike, hleft, hright⟩ fun pc hpc => hrom pc (List.mem_append_right _ hpc)
      | skipped | failed => exact ⟨rfl, halike⟩
    · rw [if_neg hgo, if_neg hgo]
      exact ⟨rfl, h.alike⟩

lemma stepUpTo (hhw : hw.Blind) (hplain : settings.Plain) (h : Twins settings z z' m m') (limit : UInt64)
    (hrom : ∀ pc ∈ m.stepBlocks (.standard hw (.none δ)) limit, inRom pc) :
    Agrees (m.stepUpTo (.standard hw (.none δ)) limit) (m'.stepUpTo (.standard hw (.none δ)) limit) := by
  obtain ⟨failed, x, x', hpasses, hpasses', halike⟩ := (h.passes hhw hplain _ _ hrom).exists_eq
  rw [Machine.stepUpTo, Machine.stepUpTo, execute, execute, h.alike.stepDeadline, h.alike.cycles, hpasses, hpasses']
  cases failed with
  | none => exact ⟨rfl, halike.dispatchEvents _⟩
  | some err => exact ⟨rfl, halike⟩

lemma stepWhile (hhw : hw.Blind) (hplain : settings.Plain) {go : Machine TranslatorStats Block δ → Bool}
    (hgo : ∀ x x', Alike x x' → go x' = go x) (h : Twins settings z z' m m') (limit : UInt64) (fuel : Nat)
    (hrom : ∀ pc ∈ m.whileBlocks (.standard hw (.none δ)) limit go fuel, inRom pc) :
    Agrees (m.stepWhile (.standard hw (.none δ)) limit go fuel)
      (m'.stepWhile (.standard hw (.none δ)) limit go fuel) := by
  induction fuel generalizing m m' with
  | zero =>
    rw [Machine.stepWhile, Machine.stepWhile, hgo m m' h.alike]
    exact ⟨rfl, h.alike⟩
  | succ fuel ih =>
    rw [Machine.stepWhile, Machine.stepWhile, hgo m m' h.alike]
    split
    · rename_i hgoes
      rw [whileBlocks, if_pos hgoes] at hrom
      have hagrees := h.stepUpTo hhw hplain limit fun pc hpc => hrom pc (List.mem_append_left _ hpc)
      have hleft := (invariant_sound hw _).stepUpTo limit h.left
      have hright := (invariant_sound hw _).stepUpTo limit h.right
      obtain ⟨failed, x, x', hstep, hstep', halike⟩ := hagrees.exists_eq
      rw [hstep] at hleft hrom
      rw [hstep'] at hright
      rw [hstep, hstep']
      cases failed with
      | none => exact ih ⟨halike, hleft, hright⟩ fun pc hpc => hrom pc (List.mem_append_right _ hpc)
      | some err => exact ⟨rfl, halike⟩
    · exact ⟨rfl, h.alike⟩

/-- A call gives the same result to twins. -/
lemma perform (hhw : hw.Blind) (hplain : settings.Plain) (h : Twins settings z z' m m') (call : Call)
    (hrom : ∀ pc ∈ call.blocks (.standard hw (.none δ)) m, inRom pc) :
    Agrees (call.perform (.standard hw (.none δ)) m) (call.perform (.standard hw (.none δ)) m') := by
  cases call with
  | step =>
    obtain ⟨failed, x, x', hstep, hstep', halike⟩ := (h.stepUpTo hhw hplain Schedule.never hrom).exists_eq
    rw [Call.perform, Call.perform, step, step, hstep, hstep']
    cases failed <;> exact ⟨rfl, halike⟩
  | runUntil fuel target =>
    exact h.stepWhile hhw hplain (fun x x' hx => by rw [hx.cycles]) target fuel hrom
  | runFrame fuel =>
    have halike : Alike { m with frameDone := false } { m' with frameDone := false } :=
      ⟨h.alike.settings, h.alike.cpu, h.alike.board, h.alike.raster, h.alike.loader, h.alike.loaded,
        h.alike.cycles, rfl⟩
    have hframe : Twins settings z z' { m with frameDone := false } { m' with frameDone := false } :=
      ⟨halike, (invariant_sound hw _).newFrame m h.left, (invariant_sound hw _).newFrame m' h.right⟩
    exact hframe.stepWhile hhw hplain (fun x x' hx => by rw [hx.frameDone]) Schedule.never fuel hrom
  | queue image =>
    exact ⟨rfl, h.alike.settings, h.alike.cpu, h.alike.board, h.alike.raster, rfl, rfl, h.alike.cycles,
      h.alike.frameDone⟩

lemma performAll (hhw : hw.Blind) (hplain : settings.Plain) (h : Twins settings z z' m m') (calls : List Call)
    (hrom : ∀ pc ∈ m.blocks (.standard hw (.none δ)) calls, inRom pc) :
    Agrees (m.performAll (.standard hw (.none δ)) calls) (m'.performAll (.standard hw (.none δ)) calls) := by
  induction calls generalizing m m' with
  | nil => exact ⟨rfl, h.alike⟩
  | cons call calls ih =>
    rw [blocks] at hrom
    obtain ⟨hresult, halike⟩ := h.perform hhw hplain call fun pc hpc => hrom pc (List.mem_append_left _ hpc)
    have hleft := (invariant_sound hw _).reached h.left (call.reached m)
    have hright := (invariant_sound hw _).reached h.right (call.reached m')
    obtain ⟨hresults, hrest⟩ := ih ⟨halike, hleft, hright⟩ fun pc hpc => hrom pc (List.mem_append_right _ hpc)
    exact ⟨congrArg₂ List.cons hresult hresults, hrest⟩

end Twins

/-- The sizes of the stores do not show.  If no links are followed, nothing is skipped and every block that is run
starts in the boot ROM, the same calls have the same results on two machines that differ in those sizes, and leave
the same processor, memory, interrupts, events, raster and cycles.  It is enough that the blocks of one machine start
in the boot ROM. -/
theorem sizes_unobservable (hhw : hw.Blind) (hplain : settings.Plain) (hlinks : 2 ≤ z.linkCapacity)
    (hlinks' : 2 ≤ z'.linkCapacity) (hcode : settings.limits.CodeFits) {bios : ByteArray} {device : δ}
    (hstart : ofTranslator (.standard hw (.none δ)) (settings.sized z) bios device {} = .ok m)
    (hstart' : ofTranslator (.standard hw (.none δ)) (settings.sized z') bios device {} = .ok m') (calls : List Call)
    (hrom : ∀ pc ∈ m.blocks (.standard hw (.none δ)) calls, inRom pc) :
    let r := m.performAll (.standard hw (.none δ)) calls
    let r' := m'.performAll (.standard hw (.none δ)) calls
    r'.1 = r.1 ∧ r'.2.cpu = r.2.cpu ∧ r'.2.board = r.2.board ∧ r'.2.raster = r.2.raster ∧
      r'.2.cycles = r.2.cycles ∧ r'.2.frameDone = r.2.frameDone := by
  have halike : Alike m m' := by
    obtain ⟨r, -, rfl⟩ := ofTranslator_eq_ok hstart
    obtain ⟨r', -, rfl⟩ := ofTranslator_eq_ok hstart'
    exact ⟨⟨_, rfl⟩, rfl, rfl, rfl, rfl, rfl, rfl, rfl⟩
  have htwins : Twins settings z z' m m' :=
    ⟨halike, sound_ofTranslator hlinks hcode hstart, sound_ofTranslator hlinks' hcode hstart'⟩
  obtain ⟨hresults, hafter⟩ := htwins.performAll hhw hplain calls hrom
  exact ⟨hresults, hafter.cpu, hafter.board, hafter.raster, hafter.cycles, hafter.frameDone⟩

/-! ### Two blocks in turn -/

/-- Settings under which nothing is linked or skipped, on a host that makes a hundred bytes of each instruction and has
space for ten. -/
def plainSettings : Settings where
  idleStrong := 0xFFFFFFFF
  idleWeakBios := 0xFFFFFFFF
  chainLimit := 0
  limits := { codeCapacity := 1024, maxBlock := 4, native := { block := fun b => 100 * b.plan.length } }

/-- Stores that keep every block. -/
def roomySizes : Sizes := ⟨1, 1, 8192, 0, 65536⟩

/-- Stores that are flushed once a block has been translated. -/
def tightSizes : Sizes := ⟨1, 0, 0, 900, 2⟩

lemma codeFits_plainSettings : plainSettings.limits.CodeFits := by
  intro b hb
  have hlength : b.plan.length ≤ 5 := hb
  have hstubs : plainSettings.limits.native.stubs = 3 := rfl
  change plainSettings.limits.native.stubs + 100 * b.plan.length ≤ 1024
  omega

/-- Four dispatches of two blocks in turn are the same with stores that keep both blocks and with stores in which the
code of one passes the margin, so that the other one is always translated anew. -/
theorem sizes_unobservable_ring :
    let P := Parts.standard (.absent Unit) (.none Unit)
    ∃ m m', ofTranslator P (plainSettings.sized roomySizes) ringRom () {} = .ok m ∧
      ofTranslator P (plainSettings.sized tightSizes) ringRom () {} = .ok m' ∧
        m.blocks P [.runUntil 1 8] = [resetVector, resetVector + 8, resetVector, resetVector + 8] ∧
          (∀ pc ∈ m.blocks P [.runUntil 1 8], inRom pc) ∧
            let r := m.performAll P [.runUntil 1 8]
            let r' := m'.performAll P [.runUntil 1 8]
            (r'.1 = r.1 ∧ r'.2.cpu = r.2.cpu ∧ r'.2.board = r.2.board ∧ r'.2.raster = r.2.raster ∧
              r'.2.cycles = r.2.cycles ∧ r'.2.frameDone = r.2.frameDone) ∧
                r.2.recompiler.stats.flushes = 0 ∧ r'.2.recompiler.stats.flushes = 3 := by
  intro P
  let m := assemble P (plainSettings.sized roomySizes) ringRom () (.bare {} (plainSettings.sized roomySizes).limits)
  let m' := assemble P (plainSettings.sized tightSizes) ringRom () (.bare {} (plainSettings.sized tightSizes).limits)
  have hstart : ofTranslator P (plainSettings.sized roomySizes) ringRom () {} = .ok m :=
    ofTranslator_eq_bare (by decide) _ _ _
  have hstart' : ofTranslator P (plainSettings.sized tightSizes) ringRom () {} = .ok m' :=
    ofTranslator_eq_bare (by decide) _ _ _
  have hblocks : m.blocks P [.runUntil 1 8] = [resetVector, resetVector + 8, resetVector, resetVector + 8] := by
    decide +kernel
  have hrom : ∀ pc ∈ m.blocks P [.runUntil 1 8], inRom pc := by
    rw [hblocks]
    exact List.all_eq_true.mp (by decide +kernel)
  have hkept : (m.performAll P [.runUntil 1 8]).2.recompiler.stats.flushes = 0 := by decide +kernel
  have hflushed : (m'.performAll P [.runUntil 1 8]).2.recompiler.stats.flushes = 3 := by decide +kernel
  clear_value m m'
  have hsame := sizes_unobservable (modest_absent Unit).toBlind ⟨rfl, rfl, rfl, rfl⟩ (by decide) (by decide)
    codeFits_plainSettings hstart hstart' _ hrom
  exact ⟨m, m', hstart, hstart', hblocks, hrom, hsame, hkept, hflushed⟩

end Machine

end R3000
