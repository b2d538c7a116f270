import Mathlib
import R3000.Proofs.Holding
import R3000.Proofs.Chains.Visits
import R3000.Proofs.Machine.Slices

/-!
# Cached entries

Whatever happens to a machine, the entry that its cache has for an address holds a block planned at that address,
and waits as the plan of the block says, unless it turned out to wait no more.  So this is what is known of the
block that the dispatcher runs, whose chain ends by itself.
-/

namespace R3000

/-- An entry for a block that was planned at an address, and that waits as its plan says if it waits at all. -/
structure Entry.PlannedAt (e : Entry Block) (pc : UInt32) : Prop where
  address : e.pc = pc
  plan : ∃ (memory : Memory) (cap : UInt32), Plan.ofSource memory.source true pc cap = .ok e.code.plan
  idle : e.idle = e.code.plan.idle ∨ e.idle = .none

lemma Entry.PlannedAt.start {e : Entry Block} {pc : UInt32} (h : e.PlannedAt pc) : e.code.plan.start = pc := by
  obtain ⟨memory, cap, hplan⟩ := h.plan
  exact (Plan.ofSource_eq_ok.mp hplan).2.1

/-! ### The recompiler -/

/-- The entry of a translation was planned at its address, and waits as its plan says. -/
lemma Translator.standard_makes_planned (unlinked : List UInt32) (memory : Memory) (cap : UInt32) :
    (standard true unlinked).Makes memory.source cap fun e => e.PlannedAt e.pc := by
  intro pc s store t ht
  obtain ⟨hplan, -, -, -, -, hidle⟩ := standard_eq_ok ht
  exact ⟨rfl, ⟨memory, _, hplan⟩, .inl hidle⟩

namespace Recompiler

variable {r : Recompiler TranslatorStats Block} {cap : UInt32}

/-- Every cached entry was planned at the address that it is for. -/
structure Stocked (r : Recompiler TranslatorStats Block) : Prop where
  valid : Cache.Valid r.cache
  planned : ∀ pc e, r.cache.get? pc = some e → e.PlannedAt pc

lemma Stocked.holds (h : r.Stocked) : r.Holds r.maxBlock fun e => e.PlannedAt e.pc where
  valid := h.valid
  maxBlock := rfl
  every pc e he := by
    have hplanned := h.planned pc e he
    exact hplanned.address.symm ▸ hplanned

lemma Stocked.of_holds (h : r.Holds cap fun e => e.PlannedAt e.pc) : r.Stocked where
  valid := h.valid
  planned pc e he := by
    obtain ⟨-, rfl⟩ := h.valid.get?_eq_some_iff.mp he
    exact h.every _ e he

end Recompiler

/-! ### The machine -/

namespace Machine

open Recompiler

variable {δ : Type} {hw : Hardware δ} {hooks : Hooks δ} {settings : Settings}
  {m m' m₀ h x : Machine TranslatorStats Block δ} {e : Entry Block} {deadline : UInt64}

lemma lasting_stocked : Lasting (.standard true Translator.functionVectors) Stocked := by
  have hlasting : ∀ cap, Lasting (.standard true Translator.functionVectors)
      (Holds cap fun e => e.PlannedAt e.pc) := fun cap =>
    lasting_holds (fun memory => Translator.standard_makes_planned _ memory cap)
      fun e h => ⟨h.address, h.plan, .inr rfl⟩
  exact {
    resolve := fun r memory pc h => .of_holds ((hlasting _).resolve r memory pc h.holds)
    flush := fun r r' h hflush => .of_holds ((hlasting _).flush r r' h.holds hflush)
    invalidate := fun r start len h => .of_holds ((hlasting _).invalidate r start len h.holds)
    refineIdle := fun r pc h => .of_holds ((hlasting _).refineIdle r pc h.holds)
    resetStats := fun r h => .of_holds ((hlasting _).resetStats r h.holds) }

/-- Every cached entry was planned at its address after whatever happens to the machine. -/
lemma codeInvariant_stocked (hw : Hardware δ) (hooks : Hooks δ) : CodeInvariant (.standard hw hooks)
    fun m : Machine TranslatorStats Block δ => m.recompiler.Stocked :=
  lasting_stocked.codeInvariant

lemma stocked_ofTranslator {P : Parts TranslatorStats Block δ} {bios : ByteArray} {device : δ}
    (hstart : ofTranslator P settings bios device {} = .ok m₀) : m₀.recompiler.Stocked :=
  .of_holds (holds_ofTranslator hstart)

/-! ### Dispatches -/

/-- A machine that is about to run the entry for an address. -/
structure Ready (m : Machine TranslatorStats Block δ) (pc : UInt32) (e : Entry Block) : Prop where
  wired : m.recompiler.Wired
  stocked : m.recompiler.Stocked
  cached : m.recompiler.cache.get? pc = some e

lemma Ready.planned {pc : UInt32} (hx : x.Ready pc e) : e.PlannedAt pc := hx.stocked.planned pc e hx.cached

/-- The block that the dispatcher runs is the cached one for the program counter at the head of the loop. -/
lemma Starts.ready (hs : h.Starts (.standard hw hooks) deadline e x) (hwired : h.recompiler.Wired)
    (hstocked : h.recompiler.Stocked) : x.Ready h.cpu.pc e := by
  obtain ⟨y, hintercept, hfind⟩ := hs.found
  have hwired' := (codeInvariant_wired hw hooks).intercept h h.cpu.pc hwired
  have hstocked' := (codeInvariant_stocked hw hooks).intercept h h.cpu.pc hstocked
  rw [hintercept] at hwired' hstocked'
  have hfound := wired_findBlock hw hooks hwired' h.cpu.pc
  have hfound' := (codeInvariant_stocked hw hooks).findBlock y h.cpu.pc hstocked'
  rw [hfind] at hfound hfound'
  exact ⟨hfound, hfound', cached_findBlock hstocked'.valid hfind⟩

/-- So it is in every run of a new machine. -/
lemma Starts.ready_of_atHead {bios : ByteArray} {device : δ} (hs : h.Starts (.standard hw hooks) deadline e x)
    (hstart : ofTranslator (.standard hw hooks) settings bios device {} = .ok m₀)
    (hm : AtHead (.standard hw hooks) m₀ h) : x.Ready h.cpu.pc e :=
  hs.ready ((codeInvariant_wired hw hooks).invariant.atHead (wired_ofTranslator hstart) hm)
    ((codeInvariant_stocked hw hooks).invariant.atHead (stocked_ofTranslator hstart) hm)

/-- The first visit of a dispatch. -/
def visit (e : Entry Block) (deadline : UInt64) (m : Machine TranslatorStats Block δ) : Visit (Board δ) :=
  ⟨e.code, m.budget deadline, m.armed (m.budget deadline), m.board⟩

/-- The blocks that a dispatch visits, with the number of hops before each. -/
def Visits (hw : Hardware δ) (e : Entry Block) (deadline : UInt64) (m : Machine TranslatorStats Block δ) :
    Nat → Visit (Board δ) → Prop :=
  Chain.Visits (Board.serve hw m.cycles) m.recompiler.store (m.visit e deadline)

/-- A dispatch leaves the machine as its chain returned. -/
lemma runBlock_eq_settle_visit (hw : Hardware δ) (hooks : Hooks δ) (e : Entry Block) (deadline : UInt64)
    (m : Machine TranslatorStats Block δ) : m.runBlock (.standard hw hooks) e deadline =
      m.settle e (m.budget deadline)
        ((m.visit e deadline).returned (Board.serve hw m.cycles) m.recompiler.store) := rfl

end Machine

end R3000
