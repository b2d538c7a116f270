import Mathlib
import R3000.Proofs.Recovery
import R3000.Proofs.Machine.Delivery
import R3000.Proofs.Machine.Events
import R3000.Proofs.Machine.Overrun
import R3000.Proofs.Machine.Slices

/-!
# Passes advance the cycle counter

Every pass charges a cycle, but for one that loads the queued image, after which nothing is left to load; and
with room for the exits of a block no pass fails.  So the dispatcher's loop ends, at its deadline or later.
-/

namespace R3000

open Recompiler

/-- The most cycles by which a pass overruns its deadline. -/
def Settings.overrun (s : Settings) : Nat := max (mostCost s.limits.maxBlock) s.minCharge.toNat

lemma Settings.within_overrun (s : Settings) : s.Within s.overrun := ⟨le_max_left .., le_max_right ..⟩

namespace Machine

variable {δ : Type} {hw : Hardware δ} {hooks : Hooks δ} {settings : Settings}
  {m m' m₀ : Machine TranslatorStats Block δ} {deadline : UInt64}

/-! ### Room for code -/

lemma lasting_roomy : Lasting (.standard true Translator.functionVectors)
    fun r : Recompiler TranslatorStats Block => r.Roomy where
  resolve _ memory pc h := (keeps_roomy true Translator.functionVectors memory.source pc).resolve_snd h
  flush _ _ h hflush := h.flush hflush
  invalidate _ start len h := h.invalidate start len
  refineIdle _ _ h := h
  resetStats _ h := h

/-- The room for code stays. -/
lemma codeInvariant_roomy (hw : Hardware δ) (hooks : Hooks δ) : CodeInvariant (.standard hw hooks)
    fun m : Machine TranslatorStats Block δ => m.recompiler.Roomy :=
  lasting_roomy.codeInvariant (P := .standard hw hooks)

/-- A machine with room for code, whose blocks are as short as its settings ask and linked as they should be. -/
structure Sturdy (settings : Settings) (m : Machine TranslatorStats Block δ) : Prop where
  capped : m.Capped settings
  wired : m.recompiler.Wired
  room : m.recompiler.Roomy

lemma codeInvariant_sturdy (hw : Hardware δ) (hooks : Hooks δ) (settings : Settings) :
    CodeInvariant (.standard hw hooks) fun m : Machine TranslatorStats Block δ => m.Sturdy settings :=
  (((codeInvariant_capped hw hooks settings).and (codeInvariant_wired hw hooks)).and
    (codeInvariant_roomy hw hooks)).congr fun _ =>
      ⟨fun h => ⟨⟨h.capped, h.wired⟩, h.room⟩, fun h => ⟨h.1.1, h.1.2, h.2⟩⟩

lemma sturdy_ofTranslator {P : Parts TranslatorStats Block δ} {bios : ByteArray} {device : δ}
    (h : ofTranslator P settings bios device {} = .ok m₀) (hlinks : 2 ≤ settings.limits.linkCapacity)
    (hcode : settings.limits.CodeFits) : m₀.Sturdy settings where
  capped := capped_ofTranslator h
  wired := wired_ofTranslator h
  room := by
    obtain ⟨r, hcreate, rfl⟩ := ofTranslator_eq_ok h
    exact roomy_create hcreate hlinks hcode

/-! ### Charges -/

/-- A charge that the counter can hold moves it on. -/
lemma lt_charge {n : UInt64} (hpos : 0 < n) (hfits : m.cycles.toNat + n.toNat < 2 ^ 64) :
    m.cycles < (m.charge n).cycles := by
  have hpos' : 0 < n.toNat := UInt64.lt_iff_toNat_lt.mp hpos
  rw [charge, UInt64.lt_iff_toNat_lt, UInt64.toNat_add, Nat.mod_eq_of_lt hfits]
  omega

lemma minCharge_pos (m : Machine TranslatorStats Block δ) : 0 < m.minCharge := by
  rw [minCharge, UInt64.lt_iff_toNat_lt, UInt64.toNat_max]
  exact lt_of_lt_of_le Nat.zero_lt_one (le_max_right ..)

/-- The least charge moves the counter on. -/
lemma lt_charge_minCharge {slack : Nat} (hgo : m.cycles < deadline) (hcharge : m.minCharge.toNat ≤ slack)
    (hfits : deadline.toNat + slack ≤ 2 ^ 64) : m.cycles < (m.charge m.minCharge).cycles := by
  have hgo' := UInt64.lt_iff_toNat_lt.mp hgo
  exact lt_charge m.minCharge_pos (by omega)

/-- What a dispatch spent of its budget moves the counter on, or the least charge does. -/
lemma lt_chargeSpent {budget left : Int32} {slack : Nat} (hgo : m.cycles < deadline)
    (hcharge : m.minCharge.toNat ≤ slack) (hfits : deadline.toNat + slack ≤ 2 ^ 64)
    (hbudget : budget.toInt ≤ deadline.toNat - m.cycles.toNat) (hleft : -(slack : Int) < left.toInt) :
    m.cycles < (m.chargeSpent budget left).cycles := by
  have hgo' := UInt64.lt_iff_toNat_lt.mp hgo
  rw [chargeSpent]
  dsimp only
  split
  · rename_i hspent
    have hcount : (budget.toInt - left.toInt).toNat.toUInt64.toNat = (budget.toInt - left.toInt).toNat :=
      Nat.mod_eq_of_lt (by omega)
    apply lt_charge
    · rw [UInt64.lt_iff_toNat_lt, hcount]
      change 0 < _
      omega
    · rw [hcount]
      omega
  · let x := { m with stats.minCharges := m.stats.minCharges + 1 }
    exact lt_charge_minCharge (m := x) hgo hcharge hfits

/-- A dispatch of a cached block moves the counter on. -/
lemma lt_cycles_runBlock (hw : Hardware δ) (hooks : Hooks δ) {pc : UInt32} {e : Entry Block}
    (h : m.Sturdy settings) (hgo : m.cycles < deadline) (hfits : deadline.toNat + settings.overrun ≤ 2 ^ 64)
    (he : m.recompiler.cache.get? pc = some e) :
    m.cycles < (m.runBlock (.standard hw hooks) e deadline).cycles := by
  obtain ⟨hpos, hle⟩ := budget_bounds hgo
  have hwithin := settings.within_overrun
  have hleft := Chain.run_left (Board.serve hw m.cycles) h.wired.sound
    (fun pc e he => (h.capped.code.cost he).trans hwithin.block) he hpos (m.armed (m.budget deadline)) m.board
  obtain ⟨x, hcycles, hcharge, hran⟩ := exists_chargeSpent (.standard hw hooks) e deadline m
  have hcharge' : x.minCharge.toNat ≤ settings.overrun := hcharge ▸ toNat_minCharge_le h.capped hwithin
  have hlt := lt_chargeSpent (hcycles.symm ▸ hgo) hcharge' hfits (hcycles.symm ▸ hle) hleft
  rw [hcycles] at hlt
  exact hran ▸ hlt

/-! ### Passes -/

/-- How a pass goes on: it loads the queued image, or it moves the cycle counter on, and it ends the slice only
at the deadline.  No pass fails. -/
inductive Advances (deadline : UInt64) (m : Machine TranslatorStats Block δ) :
    Pass × Machine TranslatorStats Block δ → Prop
  | loads {m' : Machine TranslatorStats Block δ} :
    m.loaded = false → m'.loaded = true → m'.cycles = m.cycles → Advances deadline m (.again, m')
  | charges {m' : Machine TranslatorStats Block δ} :
    m.cycles < m'.cycles → m'.loaded = m.loaded → Advances deadline m (.again, m')
  | skips {m' : Machine TranslatorStats Block δ} :
    m.cycles < m'.cycles → m'.loaded = m.loaded → deadline ≤ m'.cycles → Advances deadline m (.skipped, m')

lemma Advances.congr {x : Machine TranslatorStats Block δ} {r : Pass × Machine TranslatorStats Block δ}
    (h : Advances deadline x r) (hcycles : x.cycles = m.cycles) (hloaded : x.loaded = m.loaded) :
    Advances deadline m r := by
  cases h with
  | loads harmed h hsame => exact .loads (hloaded.symm.trans harmed) h (hsame.trans hcycles)
  | charges hlt h => exact .charges (hcycles ▸ hlt) (h.trans hloaded)
  | skips hlt h hle => exact .skips (hcycles ▸ hlt) (h.trans hloaded) hle

lemma sameLoader_intercept (P : Parts TranslatorStats Block δ) (pc : UInt32)
    (m : Machine TranslatorStats Block δ) : SameLoader m (m.intercept P pc).2 := by
  rw [intercept]
  dsimp only
  split
  · split <;> exact ⟨rfl, rfl⟩
  · exact ⟨rfl, rfl⟩

/-- With room for a block the queued image is loaded, or found not to load. -/
lemma exists_loadQueued (h : m.recompiler.Roomy) : ∃ m', m.loadQueued = .ok m' ∧ m'.loaded = true := by
  dsimp only [loadQueued]
  split
  · exact ⟨_, rfl, rfl⟩
  · rename_i image _
    dsimp only [memory]
    rcases Exe.install image m.cpu m.board.memory with ⟨err | loaded, cpu, memory⟩
    · exact ⟨_, rfl, rfl⟩
    · obtain ⟨r, hflush⟩ := exists_flush h.stubs
      dsimp only
      rw [flushCode, hflush]
      exact ⟨_, rfl, rfl⟩

/-- With room for a block every address is resolved. -/
lemma exists_findBlock (hw : Hardware δ) (hooks : Hooks δ) (h : m.recompiler.Roomy) (pc : UInt32) :
    ∃ found m', m.findBlock (.standard hw hooks) pc = (.ok found, m') := by
  obtain ⟨a, r, hresolve, -⟩ := resolve_of_roomy h true Translator.functionVectors (m.memory.sound_source pc)
  rw [findBlock]
  split
  · exact ⟨_, _, rfl⟩
  · dsimp only [Parts.standard]
    rw [hresolve]
    cases a <;> exact ⟨_, _, rfl⟩

/-- A skip ends at the deadline or later; otherwise the counter stays. -/
lemma fastForward_cases (e : Entry Block) (deadline : UInt64) (m : Machine TranslatorStats Block δ) :
    (∃ m', m.fastForward e deadline = (true, m') ∧ m'.cycles = max m.cycles deadline) ∨
      ∃ m', m.fastForward e deadline = (false, m') ∧ m'.cycles = m.cycles := by
  rw [fastForward]
  dsimp only
  split
  · exact .inr ⟨_, rfl, rfl⟩
  · split
    · exact .inr ⟨_, rfl, rfl⟩
    · exact .inl ⟨_, rfl, rfl⟩

lemma advances_runPass (hw : Hardware δ) (hooks : Hooks δ) (h : m.Sturdy settings) (hgo : m.cycles < deadline)
    (hfits : deadline.toNat + settings.overrun ≤ 2 ^ 64) (pc : UInt32) :
    Advances deadline m (m.runPass (.standard hw hooks) deadline pc) := by
  obtain ⟨found, x, hfind⟩ := exists_findBlock hw hooks h.room pc
  have hx := (codeInvariant_sturdy hw hooks settings).findBlock m pc h
  have hcached := (capped_findBlock hw hooks h.capped pc).2
  have hstill := still_findBlock (.standard hw hooks) pc m
  have hsame := sameLoader_findBlock (.standard hw hooks) pc m
  rw [hfind] at hx hcached hstill hsame
  have hgo' : x.cycles < deadline := hstill.cycles ▸ hgo
  rw [runPass, hfind]
  cases found with
  | none =>
    have hcharge := toNat_minCharge_le hx.capped settings.within_overrun
    have hlt := lt_charge_minCharge hgo' hcharge hfits
    rw [hstill.cycles] at hlt
    exact .charges hlt hsame.loaded
  | some e =>
    have hlt := lt_cycles_runBlock hw hooks hx hgo' hfits (hcached e rfl)
    dsimp only
    set ran := (x.runBlock (.standard hw hooks) e deadline).dropDirtyCode.syncInterrupts (.standard hw hooks)
    have hran : Still (x.runBlock (.standard hw hooks) e deadline) ran :=
      (still_dropDirtyCode _).trans (still_syncInterrupts _ _)
    rw [hstill.cycles, ← hran.cycles] at hlt
    have hloaded : SameLoader m ran :=
      hsame.trans (((sameLoader_runBlock _ e deadline x).trans (sameLoader_dropDirtyCode _)).trans
        (sameLoader_syncInterrupts _ _))
    have hforward := hloaded.trans (sameLoader_fastForward e deadline ran)
    rcases fastForward_cases e deadline ran with ⟨z, heq, hz⟩ | ⟨z, heq, hz⟩ <;> rw [heq] at hforward ⊢
    · have hmax := UInt64.toNat_max ran.cycles deadline
      rw [← hz] at hmax
      refine .skips ?_ hforward.loaded ?_
      · rw [UInt64.lt_iff_toNat_lt] at hlt ⊢
        omega
      · rw [UInt64.le_iff_toNat_le]
        omega
    · rw [← hz] at hlt
      exact .charges hlt hforward.loaded

/-- Every pass that the counter can hold advances, whatever the devices, the hooks and the program do. -/
theorem advances_pass (hw : Hardware δ) (hooks : Hooks δ) (h : m.Sturdy settings) (hgo : m.cycles < deadline)
    (hfits : deadline.toNat + settings.overrun ≤ 2 ^ 64) :
    Advances deadline m (m.pass (.standard hw hooks) deadline) := by
  dsimp only [pass]
  split
  · rename_i harmed
    obtain ⟨m', hload, hloaded⟩ := exists_loadQueued h.room
    rw [hload]
    refine .loads ?_ hloaded (still_loadQueued hload).cycles
    simpa using (Bool.and_eq_true_iff.mp harmed).1
  · have hx := (codeInvariant_sturdy hw hooks settings).intercept m m.cpu.pc h
    have hstill := still_intercept (.standard hw hooks) m.cpu.pc m
    have hsame := sameLoader_intercept (.standard hw hooks) m.cpu.pc m
    have hcharged : ∀ x : Machine TranslatorStats Block δ, x.Capped settings → x.cycles = m.cycles →
        m.cycles < (x.charge x.minCharge).cycles := by
      intro x hx hcycles
      have hcharge := toNat_minCharge_le hx settings.within_overrun
      have hlt := lt_charge_minCharge (hcycles ▸ hgo) hcharge hfits
      rwa [hcycles] at hlt
    split <;> rename_i x heq <;> rw [heq] at hx hstill hsame
    · have hlt := hcharged x hx.capped hstill.cycles
      have hsync := still_syncInterrupts (.standard hw hooks) (x.charge x.minCharge)
      have hloaded := (sameLoader_syncInterrupts (.standard hw hooks) (x.charge x.minCharge)).loaded
      exact .charges (hlt.trans_eq hsync.cycles.symm) (hloaded.trans hsame.loaded)
    · split
      · have hrun := advances_runPass hw hooks hx (hstill.cycles.symm ▸ hgo) hfits m.cpu.pc
        exact hrun.congr hstill.cycles hsame.loaded
      · refine .charges (hcharged _ ?_ hstill.cycles) hsame.loaded
        exact ⟨hx.capped.kept, hx.capped.code⟩

/-! ### Chains -/

/-- The chain that a dispatch runs ends by itself: it would go no further if it were followed for longer. -/
def ChainEnds {τ β δ : Type} (P : Parts τ β δ) (e : Entry β) (deadline : UInt64) (m : Machine τ β δ) : Prop :=
  let enter := P.enter m.recompiler.translator m.cycles
  let first := enter e.code (m.budget deadline) (m.armed (m.budget deadline)) m.board
  ∀ n, Chain.fuel first.departure ≤ n →
    Chain.follow enter m.recompiler.store n first =
      Chain.run enter m.recompiler.store e.code (m.budget deadline) (m.armed (m.budget deadline)) m.board

/-- A chain of cached blocks ends. -/
lemma chainEnds {h x : Machine TranslatorStats Block δ} {e : Entry Block} (hsturdy : h.Sturdy settings)
    (hstarts : h.Starts (.standard hw hooks) deadline e x) : x.ChainEnds (.standard hw hooks) e deadline := by
  obtain ⟨y, hintercept, hfind⟩ := hstarts.found
  have hy := (codeInvariant_sturdy hw hooks settings).intercept h h.cpu.pc hsturdy
  rw [hintercept] at hy
  have hx := (codeInvariant_sturdy hw hooks settings).findBlock y h.cpu.pc hy
  have hcached := (capped_findBlock hw hooks hy.capped h.cpu.pc).2
  rw [hfind] at hx hcached
  intro n hn
  exact Chain.run_ends (Board.serve hw x.cycles) hx.wired.sound (hcached e rfl) _ _ _ hn

/-! ### The loop -/

/-- A bound on the passes that are still to come before a deadline. -/
def remaining (m : Machine TranslatorStats Block δ) (deadline : UInt64) : Nat :=
  deadline.toNat - m.cycles.toNat + (!m.loaded).toNat

/-- How the loop ends: at its deadline or less than the overrun later, and with the image loaded if it was
before. -/
structure Reaches (settings : Settings) (deadline : UInt64) (m m' : Machine TranslatorStats Block δ) : Prop where
  reached : deadline ≤ m'.cycles
  forward : m.cycles ≤ m'.cycles
  late : m'.cycles.toNat < deadline.toNat + settings.overrun
  loaded : m.loaded = true → m'.loaded = true

/-- The loop ends by itself. -/
theorem passes_reach (hw : Hardware δ) (hooks : Hooks δ) (h : m.Sturdy settings)
    (hlate : m.cycles.toNat < deadline.toNat + settings.overrun)
    (hfits : deadline.toNat + settings.overrun ≤ 2 ^ 64) :
    ∃ m', Reaches settings deadline m m' ∧
      ∀ fuel, m.remaining deadline ≤ fuel → m.passes (.standard hw hooks) deadline fuel = (none, m') := by
  induction hn : m.remaining deadline using Nat.strong_induction_on generalizing m with
  | h n ih =>
    subst hn
    by_cases hgo : m.cycles < deadline
    · have hgo' := UInt64.lt_iff_toNat_lt.mp hgo
      have hadvances := advances_pass hw hooks h hgo hfits
      have hlate' := toNat_cycles_pass_lt hw hooks h.capped h.wired settings.within_overrun hgo
      have hsturdy := (codeInvariant_sturdy hw hooks settings).pass deadline h
      have hfuel : 0 < m.remaining deadline := by
        rw [remaining]
        omega
      -- a pass that goes round leaves fewer passes to come
      have hagain : ∀ x, m.pass (.standard hw hooks) deadline = (.again, x) →
          x.remaining deadline < m.remaining deadline → m.cycles ≤ x.cycles →
            (m.loaded = true → x.loaded = true) →
              ∃ m', Reaches settings deadline m m' ∧ ∀ fuel, m.remaining deadline ≤ fuel →
                m.passes (.standard hw hooks) deadline fuel = (none, m') := by
        intro x hpass hless hle hloaded
        rw [hpass] at hsturdy hlate'
        obtain ⟨m', hreaches, hall⟩ := ih _ hless hsturdy hlate' rfl
        refine ⟨m', ⟨hreaches.reached, UInt64.le_trans hle hreaches.forward, hreaches.late,
          fun hm => hreaches.loaded (hloaded hm)⟩, fun fuel hle => ?_⟩
        obtain ⟨k, rfl⟩ : ∃ k, fuel = k + 1 := Nat.exists_eq_add_one.mpr (by omega)
        rw [passes, if_pos hgo, hpass]
        exact hall k (by omega)
      cases hpass : m.pass (.standard hw hooks) deadline with
      | mk how x =>
        rw [hpass] at hadvances
        cases hadvances with
        | loads harmed hloaded hcycles =>
          refine hagain x hpass ?_ (hcycles ▸ UInt64.le_refl _) fun _ => hloaded
          rw [remaining, remaining, hcycles, harmed, hloaded]
          exact Nat.lt_succ_self _
        | charges hlt hloaded =>
          refine hagain x hpass ?_ (UInt64.le_of_lt hlt) hloaded.trans
          have hlt' := UInt64.lt_iff_toNat_lt.mp hlt
          rw [remaining, remaining, hloaded]
          omega
        | skips hlt hloaded hle =>
          rw [hpass] at hlate'
          refine ⟨x, ⟨hle, UInt64.le_of_lt hlt, hlate', hloaded.trans⟩, fun fuel hle => ?_⟩
          obtain ⟨k, rfl⟩ : ∃ k, fuel = k + 1 := Nat.exists_eq_add_one.mpr (by omega)
          rw [passes, if_pos hgo, hpass]
    · refine ⟨m, ⟨UInt64.not_lt.mp hgo, UInt64.le_refl _, hlate, id⟩, fun fuel _ => ?_⟩
      cases fuel with
      | zero => rfl
      | succ fuel => rw [passes, if_neg hgo]

end Machine

end R3000
