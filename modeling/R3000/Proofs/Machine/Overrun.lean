import Mathlib
import R3000.Proofs.Holding
import R3000.Proofs.Chains.Charge
import R3000.Proofs.Machine.Chaining

/-!
# How far a pass overruns its deadline

The cached blocks are as short as the settings of the machine ask, so a chain of them overruns the deadline
of its dispatch by less than such a block can cost.  Nothing else in a pass charges more than the least
charge.
-/

namespace R3000

/-! ### The recompiler -/

/-- The block of a translation is no longer than its cap allows. -/
lemma Translator.standard_makes_short (unlinked : List UInt32) (source : Source) (cap : UInt32) :
    (standard true unlinked).Makes source cap fun e => e.code.plan.length ≤ max cap.toNat 1 + 1 := by
  intro pc s store t ht
  have hle := Plan.length_le_of_cap (standard_eq_ok ht).1
  rw [UInt32.toNat_max] at hle
  change t.code.plan.length ≤ max cap.toNat 1 + 1
  simpa using hle

namespace Recompiler

variable {r : Recompiler TranslatorStats Block} {cap pc : UInt32}

/-- Every cached block was planned with a cap on its instructions. -/
structure Capped (cap : UInt32) (r : Recompiler TranslatorStats Block) : Prop where
  valid : Cache.Valid r.cache
  maxBlock : r.maxBlock = cap
  length : ∀ pc e, r.cache.get? pc = some e → e.code.plan.length ≤ max cap.toNat 1 + 1

/-- The most that a block costs that was planned with a cap. -/
def mostCost (cap : UInt32) : Nat := 36 * (max cap.toNat 1 + 1)

namespace Capped

lemma cost (h : r.Capped cap) {e : Entry Block} (he : r.cache.get? pc = some e) :
    e.code.plan.cost ≤ mostCost cap :=
  e.code.plan.cost_le.trans (Nat.mul_le_mul_left 36 (h.length pc e he))

lemma iff_holds : r.Capped cap ↔ r.Holds cap fun e => e.code.plan.length ≤ max cap.toNat 1 + 1 :=
  ⟨fun h => ⟨h.valid, h.maxBlock, h.length⟩, fun h => ⟨h.valid, h.maxBlock, h.every⟩⟩

end Capped

end Recompiler

/-- Settings under which neither a block nor the least charge takes more than some cycles. -/
structure Settings.Within (settings : Settings) (slack : Nat) : Prop where
  block : Recompiler.mostCost settings.limits.maxBlock ≤ slack
  charge : settings.minCharge.toNat ≤ slack

lemma Settings.Within.pos {settings : Settings} {slack : Nat} (h : settings.Within slack) : 0 < slack := by
  have hblock := h.block
  rw [Recompiler.mostCost] at hblock
  omega

namespace Machine

open Recompiler

variable {δ : Type} {hw : Hardware δ} {hooks : Hooks δ} {settings : Settings}
  {m m' m₀ : Machine TranslatorStats Block δ} {pc : UInt32} {e : Entry Block}

/-! ### Settings and cap -/

/-- A machine with its settings, whose blocks are planned with the cap that these ask for. -/
structure Capped (settings : Settings) (m : Machine TranslatorStats Block δ) : Prop where
  kept : m.settings = settings
  code : m.recompiler.Capped settings.limits.maxBlock

lemma settings_intercept {P : Parts TranslatorStats Block δ} (m : Machine TranslatorStats Block δ)
    (pc : UInt32) : (m.intercept P pc).2.settings = m.settings := by
  rw [intercept]
  dsimp only
  split
  · split <;> rfl
  · rfl

lemma settings_findBlock (P : Parts TranslatorStats Block δ) (pc : UInt32) (m : Machine TranslatorStats Block δ) :
    (m.findBlock P pc).2.settings = m.settings := by
  rw [findBlock]
  split
  · rfl
  · dsimp only
    split <;> rfl

lemma settings_runBlock (P : Parts TranslatorStats Block δ) (e : Entry Block) (deadline : UInt64)
    (m : Machine TranslatorStats Block δ) : (m.runBlock P e deadline).settings = m.settings := by
  rw [runBlock, chargeSpent, resumeAborted]
  dsimp only
  split <;> split <;> rfl

lemma settings_dropDirtyCode (m : Machine TranslatorStats Block δ) : m.dropDirtyCode.settings = m.settings := by
  rw [dropDirtyCode_eq]
  let I (x : Machine TranslatorStats Block δ) : Prop := x.settings = m.settings
  exact List.foldlRecOn (motive := I) m.memory.dirty.toList _ rfl fun x hx p _ => (quiet_invalidate x _ _).1.trans hx

/-- A machine keeps its settings. -/
lemma codeInvariant_settings (P : Parts TranslatorStats Block δ) (settings : Settings) :
    CodeInvariant P fun m => m.settings = settings where
  quiet m m' h hquiet := hquiet.settings.trans h
  intercept m pc h := (settings_intercept m pc).trans h
  loadQueued m m' h hload := by
    obtain rfl | ⟨header, memory, hflush⟩ := loadQueued_eq_ok hload
    · exact h
    · obtain ⟨r, -, rfl⟩ := flushCode_eq_ok hflush
      exact h
  findBlock m pc h := (settings_findBlock P pc m).trans h
  run m pc m' e deadline h hfind := by
    have hfound := settings_findBlock P pc m
    rw [hfind] at hfound
    exact (settings_dropDirtyCode _).trans ((settings_runBlock ..).trans (hfound.trans h))
  flushCode m m' h hflush := by
    obtain ⟨r, -, rfl⟩ := flushCode_eq_ok hflush
    exact h
  invalidate m addr len h := (quiet_invalidate m addr len).1.trans h
  resetStats m h := h

lemma lasting_capped (cap : UInt32) : Lasting (.standard true Translator.functionVectors) (Recompiler.Capped cap) :=
  (lasting_holds (fun memory => Translator.standard_makes_short _ memory.source cap) fun _ h => h).congr
    fun _ => Capped.iff_holds

lemma codeInvariant_capped (hw : Hardware δ) (hooks : Hooks δ) (settings : Settings) :
    CodeInvariant (.standard hw hooks) fun m : Machine TranslatorStats Block δ => m.Capped settings := by
  have hcode : CodeInvariant (.standard hw hooks) fun m : Machine TranslatorStats Block δ =>
      m.recompiler.Capped settings.limits.maxBlock := (lasting_capped _).codeInvariant
  exact ((codeInvariant_settings _ settings).and hcode).congr fun m =>
    ⟨fun h => ⟨h.kept, h.code⟩, fun h => ⟨h.1, h.2⟩⟩

lemma capped_flushCode (h : m.Capped settings) (hflush : m.flushCode = .ok m') : m'.Capped settings := by
  obtain ⟨r, hr, rfl⟩ := flushCode_eq_ok hflush
  exact ⟨h.kept, (lasting_capped _).flush _ _ h.code hr⟩

lemma capped_invalidate (h : m.Capped settings) (addr len : UInt32) : (m.invalidate addr len).2.Capped settings :=
  ⟨(quiet_invalidate m addr len).1.trans h.kept, (lasting_capped _).invalidateImages h.code addr len⟩

/-- A look for a block keeps the cap, and the block that it finds is cached. -/
lemma capped_findBlock (hw : Hardware δ) (hooks : Hooks δ) (h : m.Capped settings) (pc : UInt32) :
    let found := m.findBlock (.standard hw hooks) pc
    found.2.Capped settings ∧
      ∀ e, found.1 = .ok (some e) → found.2.recompiler.cache.get? pc = some e :=
  ⟨(codeInvariant_capped hw hooks settings).findBlock m pc h, fun _ he =>
    cached_findBlock h.code.valid (Prod.ext he rfl)⟩

lemma capped_ofTranslator {P : Parts TranslatorStats Block δ} {bios : ByteArray} {device : δ}
    (h : ofTranslator P settings bios device {} = .ok m₀) : m₀.Capped settings := by
  have hkept : m₀.settings = settings := by
    obtain ⟨r, -, rfl⟩ := ofTranslator_eq_ok h
    rfl
  exact ⟨hkept, Recompiler.Capped.iff_holds.mpr (holds_ofTranslator h)⟩

/-! ### What leaves the events alone -/

section Still

variable {τ β : Type} {m m' : Machine τ β δ}

/-- Raster, pending events and cycle counter are as before. -/
structure Still (m m' : Machine τ β δ) : Prop where
  raster : m'.raster = m.raster
  schedule : m'.board.io.schedule = m.board.io.schedule
  cycles : m'.cycles = m.cycles

lemma Still.trans {m'' : Machine τ β δ} (h : Still m m') (h' : Still m' m'') : Still m m'' :=
  ⟨h'.raster.trans h.raster, h'.schedule.trans h.schedule, h'.cycles.trans h.cycles⟩

lemma still_syncInterrupts (P : Parts τ β δ) (m : Machine τ β δ) : Still m (m.syncInterrupts P) := by
  rw [syncInterrupts]
  dsimp only
  split
  · split <;> exact ⟨rfl, rfl, rfl⟩
  · exact ⟨rfl, rfl, rfl⟩

lemma still_intercept (P : Parts τ β δ) (pc : UInt32) (m : Machine τ β δ) :
    Still m (m.intercept P pc).2 := by
  rw [intercept]
  dsimp only
  split
  · split <;> exact ⟨rfl, rfl, rfl⟩
  · exact ⟨rfl, rfl, rfl⟩

lemma still_flushCode (hflush : m.flushCode = .ok m') : Still m m' := by
  obtain ⟨r, -, rfl⟩ := flushCode_eq_ok hflush
  exact ⟨rfl, rfl, rfl⟩

lemma still_loadQueued (hload : m.loadQueued = .ok m') : Still m m' := by
  obtain rfl | ⟨header, memory, hflush⟩ := loadQueued_eq_ok hload
  · exact ⟨rfl, rfl, rfl⟩
  · obtain ⟨hraster, hschedule, hcycles⟩ := still_flushCode hflush
    exact ⟨hraster, hschedule, hcycles⟩

lemma still_findBlock (P : Parts τ β δ) (pc : UInt32) (m : Machine τ β δ) :
    Still m (m.findBlock P pc).2 := by
  rw [findBlock]
  split
  · exact ⟨rfl, rfl, rfl⟩
  · dsimp only
    split <;> exact ⟨rfl, rfl, rfl⟩

lemma still_invalidate (m : Machine τ β δ) (addr len : UInt32) : Still m (m.invalidate addr len).2 := by
  rw [invalidate]
  dsimp only
  split <;> exact ⟨rfl, rfl, rfl⟩

lemma still_dropDirtyCode (m : Machine τ β δ) : Still m m.dropDirtyCode := by
  rw [dropDirtyCode_eq]
  have hstart : Still m { m with board.memory := { m.memory with dirty := #[] } } := ⟨rfl, rfl, rfl⟩
  refine List.foldlRecOn (motive := Still m) m.memory.dirty.toList _ hstart ?_
  intro x hx p _
  obtain ⟨hraster, hschedule, hcycles⟩ :=
    hx.trans (still_invalidate x (p.val * pageBytes).toUInt32 pageBytes.toUInt32)
  exact ⟨hraster, hschedule, hcycles⟩

end Still

/-! ### The cycle counter -/

variable {deadline : UInt64} {budget left : Int32} {slack : Nat}

lemma toNat_charge_le (m : Machine TranslatorStats Block δ) (n : UInt64) :
    (m.charge n).cycles.toNat ≤ m.cycles.toNat + n.toNat := by
  rw [charge, UInt64.toNat_add]
  exact Nat.mod_le ..

/-- The budget is what is left up to the deadline, or all that the processor can count. -/
lemma toInt_budget (m : Machine τ β δ) (deadline : UInt64) :
    (m.budget deadline).toInt = (min (deadline - m.cycles).toNat 0x7FFFFFFF : Nat) := by
  have hword : (min (deadline - m.cycles) 0x7FFFFFFF).toUInt32.toNat =
      min (deadline - m.cycles).toNat 0x7FFFFFFF := by
    rw [UInt64.toNat_toUInt32, UInt64.toNat_min]
    exact Nat.mod_eq_of_lt (lt_of_le_of_lt (min_le_right ..) (by decide))
  rw [budget, ← Int32.toInt_toBitVec, UInt32.toBitVec_toInt32, BitVec.toInt_eq_toNat_of_lt]
  · exact congrArg Nat.cast hword
  · change 2 * UInt32.toNat _ < _
    rw [hword]
    omega

/-- A budget lasts up to the deadline at most. -/
lemma budget_bounds (hgo : m.cycles < deadline) :
    0 < m.budget deadline ∧ (m.budget deadline).toInt ≤ deadline.toNat - m.cycles.toNat := by
  have hgo' := UInt64.lt_iff_toNat_lt.mp hgo
  have hsub := UInt64.toNat_sub_of_le _ _ (UInt64.le_of_lt hgo)
  have hint := m.toInt_budget deadline
  rw [hsub] at hint
  rw [Int32.lt_iff_toInt_lt, hint]
  change (0 : Int) < _ ∧ _
  omega

/-- A dispatch charges what it spent of its budget, or the least charge. -/
lemma toNat_chargeSpent_lt (hgo : m.cycles < deadline) (hcharge : m.minCharge.toNat ≤ slack)
    (hbudget : budget.toInt ≤ deadline.toNat - m.cycles.toNat) (hleft : -(slack : Int) < left.toInt) :
    (m.chargeSpent budget left).cycles.toNat < deadline.toNat + slack := by
  have hgo' := UInt64.lt_iff_toNat_lt.mp hgo
  rw [chargeSpent]
  dsimp only
  split
  · have hle := m.toNat_charge_le (budget.toInt - left.toInt).toNat.toUInt64
    have hspent : (budget.toInt - left.toInt).toNat.toUInt64.toNat ≤ (budget.toInt - left.toInt).toNat :=
      Nat.mod_le ..
    omega
  · refine lt_of_le_of_lt (toNat_charge_le _ _) ?_
    change m.cycles.toNat + _ < _
    omega

lemma toNat_minCharge_le (h : m.Capped settings) (hwithin : settings.Within slack) :
    m.minCharge.toNat ≤ slack := by
  rw [minCharge, h.kept, UInt64.toNat_max]
  exact max_le hwithin.charge hwithin.pos

/-- A dispatch charges what its chain spent, from the counter it began with. -/
lemma exists_chargeSpent (P : Parts TranslatorStats Block δ) (e : Entry Block) (deadline : UInt64)
    (m : Machine TranslatorStats Block δ) :
    ∃ x : Machine TranslatorStats Block δ, x.cycles = m.cycles ∧ x.minCharge = m.minCharge ∧
      m.runBlock P e deadline = x.chargeSpent (m.budget deadline)
        (Chain.run (P.enter m.recompiler.translator m.cycles) m.recompiler.store e.code (m.budget deadline)
          (m.armed (m.budget deadline)) m.board).left := by
  refine ⟨_, ?_, ?_, rfl⟩
  · rw [resumeAborted]
    split <;> rfl
  · rw [resumeAborted]
    split <;> rfl

/-- A dispatch of a cached block ends less than the slack past its deadline. -/
lemma toNat_cycles_runBlock_lt (hw : Hardware δ) (hooks : Hooks δ) (h : m.Capped settings) (hwired : m.recompiler.Wired)
    (hwithin : settings.Within slack) (hgo : m.cycles < deadline)
    (he : m.recompiler.cache.get? pc = some e) :
    (m.runBlock (.standard hw hooks) e deadline).cycles.toNat < deadline.toNat + slack := by
  obtain ⟨hpos, hle⟩ := budget_bounds hgo
  have hleft := Chain.run_left (Board.serve hw m.cycles) hwired.sound
    (fun pc e he => (h.code.cost he).trans hwithin.block) he hpos (m.armed (m.budget deadline)) m.board
  obtain ⟨x, hcycles, hcharge, hran⟩ := exists_chargeSpent (.standard hw hooks) e deadline m
  rw [hran]
  rw [← hcycles] at hgo hle
  refine toNat_chargeSpent_lt hgo ?_ hle hleft
  rw [hcharge]
  exact toNat_minCharge_le h hwithin

/-- Skipping the rest of a slice ends at its deadline. -/
lemma toNat_cycles_fastForward_lt (e : Entry Block) (hpos : 0 < slack)
    (h : m.cycles.toNat < deadline.toNat + slack) :
    (m.fastForward e deadline).2.cycles.toNat < deadline.toNat + slack := by
  rw [fastForward]
  dsimp only
  split
  · exact h
  · split
    · exact h
    · change (max m.cycles deadline).toNat < _
      rw [UInt64.toNat_max]
      omega

lemma toNat_cycles_runPass_lt (hw : Hardware δ) (hooks : Hooks δ) (h : m.Capped settings) (hwired : m.recompiler.Wired)
    (hwithin : settings.Within slack) (hgo : m.cycles < deadline) (pc : UInt32) :
    (m.runPass (.standard hw hooks) deadline pc).2.cycles.toNat < deadline.toNat + slack := by
  have hgo' := UInt64.lt_iff_toNat_lt.mp hgo
  obtain ⟨hcapped, hcached⟩ := capped_findBlock hw hooks h pc
  have hwired' := wired_findBlock hw hooks hwired pc
  have hstill := still_findBlock (.standard hw hooks) pc m
  rw [runPass]
  split <;> rename_i heq <;> rw [heq] at hcapped hcached hwired' hstill
  · rw [hstill.cycles]
    omega
  · rename_i x
    have hle := x.toNat_charge_le x.minCharge
    have hleast : x.minCharge.toNat ≤ slack := toNat_minCharge_le hcapped hwithin
    rw [hstill.cycles] at hle
    exact hle.trans_lt (by omega)
  · rename_i e x
    have hran := toNat_cycles_runBlock_lt hw hooks hcapped hwired' hwithin
      (hstill.cycles.symm ▸ hgo) (hcached e rfl)
    rw [← (still_dropDirtyCode _).cycles, ← (still_syncInterrupts (.standard hw hooks) _).cycles] at hran
    have hforward := toNat_cycles_fastForward_lt e hwithin.pos hran
    dsimp only
    split <;> rename_i heq <;> rw [heq] at hforward <;> exact hforward

/-- However a pass that starts before its deadline ends, the counter is less than the slack past it. -/
theorem toNat_cycles_pass_lt (hw : Hardware δ) (hooks : Hooks δ) (h : m.Capped settings) (hwired : m.recompiler.Wired)
    (hwithin : settings.Within slack) (hgo : m.cycles < deadline) :
    (m.pass (.standard hw hooks) deadline).2.cycles.toNat < deadline.toNat + slack := by
  have hgo' := UInt64.lt_iff_toNat_lt.mp hgo
  have hcharged : ∀ x : Machine TranslatorStats Block δ, x.Capped settings → x.cycles = m.cycles →
      (x.charge x.minCharge).cycles.toNat < deadline.toNat + slack := by
    intro x hx hcycles
    have hle := x.toNat_charge_le x.minCharge
    have hleast := toNat_minCharge_le hx hwithin
    rw [hcycles] at hle
    omega
  dsimp only [pass]
  split
  · split
    · rename_i heq
      rw [(still_loadQueued heq).cycles]
      omega
    · exact Nat.lt_add_right slack hgo'
  · have hcapped := (codeInvariant_capped hw hooks settings).intercept m m.cpu.pc h
    have hwired' := (codeInvariant_wired hw hooks).intercept m m.cpu.pc hwired
    have hstill := still_intercept (.standard hw hooks) m.cpu.pc m
    split <;> rename_i x heq <;> rw [heq] at hcapped hwired' hstill
    · rw [(still_syncInterrupts _ _).cycles]
      exact hcharged x hcapped hstill.cycles
    · split
      · exact toNat_cycles_runPass_lt hw hooks hcapped hwired' hwithin (hstill.cycles.symm ▸ hgo) _
      · refine hcharged _ ?_ hstill.cycles
        exact ⟨hcapped.kept, hcapped.code⟩

end Machine

end R3000
