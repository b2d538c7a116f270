import Mathlib
import R3000.Proofs.Holding
import R3000.Proofs.Chains.Ledger
import R3000.Proofs.Machine.Entries
import R3000.Proofs.Machine.Owned
import R3000.Proofs.Machine.Precise

/-!
# What a dispatch is charged

A dispatch that starts before its deadline charges the cycles of the blocks that its chain completed and, if an
instruction stopped the last one, those of its instructions so far.  It never charges the least charge, and is late
by less than the last block costs.
-/

namespace R3000

/-! ### The recompiler -/

/-- The entry of a translation says what its block costs. -/
lemma Translator.standard_makes_cycles (fallback : Bool) (unlinked : List UInt32) (source : Source) (cap : UInt32) :
    (standard fallback unlinked).Makes source cap fun e => e.cycles = e.code.plan.cycles := by
  intro pc s store t ht
  obtain ⟨-, -, -, -, hcycles, -⟩ := standard_eq_ok ht
  exact hcycles

/-- The cost of a planned block fits the word that its entry has for it. -/
lemma Recompiler.Wired.priced {r : Recompiler TranslatorStats Block} {cap : UInt32} (h : r.Wired)
    (hholds : r.Holds cap fun e => e.cycles = e.code.plan.cycles) : Chain.Priced r.cache := by
  intro pc e he
  obtain ⟨-, hlt⟩ := (h.planned pc e he).cost
  rw [hholds.every pc e he, Plan.cycles]
  exact Nat.mod_eq_of_lt (hlt.trans (by decide))

namespace Machine

variable {δ : Type} {hw : Hardware δ} {hooks hooks₀ : Hooks δ} {settings : Settings}
  {m m₀ m₁ : Machine TranslatorStats Block δ} {e : Entry Block} {deadline : UInt64} {pc : UInt32}

/-! ### Machines in the hands of their owner -/

/-- A machine whose link graph holds and whose cached entries say what their blocks cost. -/
structure Priced (settings : Settings) (m : Machine TranslatorStats Block δ) : Prop where
  wired : m.recompiler.Wired
  holds : m.recompiler.Holds settings.limits.maxBlock fun e => e.cycles = e.code.plan.cycles

lemma codeInvariant_priced (hw : Hardware δ) (hooks : Hooks δ) (settings : Settings) :
    CodeInvariant (.standard hw hooks) fun m : Machine TranslatorStats Block δ => m.Priced settings := by
  have hlasting : Lasting (.standard true Translator.functionVectors) (Recompiler.Holds settings.limits.maxBlock
      fun e => e.cycles = e.code.plan.cycles) :=
    lasting_holds (fun memory => Translator.standard_makes_cycles _ _ memory.source _) fun _ he => he
  have hholds : CodeInvariant (.standard hw hooks) fun m : Machine TranslatorStats Block δ =>
      m.recompiler.Holds settings.limits.maxBlock fun e => e.cycles = e.code.plan.cycles := hlasting.codeInvariant
  exact ((codeInvariant_wired hw hooks).and hholds).congr fun m =>
    ⟨fun h => ⟨h.wired, h.holds⟩, fun h => ⟨h.1, h.2⟩⟩

/-- The owner of a machine writes neither its cache nor its code. -/
lemma priced_owned {W : Memory → Memory → Prop} {bios : ByteArray} {device : δ}
    (hstart : ofTranslator (.standard hw hooks₀) settings bios device {} = .ok m₀) (hm : Owned hw W m₀ m) :
    m.Priced settings := by
  refine hm.invariant (fun hooks _ => (codeInvariant_priced hw hooks settings).invariant) ?_
    ⟨wired_ofTranslator hstart, holds_ofTranslator hstart⟩
  exact fun m cpu memory interrupts device h _ => ⟨h.wired, h.holds⟩

/-! ### Dispatches -/

/-- The ledger of a dispatch at a visit: the entries of the blocks that it completed before, in order, and the entry
of the block that it visits. -/
def Ledger (hw : Hardware δ) (e : Entry Block) (deadline : UInt64) (m : Machine TranslatorStats Block δ) :
    List (Entry Block) → Entry Block → Visit (Board δ) → Prop :=
  Chain.Ledger (Board.serve hw m.cycles) m.recompiler.cache m.recompiler.store e (m.visit e deadline)

/-- A dispatch charged some cycles, and not the least charge, and passed its deadline by fewer than its last block
costs.  Only past the deadline does the counter wrap. -/
structure Charged (deadline : UInt64) (spent most : Nat) (m m' : Machine TranslatorStats Block δ) : Prop where
  some : 1 ≤ spent
  cycles : m'.cycles = m.cycles + spent.toUInt64
  minCharges : m'.stats.minCharges = m.stats.minCharges
  overrun : m.cycles.toNat + spent < deadline.toNat + most
  late : m'.cycles.toNat < deadline.toNat + most

/-- The account of a dispatch.  Its budget is what is left up to the deadline as far as the processor can count, and
the counts of every visit are exact.  It has a last visit, and is charged the blocks before it and what the last one
came to; and it counts an exception just if an instruction stopped the last one. -/
structure Account (hw : Hardware δ) (hooks : Hooks δ) (e : Entry Block) (deadline : UInt64)
    (m : Machine TranslatorStats Block δ) : Prop where
  budget : (m.budget deadline).toInt = (min (deadline.toNat - m.cycles.toNat) (2 ^ 31 - 1) : Nat)
  counts : ∀ n v, m.Visits hw e deadline n v → ∃ done last, done.length = n ∧ m.Ledger hw e deadline done last v ∧
    v.Counts (m.budget deadline) (Entry.total done) last.cycles.toNat
  charged : ∃ done last v stop, m.Ledger hw e deadline done last v ∧
    (∀ w, ¬ m.Visits hw e deadline (done.length + 1) w) ∧ v.Ends (Board.serve hw m.cycles) stop ∧
      m.Charged deadline (Entry.total done + last.charged stop) last.cycles.toNat
          (m.runBlock (.standard hw hooks) e deadline) ∧
        (hw.Modest → m.cpu.blockAborted = 0 → (m.runBlock (.standard hw hooks) e deadline).stats.aborts =
          m.stats.aborts + if stop.isSome then 1 else 0)

lemma stats_resumeAborted (e : Entry Block) (m : Machine TranslatorStats Block δ) :
    (m.resumeAborted e).stats.minCharges = m.stats.minCharges ∧
      (m.resumeAborted e).stats.aborts = m.stats.aborts + if m.cpu.blockAborted = 0 then 0 else 1 := by
  rw [resumeAborted, Cpu.takeAbort]
  by_cases habort : m.cpu.blockAborted = 0
  · rw [if_pos habort, if_pos habort]
    exact ⟨rfl, rfl⟩
  · rw [if_neg habort, if_neg habort]
    exact ⟨rfl, rfl⟩

/-- A dispatch whose chain spent cycles charges them, and counts an exception if one is left over. -/
lemma settle_of_pos {budget : Int32} {r : Returned (Board δ)} {spent : Nat} (hpos : 1 ≤ spent)
    (hspent : budget.toInt - r.left.toInt = spent) (e : Entry Block) (m : Machine TranslatorStats Block δ) :
    (m.settle e budget r).cycles = m.cycles + spent.toUInt64 ∧
      (m.settle e budget r).stats.minCharges = m.stats.minCharges ∧
        (m.settle e budget r).stats.aborts = m.stats.aborts + if r.cpu.blockAborted = 0 then 0 else 1 := by
  rw [settle, chargeSpent_of_pos hspent hpos]
  refine ⟨?_, ?_, ?_⟩
  · rw [charge, resumeAborted]
    split <;> rfl
  · exact (stats_resumeAborted ..).1
  · exact (stats_resumeAborted ..).2

lemma toInt_budget_of_lt (hgo : m.cycles < deadline) :
    (m.budget deadline).toInt = (min (deadline.toNat - m.cycles.toNat) (2 ^ 31 - 1) : Nat) := by
  rw [toInt_budget, UInt64.toNat_sub_of_le _ _ (UInt64.le_of_lt hgo)]
  rfl

/-- A dispatch of a cached block has an account. -/
lemma account_of_priced (h : m.Priced settings) (he : m.recompiler.cache.get? pc = some e) (hgo : m.cycles < deadline) :
    m.Account hw hooks e deadline := by
  have hs := h.wired.sound
  have hprice := h.wired.priced h.holds
  obtain ⟨hpos, hle⟩ := budget_bounds hgo
  have hpos' : 0 < (m.visit e deadline).left.toInt := Int32.lt_iff_toInt_lt.mp hpos
  refine ⟨toInt_budget_of_lt hgo, ?counts, ?charged⟩
  case counts =>
    intro n v hv
    obtain ⟨done, last, hledger, hlength⟩ := Chain.exists_ledger hs he rfl hv
    exact ⟨done, last, hlength, hledger, hledger.counts hs hprice he rfl hpos'⟩
  case charged =>
    obtain ⟨done, last, v, hledger, hlast⟩ := Chain.exists_last hs hprice he rfl hpos' (Board.serve hw m.cycles)
    obtain ⟨stop, hstop⟩ := v.exists_ends (Board.serve hw m.cycles)
    obtain ⟨hreturned, hleft, hone, hlt⟩ := Chain.returned_charged hs hprice he rfl hpos' hledger hlast hstop
    have hsome : 1 ≤ Entry.total done + last.charged stop := Nat.le_add_left_of_le hone
    have hspent : (m.budget deadline).toInt - (v.last (Board.serve hw m.cycles)).left.toInt =
        (Entry.total done + last.charged stop : Nat) := by
      rw [hleft]
      exact sub_sub_cancel ..
    obtain ⟨hcycles, hleast, haborts⟩ := settle_of_pos hsome hspent e m
    have hrun : m.runBlock (.standard hw hooks) e deadline =
        m.settle e (m.budget deadline) (v.last (Board.serve hw m.cycles)) := by
      rw [runBlock_eq_settle_visit, hreturned]
    refine ⟨done, last, v, stop, hledger, hlast, hstop, ?_, fun hmodest habort => ?_⟩
    · rw [hrun]
      have hover : m.cycles.toNat + (Entry.total done + last.charged stop) < deadline.toNat + last.cycles.toNat := by
        change (Entry.total done + last.charged stop : Int) < (m.budget deadline).toInt + _ at hlt
        omega
      refine ⟨hsome, hcycles, hleast, hover, ?_⟩
      have hcharge := m.toNat_charge_le (Entry.total done + last.charged stop).toUInt64
      rw [hcycles]
      exact (hcharge.trans (Nat.add_le_add_left (Nat.mod_le ..) _)).trans_lt hover
    · have hin : (m.visit e deadline).cpu.inBlock ≠ 0 := (by decide : (1 : UInt32) ≠ 0)
      have hsteady := Board.steady_serve hmodest m.cycles
      obtain ⟨hin', habort'⟩ := hledger.visits.quiet hsteady hs ⟨pc, e, he, rfl⟩ hin habort
      have hiff := hstop.blockAborted hsteady hin' habort'
      rw [hrun, haborts, Visit.last]
      cases stop with
      | none => rw [if_pos (hiff.mpr rfl), if_neg (by simp)]
      | some p =>
        rw [if_neg (by simp [hiff])]
        rfl

/-- Of every cached block, whatever its owner did to the machine: a dispatch that starts before its deadline has an
account. -/
theorem runBlock_accounts {bios : ByteArray} {device : δ}
    (hstart : ofTranslator (.standard hw hooks₀) settings bios device {} = .ok m₀)
    (howned : Owned hw (fun _ _ => True) m₀ m₁) (hm : BeforeRun (.standard hw hooks) m₁ m)
    (he : m.recompiler.cache.get? pc = some e) (hgo : m.cycles < deadline) : m.Account hw hooks e deadline :=
  account_of_priced ((codeInvariant_priced hw hooks settings).beforeRun (priced_owned hstart howned) hm) he hgo

/-- A boot ROM that begins with a system call. -/
def callRom : ByteArray := ⟨#[0x0C, 0, 0, 0]⟩

lemma source_callRom : (Memory.ofBios callRom).source resetVector = .ok 0xC := by
  rw [Memory.source_ofBios (by decide)]
  decide

/-- A new machine whose boot ROM begins with a system call is charged the call, which stops its block. -/
theorem runBlock_accounts_call :
    let P := Parts.standard (.absent Unit) (.none Unit)
    let settings : Settings := { limits := { cacheSlots := 1, poolNodes := 1, maxBlock := 1 } }
    ∃ m₀ m e, ofTranslator P settings callRom () {} = .ok m₀ ∧
      Owned (.absent Unit) (fun _ _ => True) m₀ m₀ ∧ BeforeRun P m₀ m ∧
        m.recompiler.cache.get? resetVector = some e ∧ m.cycles < 100 ∧
          m.Account (.absent Unit) (.none Unit) e 100 := by
  intro P settings
  obtain ⟨m₀, e, m, hstart, hfind, hplan⟩ := findBlock_instr source_callRom rfl
  have hm : BeforeRun P m₀ (m₀.findBlock P resetVector).2 :=
    .findBlock resetVector (.head ⟨m₀, 0, .start, .start⟩)
  have hget := (backed_findBlock (.absent Unit) (backed_ofTranslator hstart) resetVector).2.2.2 e
  have hstill := still_findBlock P resetVector m₀
  rw [hfind] at hm hget hstill
  replace hget : m.recompiler.cache.get? resetVector = some e := hget rfl
  have hgo : m.cycles < 100 := by
    obtain ⟨r, -, rfl⟩ := ofTranslator_eq_ok hstart
    rw [hstill.cycles]
    exact (by decide : (0 : UInt64) < 100)
  exact ⟨m₀, m, e, hstart, .start, hm, hget, hgo, runBlock_accounts hstart .start hm hget hgo⟩

end Machine

end R3000
