import Mathlib
import R3000.Proofs.Machine.Accounts
import R3000.Proofs.Machine.HookPoints

/-!
# Blocks that turn out not to wait

A block that raises an exception does not only wait.  A dispatch that an exception ends notes that of the block
that it entered.  The block with the instruction may be another one, which was reached by links; it goes on being
taken for a block that waits.
-/

namespace R3000.Machine

variable {δ : Type} {hw : Hardware δ} {hooks hooks₀ : Hooks δ} {settings : Settings}
  {m m₀ m₁ : Machine TranslatorStats Block δ} {e : Entry Block} {deadline : UInt64} {pc : UInt32}

/-! ### The cache after a dispatch -/

/-- Going on after an exception changes how the block that was entered waits, and nothing else in the cache. -/
lemma get?_resumeAborted (hvalid : Cache.Valid m.recompiler.cache) (he : m.recompiler.cache.get? e.pc = some e)
    (a : UInt32) : (m.resumeAborted e).recompiler.cache.get? a = (m.recompiler.cache.get? a).map fun x =>
      if a = e.pc ∧ m.cpu.blockAborted ≠ 0 then { x with idle := .none } else x := by
  rw [resumeAborted, Cpu.takeAbort]
  by_cases habort : m.cpu.blockAborted = 0
  · simp [habort]
  rw [if_neg habort]
  by_cases ha : a = e.pc
  · subst ha
    simp only [habort, ne_eq, not_false_eq_true, and_self, if_true, he, Option.map_some]
    cases hidle : e.idle with
    | none =>
      -- a block that does not wait is left as it is
      have hsame : { e with idle := .none } = e := by rw [← hidle]
      rw [hsame]
      exact he
    | strong | weak =>
      change (m.recompiler.cache.setIdle e.pc .none).2.get? e.pc = _
      rw [hvalid.get?_setIdle, Function.update_self, he, Option.map_some]
  · simp only [ha, false_and, if_false, Option.map_id']
    split
    · change (m.recompiler.cache.setIdle e.pc .none).2.get? a = _
      rw [hvalid.get?_setIdle, Function.update_of_ne ha]
    · rfl

/-- A dispatch that counts an exception makes of the block that it entered one that does not wait, and changes nothing
else in the cache. -/
lemma get?_runBlock (hvalid : Cache.Valid m.recompiler.cache) (he : m.recompiler.cache.get? e.pc = some e)
    (P : Parts TranslatorStats Block δ) (deadline : UInt64) (a : UInt32) :
    (m.runBlock P e deadline).recompiler.cache.get? a = (m.recompiler.cache.get? a).map fun x =>
      if a = e.pc ∧ (m.runBlock P e deadline).stats.aborts ≠ m.stats.aborts then { x with idle := .none } else x := by
  obtain ⟨y, left, hcache, haborts, hrun⟩ : ∃ (y : Machine TranslatorStats Block δ) (left : Int32),
      y.recompiler = m.recompiler ∧ y.stats.aborts = m.stats.aborts ∧
        m.runBlock P e deadline = (y.resumeAborted e).chargeSpent (m.budget deadline) left := by
    refine ⟨_, _, ?_, ?_, rfl⟩ <;> rfl
  have hcharged : (m.runBlock P e deadline).recompiler = (y.resumeAborted e).recompiler ∧
      (m.runBlock P e deadline).stats.aborts = (y.resumeAborted e).stats.aborts := by
    rw [hrun, chargeSpent]
    dsimp only
    split <;> exact ⟨rfl, rfl⟩
  rw [← hcache] at hvalid he
  rw [hcharged.1, hcharged.2, (stats_resumeAborted e y).2, ← haborts, ← hcache, get?_resumeAborted hvalid he]
  by_cases habort : y.cpu.blockAborted = 0 <;> simp [habort]

/-! ### Dispatches -/

/-- What a dispatch finds out about how cached blocks wait. -/
structure Retagged (hw : Hardware δ) (hooks : Hooks δ) (e : Entry Block) (deadline : UInt64)
    (m : Machine TranslatorStats Block δ) : Prop where
  /-- An exception that is counted makes the block that was entered one that does not wait; nothing else in the cache
  changes. -/
  cache : ∀ a, (m.runBlock (.standard hw hooks) e deadline).recompiler.cache.get? a =
    (m.recompiler.cache.get? a).map fun x =>
      if a = e.pc ∧ (m.runBlock (.standard hw hooks) e deadline).stats.aborts ≠ m.stats.aborts then
        { x with idle := .none }
      else x
  /-- The last block of the chain is counted as an exception if an instruction stops it.  It is then one that does not
  wait only if it is the block that was entered, or was one before. -/
  raised : hw.Modest → m.cpu.blockAborted = 0 → ∃ done last v stop, m.Ledger hw e deadline done last v ∧
    (∀ w, ¬ m.Visits hw e deadline (done.length + 1) w) ∧ v.Ends (Board.serve hw m.cycles) stop ∧
      (m.runBlock (.standard hw hooks) e deadline).stats.aborts = m.stats.aborts + (if stop.isSome then 1 else 0) ∧
        m.recompiler.cache.get? last.pc = some last ∧ last.code = v.code ∧
          (stop.isSome → ∃ x,
            (m.runBlock (.standard hw hooks) e deadline).recompiler.cache.get? last.pc = some x ∧
              (x.idle.isIdle = false ↔ last.pc = e.pc ∨ last.idle.isIdle = false))

/-- Of every cached block, whatever its owner did to the machine: a dispatch that an exception ends changes how the
block that it entered waits, and no other. -/
theorem runBlock_retags {bios : ByteArray} {device : δ}
    (hstart : ofTranslator (.standard hw hooks₀) settings bios device {} = .ok m₀)
    (howned : Owned hw (fun _ _ => True) m₀ m₁) (hm : BeforeRun (.standard hw hooks) m₁ m)
    (he : m.recompiler.cache.get? pc = some e) (hgo : m.cycles < deadline) : m.Retagged hw hooks e deadline := by
  have hpriced := (codeInvariant_priced hw hooks settings).beforeRun (priced_owned hstart howned) hm
  have hvalid : Cache.Valid m.recompiler.cache := hpriced.holds.valid
  obtain ⟨-, rfl⟩ := hvalid.get?_eq_some_iff.mp he
  have hcache := get?_runBlock hvalid he (.standard hw hooks) deadline
  refine ⟨hcache, fun hmodest habort => ?_⟩
  have haccount : m.Account hw hooks e deadline := account_of_priced hpriced he hgo
  obtain ⟨done, last, v, stop, hledger, hlast, hends, -, haborts⟩ := haccount.charged
  obtain ⟨a, ha, hcode⟩ := hledger.cached he rfl
  obtain ⟨-, rfl⟩ := hvalid.get?_eq_some_iff.mp ha
  refine ⟨done, last, v, stop, hledger, hlast, hends, haborts hmodest habort, ha, hcode, fun hstop => ?_⟩
  have hcounted : (m.runBlock (.standard hw hooks) e deadline).stats.aborts ≠ m.stats.aborts := by
    rw [haborts hmodest habort, if_pos hstop]
    omega
  refine ⟨_, (hcache last.pc).trans (congrArg _ ha), ?_⟩
  by_cases hentered : last.pc = e.pc
  · simp [hentered, hcounted, Idle.isIdle]
  · simp [hentered]

/-! ### A waiting block that is reached by a link -/

/-- A boot ROM with a loop that waits for a sum to be zero, and a jump back to it behind which one of the numbers
becomes so large that the sum overflows. -/
def sumRom : ByteArray :=
  ⟨#[0x20, 0x48, 0x08, 0x01, 0xFE, 0xFF, 0x20, 0x15, 0, 0, 0, 0, 0, 0, 0xF0, 0x0B, 0, 0x40, 0x08, 0x3C]⟩

/-- Settings with blocks of two instructions at most, and little room for them. -/
def sumSettings : Settings := { limits := { cacheSlots := 1, poolNodes := 1, maxBlock := 2 } }

/-- The jump back is entered, and the loop that it is linked to overflows: the loop is still one that waits. -/
theorem runBlock_retags_link :
    let P := Parts.standard (.absent Unit) (.none Unit)
    ∃ m₀ m e, ofTranslator P sumSettings sumRom () {} = .ok m₀ ∧ Owned (.absent Unit) (fun _ _ => True) m₀ m₀ ∧
      BeforeRun P m₀ m ∧ m.recompiler.cache.get? (resetVector + 12) = some e ∧ m.cycles < 100 ∧
        m.Retagged (.absent Unit) (.none Unit) e 100 ∧ (m.runBlock P e 100).stats.aborts = 1 ∧
          ((m.runBlock P e 100).recompiler.cache.get? resetVector).map (·.idle) = some .weak := by
  intro P
  let m₀ := assemble P sumSettings sumRom () (.bare {} sumSettings.limits)
  have hstart : ofTranslator P sumSettings sumRom () {} = .ok m₀ :=
    ofTranslator_eq_bare (by decide) _ _ _
  -- both blocks are looked for, the loop first
  let P' := P.reading (imageSource sumRom)
  have hsource : m₀.memory.source = imageSource sumRom := Memory.source_ofBios (by decide)
  have hloop : (m₀.findBlock P' resetVector).1.toOption.join.any (fun _ => true) = true := by decide +kernel
  let h := (m₀.findBlock P' resetVector).2
  let m := (h.findBlock P' (resetVector + 12)).2
  have hfetch : h.memory.source = imageSource sumRom := by
    obtain ⟨e, x, hfind, -⟩ := exists_found hloop
    change (m₀.findBlock P' resetVector).2.memory.source = _
    rw [hfind]
    exact (findBlock_found hfind).2.2.trans hsource
  have hm : BeforeRun P m₀ m := by
    have hfound : BeforeRun P m₀ ((m₀.findBlock P resetVector).2.findBlock P (resetVector + 12)).2 :=
      .findBlock _ (.findBlock _ (.head ⟨m₀, 0, .start, .start⟩))
    rwa [findBlock_reading resetVector hsource, findBlock_reading _ hfetch] at hfound
  have hcached : (m.recompiler.cache.get? (resetVector + 12)).any (fun e =>
      (m.runBlock P e 100).stats.aborts = 1 ∧
        ((m.runBlock P e 100).recompiler.cache.get? resetVector).map (·.idle) = some .weak) = true := by
    decide +kernel
  have hgo : m.cycles < 100 := by decide +kernel
  obtain ⟨e, he, hran⟩ := (Option.any_eq_true ..).mp hcached
  obtain ⟨haborts, hwaits⟩ := of_decide_eq_true hran
  exact ⟨m₀, m, e, hstart, .start, hm, he, hgo, runBlock_retags hstart .start hm he hgo, haborts, hwaits⟩

end R3000.Machine
