import Mathlib
import R3000.Proofs.Machine.Freshness
import R3000.Proofs.Machine.Owned
import R3000.Proofs.Machine.Slices
import R3000.Proofs.Memory.Edits

/-!
# Writes between dispatches

The queue of dirty pages is dropped after every dispatch of a block, with the blocks made from its pages.  So what
waits there when a block is taken was written from outside since: by the owner of the machine, or by a hook.  The
block reflects memory unless it covers such a page.
-/

namespace R3000

/-- The pages that a write put in the queue. -/
def Memory.Queued (before after : Memory) : Set Page := { p | p ∈ after.dirty ∧ p ∉ before.dirty }

namespace Machine

/-! ### The queue -/

section

variable {τ β δ : Type} {P : Parts τ β δ} {m m' x : Machine τ β δ} {e : Entry β} {deadline : UInt64} {p : Page}

lemma memory_dropDirtyCode (m : Machine τ β δ) : m.dropDirtyCode.memory = { m.memory with dirty := #[] } := by
  rw [dropDirtyCode_eq]
  let I (x : Machine τ β δ) : Prop := x.memory = { m.memory with dirty := #[] }
  exact List.foldlRecOn (motive := I) m.memory.dirty.toList _ rfl fun x hx p _ =>
    (quiet_invalidate x _ _).2.1.trans hx

/-- The pages that the hooks put in the queue when a pass offers them a call. -/
def offered (P : Parts τ β δ) (m : Machine τ β δ) : Set Page :=
  if !m.loaded && m.cpu.pc == m.settings.bootHook then ∅
  else m.memory.Queued (m.intercept P m.cpu.pc).2.memory

lemma mem_offered (hboot : ¬ (!m.loaded && m.cpu.pc == m.settings.bootHook) = true)
    (hp : p ∈ (m.intercept P m.cpu.pc).2.memory.dirty) : p ∈ m.memory.dirty ∨ p ∈ m.offered P := by
  rw [offered, if_neg hboot]
  by_cases hold : p ∈ m.memory.dirty
  · exact .inl hold
  · exact .inr ⟨hp, hold⟩

/-- A look for a block leaves the queue alone. -/
lemma dirty_findBlock (P : Parts τ β δ) (pc : UInt32) (m : Machine τ β δ) :
    (m.findBlock P pc).2.memory.dirty = m.memory.dirty := by
  have hmark : ∀ addr len, (m.memory.markCode addr len).dirty = m.memory.dirty := by
    intro addr len
    rw [Memory.markCode]
    split <;> rfl
  rw [findBlock]
  split
  · rfl
  · dsimp only
    split
    case h_3 => exact hmark _ _
    all_goals rfl

lemma dirty_flushCode (hflush : m.flushCode = .ok m') : m'.memory.dirty = #[] := by
  obtain ⟨r, -, rfl⟩ := flushCode_eq_ok hflush
  rfl

/-- After a dispatch nothing waits. -/
lemma Starts.dirty_pass (hs : m.Starts P deadline e x) : (m.pass P deadline).2.memory.dirty = #[] := by
  rw [hs.pass_eq]
  dsimp only
  rw [(quiet_fastForward e deadline _).memory, (quiet_syncInterrupts P _).memory, memory_dropDirtyCode]

/-- What waits when a block is taken waited before the pass, or a hook has put it there. -/
lemma Starts.mem_dirty (hs : m.Starts P deadline e x) (hp : p ∈ x.memory.dirty) :
    p ∈ m.memory.dirty ∨ p ∈ m.offered P := by
  obtain ⟨y, hintercept, hfind⟩ := hs.found
  have hdirty := dirty_findBlock P m.cpu.pc y
  rw [hfind] at hdirty
  apply mem_offered
  · rw [hs.booted]
    exact Bool.false_ne_true
  · rw [hintercept]
    exact hdirty ▸ hp

/-- A pass that runs no block queues nothing but what the hooks do. -/
lemma mem_dirty_pass (hgo : m.cycles < deadline) (hnot : ∀ e x, ¬ m.Starts P deadline e x)
    (hp : p ∈ (m.pass P deadline).2.memory.dirty) : p ∈ m.memory.dirty ∨ p ∈ m.offered P := by
  dsimp only [pass] at hp
  split at hp
  · split at hp
    · rename_i hload
      obtain rfl | ⟨header, memory, hflush⟩ := loadQueued_eq_ok hload
      · exact .inl hp
      · simp [dirty_flushCode hflush] at hp
    · exact .inl hp
  · rename_i hboot
    have hoffered : ∀ x : Machine τ β δ, x.memory.dirty = (m.intercept P m.cpu.pc).2.memory.dirty →
        p ∈ x.memory.dirty → p ∈ m.memory.dirty ∨ p ∈ m.offered P :=
      fun x hx hp => mem_offered hboot (hx ▸ hp)
    split at hp <;> rename_i y heq <;> rw [heq] at hoffered
    · rw [(quiet_syncInterrupts P _).memory] at hp
      exact hoffered _ rfl hp
    · split at hp
      · rename_i haligned
        have hdirty := dirty_findBlock P m.cpu.pc y
        rw [runPass] at hp
        split at hp <;> rename_i hfound <;> rw [hfound] at hdirty
        · exact hoffered _ hdirty hp
        · exact hoffered _ hdirty hp
        · exact absurd ⟨hgo, by simpa using hboot, haligned, y, heq, hfound⟩ (hnot _ _)
      · exact hoffered _ rfl hp

end

variable {δ : Type} {hw : Hardware δ} {W : Memory → Memory → Prop} {hooks : Hooks δ}
  {m m' m₀ h x : Machine TranslatorStats Block δ} {S : Set Page} {deadline : UInt64} {e : Entry Block}

/-- The machines that a machine can become, pass by pass, each with the pages that were put in the queue from
outside since code was last dropped. -/
inductive Traced (hw : Hardware δ) (m₀ : Machine TranslatorStats Block δ) :
    Set Page → Machine TranslatorStats Block δ → Prop
  | start : Traced hw m₀ ∅ m₀
  | dispatch {S : Set Page} {m x : Machine TranslatorStats Block δ} {hooks : Hooks δ} {deadline : UInt64}
    {e : Entry Block} : Traced hw m₀ S m → m.Starts (.standard hw hooks) deadline e x →
      Traced hw m₀ ∅ (m.pass (.standard hw hooks) deadline).2
  | pass {S : Set Page} {m : Machine TranslatorStats Block δ} {hooks : Hooks δ} {deadline : UInt64} :
    Traced hw m₀ S m → m.cycles < deadline → (∀ e x, ¬ m.Starts (.standard hw hooks) deadline e x) →
      Traced hw m₀ (S ∪ m.offered (.standard hw hooks)) (m.pass (.standard hw hooks) deadline).2
  | write {S : Set Page} {m : Machine TranslatorStats Block δ} (cpu : Cpu) (memory : Memory)
    (interrupts : Interrupts) (device : δ) : Traced hw m₀ S m →
      Traced hw m₀ (S ∪ m.memory.Queued memory) (m.write cpu memory interrupts device)
  | events {S : Set Page} {m : Machine TranslatorStats Block δ} (hooks : Hooks δ) :
    Traced hw m₀ S m → Traced hw m₀ S (m.dispatchEvents (.standard hw hooks))
  | newFrame {S : Set Page} {m : Machine TranslatorStats Block δ} :
    Traced hw m₀ S m → Traced hw m₀ S { m with frameDone := false }
  | reset {S : Set Page} {m m' : Machine TranslatorStats Block δ} {hooks : Hooks δ} :
    Traced hw m₀ S m → m.reset (.standard hw hooks) = .ok m' → Traced hw m₀ ∅ m'
  | flushCode {S : Set Page} {m m' : Machine TranslatorStats Block δ} :
    Traced hw m₀ S m → m.flushCode = .ok m' → Traced hw m₀ ∅ m'
  | invalidate {S : Set Page} {m : Machine TranslatorStats Block δ} (addr len : UInt32) :
    Traced hw m₀ S m → Traced hw m₀ S (m.invalidate addr len).2
  | queue {S : Set Page} {m : Machine TranslatorStats Block δ} (image : ByteArray) :
    Traced hw m₀ S m → Traced hw m₀ S (m.queue image)
  | resetStats {S : Set Page} {m : Machine TranslatorStats Block δ} (hooks : Hooks δ) :
    Traced hw m₀ S m → Traced hw m₀ S (m.resetStats (.standard hw hooks))

namespace Traced

/-- All that waits was put there from outside since code was last dropped. -/
theorem mem_of_dirty (h : Traced hw m₀ S m) (h₀ : m₀.memory.dirty = #[]) : ∀ p ∈ m.memory.dirty, p ∈ S := by
  induction h with
  | start => simp [h₀]
  | dispatch _ hs _ => simp [hs.dirty_pass]
  | pass _ hgo hnot ih =>
    intro p hp
    exact (mem_dirty_pass hgo hnot hp).imp_left (ih p)
  | @write S m cpu memory interrupts device _ ih =>
    intro p hp
    by_cases hold : p ∈ m.memory.dirty
    · exact .inl (ih p hold)
    · exact .inr ⟨hp, hold⟩
  | events hooks _ ih =>
    rw [(quiet_dispatchEvents (.standard hw hooks) _).memory]
    exact ih
  | newFrame _ ih | queue _ _ ih | resetStats _ _ ih => exact ih
  | reset _ hreset _ =>
    obtain ⟨flushed, hflush, rfl⟩ := reset_eq_ok hreset
    rw [(quiet_powerOn _ flushed).memory, dirty_flushCode hflush]
    simp
  | flushCode _ hflush _ => simp [dirty_flushCode hflush]
  | invalidate addr len _ ih =>
    rw [(quiet_invalidate _ addr len).2.1]
    exact ih

/-! ### Every run has a trace -/

lemma exists_pass (h : Traced hw m₀ S m) (hooks : Hooks δ) (hgo : m.cycles < deadline) :
    ∃ S', Traced hw m₀ S' (m.pass (.standard hw hooks) deadline).2 := by
  by_cases hstarts : ∃ e x, m.Starts (.standard hw hooks) deadline e x
  · obtain ⟨e, x, hs⟩ := hstarts
    exact ⟨_, h.dispatch hs⟩
  · push Not at hstarts
    exact ⟨_, h.pass hgo hstarts⟩

lemma exists_head (h : Traced hw m₀ S m) (hpasses : Passes (.standard hw hooks) deadline m m') :
    ∃ S', Traced hw m₀ S' m' := by
  induction hpasses with
  | start => exact ⟨S, h⟩
  | again _ hgo heq ih =>
    obtain ⟨S', h'⟩ := ih
    obtain ⟨S'', hpass⟩ := h'.exists_pass hooks hgo
    rw [heq] at hpass
    exact ⟨S'', hpass⟩

lemma exists_passes (h : Traced hw m₀ S m) (hooks : Hooks δ) (deadline : UInt64) (fuel : Nat) :
    ∃ S', Traced hw m₀ S' (m.passes (.standard hw hooks) deadline fuel).2 := by
  induction fuel generalizing S m with
  | zero => exact ⟨S, h⟩
  | succ fuel ih =>
    rw [Machine.passes]
    split
    · rename_i hgo
      obtain ⟨S', hpass⟩ := h.exists_pass hooks hgo
      split <;> rename_i heq <;> rw [heq] at hpass
      · exact ih hpass
      · exact ⟨S', hpass⟩
      · exact ⟨S', hpass⟩
    · exact ⟨S, h⟩

lemma exists_stepUpTo (h : Traced hw m₀ S m) (hooks : Hooks δ) (limit : UInt64) :
    ∃ S', Traced hw m₀ S' (m.stepUpTo (.standard hw hooks) limit).2 := by
  obtain ⟨S', hpasses⟩ :=
    h.exists_passes hooks (m.stepDeadline limit) ((m.stepDeadline limit).toNat - m.cycles.toNat + 1)
  rw [Machine.stepUpTo, execute]
  split <;> rename_i heq <;> rw [heq] at hpasses
  · exact ⟨S', hpasses⟩
  · dsimp only at hpasses ⊢
    exact ⟨S', hpasses.events hooks⟩

lemma exists_reached (h : Traced hw m₀ S m) (hm : Reached (.standard hw hooks) m m') :
    ∃ S', Traced hw m₀ S' m' := by
  induction hm with
  | start => exact ⟨S, h⟩
  | stepUpTo limit _ ih =>
    obtain ⟨S', h'⟩ := ih
    exact h'.exists_stepUpTo hooks limit
  | newFrame _ ih => exact ih.imp fun S' h' => h'.newFrame
  | reset _ heq ih => exact ⟨∅, ih.choose_spec.reset heq⟩
  | flushCode _ heq ih => exact ⟨∅, ih.choose_spec.flushCode heq⟩
  | invalidate addr len _ ih => exact ih.imp fun S' h' => h'.invalidate addr len
  | queue image _ ih => exact ih.imp fun S' h' => h'.queue image
  | resetStats _ ih => exact ih.imp fun S' h' => h'.resetStats hooks

lemma exists_owned (hm : Owned hw W m₀ m) : ∃ S, Traced hw m₀ S m := by
  induction hm with
  | start => exact ⟨∅, .start⟩
  | reached _ _ hreached ih =>
    obtain ⟨S, h⟩ := ih
    exact h.exists_reached hreached
  | write cpu interrupts device _ _ ih =>
    obtain ⟨S, h⟩ := ih
    exact ⟨_, h.write cpu _ interrupts device⟩

end Traced

/-! ### What is found -/

/-- Memory backs every block that covers no page in the queue, whatever is written from outside. -/
lemma codeInvariant_backedBut (hw : Hardware δ) (hhooks : hooks.Within Memory.Edited) :
    CodeInvariant (.standard hw hooks) fun m : Machine TranslatorStats Block δ =>
      m.recompiler.BackedBut (· ∈ m.memory.dirty) m.memory where
  quiet m m' h hquiet := by
    rw [hquiet.recompiler, hquiet.memory]
    exact h
  intercept m pc h := by
    rw [intercept]
    dsimp only
    split
    · have hwritten := (hhooks (physical pc) m.cpu m.memory m.board.io.device).watched
      split <;> exact h.watched hwritten
    · exact h
  loadQueued m m' h hload := by
    obtain rfl | ⟨header, memory, hflush⟩ := loadQueued_eq_ok hload
    · exact h
    · exact (backed_flushCode hflush).but _
  findBlock m pc h := by
    rw [dirty_findBlock]
    exact (backedBut_findBlock hw hooks h pc).1
  run m pc m' e deadline h hfind := by
    have hfound := (backedBut_findBlock hw hooks h pc).1
    have hdirty := dirty_findBlock (.standard hw hooks) pc m
    rw [hfind] at hfound hdirty
    dsimp only at hfound hdirty
    rw [← hdirty] at hfound
    exact (backed_settled hooks hfound e deadline).but _
  flushCode m m' _ hflush := (backed_flushCode hflush).but _
  invalidate m addr len h := by
    rw [(quiet_invalidate m addr len).2.1]
    by_cases hram : physical addr < 0x00800000
    · rw [recompiler_invalidate_ram hram]
      exact (Recompiler.thinned_images h.valid _ len ramImages).backedBut h
    · rw [recompiler_invalidate hram]
      exact (Recompiler.thinned_invalidate h.valid _ len).backedBut h
  resetStats m h := ⟨h.valid.with_stats {}, h.made, h.backs⟩

/-- When the dispatcher takes a block to run it, every page in the queue was put there from outside, by the owner or
by a hook, since code was last dropped.  Unless the block covers such a page, its words in the image of main memory
that it starts in are those that memory holds, and if it stays in that image it is the translation of memory.  Once
it has run nothing waits. -/
theorem starts_outside {settings : Settings} {bios : ByteArray} {device : δ} {hooks₀ : Hooks δ} {limit : UInt64}
    (hstart : ofTranslator (.standard hw hooks₀) settings bios device {} = .ok m₀)
    (hm : Owned hw Memory.Edited m₀ m) (hhooks : hooks.Within Memory.Edited)
    (hpasses : Passes (.standard hw hooks) (m.stepDeadline limit) m h)
    (hstarts : h.Starts (.standard hw hooks) (m.stepDeadline limit) e x) :
    (∃ S, Traced hw m₀ S h ∧ ∀ p ∈ x.memory.dirty, p ∈ S ∪ h.offered (.standard hw hooks)) ∧
      e.pc = h.cpu.pc ∧
      ((∀ p, e.Covers p → p ∉ x.memory.dirty) →
        (∃ old : Memory, e.Translates old.source (max x.recompiler.maxBlock 1) ∧
          ∀ k < e.code.plan.length, Entry.InImage e.pc k →
            x.memory.source (Plan.wordPc e.pc k) = old.source (Plan.wordPc e.pc k)) ∧
          (e.StaysInImage → e.Translates x.memory.source (max x.recompiler.maxBlock 1))) ∧
      (h.pass (.standard hw hooks) (m.stepDeadline limit)).2.memory.dirty = #[] := by
  have k := codeInvariant_backedBut hw hhooks
  have howned : m.recompiler.BackedBut (· ∈ m.memory.dirty) m.memory := by
    refine hm.invariant (I := fun m => m.recompiler.BackedBut (· ∈ m.memory.dirty) m.memory)
      (fun hooks hhooks => (codeInvariant_backedBut hw hhooks).invariant) ?_ ((backed_ofTranslator hstart).but _)
    intro y cpu memory interrupts device hy hwritten
    exact hy.watched hwritten.watched
  -- the hooks are offered the call, and then the block is looked for
  obtain ⟨y, hintercept, hfind⟩ := hstarts.found
  have hy := k.intercept h h.cpu.pc (k.invariant.head howned hpasses)
  rw [hintercept] at hy
  obtain ⟨hfound, -, -, hget⟩ := backedBut_findBlock hw hooks hy h.cpu.pc
  have hdirty := dirty_findBlock (.standard hw hooks) h.cpu.pc y
  rw [hfind] at hfound hget hdirty
  have he := hget e rfl
  refine ⟨?_, (hfound.valid.get?_eq_some_iff.mp he).2, fun hclean => ?_, hstarts.dirty_pass⟩
  · obtain ⟨S, hS⟩ := Traced.exists_owned hm
    obtain ⟨S', hhead⟩ := hS.exists_head hpasses
    have h₀ : m₀.memory.dirty = #[] := by
      obtain ⟨r, -, rfl⟩ := ofTranslator_eq_ok hstart
      rfl
    refine ⟨S', hhead, fun p hp => ?_⟩
    exact (hstarts.mem_dirty hp).imp_left (hhead.mem_of_dirty h₀ p)
  · have hbacks := hfound.backs _ e he fun p hp hwaits => hclean p hp (hdirty ▸ hwaits)
    exact ⟨hbacks.exists_source, hbacks.translates⟩

/-! ### A page that the owner writes -/

/-- Without hooks no page is queued by them. -/
lemma offered_of_none {P : Parts TranslatorStats Block δ} (hP : P.hooks = .none δ)
    (m : Machine TranslatorStats Block δ) : m.offered P = ∅ := by
  rw [offered]
  split
  · rfl
  · rw [intercept_of_none hP]
    ext p
    simp [Memory.Queued]

/-- The first page of main memory. -/
def firstPage : Page := ⟨0, by decide⟩

/-- A new machine with the ROM that calls a function in main memory. -/
def caller : Machine TranslatorStats Block Unit :=
  assemble (.standard (.absent Unit) (.none Unit)) smallSettings rewriteRom () (.bare {} smallSettings.limits)

/-- The machine after the first call. -/
def called : Machine TranslatorStats Block Unit := (caller.stepUpTo (.standard (.absent Unit) (.none Unit)) 12).2

/-- The machine whose owner then wrote the first word of the function over, and the program counter. -/
def tampered (pc : UInt32) : Machine TranslatorStats Block Unit :=
  called.write { called.cpu with pc } (called.memory.loadRam 0 ⟨#[0x02, 0, 0x02, 0x24]⟩) called.board.io.interrupts ()

lemma owned_tampered (pc : UInt32) : Owned (.absent Unit) Memory.Edited caller (tampered pc) :=
  .write _ _ _ (.reached .start (Hooks.within_none fun _ => .refl) (Reached.start.stepUpTo 12)) (.loadRam _ _ .refl)

/-- A machine that waits to run code starts the block that it finds. -/
lemma exists_starts {P : Parts TranslatorStats Block δ} (hP : P.hooks = .none δ) {test : Entry Block → Bool}
    (hready : h.cycles < deadline ∧ (!h.loaded && h.cpu.pc == h.settings.bootHook) = false ∧ h.cpu.pc &&& 3 = 0)
    (hfound : (h.findBlock P h.cpu.pc).1.toOption.join.any test = true) :
    ∃ e x, h.Starts P deadline e x ∧ x.memory.dirty = h.memory.dirty ∧ test e = true := by
  obtain ⟨e, x, hfind, htest⟩ := exists_found hfound
  have hdirty := dirty_findBlock P h.cpu.pc h
  rw [hfind] at hdirty
  exact ⟨e, x, ⟨hready.1, hready.2.1, hready.2.2, h, intercept_of_none hP _ _, hfind⟩, hdirty, htest⟩

/-- The page of the function waits when the owner has written to it, and was put there from outside.  If the owner
goes to the function, the block that was made of the old word is taken; if not, a block of the ROM, which reflects
memory.  After either nothing waits. -/
theorem starts_outside_tampered :
    let P := Parts.standard (.absent Unit) (.none Unit)
    ∃ m₀, ofTranslator P smallSettings rewriteRom () {} = .ok m₀ ∧ (Hooks.none Unit).Within Memory.Edited ∧
      (∃ m e x, Owned (.absent Unit) Memory.Edited m₀ m ∧ Passes P (m.stepDeadline 64) m m ∧
        m.Starts P (m.stepDeadline 64) e x ∧ m.cpu.pc = 0x80000000 ∧
          m.memory.fetch 0x80000000 = some 0x24020002 ∧ e.code.plan.body = [.arith .addu 2 0 (.imm 1)] ∧
            x.memory.dirty = #[firstPage] ∧ (∃ S, Traced (.absent Unit) m₀ S m ∧ firstPage ∈ S) ∧
              (m.pass P (m.stepDeadline 64)).2.memory.dirty = #[]) ∧
      ∃ m e x, Owned (.absent Unit) Memory.Edited m₀ m ∧ Passes P (m.stepDeadline 64) m m ∧
        m.Starts P (m.stepDeadline 64) e x ∧ m.cpu.pc = resetVector + 36 ∧ x.memory.dirty = #[firstPage] ∧
          e.Translates x.memory.source (max x.recompiler.maxBlock 1) ∧
            (m.pass P (m.stepDeadline 64)).2.memory.dirty = #[] := by
  intro P
  have hstart : ofTranslator P smallSettings rewriteRom () {} = .ok caller := ofTranslator_eq_bare (by decide) _ _ _
  have hhooks : (Hooks.none Unit).Within Memory.Edited := Hooks.within_none fun _ => .refl
  have hdirty : ∀ pc, (tampered pc).memory.dirty = (tampered 0).memory.dirty := fun _ => rfl
  have hpage : (tampered 0).memory.dirty = #[firstPage] := by decide +kernel
  refine ⟨caller, hstart, hhooks, ?function, ?rom⟩
  case function =>
    let m := tampered 0x80000000
    have hpc : m.cpu.pc = 0x80000000 := rfl
    have hword : m.memory.fetch 0x80000000 = some 0x24020002 := by decide +kernel
    have howned : Owned (.absent Unit) Memory.Edited caller m := owned_tampered _
    have hwaits : m.memory.dirty = #[firstPage] := (hdirty _).trans hpage
    obtain ⟨e, x, hstarts, hkept, htest⟩ : ∃ e x, m.Starts P (m.stepDeadline 64) e x ∧
        x.memory.dirty = m.memory.dirty ∧ decide (e.code.plan.body = [.arith .addu 2 0 (.imm 1)]) = true :=
      exists_starts rfl (by decide +kernel) (by decide +kernel)
    clear_value m
    have hhead : Passes P (m.stepDeadline 64) m m := .start
    obtain ⟨⟨S, htraced, hfrom⟩, -, -, hdone⟩ := starts_outside hstart howned hhooks hhead hstarts
    rw [offered_of_none rfl, Set.union_empty, hkept, hwaits] at hfrom
    exact ⟨m, e, x, howned, hhead, hstarts, hpc, hword, of_decide_eq_true htest, hkept.trans hwaits,
      ⟨S, htraced, hfrom firstPage (by simp)⟩, hdone⟩
  case rom =>
    let m := tampered (resetVector + 36)
    have hpc : m.cpu.pc = resetVector + 36 := rfl
    have howned : Owned (.absent Unit) Memory.Edited caller m := owned_tampered _
    have hwaits : m.memory.dirty = #[firstPage] := (hdirty _).trans hpage
    obtain ⟨e, x, hstarts, hkept, -⟩ : ∃ e x, m.Starts P (m.stepDeadline 64) e x ∧
        x.memory.dirty = m.memory.dirty ∧ (fun _ => true) e = true :=
      exists_starts rfl (by decide +kernel) (by decide +kernel)
    clear_value m
    have hhead : Passes P (m.stepDeadline 64) m m := .start
    obtain ⟨-, he, hfresh, hdone⟩ := starts_outside hstart howned hhooks hhead hstarts
    rw [hpc] at he
    have hregion : Region.ofAddress (resetVector + 36) = .bios ⟨36, by decide⟩ := by decide +kernel
    have hstays : e.StaysInImage := fun hlow => absurd hlow (he ▸ by decide)
    have hclean : ∀ p, e.Covers p → p ∉ x.memory.dirty := by
      rintro p ⟨start, hram, -⟩
      rw [he, hregion] at hram
      cases hram
    exact ⟨m, e, x, howned, hhead, hstarts, hpc, hkept.trans hwaits, (hfresh hclean).2 hstays, hdone⟩

end Machine

end R3000
