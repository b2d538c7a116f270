import Mathlib
import R3000.Proofs.Machine.Progress
import R3000.Proofs.Machine.Tallies

/-!
# Runs of a frame

No pass of the dispatcher completes a frame, and a dispatch of the events completes at most one: the pending batch
fires at most once, and no other event completes a frame.  So a run of a frame that ends without an error has
completed one frame, in the dispatch of the events with which it ended.
-/

namespace R3000

/-! ### Raised sources -/

lemma or_and_one (s v : UInt16) : (s ||| v) &&& 1 = 1 ↔ s &&& 1 = 1 ∨ v &&& 1 = 1 := by
  have hodd : ∀ u : UInt16, u &&& 1 = 1 ↔ u.toNat % 2 = 1 := by
    intro u
    rw [← UInt16.toNat_inj, UInt16.toNat_and]
    exact Nat.and_one_is_mod _ ▸ Iff.rfl
  rw [hodd, hodd, hodd, UInt16.toNat_or, Nat.or_mod_two_eq_one]

/-- Sources were raised and none was acknowledged. -/
def Interrupts.Raises (i i' : Interrupts) : Prop := ∃ v, i' = { i with stat := i.stat ||| v }

namespace Interrupts.Raises

variable {i i' i'' : Interrupts}

lemma refl (i : Interrupts) : i.Raises i := ⟨0, by rw [UInt16.or_zero]⟩

lemma trans (h : i.Raises i') (h' : i'.Raises i'') : i.Raises i'' := by
  obtain ⟨v, rfl⟩ := h
  obtain ⟨v', rfl⟩ := h'
  exact ⟨v ||| v', by rw [← UInt16.or_assoc]⟩

lemma signal (i : Interrupts) (number : UInt32) : i.Raises (i.signal number) := by
  rw [Interrupts.signal]
  split
  · exact ⟨_, rfl⟩
  · exact refl i

lemma assertLines (i : Interrupts) (lines : UInt16) : i.Raises (i.assertLines lines) := ⟨_, rfl⟩

/-- The frame blank stays raised. -/
lemma blank (h : i.Raises i') (hraised : i.stat &&& 1 = 1) : i'.stat &&& 1 = 1 := by
  obtain ⟨v, rfl⟩ := h
  exact (or_and_one i.stat v).mpr (.inl hraised)

end Interrupts.Raises

/-- A response of the devices acknowledges no source. -/
lemma Io.raises_accept {δ : Type} (io : Io δ) (r : Response δ) : io.interrupts.Raises (io.accept r).interrupts := by
  have hgrant : ∀ (io : Io δ) request, io.interrupts.Raises (io.grant request).interrupts := by
    intro io request
    cases request with
    | schedule k deadline | cancel k =>
      rw [grant]
      split <;> exact .refl _
    | signal number => exact .signal _ _
  rw [accept]
  refine List.foldlRecOn (motive := fun x : Io δ => io.interrupts.Raises x.interrupts) r.requests _ (.refl _) ?_
  intro x hx request _
  exact hx.trans (hgrant x request)

namespace Machine

section

variable {τ β δ : Type} {P : Parts τ β δ} {m m' x : Machine τ β δ}

/-! ### Passes -/

/-- As many frames are counted as before, and it is noted as before whether one is done. -/
structure SameFrame (m m' : Machine τ β δ) : Prop where
  counted : m'.stats.frames = m.stats.frames
  done : m'.frameDone = m.frameDone

namespace SameFrame

lemma trans {m'' : Machine τ β δ} (h : SameFrame m m') (h' : SameFrame m' m'') : SameFrame m m'' :=
  ⟨h'.counted.trans h.counted, h'.done.trans h.done⟩

lemma syncInterrupts (P : Parts τ β δ) (m : Machine τ β δ) : SameFrame m (m.syncInterrupts P) := by
  rw [Machine.syncInterrupts]
  dsimp only
  split
  · split <;> exact ⟨rfl, rfl⟩
  · exact ⟨rfl, rfl⟩

lemma intercept (P : Parts τ β δ) (pc : UInt32) (m : Machine τ β δ) : SameFrame m (m.intercept P pc).2 := by
  rw [Machine.intercept]
  dsimp only
  split
  · split <;> exact ⟨rfl, rfl⟩
  · exact ⟨rfl, rfl⟩

lemma findBlock (P : Parts τ β δ) (pc : UInt32) (m : Machine τ β δ) : SameFrame m (m.findBlock P pc).2 := by
  rw [Machine.findBlock]
  split
  · exact ⟨rfl, rfl⟩
  · dsimp only
    split <;> exact ⟨rfl, rfl⟩

lemma runBlock (P : Parts τ β δ) (e : Entry β) (deadline : UInt64) (m : Machine τ β δ) :
    SameFrame m (m.runBlock P e deadline) := by
  rw [Machine.runBlock, chargeSpent, resumeAborted]
  dsimp only
  split <;> split <;> exact ⟨rfl, rfl⟩

lemma dropDirtyCode (m : Machine τ β δ) : SameFrame m m.dropDirtyCode := by
  rw [dropDirtyCode_eq]
  refine List.foldlRecOn (motive := SameFrame m) m.memory.dirty.toList _ ⟨rfl, rfl⟩ fun x hx p _ => hx.trans ?_
  rw [dropPage, invalidate]
  dsimp only
  split <;> exact ⟨rfl, rfl⟩

lemma loadQueued (h : m.loadQueued = .ok m') : SameFrame m m' := by
  obtain rfl | ⟨header, memory, hflush⟩ := loadQueued_eq_ok h
  · exact ⟨rfl, rfl⟩
  · obtain ⟨r, -, rfl⟩ := flushCode_eq_ok hflush
    exact ⟨rfl, rfl⟩

lemma fastForward (e : Entry β) (deadline : UInt64) (m : Machine τ β δ) :
    SameFrame m (m.fastForward e deadline).2 := by
  rw [Machine.fastForward]
  dsimp only
  split
  · exact ⟨rfl, rfl⟩
  · split <;> exact ⟨rfl, rfl⟩

lemma runPass (P : Parts τ β δ) (deadline : UInt64) (pc : UInt32) (m : Machine τ β δ) :
    SameFrame m (m.runPass P deadline pc).2 := by
  have hfind := findBlock P pc m
  rw [Machine.runPass]
  split <;> rename_i heq <;> rw [heq] at hfind
  · exact hfind
  · exact ⟨hfind.counted, hfind.done⟩
  · rename_i e x
    have hran := ((hfind.trans (runBlock P e deadline x)).trans (dropDirtyCode _)).trans (syncInterrupts P _)
    have hforward := hran.trans (fastForward e deadline _)
    dsimp only
    split <;> rename_i heq <;> rw [heq] at hforward <;> exact hforward

/-- A pass completes no frame. -/
lemma pass (P : Parts τ β δ) (deadline : UInt64) (m : Machine τ β δ) : SameFrame m (m.pass P deadline).2 := by
  dsimp only [Machine.pass]
  split
  · split
    · rename_i heq
      exact loadQueued heq
    · exact ⟨rfl, rfl⟩
  · have hintercept := intercept P m.cpu.pc m
    split <;> rename_i x heq <;> rw [heq] at hintercept
    · have hcharged : SameFrame m (x.charge x.minCharge) := ⟨hintercept.counted, hintercept.done⟩
      exact hcharged.trans (syncInterrupts P _)
    · split
      · exact hintercept.trans (runPass P deadline m.cpu.pc x)
      · exact ⟨hintercept.counted, hintercept.done⟩

lemma passes (P : Parts τ β δ) (deadline : UInt64) (fuel : Nat) (m : Machine τ β δ) :
    SameFrame m (m.passes P deadline fuel).2 := by
  induction fuel generalizing m with
  | zero => exact ⟨rfl, rfl⟩
  | succ fuel ih =>
    have hpass := pass P deadline m
    rw [Machine.passes]
    split
    · split <;> rename_i heq <;> rw [heq] at hpass
      · exact hpass.trans (ih _)
      · exact hpass
      · exact hpass
    · exact ⟨rfl, rfl⟩

end SameFrame

/-! ### Events -/

/-- What the events of a dispatch make of a machine: it runs no block, counts the frames that the raster completes,
and if that is any, then the frame is done and its interrupt raised. -/
structure Turns (m x : Machine τ β δ) : Prop where
  blocks : x.stats.blocksExecuted = m.stats.blocksExecuted
  counted : x.stats.frames + m.raster.frames = m.stats.frames + x.raster.frames
  frame : (x.raster.frames = m.raster.frames ∧ x.frameDone = m.frameDone) ∨
    (m.raster.frames < x.raster.frames ∧ x.frameDone = true ∧ x.board.io.interrupts.stat &&& 1 = 1)

namespace Turns

lemma refl (m : Machine τ β δ) : Turns m m := ⟨rfl, rfl, .inl ⟨rfl, rfl⟩⟩

/-- A change behind the device window that acknowledges no source leaves it so. -/
lemma raise (h : Turns m x) {io : Io δ} (hio : x.board.io.interrupts.Raises io.interrupts) :
    Turns m { x with board.io := io } where
  blocks := h.blocks
  counted := h.counted
  frame := h.frame.imp id fun ⟨hlt, hdone, hraised⟩ => ⟨hlt, hdone, hio.blank hraised⟩

lemma respond (h : Turns m x) (f : δ → Response δ) : Turns m (x.respond f) := h.raise (Io.raises_accept _ _)

lemma schedule (h : Turns m x) (k : EventKind) (deadline : UInt64) (c : Callback) :
    Turns m (x.schedule k deadline c) :=
  h.raise (.refl _)

/-- The end of a frame counts the frame that the raster completes. -/
lemma endFrame (h : Turns m x) (hends : x.raster.endsFrame = true) (P : Parts τ β δ) (now : UInt64) :
    Turns m ({ x with raster := x.raster.advance now }.endFrame P now) := by
  have hframes : (x.raster.advance now).frames = x.raster.frames + 1 := if_pos hends
  have hcounted := h.counted
  refine ⟨h.blocks, ?_, .inr ⟨?_, rfl, ?_⟩⟩
  · change x.stats.frames + 1 + m.raster.frames = m.stats.frames + (x.raster.advance now).frames
    omega
  · change m.raster.frames < (x.raster.advance now).frames
    have hle : m.raster.frames ≤ x.raster.frames := h.frame.elim (fun hsame => hsame.1.ge) (fun hmore => hmore.1.le)
    omega
  · exact (Io.raises_accept _ _).blank ((or_and_one _ 1).mpr (.inr rfl))

lemma onBatch (h : Turns m x) (P : Parts τ β δ) (now : UInt64) : Turns m (x.onBatch P now) := by
  dsimp only [Machine.onBatch]
  split
  · rename_i hends
    exact (h.endFrame hends P now).schedule ..
  · rename_i hends
    have hframes : (x.raster.advance now).frames = x.raster.frames := if_neg hends
    refine schedule (x := { x with raster := x.raster.advance now }) ⟨h.blocks, ?_, ?_⟩ _ _ _
    · exact hframes ▸ h.counted
    · exact hframes ▸ h.frame

lemma onEvent (h : Turns m x) (P : Parts τ β δ) (now : UInt64) (c : Callback) (k : EventKind) :
    Turns m (x.onEvent P now c k) := by
  cases c with
  | batch => exact h.onBatch P now
  | blank => exact (h.respond _).schedule ..
  | device => exact h.respond _

lemma syncInterrupts (h : Turns m x) (P : Parts τ β δ) : Turns m (x.syncInterrupts P) := by
  have hpolled : Turns m (x.pollLines P) := h.raise (.assertLines _ _)
  rw [Machine.syncInterrupts]
  dsimp only
  split
  · split <;> exact ⟨hpolled.blocks, hpolled.counted, hpolled.frame⟩
  · exact ⟨hpolled.blocks, hpolled.counted, hpolled.frame⟩

lemma dispatchEvents (P : Parts τ β δ) (m : Machine τ β δ) : Turns m (m.dispatchEvents P) := by
  have hfired : Turns m (m.fireDue P m.cycles).2 :=
    Schedule.dispatch_keeps (fun _ _ h => h.raise (.refl _)) (fun c k _ h => h.onEvent P m.cycles c k) (refl m)
  rw [Machine.dispatchEvents]
  split
  · split
    · refine syncInterrupts ?_ P
      exact ⟨hfired.blocks, hfired.counted, hfired.frame⟩
    · exact refl m
  · exact refl m

end Turns

/-- A dispatch of the events that completes a frame: the batch that ends it fires once, and no block runs. -/
structure EndsFrame (P : Parts τ β δ) (m m' : Machine τ β δ) : Prop where
  ends : m.raster.endsFrame = true
  fires : (m.dispatched P).count .hblank = 1
  raster : m'.raster = m.raster.advance m.cycles
  counted : m'.stats.frames = m.stats.frames + 1
  done : m'.frameDone = true
  raised : m'.board.io.interrupts.stat &&& 1 = 1
  blocks : m'.stats.blocksExecuted = m.stats.blocksExecuted

/-- A dispatch of the events completes no frame, or one. -/
lemma Clocked.dispatch_frame (P : Parts τ β δ) (h : m.Clocked) :
    ((m.dispatchEvents P).raster.frames = m.raster.frames ∧ SameFrame m (m.dispatchEvents P)) ∨
      EndsFrame P m (m.dispatchEvents P) := by
  obtain ⟨hblocks, hcounted, hframe⟩ := Turns.dispatchEvents P m
  rcases hframe with ⟨hsame, hdone⟩ | ⟨hlt, hdone, hraised⟩
  · exact .inl ⟨hsame, by omega, hdone⟩
  · right
    rcases h.batch.dispatchEvents P with ⟨-, -, hrest⟩ | ⟨hfires, -, hrest⟩
    · rw [hrest.raster] at hlt
      exact absurd hlt (lt_irrefl _)
    · have hends : m.raster.endsFrame = true := by
        by_contra hends
        rw [hrest.raster, show (m.raster.advance m.cycles).frames = m.raster.frames from if_neg hends] at hlt
        exact absurd hlt (lt_irrefl _)
      have hframes : (m.raster.advance m.cycles).frames = m.raster.frames + 1 := if_pos hends
      rw [hrest.raster, hframes] at hcounted
      exact ⟨hends, hfires, hrest.raster, by omega, hdone, hraised, hblocks⟩

/-! ### Steps -/

/-- The machines between steps without an error that have not completed the frame yet. -/
inductive MidFrame (P : Parts τ β δ) (m : Machine τ β δ) : Machine τ β δ → Prop
  | start : m.frameDone = false → MidFrame P m m
  | step {x x' : Machine τ β δ} : MidFrame P m x → x.step P = (none, x') → x'.frameDone = false → MidFrame P m x'

lemma MidFrame.more (h : MidFrame P m x) : x.frameDone = false := by
  cases h with
  | start hmore => exact hmore
  | step _ _ hmore => exact hmore

end

variable {δ : Type} {hw : Hardware δ} {hooks : Hooks δ} {W : Memory → Memory → Prop}
  {m m' m₀ x y : Machine TranslatorStats Block δ}

/-- The code of a step leaves the frame alone. -/
lemma Clocked.execute (h : m.Clocked) {deadline : UInt64}
    (hexecute : m.execute (.standard hw hooks) deadline = (none, y)) :
    y.Clocked ∧ y.raster = m.raster ∧ SameFrame m y := by
  let r := m.execute (.standard hw hooks) deadline
  have hclocked : r.2.Clocked := (invariant_clocked hw hooks).passes _ h
  have hawaits : r.2.Awaits m.raster := awaits_passes h.batch deadline _
  have hsame : SameFrame m r.2 := .passes _ deadline _ m
  obtain rfl : r.2 = y := congrArg Prod.snd hexecute
  exact ⟨hclocked, hawaits.raster, hsame⟩

/-- A machine whose frame is not done counts as many frames as at the start of the frame. -/
lemma MidFrame.frames (h : MidFrame (.standard hw hooks) m x) (hm : m.Clocked) :
    x.Clocked ∧ x.raster.frames = m.raster.frames ∧ x.stats.frames = m.stats.frames := by
  induction h with
  | start => exact ⟨hm, rfl, rfl⟩
  | @step x x' _ hstep hmore ih =>
    obtain ⟨hclocked, hframes, hcounted⟩ := ih
    rw [Machine.step, stepUpTo] at hstep
    split at hstep
    · cases hstep
    · rename_i y hexecute
      obtain ⟨hy, hraster, hsame⟩ := hclocked.execute hexecute
      cases hstep
      rcases hy.dispatch_frame (.standard hw hooks) with ⟨hframes', hsame'⟩ | hends
      · refine ⟨hy.dispatchEvents _, ?_, (hsame'.counted.trans hsame.counted).trans hcounted⟩
        exact hframes'.trans ((congrArg Raster.frames hraster).trans hframes)
      · rw [hends.done] at hmore
        cases hmore

/-- A run that ends without an error ends with a dispatch of the events that completes the frame. -/
lemma MidFrame.stepWhile (h : MidFrame (.standard hw hooks) m x) (hm : m.Clocked) {fuel : Nat}
    (hrun : x.stepWhile (.standard hw hooks) Schedule.never (fun m => !m.frameDone) fuel = (.finished, m')) :
    ∃ x y, MidFrame (.standard hw hooks) m x ∧
      x.execute (.standard hw hooks) (x.stepDeadline Schedule.never) = (none, y) ∧
        m' = y.dispatchEvents (.standard hw hooks) ∧ EndsFrame (.standard hw hooks) y m' := by
  have hdone : ∀ fuel (z : Machine TranslatorStats Block δ), z.frameDone = true →
      z.stepWhile (.standard hw hooks) Schedule.never (fun m => !m.frameDone) fuel = (.finished, z) := by
    intro fuel z hz
    cases fuel <;> rw [Machine.stepWhile, hz] <;> rfl
  induction fuel generalizing x with
  | zero =>
    rw [Machine.stepWhile, h.more] at hrun
    cases hrun
  | succ fuel ih =>
    rw [Machine.stepWhile, h.more, if_pos (by rfl)] at hrun
    cases hexecute : x.execute (.standard hw hooks) (x.stepDeadline Schedule.never) with
    | mk ended y =>
      obtain ⟨hx, -, -⟩ := h.frames hm
      cases ended with
      | some err =>
        rw [stepUpTo, hexecute] at hrun
        cases hrun
      | none =>
        have hstep : x.stepUpTo (.standard hw hooks) Schedule.never =
            (none, y.dispatchEvents (.standard hw hooks)) := by rw [stepUpTo, hexecute]
        obtain ⟨hy, -, hsame⟩ := hx.execute hexecute
        rw [hstep] at hrun
        dsimp only at hrun
        rcases hy.dispatch_frame (.standard hw hooks) with ⟨-, hsame'⟩ | hends
        · exact ih (h.step hstep ((hsame'.done.trans hsame.done).trans h.more)) hrun
        · rw [hdone fuel _ hends.done] at hrun
          cases hrun
          exact ⟨x, y, h, hexecute, rfl, hends⟩

/-! ### Runs -/

/-- What a run of a frame that ended without an error has come to. -/
structure RanFrame (hw : Hardware δ) (hooks : Hooks δ) (fuel : Nat) (m m' : Machine TranslatorStats Block δ) :
    Prop where
  /-- The raster has completed one frame more. -/
  completed : m'.raster.frames = m.raster.frames + 1
  /-- The dispatcher has counted one frame more. -/
  counted : m'.stats.frames = m.stats.frames + 1
  /-- The devices were told of one frame: the same run with a count beside them adds one to it. -/
  told : ∀ k, (m.counting k).runFrame (.tallied hw hooks) fuel = (.finished, m'.counting (k + 1))
  /-- The beam is at the top. -/
  top : m'.raster.scanline = 0
  /-- The interrupt of the frame blank is raised. -/
  raised : m'.board.io.interrupts.stat &&& 1 = 1
  /-- Some steps did not complete the frame.  In the last step code ran, and then the events that were due fired, the
  batch that ends the frame among them; no block ran after them. -/
  last : ∃ x y, MidFrame (.standard hw hooks) { m with frameDone := false } x ∧
    x.execute (.standard hw hooks) (x.stepDeadline Schedule.never) = (none, y) ∧
      m' = y.dispatchEvents (.standard hw hooks) ∧ EndsFrame (.standard hw hooks) y m'

/-- Whatever its owner does, a machine keeps both video events pending. -/
lemma Owned.clocked {settings : Settings} {bios : ByteArray} {device : δ} {hooks₀ : Hooks δ}
    (hstart : ofTranslator (.standard hw hooks₀) settings bios device {} = .ok m₀) (hm : Owned hw W m₀ m) :
    m.Clocked := by
  refine hm.invariant (fun hooks _ => invariant_clocked hw hooks) ?_ ?_
  · intro x cpu memory interrupts device hx _
    exact hx.still ⟨rfl, rfl, rfl⟩
  · obtain ⟨r, -, rfl⟩ := ofTranslator_eq_ok hstart
    exact clocked_powerOn _ .refl

/-- A run of a frame completes exactly one frame, whatever devices, hooks, the program and the owner do. -/
theorem runFrame_exact {settings : Settings} {bios : ByteArray} {device : δ} {hooks₀ : Hooks δ}
    (hstart : ofTranslator (.standard hw hooks₀) settings bios device {} = .ok m₀) (hm : Owned hw W m₀ m)
    (hooks : Hooks δ) {fuel : Nat} (hrun : m.runFrame (.standard hw hooks) fuel = (.finished, m')) :
    RanFrame hw hooks fuel m m' := by
  set m₁ := { m with frameDone := false }
  have hclocked : m₁.Clocked := (hm.clocked hstart).still ⟨rfl, rfl, rfl⟩
  obtain ⟨x, y, hx, hexecute, rfl, hends⟩ := (MidFrame.start rfl).stepWhile hclocked hrun
  obtain ⟨hx', hframes, hcounted⟩ := hx.frames hclocked
  obtain ⟨-, hraster, hsame⟩ := hx'.execute hexecute
  have hcount : (y.dispatchEvents (.standard hw hooks)).stats.frames = m.stats.frames + 1 := by
    rw [hends.counted, hsame.counted, hcounted]
  refine ⟨?_, hcount, fun k => ?_, ?_, hends.raised, x, y, hx, hexecute, rfl, hends⟩
  · have hone : (y.raster.advance y.cycles).frames = y.raster.frames + 1 := if_pos hends.ends
    rw [hends.raster, hone, hraster, hframes]
  · -- the count keeps its distance from the frames that the dispatcher counts
    have htallied : (m.tallying (k - m.stats.frames)).runFrame (.tallied hw hooks) fuel =
        (m.runFrame (.standard hw hooks) fuel).map id (tallying (k - m.stats.frames)) := runFrame_tallying ..
    have hbefore : (m.stats.frames + (k - m.stats.frames) : Int) = k := by omega
    have hafter : ((m.stats.frames + 1 : Nat) + (k - m.stats.frames) : Int) = k + 1 := by omega
    rw [hrun, tallying, hbefore] at htallied
    rw [htallied, Prod.map, tallying, hcount, hafter]
    rfl
  · have htop : (y.raster.advance y.cycles).scanline = 0 := if_pos hends.ends
    rw [hends.raster, htop]

/-- The first frame of a new machine. -/
theorem runFrame_exact_first :
    let P := Parts.standard (.absent Unit) (.none Unit)
    ∃ m₀ m' fuel, ofTranslator P {} .empty () {} = .ok m₀ ∧ Owned (.absent Unit) (fun _ _ => True) m₀ m₀ ∧
      m₀.runFrame P fuel = (.finished, m') ∧ RanFrame (.absent Unit) (.none Unit) fuel m₀ m' ∧
        m'.raster.frames = 1 ∧ m'.stats.frames = 1 := by
  intro P
  let m₀ := assemble P {} .empty () (.bare {} {})
  have hstart : ofTranslator P {} .empty () {} = .ok m₀ := ofTranslator_eq_bare (by decide) _ _ _
  have howned : Owned (.absent Unit) (fun _ _ => True) m₀ m₀ := .start
  have hroom : Settings.Room {} 9 m₀.cycles := by
    change 0 + 9 * Settings.stride {} + Raster.longestFrame < 2 ^ 64
    decide
  have hpaced : m₀.Paced {} := paced_ofTranslator hstart (by decide) (Limits.codeFits_of_plain rfl (by decide))
  obtain ⟨m', fuel, -, -, hall⟩ := hpaced.runFrame (.none Unit) hroom
  have hrun := hall fuel le_rfl
  have hran := runFrame_exact hstart howned (.none Unit) hrun
  exact ⟨m₀, m', fuel, hstart, howned, hrun, hran, hran.completed, hran.counted⟩

end Machine

end R3000
