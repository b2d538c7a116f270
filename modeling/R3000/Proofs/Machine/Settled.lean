import Mathlib
import R3000.Proofs.Chains.Errors
import R3000.Proofs.Events.Requests
import R3000.Proofs.Machine.Calls
import R3000.Proofs.Machine.Entries
import R3000.Proofs.Machine.Precise

/-!
# The machine between blocks

Whatever program runs on a machine without devices and without hooks, register zero is zero between its blocks, the
revision is that of the part, no block runs and none has left an exception behind, and the interrupt controller holds
no bits that belong to no source.  `ErrorLog` goes through a run and writes down its address errors: the faulting
address is the one of the latest.
-/

namespace R3000

/-! ### The interrupt controller -/

/-- No bit is set above those of the sources. -/
structure Interrupts.Sourced (i : Interrupts) : Prop where
  stat : i.stat.toNat < 2 ^ 11
  mask : i.mask.toNat < 2 ^ 11

namespace Interrupts

variable {i : Interrupts}

lemma toNat_and_sources_lt (v : UInt16) : (v &&& sources).toNat < 2 ^ 11 := by
  rw [UInt16.toNat_and]
  exact Nat.and_lt_two_pow v.toNat (by decide)

namespace Sourced

lemma empty : Sourced {} := ⟨by decide, by decide⟩

/-- More sources are raised. -/
lemma raise (h : i.Sourced) {v : UInt16} (hv : v.toNat < 2 ^ 11) : Sourced { i with stat := i.stat ||| v } where
  stat := by
    rw [UInt16.toNat_or]
    exact Nat.or_lt_two_pow h.stat hv
  mask := h.mask

/-- There is no source above ten to raise. -/
lemma signal (h : i.Sourced) (number : UInt32) : (i.signal number).Sourced := by
  rw [Interrupts.signal]
  split
  · rename_i hnumber
    have hle : number.toNat ≤ 10 := UInt32.le_iff_toNat_le.mp hnumber
    have hbit : number.toUInt16.toNat % 16 = number.toNat := by
      rw [UInt32.toNat_toUInt16]
      omega
    apply h.raise
    rw [UInt16.toNat_shiftLeft, hbit, Nat.shiftLeft_eq]
    have hpow : 2 ^ number.toNat ≤ 2 ^ 10 := Nat.pow_le_pow_right (by decide) hle
    exact (Nat.mod_le _ _).trans_lt (by change 1 * _ < _; omega)
  · exact h

lemma assertLines (h : i.Sourced) (lines : UInt16) : (i.assertLines lines).Sourced :=
  h.raise (toNat_and_sources_lt lines)

/-- A write acknowledges sources, or enables no more than there are. -/
lemma write (h : i.Sourced) (addr v : UInt32) (w : Width) : (i.write addr v w).Sourced := by
  rw [Interrupts.write, writeWord]
  split
  · refine ⟨?_, h.mask⟩
    rw [UInt16.toNat_and]
    exact Nat.and_lt_two_pow _ (toNat_and_sources_lt _)
  · split
    · exact ⟨h.stat, toNat_and_sources_lt _⟩
    · exact h

end Sourced

end Interrupts

namespace Io

variable {δ : Type} {io : Io δ}

/-- A response of the devices raises sources at most. -/
lemma sourced_accept (h : io.interrupts.Sourced) (r : Response δ) : (io.accept r).interrupts.Sourced := by
  have hgrant : ∀ (io : Io δ) request, io.interrupts.Sourced → (io.grant request).interrupts.Sourced := by
    intro io request hio
    cases request with
    | schedule k deadline | cancel k =>
      rw [grant]
      split <;> exact hio
    | signal number => exact hio.signal number
  rw [accept]
  exact List.foldlRecOn (motive := fun io : Io δ => io.interrupts.Sourced) r.requests _ h
    fun io hio request _ => hgrant io request hio

end Io

lemma Hardware.keepsIo_sourced {δ : Type} (hw : Hardware δ) (now : UInt64) :
    hw.KeepsIo now fun io => io.interrupts.Sourced where
  read addr w io h := by
    dsimp only [Io.window]
    split
    · exact h
    · exact Io.sourced_accept h _
  write addr v w io h := by
    dsimp only [Io.window]
    split
    · exact h.write addr v w
    · exact Io.sourced_accept h _
  device _ _ h := h

namespace Machine

/-! ### Parts of a pass -/

section

variable {τ β δ : Type} {P : Parts τ β δ} {m m' m'' : Machine τ β δ} {error error' : Option UInt32}

/-- What is known of the machine between blocks holds of a later machine too, and the faulting address is that of the
latest address error since. -/
structure Reports (error : Option UInt32) (m m' : Machine τ β δ) : Prop where
  cpu : Cpu.Reports error m.cpu m'.cpu
  sources : m.board.io.interrupts.Sourced → m'.board.io.interrupts.Sourced

namespace Reports

lemma of_eq (hcpu : m'.cpu = m.cpu) (hinterrupts : m'.board.io.interrupts = m.board.io.interrupts) :
    Reports none m m' where
  cpu := hcpu ▸ .refl m.cpu
  sources h := hinterrupts ▸ h

lemma trans (h : Reports error m m') (h' : Reports error' m' m'') : Reports (error'.or error) m m'' :=
  ⟨h.cpu.trans h'.cpu, fun hsources => h'.sources (h.sources hsources)⟩

lemma after (h : Reports none m m') (h' : Reports error m' m'') : Reports error m m'' :=
  ⟨h.cpu.after h'.cpu, fun hsources => h'.sources (h.sources hsources)⟩

/-- A part of a pass that raises no address error adds nothing. -/
lemma quiet (h : Reports error m m') (h' : Reports none m' m'') : Reports error m m'' := h.trans h'

lemma syncInterrupts (P : Parts τ β δ) (m : Machine τ β δ) : Reports none m (m.syncInterrupts P) := by
  have hpolled : ∀ x : Machine τ β δ, x.board.io.interrupts = (m.pollLines P).board.io.interrupts →
      m.board.io.interrupts.Sourced → x.board.io.interrupts.Sourced :=
    fun x hx h => hx ▸ h.assertLines (P.hardware.poll m.cycles m.board.io.device).1
  have hline : Cpu.Reports none m.cpu (m.cpu.setInterruptLine (m.pollLines P).board.io.interrupts.pending) :=
    .put m.cpu (by decide) (by decide) _
  rw [Machine.syncInterrupts]
  dsimp only
  split
  · split
    · exact ⟨hline, hpolled _ rfl⟩
    · exact ⟨hline.trans (.enterAt _ m.cpu.pc .interrupt), hpolled _ rfl⟩
  · exact ⟨hline, hpolled _ rfl⟩

lemma respond (f : δ → Response δ) (m : Machine τ β δ) : Reports none m (m.respond f) :=
  ⟨.refl m.cpu, fun h => Io.sourced_accept h _⟩

lemma onEvent (P : Parts τ β δ) (now : UInt64) (c : Callback) (k : EventKind) (m : Machine τ β δ) :
    Reports none m (m.onEvent P now c k) := by
  dsimp only [Machine.onEvent]
  split
  · rw [onBatch]
    split
    · refine ⟨.refl m.cpu, fun h => ?_⟩
      exact Io.sourced_accept (h.signal Irq.vblank.number) _
    · exact .of_eq rfl rfl
  · exact (respond (P.hardware.onBlank now) m).quiet (.of_eq rfl rfl)
  · exact respond (P.hardware.onEvent now k) m

lemma dispatchEvents (P : Parts τ β δ) (m : Machine τ β δ) : Reports none m (m.dispatchEvents P) := by
  apply dispatchEvents_keeps
  · exact fun schedule x hx => hx.quiet (.of_eq rfl rfl)
  · exact fun now c k x hx => hx.quiet (onEvent P now c k x)
  · intro stats x hx
    have hcounted : Reports none x { x with stats } := .of_eq rfl rfl
    exact hx.quiet (hcounted.quiet (syncInterrupts P _))
  · exact .of_eq rfl rfl

lemma flushCode (h : m.flushCode = .ok m') : Reports none m m' := by
  obtain ⟨r, -, rfl⟩ := flushCode_eq_ok h
  exact .of_eq rfl rfl

lemma loadQueued (h : m.loadQueued = .ok m') : Reports none m m' := by
  obtain rfl | ⟨header, memory, hflush⟩ := loadQueued_eq_ok h
  · exact .of_eq rfl rfl
  · have hloaded : Reports none m
        { m with loaded := true, cpu := Exe.startRegisters header m.cpu, board.memory := memory } :=
      ⟨.startRegisters header m.cpu, id⟩
    exact hloaded.quiet (flushCode hflush)

/-- A look that finds no block raises a bus error, which notes no address. -/
lemma findBlock (P : Parts τ β δ) (pc : UInt32) (m : Machine τ β δ) : Reports none m (m.findBlock P pc).2 := by
  rw [Machine.findBlock]
  split
  · exact .of_eq rfl rfl
  · dsimp only
    split
    · exact .of_eq rfl rfl
    · exact .of_eq rfl rfl
    · exact .of_eq rfl rfl
    · exact ⟨.enterAt m.cpu pc .busInstruction, id⟩

lemma invalidate (m : Machine τ β δ) (addr len : UInt32) : Reports none m (m.invalidate addr len).2 := by
  rw [Machine.invalidate]
  dsimp only
  split <;> exact .of_eq rfl rfl

lemma dropDirtyCode (m : Machine τ β δ) : Reports none m m.dropDirtyCode := by
  rw [dropDirtyCode_eq]
  refine List.foldlRecOn (motive := Reports none m) m.memory.dirty.toList _ (.of_eq rfl rfl) fun x hx p _ => ?_
  have hdropped := invalidate x (p.val * pageBytes).toUInt32 pageBytes.toUInt32
  exact hx.quiet (hdropped.quiet (.of_eq rfl rfl))

lemma fastForward (e : Entry β) (deadline : UInt64) (m : Machine τ β δ) :
    Reports none m (m.fastForward e deadline).2 := by
  rw [Machine.fastForward]
  dsimp only
  split
  · exact .of_eq rfl rfl
  · split <;> exact .of_eq rfl rfl

/-- What follows the run of a block. -/
lemma afterRun (P : Parts τ β δ) (e : Entry β) (deadline : UInt64) (m : Machine τ β δ) :
    Reports none m ((m.dropDirtyCode.syncInterrupts P).fastForward e deadline).2 :=
  ((dropDirtyCode m).quiet (syncInterrupts P _)).quiet (fastForward e deadline _)

lemma misaligned (pc : UInt32) (m : Machine τ β δ) : Reports (some pc) m (m.misaligned pc) :=
  ⟨.addressError m.cpu pc .addressLoad, id⟩

/-- The devices are started at power-on, and may raise sources. -/
lemma powerOn (P : Parts τ β δ) (m : Machine τ β δ) : Reports none m (powerOn P m) where
  cpu := .refl m.cpu
  sources h := by
    have hstarted : ∀ schedule, ({ m.board.io with schedule } : Io δ).interrupts.Sourced := fun _ => h
    exact Io.sourced_accept (hstarted _) _

end Reports

end

/-! ### Passes -/

variable {δ : Type} {settings : Settings} {m m' m₀ x : Machine TranslatorStats Block δ} {e : Entry Block}
  {a : UInt32} {as : List UInt32}

/-- A pass raises an address error: no image is to be loaded, and the program counter is off its alignment, or the
chain of the block that is found comes to an instruction that raises it. -/
inductive RaisesAddressError (deadline : UInt64) (m : Machine TranslatorStats Block δ) : UInt32 → Prop
  | fetch : (!m.loaded && m.cpu.pc == m.settings.bootHook) = false → m.cpu.pc &&& 3 ≠ 0 →
    RaisesAddressError deadline m m.cpu.pc
  | access {e : Entry Block} {x : Machine TranslatorStats Block δ} {p : Point (Board δ)} {a : UInt32} :
    (!m.loaded && m.cpu.pc == m.settings.bootHook) = false → m.cpu.pc &&& 3 = 0 →
      m.findBlock (.standard (.absent δ) (.none δ)) m.cpu.pc = (.ok (some e), x) →
        x.Comes (.absent δ) e deadline p → p.errorAddress = some a → RaisesAddressError deadline m a

/-- However a chain ends, the dispatch writes no more registers that a program can read. -/
lemma files_settle (e : Entry Block) (budget : Int32) (m : Machine TranslatorStats Block δ) (r : Returned (Board δ)) :
    (m.settle e budget r).cpu.gpr = r.cpu.gpr ∧ (m.settle e budget r).cpu.cop0 = r.cpu.cop0 := by
  dsimp only [settle, chargeSpent, resumeAborted, Cpu.takeAbort]
  by_cases habort : r.cpu.blockAborted = 0
  · rw [if_pos habort]
    dsimp only
    split <;> exact ⟨rfl, rfl⟩
  · rw [if_neg habort]
    dsimp only
    split <;> exact ⟨rfl, rfl⟩

/-- A dispatch reports an address error of an instruction that its chain comes to. -/
lemma exists_reports_runBlock (e : Entry Block) (deadline : UInt64) (m : Machine TranslatorStats Block δ) :
    ∃ error, Reports error m (m.runBlock (.standard (.absent δ) (.none δ)) e deadline) ∧
      ∀ a ∈ error, ∃ p, m.Comes (.absent δ) e deadline p ∧ p.errorAddress = some a := by
  obtain ⟨error, hchain, hraised⟩ := Chain.exists_reports_run (Instr.reports_serve m.cycles) m.recompiler.store e.code
    (m.budget deadline) (m.armed (m.budget deadline)) m.board
  refine ⟨error, ⟨?_, fun hsources => ?_⟩, hraised⟩
  · have harmed : Cpu.Reports none m.cpu (m.armed (m.budget deadline)) := .of_eq rfl rfl
    rw [runBlock_eq_settle]
    exact (harmed.after hchain).congr (files_settle ..).1 (files_settle ..).2
  · rw [board_runBlock]
    exact Board.io_run (Hardware.keepsIo_sourced _ m.cycles) m.recompiler.store e.code _ _ hsources

lemma exists_reports_runPass (deadline : UInt64) (pc : UInt32) (m : Machine TranslatorStats Block δ) :
    ∃ error, Reports error m (m.runPass (.standard (.absent δ) (.none δ)) deadline pc).2 ∧
      ∀ a ∈ error, ∃ e x p, m.findBlock (.standard (.absent δ) (.none δ)) pc = (.ok (some e), x) ∧
        x.Comes (.absent δ) e deadline p ∧ p.errorAddress = some a := by
  have hfind := Reports.findBlock (.standard (.absent δ) (.none δ)) pc m
  rw [runPass]
  split <;> rename_i hfound <;> rw [hfound] at hfind
  · exact ⟨none, hfind, by simp⟩
  · exact ⟨none, hfind.quiet (.of_eq rfl rfl), by simp⟩
  · rename_i e x
    obtain ⟨error, hran, hraised⟩ := exists_reports_runBlock e deadline x
    have hforward := (hfind.after hran).quiet (.afterRun (.standard (.absent δ) (.none δ)) e deadline _)
    have hcomes : ∀ a ∈ error, ∃ e x p, m.findBlock (.standard (.absent δ) (.none δ)) pc = (.ok (some e), x) ∧
        x.Comes (.absent δ) e deadline p ∧ p.errorAddress = some a := by
      intro a ha
      obtain ⟨p, hp⟩ := hraised a ha
      exact ⟨e, x, p, hfound, hp⟩
    dsimp only
    split <;> rename_i heq <;> rw [heq] at hforward <;> exact ⟨error, hforward, hcomes⟩

/-- A pass reports an address error that it raises. -/
lemma exists_reports_pass (deadline : UInt64) (m : Machine TranslatorStats Block δ) :
    ∃ error, Reports error m (m.pass (.standard (.absent δ) (.none δ)) deadline).2 ∧
      ∀ a ∈ error, m.RaisesAddressError deadline a := by
  dsimp only [pass]
  split
  · split
    · rename_i hload
      exact ⟨none, .loadQueued hload, by simp⟩
    · exact ⟨none, .of_eq rfl rfl, by simp⟩
  · rename_i hbooted
    rw [Bool.not_eq_true] at hbooted
    rw [intercept_of_none rfl]
    dsimp only
    split
    · rename_i haligned
      obtain ⟨error, hran, hraised⟩ := exists_reports_runPass deadline m.cpu.pc m
      refine ⟨error, hran, fun a ha => ?_⟩
      obtain ⟨e, x, p, hfound, hp, herror⟩ := hraised a ha
      exact .access hbooted haligned hfound hp herror
    · rename_i haligned
      refine ⟨some m.cpu.pc, .misaligned m.cpu.pc m, fun a ha => ?_⟩
      obtain rfl := Option.some.inj ha
      exact .fetch hbooted haligned

/-- After a pass that raises an address error the faulting address is the one of the error. -/
lemma RaisesAddressError.badAddress {deadline : UInt64} (hwired : m.recompiler.Wired) (hstocked : m.recompiler.Stocked)
    (ha : m.RaisesAddressError deadline a) :
    (m.pass (.standard (.absent δ) (.none δ)) deadline).2.cpu.readCop0 Cpu.badAddress = a := by
  cases ha with
  | fetch hbooted haligned =>
    dsimp only [pass]
    rw [hbooted, intercept_of_none rfl]
    dsimp only
    rw [if_neg haligned]
    exact (Reports.misaligned m.cpu.pc m).cpu.badAddress
  | @access e x p a hbooted haligned hfound hp herror =>
    obtain ⟨f, hf, haddress⟩ := Option.bind_eq_some_iff.mp herror
    have hx := wired_findBlock (.absent δ) (.none δ) hwired m.cpu.pc
    rw [hfound] at hx
    -- the instruction is the last one of the dispatch
    have hprecise : x.Precise p f (x.runBlock (.standard (.absent δ) (.none δ)) e deadline) :=
      precise_runBlock hx (cached_findBlock hstocked.valid hfound) hp hf
    have hran := hprecise.raised.badAddress
    rw [haddress, Option.getD_some] at hran
    rw [pass_of_findBlock hbooted haligned (intercept_of_none rfl _ m) hfound]
    exact (Reports.afterRun ..).cpu.badAddress.trans hran

/-! ### Runs -/

/-- The machines that a machine can become, with the addresses of the address errors raised since power-on, the latest
first. -/
inductive ErrorLog (m₀ : Machine TranslatorStats Block δ) : List UInt32 → Machine TranslatorStats Block δ → Prop
  | start : ErrorLog m₀ [] m₀
  | raised {as : List UInt32} {m : Machine TranslatorStats Block δ} {deadline : UInt64} {a : UInt32} :
    ErrorLog m₀ as m → m.RaisesAddressError deadline a →
      ErrorLog m₀ (a :: as) (m.pass (.standard (.absent δ) (.none δ)) deadline).2
  | pass {as : List UInt32} {m : Machine TranslatorStats Block δ} {deadline : UInt64} :
    ErrorLog m₀ as m → (∀ a, ¬ m.RaisesAddressError deadline a) →
      ErrorLog m₀ as (m.pass (.standard (.absent δ) (.none δ)) deadline).2
  | events {as : List UInt32} {m : Machine TranslatorStats Block δ} :
    ErrorLog m₀ as m → ErrorLog m₀ as (m.dispatchEvents (.standard (.absent δ) (.none δ)))
  | newFrame {as : List UInt32} {m : Machine TranslatorStats Block δ} :
    ErrorLog m₀ as m → ErrorLog m₀ as { m with frameDone := false }
  | reset {as : List UInt32} {m m' : Machine TranslatorStats Block δ} :
    ErrorLog m₀ as m → m.reset (.standard (.absent δ) (.none δ)) = .ok m' → ErrorLog m₀ [] m'
  | flushCode {as : List UInt32} {m m' : Machine TranslatorStats Block δ} :
    ErrorLog m₀ as m → m.flushCode = .ok m' → ErrorLog m₀ as m'
  | invalidate {as : List UInt32} {m : Machine TranslatorStats Block δ} (addr len : UInt32) :
    ErrorLog m₀ as m → ErrorLog m₀ as (m.invalidate addr len).2
  | queue {as : List UInt32} {m : Machine TranslatorStats Block δ} (image : ByteArray) :
    ErrorLog m₀ as m → ErrorLog m₀ as (m.queue image)
  | resetStats {as : List UInt32} {m : Machine TranslatorStats Block δ} :
    ErrorLog m₀ as m → ErrorLog m₀ as (m.resetStats (.standard (.absent δ) (.none δ)))

/-- Every run has a log of its address errors. -/
lemma invariant_errorLog (m₀ : Machine TranslatorStats Block δ) :
    Invariant (.standard (.absent δ) (.none δ)) fun m => ∃ as, ErrorLog m₀ as m where
  pass m deadline h := by
    obtain ⟨as, hlog⟩ := h
    by_cases hraises : ∃ a, m.RaisesAddressError deadline a
    · obtain ⟨a, ha⟩ := hraises
      exact ⟨a :: as, hlog.raised ha⟩
    · exact ⟨as, hlog.pass (not_exists.mp hraises)⟩
  dispatchEvents m h := h.imp fun as hlog => hlog.events
  newFrame m h := h.imp fun as hlog => hlog.newFrame
  reset m m' h hreset := ⟨[], h.choose_spec.reset hreset⟩
  flushCode m m' h hflush := h.imp fun as hlog => hlog.flushCode hflush
  invalidate m addr len h := h.imp fun as hlog => hlog.invalidate addr len
  queue m image h := h.imp fun as hlog => hlog.queue image
  resetStats m h := h.imp fun as hlog => hlog.resetStats

namespace ErrorLog

/-- An invariant holds all along a log. -/
lemma holds {I : Machine TranslatorStats Block δ → Prop} (k : Invariant (.standard (.absent δ) (.none δ)) I) (h₀ : I m₀)
    (h : ErrorLog m₀ as m) : I m := by
  induction h with
  | start => exact h₀
  | raised _ _ ih | pass _ _ ih => exact k.pass _ _ ih
  | events _ ih => exact k.dispatchEvents _ ih
  | newFrame _ ih => exact k.newFrame _ ih
  | reset _ heq ih => exact k.reset _ _ ih heq
  | flushCode _ heq ih => exact k.flushCode _ _ ih heq
  | invalidate addr len _ ih => exact k.invalidate _ addr len ih
  | queue image _ ih => exact k.queue _ image ih
  | resetStats _ ih => exact k.resetStats _ ih

/-- The latest address error is the one that the processor reports since power-on. -/
theorem reports (hwired : m₀.recompiler.Wired) (hstocked : m₀.recompiler.Stocked)
    (h₀ : Cpu.Reports none .fresh m₀.cpu) (hsources : m₀.board.io.interrupts.Sourced) (h : ErrorLog m₀ as m) :
    Cpu.Reports as.head? .fresh m.cpu ∧ m.board.io.interrupts.Sourced := by
  have hquiet : ∀ {error} {m m' : Machine TranslatorStats Block δ}, Reports none m m' →
      Cpu.Reports error .fresh m.cpu ∧ m.board.io.interrupts.Sourced →
        Cpu.Reports error .fresh m'.cpu ∧ m'.board.io.interrupts.Sourced :=
    fun hkept hm => ⟨hm.1.trans hkept.cpu, hkept.sources hm.2⟩
  induction h with
  | start => exact ⟨h₀, hsources⟩
  | @raised as m deadline a hlog ha ih =>
    obtain ⟨error, hpass, -⟩ := exists_reports_pass deadline m
    have hbad := ha.badAddress (hlog.holds (codeInvariant_wired _ _).invariant hwired)
      (hlog.holds (codeInvariant_stocked _ _).invariant hstocked)
    have hraised : Cpu.Reports (some a) m.cpu (m.pass (.standard (.absent δ) (.none δ)) deadline).2.cpu :=
      ⟨hpass.cpu.zero, hpass.cpu.revision, hbad⟩
    exact ⟨ih.1.trans hraised, hpass.sources ih.2⟩
  | @pass as m deadline hlog hnone ih =>
    obtain ⟨error, hpass, hraised⟩ := exists_reports_pass deadline m
    obtain rfl : error = none := Option.eq_none_iff_forall_not_mem.mpr fun a ha => hnone a (hraised a ha)
    exact hquiet hpass ih
  | events _ ih => exact hquiet (.dispatchEvents ..) ih
  | newFrame _ ih | queue _ _ ih | resetStats _ ih => exact ih
  | reset _ hreset _ =>
    obtain ⟨flushed, hflush, rfl⟩ := reset_eq_ok hreset
    exact hquiet ((Reports.flushCode hflush).quiet (.powerOn ..)) ⟨.refl _, .empty⟩
  | flushCode _ hflush ih => exact hquiet (.flushCode hflush) ih
  | invalidate addr len _ ih => exact hquiet (.invalidate ..) ih

end ErrorLog

/-! ### Between blocks -/

/-- What holds of the machine whenever no block runs. -/
structure Settled (m : Machine TranslatorStats Block δ) : Prop where
  zero : m.cpu.gpr.get 0 = 0
  inBlock : m.cpu.inBlock = 0
  blockAborted : m.cpu.blockAborted = 0
  revision : m.cpu.readCop0 Cpu.revision = 2
  stat : m.board.io.interrupts.stat.toNat < 2 ^ 11
  mask : m.board.io.interrupts.mask.toNat < 2 ^ 11

/-- Without devices and hooks the machine is settled at every head of the dispatcher's loop, whatever the boot ROM and
the queued image hold.  The run has a log of its address errors, and the faulting address is that of the latest one
since power-on, or zero if there was none. -/
theorem atHead_settled {bios : ByteArray} {device : δ}
    (hstart : ofTranslator (.standard (.absent δ) (.none δ)) settings bios device {} = .ok m₀)
    (h : AtHead (.standard (.absent δ) (.none δ)) m₀ m) :
    m.Settled ∧ (∃ as, ErrorLog m₀ as m) ∧ ∀ as, ErrorLog m₀ as m → m.cpu.readCop0 Cpu.badAddress = as.headD 0 := by
  have hfresh : Cpu.Reports none .fresh m₀.cpu ∧ m₀.board.io.interrupts.Sourced ∧ m₀.cpu.Outside := by
    obtain ⟨r, -, rfl⟩ := ofTranslator_eq_ok hstart
    exact ⟨.refl _, (Reports.powerOn ..).sources .empty, ⟨rfl, rfl⟩⟩
  obtain ⟨hcpu, hsources, houtside⟩ := hfresh
  have hreports : ∀ as, ErrorLog m₀ as m → Cpu.Reports as.head? .fresh m.cpu ∧ m.board.io.interrupts.Sourced :=
    fun as hlog => hlog.reports (wired_ofTranslator hstart) (stocked_ofTranslator hstart) hcpu hsources
  have hout := (invariant_outside (P := .standard (.absent δ) (.none δ)) (modest_none δ)).atHead houtside h
  obtain ⟨as, hlog⟩ := (invariant_errorLog m₀).atHead ⟨[], .start⟩ h
  obtain ⟨hnow, hstat, hmask⟩ := hreports as hlog
  refine ⟨⟨?_, hout.inBlock, hout.blockAborted, ?_, hstat, hmask⟩, ⟨as, hlog⟩, fun as' hlog' => ?_⟩
  · exact hnow.zero
  · exact hnow.revision
  · rw [(hreports as' hlog').1.badAddress, List.headD_eq_head?_getD]
    rfl

/-- A boot ROM that begins with a load off its alignment. -/
def strayRom : ByteArray := ⟨#[1, 0, 1, 0x8C]⟩

/-- A new machine that begins with a load from address one is settled after it, and has logged that address. -/
theorem atHead_settled_stray :
    let P := Parts.standard (.absent Unit) (.none Unit)
    ∃ m₀ m as, ofTranslator P pollSettings strayRom () {} = .ok m₀ ∧ AtHead P m₀ m ∧ m.Settled ∧
      ErrorLog m₀ as m ∧ as.head? = some 1 ∧ m.cpu.readCop0 Cpu.badAddress = 1 := by
  intro P
  let m₀ := assemble P pollSettings strayRom () (.bare {} pollSettings.limits)
  have hstart : ofTranslator P pollSettings strayRom () {} = .ok m₀ :=
    ofTranslator_eq_bare (by decide) _ _ _
  -- the first pass translates the words of the image
  let P' := P.reading (imageSource strayRom)
  let h := (m₀.pass P' 68864).2
  have hpass : m₀.pass P 68864 = m₀.pass P' 68864 := pass_reading rfl 68864 (Memory.source_ofBios (by decide))
  have hagain : (m₀.pass P' 68864).1 = .again := by decide +kernel
  have hhead : AtHead P m₀ h := by
    refine ⟨m₀, 68864, .start, ?_⟩
    rw [show m₀.stepDeadline 68864 = 68864 by decide +kernel]
    refine .again .start (by decide +kernel) (hpass.trans ?_)
    rw [← hagain]
  have hbad : h.cpu.readCop0 Cpu.badAddress = 1 := by decide +kernel
  obtain ⟨hsettled, ⟨as, hlog⟩, hlatest⟩ := atHead_settled hstart hhead
  refine ⟨m₀, h, as, hstart, hhead, hsettled, hlog, ?_, hbad⟩
  have hone := hlatest as hlog
  rw [hbad] at hone
  cases as with
  | nil => exact absurd hone (by decide)
  | cons a as => exact congrArg some hone.symm

end Machine

end R3000
