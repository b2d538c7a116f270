import Mathlib
import R3000.Serve
import R3000.Proofs.Chains.Solo

/-!
# What running code does not see

A block reaches the rest of the machine only through services.  So a change of that rest which every service
carries along, every block carries along and every chain of blocks.  Services reach the devices only through their
window and in commands of the geometry coprocessor.  Without devices the pending events, the state of the devices and
the cycle of the dispatch may be changed so: no service looks at them.
-/

namespace R3000

variable {σ σ' : Type} {host : Host σ} {host' : Host σ'} {f : σ → σ'}

/-- What a service gives back, with the rest of the machine changed. -/
def Served.map (f : σ → σ') (r : Served σ) : Served σ' := ⟨r.answer, r.cpu, f r.rest⟩

/-- The state after an instruction, with the rest of the machine changed. -/
def Executed.map (f : σ → σ') (r : Executed σ) : Executed σ' := ⟨r.stop, r.cpu, f r.rest⟩

/-- The state in which a block is left, with the rest of the machine changed. -/
def Departed.map (f : σ → σ') (d : Departed σ) : Departed σ' := ⟨d.departure, d.cpu, f d.rest⟩

/-- The state after some instructions of a block, with the rest of the machine changed. -/
def Progress.map (f : σ → σ') : Progress σ → Progress σ'
  | .running left c s => .running left c (f s)
  | .departed d => .departed (d.map f)

/-- The state in which a dispatch returns, with the rest of the machine changed. -/
def Returned.map (f : σ → σ') (r : Returned σ) : Returned σ' := ⟨r.left, r.cpu, f r.rest⟩

/-- Every service carries a change of the rest of the machine along. -/
def Host.Carries (host : Host σ) (host' : Host σ') (f : σ → σ') : Prop :=
  ∀ service x y c s, host' service x y c (f s) = (host service x y c s).map f

/-! ### Blocks -/

/-- An instruction carries along what its services do. -/
lemma Instr.exec_map (h : host.Carries host' f) (pc : UInt32) (i : Instr) (c : Cpu) (s : σ) :
    i.exec host' pc c (f s) = (i.exec host pc c s).map f := by
  have hask : ∀ service x y, host'.ask service x y pc c (f s) = (host.ask service x y pc c s).map f :=
    fun service x y => h service x y { c with currentPc := pc } s
  have hserved : ∀ service x y write, whenServed (host'.ask service x y pc c (f s)) write =
      (whenServed (host.ask service x y pc c s) write).map f := by
    intro service x y write
    rw [hask, whenServed, whenServed, Served.map]
    dsimp only
    split <;> rfl
  cases i with
  | arith op rd rs operand =>
    dsimp only [exec]
    split
    · rw [hask]
      rfl
    · rfl
  | shift | multiply | fromHi | fromLo | toHi | toLo => rfl
  | divide | rfe =>
    dsimp only [exec]
    rw [hask]
    rfl
  | load | store | mfc0 | mtc0 | cop2 | syscall | breakpoint | reserved =>
    dsimp only [exec]
    exact hserved ..

namespace Block

lemma step_map (h : host.Carries host' f) (pc : UInt32) (i : Instr) (left : Int32) (c : Cpu) (s : σ) :
    step host' pc i left c (f s) = (step host pc i left c s).map f := by
  dsimp only [step]
  rw [i.exec_map h]
  by_cases hstop : (i.exec host pc c s).stop = true
  · rw [if_pos hstop, if_pos (show ((i.exec host pc c s).map f).stop = true from hstop)]
    rfl
  · rw [if_neg hstop, if_neg (show ¬ ((i.exec host pc c s).map f).stop = true from hstop)]
    rfl

lemma steps_map (h : host.Carries host' f) (pc : UInt32) (is : List Instr) (left : Int32) (c : Cpu) (s : σ) :
    steps host' pc is left c (f s) = (steps host pc is left c s).map f := by
  induction is generalizing pc left c s with
  | nil => rfl
  | cons i is ih =>
    rw [steps, steps, step_map h]
    cases step host pc i left c s with
    | running left c s => exact ih _ _ _ s
    | departed d => rfl

lemma delay_map (h : host.Carries host' f) (pc : UInt32) (slot : Option Instr) (left : Int32) (c : Cpu) (s : σ) :
    delay host' pc slot left c (f s) = (delay host pc slot left c s).map f := by
  cases slot with
  | none => rfl
  | some i => exact step_map h pc i left c s

lemma directExit_map (exits : List Exit) (target : UInt32) (left : Int32) (c : Cpu) (s : σ) :
    directExit exits target left c (f s) = (directExit exits target left c s).map f := by
  rw [directExit, directExit]
  dsimp only
  split
  · rfl
  · split <;> rfl

lemma finish_map (h : host.Carries host' f) (exits : List Exit) (pc fallthrough : UInt32) (e : Ending)
    (left : Int32) (c : Cpu) (s : σ) :
    finish host' exits pc fallthrough e left c (f s) = (finish host exits pc fallthrough e left c s).map f := by
  have hgo : ∀ left d (s : σ), e.transfer.go exits pc fallthrough c left d (f s) =
      (e.transfer.go exits pc fallthrough c left d s).map f := by
    intro left d s
    cases e.transfer with
    | jumpReg rs link => rfl
    | jump | branch => exact directExit_map ..
  rw [finish_eq, finish_eq, delay_map h]
  cases delay host (pc + 4) e.delay (spend left 1) (e.transfer.linked pc c) s with
  | running left c s => exact hgo left c s
  | departed d => rfl

/-- A block carries along what its services do. -/
lemma enter_map (h : host.Carries host' f) (b : Block) (left : Int32) (c : Cpu) (s : σ) :
    enter host' b left c (f s) = (enter host b left c s).map f := by
  rw [enter_eq, enter_eq, interpret, interpret, steps_map h]
  cases steps host b.plan.start b.plan.body left c s with
  | departed d => rfl
  | running left c s =>
    dsimp only [Progress.map]
    split
    · exact finish_map h ..
    · split
      · rfl
      · exact directExit_map ..

end Block

/-! ### Chains -/

namespace Chain

variable {β : Type} {enter : Enter β σ} {enter' : Enter β σ'} {store store' : CodeStore β}

lemma follow_map (henter : ∀ code left c s, enter' code left c (f s) = (enter code left c s).map f)
    (hwords : store'.words = store.words) (fuel : Nat) (d : Departed σ) :
    follow enter' store' fuel (d.map f) = (follow enter store fuel d).map f := by
  induction fuel generalizing d with
  | zero =>
    rw [follow, follow, Departed.map]
    dsimp only
    split <;> rfl
  | succ fuel ih =>
    rw [follow, follow, Departed.map]
    dsimp only
    split
    · rfl
    · simp only [CodeStore.word?, hwords]
      split
      · rw [henter]
        exact ih _
      · rfl
      · rfl

/-- A chain of blocks carries along what its blocks do. -/
theorem run_map (henter : ∀ code left c s, enter' code left c (f s) = (enter code left c s).map f)
    (hwords : store'.words = store.words) (code : β) (budget : Int32) (c : Cpu) (s : σ) :
    run enter' store' code budget c (f s) = (run enter store code budget c s).map f := by
  rw [run, run, henter]
  exact follow_map henter hwords _ _

end Chain

/-! ### The device window -/

variable {δ ε : Type} {hw : Hardware δ} {hw' : Hardware ε} {now now' : UInt64} {g : Io δ → Io ε}

/-- Devices carry along a change of what stands behind their window: in accesses, and in commands of the geometry
coprocessor. -/
structure Hardware.Carries (hw : Hardware δ) (now : UInt64) (hw' : Hardware ε) (now' : UInt64) (g : Io δ → Io ε) :
    Prop where
  read : ∀ addr w io, (Io.window hw' now').read addr w (g io) =
    (((Io.window hw now).read addr w io).1, g ((Io.window hw now).read addr w io).2)
  write : ∀ addr v w io, (Io.window hw' now').write addr v w (g io) = g ((Io.window hw now).write addr v w io)
  cop2 : ∀ word c io, (hw'.cop2 word c (g io).device).1 = (hw.cop2 word c io.device).1 ∧
    { g io with device := (hw'.cop2 word c (g io).device).2 } = g { io with device := (hw.cop2 word c io.device).2 }

namespace Board

/-- The board with something else behind the device window. -/
def mapIo (g : Io δ → Io ε) (b : Board δ) : Board ε := ⟨b.memory, g b.io⟩

section

variable (h : hw.Carries now hw' now' g)

include h

lemma load_mapIo (b : Board δ) (addr : UInt32) (w : Width) :
    (b.mapIo g).load hw' now' addr w = ((b.load hw now addr w).1, (b.load hw now addr w).2.mapIo g) := by
  dsimp only [load, Memory.load, mapIo]
  split
  case h_4 => rw [h.read]
  all_goals rfl

lemma store_mapIo (b : Board δ) (isolated : Bool) (addr v : UInt32) (w : Width) :
    (b.mapIo g).store hw' now' isolated addr v w = (b.store hw now isolated addr v w).mapIo g := by
  dsimp only [store, Memory.store, mapIo]
  split
  · split
    case h_3 => rw [h.write]
    all_goals rfl
  · rfl

/-- What the device window carries along, every service does. -/
theorem carries_serve : (serve hw now).Carries (serve hw' now') (mapIo g) := by
  have hload : ∀ w addr c (b : Board δ), serveLoad hw' now' w addr c (b.mapIo g) =
      (serveLoad hw now w addr c b).map (mapIo g) := by
    intro w addr c b
    rw [serveLoad, serveLoad, load_mapIo h]
    split <;> rfl
  have hstore : ∀ w addr v c (b : Board δ), serveStore hw' now' w addr v c (b.mapIo g) =
      (serveStore hw now w addr v c b).map (mapIo g) := by
    intro w addr v c b
    rw [serveStore, serveStore, store_mapIo h]
    split <;> rfl
  intro service x y c b
  cases service with
  | loadByte | loadHalf | loadWord => exact hload ..
  | storeByte | storeHalf | storeWord => exact hstore ..
  | loadWordLeft | loadWordRight =>
    dsimp only [serve, serveMerge]
    rw [load_mapIo h]
    rfl
  | storeWordLeft | storeWordRight =>
    dsimp only [serve, serveMergedStore]
    rw [load_mapIo h]
    dsimp only
    rw [store_mapIo h]
    rfl
  | cop2 =>
    dsimp only [serve]
    rw [serveCop2, serveCop2]
    split
    · split
      · split
        · rfl
        · obtain ⟨hcpu, hio⟩ := h.cop2 (x &&& 0x01FFFFFF) c b.io
          exact congrArg₂ (fun (c : Cpu) (io : Io ε) => (⟨0, c, ⟨b.memory, io⟩⟩ : Served (Board ε))) hcpu hio
      · rw [serveCop2Load, serveCop2Load]
        dsimp only
        rw [load_mapIo h]
        split <;> rfl
      · exact hstore _ _ _ _ b
      · rfl
    · rfl
  | mfc0 | mtc0 | rfe | syscall | breakpoint | divide | divideUnsigned | overflow | reserved => rfl

/-- What the device window carries along, a chain of blocks does. -/
theorem run_mapIo {store store' : CodeStore Block} (hwords : store'.words = store.words) (code : Block)
    (budget : Int32) (c : Cpu) (b : Board δ) :
    Chain.run (Block.enter (serve hw' now')) store' code budget c (b.mapIo g) =
      (Chain.run (Block.enter (serve hw now)) store code budget c b).map (mapIo g) :=
  Chain.run_map (Block.enter_map (carries_serve h)) hwords code budget c b

end

/-! ### Boards without devices -/

variable (schedule : Schedule) (device : δ)

/-- The board with other pending events and another state of the devices. -/
def beside (b : Board δ) : Board δ := { b with io.schedule := schedule, io.device := device }

/-- Without devices the window does not look at the pending events, the state of the devices and the cycle. -/
lemma carries_beside (now now' : UInt64) :
    (Hardware.absent δ).Carries now (.absent δ) now' fun io => { io with schedule, device } where
  read addr w io := by
    dsimp only [Io.window]
    split <;> rfl
  write addr v w io := by
    dsimp only [Io.window]
    split <;> rfl
  cop2 _ _ _ := ⟨rfl, rfl⟩

/-- Without devices a chain of blocks does the same at any cycle, whatever is pending. -/
theorem run_beside {store store' : CodeStore Block} (hwords : store'.words = store.words) (now now' : UInt64)
    (code : Block) (budget : Int32) (c : Cpu) (b : Board δ) :
    Chain.run (Block.enter (serve (.absent δ) now')) store' code budget c (b.beside schedule device) =
      (Chain.run (Block.enter (serve (.absent δ) now)) store code budget c b).map (beside schedule device) :=
  run_mapIo (carries_beside schedule device now now') hwords code budget c b

end Board

end R3000
