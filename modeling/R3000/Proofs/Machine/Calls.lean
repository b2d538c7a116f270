import Mathlib
import R3000.Proofs.Machine.Slices

/-!
# Calls of the owner

The owner of a machine makes calls: steps, runs, frames, images to load.  What a call gives back is as the dispatcher
says; `blocks` tells which blocks are run on the way, in order.
-/

namespace R3000.Machine

variable {τ β δ : Type}

/-! ### Calls -/

/-- A call that the owner of a machine makes. -/
inductive Call
  | step
  | runUntil (fuel : Nat) (target : UInt64)
  | runFrame (fuel : Nat)
  | queue (image : ByteArray)

/-- What a call gives back, and the machine after it. -/
def Call.perform (P : Parts τ β δ) (m : Machine τ β δ) : Call → Run × Machine τ β δ
  | step =>
    match m.step P with
    | (some e, m) => (.failed e, m)
    | (none, m) => (.finished, m)
  | runUntil fuel target => m.runUntil P fuel target
  | runFrame fuel => m.runFrame P fuel
  | queue image => (.finished, m.queue image)

/-- Calls in order. -/
def performAll (P : Parts τ β δ) : List Call → Machine τ β δ → List Run × Machine τ β δ
  | [], m => ([], m)
  | call :: calls, m =>
    let (r, m) := call.perform P m
    let (rs, m) := performAll P calls m
    (r :: rs, m)

lemma Call.reached {P : Parts τ β δ} (m : Machine τ β δ) (call : Call) : Reached P m (call.perform P m).2 := by
  cases call with
  | step =>
    have hstep : Reached P m (m.step P).2 := Reached.start.step
    dsimp only [perform]
    split <;> rename_i heq <;> rw [heq] at hstep <;> exact hstep
  | runUntil fuel target => exact Reached.start.runUntil fuel target
  | runFrame fuel => exact Reached.start.runFrame fuel
  | queue image => exact .queue image .start

/-! ### The blocks that are run -/

/-- The address of the block that a pass runs, if it runs one. -/
def block? (P : Parts τ β δ) (m : Machine τ β δ) : Option UInt32 :=
  if !m.loaded && m.cpu.pc == m.settings.bootHook then none
  else
    match m.intercept P m.cpu.pc with
    | (true, _) => none
    | (false, x) =>
      if m.cpu.pc &&& 3 = 0 then
        match (x.findBlock P m.cpu.pc).1 with
        | .ok (some e) => some e.pc
        | _ => none
      else none

/-- The addresses of the blocks that `passes` runs. -/
def passesBlocks (P : Parts τ β δ) (deadline : UInt64) : (fuel : Nat) → Machine τ β δ → List UInt32
  | 0, _ => []
  | fuel + 1, m =>
    if m.cycles < deadline then
      (m.block? P).toList ++
        match m.pass P deadline with
        | (.again, m) => passesBlocks P deadline fuel m
        | _ => []
    else []

/-- The addresses of the blocks that a step up to a limit runs. -/
def stepBlocks (P : Parts τ β δ) (limit : UInt64) (m : Machine τ β δ) : List UInt32 :=
  m.passesBlocks P (m.stepDeadline limit) ((m.stepDeadline limit).toNat - m.cycles.toNat + 1)

/-- The addresses of the blocks that `stepWhile` runs. -/
def whileBlocks (P : Parts τ β δ) (limit : UInt64) (go : Machine τ β δ → Bool) :
    (fuel : Nat) → Machine τ β δ → List UInt32
  | 0, _ => []
  | fuel + 1, m =>
    if go m then
      m.stepBlocks P limit ++
        match m.stepUpTo P limit with
        | (some _, _) => []
        | (none, m) => whileBlocks P limit go fuel m
    else []

/-- The addresses of the blocks that a call runs. -/
def Call.blocks (P : Parts τ β δ) (m : Machine τ β δ) : Call → List UInt32
  | step => m.stepBlocks P Schedule.never
  | runUntil fuel target => m.whileBlocks P target (fun m => m.cycles < target) fuel
  | runFrame fuel => { m with frameDone := false }.whileBlocks P Schedule.never (fun m => !m.frameDone) fuel
  | queue _ => []

/-- The addresses of the blocks that calls run. -/
def blocks (P : Parts τ β δ) : List Call → Machine τ β δ → List UInt32
  | [], _ => []
  | call :: calls, m => call.blocks P m ++ blocks P calls (call.perform P m).2

/-- A pass that starts a block runs it. -/
lemma Starts.block?_eq {P : Parts τ β δ} {deadline : UInt64} {h x : Machine τ β δ} {e : Entry β}
    (hs : h.Starts P deadline e x) : h.block? P = some e.pc := by
  obtain ⟨y, hintercept, hfind⟩ := hs.found
  rw [block?, if_neg (by simpa using hs.booted), hintercept]
  dsimp only
  rw [if_pos hs.aligned, hfind]

/-! ### Invariants -/

/-- Two invariants together are one. -/
lemma Invariant.and {P : Parts τ β δ} {I J : Machine τ β δ → Prop} (k : Invariant P I) (k' : Invariant P J) :
    Invariant P fun m => I m ∧ J m where
  pass m deadline h := ⟨k.pass m deadline h.1, k'.pass m deadline h.2⟩
  dispatchEvents m h := ⟨k.dispatchEvents m h.1, k'.dispatchEvents m h.2⟩
  newFrame m h := ⟨k.newFrame m h.1, k'.newFrame m h.2⟩
  reset m m' h heq := ⟨k.reset m m' h.1 heq, k'.reset m m' h.2 heq⟩
  flushCode m m' h heq := ⟨k.flushCode m m' h.1 heq, k'.flushCode m m' h.2 heq⟩
  invalidate m addr len h := ⟨k.invalidate m addr len h.1, k'.invalidate m addr len h.2⟩
  queue m image h := ⟨k.queue m image h.1, k'.queue m image h.2⟩
  resetStats m h := ⟨k.resetStats m h.1, k'.resetStats m h.2⟩

end R3000.Machine
