import R3000.Text.Blank

/-!
# Raster timing

The beam advances in batches of scanlines.  The deadline of a batch is the running sum of the lengths of
the batches before it and not the cycle at which the last one happened to be served, so lateness does not
add up; a deadline already passed is moved to the next cycle.
-/

namespace R3000

/-- The television standard, which sets the rate of the frame blank. -/
inductive Standard
  | ntsc
  | pal
  deriving DecidableEq, Repr

/-- The text names no standard; it is kept trimmed and in lower case. -/
structure UnknownStandard where
  text : String
  deriving DecidableEq, Repr

/-- The wording of the error. -/
def UnknownStandard.message (e : UnknownStandard) : String := "unknown region '" ++ e.text ++ "'"

namespace Standard

/-- Reads a standard, with blanks around it and in any case. -/
def ofText (s : String) : Except UnknownStandard Standard :=
  match (Text.trim s).toLower with
  | "ntsc" => .ok ntsc
  | "pal" => .ok pal
  | other => .error ⟨other⟩

/-- The name of a standard. -/
def name : Standard → String
  | ntsc => "Ntsc"
  | pal => "Pal"

/-- Frame blanks in a second. -/
def refreshRate : Standard → UInt64
  | ntsc => 60
  | pal => 50

/-- Processor cycles in a second. -/
def clockRate : UInt64 := 33868800

/-- Cycles from one frame blank to the next. -/
def frameCycles (s : Standard) : UInt64 := clockRate / s.refreshRate

end Standard

/-- The place of the beam, the deadline of the next batch, and the frames completed. -/
structure Raster where
  standard : Standard
  scanline : Nat
  deadline : UInt64
  frames : Nat
  deriving DecidableEq, Repr

namespace Raster

/-- Cycles of one scanline. -/
def scanlineCycles : UInt64 := 2152

/-- Scanlines of one frame. -/
def frameScanlines : Nat := 263

/-- Scanlines of a full batch. -/
def batchScanlines : Nat := 32

/-- The raster before power-on. -/
def ofStandard (standard : Standard) : Raster where
  standard
  scanline := 0
  deadline := 0
  frames := 0

/-- Scanlines of the batch that starts at a scanline; the last batch of a frame is short. -/
def batchFrom (scanline : Nat) : Nat := min (frameScanlines - scanline) batchScanlines

/-- Cycles of the batch that starts at a scanline. -/
def batchCycles (scanline : Nat) : UInt64 := (batchFrom scanline).toUInt64 * scanlineCycles

/-- Starts at the top of the frame; frames completed stay counted. -/
def start (r : Raster) (now : UInt64) : Raster :=
  { r with scanline := 0, deadline := now + batchCycles 0 }

/-- The next frame blank after one at `now`. -/
def blankDeadline (r : Raster) (now : UInt64) : UInt64 := now + r.standard.frameCycles

/-- Whether the batch under way is the last of its frame. -/
def endsFrame (r : Raster) : Bool := frameScanlines ≤ r.scanline + batchFrom r.scanline

/-- Accounts for the batch that was served at `now`. -/
def advance (r : Raster) (now : UInt64) : Raster :=
  let scanline := if r.endsFrame then 0 else r.scanline + batchFrom r.scanline
  let ideal := r.deadline + batchCycles scanline
  { r with
    scanline
    deadline := if ideal ≤ now then now + 1 else ideal
    frames := if r.endsFrame then r.frames + 1 else r.frames }

/-- Serves a number of batches, each some cycles after its deadline, and counts the frames that end. -/
def advanceLate (late : UInt64) : (batches : Nat) → Raster → Nat × Raster
  | 0, r => (0, r)
  | batches + 1, r =>
    let (ended, s) := advanceLate late batches (r.advance (r.deadline + late))
    (if r.endsFrame then ended + 1 else ended, s)

end Raster

end R3000
