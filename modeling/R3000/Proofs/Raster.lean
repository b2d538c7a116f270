import Mathlib
import R3000.Raster

/-!
# Batches of scanlines

Nine batches are a frame, whenever they are served.  A deadline is the one before it and the length of the
batch that follows, so the deadlines advance by whole frames; only a batch served after the next one was due
moves them.
-/

namespace R3000

namespace Raster

/-! ### Lengths -/

/-- The cycle at which the batch after `k` others is due: a frame is 263 lines of 2152 cycles, in batches of 32
lines. -/
def due (start k : Nat) : Nat := start + 2152 * (263 * ((k + 1) / 9) + 32 * ((k + 1) % 9))

/-- The scanlines of the batch after `k` others. -/
def lines (k : Nat) : Nat := if k % 9 = 8 then 7 else 32

/-- The cycles of the shortest batch. -/
def slack : Nat := 7 * 2152

lemma due_succ (start k : Nat) :
    due start (k + 1) = due start k + 2152 * batchFrom (32 * ((k + 1) % 9)) := by
  simp only [due, batchFrom, frameScanlines, batchScanlines]
  omega

lemma due_mono (start : Nat) : Monotone (due start) := by
  apply monotone_nat_of_le_succ
  intro k
  rw [due_succ]
  exact Nat.le_add_right ..

/-- A frame later the same batch is due 263 lines later. -/
lemma due_frames (start k n : Nat) : due start (k + 9 * n) = due start k + 2152 * 263 * n := by
  simp only [due]
  omega

lemma lines_eq (k : Nat) : lines k = batchFrom (32 * (k % 9)) := by
  simp only [lines, batchFrom, frameScanlines, batchScanlines]
  split <;> omega

lemma slack_le_batch (k : Nat) : slack ≤ 2152 * batchFrom (32 * (k % 9)) := by
  simp only [slack, batchFrom, frameScanlines, batchScanlines]
  omega

lemma toNat_batchCycles (scanline : Nat) : (batchCycles scanline).toNat = 2152 * batchFrom scanline := by
  have hle : batchFrom scanline ≤ 32 := min_le_right ..
  have hlines : (batchFrom scanline).toUInt64.toNat = batchFrom scanline :=
    UInt64.toNat_ofNat_of_lt' (hle.trans_lt (by decide))
  rw [batchCycles, UInt64.toNat_mul, hlines]
  change batchFrom scanline * 2152 % 2 ^ 64 = _
  omega

variable {start frames k : Nat} {r : Raster}

/-! ### One batch -/

/-- The scanline after the batch under way. -/
def nextScanline (r : Raster) : Nat := if r.endsFrame then 0 else r.scanline + batchFrom r.scanline

/-- The running sum at the end of the batch that follows the one under way. -/
def sum (r : Raster) : Nat := r.deadline.toNat + 2152 * batchFrom r.nextScanline

/-- The place of the beam after `k` batches since a start. -/
structure Place (frames k : Nat) (r : Raster) : Prop where
  scanline : r.scanline = 32 * (k % 9)
  frames : r.frames = frames + k / 9

namespace Place

lemma endsFrame_iff (h : r.Place frames k) : r.endsFrame = true ↔ 9 ∣ k + 1 := by
  simp only [endsFrame, batchFrom, frameScanlines, batchScanlines, h.scanline, decide_eq_true_eq]
  omega

lemma nextScanline (h : r.Place frames k) : r.nextScanline = 32 * ((k + 1) % 9) := by
  simp only [Raster.nextScanline, h.endsFrame_iff, h.scanline, batchFrom, frameScanlines, batchScanlines]
  split <;> omega

lemma sum (h : r.Place frames k) : r.sum = r.deadline.toNat + 2152 * lines (k + 1) := by
  rw [Raster.sum, h.nextScanline, lines_eq]

lemma advance (h : r.Place frames k) (now : UInt64) : (r.advance now).Place frames (k + 1) where
  scanline := h.nextScanline
  frames := by
    change (if r.endsFrame then r.frames + 1 else r.frames) = _
    simp only [h.endsFrame_iff, h.frames]
    split <;> omega

end Place

lemma toNat_deadline_advance (r : Raster) (now : UInt64) (hsum : r.sum < 2 ^ 64)
    (hnow : r.sum ≤ now.toNat → now.toNat + 1 < 2 ^ 64) :
    (r.advance now).deadline.toNat = if r.sum ≤ now.toNat then now.toNat + 1 else r.sum := by
  have hword : (r.deadline + batchCycles r.nextScanline).toNat = r.sum := by
    rw [UInt64.toNat_add, toNat_batchCycles]
    exact Nat.mod_eq_of_lt hsum
  change (if r.deadline + batchCycles r.nextScanline ≤ now then now + 1
    else r.deadline + batchCycles r.nextScanline).toNat = _
  simp only [UInt64.le_iff_toNat_le, hword]
  split
  · rename_i hlate
    rw [UInt64.toNat_add]
    exact Nat.mod_eq_of_lt (hnow hlate)
  · exact hword

/-- What the batch after `k` others does when it is served at a cycle. -/
structure Batch (frames k : Nat) (now : UInt64) (r s : Raster) : Prop where
  endsFrame : r.endsFrame = true ↔ 9 ∣ k + 1
  scanline : s.scanline = 32 * ((k + 1) % 9)
  frames : s.frames = frames + (k + 1) / 9
  ahead : now < s.deadline
  deadline : s.deadline.toNat =
    if r.deadline.toNat + 2152 * lines (k + 1) ≤ now.toNat then now.toNat + 1
    else r.deadline.toNat + 2152 * lines (k + 1)

lemma Place.batch (h : r.Place frames k) {now : UInt64} (hsum : r.sum < 2 ^ 64)
    (hnow : r.sum ≤ now.toNat → now.toNat + 1 < 2 ^ 64) : Batch frames k now r (r.advance now) := by
  have hnext := h.advance now
  have hdeadline := toNat_deadline_advance r now hsum hnow
  refine ⟨h.endsFrame_iff, hnext.scanline, hnext.frames, ?_, h.sum ▸ hdeadline⟩
  rw [UInt64.lt_iff_toNat_lt, hdeadline]
  split <;> omega

/-! ### Batches served in time -/

/-- The raster after `k` batches since it was started. -/
structure After (start frames k : Nat) (r : Raster) : Prop where
  deadline : r.deadline.toNat = due start k
  scanline : r.scanline = 32 * (k % 9)
  frames : r.frames = frames + k / 9

lemma After.place (h : r.After start frames k) : r.Place frames k := ⟨h.scanline, h.frames⟩

lemma after_start (r : Raster) (now : UInt64) (hfits : due now.toNat 0 < 2 ^ 64) :
    (r.start now).After now.toNat r.frames 0 where
  deadline := by
    have hdue : due now.toNat 0 = now.toNat + 68864 := rfl
    have hcycles : (batchCycles 0).toNat = 68864 := toNat_batchCycles 0
    change (now + batchCycles 0).toNat = _
    rw [UInt64.toNat_add, hcycles, hdue]
    omega
  scanline := rfl
  frames := rfl

/-- A batch served less than the slack late leaves the deadlines where they would have been. -/
lemma After.advance (h : r.After start frames k) {now : UInt64} (hlate : now.toNat < r.deadline.toNat + slack)
    (hfits : due start (k + 1) < 2 ^ 64) :
    (r.advance now).After start frames (k + 1) ∧ now < (r.advance now).deadline := by
  have hsum : r.sum = due start (k + 1) := by
    rw [h.place.sum, h.deadline, due_succ, lines_eq]
  have hnext : now.toNat < r.sum := by
    have hbatch := slack_le_batch (k + 1)
    rw [h.place.sum, lines_eq]
    omega
  have hdone := h.place.batch (hsum ▸ hfits) fun hle => absurd hle (not_le.mpr hnext)
  have hdeadline := hdone.deadline
  rw [← h.place.sum, if_neg (not_le.mpr hnext), hsum] at hdeadline
  exact ⟨⟨hdeadline, hdone.scanline, hdone.frames⟩, hdone.ahead⟩

/-! ### Batches served at any cycle -/

/-- Serves a batch at each of some cycles. -/
def serve (r : Raster) (ts : List UInt64) : Raster := ts.foldl advance r

/-- No deadline of a run is too large for a word. -/
def Fits : Raster → List UInt64 → Prop
  | _, [] => True
  | r, t :: ts => r.sum < 2 ^ 64 ∧ (r.sum ≤ t.toNat → t.toNat + 1 < 2 ^ 64) ∧ (r.advance t).Fits ts

instance instDecidableFits : (r : Raster) → (ts : List UInt64) → Decidable (r.Fits ts)
  | _, [] => inferInstanceAs (Decidable True)
  | r, t :: ts =>
    have := instDecidableFits (r.advance t) ts
    inferInstanceAs (Decidable (_ ∧ _ ∧ _))

variable {ts : List UInt64}

lemma serve_take_succ (r : Raster) (hk : k < ts.length) :
    r.serve (ts.take (k + 1)) = (r.serve (ts.take k)).advance ts[k] := by
  rw [serve, List.take_add_one, List.getElem?_eq_getElem hk, List.foldl_append]
  rfl

lemma Place.serve (h : r.Place frames k) (ts : List UInt64) : (r.serve ts).Place frames (k + ts.length) := by
  induction ts generalizing r k with
  | nil => exact h
  | cons t ts ih =>
    have hrest := ih (h.advance t)
    rwa [Nat.add_right_comm] at hrest

/-- The place before the batch after `k` others of a run. -/
lemma Place.serve_take (h : r.Place frames 0) (hk : k ≤ ts.length) : (r.serve (ts.take k)).Place frames k := by
  have hserved := h.serve (ts.take k)
  rwa [List.length_take_of_le hk, Nat.zero_add] at hserved

/-- Every batch of a run fits if the whole run does. -/
lemma Fits.getElem (h : r.Fits ts) (hk : k < ts.length) :
    (r.serve (ts.take k)).sum < 2 ^ 64 ∧
      ((r.serve (ts.take k)).sum ≤ ts[k].toNat → ts[k].toNat + 1 < 2 ^ 64) := by
  induction ts generalizing r k with
  | nil => exact absurd hk (Nat.not_lt_zero k)
  | cons t ts ih =>
    obtain ⟨hsum, hnow, hrest⟩ := h
    cases k with
    | zero => exact ⟨hsum, hnow⟩
    | succ k => exact ih hrest (Nat.lt_of_succ_lt_succ hk)

/-- The batches after `i` others and up to `j` are served before the ones that follow them are due. -/
def InTime (r : Raster) (ts : List UInt64) (i j : Nat) : Prop :=
  ∀ k (hk : k < ts.length), i ≤ k → k < j →
    ts[k].toNat < (r.serve (ts.take k)).deadline.toNat + 2152 * lines (k + 1)

/-- Over batches served in time the deadlines advance as they would from any other start. -/
lemma deadline_of_inTime (h : r.Place frames 0) (hfits : r.Fits ts) (start : Nat) {i j : Nat} (hij : i ≤ j)
    (hj : j ≤ ts.length) (htime : r.InTime ts i j) :
    (r.serve (ts.take j)).deadline.toNat + due start i = (r.serve (ts.take i)).deadline.toNat + due start j := by
  induction j, hij using Nat.le_induction with
  | base => rfl
  | succ j hij ih =>
    have hkept := ih (Nat.le_of_succ_le hj) fun k hk hik hkj => htime k hk hik (Nat.lt_succ_of_lt hkj)
    obtain ⟨hsum, hnow⟩ := hfits.getElem hj
    have hnext := ((h.serve_take (Nat.le_of_succ_le hj)).batch hsum hnow).deadline
    rw [if_neg (not_le.mpr (htime j hj hij (Nat.lt_succ_self j)))] at hnext
    rw [serve_take_succ r hj, hnext, due_succ, ← lines_eq]
    omega

/-- Whenever the batches of a run are served, every ninth ends a frame and the deadlines are a running sum, from
which only a batch that is served after the next one was due departs.  Between two such batches the deadlines
advance by the lines alone, by 263 lines a frame. -/
theorem batches_lawful (r : Raster) (start : UInt64) (ts : List UInt64)
    (hstart : start.toNat + 2152 * lines 0 < 2 ^ 64) (hfits : (r.start start).Fits ts) :
    (r.start start).deadline.toNat = start.toNat + 2152 * lines 0 ∧
      (∀ (i : Nat) (hi : i < ts.length), Batch r.frames i ts[i] ((r.start start).serve (ts.take i))
        ((r.start start).serve (ts.take (i + 1)))) ∧
      (∀ i j, i ≤ j → j ≤ ts.length → (r.start start).InTime ts i j →
        ((r.start start).serve (ts.take j)).deadline.toNat + due 0 i =
          ((r.start start).serve (ts.take i)).deadline.toNat + due 0 j) ∧
      ∀ i n, i + 9 * n ≤ ts.length → (r.start start).InTime ts i (i + 9 * n) →
        ((r.start start).serve (ts.take (i + 9 * n))).deadline.toNat =
          ((r.start start).serve (ts.take i)).deadline.toNat + 2152 * 263 * n := by
  have hafter := after_start r start hstart
  refine ⟨hafter.deadline, ?_, ?_, ?_⟩
  · intro i hi
    obtain ⟨hsum, hnow⟩ := hfits.getElem hi
    rw [serve_take_succ _ hi]
    exact (hafter.place.serve_take hi.le).batch hsum hnow
  · intro i j hij hj htime
    exact deadline_of_inTime hafter.place hfits 0 hij hj htime
  · intro i n hn htime
    have hkept := deadline_of_inTime hafter.place hfits 0 (Nat.le_add_right i (9 * n)) hn htime
    rw [due_frames] at hkept
    omega

/-- Of eleven batches the third is served long after the next one was due; the others are in time. -/
theorem batches_lawful_late :
    let r := ofStandard .pal
    let ts : List UInt64 :=
      [69864, 138730, 500000, 500001, 568870, 637730, 706600, 775500, 844400, 913500, 930000]
    (r.start 1000).Fits ts ∧ (r.start 1000).InTime ts 0 2 ∧ ¬(r.start 1000).InTime ts 2 3 ∧
      (r.start 1000).InTime ts 3 11 ∧
        ∀ (i : Nat) (hi : i < ts.length), Batch 0 i ts[i] ((r.start 1000).serve (ts.take i))
          ((r.start 1000).serve (ts.take (i + 1))) := by
  intro r ts
  have hfits : (r.start 1000).Fits ts := by decide
  refine ⟨hfits, ?_, ?_, ?_, (batches_lawful r 1000 ts (by decide) hfits).2.1⟩
  · intro k hk hik hkj
    interval_cases k <;> decide +revert
  · intro h
    exact absurd (h 2 (by decide) le_rfl (by decide)) (by decide)
  · intro k hk hik hkj
    interval_cases k <;> decide +revert

end Raster

end R3000
