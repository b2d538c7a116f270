import Mathlib
import R3000.Proofs.Memory.Rom

/-!
# Writes from outside

What owns a memory writes it as running code does, with stores, or by copying bytes into main memory.  A copy
looks at every page that it reaches into, so like a store it leaves each marked page in the queue or as it was.
-/

namespace R3000

namespace Memory

variable {m m' : Memory} {p : Page}

lemma isCode_touch_self (m : Memory) (p : Page) : (m.touch p).isCode p = false := by
  rw [touch]
  split
  · simp [isCode]
  · rename_i hnot
    exact Bool.not_eq_true _ ▸ hnot

lemma isCode_touch_of_not (h : m.isCode p = false) (q : Page) : (m.touch q).isCode p = false := by
  rw [touch]
  split
  · by_cases hq : q = p
    · simp [isCode, hq]
    · have hne : q.val ≠ p.val := fun heq => hq (Fin.ext heq)
      simpa [isCode, Vector.getElem_set_ne, hne] using h
  · exact h

/-- Touching pages one after the other is watched, and takes the mark of each. -/
lemma watched_touches (cond : Page → Prop) [DecidablePred cond] (pages : List Page) (m : Memory) :
    let touched := pages.foldl (fun m p => if cond p then m.touch p else m) m
    m.Watched touched ∧ (∀ p ∈ pages, cond p → touched.isCode p = false) ∧
      ∀ p, m.isCode p = false → touched.isCode p = false := by
  induction pages generalizing m with
  | nil => exact ⟨.refl m, by simp, fun _ => id⟩
  | cons q pages ih =>
    have hfirst : m.Watched (if cond q then m.touch q else m) ∧
        (cond q → (if cond q then m.touch q else m).isCode q = false) ∧
        ∀ p, m.isCode p = false → (if cond q then m.touch q else m).isCode p = false := by
      split
      · exact ⟨watched_touch m q, fun _ => isCode_touch_self m q, fun p hp => isCode_touch_of_not hp q⟩
      · rename_i hnot
        exact ⟨.refl m, fun hq => absurd hq hnot, fun _ => id⟩
    obtain ⟨hwatched, hall, hkept⟩ := ih (if cond q then m.touch q else m)
    refine ⟨hfirst.1.trans hwatched, fun p hp hcond => ?_, fun p hp => hkept p (hfirst.2.2 p hp)⟩
    rcases List.mem_cons.mp hp with rfl | hp
    · exact hkept p (hfirst.2.1 hcond)
    · exact hall p hp hcond

/-- A copy takes the mark of each page that it reaches into. -/
lemma touched_loadRam (m : Memory) (offset : UInt32) (data : ByteArray) :
    let start := min offset.toNat (4 * ramWords)
    Watched { m with ram := m.ram.blit start data } (m.loadRam offset data) ∧
      ∀ p : Page, start / pageBytes ≤ p → p.val * pageBytes < min (start + data.size) (4 * ramWords) →
        (m.loadRam offset data).isCode p = false := by
  intro start
  obtain ⟨hwatched, htouched, -⟩ := watched_touches
    (fun p : Page => start / pageBytes ≤ p ∧ p.val * pageBytes < min (start + data.size) (4 * ramWords))
    (List.finRange ramPages) { m with ram := m.ram.blit start data }
  exact ⟨hwatched, fun p hfirst hlast => htouched p (List.mem_finRange p) ⟨hfirst, hlast⟩⟩

/-- A marked page that a copy stores a byte in joins the queue. -/
lemma mem_dirty_loadRam {offset : UInt32} {data : ByteArray} (hp : m.isCode p) {j : Nat} (hfrom : offset.toNat ≤ j)
    (hto : j < min (offset.toNat + data.size) (4 * ramWords)) (hj : j / pageBytes = p) :
    p ∈ (m.loadRam offset data).dirty := by
  obtain ⟨hwatched, htouched⟩ := m.touched_loadRam offset data
  refine (hwatched.page p hp).resolve_right fun ⟨hcode, _⟩ => ?_
  rw [pageBytes] at hj
  rw [htouched p (by rw [pageBytes]; omega) (by rw [pageBytes]; omega)] at hcode
  cases hcode

/-- A copy is seen by the pages that it reaches into. -/
lemma watched_loadRam (m : Memory) (offset : UInt32) (data : ByteArray) : m.Watched (m.loadRam offset data) := by
  obtain ⟨hwatched, -⟩ := m.touched_loadRam offset data
  refine ⟨hwatched.bios, hwatched.dirty, fun p hp => ?_⟩
  by_cases hreached : ∃ j, (offset.toNat ≤ j ∧ j < min (offset.toNat + data.size) (4 * ramWords)) ∧ j / pageBytes = p
  · obtain ⟨j, ⟨hfrom, hto⟩, hj⟩ := hreached
    exact .inl (mem_dirty_loadRam hp hfrom hto hj)
  · refine (hwatched.page p hp).imp_right fun ⟨hcode, hsame⟩ => ⟨hcode, fun j hj => (hsame j hj).trans ?_⟩
    refine (Bank.byte_blit ..).trans (if_neg fun hbetween => hreached ⟨j, ?_, hj⟩)
    omega

/-- A memory written from outside. -/
inductive Edited (m : Memory) : Memory → Prop
  | refl : Edited m m
  | loadRam {m' : Memory} (offset : UInt32) (data : ByteArray) : Edited m m' → Edited m (m'.loadRam offset data)
  | store {m' : Memory} {σ : Type} (window : Window σ) (isolated : Bool) (addr v : UInt32) (w : Width) (s : σ) :
    Edited m m' → Edited m (m'.store window isolated addr v w s).1

/-- Writes from outside are seen by the pages that they go to. -/
theorem Edited.watched (h : m.Edited m') : m.Watched m' := by
  induction h with
  | refl => exact .refl m
  | loadRam offset data _ ih => exact ih.trans (watched_loadRam _ offset data)
  | store window isolated addr v w s _ ih => exact ih.trans (watched_store _ window isolated addr v w s)

end Memory

end R3000
