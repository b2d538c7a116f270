import Mathlib
import R3000.Proofs.Space

/-!
# What a translation leaves behind

The link graph needs one thing of a translator: that the words it hands out are fresh and go to one exit
each.  The translator of planned blocks is such a one.  `Translator.logged` notes the exits of every
translation, for statements about translators whose code does not show them.
-/

namespace R3000

variable {τ β : Type}

/-! ### Link words of a translation -/

/-- A translator that leaves the link words alone, save that it takes new ones, which point at the stub,
and gives each direct exit one of these for itself. -/
structure Translator.Fresh (T : Translator τ β) : Prop where
  words : ∀ source pc cap s store, ∃ k,
    (T.translate source pc cap s store).store.words = store.words ++ Array.replicate k .slowPath
  nodup : ∀ source pc cap s store t, (T.translate source pc cap s store).result = .ok t →
    (t.exits.map (·.site)).Nodup
  sites : ∀ source pc cap s store t, (T.translate source pc cap s store).result = .ok t →
    ∀ x ∈ t.exits, store.words.size ≤ x.site ∧
      x.site < (T.translate source pc cap s store).store.words.size

lemma CodeStore.allocLink_eq_ok {store store' : CodeStore β} {site : Nat}
    (h : store.allocLink = .ok (site, store')) :
    site = store.words.size ∧ store'.words = store.words.push .slowPath := by
  rw [allocLink] at h
  split at h
  · obtain ⟨rfl, rfl⟩ := Prod.mk.inj (Except.ok.inj h)
    exact ⟨rfl, rfl⟩
  · simp at h

namespace Translator

/-- Words taken for some targets are new, whether or not there are enough of them. -/
lemma allocExits_words (targets : List UInt32) (store : CodeStore β) :
    ∃ k, (allocExits targets store).2.words = store.words ++ Array.replicate k .slowPath := by
  induction targets generalizing store with
  | nil => exact ⟨0, by simp [allocExits]⟩
  | cons target targets ih =>
    rw [allocExits]
    split
    · exact ⟨0, by simp⟩
    · rename_i site store' halloc
      obtain ⟨-, hpush⟩ := CodeStore.allocLink_eq_ok halloc
      obtain ⟨k, hwords⟩ := ih store'
      refine ⟨1 + k, ?_⟩
      have hrest : store'.words ++ Array.replicate k .slowPath =
          store.words ++ Array.replicate (1 + k) .slowPath := by
        rw [hpush, ← Array.replicate_append_replicate, ← Array.append_assoc]
        rfl
      split <;> rename_i heq <;> rw [heq] at hwords <;> exact hwords.trans hrest

/-- Words taken for some targets change nothing of the store but its words and what it counted. -/
lemma allocExits_store (targets : List UInt32) (store : CodeStore β) :
    ∃ words stats, (allocExits targets store).2 = { store with words, stats } := by
  induction targets generalizing store with
  | nil => exact ⟨store.words, store.stats, rfl⟩
  | cons target targets ih =>
    rw [allocExits, CodeStore.allocLink]
    by_cases hleft : store.words.size < store.linkCapacity
    · rw [if_pos hleft]
      dsimp only
      split <;> rename_i heq
      · rw [← congrArg Prod.snd heq]
        exact ih _
      · rw [← congrArg Prod.snd heq]
        exact ih _
    · rw [if_neg hleft]
      exact ⟨store.words, store.stats, rfl⟩

/-- The exits of some targets take the words in order. -/
lemma allocExits_eq_ok {targets : List UInt32} {store store' : CodeStore β} {exits : List Exit}
    (h : allocExits targets store = (.ok exits, store')) :
    exits.map (·.target) = targets ∧
      exits.map (·.site) = List.range' store.words.size targets.length ∧
        store'.words.size = store.words.size + targets.length := by
  induction targets generalizing store store' exits with
  | nil =>
    obtain ⟨rfl, rfl⟩ : [] = exits ∧ store = store' := by simpa [allocExits] using h
    exact ⟨rfl, rfl, rfl⟩
  | cons target targets ih =>
    rw [allocExits] at h
    split at h
    · simp at h
    · rename_i site store₁ halloc
      obtain ⟨rfl, hpush⟩ := CodeStore.allocLink_eq_ok halloc
      split at h
      · rename_i rest store₂ hrest
        obtain ⟨rfl, rfl⟩ : ⟨target, _⟩ :: rest = exits ∧ store₂ = store' := by simpa using h
        obtain ⟨htargets, hsites, hsize⟩ := ih hrest
        rw [hpush, Array.size_push] at hsites hsize
        refine ⟨by rw [List.map_cons, htargets], ?_, ?_⟩
        · rw [List.map_cons, hsites, List.length_cons, List.range'_succ]
        · rw [hsize, List.length_cons]
          omega
      · simp at h

/-- With enough words left every target gets one. -/
lemma exists_allocExits {targets : List UInt32} {store : CodeStore β}
    (h : store.words.size + targets.length ≤ store.linkCapacity) :
    ∃ exits store', allocExits targets store = (.ok exits, store') := by
  induction targets generalizing store with
  | nil => exact ⟨[], store, rfl⟩
  | cons target targets ih =>
    rw [List.length_cons] at h
    let store' : CodeStore β := { store with
      words := store.words.push .slowPath
      stats.linksAllocated := store.stats.linksAllocated + 1 }
    have halloc : store.allocLink = .ok (store.words.size, store') := if_pos (by omega)
    have hsize : store'.words.size = store.words.size + 1 := Array.size_push ..
    have hroom : store'.words.size + targets.length ≤ store'.linkCapacity := by
      change _ ≤ store.linkCapacity
      omega
    obtain ⟨exits, store'', hexits⟩ := ih hroom
    refine ⟨⟨target, store.words.size⟩ :: exits, store'', ?_⟩
    rw [allocExits, halloc]
    simp only [hexits]

/-- The ways in which the translation of a planned block goes. -/
inductive Planned (fallback : Bool) (unlinked : List UInt32) (source : Source) (pc cap : UInt32) (s : TranslatorStats)
    (store : CodeStore Block) : Translated TranslatorStats Block → Prop
  | refused {e : TranslateError} : Plan.ofSource source fallback pc cap = .error e →
      Planned fallback unlinked source pc cap s store ⟨.error e, s, store⟩
  | noLinks {plan : Plan} {e : StoreError} {store' : CodeStore Block} :
      Plan.ofSource source fallback pc cap = .ok plan →
      allocExits (plan.directTargets unlinked) store = (.error e, store') →
      Planned fallback unlinked source pc cap s store ⟨.error (.store e), s, store'⟩
  | noSpace {plan : Plan} {exits : List Exit} {e : StoreError} {store' : CodeStore Block} :
      Plan.ofSource source fallback pc cap = .ok plan →
      allocExits (plan.directTargets unlinked) store = (.ok exits, store') →
      store'.define (store'.native.block ⟨plan, exits⟩) = .error e →
      Planned fallback unlinked source pc cap s store ⟨.error (.store e), s, store'⟩
  | made {plan : Plan} {exits : List Exit} {store' store'' : CodeStore Block} :
      Plan.ofSource source fallback pc cap = .ok plan →
      allocExits (plan.directTargets unlinked) store = (.ok exits, store') →
      store'.define (store'.native.block ⟨plan, exits⟩) = .ok store'' →
      Planned fallback unlinked source pc cap s store
        ⟨.ok ⟨⟨plan, exits⟩, plan.sourceLen, plan.cycles, plan.idle, exits⟩, count s plan, store''⟩

lemma planned_standard (fallback : Bool) (unlinked : List UInt32) (source : Source) (pc cap : UInt32)
    (s : TranslatorStats) (store : CodeStore Block) :
    Planned fallback unlinked source pc cap s store
      ((standard fallback unlinked).translate source pc cap s store) := by
  dsimp only [standard]
  split
  · rename_i e hplan
    exact .refused hplan
  · rename_i plan hplan
    split
    · rename_i e store' halloc
      exact .noLinks hplan halloc
    · rename_i exits store' halloc
      split
      · rename_i e hfull
        exact .noSpace hplan halloc hfull
      · rename_i store'' hdefine
        exact .made hplan halloc hdefine

/-- What the translator of planned blocks gives: the plan of the words, and exits for its targets. -/
lemma standard_eq_ok {fallback : Bool} {unlinked : List UInt32} {source : Source} {pc cap : UInt32}
    {s : TranslatorStats} {store : CodeStore Block} {t : Translation Block}
    (h : ((standard fallback unlinked).translate source pc cap s store).result = .ok t) :
    Plan.ofSource source fallback pc cap = .ok t.code.plan ∧
      (allocExits (t.code.plan.directTargets unlinked) store).1 = .ok t.exits ∧
        t.code.exits = t.exits ∧ t.sourceLen = t.code.plan.sourceLen ∧
          t.cycles = t.code.plan.cycles ∧ t.idle = t.code.plan.idle := by
  have hplanned := planned_standard fallback unlinked source pc cap s store
  generalize (standard fallback unlinked).translate source pc cap s store = x at h hplanned
  cases hplanned with
  | refused | noLinks | noSpace => cases h
  | made hplan halloc hdefine =>
    obtain rfl := Except.ok.inj h
    exact ⟨hplan, congrArg Prod.fst halloc, rfl, rfl, rfl, rfl⟩

/-- The words after planning a block are those after taking words for its targets. -/
lemma standard_store (fallback : Bool) (unlinked : List UInt32) (source : Source) (pc cap : UInt32)
    (s : TranslatorStats) (store : CodeStore Block) :
    ∃ targets, ((standard fallback unlinked).translate source pc cap s store).store.words =
      (allocExits targets store).2.words ∧
        ∀ t, ((standard fallback unlinked).translate source pc cap s store).result = .ok t →
          (allocExits targets store).1 = .ok t.exits := by
  have hplanned := planned_standard fallback unlinked source pc cap s store
  generalize (standard fallback unlinked).translate source pc cap s store = x at hplanned ⊢
  cases hplanned with
  | refused => exact ⟨[], rfl, by simp⟩
  | @noLinks plan e store' hplan halloc => exact ⟨plan.directTargets unlinked, by rw [halloc], by simp⟩
  | @noSpace plan exits e store' hplan halloc => exact ⟨plan.directTargets unlinked, by rw [halloc], by simp⟩
  | @made plan exits store' store'' hplan halloc hdefine =>
    obtain ⟨-, rfl⟩ := CodeStore.define_eq_ok_iff.mp hdefine
    refine ⟨plan.directTargets unlinked, by rw [halloc], fun t ht => ?_⟩
    obtain rfl := Except.ok.inj ht
    rw [halloc]

theorem standard_fresh (fallback : Bool) (unlinked : List UInt32) :
    (standard fallback unlinked).Fresh where
  words source pc cap s store := by
    obtain ⟨targets, hwords, -⟩ := standard_store fallback unlinked source pc cap s store
    rw [hwords]
    exact allocExits_words targets store
  nodup source pc cap s store t ht := by
    obtain ⟨targets, -, halloc⟩ := standard_store fallback unlinked source pc cap s store
    obtain ⟨-, hsites, -⟩ := allocExits_eq_ok (Prod.ext (halloc t ht) rfl)
    rw [hsites]
    exact List.nodup_range'
  sites source pc cap s store t ht x hx := by
    obtain ⟨targets, hwords, halloc⟩ := standard_store fallback unlinked source pc cap s store
    obtain ⟨-, hsites, hsize⟩ := allocExits_eq_ok (Prod.ext (halloc t ht) rfl)
    have hmem : x.site ∈ List.range' store.words.size targets.length :=
      hsites ▸ List.mem_map_of_mem hx
    rw [hwords, hsize]
    exact List.mem_range'_1.mp hmem

/-! ### The log of exits -/

/-- A translator that also notes the exits of the latest translation at each address. -/
def logged (T : Translator τ β) : Translator (τ × (UInt32 → List Exit)) β where
  translate source pc cap s store :=
    let t := T.translate source pc cap s.1 store
    { result := t.result
      state := (t.state,
        match t.result with
        | .ok t => Function.update s.2 pc t.exits
        | .error _ => s.2)
      store := t.store }
  stats s := T.stats s.1
  resetStats s := (T.resetStats s.1, s.2)

lemma Fresh.logged {T : Translator τ β} (h : T.Fresh) : T.logged.Fresh where
  words source pc cap s store := h.words source pc cap s.1 store
  nodup source pc cap s store := h.nodup source pc cap s.1 store
  sites source pc cap s store := h.sites source pc cap s.1 store

lemma logged_log_of_ok {T : Translator τ β} {source : Source} {pc cap : UInt32}
    {s : τ × (UInt32 → List Exit)} {store : CodeStore β} {t : Translation β}
    (h : (T.logged.translate source pc cap s store).result = .ok t) :
    (T.logged.translate source pc cap s store).state.2 = Function.update s.2 pc t.exits := by
  dsimp only [logged] at h ⊢
  rw [h]

lemma logged_log_of_ne (T : Translator τ β) (source : Source) (cap : UInt32)
    (s : τ × (UInt32 → List Exit)) (store : CodeStore β) {pc a : UInt32} (h : a ≠ pc) :
    (T.logged.translate source pc cap s store).state.2 a = s.2 a := by
  dsimp only [logged]
  cases (T.translate source pc cap s.1 store).result with
  | ok t => exact Function.update_of_ne h ..
  | error e => rfl

end Translator

end R3000
