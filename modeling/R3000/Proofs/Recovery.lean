import Mathlib
import R3000.Proofs.Links.Graph
import R3000.Proofs.Memory.Fetch

/-!
# Recovery from full stores

A flush gives every link word, all space for code and every place of the cache back, so the block that did not fit
before fits after it: no block has more than two exits, and the slot of the first block is free.  Hence an address is
always resolved, with one retry at most, and fails only if the words there make no block.  The one thing that a flush
cannot mend is a source that finds no fault with the program and gives no word all the same.
-/

namespace R3000

variable {β : Type}

/-! ### Room in the code store -/

namespace CodeStore

variable {s s' s'' : CodeStore β}

/-- The stores have the same sizes. -/
structure SameRoom (s s' : CodeStore β) : Prop where
  code : s'.codeCapacity = s.codeCapacity
  links : s'.linkCapacity = s.linkCapacity
  native : s'.native = s.native

lemma SameRoom.refl (s : CodeStore β) : s.SameRoom s := ⟨rfl, rfl, rfl⟩

lemma SameRoom.trans (h : s.SameRoom s') (h' : s'.SameRoom s'') : s.SameRoom s'' :=
  ⟨h'.code.trans h.code, h'.links.trans h.links, h'.native.trans h.native⟩

lemma SameRoom.fitsStubs (h : s.SameRoom s') (hs : s.FitsStubs) : s'.FitsStubs := by
  rwa [FitsStubs, h.native, h.code]

/-- Once it is flushed, the store has room for the stubs, and beside these for any block of limited length with its
exits. -/
structure Roomy (cap : UInt32) (s : CodeStore β) : Prop where
  stubs : s.FitsStubs
  code : ∀ b : Block, b.plan.length ≤ (max cap 1).toNat + 1 → s.native.stubs + s.native.block b ≤ s.codeCapacity
  links : 2 ≤ s.linkCapacity

lemma SameRoom.roomy {cap : UInt32} (h : s.SameRoom s') (hs : s.Roomy cap) : s'.Roomy cap where
  stubs := h.fitsStubs hs.stubs
  code b hb := by
    rw [h.native, h.code]
    exact hs.code b hb
  links := h.links ▸ hs.links

/-- The stores have the same sizes and are in the same generation: only the words and the counts differ. -/
structure SameFrame (s s' : CodeStore β) : Prop extends SameRoom s s' where
  margin : s'.flushMargin = s.flushMargin
  generation : s'.generation = s.generation

lemma SameFrame.refl (s : CodeStore β) : s.SameFrame s := ⟨.refl s, rfl, rfl⟩

lemma SameFrame.trans (h : s.SameFrame s') (h' : s'.SameFrame s'') : s.SameFrame s'' where
  toSameRoom := h.toSameRoom.trans h'.toSameRoom
  margin := h'.margin.trans h.margin
  generation := h'.generation.trans h.generation

lemma sameFrame_patchAll (s : CodeStore β) (links : List Link) (w : LinkWord β) :
    s.SameFrame (Linker.patchAll s links w) := by
  induction links generalizing s with
  | nil => exact .refl s
  | cons link links ih =>
    have hpatch : s.SameFrame (s.patch link.site w) := ⟨⟨rfl, rfl, rfl⟩, rfl, rfl⟩
    exact hpatch.trans (ih _)

lemma sameFrame_linkExits (c : Cache β) (owner : UInt32) (exits : List Exit) (l : Linker) (s : CodeStore β) :
    s.SameFrame (Recompiler.linkExits c owner exits (l, s)).2 := by
  induction exits generalizing l s with
  | nil => exact .refl s
  | cons x exits ih =>
    rw [Recompiler.linkExits]
    refine SameFrame.trans ?_ (ih _ _)
    rw [Linker.linkExit]
    dsimp only
    split <;> exact ⟨⟨rfl, rfl, rfl⟩, rfl, rfl⟩

lemma sameFrame_allocExits (targets : List UInt32) (s : CodeStore β) :
    s.SameFrame (Translator.allocExits targets s).2 := by
  obtain ⟨words, stats, hstore⟩ := Translator.allocExits_store targets s
  rw [hstore]
  exact ⟨⟨rfl, rfl, rfl⟩, rfl, rfl⟩

lemma sameFrame_define {bytes : Nat} (h : s.define bytes = .ok s') : s.SameFrame s' := by
  obtain ⟨-, rfl⟩ := define_eq_ok_iff.mp h
  exact ⟨⟨rfl, rfl, rfl⟩, rfl, rfl⟩

end CodeStore

lemma length_eraseDups_le (l : List UInt32) : l.eraseDups.length ≤ l.length := by
  match l with
  | [] => simp
  | a :: l =>
    have hfilter : (l.filter fun b => !b == a).length ≤ l.length := List.length_filter_le ..
    rw [List.eraseDups_cons, List.length_cons, List.length_cons]
    exact Nat.succ_le_succ ((length_eraseDups_le _).trans hfilter)
termination_by l.length
decreasing_by exact Nat.lt_succ_of_le hfilter

/-- A block has at most two direct exits. -/
lemma Plan.length_directTargets_le (p : Plan) (unlinked : List UInt32) :
    (p.directTargets unlinked).length ≤ 2 := by
  have hleaves : p.leaves.length ≤ 2 := by
    rw [leaves]
    split
    · simp
    · simp
    · simp
    · split <;> simp
  exact (length_eraseDups_le _).trans ((List.length_filter_le ..).trans hleaves)

/-! ### Publishing -/

namespace Recompiler

variable {τ : Type} {T : Translator τ β} {source : Source} {pc : UInt32} {r r' : Recompiler τ β}
variable {fallback : Bool} {unlinked : List UInt32} {b b' : Recompiler TranslatorStats Block}

/-- Whether a store was full. -/
def PublishError.isFull : PublishError → Bool
  | .cache _ | .translate (.store _) => true
  | .translate _ => false

/-- A recompiler without a block and with every link word to give. -/
structure Flushed (r : Recompiler τ β) : Prop where
  words : r.store.words = #[]
  used : r.store.used = r.store.native.stubs
  cache : ∃ c : Cache β, r.cache = c.clear

/-- Once it is flushed, there is room for any block. -/
def Roomy (r : Recompiler τ β) : Prop := r.store.Roomy r.maxBlock

lemma Roomy.of_frame (h : r.Roomy) (hstore : r.store.SameRoom r'.store) (hmax : r'.maxBlock = r.maxBlock) :
    r'.Roomy := by
  rw [Roomy, hmax]
  exact hstore.roomy h

/-- With space for the stubs a flush works. -/
lemma exists_flush (hstubs : r.store.FitsStubs) : ∃ r', r.flush = .ok r' :=
  ⟨_, flush_eq_ok_iff.mpr ⟨hstubs, rfl⟩⟩

/-- What a flush leaves, in stores of the sizes they had. -/
lemma flushed_of_flush (h : r.flush = .ok r') :
    r'.Flushed ∧ r.store.SameRoom r'.store ∧ r'.stats.flushes = r.stats.flushes + 1 := by
  obtain ⟨-, rfl⟩ := eq_of_flush h
  exact ⟨⟨rfl, Nat.zero_add _, r.cache, rfl⟩, ⟨rfl, rfl, rfl⟩, rfl⟩

/-- Publishing a planned block works, or the words make no block, or a store is full. -/
lemma publish_standard (fallback : Bool) (unlinked : List UInt32) (source : Source) (pc : UInt32)
    (b : Recompiler TranslatorStats Block) :
    (∃ e b', b.publish (.standard fallback unlinked) source pc = (.ok e, b')) ∨
      (∃ err, Plan.ofSource source fallback pc (max b.maxBlock 1) = .error err ∧
        b.publish (.standard fallback unlinked) source pc = (.error (.translate err), b)) ∨
      ∃ err b', err.isFull = true ∧ b.publish (.standard fallback unlinked) source pc = (.error err, b') := by
  rw [publish]
  have hplanned := Translator.planned_standard fallback unlinked source pc (max b.maxBlock 1) b.translator b.store
  generalize (Translator.standard fallback unlinked).translate source pc (max b.maxBlock 1) b.translator b.store = t
    at hplanned ⊢
  cases hplanned with
  | refused hplan => exact .inr (.inl ⟨_, hplan, rfl⟩)
  | noLinks | noSpace => exact .inr (.inr ⟨_, _, rfl, rfl⟩)
  | made =>
    dsimp only
    split
    · exact .inr (.inr ⟨_, _, rfl, rfl⟩)
    · exact .inl ⟨_, _, rfl⟩

/-- A cleared cache takes every block. -/
lemma exists_insert_clear (c : Cache β) (e : Entry β) : ∃ c', c.clear.insert e = .ok c' := by
  have hempty : c.clear.resident (c.clear.slot e.pc) = none := by
    rw [Cache.resident, Cache.clear]
    dsimp only
    rw [Vector.getElem?_replicate]
    split <;> rfl
  rw [Cache.insert]
  dsimp only
  rw [hempty]
  exact ⟨_, rfl⟩

/-- After a flush no store is full. -/
lemma Flushed.publish (h : b.Flushed) (hroom : b.Roomy) (fallback : Bool) (unlinked : List UInt32)
    (source : Source) (pc : UInt32) :
    (∃ e b', b.publish (.standard fallback unlinked) source pc = (.ok e, b')) ∨
      ∃ err, Plan.ofSource source fallback pc (max b.maxBlock 1) = .error err ∧
        b.publish (.standard fallback unlinked) source pc = (.error (.translate err), b) := by
  obtain ⟨c, hcache⟩ := h.cache
  cases hplan : Plan.ofSource source fallback pc (max b.maxBlock 1) with
  | error err =>
    refine .inr ⟨err, rfl, ?_⟩
    simp only [Recompiler.publish, Translator.standard, hplan]
  | ok plan =>
    have hwords : b.store.words.size + (plan.directTargets unlinked).length ≤ b.store.linkCapacity := by
      rw [h.words]
      have hle := (plan.length_directTargets_le unlinked).trans hroom.links
      simpa using hle
    obtain ⟨exits, store, halloc⟩ := Translator.exists_allocExits hwords
    obtain ⟨store', hdefine⟩ : ∃ store', store.define (store.native.block ⟨plan, exits⟩) = .ok store' := by
      obtain ⟨words, stats, hstore⟩ := Translator.allocExits_store (plan.directTargets unlinked) b.store
      rw [halloc] at hstore
      obtain rfl : store = _ := hstore
      have hlen := Plan.length_le_of_cap hplan
      have hone : 1 ≤ (max b.maxBlock 1).toNat := by
        rw [UInt32.toNat_max]
        exact Nat.le_max_right ..
      refine ⟨_, CodeStore.define_eq_ok_iff.mpr ⟨?_, rfl⟩⟩
      change b.store.used + b.store.native.block ⟨plan, exits⟩ ≤ b.store.codeCapacity
      rw [h.used]
      exact hroom.code ⟨plan, exits⟩ (by dsimp only; omega)
    have htranslate : ((Translator.standard fallback unlinked).translate source pc (max b.maxBlock 1)
        b.translator b.store).result = .ok ⟨⟨plan, exits⟩, plan.sourceLen, plan.cycles, plan.idle, exits⟩ := by
      simp only [Translator.standard, hplan, halloc, hdefine]
    obtain ⟨cache, hinsert⟩ := exists_insert_clear c
      (Translation.entry ⟨⟨plan, exits⟩, plan.sourceLen, plan.cycles, plan.idle, exits⟩ pc)
    rw [← hcache] at hinsert
    obtain ⟨b', hpublish⟩ := exists_publish htranslate hinsert
    exact .inl ⟨_, b', hpublish⟩

lemma sameFrame_translate (fallback : Bool) (unlinked : List UInt32) (source : Source) (pc cap : UInt32)
    (s : TranslatorStats) (store : CodeStore Block) :
    store.SameFrame ((Translator.standard fallback unlinked).translate source pc cap s store).store := by
  have hplanned := Translator.planned_standard fallback unlinked source pc cap s store
  generalize (Translator.standard fallback unlinked).translate source pc cap s store = x at hplanned ⊢
  have halloc : ∀ {plan : Plan} {exits store'},
      Translator.allocExits (plan.directTargets unlinked) store = (exits, store') → store.SameFrame store' := by
    intro plan exits store' halloc
    have hframe := CodeStore.sameFrame_allocExits (plan.directTargets unlinked) store
    rwa [halloc] at hframe
  cases hplanned with
  | refused => exact .refl store
  | noLinks _ hexits => exact halloc hexits
  | noSpace _ hexits => exact halloc hexits
  | made _ hexits hdefine => exact (halloc hexits).trans (CodeStore.sameFrame_define hdefine)

/-- What the translator made of the store, a publication only patches. -/
lemma sameFrame_publish {x : Except PublishError (Entry β)} (h : r.publish T source pc = (x, r')) :
    (T.translate source pc (max r.maxBlock 1) r.translator r.store).store.SameFrame r'.store := by
  cases x with
  | error err =>
    obtain rfl := publish_eq_error h
    exact .refl _
  | ok e =>
    obtain ⟨t, cache, -, -, -, rfl⟩ := publish_eq_ok h
    refine (CodeStore.sameFrame_linkExits cache pc t.exits r.linker _).trans ?_
    obtain ⟨hroom, hmargin, hgeneration⟩ := CodeStore.sameFrame_patchAll (β := β) _ _ _
    exact ⟨⟨hroom.code, hroom.links, hroom.native⟩, hmargin, hgeneration⟩

/-- Publishing changes no size, and flushes nothing. -/
lemma publish_frame {x : Except PublishError (Entry Block)}
    (h : b.publish (.standard fallback unlinked) source pc = (x, b')) :
    b.store.SameFrame b'.store ∧ b'.maxBlock = b.maxBlock ∧ b'.stats.flushes = b.stats.flushes := by
  have htranslate := sameFrame_translate fallback unlinked source pc (max b.maxBlock 1) b.translator b.store
  have hstore := htranslate.trans (sameFrame_publish h)
  cases x with
  | error err =>
    obtain rfl := publish_eq_error h
    exact ⟨hstore, rfl, rfl⟩
  | ok e =>
    obtain ⟨t, cache, -, -, -, rfl⟩ := publish_eq_ok h
    exact ⟨hstore, rfl, rfl⟩

/-! ### Resolving -/

/-- An answer that came from publishing, after a number of retries.  A retry follows a full store and a
flush; the answer is a block or the fault of the program. -/
inductive Tried (T : Translator τ β) (source : Source) (pc : UInt32) :
    (retries : Nat) → Recompiler τ β → Resolved β → Recompiler τ β → Prop
  | compiled {r r' : Recompiler τ β} {e : Entry β} :
    r.publish T source pc = (.ok e, r') → Tried T source pc 0 r (.compiled e) r'
  | failed {r r' : Recompiler τ β} {err : TranslateError} :
    r.publish T source pc = (.error (.translate err), r') → err.isGuestFault = true →
      Tried T source pc 0 r (.failed err) r'.countFailure
  | retry {n : Nat} {r r₁ r₂ r' : Recompiler τ β} {err : PublishError} {a : Resolved β} :
    r.publish T source pc = (.error err, r₁) → err.isFull = true → r₁.flush = .ok r₂ →
      Tried T source pc n r₂ a r' → Tried T source pc (n + 1) r a r'

/-- An answer to a lookup: a block of the cache, or what came from publishing, with at most one retry, and
without one if the stores had to be flushed first. -/
inductive Answered (T : Translator τ β) (source : Source) (pc : UInt32) (r : Recompiler τ β) :
    Resolved β → Recompiler τ β → Prop
  | hit {e : Entry β} {cache : Cache β} : r.cache.getCounted pc = (some e, cache) →
    Answered T source pc r (.hit e) { r with cache, stats.cacheHits := r.stats.cacheHits + 1 }
  | tried {n : Nat} {cache : Cache β} {a : Resolved β} {r' : Recompiler τ β} :
    r.cache.getCounted pc = (none, cache) → r.store.needsFlush = false → n ≤ 1 →
      Tried T source pc n { r with cache } a r' → Answered T source pc r a r'
  | flushed {cache : Cache β} {r₁ r' : Recompiler τ β} {a : Resolved β} :
    r.cache.getCounted pc = (none, cache) → r.store.needsFlush = true → flush { r with cache } = .ok r₁ →
      Tried T source pc 0 r₁ a r' → Answered T source pc r a r'

/-- Each retry is one flush. -/
lemma Tried.flushes {n : Nat} {a : Resolved Block} (h : Tried (.standard fallback unlinked) source pc n b a b') :
    b'.stats.flushes = b.stats.flushes + n := by
  induction h with
  | compiled hpublish => exact (publish_frame hpublish).2.2
  | failed hpublish => exact (publish_frame hpublish).2.2
  | @retry n r r₁ r₂ r' err a hpublish _ hflush _ ih =>
    rw [ih, (flushed_of_flush hflush).2.2, (publish_frame hpublish).2.2]
    omega

lemma Answered.flushes {a : Resolved Block} (h : Answered (.standard fallback unlinked) source pc b a b') :
    b'.stats.flushes ≤ b.stats.flushes + 1 := by
  cases h with
  | hit => exact Nat.le_succ _
  | tried _ _ hn htried => exact htried.flushes.trans_le (Nat.add_le_add_left hn _)
  | flushed _ _ hflush htried => exact (htried.flushes.trans (flushed_of_flush hflush).2.2).le

/-- An address fails only if the words there make no block. -/
lemma Tried.plan_eq_error {n : Nat} {a : Resolved Block}
    (h : Tried (.standard fallback unlinked) source pc n b a b') {err : TranslateError} (ha : a = .failed err) :
    Plan.ofSource source fallback pc (max b.maxBlock 1) = .error err ∧ err.isGuestFault = true := by
  induction h with
  | compiled => cases ha
  | @failed r r' err' hpublish hfault =>
    cases ha
    rcases publish_standard fallback unlinked source pc r with
      ⟨e, r₁, heq⟩ | ⟨e, hplan, heq⟩ | ⟨full, r₁, hfull, heq⟩
    · cases hpublish.symm.trans heq
    · obtain ⟨hresult, -⟩ := Prod.mk.inj (hpublish.symm.trans heq)
      cases hresult
      exact ⟨hplan, hfault⟩
    · obtain ⟨hresult, -⟩ := Prod.mk.inj (hpublish.symm.trans heq)
      cases hresult
      cases err <;> simp [PublishError.isFull, TranslateError.isGuestFault] at hfull hfault
  | @retry n r r₁ r₂ r' full a hpublish _ hflush _ ih =>
    have hmax : r₂.maxBlock = r.maxBlock := by
      rw [(flush_eq_ok hflush).2.2.2, (publish_frame hpublish).2.1]
    rw [← hmax]
    exact ih ha

lemma Answered.plan_eq_error {a : Resolved Block}
    (h : Answered (.standard fallback unlinked) source pc b a b') {err : TranslateError} (ha : a = .failed err) :
    Plan.ofSource source fallback pc (max b.maxBlock 1) = .error err ∧ err.isGuestFault = true := by
  cases h with
  | hit => cases ha
  | tried _ _ _ htried => exact htried.plan_eq_error ha
  | @flushed cache b₁ _ _ _ _ hflush htried =>
    have hmax : b₁.maxBlock = b.maxBlock := (flush_eq_ok hflush).2.2.2
    rw [← hmax]
    exact htried.plan_eq_error ha

lemma Roomy.flush (h : r.Roomy) (hflush : r.flush = .ok r') : r'.Roomy :=
  h.of_frame (flushed_of_flush hflush).2.1 (flush_eq_ok hflush).2.2.2

lemma Roomy.publish (h : b.Roomy) {x : Except PublishError (Entry Block)}
    (hpublish : b.publish (.standard fallback unlinked) source pc = (x, b')) : b'.Roomy :=
  h.of_frame (publish_frame hpublish).1.toSameRoom (publish_frame hpublish).2.1

lemma isGuestFault_of_sound (h : source.Sound pc) {cap : UInt32} {err : TranslateError}
    (hplan : Plan.ofSource source fallback pc cap = .error err) : err.isGuestFault = true :=
  (Plan.isGuestFault_of_ofSource hplan).elim (h err) id

/-- In stores just flushed a publication is the last one. -/
lemma Flushed.publishLast (h : b.Flushed) (hroom : b.Roomy) (fallback : Bool)
    (unlinked : List UInt32) (hsource : source.Sound pc) :
    ∃ a b', b.publishLast (.standard fallback unlinked) source pc = (.ok a, b') ∧
      b.publishOrFlush (.standard fallback unlinked) source pc = (.ok a, b') ∧
        Tried (.standard fallback unlinked) source pc 0 b a b' := by
  rw [Recompiler.publishLast, Recompiler.publishOrFlush]
  rcases h.publish hroom fallback unlinked source pc with ⟨e, b', hpublish⟩ | ⟨err, hplan, hpublish⟩
  · rw [hpublish]
    exact ⟨.compiled e, b', rfl, rfl, .compiled hpublish⟩
  · rw [hpublish]
    have hfault := isGuestFault_of_sound hsource hplan
    dsimp only
    rw [if_pos hfault, if_pos hfault]
    exact ⟨.failed err, b.countFailure, rfl, rfl, .failed hpublish hfault⟩

/-- Without a flush before, a publication needs one retry at most. -/
lemma publishOrFlush_standard (hroom : b.Roomy) (fallback : Bool) (unlinked : List UInt32)
    (hsource : source.Sound pc) :
    ∃ a b', b.publishOrFlush (.standard fallback unlinked) source pc = (.ok a, b') ∧
      ∃ n ≤ 1, Tried (.standard fallback unlinked) source pc n b a b' := by
  rcases publish_standard fallback unlinked source pc b with
    ⟨e, b', hpublish⟩ | ⟨err, hplan, hpublish⟩ | ⟨err, b₁, hfull, hpublish⟩
  · refine ⟨.compiled e, b', ?_, 0, Nat.zero_le _, .compiled hpublish⟩
    rw [publishOrFlush, hpublish]
  · have hfault := isGuestFault_of_sound hsource hplan
    refine ⟨.failed err, b.countFailure, ?_, 0, Nat.zero_le _, .failed hpublish hfault⟩
    rw [publishOrFlush, hpublish]
    exact if_pos hfault
  · -- a store is full: what is flushed has room
    have hroom₁ := hroom.publish hpublish
    obtain ⟨b₂, hflush⟩ := exists_flush hroom₁.stubs
    obtain ⟨a, b', hlast, -, htried⟩ :=
      (flushed_of_flush hflush).1.publishLast (hroom₁.flush hflush) fallback unlinked hsource
    refine ⟨a, b', ?_, 1, le_rfl, .retry hpublish hfull hflush htried⟩
    have hthen : b₁.flushThen (Recompiler.publishLast (.standard fallback unlinked) source pc) = (.ok a, b') := by
      rw [flushThen, hflush]
      exact hlast
    rw [publishOrFlush, hpublish]
    cases err with
    | cache err => exact hthen
    | translate err =>
      cases err with
      | store err => exact hthen
      | _ => cases hfull

/-- With room for one block every address is resolved from a sound source. -/
lemma resolve_of_roomy (hroom : b.Roomy) (fallback : Bool) (unlinked : List UInt32)
    (hsource : source.Sound pc) :
    ∃ a b', b.resolve (.standard fallback unlinked) source pc = (.ok a, b') ∧
      Answered (.standard fallback unlinked) source pc b a b' := by
  rw [resolve]
  obtain ⟨found, cache, hcounted⟩ : ∃ found cache, b.cache.getCounted pc = (found, cache) := ⟨_, _, rfl⟩
  rw [hcounted]
  cases found with
  | some e => exact ⟨.hit e, _, rfl, .hit hcounted⟩
  | none =>
    dsimp only
    split
    · rename_i hneeds
      obtain ⟨b₁, hflush⟩ := exists_flush (r := { b with cache }) hroom.stubs
      have hroom₁ : b₁.Roomy := Roomy.flush (r := { b with cache }) hroom hflush
      obtain ⟨a, b', -, hpublish, htried⟩ :=
        (flushed_of_flush hflush).1.publishLast hroom₁ fallback unlinked hsource
      refine ⟨a, b', ?_, .flushed hcounted hneeds hflush htried⟩
      rw [flushThen, hflush]
      exact hpublish
    · rename_i hneeds
      obtain ⟨a, b', hpublish, n, hn, htried⟩ :=
        publishOrFlush_standard (b := { b with cache }) hroom fallback unlinked hsource
      exact ⟨a, b', hpublish, .tried hcounted (by simpa using hneeds) hn htried⟩

/-! ### What is reached -/

/-- A recompiler that comes from another by commands and by forgetting what was counted. -/
inductive Becomes (T : Translator τ β) (r₀ : Recompiler τ β) : Recompiler τ β → Prop
  | start : Becomes T r₀ r₀
  | perform {r : Recompiler τ β} (cmd : Command) : Becomes T r₀ r → Becomes T r₀ (perform T r cmd)
  | resetStats {r : Recompiler τ β} : Becomes T r₀ r → Becomes T r₀ (r.resetStats T)

lemma Becomes.run {r₀ : Recompiler τ β} (h : Becomes T r₀ r) (cmds : List Command) :
    Becomes T r₀ (run T cmds r) := by
  induction cmds generalizing r with
  | nil => exact h
  | cons cmd cmds ih => exact ih (h.perform cmd)

/-- Whatever becomes of a recompiler, notes could have been kept. -/
lemma Becomes.exists_notes {σ : Type} {f : σ → τ} {T' : Translator σ β} (hT : Translator.Notes f T' T)
    (s₀ : Recompiler σ β) (h : Becomes T (s₀.mapState f) r) : ∃ s, Becomes T' s₀ s ∧ s.mapState f = r := by
  induction h with
  | start => exact ⟨s₀, .start, rfl⟩
  | perform cmd _ ih =>
    obtain ⟨s, hs, rfl⟩ := ih
    exact ⟨_, hs.perform cmd, (perform_mapState hT s cmd).symm⟩
  | resetStats _ ih =>
    obtain ⟨s, hs, rfl⟩ := ih
    exact ⟨_, hs.resetStats, (resetStats_mapState s hT).symm⟩

lemma sameFrame_invalidate (r : Recompiler τ β) (start len : UInt32) :
    r.store.SameFrame (r.invalidate start len).2.store := by
  rw [invalidate]
  split
  · exact .refl r.store
  · dsimp only
    split
    · exact .refl r.store
    · exact CodeStore.sameFrame_patchAll ..

lemma keeps_roomy (fallback : Bool) (unlinked : List UInt32) (source : Source) (pc : UInt32) :
    Keeps (.standard fallback unlinked) source pc Roomy fun _ => Roomy where
  count _ _ _ _ h := h
  flush _ _ h hflush := h.flush hflush
  publish _ _ _ h _ hpublish := h.publish hpublish
  fail _ _ _ h _ hpublish := h.publish hpublish

lemma Roomy.invalidate (h : r.Roomy) (start len : UInt32) : (r.invalidate start len).2.Roomy :=
  h.of_frame (sameFrame_invalidate r start len).toSameRoom (invalidate_frame r start len).2

lemma Roomy.perform (h : b.Roomy) (fallback : Bool) (unlinked : List UInt32) (cmd : Command) :
    (perform (.standard fallback unlinked) b cmd).Roomy := by
  cases cmd with
  | resolve source pc => exact (keeps_roomy fallback unlinked source pc).resolve_snd h
  | invalidate start len => exact h.invalidate start len
  | refineIdle pc idle => exact h
  | flush =>
    rw [Recompiler.perform]
    split
    · rename_i r hflush
      exact h.flush hflush
    · exact h

/-- A new recompiler has room if it has two link words, and space for any block. -/
lemma roomy_create {limits : Limits} {s : τ} (h : create s limits = .ok r) (hlinks : 2 ≤ limits.linkCapacity)
    (hcode : limits.CodeFits) : r.Roomy := by
  obtain ⟨havailable, rfl⟩ := create_eq_ok_iff.mp h
  exact ⟨havailable.code, hcode, hlinks⟩

lemma Becomes.roomy (h : Becomes (.standard fallback unlinked) b b') (hb : b.Roomy) : b'.Roomy := by
  induction h with
  | start => exact hb
  | perform cmd _ ih => exact ih.perform fallback unlinked cmd
  | resetStats _ ih => exact ih


/-! ### Every address has an answer -/

lemma publish_of_error {err : TranslateError} (herr : source pc = .error err)
    (b : Recompiler TranslatorStats Block) :
    b.publish (.standard fallback unlinked) source pc = (.error (.translate err), b) := by
  rw [publish]
  simp only [Translator.standard, Plan.ofSource_of_error herr]

/-- A source that finds no fault with the program is asked twice. -/
lemma resolve_of_error (hroom : b.Roomy) (hnone : b.cache.get? pc = none) {err : TranslateError}
    (herr : source pc = .error err) (hfault : err.isGuestFault = false) :
    ∃ b', b.resolve (.standard fallback unlinked) source pc = (.error (.translate pc err), b') ∧
      b'.stats.flushes ≤ b.stats.flushes + 2 := by
  have hretry : ∀ b : Recompiler TranslatorStats Block, b.Roomy → ∃ b',
      b.publishOrFlush (.standard fallback unlinked) source pc = (.error (.translate pc err), b') ∧
        b'.stats.flushes = b.stats.flushes + 1 := by
    intro b hroom
    obtain ⟨b', hflush⟩ := exists_flush hroom.stubs
    refine ⟨b', ?_, (flushed_of_flush hflush).2.2⟩
    rw [publishOrFlush, publish_of_error herr]
    simp [hfault, flushThen, hflush, publishLast, publish_of_error herr]
  obtain ⟨cache, hcounted⟩ : ∃ cache, b.cache.getCounted pc = (none, cache) :=
    ⟨_, Prod.ext ((b.cache.getCounted_fst pc).trans hnone) rfl⟩
  rw [resolve, hcounted]
  dsimp only
  split
  · obtain ⟨b₁, hflush⟩ := exists_flush (r := { b with cache }) hroom.stubs
    obtain ⟨b', herror, hflushes⟩ := hretry b₁ (Roomy.flush (r := { b with cache }) hroom hflush)
    refine ⟨b', by rw [flushThen, hflush]; exact herror, ?_⟩
    rw [hflushes, (flushed_of_flush hflush).2.2]
  · obtain ⟨b', herror, hflushes⟩ := hretry { b with cache } hroom
    exact ⟨b', herror, hflushes.trans_le (Nat.le_succ _)⟩

/-- Every address is resolved, from everything that a new recompiler with two link words and space for any block
becomes, with one retry at most; it fails only if the words there make no block.  No store is too small for that: not
the cache's pool, not the sites that wait, and no margin is too large.  A source that has no word for an address without
a block, and does not blame the program, ends it: its error is passed on after one retry. -/
theorem resolve_answers {limits : Limits} {s : TranslatorStats} (hlinks : 2 ≤ limits.linkCapacity)
    (hcode : limits.CodeFits) (hcreate : create s limits = .ok b) (hb : Becomes (.standard fallback unlinked) b b')
    (source : Source) (pc : UInt32) :
    ((b'.cache.get? pc).isSome ∨ source.Sound pc →
      ∃ a r, b'.resolve (.standard fallback unlinked) source pc = (.ok a, r) ∧
        Answered (.standard fallback unlinked) source pc b' a r ∧ r.stats.flushes ≤ b'.stats.flushes + 1 ∧
          ∀ err, a = .failed err →
            Plan.ofSource source fallback pc (max b'.maxBlock 1) = .error err ∧ err.isGuestFault = true) ∧
    ∀ err, b'.cache.get? pc = none → source pc = .error err → err.isGuestFault = false →
      ∃ r, b'.resolve (.standard fallback unlinked) source pc = (.error (.translate pc err), r) ∧
        r.stats.flushes ≤ b'.stats.flushes + 2 := by
  have hroom := hb.roomy (roomy_create hcreate hlinks hcode)
  refine ⟨fun hfound => ?_, fun err hnone herr hfault => resolve_of_error hroom hnone herr hfault⟩
  obtain ⟨a, r, hresolve, hanswered⟩ : ∃ a r, b'.resolve (.standard fallback unlinked) source pc = (.ok a, r) ∧
      Answered (.standard fallback unlinked) source pc b' a r := by
    rcases hfound with hsome | hsound
    · obtain ⟨e, he⟩ := Option.isSome_iff_exists.mp hsome
      have hcounted : b'.cache.getCounted pc = (some e, (b'.cache.getCounted pc).2) :=
        Prod.ext ((b'.cache.getCounted_fst pc).trans he) rfl
      exact ⟨.hit e, _, by rw [resolve, hcounted], .hit hcounted⟩
    · exact resolve_of_roomy hroom fallback unlinked hsound
  exact ⟨a, r, hresolve, hanswered, hanswered.flushes, fun err ha => hanswered.plan_eq_error ha⟩

/-- Two blocks of sixteen bytes in a space of thirty: the second is made after a flush.  Then a source gives up. -/
theorem resolve_answers_exhausted :
    let source : Source := fun pc =>
      .ok (match pc with | 0 => 0x08000004 | 0x10 => 0x08000000 | _ => 0)
    let limits : Limits :=
      { codeCapacity := 30, flushMargin := 0, cacheSlots := 2, poolNodes := 0, patchSites := 0, linkCapacity := 2
        maxBlock := 1, native := { block := fun b => 8 * b.plan.length } }
    let T := Translator.standard true []
    ∃ b b', create {} limits = .ok b ∧ b' = b.perform T (.resolve source 0) ∧ b'.store.used = 19 ∧
      (∃ a r, b'.resolve T source 0x10 = (.ok a, r) ∧ Answered T source 0x10 b' a r ∧ r.stats.flushes = 1 ∧
        r.store.used = 19) ∧
      ∃ r, b'.resolve T (fun _ => .error (.backend "lost")) 0x20 =
        (.error (.translate 0x20 (.backend "lost")), r) := by
  intro source limits T
  let b : Recompiler TranslatorStats Block := bare {} limits
  have hcreate : create {} limits = .ok b := create_eq_bare _ (by decide)
  have hcode : limits.CodeFits := by
    intro x hx
    have hbound : x.plan.length ≤ 2 := hx
    change 3 + 8 * x.plan.length ≤ 30
    omega
  have hb : Becomes T b (b.perform T (.resolve source 0)) := .perform (.resolve source 0) .start
  have hanswers := resolve_answers (by decide) hcode hcreate hb
  obtain ⟨a, r, hresolve, hanswered, -⟩ := (hanswers source 0x10).1 (.inr nofun)
  obtain ⟨r', hfailed, -⟩ := (hanswers (fun _ => .error (.backend "lost")) 0x20).2 _ (by decide +kernel) rfl rfl
  have hrun : ((b.perform T (.resolve source 0)).resolve T source 0x10).2.stats.flushes = 1 ∧
      ((b.perform T (.resolve source 0)).resolve T source 0x10).2.store.used = 19 := by
    decide +kernel
  rw [hresolve] at hrun
  exact ⟨b, _, hcreate, rfl, by decide +kernel, ⟨a, r, hresolve, hanswered, hrun⟩, r', hfailed⟩

/-- A new recompiler whose source gives up has no answer. -/
theorem resolve_abandoned :
    ∃ b : Recompiler TranslatorStats Block, create {} {} = .ok b ∧ ∃ r,
      b.resolve (.standard true []) (fun _ => .error (.backend "lost")) 0 =
        (.error (.translate 0 (.backend "lost")), r) := by
  have hcreate : create {} {} = .ok (bare {} {} : Recompiler TranslatorStats Block) := create_eq_bare _ (by decide)
  have hroom := roomy_create hcreate (by decide) (Limits.codeFits_of_plain rfl (by decide))
  let source : Source := fun _ => .error (.backend "lost")
  have hread : source 0 = .error (.backend "lost") := rfl
  obtain ⟨r, hresolve, -⟩ := @resolve_of_error source 0 true [] _ hroom (by decide +kernel) _ hread rfl
  exact ⟨_, hcreate, r, hresolve⟩

end Recompiler

end R3000
