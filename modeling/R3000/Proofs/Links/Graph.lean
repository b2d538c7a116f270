import Mathlib
import R3000.Proofs.Creation
import R3000.Proofs.Links.Refusals
import R3000.Proofs.Notes

/-!
# The link graph of a recompiler

Each part of what a recompiler does keeps the link graph, whatever translator it works with, as long as
that takes fresh link words.  `run_linkGraph` says so for whole runs, of which the refusals are noted: every word
of a cached block is the right one, unless its site was refused by a full list.
-/

namespace R3000

variable {τ β : Type} {T : Translator τ β} {ex : UInt32 → List Exit} {todo : Nat} {source : Source}
  {pc : UInt32}

namespace Recompiler

variable {r r' : Recompiler τ β}

/-- The link graph of a recompiler between commands, with `todo` exits that are neither on record nor
counted as dropped. -/
def IsLinked (ex : UInt32 → List Exit) (todo : Nat) (r : Recompiler τ β) : Prop :=
  Linked ex none todo r.cache r.linker r.store

/-! ### Parts of a command -/

/-- A translation whose block has entered the cache, with its exits and the sites that wait for it
linked. -/
lemma IsLinked.published (hT : T.Fresh) (h : r.IsLinked ex todo) (hnone : r.cache.get? pc = none)
    {cap : UInt32} {t : Translation β} {c : Cache β}
    (ht : (T.translate source pc cap r.translator r.store).result = .ok t)
    (hinsert : r.cache.insert (t.entry pc) = .ok c) :
    let s := linkExits c pc t.exits (r.linker, (T.translate source pc cap r.translator r.store).store)
    Linked (Function.update ex pc t.exits) none todo c (s.1.apply s.2 pc t.code).2.1
      (s.1.apply s.2 pc t.code).2.2.refresh := by
  intro s
  obtain ⟨k, hwords⟩ := hT.words source pc cap r.translator r.store
  have hnodup := hT.nodup source pc cap r.translator r.store t ht
  have hsites := hT.sites source pc cap r.translator r.store t ht
  have hget : c.get? pc = some (t.entry pc) := by
    rw [h.valid.get?_insert hinsert]
    exact Function.update_self ..
  have hstart := Linked.insert (e := t.entry pc) h hnone hinsert hwords hnodup hsites
  have hnew : ∀ x ∈ t.exits, x.site ∉ r.linker.sites := by
    intro x hx hmem
    obtain ⟨k, hk, hsite⟩ := List.mem_map.mp hmem
    obtain ⟨w, hw⟩ := h.word?_of_record hk
    exact absurd (hsite ▸ CodeStore.lt_size_of_word? hw) (not_lt.mpr (hsites x hx).1)
  have hpc : (c.get? pc).isSome := by rw [hget]; rfl
  have hexits := Linked.linkExits hpc hstart
    (fun x hx => by rwa [show (t.entry pc).pc = pc from rfl, Function.update_self]) hnodup hnew
  exact (hexits.apply hget).mono_store fun _ _ hword => hword

/-- A block that is published has the exits of its translation. -/
lemma IsLinked.publish (hT : T.Fresh) (h : r.IsLinked ex todo) (hnone : r.cache.get? pc = none) {e : Entry β}
    (hpublish : r.publish T source pc = (.ok e, r')) :
    ∃ t, (T.translate source pc (max r.maxBlock 1) r.translator r.store).result = .ok t ∧
      r'.translator = (T.translate source pc (max r.maxBlock 1) r.translator r.store).state ∧
        r'.linker.capacity = r.linker.capacity ∧ r'.IsLinked (Function.update ex pc t.exits) todo := by
  obtain ⟨t, cache, ht, rfl, hinsert, rfl⟩ := publish_eq_ok hpublish
  exact ⟨t, ht, rfl, linkExits_capacity .., h.published hT hnone ht hinsert⟩

/-- A failed publication leaves the graph. -/
lemma IsLinked.publish_error (hT : T.Fresh) (h : r.IsLinked ex todo) {err : PublishError}
    (hpublish : r.publish T source pc = (.error err, r')) : r'.IsLinked ex todo := by
  obtain rfl := publish_eq_error hpublish
  obtain ⟨k, hwords⟩ := hT.words source pc (max r.maxBlock 1) r.translator r.store
  exact h.mono_store fun i w => CodeStore.word?_of_old hwords

/-- A flush leaves no block and no site. -/
lemma isLinked_flush (hflush : r.flush = .ok r') : r'.IsLinked ex todo := by
  obtain ⟨hcache, hlinker, -⟩ := flush_eq_ok hflush
  obtain ⟨hvalid, hnil⟩ := Cache.valid_clear r.cache
  refine Linked.of_empty (hcache ▸ hvalid) (hcache ▸ hnil) ?_ ?_ <;> rw [hlinker] <;> rfl

/-- Removing the blocks of a range. -/
lemma IsLinked.invalidate (h : r.IsLinked ex todo) (start len : UInt32) :
    (r.invalidate start len).2.IsLinked ex todo := by
  rw [Recompiler.invalidate]
  split
  · exact h
  · dsimp only
    set p : Entry β → Bool := (·.overlaps start (saturatingAdd start len))
    have hfst := h.valid.eraseWhere_fst p
    split
    · rename_i cache heq
      rw [heq] at hfst
      have hcache : r.cache = cache := by
        have hsnd := congrArg Prod.snd heq
        rw [Cache.eraseWhere, ← hfst] at hsnd
        exact hsnd
      rw [← hcache]
      exact h
    · rename_i removed cache _ heq
      rw [heq] at hfst
      have hcache : (r.cache.eraseAll (removed.map (·.pc))).2 = cache := by
        have hsnd := congrArg Prod.snd heq
        rw [Cache.eraseWhere, ← hfst] at hsnd
        exact hsnd
      have hkept := Linked.eraseAll h (removed.map (·.pc))
      rw [hcache] at hkept
      exact hkept

lemma capacity_invalidate (r : Recompiler τ β) (start len : UInt32) :
    (r.invalidate start len).2.linker.capacity = r.linker.capacity := by
  rw [Recompiler.invalidate]
  split
  · rfl
  · dsimp only
    split
    · rfl
    · exact Linker.capacity_severed r.linker _ r.store

/-- Noting how a block waits. -/
lemma IsLinked.refineIdle (h : r.IsLinked ex todo) (pc : UInt32) (idle : Idle) :
    (r.refineIdle pc idle).2.IsLinked ex todo := by
  refine h.congr_cache (h.valid.valid_setIdle pc idle) fun a => ?_
  change ((r.cache.setIdle pc idle).2.get? a).map (·.code) = _
  rw [h.valid.get?_setIdle, Function.update_apply]
  split
  · rename_i ha
    rw [ha, Option.map_map]
    rfl
  · rfl

/-- Counters are no part of the graph. -/
lemma IsLinked.with_stats (h : r.IsLinked ex todo) (cacheStats : CacheStats) (stats : RecompilerStats) :
    { r with cache.stats := cacheStats, stats }.IsLinked ex todo :=
  h.congr_cache (h.valid.with_stats cacheStats) fun _ => rfl

/-- Counters set to zero may leave exits uncounted. -/
lemma IsLinked.resetStats (h : r.IsLinked ex todo) (T : Translator τ β) :
    (r.resetStats T).IsLinked ex (todo + r.linker.stats.dropped) where
  valid := h.valid.with_stats {}
  bounded := h.bounded
  recorded_once := h.recorded_once
  owned := h.owned
  waiting := h.waiting
  reached := h.reached
  unrecorded := h.unrecorded
  distinct := h.distinct
  counted := by
    have hcount := h.counted
    change _ ≤ r.linker.records.length + 0 + (todo + r.linker.stats.dropped)
    refine hcount.trans ?_
    omega

/-! ### Runs of commands -/

/-- What can be asked of a recompiler. -/
inductive Command
  | resolve (source : Source) (pc : UInt32)
  /-- Removes the blocks made from a range. -/
  | invalidate (start len : UInt32)
  | refineIdle (pc : UInt32) (idle : Idle)
  | flush

/-- The recompiler after a command. -/
def perform (T : Translator τ β) (r : Recompiler τ β) : Command → Recompiler τ β
  | .resolve source pc => (r.resolve T source pc).2
  | .invalidate start len => (r.invalidate start len).2
  | .refineIdle pc idle => (r.refineIdle pc idle).2
  | .flush =>
    match r.flush with
    | .ok r => r
    | .error _ => r

/-- The recompiler after some commands. -/
def run (T : Translator τ β) (cmds : List Command) (r : Recompiler τ β) : Recompiler τ β :=
  cmds.foldl (perform T) r

/-- The recompiler with an empty log of exits beside its translator's state. -/
def withLog (r : Recompiler τ β) : Recompiler (τ × (UInt32 → List Exit)) β :=
  { r with translator := (r.translator, fun _ => []) }

/-- The recompiler without its log. -/
def withoutLog (r : Recompiler (τ × (UInt32 → List Exit)) β) : Recompiler τ β :=
  { r with translator := r.translator.1 }

/-- The exits of the latest translation at each address in a run. -/
def exitLog (T : Translator τ β) (cmds : List Command) (r : Recompiler τ β) : UInt32 → List Exit :=
  (run T.logged cmds r.withLog).translator.2

/-- Whether everything was flushed on the way from one recompiler to another. -/
def Flushes (r r' : Recompiler τ β) : Prop := r.stats.flushes < r'.stats.flushes

instance (r r' : Recompiler τ β) : Decidable (r.Flushes r') := Nat.decLt ..

/-- The links that are refused when the blocks of a range go. -/
def refusedCuts (r : Recompiler τ β) (start len : UInt32) : List Refusal :=
  if len = 0 then []
  else
    let gone := (r.cache.eraseWhere (·.overlaps start (saturatingAdd start len))).1.map (·.pc)
    Linker.refusedLinks (r.linker.broken gone.contains) (r.linker.forgetOwnedBy gone.contains).2

/-- The exits that were refused when the block at an address was published on the way from one recompiler to
another, after the flushes between the two. -/
def refusedBlock (r r' : Recompiler τ β) (exits : List Exit) (pc : UInt32) : List Refusal :=
  if (r'.cache.get? pc).isSome then
    Linker.refusedExits r'.cache pc exits (if r.Flushes r' then r.linker.clear else r.linker, r'.store)
  else []

/-- The sites that a command refuses. -/
def refusedBy (T : Translator τ β) (s : Recompiler (τ × (UInt32 → List Exit)) β) : Command → List Refusal
  | .resolve source pc =>
    let s' := perform T.logged s (.resolve source pc)
    if (s.cache.get? pc).isSome then [] else s.refusedBlock s' (s'.translator.2 pc) pc
  | .invalidate start len => s.refusedCuts start len
  | .refineIdle .. | .flush => []

/-- The sites that were refused in a run since the last flush, if `rs` were before it. -/
def refusals (T : Translator τ β) :
    List Command → Recompiler (τ × (UInt32 → List Exit)) β → List Refusal → List Refusal
  | [], _, rs => rs
  | cmd :: cmds, s, rs =>
    let s' := perform T.logged s cmd
    refusals T cmds s' ((if s.Flushes s' then [] else rs) ++ refusedBy T s cmd)

/-- The sites that were refused in a run since the last flush. -/
def refusalLog (T : Translator τ β) (cmds : List Command) (r : Recompiler τ β) : List Refusal :=
  refusals T cmds r.withLog []

/-! ### Notes are only noted -/

section Notes

variable {σ : Type} {f : σ → τ} {T' : Translator σ β}

lemma perform_mapState (h : Translator.Notes f T' T) (s : Recompiler σ β) (cmd : Command) :
    perform T (s.mapState f) cmd = (perform T' s cmd).mapState f := by
  cases cmd with
  | resolve source pc => exact congrArg Prod.snd (resolve_mapState source pc s h)
  | invalidate start len => exact congrArg Prod.snd (invalidate_mapState s f start len)
  | refineIdle pc idle => rfl
  | flush =>
    simp only [perform, flush_mapState]
    cases s.flush <;> rfl

/-- Keeping notes changes nothing else. -/
lemma run_mapState (h : Translator.Notes f T' T) (s : Recompiler σ β) (cmds : List Command) :
    run T cmds (s.mapState f) = (run T' cmds s).mapState f := by
  induction cmds generalizing s with
  | nil => rfl
  | cons cmd cmds ih =>
    rw [run, List.foldl_cons, perform_mapState h]
    exact ih _

/-- The log of exits is a note. -/
lemma logged_notes (T : Translator τ β) : Translator.Notes Prod.fst T.logged T where
  translate _ _ _ _ _ := rfl
  resetStats _ := rfl

/-- Keeping a log changes nothing else. -/
lemma run_withoutLog (T : Translator τ β) (s : Recompiler (τ × (UInt32 → List Exit)) β) (cmds : List Command) :
    run T cmds s.withoutLog = (run T.logged cmds s).withoutLog :=
  run_mapState (logged_notes T) s cmds

end Notes

/-! ### The graph after a run -/

/-- Where the link word of an exit to an address ought to point. -/
def wordFor (r : Recompiler τ β) (target : UInt32) : LinkWord β :=
  match r.cache.get? target with
  | some e => .block e.code
  | none => .slowPath

/-- The exits of cached blocks that are not on record. -/
def unrecorded (ex : UInt32 → List Exit) (r : Recompiler τ β) : List Exit :=
  (r.cache.exits ex).filter fun x => x.site ∉ r.linker.sites

/-- Every exit of a cached block points at the block for its target, or at the stub without one.  The only
exceptions are the exits among the refusals, which point at the stub: when each came, as many sites were waiting as
there is room for. -/
structure LinkGraph (ex : UInt32 → List Exit) (rs : List Refusal) (capacity : Nat) (r : Recompiler τ β) : Prop where
  word : ∀ pc, (r.cache.get? pc).isSome → ∀ x ∈ ex pc, r.store.word? x.site =
    some (if x.link pc ∈ rs.map (·.link) then .slowPath else r.wordFor x.target)
  full : ∀ ρ ∈ rs, ρ.waiting.length = capacity
  /-- The exits that are not on record are those that were refused. -/
  refused : ∀ pc, (r.cache.get? pc).isSome → ∀ x ∈ ex pc, x.site ∉ r.linker.sites ↔ x.link pc ∈ rs.map (·.link)
  dropped : (r.unrecorded ex).length ≤ r.linker.stats.dropped
  /-- No word of a cached block is null or leads to code that is not cached. -/
  live : ∀ pc, (r.cache.get? pc).isSome → ∀ x ∈ ex pc, r.store.word? x.site = some .slowPath ∨
    ∃ e, r.cache.get? x.target = some e ∧ r.store.word? x.site = some (.block e.code)
  owned : ∀ k ∈ r.linker.pending ++ r.linker.linked,
    (r.cache.get? k.owner).isSome ∧ ⟨k.target, k.site⟩ ∈ ex k.owner
  recorded_once : ((r.linker.pending ++ r.linker.linked).map (·.site)).Nodup
  bounded : r.linker.pending.length ≤ capacity

lemma IsLinked.length_unrecorded_le (h : r.IsLinked ex 0) :
    (r.unrecorded ex).length ≤ r.linker.stats.dropped := by
  set recorded := (r.cache.exits ex).filter fun x => !decide (x.site ∉ r.linker.sites) with hrec
  have hsub : r.linker.sites ⊆ recorded.map (·.site) := by
    intro i hi
    obtain ⟨k, hk, rfl⟩ := List.mem_map.mp hi
    refine List.mem_map.mpr ⟨⟨k.target, k.site⟩, List.mem_filter.mpr ⟨h.mem_exits_of_record hk, ?_⟩, rfl⟩
    simpa using hi
  have hle : r.linker.records.length ≤ recorded.length := by
    simpa [Linker.sites] using (h.recorded_once.subperm hsub).length_le
  have hsplit := (List.filter_append_perm (fun x : Exit => decide (x.site ∉ r.linker.sites))
    (r.cache.exits ex)).length_eq
  have hcount := h.counted
  rw [List.length_append, ← hrec] at hsplit
  rw [unrecorded]
  omega

/-- An exit of a cached block points at the block for its target, or at the stub if there is none or if the
exit is not on record. -/
lemma IsLinked.word (h : r.IsLinked ex todo) (hpc : (r.cache.get? pc).isSome) {x : Exit} (hx : x ∈ ex pc) :
    r.store.word? x.site = some (r.wordFor x.target) ∨
      x ∈ r.unrecorded ex ∧ r.store.word? x.site = some .slowPath := by
  have hexit := h.valid.mem_exits.mpr ⟨pc, hpc, hx⟩
  by_cases hmem : x.site ∈ r.linker.sites
  · obtain ⟨k, hk, hsite⟩ := List.mem_map.mp hmem
    obtain rfl := h.record_of_site hpc hx hk hsite
    left
    rcases List.mem_append.mp hk with hk | hk
    · obtain ⟨hslow, hnone⟩ := h.waiting _ hk
      have hnone : r.cache.get? x.target = none := by simpa using hnone
      rw [wordFor, hnone]
      exact hslow
    · obtain ⟨e, he, hblock⟩ := h.reached _ hk
      have he : r.cache.get? x.target = some e := he
      rw [wordFor, he]
      exact hblock
  · exact .inr ⟨List.mem_filter.mpr ⟨hexit, by simpa using hmem⟩, h.unrecorded x hexit hmem⟩

/-- No word of a cached block is null or leads to code that is not cached. -/
lemma IsLinked.live (h : r.IsLinked ex todo) (hpc : (r.cache.get? pc).isSome) {x : Exit} (hx : x ∈ ex pc) :
    r.store.word? x.site = some .slowPath ∨
      ∃ e, r.cache.get? x.target = some e ∧ r.store.word? x.site = some (.block e.code) := by
  rcases h.word hpc hx with hword | ⟨-, hslow⟩
  · rw [wordFor] at hword
    split at hword
    · rename_i e he
      exact .inr ⟨e, he, hword⟩
    · exact .inl hword
  · exact .inl hslow

/-- The exits of cached blocks are on record or among the refusals. -/
def IsExcused (ex : UInt32 → List Exit) (rs : List Refusal) (r : Recompiler τ β) : Prop :=
  Excused ex rs r.cache r.linker r.store

lemma IsExcused.refused {rs : List Refusal} (h : r.IsExcused ex rs) (hpc : (r.cache.get? pc).isSome) {x : Exit}
    (hx : x ∈ ex pc) : x.site ∉ r.linker.sites ↔ x.link pc ∈ rs.map (·.link) := by
  refine ⟨(h.excused pc hpc x hx).resolve_left, fun hrefused => ?_⟩
  obtain ⟨ρ, hρ, hlink⟩ := List.mem_map.mp hrefused
  have hoff := h.off ρ hρ
  rwa [hlink] at hoff

lemma IsLinked.linkGraph {rs : List Refusal} (h : r.IsLinked ex 0) (hexcused : r.IsExcused ex rs) :
    LinkGraph ex rs r.linker.capacity r where
  word pc hpc x hx := by
    split
    · rename_i hrefused
      exact h.unrecorded x (h.valid.mem_exits.mpr ⟨pc, hpc, hx⟩) ((hexcused.refused hpc hx).mpr hrefused)
    · rename_i hnot
      refine (h.word hpc hx).resolve_right fun ⟨hoff, _⟩ => hnot ((hexcused.refused hpc hx).mp ?_)
      simpa using (List.mem_filter.mp hoff).2
  full := hexcused.full
  refused _ hpc _ := hexcused.refused hpc
  dropped := h.length_unrecorded_le
  live _ hpc _ := h.live hpc
  owned := h.owned
  recorded_once := h.recorded_once
  bounded := h.bounded

/-- One command keeps the graph, with the exits that the log has after it. -/
lemma IsLinked.perform (hT : T.Fresh) {s : Recompiler (τ × (UInt32 → List Exit)) β} {capacity : Nat}
    (h : s.IsLinked s.translator.2 todo ∧ s.linker.capacity = capacity) (cmd : Command) :
    (perform T.logged s cmd).IsLinked (perform T.logged s cmd).translator.2 todo ∧
      (perform T.logged s cmd).linker.capacity = capacity := by
  cases cmd with
  | resolve source pc =>
    let P (s : Recompiler (τ × (UInt32 → List Exit)) β) : Prop :=
      s.IsLinked s.translator.2 todo ∧ s.linker.capacity = capacity
    have hkeeps : Keeps T.logged source pc P fun _ => P := {
      count := fun s cacheStats stats _ hs => ⟨hs.1.with_stats cacheStats stats, hs.2⟩
      flush := fun s s' hs hflush => by
        obtain ⟨-, hlinker, -⟩ := flush_eq_ok hflush
        exact ⟨isLinked_flush hflush, by rw [hlinker]; exact hs.2⟩
      publish := fun s e s' hs hnone hpublish => by
        obtain ⟨t, ht, hstate, hcap, hlinked⟩ := hs.1.publish hT.logged hnone hpublish
        refine ⟨?_, hcap.trans hs.2⟩
        rw [hstate, Translator.logged_log_of_ok ht]
        exact hlinked
      fail := fun s err s' hs hnone hpublish => by
        have hlinked := hs.1.publish_error hT.logged hpublish
        obtain rfl := publish_eq_error hpublish
        refine ⟨hlinked.congr_exits fun a ha => ?_, hs.2⟩
        dsimp only
        rw [Translator.logged_log_of_ne]
        rintro rfl
        rw [show s.cache.get? a = none from hnone] at ha
        simp at ha }
    exact hkeeps.resolve_snd h
  | invalidate start len =>
    change (s.invalidate start len).2.IsLinked (s.invalidate start len).2.translator.2 todo ∧ _
    rw [(invalidate_frame s start len).1]
    exact ⟨h.1.invalidate start len, (capacity_invalidate s start len).trans h.2⟩
  | refineIdle pc idle => exact ⟨h.1.refineIdle pc idle, h.2⟩
  | flush =>
    simp only [Recompiler.perform]
    split
    · rename_i s' hflush
      obtain ⟨-, hlinker, -⟩ := flush_eq_ok hflush
      exact ⟨isLinked_flush hflush, by rw [hlinker]; exact h.2⟩
    · exact h

/-! ### The refusals of a run -/

section Refusals

variable {s s' : Recompiler (τ × (UInt32 → List Exit)) β} {rs : List Refusal}

/-- What is between a lookup that found nothing and a publication: flushes and translations that failed. -/
structure Unpublished (rs : List Refusal) (pc : UInt32) (s s' : Recompiler (τ × (UInt32 → List Exit)) β) :
    Prop where
  none : s'.cache.get? pc = none
  le : s.stats.flushes ≤ s'.stats.flushes
  linker : s'.linker = if s.Flushes s' then s.linker.clear else s.linker
  linked : s'.IsLinked s'.translator.2 0
  excused : s'.IsExcused s'.translator.2 (if s.Flushes s' then [] else rs)

lemma IsExcused.flushed (hflush : s.flush = .ok s') (ex : UInt32 → List Exit) : s'.IsExcused ex [] :=
  .of_empty (get?_of_flush hflush)

/-- A publication adds the exits that it refuses. -/
lemma Unpublished.publish (hT : T.Fresh) {s₁ : Recompiler (τ × (UInt32 → List Exit)) β}
    (h : Unpublished rs pc s s₁) {e : Entry β} (hpublish : s₁.publish T.logged source pc = (.ok e, s')) :
    s'.IsExcused s'.translator.2 ((if s.Flushes s' then [] else rs) ++
      s.refusedBlock s' (s'.translator.2 pc) pc) := by
  obtain ⟨t, cache, ht, rfl, hinsert, hs'⟩ := publish_eq_ok hpublish
  obtain ⟨k, hwords⟩ := hT.logged.words source pc (max s₁.maxBlock 1) s₁.translator s₁.store
  have hnodup := hT.logged.nodup source pc (max s₁.maxBlock 1) s₁.translator s₁.store t ht
  have hsites := hT.logged.sites source pc (max s₁.maxBlock 1) s₁.translator s₁.store t ht
  have hexcused := h.excused.published h.linked hinsert hwords hnodup hsites
  have hlog : s'.translator.2 = Function.update s₁.translator.2 pc t.exits := by
    rw [hs']
    exact Translator.logged_log_of_ok ht
  have hflushes : s.Flushes s' ↔ s.Flushes s₁ := by
    rw [Flushes, Flushes, hs']
  have hsome : (s'.cache.get? pc).isSome := by
    have hget := h.linked.valid.get?_insert hinsert
    rw [hs', hget]
    exact Option.isSome_iff_exists.mpr ⟨_, Function.update_self ..⟩
  have hcache : s'.cache = cache := by rw [hs']
  rw [refusedBlock, if_pos hsome, hlog, Function.update_self, hcache]
  simp only [hflushes, ← h.linker]
  rw [Linker.refusedExits_congr cache pc t.exits s₁.linker s'.store, hs']
  exact hexcused.congr (fun _ hpc => ⟨hpc, rfl⟩) le_rfl

lemma Unpublished.count (h : Unpublished rs pc s s') (cacheStats : CacheStats) {stats : RecompilerStats}
    (hflushes : stats.flushes = s'.stats.flushes) :
    Unpublished rs pc s { s' with cache.stats := cacheStats, stats } := by
  have hsame : s.Flushes { s' with cache.stats := cacheStats, stats } ↔ s.Flushes s' := by
    rw [Flushes, Flushes, hflushes]
  refine ⟨h.none, hflushes ▸ h.le, ?_, h.linked.with_stats cacheStats stats, ?_⟩
  · simp only [hsame]
    exact h.linker
  · simp only [hsame]
    exact h.excused.congr (fun _ hpc => ⟨hpc, rfl⟩) le_rfl

lemma Unpublished.flush {s₁ : Recompiler (τ × (UInt32 → List Exit)) β} (h : Unpublished rs pc s s₁)
    (hflush : s₁.flush = .ok s') : Unpublished rs pc s s' := by
  have hflushes : s.Flushes s' := by
    rw [Flushes, flush_stats hflush]
    exact Nat.lt_succ_of_le h.le
  refine ⟨get?_of_flush hflush pc, hflushes.le, ?_, isLinked_flush hflush, ?_⟩
  · rw [if_pos hflushes, (flush_eq_ok hflush).2.1, h.linker]
    split <;> rfl
  · rw [if_pos hflushes]
    exact .flushed hflush _

lemma Unpublished.fail (hT : T.Fresh) {s₁ : Recompiler (τ × (UInt32 → List Exit)) β} (h : Unpublished rs pc s s₁)
    {err : PublishError} (hpublish : s₁.publish T.logged source pc = (.error err, s')) :
    Unpublished rs pc s s' := by
  have hlinked := h.linked.publish_error hT.logged hpublish
  obtain ⟨k, hwords⟩ := hT.logged.words source pc (max s₁.maxBlock 1) s₁.translator s₁.store
  obtain rfl := publish_eq_error hpublish
  have hlog : ∀ a, (s₁.cache.get? a).isSome →
      (T.logged.translate source pc (max s₁.maxBlock 1) s₁.translator s₁.store).state.2 a = s₁.translator.2 a := by
    intro a ha
    refine Translator.logged_log_of_ne T source _ _ _ ?_
    rintro rfl
    rw [h.none] at ha
    cases ha
  refine ⟨h.none, h.le, h.linker, hlinked.congr_exits hlog, ?_⟩
  refine h.excused.congr (fun a ha => ⟨ha, hlog a ha⟩) ?_
  rw [hwords, Array.size_append]
  exact Nat.le_add_right ..

/-- Resolving an address adds the exits that its publication refuses. -/
lemma IsExcused.resolve (hT : T.Fresh) (hlinked : s.IsLinked s.translator.2 0)
    (h : s.IsExcused s.translator.2 rs) (source : Source) (pc : UInt32) :
    let s' := (s.resolve T.logged source pc).2
    s'.IsExcused s'.translator.2 ((if s.Flushes s' then [] else rs) ++ refusedBy T s (.resolve source pc)) := by
  intro s'
  cases hget : s.cache.get? pc with
  | some e =>
    obtain ⟨stats, hcounted⟩ := Cache.getCounted_snd s.cache pc
    have hs' : s' = { s with cache.stats := stats, stats.cacheHits := s.stats.cacheHits + 1 } := by
      have hfst := Cache.getCounted_fst s.cache pc
      change (s.resolve T.logged source pc).2 = _
      rw [Recompiler.resolve, show s.cache.getCounted pc = (some e, { s.cache with stats }) from
        Prod.ext (hfst.trans hget) hcounted]
    have hsame : ¬ s.Flushes s' := by
      rw [hs']
      exact lt_irrefl _
    have hnothing : refusedBy T s (.resolve source pc) = [] := by
      rw [refusedBy, hget]
      rfl
    rw [if_neg hsame, hnothing, List.append_nil, hs']
    exact h.congr (fun _ hpc => ⟨hpc, rfl⟩) le_rfl
  | none =>
    have hnone : refusedBy T s (.resolve source pc) = s.refusedBlock s' (s'.translator.2 pc) pc := by
      rw [refusedBy, hget]
      rfl
    have hkeeps : Keeps T.logged source pc (Unpublished rs pc s) fun _ s' =>
        s'.IsExcused s'.translator.2 ((if s.Flushes s' then [] else rs) ++
          s.refusedBlock s' (s'.translator.2 pc) pc) := {
      count := fun _ cacheStats _ hflushes hs => hs.count cacheStats hflushes
      flush := fun _ _ hs hflush => hs.flush hflush
      publish := fun _ _ _ hs _ hpublish => hs.publish hT hpublish
      fail := fun _ _ _ hs _ hpublish => hs.fail hT hpublish }
    have hsame : ¬ s.Flushes s := lt_irrefl _
    have hstart : Unpublished rs pc s s :=
      ⟨hget, le_rfl, (if_neg hsame).symm, hlinked, by rwa [if_neg hsame]⟩
    -- without a block nothing was published
    have hunpublished : Unpublished rs pc s s' → s'.IsExcused s'.translator.2 ((if s.Flushes s' then [] else rs) ++
        s.refusedBlock s' (s'.translator.2 pc) pc) := by
      intro hs
      have hnothing : s.refusedBlock s' (s'.translator.2 pc) pc = [] := by
        rw [refusedBlock, hs.none]
        rfl
      rw [hnothing, List.append_nil]
      exact hs.excused
    have hleaves := hkeeps.resolve hstart
    rw [hnone]
    obtain ⟨result, s₁, heq⟩ : ∃ result s₁, s.resolve T.logged source pc = (result, s₁) := ⟨_, _, rfl⟩
    have hs₁ : s' = s₁ := congrArg Prod.snd heq
    rw [heq] at hleaves
    subst hs₁
    cases result with
    | error err => exact hunpublished hleaves
    | ok found =>
      cases found with
      | hit e => exact hunpublished hleaves.1
      | compiled e => exact hleaves
      | failed err => exact hunpublished hleaves

/-- Removing the blocks of a range adds the links that it refuses. -/
lemma IsExcused.invalidate (hlinked : r.IsLinked ex 0) (h : r.IsExcused ex rs) (start len : UInt32) :
    (r.invalidate start len).2.IsExcused ex (rs ++ r.refusedCuts start len) := by
  rw [Recompiler.invalidate, refusedCuts]
  split
  · rw [List.append_nil]
    exact h
  · dsimp only
    set p : Entry β → Bool := (·.overlaps start (saturatingAdd start len))
    have hcut := Excused.severed hlinked h ((r.cache.eraseWhere p).1.map (·.pc))
    split
    · rename_i cache heq
      have hcache : r.cache = cache := by
        have hfst := hlinked.valid.eraseWhere_fst p
        have hsnd := congrArg Prod.snd heq
        rw [heq] at hfst
        rw [Cache.eraseWhere, ← hfst] at hsnd
        exact hsnd
      have hbroken : r.linker.broken (List.contains []) = [] := by
        simp [Linker.broken]
      rw [heq, List.map_nil, hbroken, ← hcache]
      exact (List.append_nil rs).symm ▸ h
    · rename_i removed cache _ heq
      have hcache : (r.cache.eraseAll (removed.map (·.pc))).2 = cache := by
        have hfst := hlinked.valid.eraseWhere_fst p
        have hsnd := congrArg Prod.snd heq
        rw [heq] at hfst
        rw [Cache.eraseWhere, ← hfst] at hsnd
        exact hsnd
      rw [heq] at hcut ⊢
      rw [hcache] at hcut
      exact hcut

lemma flushes_invalidate (r : Recompiler τ β) (start len : UInt32) :
    (r.invalidate start len).2.stats.flushes = r.stats.flushes := by
  rw [Recompiler.invalidate]
  split
  · rfl
  · dsimp only
    split <;> rfl

/-- A command leaves the refusals that were before it and those that it adds, unless it flushes. -/
lemma IsExcused.perform (hT : T.Fresh) (hlinked : s.IsLinked s.translator.2 0)
    (h : s.IsExcused s.translator.2 rs) (cmd : Command) :
    let s' := Recompiler.perform T.logged s cmd
    s'.IsExcused s'.translator.2 ((if s.Flushes s' then [] else rs) ++ refusedBy T s cmd) := by
  intro s'
  cases cmd with
  | resolve source pc => exact h.resolve hT hlinked source pc
  | invalidate start len =>
    have hsame : ¬ s.Flushes s' := (flushes_invalidate s start len).not_gt
    rw [if_neg hsame, show s'.translator = s.translator from (invalidate_frame s start len).1]
    exact h.invalidate hlinked start len
  | refineIdle pc idle =>
    have hsame : ¬ s.Flushes s' := lt_irrefl _
    rw [if_neg hsame, refusedBy, List.append_nil]
    refine h.congr (fun a ha => ⟨?_, rfl⟩) le_rfl
    change ((s.cache.setIdle pc idle).2.get? a).isSome at ha
    rw [hlinked.valid.get?_setIdle, Function.update_apply] at ha
    split at ha
    · rename_i hpc
      rwa [hpc, ← Option.isSome_map]
    · exact ha
  | flush =>
    rw [refusedBy, List.append_nil]
    cases hflush : s.flush with
    | error err =>
      have hs' : s' = s := by
        change Recompiler.perform T.logged s .flush = s
        rw [Recompiler.perform, hflush]
      have hsame : ¬ s.Flushes s := lt_irrefl _
      rw [hs', if_neg hsame]
      exact h
    | ok s₁ =>
      have hs' : s' = s₁ := by
        change Recompiler.perform T.logged s .flush = s₁
        rw [Recompiler.perform, hflush]
      have hflushes : s.Flushes s₁ := by
        rw [Flushes, flush_stats hflush]
        exact Nat.lt_succ_self _
      rw [hs', if_pos hflushes]
      exact .flushed hflush _

end Refusals

lemma isLinked_create {limits : Limits} {s : τ} (h : create s limits = .ok r) : r.IsLinked ex todo := by
  obtain ⟨hvalid, hnil⟩ := cache_of_create h
  obtain ⟨-, rfl⟩ := create_eq_ok_iff.mp h
  exact Linked.of_empty hvalid hnil rfl rfl

/-- The link graph holds after every run, for stores of every size. -/
theorem run_linkGraph (hT : T.Fresh) {limits : Limits} {s : τ} (h : create s limits = .ok r)
    (cmds : List Command) :
    LinkGraph (exitLog T cmds r) (refusalLog T cmds r) limits.patchSites (run T cmds r) := by
  have hstart : r.withLog.IsLinked r.withLog.translator.2 0 ∧
      r.withLog.linker.capacity = limits.patchSites := by
    refine ⟨isLinked_create (r := r) h, ?_⟩
    change r.linker.capacity = _
    rw [(create_eq_ok_iff.mp h).2]
    rfl
  have hnothing : r.withLog.IsExcused r.withLog.translator.2 [] := by
    obtain ⟨hvalid, hnil⟩ := cache_of_create h
    exact .of_empty fun pc => hvalid.get?_of_toList_nil hnil pc
  have hrun : ∀ (s : Recompiler (τ × (UInt32 → List Exit)) β) (rs : List Refusal),
      s.IsLinked s.translator.2 0 ∧ s.linker.capacity = limits.patchSites → s.IsExcused s.translator.2 rs →
        ((run T.logged cmds s).IsLinked (run T.logged cmds s).translator.2 0 ∧
          (run T.logged cmds s).linker.capacity = limits.patchSites) ∧
            (run T.logged cmds s).IsExcused (run T.logged cmds s).translator.2 (refusals T cmds s rs) := by
    induction cmds with
    | nil => exact fun s rs hs hexcused => ⟨hs, hexcused⟩
    | cons cmd cmds ih =>
      exact fun s rs hs hexcused => ih _ _ (IsLinked.perform hT hs cmd) (hexcused.perform hT hs.1 cmd)
  obtain ⟨⟨hlinked, hcapacity⟩, hexcused⟩ := hrun _ _ hstart hnothing
  have hgraph : LinkGraph (exitLog T cmds r) (refusalLog T cmds r) limits.patchSites
      (run T.logged cmds r.withLog).withoutLog :=
    hcapacity ▸ IsLinked.linkGraph (r := (run T.logged cmds r.withLog).withoutLog) hlinked hexcused
  rw [← run_withoutLog] at hgraph
  exact hgraph

/-- Room for one site: the exit to `0x10` waits when the exit to `0x30` is refused, which stays at the stub after the
block at `0x30` has come.  Once the first block is removed, the exit that was linked to it waits. -/
theorem run_linkGraph_refused :
    let source : Source := fun pc =>
      .ok (match pc with | 0 => 0x08000004 | 0x20 => 0x0800000C | 0x30 => 0x08000000 | _ => 0)
    let cmds := [.resolve source 0, .resolve source 0x20, .resolve source 0x30, .invalidate 0 4]
    let T := Translator.standard true []
    ∃ r, create {} { cacheSlots := 1, poolNodes := 2, patchSites := 1 } = .ok r ∧
      LinkGraph (exitLog T cmds r) (refusalLog T cmds r) 1 (run T cmds r) ∧
        refusalLog T cmds r = [⟨⟨1, 0x30, 0x20⟩, [⟨0, 0x10, 0⟩]⟩] ∧
          (run T cmds r).store.word? 1 = some .slowPath ∧ ((run T cmds r).cache.get? 0x30).isSome ∧
            (run T cmds r).linker.pending = [⟨2, 0, 0x30⟩] := by
  intro source cmds T
  let r : Recompiler TranslatorStats Block := bare {} { cacheSlots := 1, poolNodes := 2, patchSites := 1 }
  have hcreate : create {} { cacheSlots := 1, poolNodes := 2, patchSites := 1 } = .ok r :=
    create_eq_bare _ (by decide)
  exact ⟨r, hcreate, run_linkGraph (Translator.standard_fresh true []) hcreate cmds,
    by decide +kernel, by decide +kernel, by decide +kernel, by decide +kernel⟩

end Recompiler

end R3000
