import Mathlib
import R3000.Proofs.Cache.Ranges
import R3000.Proofs.Holding
import R3000.Proofs.Planning
import R3000.Proofs.Tracing

/-!
# What invalidating a range leaves

The blocks with a byte in the range go, and nothing else does.  Links between blocks that stay are left alone;
links to a block that goes are cut, and their sites wait for it as far as there is room; the sites of blocks that
go are forgotten.  The next look for such a block asks the translator.
-/

namespace R3000

variable {τ β : Type} {T : Translator τ β} {ex : UInt32 → List Exit} {todo : Nat} {pc start len : UInt32}

/-- Planned blocks are not empty, if their number of instructions is a word. -/
lemma Translator.standard_makes_some {unlinked : List UInt32} {source : Source} {cap : UInt32}
    (hcap : cap.toNat + 1 < 2 ^ 32) :
    (Translator.standard true unlinked).Makes source cap fun e => 0 < e.sourceLen := by
  intro pc s store t ht
  obtain ⟨hplan, -, -, hlen, -⟩ := Translator.standard_eq_ok ht
  have hle := Plan.length_le_of_cap hplan
  have hpos := Plan.length_pos hplan
  rw [UInt32.toNat_max, UInt32.toNat_one] at hle
  change 0 < t.sourceLen
  rw [hlen, Plan.sourceLen, UInt32.lt_iff_toNat_lt, UInt32.toNat_ofNat_of_lt' (by rw [UInt32.size]; omega)]
  exact hpos

/-- Without blocks that go nothing is cut. -/
lemma Linker.severed_none (l : Linker) (store : CodeStore β) : l.severed (fun _ => false) store = (l, store) := by
  simp [severed, forgetOwnedBy, unlinkWhere, patchAll]

/-- An exit keeps its word, unless its target goes. -/
lemma Linked.word?_severed_of_exit {c : Cache β} {l : Linker} {store : CodeStore β} {p : UInt32 → Bool} {x : Exit}
    (h : Linked ex none todo c l store) (hpc : (c.get? pc).isSome) (hx : x ∈ ex pc) (htarget : p x.target = false) :
    (l.severed p store).2.word? x.site = store.word? x.site := by
  refine word?_severed fun hbroken => ?_
  obtain ⟨k, hk, hsite⟩ := List.mem_map.mp hbroken
  obtain ⟨hlinked, -, hcut⟩ := mem_broken.mp hk
  obtain rfl := h.record_of_site hpc hx (List.mem_append_right _ hlinked) hsite
  exact Bool.false_ne_true (htarget.symm.trans hcut)

namespace Recompiler

variable {r r₀ : Recompiler τ β} {s s₀ : Recompiler (τ × (UInt32 → List Exit)) β}

/-- The addresses of the blocks that a range meets. -/
def met (r : Recompiler τ β) (start len : UInt32) : List UInt32 :=
  (r.cache.toList.filter (·.hits start len)).map (·.pc)

/-- Invalidating a range erases the blocks that it meets, and cuts the links to them and from them. -/
lemma invalidate_eq (h : Cache.Valid r.cache) (start len : UInt32) : r.invalidate start len =
    let severed := r.linker.severed (r.met start len).contains r.store
    ((r.met start len).length,
      { r with
        cache := (r.cache.eraseAll (r.met start len)).2
        linker := severed.1
        store := severed.2
        stats.invalidatedBlocks := r.stats.invalidatedBlocks + (r.met start len).length }) := by
  have hnone : r.met start len = [] → r.linker.severed (r.met start len).contains r.store = (r.linker, r.store) := by
    intro hmet
    rw [hmet]
    exact Linker.severed_none r.linker r.store
  by_cases hlen : len = 0
  · have hmet : r.met start len = [] := by simp [met, Entry.hits, hlen]
    rw [hnone hmet, hmet, invalidate, if_pos hlen]
    rfl
  · have hhits : ∀ e : Entry β, e.hits start len = e.overlaps start (saturatingAdd start len) := fun e => by
      simp [Entry.hits, hlen]
    have hmet : r.met start len =
        (r.cache.toList.filter (·.overlaps start (saturatingAdd start len))).map (·.pc) := by
      simp only [met, hhits]
    have hfst := h.eraseWhere_fst (·.overlaps start (saturatingAdd start len))
    rw [invalidate, if_neg hlen]
    dsimp only
    split
    · rename_i cache heq
      have hempty : r.met start len = [] := by
        rw [heq] at hfst
        rw [hmet, ← hfst]
        rfl
      rw [Cache.eraseWhere, ← hmet, hempty] at heq
      obtain rfl : r.cache = cache := congrArg Prod.snd heq
      rw [hnone hempty, hempty]
      rfl
    · rename_i removed cache _ heq
      rw [heq] at hfst
      have hpcs : removed.map (·.pc) = r.met start len := by rw [hmet, ← hfst]
      have hcache : (r.cache.eraseAll (r.met start len)).2 = cache := by
        rw [Cache.eraseWhere, ← hmet] at heq
        exact congrArg Prod.snd heq
      rw [hpcs, hcache, ← hpcs, List.length_map]
      rfl

/-- A range meets the block of an address if a byte of it lies there. -/
lemma mem_met (h : Cache.Valid r.cache) (hsome : ∀ pc e, r.cache.get? pc = some e → 0 < e.sourceLen) :
    pc ∈ r.met start len ↔ ∃ e, r.cache.get? pc = some e ∧ ∃ byte, e.HasByte byte ∧ InRange start len byte := by
  rw [met, List.mem_map]
  constructor
  · rintro ⟨e, he, rfl⟩
    obtain ⟨hmem, hhits⟩ := List.mem_filter.mp he
    have hget := h.get?_eq_some_iff.mpr ⟨hmem, rfl⟩
    exact ⟨e, hget, (Entry.hits_iff (hsome _ e hget)).mp hhits⟩
  · rintro ⟨e, hget, hbyte⟩
    obtain ⟨hmem, hpc⟩ := h.get?_eq_some_iff.mp hget
    exact ⟨e, List.mem_filter.mpr ⟨hmem, (Entry.hits_iff (hsome _ e hget)).mpr hbyte⟩, hpc⟩

lemma nodup_met (h : Cache.Valid r.cache) (start len : UInt32) : (r.met start len).Nodup :=
  (List.filter_sublist.map _).nodup h.nodup_pcs

/-! ### What is left -/

/-- What invalidating a range leaves of a recompiler, with the number that it gives: the blocks at some addresses
are gone.  The exits of blocks are those of `ex`. -/
structure Removal (ex : UInt32 → List Exit) (start len : UInt32) (gone : UInt32 → Bool) (r : Recompiler τ β)
    (left : Nat × Recompiler τ β) : Prop where
  gone_iff : ∀ pc, gone pc = true ↔
    ∃ e, r.cache.get? pc = some e ∧ ∃ byte, e.HasByte byte ∧ InRange start len byte
  count : left.1 = { pc | gone pc = true }.ncard
  get?_eq : ∀ pc, left.2.cache.get? pc = if gone pc then none else r.cache.get? pc
  /-- An exit of a block that stays keeps its word, unless its target went. -/
  word_kept : ∀ pc, (left.2.cache.get? pc).isSome → ∀ x ∈ ex pc, gone x.target = false →
    left.2.store.word? x.site = r.store.word? x.site
  word_cut : ∀ pc, (left.2.cache.get? pc).isSome → ∀ x ∈ ex pc, gone x.target = true →
    left.2.store.word? x.site = some .slowPath
  /-- Links between blocks that stay are on record, in their order. -/
  linked_eq : left.2.linker.linked = r.linker.linked.filter fun k => !gone k.owner && !gone k.target
  /-- The sites that waited for something, and then those that were cut, the earliest first, while there is room. -/
  pending_eq : left.2.linker.pending =
    (r.linker.pending.filter fun k => !gone k.owner) ++
      (r.linker.linked.filter fun k => !gone k.owner && gone k.target).reverse.take
        (r.linker.capacity - (r.linker.pending.filter fun k => !gone k.owner).length)
  unowned : ∀ k ∈ left.2.linker.pending ++ left.2.linker.linked, gone k.owner = false

/-- The block of an address that is still there was there, and did not go. -/
lemma isSome_of_left (h : Cache.Valid r.cache) {pcs : List UInt32} (hpc : ((r.cache.eraseAll pcs).2.get? pc).isSome) :
    (r.cache.get? pc).isSome ∧ pcs.contains pc = false := by
  rw [h.get?_eraseAll] at hpc
  split at hpc
  · cases hpc
  · rename_i hnot
    exact ⟨hpc, by simpa using hnot⟩

/-- Invalidating a range removes what it meets from a link graph. -/
lemma IsLinked.removal (h : r.IsLinked ex todo) (hsome : ∀ pc e, r.cache.get? pc = some e → 0 < e.sourceLen)
    (start len : UInt32) : Removal ex start len (r.met start len).contains r (r.invalidate start len) := by
  rw [invalidate_eq h.valid]
  set pcs := r.met start len
  have hgone : ∀ pc, pcs.contains pc = true ↔ pc ∈ pcs := fun pc => List.contains_iff_mem
  constructor
  · intro pc
    rw [hgone]
    exact mem_met h.valid hsome
  · have hset : { pc | pcs.contains pc = true } = (pcs.toFinset : Set UInt32) := by
      ext pc
      simp
    rw [hset, Set.ncard_coe_finset, List.toFinset_card_of_nodup (nodup_met h.valid start len)]
  · intro pc
    simp only [hgone]
    exact h.valid.get?_eraseAll pcs pc
  · intro pc hpc x hx htarget
    exact Linked.word?_severed_of_exit h (isSome_of_left h.valid hpc).1 hx htarget
  · intro pc hpc x hx htarget
    have hleft := Linked.eraseAll h pcs
    rcases IsLinked.live (r := { r with
      cache := (r.cache.eraseAll pcs).2
      linker := (r.linker.severed pcs.contains r.store).1
      store := (r.linker.severed pcs.contains r.store).2 }) hleft hpc hx with hslow | ⟨e, he, -⟩
    · exact hslow
    · -- the target is gone
      have htarget' := (isSome_of_left h.valid (Option.isSome_iff_exists.mpr ⟨e, he⟩)).2
      exact absurd (htarget.symm.trans htarget') Bool.noConfusion
  · rw [Linker.linked_severed, List.filter_filter]
    exact List.filter_congr fun k _ => Bool.and_comm ..
  · rw [Linker.pending_severed, Linker.broken, List.filter_filter]
    congr 3
    exact List.filter_congr fun k _ => Bool.and_comm ..
  · intro k hk
    replace hk : k ∈ (r.linker.severed pcs.contains r.store).1.records := hk
    exact (Linked.mem_of_mem_severed hk).2

/-! ### Every recompiler that is reached -/

/-- The link graph holds with the exits that were noted, whatever became of a recompiler. -/
lemma Becomes.isLinked (hT : T.Fresh) (hs₀ : s₀.IsLinked s₀.translator.2 0) (h : Becomes T.logged s₀ s) :
    ∃ todo, s.IsLinked s.translator.2 todo := by
  induction h with
  | start => exact ⟨0, hs₀⟩
  | perform cmd _ ih =>
    obtain ⟨todo, hlinked⟩ := ih
    exact ⟨todo, (IsLinked.perform hT ⟨hlinked, rfl⟩ cmd).1⟩
  | resetStats _ ih =>
    obtain ⟨todo, hlinked⟩ := ih
    exact ⟨_, hlinked.resetStats T.logged⟩

/-- Invalidating a range removes the blocks that have a byte in it, whatever was asked of the recompiler before, if
its translator makes no empty block.  The exits may be those of any log that was kept on the way, and one could be
kept.  The next look for a block that is gone asks the translator. -/
theorem invalidate_removes (hfresh : T.Fresh) (hcarves : T.Carves) {limits : Limits} {t : τ}
    (hcreate : create t limits = .ok r₀)
    (hsome : ∀ source, T.Makes source limits.maxBlock fun e => 0 < e.sourceLen) (h : Becomes T r₀ r)
    (start len : UInt32) :
    (∃ s, Becomes T.logged r₀.withLog s ∧ s.withoutLog = r) ∧
      ∀ s, Becomes T.logged r₀.withLog s → s.withoutLog = r →
        ∃ gone, Removal s.translator.2 start len gone r (r.invalidate start len) ∧
          ∀ pc, gone pc = true → ∀ source, ∃ k ∈ (r.invalidate start len).2.calls T source pc, k.pc = pc := by
  refine ⟨Becomes.exists_notes (logged_notes T) r₀.withLog h, fun s hs hsr => ?_⟩
  obtain ⟨todo, hlinked⟩ := hs.isLinked hfresh (isLinked_create (r := r₀) hcreate)
  have hholds := h.holds hsome (fun _ _ he => he) (.create hcreate)
  have hremoval := IsLinked.removal (r := s.withoutLog) hlinked (hsr ▸ hholds.every) start len
  rw [hsr] at hremoval
  refine ⟨_, hremoval, fun pc hpc source => calls_of_none T source ?_ ?_⟩
  · exact (sameFrame_invalidate r start len).fitsStubs (h.fitsStubs hcarves (fitsStubs_of_create hcreate))
  · rw [hremoval.get?_eq, if_pos hpc]

/-- Three blocks in a ring: without the first, which the range meets in its last byte, the exit of the second waits
for it, and that of the third still leads to the second. -/
theorem invalidate_removes_ring :
    let source : Source := fun pc =>
      .ok (match pc with | 0 => 0x08000008 | 0x10 => 0x08000000 | 0x20 => 0x08000004 | _ => 0)
    let T := Translator.standard true []
    let cmds := [.resolve source 0, .resolve source 0x10, .resolve source 0x20]
    ∃ r₀, create {} { cacheSlots := 1, poolNodes := 2, patchSites := 1 } = .ok r₀ ∧ Becomes T r₀ (run T cmds r₀) ∧
      let left := (run T cmds r₀).invalidate 7 1
      (∃ s gone, withoutLog s = run T cmds r₀ ∧ Removal s.translator.2 7 1 gone (run T cmds r₀) left) ∧
        left.1 = 1 ∧ left.2.linker.pending = [⟨1, 0, 0x10⟩] ∧ left.2.linker.linked = [⟨2, 0x10, 0x20⟩] ∧
          left.2.store.word? 1 = some .slowPath := by
  intro source T cmds
  let r₀ : Recompiler TranslatorStats Block := bare {} { cacheSlots := 1, poolNodes := 2, patchSites := 1 }
  have hcreate : create {} { cacheSlots := 1, poolNodes := 2, patchSites := 1 } = .ok r₀ :=
    create_eq_bare _ (by decide)
  have hbecomes : Becomes T r₀ (run T cmds r₀) := Becomes.start.run cmds
  obtain ⟨⟨s, hs, hlog⟩, hremoval⟩ := invalidate_removes (Translator.standard_fresh true [])
    (Translator.standard_carves true []) hcreate (fun _ => Translator.standard_makes_some (by decide)) hbecomes 7 1
  obtain ⟨gone, hgone, -⟩ := hremoval s hs hlog
  exact ⟨r₀, hcreate, hbecomes, ⟨s, gone, hlog, hgone⟩, by decide +kernel, by decide +kernel, by decide +kernel,
    by decide +kernel⟩

end Recompiler

end R3000
