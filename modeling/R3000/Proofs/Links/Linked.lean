import Mathlib
import R3000.Proofs.Links.Patching

/-!
# The link graph

`Linked` ties the cache, the sites on record and the link words together.  While a block is being
published two things are not settled yet, and the invariant says which: the sites that still wait for the
new block, and how many of its own exits have not been looked at.
-/

namespace R3000

variable {β : Type} {ex : UInt32 → List Exit} {hole : Option UInt32} {todo : Nat}
  {c c' : Cache β} {l : Linker} {store store' : CodeStore β} {pc : UInt32} {x y : Exit}

/-- The direct exits of the blocks in a cache, given those of the block at each address. -/
def Cache.exits (ex : UInt32 → List Exit) (c : Cache β) : List Exit :=
  (c.toList.map (·.pc)).flatMap ex

lemma Cache.Valid.mem_exits (h : c.Valid) :
    x ∈ c.exits ex ↔ ∃ pc, (c.get? pc).isSome ∧ x ∈ ex pc := by
  simp only [Cache.exits, List.mem_flatMap, h.mem_pcs]

/-- The exits depend on which addresses have blocks. -/
lemma Cache.Valid.exits_perm (h : c.Valid) (h' : c'.Valid)
    (hsome : ∀ pc, (c'.get? pc).isSome = (c.get? pc).isSome) :
    (c'.exits ex).Perm (c.exits ex) := by
  refine List.Perm.flatMap_right _ ?_
  rw [List.perm_ext_iff_of_nodup h'.nodup_pcs h.nodup_pcs]
  intro pc
  rw [h'.mem_pcs, h.mem_pcs, hsome]

/-- The cache, the record of sites and the link words agree, save that sites which wait for the block at
`hole` may have found it already, and `todo` exits are neither on record nor counted as dropped. -/
structure Linked (ex : UInt32 → List Exit) (hole : Option UInt32) (todo : Nat) (c : Cache β)
    (l : Linker) (store : CodeStore β) : Prop where
  valid : c.Valid
  bounded : l.pending.length ≤ l.capacity
  recorded_once : l.sites.Nodup
  owned : ∀ k ∈ l.records, (c.get? k.owner).isSome ∧ ⟨k.target, k.site⟩ ∈ ex k.owner
  waiting : ∀ k ∈ l.pending, store.word? k.site = some .slowPath ∧
    (c.get? k.target = none ∨ hole = some k.target)
  reached : ∀ k ∈ l.linked, ∃ e, c.get? k.target = some e ∧ store.word? k.site = some (.block e.code)
  unrecorded : ∀ x ∈ c.exits ex, x.site ∉ l.sites → store.word? x.site = some .slowPath
  distinct : ((c.exits ex).map (·.site)).Nodup
  counted : (c.exits ex).length ≤ l.records.length + l.stats.dropped + todo

namespace Linked

/-! ### Sites and their owners -/

lemma mem_exits_of_record (h : Linked ex hole todo c l store) {k : Link} (hk : k ∈ l.records) :
    ⟨k.target, k.site⟩ ∈ c.exits ex :=
  h.valid.mem_exits.mpr ⟨k.owner, h.owned k hk⟩

lemma word?_of_record (h : Linked ex hole todo c l store) {k : Link} (hk : k ∈ l.records) :
    ∃ w, store.word? k.site = some w := by
  rcases List.mem_append.mp hk with hk | hk
  · exact ⟨_, (h.waiting k hk).1⟩
  · obtain ⟨e, -, hword⟩ := h.reached k hk
    exact ⟨_, hword⟩

/-- Every exit of a cached block has a link word. -/
lemma word?_of_exit (h : Linked ex hole todo c l store) (hx : x ∈ c.exits ex) :
    ∃ w, store.word? x.site = some w := by
  by_cases hmem : x.site ∈ l.sites
  · obtain ⟨k, hk, hsite⟩ := List.mem_map.mp hmem
    exact hsite ▸ h.word?_of_record hk
  · exact ⟨_, h.unrecorded x hx hmem⟩

/-- A site belongs to one exit of one block. -/
lemma exit_unique (h : Linked ex hole todo c l store) {a b : UInt32} (ha : (c.get? a).isSome)
    (hb : (c.get? b).isSome) (hx : x ∈ ex a) (hy : y ∈ ex b) (hsite : x.site = y.site) :
    a = b ∧ x = y := by
  have hxy : x = y := List.inj_on_of_nodup_map h.distinct (h.valid.mem_exits.mpr ⟨a, ha, hx⟩)
    (h.valid.mem_exits.mpr ⟨b, hb, hy⟩) hsite
  refine ⟨?_, hxy⟩
  by_contra hab
  have hpairs := (List.nodup_flatMap.mp (List.Nodup.of_map _ h.distinct)).2
  have hsymm : Std.Symm (Function.onFun List.Disjoint ex) := ⟨fun _ _ hd => List.Disjoint.symm hd⟩
  exact hpairs.forall ((h.valid.mem_pcs a).mpr ha) ((h.valid.mem_pcs b).mpr hb) hab hx (hxy ▸ hy)

/-- Records have sites of their own. -/
lemma site_not_mem (h : Linked ex hole todo c l store) {ks : List Link} (hks : ks ⊆ l.records) {k : Link}
    (hk : k ∈ l.records) (hnot : k ∉ ks) : k.site ∉ ks.map (·.site) := by
  intro hsite
  obtain ⟨k', hk', heq⟩ := List.mem_map.mp hsite
  obtain rfl := List.inj_on_of_nodup_map h.recorded_once (hks hk') hk heq
  exact hnot hk'

/-- The exit behind a site on record. -/
lemma record_of_site (h : Linked ex hole todo c l store) (hpc : (c.get? pc).isSome) (hx : x ∈ ex pc)
    {k : Link} (hk : k ∈ l.records) (hsite : k.site = x.site) : k = ⟨x.site, x.target, pc⟩ := by
  obtain ⟨howner, hexit⟩ := h.owned k hk
  obtain ⟨rfl, rfl⟩ := h.exit_unique hpc howner hx hexit hsite.symm
  rfl

/-! ### Changes that keep the graph -/

/-- Link words may be added. -/
lemma mono_store (h : Linked ex hole todo c l store)
    (hword : ∀ i w, store.word? i = some w → store'.word? i = some w) :
    Linked ex hole todo c l store' :=
  { h with
    waiting := fun k hk => ⟨hword _ _ (h.waiting k hk).1, (h.waiting k hk).2⟩
    reached := fun k hk => by
      obtain ⟨e, he, hw⟩ := h.reached k hk
      exact ⟨e, he, hword _ _ hw⟩
    unrecorded := fun x hx hmem => hword _ _ (h.unrecorded x hx hmem) }

/-- The graph is about the code that each address has. -/
lemma congr_cache (h : Linked ex hole todo c l store) (h' : c'.Valid)
    (hcode : ∀ pc, (c'.get? pc).map (·.code) = (c.get? pc).map (·.code)) :
    Linked ex hole todo c' l store := by
  have hsome : ∀ pc, (c'.get? pc).isSome = (c.get? pc).isSome := fun pc => by
    simpa using congrArg Option.isSome (hcode pc)
  have hperm : (c'.exits ex).Perm (c.exits ex) := h.valid.exits_perm h' hsome
  exact {
    valid := h'
    bounded := h.bounded
    recorded_once := h.recorded_once
    owned := fun k hk => by
      rw [hsome]
      exact h.owned k hk
    waiting := fun k hk => by
      have hw := h.waiting k hk
      rwa [← Option.isNone_iff_eq_none, ← Option.not_isSome, ← hsome, Option.not_isSome,
        Option.isNone_iff_eq_none] at hw
    reached := fun k hk => by
      obtain ⟨e, he, hw⟩ := h.reached k hk
      have hmap := hcode k.target
      rw [he, Option.map_some, Option.map_eq_some_iff] at hmap
      obtain ⟨e', he', hcode'⟩ := hmap
      exact ⟨e', he', hcode' ▸ hw⟩
    unrecorded := fun x hx => h.unrecorded x (hperm.mem_iff.mp hx)
    distinct := (hperm.map _).nodup_iff.mpr h.distinct
    counted := hperm.length_eq.trans_le h.counted }

/-- The graph is about the exits of cached blocks. -/
lemma congr_exits (h : Linked ex hole todo c l store) {ex' : UInt32 → List Exit}
    (heq : ∀ pc, (c.get? pc).isSome → ex' pc = ex pc) : Linked ex' hole todo c l store := by
  have hexits : c.exits ex' = c.exits ex :=
    List.flatMap_congr fun pc hpc => heq pc ((h.valid.mem_pcs pc).mp hpc)
  exact { h with
    owned := fun k hk => by
      rw [heq _ (h.owned k hk).1]
      exact h.owned k hk
    unrecorded := hexits ▸ h.unrecorded
    distinct := hexits ▸ h.distinct
    counted := hexits ▸ h.counted }

/-- Without blocks and sites there is nothing to agree on. -/
lemma of_empty (hvalid : c.Valid) (hnil : c.toList = []) (hpending : l.pending = [])
    (hlinked : l.linked = []) : Linked ex none todo c l store := by
  have hexits : c.exits ex = [] := by
    rw [Cache.exits, hnil]
    rfl
  have hrecords : l.records = [] := by rw [Linker.records, hpending, hlinked]; rfl
  have hsites : l.sites = [] := by rw [Linker.sites, hrecords]; rfl
  exact {
    valid := hvalid
    bounded := by simp [hpending]
    recorded_once := by simp [hsites]
    owned := by simp [hrecords]
    waiting := by simp [hpending]
    reached := by simp [hlinked]
    unrecorded := by simp [hexits]
    distinct := by simp [hexits]
    counted := by simp [hexits] }

end Linked

end R3000
