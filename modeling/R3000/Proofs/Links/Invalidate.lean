import Mathlib
import R3000.Proofs.Links.Linked

/-!
# Removing blocks

Blocks that are removed take the sites they own with them.  The sites of other blocks that were linked to
them go back to the slow path, where they wait as far as there is room.
-/

namespace R3000

variable {β : Type} {ex : UInt32 → List Exit} {todo : Nat} {c : Cache β} {l : Linker}
  {store : CodeStore β} {pcs : List UInt32} {x : Exit}

/-! ### The record after a removal -/

namespace Linker

/-- The linked sites that survive the removal of blocks but lose their target. -/
def broken (l : Linker) (p : UInt32 → Bool) : List Link :=
  ((l.linked.filter fun k => !p k.owner).filter fun k => p k.target).reverse

/-- The linker once the sites of removed blocks are forgotten and those linked to them sent back. -/
def severed (l : Linker) (p : UInt32 → Bool) (store : CodeStore β) : Linker × CodeStore β :=
  let (_, linker) := l.forgetOwnedBy p
  let (_, linker, store) := linker.unlinkWhere store p
  (linker, store)

/-- The sites that wait after a removal. -/
lemma pending_severed (l : Linker) (p : UInt32 → Bool) (store : CodeStore β) :
    (l.severed p store).1.pending = (l.pending.filter fun k => !p k.owner) ++
      (l.broken p).take (l.capacity - (l.pending.filter fun k => !p k.owner).length) := by
  simp only [severed, forgetOwnedBy, unlinkWhere, foldl_defer]
  rfl

lemma linked_severed (l : Linker) (p : UInt32 → Bool) (store : CodeStore β) :
    (l.severed p store).1.linked =
      (l.linked.filter fun k => !p k.owner).filter fun k => !p k.target := by
  simp only [severed, forgetOwnedBy, unlinkWhere, foldl_defer]

lemma capacity_severed (l : Linker) (p : UInt32 → Bool) (store : CodeStore β) :
    (l.severed p store).1.capacity = l.capacity := by
  simp only [severed, forgetOwnedBy, unlinkWhere, foldl_defer]

lemma dropped_severed (l : Linker) (p : UInt32 → Bool) (store : CodeStore β) :
    (l.severed p store).1.stats.dropped = l.stats.dropped + ((l.broken p).length -
      (l.capacity - (l.pending.filter fun k => !p k.owner).length)) := by
  simp only [severed, forgetOwnedBy, unlinkWhere, foldl_defer]
  rfl

/-- The sites that survive, with those that are dropped. -/
lemma perm_severed (l : Linker) (p : UInt32 → Bool) (store : CodeStore β) :
    ((l.severed p store).1.records ++
      (l.broken p).drop (l.capacity - (l.pending.filter fun k => !p k.owner).length)).Perm
      (l.records.filter fun k => !p k.owner) := by
  set n := l.capacity - (l.pending.filter fun k => !p k.owner).length
  have hsplit : (l.broken p ++ (l.severed p store).1.linked).Perm
      (l.linked.filter fun k => !p k.owner) := by
    rw [linked_severed]
    refine (List.Perm.append_right _ (List.reverse_perm _)).trans ?_
    exact List.filter_append_perm (fun k : Link => p k.target) _
  rw [records, pending_severed, records, List.filter_append, List.append_assoc, List.append_assoc]
  refine List.Perm.append_left _ ?_
  refine List.Perm.trans ?_ hsplit
  conv_rhs => rw [← List.take_append_drop n (l.broken p), List.append_assoc]
  exact List.Perm.append_left _ List.perm_append_comm

end Linker

/-! ### The graph after a removal -/

namespace Linked

lemma sites_severed_nodup (h : Linked ex none todo c l store) (p : UInt32 → Bool) :
    (l.severed p store).1.sites.Nodup := by
  have hnodup : ((l.records.filter fun k => !p k.owner).map (·.site)).Nodup :=
    (List.filter_sublist.map _).nodup h.recorded_once
  rw [← ((l.perm_severed p store).map _).nodup_iff, List.map_append] at hnodup
  exact (List.nodup_append.mp hnodup).1

/-- A surviving site on record was on record, and its block stays. -/
lemma mem_of_mem_severed {p : UInt32 → Bool} {k : Link} (hk : k ∈ (l.severed p store).1.records) :
    k ∈ l.records ∧ p k.owner = false := by
  have hmem := (l.perm_severed p store).mem_iff.mp (List.mem_append_left _ hk)
  simpa using List.mem_filter.mp hmem

lemma mem_broken {p : UInt32 → Bool} {k : Link} :
    k ∈ l.broken p ↔ k ∈ l.linked ∧ p k.owner = false ∧ p k.target = true := by
  simp only [Linker.broken, List.mem_reverse, List.mem_filter, Bool.not_eq_true', and_assoc]

/-- Records owned by removed blocks are no more than the exits of these blocks. -/
lemma length_owned_le (h : Linked ex none todo c l store) (pcs : List UInt32) :
    (l.records.filter fun k => pcs.contains k.owner).length ≤
      (((c.eraseAll pcs).1.map (·.pc)).flatMap ex).length := by
  have hnodup : ((l.records.filter fun k => pcs.contains k.owner).map (·.site)).Nodup :=
    (List.filter_sublist.map _).nodup h.recorded_once
  have hsub : (l.records.filter fun k => pcs.contains k.owner).map (·.site) ⊆
      (((c.eraseAll pcs).1.map (·.pc)).flatMap ex).map (·.site) := by
    intro i hi
    obtain ⟨k, hk, rfl⟩ := List.mem_map.mp hi
    obtain ⟨hk, hpcs⟩ := List.mem_filter.mp hk
    obtain ⟨howner, hexit⟩ := h.owned k hk
    obtain ⟨e, he⟩ := Option.isSome_iff_exists.mp howner
    obtain ⟨hmem, hpc⟩ := h.valid.get?_eq_some_iff.mp he
    have hgone : e ∈ (c.eraseAll pcs).1 := by
      refine (List.mem_append.mp ((h.valid.toList_eraseAll pcs).mem_iff.mp hmem)).resolve_right ?_
      intro hleft
      have hsome := (h.valid.valid_eraseAll pcs).get?_eq_some_iff.mpr ⟨hleft, hpc⟩
      rw [h.valid.get?_eraseAll, if_pos (by simpa using hpcs)] at hsome
      simp at hsome
    refine List.mem_map.mpr ⟨⟨k.target, k.site⟩, List.mem_flatMap.mpr ⟨k.owner, ?_, hexit⟩, rfl⟩
    exact List.mem_map.mpr ⟨e, hgone, hpc⟩
  simpa using (hnodup.subperm hsub).length_le

/-- The exits are those of the removed blocks and those of the blocks that stay. -/
lemma exits_eraseAll (h : Linked ex none todo c l store) (pcs : List UInt32) :
    (c.exits ex).Perm
      (((c.eraseAll pcs).1.map (·.pc)).flatMap ex ++ (c.eraseAll pcs).2.exits ex) := by
  refine (((h.valid.toList_eraseAll pcs).map _).flatMap_right _).trans ?_
  rw [List.map_append, List.flatMap_append]
  exact .refl _

/-! ### Words after a removal -/

variable {p : UInt32 → Bool} {k : Link}

/-- A word changes only if its site is broken. -/
lemma word?_severed {i : Site} (hi : i ∉ (l.broken p).map (·.site)) :
    (l.severed p store).2.word? i = store.word? i :=
  Linker.word?_patchAll_of_not_mem hi

lemma word?_severed_of_record (h : Linked ex none todo c l store) (hk : k ∈ l.records) (hnot : k ∉ l.broken p) :
    (l.severed p store).2.word? k.site = store.word? k.site := by
  have hsub : l.broken p ⊆ l.records := fun k' hk' => List.mem_append_right _ (mem_broken.mp hk').1
  exact word?_severed (h.site_not_mem hsub hk hnot)

lemma word?_severed_of_broken (h : Linked ex none todo c l store) (hk : k ∈ l.broken p) :
    (l.severed p store).2.word? k.site = some .slowPath := by
  obtain ⟨e, -, hblock⟩ := h.reached k (mem_broken.mp hk).1
  exact Linker.word?_patchAll_of_mem (List.mem_map_of_mem hk) hblock

/-! ### Records after a removal -/

lemma waiting_severed (h : Linked ex none todo c l store) (hk : k ∈ (l.severed pcs.contains store).1.pending) :
    (l.severed pcs.contains store).2.word? k.site = some .slowPath ∧
      (c.eraseAll pcs).2.get? k.target = none := by
  rw [Linker.pending_severed] at hk
  rcases List.mem_append.mp hk with hk | hk
  · have hpending := List.mem_of_mem_filter hk
    obtain ⟨hslow, hnone⟩ := h.waiting k hpending
    simp only [reduceCtorEq, or_false] at hnone
    constructor
    · rw [h.word?_severed_of_record (List.mem_append_left _ hpending)]
      · exact hslow
      · intro hb
        obtain ⟨e, -, hblock⟩ := h.reached k (mem_broken.mp hb).1
        simp [hblock] at hslow
    · rw [h.valid.get?_eraseAll, hnone, ite_self]
  · have hk := List.mem_of_mem_take hk
    have htarget : k.target ∈ pcs := List.contains_iff_mem.mp (mem_broken.mp hk).2.2
    refine ⟨h.word?_severed_of_broken hk, ?_⟩
    rw [h.valid.get?_eraseAll, if_pos htarget]

lemma reached_severed (h : Linked ex none todo c l store) (hk : k ∈ (l.severed pcs.contains store).1.linked) :
    ∃ e, (c.eraseAll pcs).2.get? k.target = some e ∧
      (l.severed pcs.contains store).2.word? k.site = some (.block e.code) := by
  rw [Linker.linked_severed] at hk
  simp only [List.mem_filter, Bool.not_eq_true'] at hk
  obtain ⟨⟨hk, howner⟩, htarget⟩ := hk
  obtain ⟨e, he, hblock⟩ := h.reached k hk
  refine ⟨e, ?_, ?_⟩
  · rw [h.valid.get?_eraseAll, if_neg, he]
    simpa using htarget
  · rw [h.word?_severed_of_record (List.mem_append_right _ hk), hblock]
    intro hb
    exact Bool.false_ne_true (htarget.symm.trans (mem_broken.mp hb).2.2)

/-- A record of a block that stays is kept, unless its site was broken and found no room. -/
lemma mem_sites_severed (h : Linked ex none todo c l store) {pc : UInt32} (hpc : (c.get? pc).isSome)
    (hx : x ∈ ex pc) (hp : p pc = false) (hsite : x.site ∈ l.sites) :
    x.site ∈ (l.severed p store).1.sites ∨ x.site ∈ (l.broken p).map (·.site) := by
  obtain ⟨k, hk, heq⟩ := List.mem_map.mp hsite
  obtain rfl := h.record_of_site hpc hx hk heq
  have hkeep : ⟨x.site, x.target, pc⟩ ∈ l.records.filter fun k => !p k.owner :=
    List.mem_filter.mpr ⟨hk, by simp [hp]⟩
  rcases List.mem_append.mp ((l.perm_severed p store).mem_iff.mpr hkeep) with hk | hk
  · exact .inl (List.mem_map_of_mem hk)
  · exact .inr (List.mem_map.mpr ⟨_, List.mem_of_mem_drop hk, rfl⟩)

lemma unrecorded_severed (h : Linked ex none todo c l store) (hx : x ∈ (c.eraseAll pcs).2.exits ex)
    (hsite : x.site ∉ (l.severed pcs.contains store).1.sites) :
    (l.severed pcs.contains store).2.word? x.site = some .slowPath := by
  by_cases hb : x.site ∈ (l.broken pcs.contains).map (·.site)
  · obtain ⟨k, hk, heq⟩ := List.mem_map.mp hb
    exact heq ▸ h.word?_severed_of_broken hk
  · obtain ⟨pc, hpc, hxpc⟩ := (h.valid.valid_eraseAll pcs).mem_exits.mp hx
    have hstays : pc ∉ pcs := by
      intro hgone
      rw [h.valid.get?_eraseAll, if_pos hgone] at hpc
      simp at hpc
    rw [h.valid.get?_eraseAll, if_neg hstays] at hpc
    rw [word?_severed hb]
    apply h.unrecorded x (h.valid.mem_exits.mpr ⟨pc, hpc, hxpc⟩)
    intro hold
    have hout : pcs.contains pc = false := by simpa using hstays
    exact (h.mem_sites_severed hpc hxpc hout hold).elim hsite hb

/-- Every exit of a block that stays is on record, or counted as dropped. -/
lemma counted_severed (h : Linked ex none todo c l store) (pcs : List UInt32) :
    ((c.eraseAll pcs).2.exits ex).length ≤ (l.severed pcs.contains store).1.records.length +
      (l.severed pcs.contains store).1.stats.dropped + todo := by
  have hcount := h.counted
  have hlength := (l.perm_severed pcs.contains store).length_eq
  have hfilter := (List.filter_append_perm (fun k : Link => pcs.contains k.owner) l.records).length_eq
  have howned := h.length_owned_le pcs
  rw [(h.exits_eraseAll pcs).length_eq, List.length_append] at hcount
  rw [Linker.dropped_severed]
  simp only [List.length_append, List.length_drop] at hlength hfilter
  omega

/-- The blocks at some addresses are removed, the sites they own forgotten, and the links to them cut. -/
lemma eraseAll (h : Linked ex none todo c l store) (pcs : List UInt32) :
    Linked ex none todo (c.eraseAll pcs).2 (l.severed pcs.contains store).1
      (l.severed pcs.contains store).2 where
  valid := h.valid.valid_eraseAll pcs
  bounded := by
    have hlength : (l.pending.filter fun k => !pcs.contains k.owner).length ≤ l.capacity :=
      (List.length_filter_le _ _).trans h.bounded
    rw [Linker.pending_severed, Linker.capacity_severed, List.length_append, List.length_take]
    omega
  recorded_once := h.sites_severed_nodup _
  owned k hk := by
    obtain ⟨hk, howner⟩ := mem_of_mem_severed hk
    rw [h.valid.get?_eraseAll, if_neg]
    · exact h.owned k hk
    · simpa using howner
  waiting k hk := (h.waiting_severed hk).imp_right .inl
  reached k hk := h.reached_severed hk
  unrecorded x hx hsite := h.unrecorded_severed hx hsite
  distinct := by
    have hnodup := h.distinct
    rw [((h.exits_eraseAll pcs).map _).nodup_iff, List.map_append] at hnodup
    exact (List.nodup_append.mp hnodup).2.1
  counted := h.counted_severed pcs

end Linked

end R3000
