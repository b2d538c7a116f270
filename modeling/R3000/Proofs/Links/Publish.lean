import Mathlib
import R3000.Proofs.Links.Linked

/-!
# Publishing a block

A new block goes through three stages: it enters the cache with link words of its own, its exits are
linked one by one, and the sites that wait for it are linked to it.  Each stage keeps the link graph.
-/

namespace R3000

variable {β : Type} {ex : UInt32 → List Exit} {hole : Option UInt32} {todo : Nat}
  {c c' : Cache β} {l : Linker} {store store' : CodeStore β} {pc : UInt32} {x : Exit} {e : Entry β}

namespace Linked

/-! ### Entering the cache -/

/-- The exits after a block entered the cache are its own and the old ones. -/
lemma exits_insert (h : c.Valid) (ex : UInt32 → List Exit) (hfresh : c.get? e.pc = none)
    (hinsert : c.insert e = .ok c') (exits : List Exit) :
    (c'.exits (Function.update ex e.pc exits)).Perm (exits ++ c.exits ex) := by
  have hperm : c'.toList.Perm (e :: c.toList) := by
    obtain ⟨-, ⟨-, hperm⟩ | ⟨x, hpc, rest, hold, -⟩⟩ := h.insert hinsert
    · exact hperm
    · have hx := h.get?_eq_some_iff.mpr ⟨hold.mem_iff.mpr List.mem_cons_self, hpc⟩
      simp [hfresh] at hx
  refine ((hperm.map _).flatMap_right _).trans ?_
  rw [List.map_cons, List.flatMap_cons, Function.update_self]
  refine (List.Perm.of_eq (List.flatMap_congr fun pc hpc => ?_)).append_left _
  rw [Function.update_of_ne]
  rintro rfl
  have hsome := (h.mem_pcs e.pc).mp hpc
  simp [hfresh] at hsome

/-- A new block brings exits with words of its own, which nothing has looked at yet. -/
lemma insert (h : Linked ex none todo c l store) (hfresh : c.get? e.pc = none)
    (hinsert : c.insert e = .ok c') {k : Nat} {exits : List Exit}
    (hwords : store'.words = store.words ++ Array.replicate k .slowPath)
    (hnodup : (exits.map (·.site)).Nodup)
    (hsites : ∀ x ∈ exits, store.words.size ≤ x.site ∧ x.site < store'.words.size) :
    Linked (Function.update ex e.pc exits) (some e.pc) (exits.length + todo) c' l store' := by
  have hvalid := (h.valid.insert hinsert).1
  have hget := h.valid.get?_insert hinsert
  have hnew : ∀ x ∈ exits, store'.word? x.site = some .slowPath := fun x hx =>
    CodeStore.word?_of_new hwords (hsites x hx).1 (hsites x hx).2
  have hother : ∀ pc, (c.get? pc).isSome → pc ≠ e.pc := by
    rintro pc hpc rfl
    simp [hfresh] at hpc
  have hexits := exits_insert h.valid ex hfresh hinsert exits
  have hold := h.mono_store fun i w => CodeStore.word?_of_old hwords
  exact {
    valid := hvalid
    bounded := h.bounded
    recorded_once := h.recorded_once
    owned := fun k hk => by
      obtain ⟨howner, hexit⟩ := h.owned k hk
      have hne := hother _ howner
      rw [hget, Function.update_of_ne hne, Function.update_of_ne hne]
      exact ⟨howner, hexit⟩
    waiting := fun k hk => by
      obtain ⟨hword, hnone | hnone⟩ := hold.waiting k hk
      · refine ⟨hword, ?_⟩
        rw [hget, Function.update_apply]
        by_cases htarget : k.target = e.pc
        · exact .inr (congrArg some htarget.symm)
        · exact .inl (by rw [if_neg htarget, hnone])
      · simp at hnone
    reached := fun k hk => by
      obtain ⟨e', he', hword⟩ := hold.reached k hk
      refine ⟨e', ?_, hword⟩
      rw [hget, Function.update_of_ne (hother _ (by rw [he']; rfl)), he']
    unrecorded := fun x hx hmem => by
      rcases List.mem_append.mp (hexits.mem_iff.mp hx) with hx | hx
      · exact hnew x hx
      · exact hold.unrecorded x hx hmem
    distinct := by
      rw [(hexits.map _).nodup_iff, List.map_append, List.nodup_append]
      refine ⟨hnodup, h.distinct, ?_⟩
      rintro i hi j hj rfl
      obtain ⟨x, hx, rfl⟩ := List.mem_map.mp hi
      obtain ⟨y, hy, hsite⟩ := List.mem_map.mp hj
      obtain ⟨w, hw⟩ := h.word?_of_exit hy
      exact absurd (hsite ▸ CodeStore.lt_size_of_word? hw) (not_lt.mpr (hsites x hx).1)
    counted := by
      have hcount := h.counted
      rw [hexits.length_eq, List.length_append]
      omega }

/-! ### Linking its exits -/

/-- An exit that goes on record, whether it is linked or waits. -/
lemma record (h : Linked ex hole (todo + 1) c l store) (hpc : (c.get? pc).isSome) (hx : x ∈ ex pc)
    (hmem : x.site ∉ l.sites) {l' : Linker}
    (hperm : l'.records.Perm (⟨x.site, x.target, pc⟩ :: l.records))
    (hdropped : l'.stats.dropped = l.stats.dropped) (hbounded : l'.pending.length ≤ l'.capacity)
    (hword : ∀ i, i ≠ x.site → store'.word? i = store.word? i)
    (hwaiting : ∀ k ∈ l'.pending, k ∈ l.pending ∨
      store'.word? k.site = some .slowPath ∧ c.get? k.target = none)
    (hreached : ∀ k ∈ l'.linked, k ∈ l.linked ∨
      ∃ e, c.get? k.target = some e ∧ store'.word? k.site = some (.block e.code)) :
    Linked ex hole todo c l' store' ∧ ∀ i ∈ l'.sites, i = x.site ∨ i ∈ l.sites := by
  have hsites : ∀ i, i ∈ l'.sites ↔ i = x.site ∨ i ∈ l.sites := fun i => by
    rw [Linker.sites, (hperm.map _).mem_iff, List.map_cons, List.mem_cons, Linker.sites]
  have hne : ∀ k ∈ l.records, k.site ≠ x.site := fun k hk e => hmem (e ▸ List.mem_map_of_mem hk)
  refine ⟨{
    valid := h.valid
    bounded := hbounded
    recorded_once := ?_
    owned := fun k hk => ?_
    waiting := fun k hk => ?_
    reached := fun k hk => ?_
    unrecorded := fun y hy hsite => ?_
    distinct := h.distinct
    counted := ?_ }, fun i hi => (hsites i).mp hi⟩
  · rw [Linker.sites, (hperm.map _).nodup_iff, List.map_cons, List.nodup_cons]
    exact ⟨hmem, h.recorded_once⟩
  · rcases List.mem_cons.mp (hperm.mem_iff.mp hk) with rfl | hk
    · exact ⟨hpc, hx⟩
    · exact h.owned k hk
  · rcases hwaiting k hk with hk | ⟨hslow, hnone⟩
    · rw [hword _ (hne k (List.mem_append_left _ hk))]
      exact h.waiting k hk
    · exact ⟨hslow, .inl hnone⟩
  · rcases hreached k hk with hk | hblock
    · rw [hword _ (hne k (List.mem_append_right _ hk))]
      exact h.reached k hk
    · exact hblock
  · rw [hsites, not_or] at hsite
    rw [hword _ hsite.1]
    exact h.unrecorded y hy hsite.2
  · have hcount := h.counted
    rw [hperm.length_eq, hdropped, List.length_cons]
    omega

/-- An exit of a cached block is linked, waits or is dropped. -/
lemma linkExit (h : Linked ex hole (todo + 1) c l store) (hpc : (c.get? pc).isSome) (hx : x ∈ ex pc)
    (hmem : x.site ∉ l.sites) :
    Linked ex hole todo c (l.linkExit store c pc x).2.1 (l.linkExit store c pc x).2.2 ∧
      ∀ i ∈ (l.linkExit store c pc x).2.1.sites, i = x.site ∨ i ∈ l.sites := by
  have hslow := h.unrecorded x (h.valid.mem_exits.mpr ⟨pc, hpc, hx⟩) hmem
  rw [Linker.linkExit]
  dsimp only
  split
  · rename_i e he
    refine h.record hpc hx hmem List.perm_middle rfl h.bounded (fun i hi => ?_)
      (fun k hk => .inl hk) fun k hk => ?_
    · exact CodeStore.word?_patch_of_ne (Ne.symm hi)
    · rcases List.mem_cons.mp hk with rfl | hk
      · exact .inr ⟨e, he, CodeStore.word?_patch_self hslow⟩
      · exact .inl hk
  · rename_i hnone
    rw [Linker.defer]
    split
    · rename_i hroom
      have hperm : ((l.pending ++ [(⟨x.site, x.target, pc⟩ : Link)]) ++ l.linked).Perm
          (⟨x.site, x.target, pc⟩ :: l.records) := by
        rw [List.append_assoc]
        exact List.perm_middle
      refine h.record hpc hx hmem hperm rfl ?_ (fun _ _ => rfl) (fun k hk => ?_) fun k hk => .inl hk
      · dsimp only
        rw [List.length_append, List.length_singleton]
        exact hroom
      · rcases List.mem_append.mp hk with hk | hk
        · exact .inl hk
        · obtain rfl := List.mem_singleton.mp hk
          exact .inr ⟨hslow, hnone⟩
    · have hcount := h.counted
      refine ⟨{ h with counted := ?_ }, fun i hi => .inr hi⟩
      change _ ≤ l.records.length + (l.stats.dropped + 1) + todo
      omega

/-- All exits of a cached block, in order. -/
lemma linkExits (hpc : (c.get? pc).isSome) {exits : List Exit}
    (h : Linked ex hole (exits.length + todo) c l store) (hsub : ∀ x ∈ exits, x ∈ ex pc)
    (hnodup : (exits.map (·.site)).Nodup) (hmem : ∀ x ∈ exits, x.site ∉ l.sites) :
    Linked ex hole todo c (Recompiler.linkExits c pc exits (l, store)).1
      (Recompiler.linkExits c pc exits (l, store)).2 := by
  induction exits generalizing l store with
  | nil =>
    rw [List.length_nil, Nat.zero_add] at h
    exact h
  | cons x exits ih =>
    obtain ⟨hx, hexits⟩ := List.nodup_cons.mp hnodup
    rw [List.length_cons, Nat.add_right_comm] at h
    obtain ⟨hnext, hsites⟩ := h.linkExit hpc (hsub x List.mem_cons_self) (hmem x List.mem_cons_self)
    refine ih hnext (fun y hy => hsub y (List.mem_cons_of_mem _ hy)) hexits fun y hy hy' => ?_
    rcases hsites _ hy' with hsite | hold
    · exact hx (List.mem_map.mpr ⟨y, hy, hsite⟩)
    · exact hmem y (List.mem_cons_of_mem _ hy) hold

/-! ### Linking the sites that wait for it -/

/-- Once the sites that wait for a cached block are linked, none waits for it. -/
lemma apply (h : Linked ex (some pc) todo c l store) (he : c.get? pc = some e) :
    Linked ex none todo c (l.apply store pc e.code).2.1 (l.apply store pc e.code).2.2 := by
  rw [Linker.apply]
  dsimp only
  set ready := l.pending.filter (·.target == pc) with hready
  have hmem : ∀ k, k ∈ ready ↔ k ∈ l.pending ∧ k.target = pc := fun k => by
    rw [hready, List.mem_filter, beq_iff_eq]
  have hperm : (l.pending.filter (·.target != pc) ++ (ready.reverse ++ l.linked)).Perm l.records := by
    rw [← List.append_assoc]
    refine List.Perm.append_right _ ?_
    refine (List.Perm.append_left _ ready.reverse_perm).trans (List.perm_append_comm.trans ?_)
    exact List.filter_append_perm (·.target == pc) l.pending
  -- A site that was not ready keeps its word.
  have hsub : ready ⊆ l.records := fun k hk => List.mem_append_left _ ((hmem k).mp hk).1
  have hother : ∀ k ∈ l.records, k ∉ ready → k.site ∉ ready.map (·.site) := fun k => h.site_not_mem hsub
  exact {
    valid := h.valid
    bounded := (List.length_filter_le _ _).trans h.bounded
    recorded_once := (hperm.map _).nodup_iff.mpr h.recorded_once
    owned := fun k hk => h.owned k (hperm.mem_iff.mp hk)
    waiting := fun k hk => by
      obtain ⟨hk, hne⟩ := List.mem_filter.mp hk
      have hne : k.target ≠ pc := by simpa using hne
      obtain ⟨hslow, hnone | hhole⟩ := h.waiting k hk
      · rw [Linker.word?_patchAll_of_not_mem
          (hother k (List.mem_append_left _ hk) fun hr => hne ((hmem k).mp hr).2)]
        exact ⟨hslow, .inl hnone⟩
      · exact absurd (Option.some.inj hhole).symm hne
    reached := fun k hk => by
      rcases List.mem_append.mp hk with hk | hk
      · have hk := List.mem_reverse.mp hk
        obtain ⟨hpending, htarget⟩ := (hmem k).mp hk
        refine ⟨e, htarget ▸ he, ?_⟩
        exact Linker.word?_patchAll_of_mem (List.mem_map_of_mem hk) (h.waiting k hpending).1
      · obtain ⟨e', he', hword⟩ := h.reached k hk
        refine ⟨e', he', ?_⟩
        rw [Linker.word?_patchAll_of_not_mem, hword]
        refine hother k (List.mem_append_right _ hk) fun hr => ?_
        have hslow := (h.waiting k ((hmem k).mp hr).1).1
        simp [hword] at hslow
    unrecorded := fun y hy hsite => by
      have hsite : y.site ∉ l.sites := fun hold => hsite ((hperm.map _).mem_iff.mpr hold)
      rw [Linker.word?_patchAll_of_not_mem]
      · exact h.unrecorded y hy hsite
      · intro hr
        obtain ⟨k, hk, heq⟩ := List.mem_map.mp hr
        exact hsite (heq ▸ List.mem_map_of_mem (List.mem_append_left _ ((hmem k).mp hk).1))
    distinct := h.distinct
    counted := by
      have hcount := h.counted
      rw [← hperm.length_eq] at hcount
      exact hcount }

end Linked

end R3000
