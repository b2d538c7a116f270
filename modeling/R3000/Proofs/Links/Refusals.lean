import Mathlib
import R3000.Proofs.Links.Fates
import R3000.Proofs.Links.Invalidate
import R3000.Proofs.Links.Publish

/-!
# Refused sites

A site that finds the list full is refused, and a refusal notes which sites were waiting then.  `Excused` says that
the exits of cached blocks are on record or were refused, and no exit is both.  Publishing and removing blocks keep
this with the refusals that they add.
-/

namespace R3000

variable {β : Type}

/-- The link of an exit of the block at an address. -/
def Exit.link (owner : UInt32) (x : Exit) : Link := ⟨x.site, x.target, owner⟩

/-- A site that found no room to wait, and the sites that were waiting. -/
structure Refusal where
  link : Link
  waiting : List Link
  deriving DecidableEq

namespace Linker

/-! ### What is refused -/

/-- Of the exits of a block that are linked one after the other, those that are dropped. -/
def refusedExits (cache : Cache β) (owner : UInt32) : List Exit → Linker × CodeStore β → List Refusal
  | [], _ => []
  | x :: exits, (l, store) =>
    let next := l.linkExit store cache owner x
    (if next.1 = .dropped then [⟨x.link owner, l.pending⟩] else []) ++ refusedExits cache owner exits next.2

/-- Of links that are cut one after the other, those that are dropped. -/
def refusedLinks : List Link → Linker → List Refusal
  | [], _ => []
  | k :: links, l =>
    let next := l.defer k
    (if next.1 = .dropped then [⟨k, l.pending⟩] else []) ++ refusedLinks links next.2

variable {cache : Cache β} {owner : UInt32} {exits : List Exit} {links : List Link} {l : Linker}
  {store store' : CodeStore β}

/-- What is refused does not depend on the words. -/
lemma refusedExits_congr (cache : Cache β) (owner : UInt32) (exits : List Exit) (l : Linker)
    (store store' : CodeStore β) :
    refusedExits cache owner exits (l, store) = refusedExits cache owner exits (l, store') := by
  induction exits generalizing l store store' with
  | nil => rfl
  | cons x exits ih =>
    rw [refusedExits, refusedExits, linkExit, linkExit]
    cases cache.get? x.target with
    | some e => exact congrArg ([] ++ ·) (ih _ _ _)
    | none => exact congrArg (_ ++ ·) (ih _ _ _)

/-- An exit is refused by a full list. -/
lemma length_waiting_refusedExits (hbounded : l.pending.length ≤ l.capacity) {ρ : Refusal}
    (hρ : ρ ∈ refusedExits cache owner exits (l, store)) : ρ.waiting.length = l.capacity := by
  induction exits generalizing l store with
  | nil => cases hρ
  | cons x exits ih =>
    have hnext := bounded_perform hbounded store (.linkExit cache owner x)
    have hcapacity := capacity_perform l store (.linkExit cache owner x)
    rw [perform] at hnext hcapacity
    rw [refusedExits] at hρ
    rcases List.mem_append.mp hρ with hρ | hρ
    · obtain ⟨e, -, heq⟩ | ⟨-, -, heq⟩ | ⟨-, hfull, heq⟩ := l.linkExit_cases store cache owner x
      · simp [heq] at hρ
      · simp [heq] at hρ
      · rw [heq, if_pos rfl, List.mem_singleton] at hρ
        exact hρ ▸ le_antisymm hbounded hfull
    · exact (ih (hcapacity.symm ▸ hnext) hρ).trans hcapacity

lemma defer_eq_dropped (l : Linker) (k : Link) : (l.defer k).1 = .dropped ↔ l.capacity ≤ l.pending.length := by
  rw [defer]
  split <;> simp <;> omega

lemma bounded_defer (h : l.pending.length ≤ l.capacity) (k : Link) :
    (l.defer k).2.pending.length ≤ l.capacity ∧ (l.defer k).2.capacity = l.capacity := by
  rw [defer]
  split
  · rename_i hroom
    refine ⟨?_, rfl⟩
    rw [List.length_append]
    exact hroom
  · exact ⟨h, rfl⟩

/-- A link that is cut is refused by a full list. -/
lemma length_waiting_refusedLinks (hbounded : l.pending.length ≤ l.capacity) {ρ : Refusal}
    (hρ : ρ ∈ refusedLinks links l) : ρ.waiting.length = l.capacity := by
  induction links generalizing l with
  | nil => cases hρ
  | cons k links ih =>
    obtain ⟨hnext, hcapacity⟩ := bounded_defer hbounded k
    rw [refusedLinks] at hρ
    rcases List.mem_append.mp hρ with hρ | hρ
    · split_ifs at hρ with hdropped
      · rw [List.mem_singleton] at hρ
        exact hρ ▸ le_antisymm hbounded ((l.defer_eq_dropped k).mp hdropped)
      · cases hρ
    · exact (ih (hcapacity.symm ▸ hnext) hρ).trans hcapacity

lemma refusedLinks_links (links : List Link) (l : Linker) :
    (refusedLinks links l).map (·.link) = l.refused links := by
  induction links generalizing l with
  | nil => rfl
  | cons k links ih =>
    rw [refusedLinks, refused]
    obtain ⟨outcome, next⟩ := l.defer k
    cases outcome with
    | dropped => exact congrArg (k :: ·) (ih next)
    | linked | deferred => exact ih next

/-- The exits of a block come on record, or are refused. -/
lemma perm_linkExits (cache : Cache β) (owner : UInt32) (exits : List Exit) (l : Linker) (store : CodeStore β) :
    ((Recompiler.linkExits cache owner exits (l, store)).1.records ++
      (refusedExits cache owner exits (l, store)).map (·.link)).Perm (exits.map (·.link owner) ++ l.records) := by
  induction exits generalizing l store with
  | nil => exact .of_eq (List.append_nil _)
  | cons x exits ih =>
    rw [List.perm_iff_count]
    intro k
    have hrest := (ih (l.linkExit store cache owner x).2.1 (l.linkExit store cache owner x).2.2).count_eq k
    rw [Prod.mk.eta] at hrest
    have hstep := count_perform l store (.linkExit cache owner x) k
    have hdropped : l.drops store (.linkExit cache owner x) =
        (if (l.linkExit store cache owner x).1 = .dropped then [⟨x.link owner, l.pending⟩] else
          ([] : List Refusal)).map (·.link) := by
      rw [drops]
      split <;> rfl
    have hpassed : (Command.linkExit cache owner x).passed = [x.link owner] := rfl
    rw [hdropped, hpassed] at hstep
    rw [Recompiler.linkExits, refusedExits, List.map_append, List.map_cons, List.cons_append, List.count_cons]
    simp only [perform, forgets, clears, List.count_append, List.count_nil, List.count_cons] at hrest hstep ⊢
    omega

/-- The sites that wait for an address stay on record when they are linked. -/
lemma perm_apply (l : Linker) (store : CodeStore β) (target : UInt32) (code : β) :
    (l.apply store target code).2.1.records.Perm l.records := by
  rw [List.perm_iff_count]
  intro k
  have hcount := count_perform l store (.apply target code) k
  simpa [perform, drops, forgets, clears, Command.passed] using hcount

end Linker

/-! ### Refusals account for the exits off the record -/

lemma Linker.size_patchAll (store : CodeStore β) (links : List Link) (w : LinkWord β) :
    (patchAll store links w).words.size = store.words.size := by
  induction links generalizing store with
  | nil => rfl
  | cons k links ih => exact (ih _).trans Array.size_setIfInBounds

lemma Recompiler.size_linkExits (c : Cache β) (owner : UInt32) (exits : List Exit) (l : Linker)
    (store : CodeStore β) : (linkExits c owner exits (l, store)).2.words.size = store.words.size := by
  induction exits generalizing l store with
  | nil => rfl
  | cons x exits ih =>
    rw [linkExits]
    refine (ih _ _).trans ?_
    obtain ⟨e, -, heq⟩ | ⟨-, -, heq⟩ | ⟨-, -, heq⟩ := l.linkExit_cases store c owner x
    all_goals rw [heq]
    exact Array.size_setIfInBounds

lemma Recompiler.linkExits_capacity (c : Cache β) (pc : UInt32) (exits : List Exit) (l : Linker)
    (store : CodeStore β) : (linkExits c pc exits (l, store)).1.capacity = l.capacity := by
  induction exits generalizing l store with
  | nil => rfl
  | cons x exits ih =>
    refine (ih _ _).trans ?_
    rw [Linker.linkExit, Linker.defer]
    dsimp only
    split
    · rfl
    · split <;> rfl

variable {ex : UInt32 → List Exit} {todo : Nat} {c c' : Cache β} {l : Linker} {store store' : CodeStore β}
  {pc : UInt32} {e : Entry β} {rs : List Refusal}

/-- The exits of cached blocks are on record, or they were refused by a full list and are off the record for good. -/
structure Excused (ex : UInt32 → List Exit) (rs : List Refusal) (c : Cache β) (l : Linker)
    (store : CodeStore β) : Prop where
  full : ∀ ρ ∈ rs, ρ.waiting.length = l.capacity
  known : ∀ ρ ∈ rs, ρ.link.site < store.words.size
  off : ∀ ρ ∈ rs, ρ.link.site ∉ l.sites
  excused : ∀ pc, (c.get? pc).isSome → ∀ x ∈ ex pc, x.site ∈ l.sites ∨ x.link pc ∈ rs.map (·.link)

namespace Excused

/-- Without blocks there is nothing to excuse. -/
lemma of_empty (hnone : ∀ pc, c.get? pc = none) : Excused ex [] c l store where
  full := nofun
  known := nofun
  off := nofun
  excused pc hpc := by simp [hnone] at hpc

/-- Words may be added, and blocks and exits may be written down otherwise. -/
lemma congr (h : Excused ex rs c l store) {ex' : UInt32 → List Exit}
    (hsome : ∀ pc, (c'.get? pc).isSome → (c.get? pc).isSome ∧ ex' pc = ex pc)
    (hsize : store.words.size ≤ store'.words.size) : Excused ex' rs c' l store' where
  full := h.full
  known ρ hρ := (h.known ρ hρ).trans_le hsize
  off := h.off
  excused pc hpc := by
    obtain ⟨hold, hex⟩ := hsome pc hpc
    rw [hex]
    exact h.excused pc hold

/-- A site that is on record belongs to a word. -/
lemma lt_size_of_mem_sites (h : Linked ex none todo c l store) {i : Site} (hi : i ∈ l.sites) :
    i < store.words.size := by
  obtain ⟨k, hk, rfl⟩ := List.mem_map.mp hi
  obtain ⟨w, hw⟩ := h.word?_of_record hk
  exact CodeStore.lt_size_of_word? hw

/-- The exits of a new block come on record or are refused. -/
lemma published (hlinked : Linked ex none todo c l store) (h : Excused ex rs c l store)
    (hinsert : c.insert e = .ok c') {k : Nat} {exits : List Exit}
    (hwords : store'.words = store.words ++ Array.replicate k .slowPath)
    (hnodup : (exits.map (·.site)).Nodup)
    (hsites : ∀ x ∈ exits, store.words.size ≤ x.site ∧ x.site < store'.words.size) :
    let s := Recompiler.linkExits c' e.pc exits (l, store')
    let next := s.1.apply s.2 e.pc e.code
    Excused (Function.update ex e.pc exits) (rs ++ Linker.refusedExits c' e.pc exits (l, store')) c'
      next.2.1 next.2.2 := by
  intro s next
  set new := Linker.refusedExits c' e.pc exits (l, store') with hnew
  have hperm : (next.2.1.records ++ new.map (·.link)).Perm (exits.map (·.link e.pc) ++ l.records) :=
    ((Linker.perm_apply s.1 s.2 e.pc e.code).append_right _).trans (Linker.perm_linkExits c' e.pc exits l store')
  have hsize : store'.words.size = next.2.2.words.size :=
    ((Linker.size_patchAll ..).trans (Recompiler.size_linkExits ..)).symm
  have hgrown : store.words.size ≤ store'.words.size := by
    rw [hwords, Array.size_append]
    exact Nat.le_add_right ..
  have hcapacity : next.2.1.capacity = l.capacity := Recompiler.linkExits_capacity c' e.pc exits l store'
  -- a site is in one place only
  have honce : ((next.2.1.records ++ new.map (·.link)).map (·.site)).Nodup := by
    rw [(hperm.map _).nodup_iff, List.map_append, List.nodup_append]
    refine ⟨by simpa [Function.comp_def, Exit.link] using hnodup, hlinked.recorded_once, ?_⟩
    rintro i hi j hj rfl
    obtain ⟨k, hk, rfl⟩ := List.mem_map.mp hi
    obtain ⟨x, hx, rfl⟩ := List.mem_map.mp hk
    exact absurd (lt_size_of_mem_sites hlinked hj) (not_lt.mpr (hsites x hx).1)
  rw [List.map_append, List.nodup_append] at honce
  have hmem : ∀ k, k ∈ next.2.1.records ∨ k ∈ new.map (·.link) ↔ k ∈ exits.map (·.link e.pc) ∨ k ∈ l.records :=
    fun k => by rw [← List.mem_append, hperm.mem_iff, List.mem_append]
  constructor
  case full =>
    intro ρ hρ
    rw [hcapacity]
    rcases List.mem_append.mp hρ with hρ | hρ
    · exact h.full ρ hρ
    · exact Linker.length_waiting_refusedExits hlinked.bounded hρ
  case known =>
    intro ρ hρ
    rw [← hsize]
    rcases List.mem_append.mp hρ with hρ | hρ
    · exact (h.known ρ hρ).trans_le hgrown
    · rcases (hmem ρ.link).mp (.inr (List.mem_map_of_mem hρ)) with hx | hk
      · obtain ⟨x, hx, heq⟩ := List.mem_map.mp hx
        exact heq ▸ (hsites x hx).2
      · exact (lt_size_of_mem_sites hlinked (List.mem_map_of_mem hk)).trans_le hgrown
  case off =>
    intro ρ hρ hsite
    rcases List.mem_append.mp hρ with hρ | hρ
    · obtain ⟨k, hk, hsite⟩ := List.mem_map.mp hsite
      rcases (hmem k).mp (.inl hk) with hnew | hk
      · obtain ⟨x, hx, rfl⟩ := List.mem_map.mp hnew
        exact absurd (h.known ρ hρ) (not_lt.mpr (hsite ▸ (hsites x hx).1))
      · exact h.off ρ hρ (List.mem_map.mpr ⟨k, hk, hsite⟩)
    · exact honce.2.2 _ hsite _ (List.mem_map_of_mem (List.mem_map_of_mem hρ)) rfl
  case excused =>
    intro pc hpc x hx
    rw [List.map_append, List.mem_append]
    have hnext : x.link pc ∈ next.2.1.records ∨ x.link pc ∈ new.map (·.link) →
        x.site ∈ next.2.1.sites ∨ x.link pc ∈ rs.map (·.link) ∨ x.link pc ∈ new.map (·.link) :=
      Or.imp (fun hk => List.mem_map.mpr ⟨_, hk, rfl⟩) .inr
    by_cases hne : pc = e.pc
    · subst hne
      rw [Function.update_self] at hx
      exact hnext ((hmem _).mpr (.inl (List.mem_map_of_mem hx)))
    · rw [hlinked.valid.get?_insert hinsert, Function.update_of_ne hne] at hpc
      rw [Function.update_of_ne hne] at hx
      rcases h.excused pc hpc x hx with hsite | hrefused
      · obtain ⟨k, hk, heq⟩ := List.mem_map.mp hsite
        obtain rfl := hlinked.record_of_site hpc hx hk heq
        exact hnext ((hmem _).mpr (.inr hk))
      · exact .inr (.inl hrefused)

/-- The sites of the blocks that stay are on record, or are refused when their links are cut. -/
lemma severed (hlinked : Linked ex none todo c l store) (h : Excused ex rs c l store) (pcs : List UInt32) :
    Excused ex (rs ++ Linker.refusedLinks (l.broken pcs.contains) (l.forgetOwnedBy pcs.contains).2)
      (c.eraseAll pcs).2 (l.severed pcs.contains store).1 (l.severed pcs.contains store).2 := by
  set next := l.severed pcs.contains store with hnext
  set new := Linker.refusedLinks (l.broken pcs.contains) (l.forgetOwnedBy pcs.contains).2 with hnew
  have hperm : (next.1.records ++ new.map (·.link)).Perm (l.records.filter fun k => !pcs.contains k.owner) := by
    rw [hnew, Linker.refusedLinks_links, Linker.refused_eq]
    exact l.perm_severed pcs.contains store
  have hsize : store.words.size = next.2.words.size := (Linker.size_patchAll ..).symm
  have hcapacity : next.1.capacity = l.capacity := l.capacity_severed _ store
  have honce : ((next.1.records ++ new.map (·.link)).map (·.site)).Nodup :=
    (hperm.map _).nodup_iff.mpr ((List.filter_sublist.map _).nodup hlinked.recorded_once)
  rw [List.map_append, List.nodup_append] at honce
  have hrecord : ∀ k, k ∈ next.1.records ∨ k ∈ new.map (·.link) → k ∈ l.records := fun k hk =>
    List.mem_of_mem_filter (hperm.mem_iff.mp (List.mem_append.mpr hk))
  constructor
  case full =>
    intro ρ hρ
    rw [hcapacity]
    rcases List.mem_append.mp hρ with hρ | hρ
    · exact h.full ρ hρ
    · have hbounded : (l.forgetOwnedBy pcs.contains).2.pending.length ≤ l.capacity :=
        (List.length_filter_le ..).trans hlinked.bounded
      exact Linker.length_waiting_refusedLinks hbounded hρ
  case known =>
    intro ρ hρ
    rw [← hsize]
    rcases List.mem_append.mp hρ with hρ | hρ
    · exact h.known ρ hρ
    · exact lt_size_of_mem_sites hlinked (List.mem_map_of_mem (hrecord _ (.inr (List.mem_map_of_mem hρ))))
  case off =>
    intro ρ hρ hsite
    rcases List.mem_append.mp hρ with hρ | hρ
    · obtain ⟨k, hk, hsite⟩ := List.mem_map.mp hsite
      exact h.off ρ hρ (List.mem_map.mpr ⟨k, hrecord k (.inl hk), hsite⟩)
    · exact honce.2.2 _ hsite _ (List.mem_map_of_mem (List.mem_map_of_mem hρ)) rfl
  case excused =>
    intro pc hpc x hx
    have hstays : pc ∉ pcs := by
      intro hgone
      rw [hlinked.valid.get?_eraseAll, if_pos hgone] at hpc
      simp at hpc
    rw [hlinked.valid.get?_eraseAll, if_neg hstays] at hpc
    rw [List.map_append, List.mem_append]
    rcases h.excused pc hpc x hx with hsite | hrefused
    · obtain ⟨k, hk, heq⟩ := List.mem_map.mp hsite
      obtain rfl := hlinked.record_of_site hpc hx hk heq
      have hkeep : x.link pc ∈ l.records.filter fun k => !pcs.contains k.owner :=
        List.mem_filter.mpr ⟨hk, by simpa [Exit.link] using hstays⟩
      rcases List.mem_append.mp (hperm.mem_iff.mpr hkeep) with hk | hk
      · exact .inl (List.mem_map.mpr ⟨_, hk, rfl⟩)
      · exact .inr (.inr hk)
    · exact .inr (.inl hrefused)

end Excused

end R3000
