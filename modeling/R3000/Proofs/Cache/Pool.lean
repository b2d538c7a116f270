import Mathlib
import R3000.Proofs.Cache.Path

/-!
# The pool of nodes

The chains of all slots share one pool.  Each node is in exactly one chain or waits to be used again, which
is stated once, as a permutation; that no two chains meet, and that none reaches a waiting node, follows.
A change to one slot's chain then leaves every other slot alone.
-/

namespace R3000.Cache

variable {β : Type} {c c' : Cache β} {s t i : Nat} {pc : UInt32}

/-! ### Lists over slots -/

/-- Giving one number another list moves that list in and the old one out. -/
lemma perm_flatMap_update {α : Type} (f : Nat → List α) (l : List α) {s n : Nat} (hs : s < n) :
    ((List.range n).flatMap (Function.update f s l) ++ f s).Perm ((List.range n).flatMap f ++ l) := by
  classical
  obtain ⟨pre, post, hsplit⟩ := List.append_of_mem (List.mem_range.mpr hs)
  have hnodup : (pre ++ s :: post).Nodup := hsplit ▸ List.nodup_range
  obtain ⟨hpre, hpost⟩ : s ∉ pre ∧ s ∉ post := by
    simp only [List.nodup_append, List.nodup_cons] at hnodup
    exact ⟨fun h => hnodup.2.2 s h s List.mem_cons_self rfl, hnodup.2.1.1⟩
  have hsame : ∀ is : List Nat, s ∉ is → is.flatMap (Function.update f s l) = is.flatMap f := by
    intro is his
    refine List.flatMap_congr fun i hi => ?_
    rw [Function.update_of_ne]
    rintro rfl
    exact his hi
  rw [hsplit, List.flatMap_append, List.flatMap_append, List.flatMap_cons, List.flatMap_cons,
    hsame pre hpre, hsame post hpost, Function.update_self, List.perm_iff_count]
  intro a
  simp only [List.count_append]
  omega

/-! ### Views of a slot -/

/-- The blocks behind the resident of a slot, the newest first. -/
def behind (c : Cache β) (s : Nat) : List (Entry β) := (c.chain s).filterMap c.entryAt

/-- The blocks of a slot, the resident first. -/
def bucket (c : Cache β) (s : Nat) : List (Entry β) := (c.resident s).toList ++ c.behind s

lemma head_of_le (h : c.slots ≤ s) : c.head s = none := by
  have hnone : c.heads[s]? = none := Vector.getElem?_eq_none h
  simp only [head, hnone, Option.join_none]

lemma resident_of_le (h : c.slots ≤ s) : c.resident s = none := by
  have hnone : c.residents[s]? = none := Vector.getElem?_eq_none h
  simp only [resident, hnone, Option.join_none]

lemma slot_lt (c : Cache β) (pc : UInt32) : c.slot pc < c.slots := by
  rw [slot, slots, Nat.one_shiftLeft]
  exact Nat.mod_lt _ (Nat.two_pow_pos _)

lemma head_setHead (hs : s < c.slots) (o : Option Nat) :
    (c.setHead s o).head = Function.update c.head s o := by
  funext t
  have hget : (c.heads.setIfInBounds s o)[t]? = if s = t then some o else c.heads[t]? := by
    rw [Vector.getElem?_setIfInBounds, if_pos (show s < 1 <<< c.bits from hs)]
  change (c.heads.setIfInBounds s o)[t]?.join = _
  rw [hget, Function.update_apply]
  by_cases h : t = s
  · simp [h]
  · simp [h, Ne.symm h, head]

lemma resident_setResident (hs : s < c.slots) (e : Option (Entry β)) :
    (c.setResident s e).resident = Function.update c.resident s e := by
  funext t
  have hget : (c.residents.setIfInBounds s e)[t]? = if s = t then some e else c.residents[t]? := by
    rw [Vector.getElem?_setIfInBounds, if_pos (show s < 1 <<< c.bits from hs)]
  change (c.residents.setIfInBounds s e)[t]?.join = _
  rw [hget, Function.update_apply]
  by_cases h : t = s
  · simp [h]
  · simp [h, Ne.symm h, resident]

/-! ### The invariant of the pool -/

/-- The chains end, and they and the waiting nodes part the pool, which keeps its capacity. -/
structure Pool (c : Cache β) : Prop where
  path : ∀ s, Path c.nodes (c.head s) (c.chain s)
  partition : (c.free ++ (List.range c.slots).flatMap c.chain).Perm (List.range c.nodes.size)
  room : c.nodes.size ≤ c.poolCapacity

/-- Paths from the heads of the slots are their chains. -/
lemma chain_eq {f : Nat → List Nat} (hf : ∀ s, Path c.nodes (c.head s) (f s)) : c.chain = f :=
  funext fun s => (hf s).walk_eq (hf s).length_le

/-- Paths from the heads that part the pool with the waiting nodes make it a valid one. -/
lemma Pool.of_paths {f : Nat → List Nat} (hf : ∀ s, Path c.nodes (c.head s) (f s))
    (hpart : (c.free ++ (List.range c.slots).flatMap f).Perm (List.range c.nodes.size))
    (hroom : c.nodes.size ≤ c.poolCapacity) : Pool c where
  path := (chain_eq hf).symm ▸ hf
  partition := (chain_eq hf).symm ▸ hpart
  room := hroom

namespace Pool

lemma lt_slots (h : Pool c) (hi : i ∈ c.chain s) : s < c.slots := by
  by_contra hs
  have hnil := h.path s
  rw [head_of_le (not_lt.mp hs)] at hnil
  rw [hnil.eq_nil] at hi
  simp at hi

lemma parts_nodup (h : Pool c) : (c.free ++ (List.range c.slots).flatMap c.chain).Nodup :=
  h.partition.nodup_iff.mpr List.nodup_range

lemma not_mem_free (h : Pool c) (hi : i ∈ c.chain s) : i ∉ c.free := fun hfree =>
  (List.nodup_append.mp h.parts_nodup).2.2 i hfree i
    (List.mem_flatMap.mpr ⟨s, List.mem_range.mpr (h.lt_slots hi), hi⟩) rfl

/-- No two chains meet. -/
lemma apart (h : Pool c) (hs : i ∈ c.chain s) (ht : i ∈ c.chain t) : s = t := by
  by_contra hst
  have hpairs := (List.nodup_flatMap.mp (List.nodup_append.mp h.parts_nodup).2.1).2
  have hsymm : Std.Symm (Function.onFun List.Disjoint c.chain) := ⟨fun _ _ hd => List.Disjoint.symm hd⟩
  exact hpairs.forall (List.mem_range.mpr (h.lt_slots hs)) (List.mem_range.mpr (h.lt_slots ht)) hst hs ht

lemma free_lt (h : Pool c) (hi : i ∈ c.free) : i < c.nodes.size :=
  List.mem_range.mp (h.partition.subset (List.mem_append_left _ hi))

lemma head_eq_none_iff (h : Pool c) : c.head s = none ↔ c.behind s = [] := by
  have hpath := h.path s
  cases hhead : c.head s with
  | none =>
    rw [hhead] at hpath
    simp [behind, hpath.eq_nil]
  | some i =>
    rw [hhead] at hpath
    obtain ⟨n, tl, htl, node, -⟩ := hpath.eq_cons
    simp [behind, htl, entryAt, node]

end Pool

/-- A change to one slot's chain and to the blocks in it. -/
lemma behind_eq_update {js : List Nat} {l : List (Entry β)}
    (hchain : c'.chain = Function.update c.chain s js) (hl : js.filterMap c'.entryAt = l)
    (hother : ∀ t, t ≠ s → ∀ j ∈ c.chain t, c'.entryAt j = c.entryAt j) :
    c'.behind = Function.update c.behind s l := by
  funext t
  rw [behind, hchain]
  by_cases ht : t = s
  · subst ht
    rw [Function.update_self, Function.update_self, hl]
  · rw [Function.update_of_ne ht, Function.update_of_ne ht, behind]
    exact List.filterMap_congr (hother t ht)

/-! ### Changing the block in a node -/

lemma entryAt_setNode (k : Entry β → Entry β) (j : Nat) :
    (c.setNode i fun n => { n with entry := k n.entry }).entryAt j =
      if i = j then (c.entryAt j).map k else c.entryAt j := by
  simp only [entryAt, setNode, Array.getElem?_modify]
  split <;> simp [Function.comp_def]

lemma Pool.path_setNode (h : Pool c) (k : Entry β → Entry β) (s : Nat) :
    Path (c.setNode i fun n => { n with entry := k n.entry }).nodes (c.head s) (c.chain s) := by
  refine (h.path s).congr fun j _ => ?_
  simp only [setNode, Array.getElem?_modify]
  split <;> simp [Function.comp_def]

lemma chain_setNode (h : Pool c) (k : Entry β → Entry β) :
    (c.setNode i fun n => { n with entry := k n.entry }).chain = c.chain :=
  chain_eq (h.path_setNode k)

lemma Pool.setNode (h : Pool c) (k : Entry β → Entry β) :
    Pool (c.setNode i fun n => { n with entry := k n.entry }) := by
  refine .of_paths (h.path_setNode k) ?_ ?_
  · rw [show (c.setNode i fun n => { n with entry := k n.entry }).nodes.size = c.nodes.size from
      Array.size_modify]
    exact h.partition
  · exact (Array.size_modify).trans_le h.room

/-! ### Taking a node out of its chain -/

lemma Pool.partition_unlink (h : Pool c) (hi : i ∈ c.chain s) :
    (i :: c.free ++ (List.range c.slots).flatMap
      (Function.update c.chain s ((c.chain s).erase i))).Perm (List.range c.nodes.size) := by
  have hup := perm_flatMap_update c.chain ((c.chain s).erase i) (h.lt_slots hi)
  have hpart := h.partition
  have hpos := List.count_pos_iff.mpr hi
  rw [List.perm_iff_count] at hup hpart ⊢
  intro a
  have hup := hup a
  have hpart := hpart a
  simp only [List.count_append, List.count_cons, List.count_erase, List.cons_append] at hup hpart ⊢
  by_cases ha : i = a
  · subst ha
    simp only [beq_self_eq_true, if_true] at hup ⊢
    omega
  · simp only [beq_eq_false_iff_ne.mpr ha, if_neg Bool.false_ne_true] at hup ⊢
    omega

lemma bypass_of_before_eq_none {n : Node β} (hi : c.nodes[i]? = some n)
    (h : before i (c.chain s) = none) : c.bypass s i = c.setHead s n.next := by
  simp only [bypass, h, hi, Option.bind_some]

lemma bypass_of_before_eq_some {n : Node β} {k : Nat} (hi : c.nodes[i]? = some n)
    (h : before i (c.chain s) = some k) :
    c.bypass s i = c.setNode k fun m => { m with next := n.next } := by
  simp only [bypass, h, hi, Option.bind_some]

/-- The chains once one goes past a node. -/
lemma Pool.path_bypass (h : Pool c) (hi : i ∈ c.chain s) (t : Nat) :
    Path (c.bypass s i).nodes ((c.bypass s i).head t)
      (Function.update c.chain s ((c.chain s).erase i) t) := by
  obtain ⟨n, node⟩ : ∃ n, c.nodes[i]? = some n :=
    ⟨_, Array.getElem?_eq_getElem ((h.path s).lt_size hi)⟩
  have hnodup := (h.path s).nodup
  rcases before_cases hnodup hi with ⟨tl, hchain, hbefore⟩ | ⟨pre, k, post, hchain, hbefore⟩
  · rw [bypass_of_before_eq_none node hbefore, head_setHead (h.lt_slots hi), hchain,
      List.erase_cons_head]
    by_cases ht : t = s
    · subst ht
      have hpath := h.path t
      rw [hchain] at hpath
      obtain ⟨m, tl', htl, node', tail⟩ := (hpath.head_eq ▸ hpath).eq_cons
      obtain rfl : m = n := Option.some.inj (node'.symm.trans node)
      rw [Function.update_self, Function.update_self, (List.cons.inj htl).2]
      exact tail
    · rw [Function.update_of_ne ht, Function.update_of_ne ht]
      exact h.path t
  · rw [bypass_of_before_eq_some node hbefore]
    have hk : k ∈ c.chain s := by simp [hchain]
    obtain ⟨m, nodek⟩ : ∃ m, c.nodes[k]? = some m :=
      ⟨_, Array.getElem?_eq_getElem ((h.path s).lt_size hk)⟩
    have hother : ∀ j, j ≠ k →
        ((c.setNode k fun m => { m with next := n.next }).nodes[j]?).map (·.next) =
          (c.nodes[j]?).map (·.next) := by
      intro j hj
      rw [Cache.setNode, Array.getElem?_modify, if_neg (Ne.symm hj)]
    by_cases ht : t = s
    · subst ht
      have hpath := h.path t
      rw [hchain] at hpath hnodup
      obtain ⟨hpre, hkp, hip⟩ : (∀ j ∈ pre, j ≠ k) ∧ k ∉ i :: post ∧ i ∉ pre ++ [k] := by
        rw [List.nodup_append, List.nodup_cons] at hnodup
        refine ⟨fun j hj => hnodup.2.2 j hj k List.mem_cons_self, hnodup.2.1.1, fun hmem => ?_⟩
        rcases List.mem_append.mp hmem with hmem | hmem
        · exact hnodup.2.2 i hmem i (by simp) rfl
        · obtain rfl := List.mem_singleton.mp hmem
          exact hnodup.2.1.1 List.mem_cons_self
      have herase : (pre ++ k :: i :: post).erase i = pre ++ k :: post := by
        rw [show pre ++ k :: i :: post = (pre ++ [k]) ++ i :: post by simp,
          List.erase_append_right _ hip, List.erase_cons_head]
        simp
      rw [Function.update_self, hchain, herase]
      refine hpath.skip node ?_ (fun j hj => hother j (hpre j hj)) fun j hj => hother j ?_
      · rw [Cache.setNode, Array.getElem?_modify, if_pos rfl, nodek]
        rfl
      · rintro rfl
        exact hkp (List.mem_cons_of_mem _ hj)
    · rw [Function.update_of_ne ht]
      refine (h.path t).congr fun j hj => hother j ?_
      rintro rfl
      exact ht (h.apart hj hk)

lemma chain_unlink (h : Pool c) (hi : i ∈ c.chain s) :
    (c.unlink s i).chain = Function.update c.chain s ((c.chain s).erase i) :=
  chain_eq (h.path_bypass hi)

/-- Going past a node changes the links between nodes and nothing else. -/
lemma bypass_cases (c : Cache β) (s i : Nat) :
    (∃ next, c.bypass s i = c.setHead s next) ∨
      ∃ k next, c.bypass s i = c.setNode k fun m => { m with next } := by
  simp only [bypass]
  split
  · exact .inr ⟨_, _, rfl⟩
  · exact .inl ⟨_, rfl⟩

lemma Pool.unlink (h : Pool c) (hi : i ∈ c.chain s) : Pool (c.unlink s i) := by
  have hpart := h.partition_unlink hi
  have hpath := h.path_bypass hi
  rcases bypass_cases c s i with ⟨next, heq⟩ | ⟨k, next, heq⟩
  · rw [Cache.unlink]
    rw [heq] at hpath ⊢
    exact .of_paths hpath hpart h.room
  · rw [Cache.unlink]
    rw [heq] at hpath ⊢
    have hsize : (c.nodes.modify k fun m => { m with next }).size = c.nodes.size := Array.size_modify
    refine .of_paths hpath ?_ (hsize.trans_le h.room)
    exact hpart.trans (by rw [← hsize]; rfl)

lemma entryAt_unlink (c : Cache β) (s i j : Nat) : (c.unlink s i).entryAt j = c.entryAt j := by
  rw [Cache.unlink]
  rcases bypass_cases c s i with ⟨next, heq⟩ | ⟨k, next, heq⟩
  · rw [heq]
    rfl
  · rw [heq]
    change ((c.nodes.modify k _)[j]?).map _ = _
    rw [Array.getElem?_modify]
    split <;> simp [Function.comp_def, entryAt]

/-! ### The block of an address behind a resident -/

/-- Where the block of an address stands behind its resident. -/
lemma node?_eq_some (h : Pool c) (hnode : c.node? pc = some i) :
    ∃ x l₁ l₂, i ∈ c.chain (c.slot pc) ∧ c.entryAt i = some x ∧ x.pc = pc ∧
      c.behind (c.slot pc) = l₁ ++ x :: l₂ ∧
      (∀ k : Entry β → Entry β,
        (c.setNode i fun n => { n with entry := k n.entry }).behind =
          Function.update c.behind (c.slot pc) (l₁ ++ k x :: l₂)) ∧
      (c.unlink (c.slot pc) i).behind = Function.update c.behind (c.slot pc) (l₁ ++ l₂) := by
  set s := c.slot pc
  obtain ⟨hholds, pre, post, hchain, -⟩ := List.find?_eq_some_iff_append.mp hnode
  obtain ⟨x, hx, hpc⟩ : ∃ x, c.entryAt i = some x ∧ x.pc = pc := by
    simpa [holds, Option.any_eq_true] using hholds
  have hi : i ∈ c.chain s := by simp [s, hchain]
  have hnodup := (h.path s).nodup
  have hchain : c.chain s = pre ++ i :: post := hchain
  obtain ⟨hpre, hpost⟩ : i ∉ pre ∧ i ∉ post := by
    rw [hchain, List.nodup_append, List.nodup_cons] at hnodup
    exact ⟨fun hmem => hnodup.2.2 i hmem i List.mem_cons_self rfl, hnodup.2.1.1⟩
  refine ⟨x, pre.filterMap c.entryAt, post.filterMap c.entryAt, hi, hx, hpc, ?_, fun k => ?_, ?_⟩
  · rw [behind, hchain, List.filterMap_append, List.filterMap_cons_some hx]
  · have hsame : ∀ j, j ≠ i →
        (c.setNode i fun n => { n with entry := k n.entry }).entryAt j = c.entryAt j := fun j hj => by
      rw [entryAt_setNode, if_neg (Ne.symm hj)]
    have hself : (c.setNode i fun n => { n with entry := k n.entry }).entryAt i = some (k x) := by
      rw [entryAt_setNode, if_pos rfl, hx, Option.map_some]
    have hkeep : (c.setNode i fun n => { n with entry := k n.entry }).chain =
        Function.update c.chain s (c.chain s) := by
      rw [chain_setNode h k, Function.update_eq_self]
    refine behind_eq_update hkeep ?_ ?_
    · rw [hchain, List.filterMap_append, List.filterMap_cons_some hself]
      congr 1
      · exact List.filterMap_congr fun j hj => hsame j fun e => hpre (e ▸ hj)
      · congr 1
        exact List.filterMap_congr fun j hj => hsame j fun e => hpost (e ▸ hj)
    · intro t ht j hj
      refine hsame j ?_
      rintro rfl
      exact ht (h.apart hj hi)
  · refine behind_eq_update (chain_unlink h hi) ?_ fun t _ j _ => entryAt_unlink c s i j
    rw [funext (entryAt_unlink c s i), hchain, List.erase_append_right _ hpre, List.erase_cons_head,
      List.filterMap_append]

/-! ### Putting a node in front of a chain -/

/-- A node is taken for a block: it was in no chain, it holds the block, and no other node changes. -/
lemma takeNode_eq_some (h : Pool c) {n : Node β} (htake : c.takeNode n = some (i, c')) :
    ∃ nodes free, c' = { c with nodes, free } ∧ nodes[i]? = some n ∧
      (∀ j, j ≠ i → nodes[j]? = c.nodes[j]?) ∧ (∀ t, i ∉ c.chain t) ∧
      nodes.size ≤ c.poolCapacity ∧
      (free ++ i :: (List.range c.slots).flatMap c.chain).Perm (List.range nodes.size) := by
  rw [takeNode] at htake
  split at htake
  · rename_i k free hfree
    obtain ⟨rfl, rfl⟩ : k = i ∧ _ = c' := by simpa using htake
    have hk : k ∈ c.free := hfree ▸ List.mem_cons_self
    have hlt := h.free_lt hk
    refine ⟨_, _, rfl, ?_, ?_, fun t ht => h.not_mem_free ht hk, ?_, ?_⟩
    · rw [Array.getElem?_setIfInBounds, if_pos rfl, if_pos hlt]
    · intro j hj
      rw [Array.getElem?_setIfInBounds, if_neg (Ne.symm hj)]
    · simpa using h.room
    · have hpart := h.partition
      rw [hfree] at hpart
      rw [Array.size_setIfInBounds]
      exact List.perm_middle.trans hpart
  · rename_i hfree
    split at htake
    · rename_i hroom
      obtain ⟨rfl, rfl⟩ : c.nodes.size = i ∧ _ = c' := by simpa using htake
      refine ⟨_, _, rfl, Array.getElem?_push_size, ?_, ?_, ?_, ?_⟩
      · intro j hj
        rw [Array.getElem?_push, if_neg hj]
      · intro t ht
        exact absurd ((h.path t).lt_size ht) (lt_irrefl _)
      · simpa using hroom
      · have hpart := h.partition
        rw [hfree] at hpart ⊢
        rw [Array.size_push, List.range_succ]
        exact (List.perm_append_singleton _ _).symm.trans (hpart.append_right _)
    · simp at htake

/-- A slot with a new block in front of its chain. -/
lemma pushFront_eq_ok (h : Pool c) {e : Entry β} (hpush : c.pushFront e = .ok c') :
    Pool c' ∧ c'.bits = c.bits ∧ c'.resident = c.resident ∧ c'.size = c.size + 1 ∧
      c'.behind = Function.update c.behind (c.slot e.pc) (e :: c.behind (c.slot e.pc)) := by
  rw [pushFront] at hpush
  dsimp only at hpush
  split at hpush
  · rename_i i c₁ htake
    obtain ⟨nodes, free, rfl, node, hother, hfresh, hroom, hpart⟩ := takeNode_eq_some h htake
    obtain rfl := Except.ok.inj hpush
    have hs := slot_lt c e.pc
    set s := c.slot e.pc
    let entry (j : Nat) : Option (Entry β) := (nodes[j]?).map (·.entry)
    have hself : entry i = some e := by simp only [entry, node, Option.map_some]
    have hentry : ∀ j, j ≠ i → entry j = c.entryAt j := fun j hj => by
      simp only [entry, hother j hj, entryAt]
    have hpath : ∀ t, Path nodes (Function.update c.head s (some i) t)
        (Function.update c.chain s (i :: c.chain s) t) := by
      intro t
      have hold : Path nodes (c.head t) (c.chain t) := (h.path t).congr fun j hj => by
        rw [hother j]
        rintro rfl
        exact hfresh t hj
      by_cases ht : t = s
      · subst ht
        rw [Function.update_self, Function.update_self]
        exact .cons node hold
      · rw [Function.update_of_ne ht, Function.update_of_ne ht]
        exact hold
    rw [← head_setHead hs] at hpath
    have hpush : (free ++ (List.range c.slots).flatMap
        (Function.update c.chain s (i :: c.chain s))).Perm (List.range nodes.size) := by
      have hup := perm_flatMap_update c.chain (i :: c.chain s) hs
      rw [List.perm_iff_count] at hup hpart ⊢
      intro a
      have hup := hup a
      have hpart := hpart a
      simp only [List.count_append, List.count_cons] at hup hpart ⊢
      omega
    refine ⟨.of_paths hpath hpush hroom, rfl, rfl, rfl, behind_eq_update (chain_eq hpath) ?_ ?_⟩
    · change (i :: c.chain s).filterMap entry = _
      rw [List.filterMap_cons_some hself]
      refine congrArg (e :: ·) (List.filterMap_congr fun j hj => hentry j ?_)
      rintro rfl
      exact hfresh s hj
    · intro t _ j hj
      refine hentry j ?_
      rintro rfl
      exact hfresh t hj
  · simp at hpush

end R3000.Cache
