import Mathlib
import R3000.Proofs.Cache.Map

/-!
# The accounts of the pool

The nodes in chains are as many as the blocks that stand behind a resident, so the pool is exhausted only if
so many blocks collide: `pool_accounted` says this of a cache after whatever was done to it, with the one
reason why an insertion can fail.  An insertion is also spelled out write by write, `insertInPlace`, and one
that fails has written nothing.
-/

namespace R3000.Cache

variable {β : Type} {c c' c₀ : Cache β} {e : Entry β} {s pool : Nat}

/-! ### Nodes and blocks -/

namespace Pool

/-- The nodes in chains and those that wait are all there are. -/
lemma length_chains (h : Pool c) :
    ((List.range c.slots).map fun s => (c.chain s).length).sum + c.free.length = c.nodes.size := by
  have hlength := h.partition.length_eq
  rw [List.length_append, List.length_flatMap, List.length_range] at hlength
  omega

lemma poolUsed_add (h : Pool c) : c.poolUsed + c.free.length = c.nodes.size := by
  have hlength := h.length_chains
  rw [poolUsed]
  omega

lemma length_behind (h : Pool c) (s : Nat) : (c.behind s).length = (c.chain s).length := by
  rw [behind, List.length_filterMap_eq_countP, List.countP_eq_length]
  intro i hi
  rw [entryAt, Option.isSome_map, Option.isSome_iff_exists]
  exact ⟨_, Array.getElem?_eq_getElem ((h.path s).lt_size hi)⟩

end Pool

namespace Valid

/-- The resident is found as such. -/
lemma resident?_of_resident (h : Valid c) (hres : c.resident s = some e) : c.resident? e.pc = some e := by
  have hs : c.slot e.pc = s := h.home s e (by simp [bucket, hres])
  rw [resident?, hs, hres, Option.filter_some, if_pos (beq_self_eq_true _)]

/-- What stands behind a resident is no resident. -/
lemma resident?_of_behind (h : Valid c) (he : e ∈ c.behind s) : c.resident? e.pc = none := by
  have hs : c.slot e.pc = s := h.home s e (List.mem_append_right _ he)
  have hdistinct := h.distinct s
  rw [Option.eq_none_iff_forall_ne_some]
  intro x hx
  obtain ⟨hres, hpc⟩ := resident?_eq_some hx
  rw [bucket, ← hs, hres] at hdistinct
  exact (List.nodup_cons.mp hdistinct).1 (List.mem_map.mpr ⟨e, hs ▸ he, hpc.symm⟩)

/-- In the slot of a resident, the others are those behind it. -/
lemma countP_bucket (h : Valid c) (s : Nat) :
    (c.bucket s).countP (fun e => (c.resident? e.pc).isNone) = (c.chain s).length := by
  have hresident : (c.resident s).toList.countP (fun e => (c.resident? e.pc).isNone) = 0 := by
    rw [List.countP_eq_zero]
    intro e he
    rw [h.resident?_of_resident (Option.mem_toList.mp he)]
    simp
  have hbehind : (c.behind s).countP (fun e => (c.resident? e.pc).isNone) = (c.behind s).length := by
    rw [List.countP_eq_length]
    intro e he
    rw [h.resident?_of_behind he]
    rfl
  rw [bucket, List.countP_append, hresident, hbehind, h.pool.length_behind, Nat.zero_add]

/-- The nodes in use are counted by the blocks that are no residents. -/
lemma poolUsed_eq (h : Valid c) : c.poolUsed = c.toList.countP fun e => (c.resident? e.pc).isNone := by
  have hchains := h.pool.length_chains
  have hused := h.pool.poolUsed_add
  rw [c.toList_perm.countP_eq, List.countP_flatMap]
  simp only [Function.comp_def, h.countP_bucket]
  omega

/-- A node is refused once all of them are in use. -/
lemma takeNode_eq_none_iff (h : Valid c) (n : Node β) : c.takeNode n = none ↔ c.poolUsed = c.poolCapacity := by
  have hroom := h.pool.room
  have hused := h.pool.poolUsed_add
  rw [takeNode]
  cases hfree : c.free with
  | nil =>
    rw [hfree, List.length_nil] at hused
    simp only [ite_eq_right_iff, reduceCtorEq, imp_false]
    omega
  | cons i free =>
    rw [hfree, List.length_cons] at hused
    simp only [reduceCtorEq, false_iff]
    omega

/-- An address has no block, and its slot does, if the slot's resident and all behind it start elsewhere. -/
lemma fresh_iff (h : Valid c) (pc : UInt32) : c.get? pc = none ∧ (c.resident (c.slot pc)).isSome ↔
    ∃ x, c.resident (c.slot pc) = some x ∧ x.pc ≠ pc ∧ c.node? pc = none := by
  have hnode : (c.node? pc).bind c.entryAt = none ↔ c.node? pc = none := by
    cases hfind : c.node? pc with
    | none => simp
    | some i =>
      obtain ⟨x, -, -, -, hx, -⟩ := node?_eq_some h.pool hfind
      simp [hx]
  rw [get?, Option.or_eq_none_iff, hnode, resident?]
  cases hres : c.resident (c.slot pc) with
  | none => simp
  | some x => simp [Option.filter_some]

/-- An insertion fails for one reason: the block would stand behind a resident, and all nodes are in use. -/
lemma insert_eq_error_iff (h : Valid c) (e : Entry β) (err : CacheError) : c.insert e = .error err ↔
    err = .poolExhausted c.poolCapacity ∧ c.get? e.pc = none ∧ (c.resident (c.slot e.pc)).isSome ∧
      c.poolUsed = c.poolCapacity := by
  rw [← and_assoc (a := c.get? e.pc = none), h.fresh_iff, Cache.insert]
  cases hres : c.resident (c.slot e.pc) with
  | none => simp
  | some x =>
    by_cases hpc : x.pc = e.pc
    · simp [hpc]
    · cases hnode : c.node? e.pc with
      | some i => simp [hpc]
      | none =>
        rw [← h.takeNode_eq_none_iff ⟨e, c.head (c.slot e.pc)⟩, pushFront]
        cases c.takeNode ⟨e, c.head (c.slot e.pc)⟩ with
        | some ic => simp [hpc]
        | none => simp [hpc, eq_comm (a := err)]

end Valid

/-! ### Insertion write by write -/

/-- Takes a node by writes to the cache at hand. -/
def takeNodeInPlace (n : Node β) : EStateM CacheError (Cache β) Nat := do
  let c ← get
  match c.free with
  | i :: free =>
    set { c with free }
    modify fun c => { c with nodes := c.nodes.setIfInBounds i n }
    return i
  | [] =>
    if c.nodes.size < c.poolCapacity then
      modify fun c => { c with nodes := c.nodes.push n }
      return c.nodes.size
    else throw (.poolExhausted c.poolCapacity)

/-- Adds a block by writes to the cache at hand; what was written when an error is thrown stays. -/
def insertInPlace (e : Entry β) : EStateM CacheError (Cache β) Unit := do
  let c ← get
  let s := c.slot e.pc
  match c.resident s with
  | none =>
    modify (·.setResident s (some e))
    modify fun c => { c with size := c.size + 1 }
    modify fun c => { c with stats.inserts := c.stats.inserts + 1 }
  | some resident =>
    if resident.pc = e.pc then
      modify (·.setResident s (some e))
      modify countReplacement
    else
      match c.node? e.pc with
      | some i =>
        modify (·.setNode i fun n => { n with entry := e })
        modify countReplacement
      | none =>
        let i ← takeNodeInPlace ⟨e, c.head s⟩
        modify (·.setHead s (some i))
        modify fun c => { c with size := c.size + 1 }
        modify fun c => { c with stats.inserts := c.stats.inserts + 1 }
        modify fun c => { c with stats.collisions := c.stats.collisions + 1 }

/-- A node is taken, or nothing was written. -/
lemma takeNodeInPlace_run (c : Cache β) (n : Node β) : (takeNodeInPlace n).run c =
    match c.takeNode n with
    | some (i, c') => .ok i c'
    | none => .error (.poolExhausted c.poolCapacity) c := by
  rw [takeNode]
  rcases c with ⟨_, _, _, nodes, _ | ⟨i, free⟩, capacity, _, _⟩
  · simp only [takeNodeInPlace, EStateM.run_bind, EStateM.run_get]
    split <;> rfl
  · rfl

/-- The writes make the cache with the block, or nothing was written. -/
lemma insertInPlace_run (c : Cache β) (e : Entry β) : (insertInPlace e).run c =
    match c.insert e with
    | .ok c' => .ok () c'
    | .error err => .error err c := by
  rw [insert]
  simp only [insertInPlace, EStateM.run_bind, EStateM.run_get]
  cases c.resident (c.slot e.pc) with
  | none => rfl
  | some x =>
    dsimp only
    split
    · rfl
    · cases c.node? e.pc with
      | some i => rfl
      | none =>
        simp only [EStateM.run_bind, takeNodeInPlace_run, pushFront]
        cases c.takeNode ⟨e, c.head (c.slot e.pc)⟩ <;> rfl

/-! ### Sizes -/

/-- The caches have the same sizes. -/
structure SameSizes (c c' : Cache β) : Prop where
  bits : c'.bits = c.bits
  poolCapacity : c'.poolCapacity = c.poolCapacity

lemma SameSizes.trans {c'' : Cache β} (h : c.SameSizes c') (h' : c'.SameSizes c'') : c.SameSizes c'' :=
  ⟨h'.bits.trans h.bits, h'.poolCapacity.trans h.poolCapacity⟩

lemma sameSizes_insert {e : Entry β} (h : c.insert e = .ok c') : c.SameSizes c' := by
  rw [insert] at h
  dsimp only at h
  split at h
  · cases h
    exact ⟨rfl, rfl⟩
  · split at h
    · cases h
      exact ⟨rfl, rfl⟩
    · split at h
      · cases h
        exact ⟨rfl, rfl⟩
      · rw [pushFront] at h
        dsimp only at h
        split at h
        · rename_i i x htake
          have hsame : c.SameSizes x := by
            rw [takeNode] at htake
            split at htake
            · cases htake
              exact ⟨rfl, rfl⟩
            · split at htake
              · cases htake
                exact ⟨rfl, rfl⟩
              · cases htake
          cases h
          exact ⟨hsame.bits, hsame.poolCapacity⟩
        · cases h

lemma sameSizes_setIdle (c : Cache β) (pc : UInt32) (idle : Idle) : c.SameSizes (c.setIdle pc idle).2 := by
  rw [setIdle]
  split <;> exact ⟨rfl, rfl⟩

lemma sameSizes_unlink (c : Cache β) (s i : Nat) : c.SameSizes (c.unlink s i) := by
  rw [unlink, bypass]
  split <;> exact ⟨rfl, rfl⟩

lemma sameSizes_erase (c : Cache β) (pc : UInt32) : c.SameSizes (c.erase pc).2 := by
  rw [erase]
  split
  · split
    · obtain ⟨hbits, hpool⟩ := sameSizes_unlink (c.setResident (c.slot pc) (c.entryAt _)) (c.slot pc) _
      exact ⟨hbits, hpool⟩
    · exact ⟨rfl, rfl⟩
  · obtain ⟨hbits, hpool⟩ := sameSizes_unlink c (c.slot pc) _
    exact ⟨hbits, hpool⟩
  · exact ⟨rfl, rfl⟩

lemma sameSizes_eraseAll (c : Cache β) (pcs : List UInt32) : c.SameSizes (c.eraseAll pcs).2 := by
  induction pcs generalizing c with
  | nil => exact ⟨rfl, rfl⟩
  | cons pc pcs ih => exact (sameSizes_erase c pc).trans (ih _)

/-- No operation changes a size. -/
lemma sameSizes_perform (c : Cache β) (op : Operation β) : c.SameSizes (c.perform op) := by
  cases op with
  | insert e =>
    rw [perform]
    split
    · rename_i hinsert
      exact sameSizes_insert hinsert
    · exact ⟨rfl, rfl⟩
  | erase pc => exact sameSizes_erase c pc
  | eraseWhere p => exact sameSizes_eraseAll c _
  | setIdle pc idle => exact sameSizes_setIdle c pc idle
  | clear => exact ⟨rfl, rfl⟩
  | lookup pc =>
    obtain ⟨stats, heq⟩ := getCounted_snd c pc
    rw [perform, heq]
    exact ⟨rfl, rfl⟩

/-! ### Every cache that is reached -/

/-- A cache that comes from another by operations and by forgetting what was counted. -/
inductive Becomes (c₀ : Cache β) : Cache β → Prop
  | start : Becomes c₀ c₀
  | perform {c : Cache β} (op : Operation β) : Becomes c₀ c → Becomes c₀ (c.perform op)
  | resetStats {c : Cache β} : Becomes c₀ c → Becomes c₀ c.resetStats

/-- What a cache has says how many nodes are in use, and that alone says which blocks find no place. -/
structure Accounted (pool : Nat) (c : Cache β) : Prop where
  /-- Each node is in one chain or waits, and no node is lost. -/
  nodes : (c.free ++ (List.range c.slots).flatMap c.chain).Perm (List.range c.nodes.size)
  poolUsed_add : c.poolUsed + c.free.length = c.nodes.size
  poolUsed_eq : c.poolUsed = c.toList.countP fun e => (c.resident? e.pc).isNone
  poolUsed_le : c.poolUsed ≤ pool
  insert_eq_error_iff : ∀ e err, c.insert e = .error err ↔
    err = .poolExhausted pool ∧ c.get? e.pc = none ∧ (c.resident (c.slot e.pc)).isSome ∧ c.poolUsed = pool
  insertInPlace_eq_ok_iff : ∀ e c', (insertInPlace e).run c = .ok () c' ↔ c.insert e = .ok c'
  /-- An insertion that fails leaves everything as it was. -/
  insertInPlace_eq_error_iff : ∀ e err c', (insertInPlace e).run c = .error err c' ↔
    c.insert e = .error err ∧ c' = c

/-- A valid cache has its accounts in order. -/
lemma Valid.accounted (h : Valid c) : Accounted c.poolCapacity c where
  nodes := h.pool.partition
  poolUsed_add := h.pool.poolUsed_add
  poolUsed_eq := h.poolUsed_eq
  poolUsed_le := (Nat.sub_le _ _).trans h.pool.room
  insert_eq_error_iff := h.insert_eq_error_iff
  insertInPlace_eq_ok_iff e c' := by
    rw [insertInPlace_run]
    cases c.insert e <;> simp
  insertInPlace_eq_error_iff e err c' := by
    rw [insertInPlace_run]
    cases c.insert e <;> simp [eq_comm]

/-- Operations keep a cache valid and its sizes as they are. -/
lemma Becomes.valid (h : Becomes c₀ c) (hvalid : Valid c₀) : Valid c ∧ c₀.SameSizes c := by
  induction h with
  | start => exact ⟨hvalid, rfl, rfl⟩
  | perform op _ ih => exact ⟨(ih.1.perform op).1, ih.2.trans (sameSizes_perform _ op)⟩
  | resetStats _ ih => exact ⟨ih.1.with_stats {}, ih.2.bits, ih.2.poolCapacity⟩

/-- The accounts of a cache of any size are in order after any operations: the nodes in use are as many as the
blocks that are no residents, an insertion fails only when all are in use, and one that fails changes nothing. -/
theorem pool_accounted {slots : Nat} (hcreate : create slots pool = .ok c₀) (h : Becomes c₀ c) :
    Accounted pool c := by
  obtain rfl := create_eq_ok hcreate
  obtain ⟨hvalid, hsizes⟩ := h.valid (valid_blank _ _).1
  have haccounted := hvalid.accounted
  rwa [hsizes.poolCapacity] at haccounted

/-- One slot and one node: with two blocks the third finds no room, and once the first is erased it does. -/
theorem pool_accounted_crowded :
    let block (pc : UInt32) : Entry Nat := ⟨pc, 0, 1, 1, .none⟩
    ∃ c₀ c : Cache Nat, create 1 1 = .ok c₀ ∧ Becomes c₀ c ∧ Accounted 1 c ∧ Accounted 1 (c.perform (.erase 0)) ∧
      (insertInPlace (block 8)).run c = .error (.poolExhausted 1) c ∧
        (c.perform (.erase 0)).poolUsed = 0 ∧ ((c.perform (.erase 0)).insert (block 8)).isOk := by
  intro block
  have hcreate : create 1 1 = .ok (blank 0 1 : Cache Nat) := rfl
  let c : Cache Nat := ((blank 0 1).perform (.insert (block 0))).perform (.insert (block 5))
  have hc : Becomes (blank 0 1) c := .perform _ (.perform _ .start)
  have haccounted := pool_accounted hcreate hc
  refine ⟨_, c, hcreate, hc, haccounted, pool_accounted hcreate (.perform _ hc), ?_, by decide +kernel,
    by decide +kernel⟩
  refine (haccounted.insertInPlace_eq_error_iff ..).mpr ⟨?_, rfl⟩
  exact (haccounted.insert_eq_error_iff ..).mpr ⟨rfl, by decide +kernel, by decide +kernel, by decide +kernel⟩

end R3000.Cache
