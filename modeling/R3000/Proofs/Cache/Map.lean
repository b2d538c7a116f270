import Mathlib
import R3000.Proofs.Cache.Contents

/-!
# The cache as a map

Whatever is done to a cache, it stays the finite map from addresses to blocks that the operations spell
out: `Represents` compares all that a cache can be asked with such a map, and `run_represents` says that a
run of operations on a cache and the same run on a map never part.
-/

namespace R3000.Cache

variable {β : Type} {c : Cache β}

/-- A map from addresses to blocks. -/
abbrev Contents (β : Type) := UInt32 → Option (Entry β)

/-! ### Operations on caches and maps -/

/-- What can be asked of a cache. -/
inductive Operation (β : Type)
  | insert (e : Entry β)
  | erase (pc : UInt32)
  | eraseWhere (p : Entry β → Bool)
  | setIdle (pc : UInt32) (idle : Idle)
  | clear
  /-- A lookup that counts. -/
  | lookup (pc : UInt32)

/-- The cache after an operation; an insertion that finds no room changes nothing. -/
def perform (c : Cache β) : Operation β → Cache β
  | .insert e =>
    match c.insert e with
    | .ok c => c
    | .error _ => c
  | .erase pc => (c.erase pc).2
  | .eraseWhere p => (c.eraseWhere p).2
  | .setIdle pc idle => (c.setIdle pc idle).2
  | .clear => c.clear
  | .lookup pc => (c.getCounted pc).2

/-- Whether the cache has room for what an operation adds. -/
def accepts (c : Cache β) : Operation β → Bool
  | .insert e => (c.insert e).isOk
  | _ => true

/-- The map after an operation, given whether there was room. -/
def Operation.onMap (accepted : Bool) (m : Contents β) : Operation β → Contents β
  | .insert e => if accepted then Function.update m e.pc (some e) else m
  | .erase pc => Function.update m pc none
  | .eraseWhere p => fun pc => (m pc).filter (!p ·)
  | .setIdle pc idle => Function.update m pc ((m pc).map fun e => { e with idle })
  | .clear => fun _ => none
  | .lookup _ => m

/-- A run of operations on a cache and on a map, side by side. -/
def run : List (Operation β) → Cache β × Contents β → Cache β × Contents β
  | [], s => s
  | op :: ops, (c, m) => run ops (c.perform op, op.onMap (c.accepts op) m)

/-! ### Representation -/

/-- Every answer of the cache is the one that the map gives, and every chain ends. -/
structure Represents (c : Cache β) (m : Contents β) : Prop where
  get?_eq : ∀ pc, c.get? pc = m pc
  getCounted_eq : ∀ pc, (c.getCounted pc).1 = m pc
  resident?_eq : ∀ pc, c.resident? pc = none ∨ c.resident? pc = m pc
  /-- The list names each address with a block, and each once. -/
  nodup_pcs : (c.toList.map (·.pc)).Nodup
  mem_pcs : ∀ pc, pc ∈ c.toList.map (·.pc) ↔ (m pc).isSome
  mem_toList : ∀ e, e ∈ c.toList ↔ m e.pc = some e
  size_eq : c.size = { pc | (m pc).isSome }.ncard
  setIdle_eq : ∀ pc idle, (c.setIdle pc idle).1 = (m pc).isSome
  erase_eq : ∀ pc, (c.erase pc).1 = m pc
  /-- Erasing by a property gives back what has it, once each, and leaves the rest as it is. -/
  eraseWhere_eq : ∀ p, (c.eraseWhere p).1 = c.toList.filter p
  eraseWhere_rest : ∀ p pc, (c.eraseWhere p).2.get? pc = (m pc).filter (!p ·)
  /-- Following a chain node by node comes to its end. -/
  chain_ends : ∀ s, Path c.nodes (c.head s) (c.chain s)

/-- A valid cache represents what its lookups find. -/
lemma Valid.represents (h : Valid c) : Represents c c.get? where
  get?_eq _ := rfl
  getCounted_eq := getCounted_fst c
  resident?_eq pc := by
    cases hres : c.resident? pc with
    | none => exact .inl rfl
    | some e => exact .inr (by rw [get?, hres]; rfl)
  nodup_pcs := h.nodup_pcs
  mem_pcs := h.mem_pcs
  mem_toList e := by simp [h.get?_eq_some_iff]
  size_eq := by
    have hset : { pc | (c.get? pc).isSome } = ((c.toList.map (·.pc)).toFinset : Set UInt32) := by
      ext pc
      simp only [Set.mem_ofPred_eq, List.coe_toFinset, h.mem_pcs]
    rw [hset, Set.ncard_coe_finset, List.toFinset_card_of_nodup h.nodup_pcs, List.length_map,
      h.counted]
  setIdle_eq := h.setIdle_fst
  erase_eq := h.erase_fst
  eraseWhere_eq := h.eraseWhere_fst
  eraseWhere_rest := h.get?_eraseWhere
  chain_ends := h.pool.path

/-- One operation keeps the cache valid and changes its lookups as it changes the map. -/
lemma Valid.perform (h : Valid c) (op : Operation β) :
    Valid (c.perform op) ∧ (c.perform op).get? = op.onMap (c.accepts op) c.get? := by
  cases op with
  | insert e =>
    cases hinsert : c.insert e with
    | ok c' =>
      have hperform : c.perform (.insert e) = c' := by simp only [Cache.perform, hinsert]
      have haccepts : c.accepts (.insert e) = true := by
        rw [accepts, hinsert]
        rfl
      rw [hperform, haccepts]
      exact ⟨(h.insert hinsert).1, h.get?_insert hinsert⟩
    | error err =>
      have hperform : c.perform (.insert e) = c := by simp only [Cache.perform, hinsert]
      have haccepts : c.accepts (.insert e) = false := by
        rw [accepts, hinsert]
        rfl
      rw [hperform, haccepts]
      exact ⟨h, rfl⟩
  | erase pc => exact ⟨h.valid_erase pc, h.get?_erase pc⟩
  | eraseWhere p => exact ⟨h.valid_eraseWhere p, funext (h.get?_eraseWhere p)⟩
  | setIdle pc idle => exact ⟨h.valid_setIdle pc idle, h.get?_setIdle pc idle⟩
  | clear =>
    obtain ⟨hvalid, hnil⟩ := valid_clear c
    exact ⟨hvalid, funext fun pc => hvalid.get?_of_toList_nil hnil pc⟩
  | lookup pc =>
    obtain ⟨stats, heq⟩ := getCounted_snd c pc
    simp only [Cache.perform, Operation.onMap, heq]
    exact ⟨h.with_stats stats, rfl⟩

/-- A run keeps the cache valid, and the map equal to its lookups. -/
lemma Valid.run (h : Valid c) {m : Contents β} (hm : c.get? = m) (ops : List (Operation β)) :
    Valid (run ops (c, m)).1 ∧ (run ops (c, m)).1.get? = (run ops (c, m)).2 := by
  induction ops generalizing c m with
  | nil => exact ⟨h, hm⟩
  | cons op ops ih =>
    obtain ⟨hvalid, hget⟩ := h.perform op
    exact ih hvalid (hm ▸ hget)

/-- Every cache of every size represents, after any operations, the map that they make. -/
theorem run_represents {slots pool : Nat} (h : create slots pool = .ok c) (ops : List (Operation β)) :
    Represents (run ops (c, fun _ => none)).1 (run ops (c, fun _ => none)).2 := by
  obtain rfl := create_eq_ok h
  obtain ⟨hvalid, hnil⟩ := valid_blank (β := β) (bitsFor slots) pool
  obtain ⟨hrun, hget⟩ := hvalid.run (funext fun pc => hvalid.get?_of_toList_nil hnil pc) ops
  rw [← hget]
  exact hrun.represents

/-- One slot and one node: the third block finds no room, and erasing the first moves the second up. -/
theorem run_represents_crowded :
    let block (pc : UInt32) : Entry Nat := ⟨pc, 0, 1, 1, .none⟩
    ∃ c : Cache Nat, create 1 1 = .ok c ∧
      let ops := [.insert (block 0), .insert (block 5), .insert (block 8), .setIdle 5 .weak, .erase 0]
      Represents (run ops (c, fun _ => none)).1 (run ops (c, fun _ => none)).2 ∧
        (run ops (c, fun _ => none)).1.get? 5 = some { block 5 with idle := .weak } ∧
          (run ops (c, fun _ => none)).1.get? 8 = none := by
  intro block
  have hcreate : create 1 1 = .ok (blank 0 1 : Cache Nat) := rfl
  have hrep := run_represents hcreate
    [.insert (block 0), .insert (block 5), .insert (block 8), .setIdle 5 .weak, .erase 0]
  exact ⟨_, hcreate, hrep, by decide +kernel, by decide +kernel⟩

end R3000.Cache
