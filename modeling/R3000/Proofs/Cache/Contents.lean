import Mathlib
import R3000.Proofs.Cache.Pool

/-!
# The blocks of a cache

A cache is valid when its pool is, every block stands in the slot of its address, and no address has two
blocks.  Then a lookup finds exactly the blocks listed, and each operation adds, replaces or removes one
block of that list; the order in which a slot holds its blocks does not matter to any of this.
-/

namespace R3000.Cache

variable {β : Type} {c c' : Cache β} {s i : Nat} {pc : UInt32} {e x : Entry β}

/-! ### Validity -/

/-- The blocks stand where a lookup expects them, each address once, and are counted. -/
structure Valid (c : Cache β) : Prop where
  pool : Pool c
  settled : ∀ s, c.resident s = none → c.behind s = []
  home : ∀ s, ∀ e ∈ c.bucket s, c.slot e.pc = s
  distinct : ∀ s, ((c.bucket s).map (·.pc)).Nodup
  counted : c.size = c.toList.length

/-- The list of blocks, slot by slot. -/
lemma toList_perm (c : Cache β) : c.toList.Perm ((List.range c.slots).flatMap c.bucket) := by
  rw [toList, List.filterMap_eq_flatMap_toList]
  exact List.flatMap_append_perm ..

lemma get?_eq_find? (c : Cache β) (pc : UInt32) :
    c.get? pc = (c.bucket (c.slot pc)).find? (·.pc == pc) := by
  rw [get?, bucket, List.find?_append, behind, List.find?_filterMap]
  congr 1
  rw [resident?]
  cases c.resident (c.slot pc) with
  | none => rfl
  | some e => cases h : e.pc == pc <;> simp_all

lemma resident?_eq_some (h : c.resident? pc = some e) : c.resident (c.slot pc) = some e ∧ e.pc = pc := by
  simpa [resident?, Option.filter_eq_some_iff] using h

namespace Valid

lemma mem_toList (h : Valid c) : e ∈ c.toList ↔ e ∈ c.bucket (c.slot e.pc) := by
  rw [c.toList_perm.mem_iff, List.mem_flatMap]
  constructor
  · rintro ⟨s, -, hs⟩
    rwa [h.home s e hs]
  · intro he
    exact ⟨_, List.mem_range.mpr (slot_lt c e.pc), he⟩

/-- A lookup finds the listed block of an address. -/
lemma get?_eq_some_iff (h : Valid c) : c.get? pc = some e ↔ e ∈ c.toList ∧ e.pc = pc := by
  rw [get?_eq_find?, h.mem_toList]
  constructor
  · intro hfind
    obtain rfl : e.pc = pc := by simpa using List.find?_some hfind
    exact ⟨List.mem_of_find?_eq_some hfind, rfl⟩
  · rintro ⟨he, rfl⟩
    obtain ⟨x, hx⟩ : ∃ x, (c.bucket (c.slot e.pc)).find? (·.pc == e.pc) = some x := by
      rw [← Option.isSome_iff_exists, List.find?_isSome]
      exact ⟨e, he, beq_self_eq_true _⟩
    have hpc : x.pc = e.pc := by simpa using List.find?_some hx
    rw [hx, List.inj_on_of_nodup_map (h.distinct _) (List.mem_of_find?_eq_some hx) he hpc]

lemma get?_eq_none_iff (h : Valid c) : c.get? pc = none ↔ ∀ e ∈ c.toList, e.pc ≠ pc := by
  rw [Option.eq_none_iff_forall_ne_some]
  constructor
  · intro hnone e he hpc
    exact hnone e (h.get?_eq_some_iff.mpr ⟨he, hpc⟩)
  · intro hne e he
    obtain ⟨hmem, hpc⟩ := h.get?_eq_some_iff.mp he
    exact hne e hmem hpc

/-- The addresses listed are those with a block. -/
lemma mem_pcs (h : Valid c) (pc : UInt32) : pc ∈ c.toList.map (·.pc) ↔ (c.get? pc).isSome := by
  rw [List.mem_map, Option.isSome_iff_exists]
  exact exists_congr fun e => h.get?_eq_some_iff.symm

/-- No address is listed twice. -/
lemma nodup_pcs (h : Valid c) : (c.toList.map (·.pc)).Nodup := by
  rw [(c.toList_perm.map _).nodup_iff, List.map_flatMap, List.nodup_flatMap]
  refine ⟨fun s _ => h.distinct s, List.nodup_range.imp fun {s t} hst pc hs ht => ?_⟩
  obtain ⟨e, he, rfl⟩ := List.mem_map.mp hs
  obtain ⟨x, hx, hpc⟩ := List.mem_map.mp ht
  exact hst ((h.home s e he).symm.trans (hpc ▸ h.home t x hx))

end Valid

/-! ### Changes to one slot -/

/-- A change to the blocks of one slot. -/
structure Changed (c c' : Cache β) (s : Nat) (r : Option (Entry β)) (l : List (Entry β)) : Prop where
  pool : Pool c'
  bits : c'.bits = c.bits
  resident : c'.resident = Function.update c.resident s r
  behind : c'.behind = Function.update c.behind s l
  size : c'.size + (c.bucket s).length = c.size + (r.toList ++ l).length

namespace Changed

variable {r : Option (Entry β)} {l : List (Entry β)}

lemma bucket_eq (hc : Changed c c' s r l) : c'.bucket = Function.update c.bucket s (r.toList ++ l) := by
  funext t
  rw [bucket, hc.resident, hc.behind]
  by_cases ht : t = s
  · subst ht
    simp only [Function.update_self]
  · simp only [Function.update_of_ne ht, bucket]

lemma slot_eq (hc : Changed c c' s r l) : c'.slot pc = c.slot pc := by
  rw [slot, slot, hc.bits]

lemma toList_perm (hc : Changed c c' s r l) (hs : s < c.slots) :
    (c'.toList ++ c.bucket s).Perm (c.toList ++ (r.toList ++ l)) := by
  have hslots : c'.slots = c.slots := by rw [slots, slots, hc.bits]
  have hup := perm_flatMap_update c.bucket (r.toList ++ l) hs
  rw [← hc.bucket_eq, ← hslots] at hup
  refine (c'.toList_perm.append_right _).trans (hup.trans ?_)
  rw [hslots]
  exact c.toList_perm.symm.append_right _

/-- A change keeps a cache valid if the slot stays so. -/
lemma valid (hc : Changed c c' s r l) (h : Valid c) (hs : s < c.slots) (hsettled : r = none → l = [])
    (hhome : ∀ e ∈ r.toList ++ l, c.slot e.pc = s) (hdistinct : ((r.toList ++ l).map (·.pc)).Nodup) :
    Valid c' where
  pool := hc.pool
  settled t ht := by
    rw [hc.resident] at ht
    rw [hc.behind]
    by_cases hts : t = s
    · subst hts
      rw [Function.update_self] at ht ⊢
      exact hsettled ht
    · rw [Function.update_of_ne hts] at ht ⊢
      exact h.settled t ht
  home t e he := by
    rw [hc.slot_eq]
    rw [hc.bucket_eq] at he
    by_cases hts : t = s
    · subst hts
      rw [Function.update_self] at he
      exact hhome e he
    · rw [Function.update_of_ne hts] at he
      exact h.home t e he
  distinct t := by
    rw [hc.bucket_eq]
    by_cases hts : t = s
    · subst hts
      rw [Function.update_self]
      exact hdistinct
    · rw [Function.update_of_ne hts]
      exact h.distinct t
  counted := by
    have hlength := (hc.toList_perm hs).length_eq
    have hsize := hc.size
    rw [h.counted] at hsize
    simp only [List.length_append] at hlength hsize
    omega

end Changed

/-! ### Adding, replacing and removing a block -/

/-- One block of the list is another now. -/
def Replaced (c c' : Cache β) (x e : Entry β) : Prop :=
  ∃ rest, c.toList.Perm (x :: rest) ∧ c'.toList.Perm (e :: rest)

namespace Changed

variable {r : Option (Entry β)} {l l₁ l₂ : List (Entry β)}

/-- A slot that got a new block. -/
lemma added (hc : Changed c c' s r l) (h : Valid c) (hs : s = c.slot e.pc)
    (hfresh : c.get? e.pc = none) (hsettled : r = none → l = [])
    (hnew : (r.toList ++ l).Perm (e :: c.bucket s)) :
    Valid c' ∧ c'.toList.Perm (e :: c.toList) := by
  have hlt : s < c.slots := hs ▸ slot_lt c e.pc
  refine ⟨hc.valid h hlt hsettled (fun x hx => ?_) ?_, ?_⟩
  · rcases List.mem_cons.mp (hnew.mem_iff.mp hx) with rfl | hx
    · exact hs.symm
    · exact h.home s x hx
  · rw [(hnew.map _).nodup_iff, List.map_cons, List.nodup_cons]
    refine ⟨fun hmem => ?_, h.distinct s⟩
    obtain ⟨x, hx, hpc⟩ := List.mem_map.mp hmem
    refine h.get?_eq_none_iff.mp hfresh x (h.mem_toList.mpr ?_) hpc
    rwa [hpc, ← hs]
  · have hperm := (hc.toList_perm hlt).trans (hnew.append_left _)
    refine (List.perm_append_right_iff (c.bucket s)).mp (hperm.trans ?_)
    exact List.perm_middle

/-- A slot in which one block is replaced by one for the same address. -/
lemma replaced (hc : Changed c c' s r l) (h : Valid c) (hs : s < c.slots)
    (hsettled : r = none → l = []) (hpc : e.pc = x.pc) (hold : c.bucket s = l₁ ++ x :: l₂)
    (hnew : r.toList ++ l = l₁ ++ e :: l₂) : Valid c' ∧ Replaced c c' x e := by
  classical
  have hx : x ∈ c.bucket s := by simp [hold]
  refine ⟨hc.valid h hs hsettled (fun y hy => ?_) ?_, ?_⟩
  · rw [hnew] at hy
    by_cases hye : y = e
    · rw [hye, hpc, h.home s x hx]
    · refine h.home s y ?_
      rw [hold]
      simp only [List.mem_append, List.mem_cons, hye, false_or] at hy ⊢
      exact hy.imp_right .inr
  · have hdistinct := h.distinct s
    rw [hold] at hdistinct
    rw [hnew]
    simpa [hpc] using hdistinct
  · have hmem : x ∈ c.toList := h.mem_toList.mpr (h.home s x hx ▸ hx)
    obtain ⟨front, back, hsplit⟩ := List.append_of_mem hmem
    have hrest : c.toList.Perm (x :: (front ++ back)) := hsplit ▸ List.perm_middle
    refine ⟨front ++ back, hrest, ?_⟩
    have hperm := hc.toList_perm hs
    rw [hold, hnew] at hperm
    rw [List.perm_iff_count] at hperm hrest ⊢
    intro a
    have hperm := hperm a
    have hrest := hrest a
    simp only [List.count_append, List.count_cons] at hperm hrest ⊢
    omega

/-- A slot that lost a block. -/
lemma removed (hc : Changed c c' s r l) (h : Valid c) (hs : s < c.slots)
    (hsettled : r = none → l = []) (hold : c.bucket s = l₁ ++ x :: l₂) (hnew : r.toList ++ l = l₁ ++ l₂) :
    Valid c' ∧ c.toList.Perm (x :: c'.toList) := by
  classical
  have hsub : (l₁ ++ l₂).Sublist (c.bucket s) := by
    rw [hold]
    exact (List.Sublist.refl _).append (List.sublist_cons_self _ _)
  refine ⟨hc.valid h hs hsettled (fun y hy => ?_) ?_, ?_⟩
  · exact h.home s y (hsub.subset (hnew ▸ hy))
  · rw [hnew]
    exact (hsub.map _).nodup (h.distinct s)
  · have hperm := hc.toList_perm hs
    rw [hold, hnew] at hperm
    rw [List.perm_iff_count] at hperm ⊢
    intro a
    have hperm := hperm a
    simp only [List.count_append, List.count_cons] at hperm ⊢
    omega

end Changed

/-! ### Where a block changes -/

/-- A change of the resident alone. -/
lemma changed_setResident (h : Pool c) (hs : s < c.slots) (r : Option (Entry β)) (size : Nat)
    (stats : CacheStats)
    (hsize : size + (c.bucket s).length = c.size + (r.toList ++ c.behind s).length) :
    Changed c { c.setResident s r with size, stats } s r (c.behind s) where
  pool := ⟨h.path, h.partition, h.room⟩
  bits := rfl
  resident := resident_setResident hs r
  behind := (Function.update_eq_self ..).symm
  size := hsize

/-- A change behind the resident alone. -/
lemma changed_behind {l : List (Entry β)} (hpool : Pool c') (hbits : c'.bits = c.bits)
    (hresident : c'.resident = c.resident) (hbehind : c'.behind = Function.update c.behind s l)
    (hsize : c'.size + (c.behind s).length = c.size + l.length) :
    Changed c c' s (c.resident s) l where
  pool := hpool
  bits := hbits
  resident := hresident.trans (Function.update_eq_self ..).symm
  behind := hbehind
  size := by
    simp only [bucket, List.length_append]
    omega

lemma bits_unlink (c : Cache β) (s i : Nat) : (c.unlink s i).bits = c.bits := by
  rcases bypass_cases c s i with ⟨next, heq⟩ | ⟨k, next, heq⟩ <;> rw [unlink, heq] <;> rfl

lemma resident_unlink (c : Cache β) (s i : Nat) : (c.unlink s i).resident = c.resident := by
  rcases bypass_cases c s i with ⟨next, heq⟩ | ⟨k, next, heq⟩ <;> rw [unlink, heq] <;> rfl

lemma size_unlink (c : Cache β) (s i : Nat) : (c.unlink s i).size = c.size := by
  rcases bypass_cases c s i with ⟨next, heq⟩ | ⟨k, next, heq⟩ <;> rw [unlink, heq] <;> rfl

/-- The bucket of a slot with a resident. -/
lemma bucket_eq_cons (h : c.resident s = some x) : c.bucket s = [] ++ x :: c.behind s := by
  rw [bucket, h]
  rfl

namespace Valid

lemma size_pos (h : Valid c) (hs : s < c.slots) (hx : x ∈ c.bucket s) : 0 < c.size := by
  rw [h.counted, c.toList_perm.length_eq]
  exact List.length_pos_of_mem (List.mem_flatMap.mpr ⟨s, List.mem_range.mpr hs, hx⟩)

/-- Replacing a resident by a block for the same address. -/
lemma replaced_resident (h : Valid c) (hs : s < c.slots) (hx : c.resident s = some x)
    (hpc : e.pc = x.pc) (stats : CacheStats) :
    Valid { c.setResident s (some e) with stats } ∧
      Replaced c { c.setResident s (some e) with stats } x e := by
  have hc := changed_setResident h.pool hs (some e) c.size stats (by simp [bucket, hx])
  exact hc.replaced h hs (by simp) hpc (bucket_eq_cons hx) rfl

/-- Replacing the block in a node by one for the same address. -/
lemma replaced_node (h : Valid c) (hnode : c.node? pc = some i) (k : Entry β → Entry β)
    (hk : ∀ x, x.pc = pc → (k x).pc = pc) (stats : CacheStats) :
    ∃ x, x.pc = pc ∧ Valid { c.setNode i fun n => { n with entry := k n.entry } with stats } ∧
      Replaced c { c.setNode i fun n => { n with entry := k n.entry } with stats } x (k x) := by
  obtain ⟨x, l₁, l₂, -, -, hx, hold, hnew, -⟩ := node?_eq_some h.pool hnode
  have hpool := h.pool.setNode k (i := i)
  have hc : Changed c { c.setNode i fun n => { n with entry := k n.entry } with stats } (c.slot pc)
      (c.resident (c.slot pc)) (l₁ ++ k x :: l₂) :=
    changed_behind ⟨hpool.path, hpool.partition, hpool.room⟩ rfl rfl (hnew k)
      (by simp [hold, setNode])
  have hsettled : c.resident (c.slot pc) = none → l₁ ++ k x :: l₂ = [] := fun hnone => by
    simp [h.settled _ hnone] at hold
  have hbucket : c.bucket (c.slot pc) = ((c.resident (c.slot pc)).toList ++ l₁) ++ x :: l₂ := by
    rw [bucket, hold, List.append_assoc]
  exact ⟨x, hx, hc.replaced h (slot_lt c pc) hsettled ((hk x hx).trans hx.symm) hbucket
    (List.append_assoc ..).symm⟩

/-- Removing a resident with blocks behind it: the newest moves up and its node is taken out. -/
lemma promoted (h : Valid c) (hres : c.resident s = some x) (hhead : c.head s = some i) :
    Valid ((c.setResident s (c.entryAt i)).unlink s i).countRemoval ∧
      c.toList.Perm (x :: ((c.setResident s (c.entryAt i)).unlink s i).countRemoval.toList) := by
  have hs : s < c.slots := by
    by_contra hle
    simp [resident_of_le (not_lt.mp hle)] at hres
  have hpos := h.size_pos hs (x := x) (by simp [bucket_eq_cons hres])
  obtain ⟨n, tl, hchain, node, -⟩ := (hhead ▸ h.pool.path s).eq_cons
  have hentry : c.entryAt i = some n.entry := by rw [entryAt, node]; rfl
  have hbehind : c.behind s = n.entry :: tl.filterMap c.entryAt := by
    rw [behind, hchain, List.filterMap_cons_some hentry]
  rw [hentry]
  set d := c.setResident s (some n.entry) with hd
  have hdpool : Pool d := ⟨h.pool.path, h.pool.partition, h.pool.room⟩
  have hi : i ∈ d.chain s := by
    change i ∈ c.chain s
    simp [hchain]
  have hpool := hdpool.unlink hi
  have htl : (d.unlink s i).chain = Function.update d.chain s tl := by
    rw [chain_unlink hdpool hi]
    change Function.update d.chain s ((c.chain s).erase i) = _
    rw [hchain, List.erase_cons_head]
  have hrest : (d.unlink s i).behind = Function.update c.behind s (tl.filterMap c.entryAt) := by
    refine behind_eq_update (c := d) htl ?_ fun t _ j _ => entryAt_unlink d s i j
    rw [funext (entryAt_unlink d s i)]
    rfl
  have hc : Changed c (d.unlink s i).countRemoval s (some n.entry) (tl.filterMap c.entryAt) := {
    pool := ⟨hpool.path, hpool.partition, hpool.room⟩
    bits := bits_unlink d s i
    resident := (resident_unlink d s i).trans (resident_setResident hs _)
    behind := hrest
    size := by
      change (d.unlink s i).size - 1 + _ = _
      rw [size_unlink, bucket_eq_cons hres, hbehind]
      change c.size - 1 + _ = _
      simp
      omega }
  refine hc.removed h hs (by simp) (bucket_eq_cons hres) ?_
  rw [hbehind]
  rfl

/-! ### Operations -/

/-- An insertion adds the block, or replaces the one of its address. -/
lemma insert (h : Valid c) (hinsert : c.insert e = .ok c') :
    Valid c' ∧ ((c.get? e.pc = none ∧ c'.toList.Perm (e :: c.toList)) ∨
      ∃ x, x.pc = e.pc ∧ Replaced c c' x e) := by
  have hs := slot_lt c e.pc
  rw [Cache.insert] at hinsert
  dsimp only at hinsert
  split at hinsert
  · rename_i hnone
    obtain rfl := Except.ok.inj hinsert
    have hbehind := h.settled _ hnone
    have hbucket : c.bucket (c.slot e.pc) = [] := by rw [bucket, hnone, hbehind]; rfl
    have hfresh : c.get? e.pc = none := by rw [get?_eq_find?, hbucket]; rfl
    have hc := changed_setResident h.pool hs (some e) (c.size + 1)
      { c.stats with inserts := c.stats.inserts + 1 } (by simp [hbucket, hbehind])
    obtain ⟨hvalid, hperm⟩ := hc.added h rfl hfresh (by simp) (by simp [hbehind, hbucket])
    exact ⟨hvalid, .inl ⟨hfresh, hperm⟩⟩
  · rename_i x hx
    split at hinsert
    · rename_i hpc
      obtain rfl := Except.ok.inj hinsert
      obtain ⟨hvalid, hrep⟩ := h.replaced_resident hs hx hpc.symm
        { c.stats with replacements := c.stats.replacements + 1 }
      exact ⟨hvalid, .inr ⟨x, hpc, hrep⟩⟩
    · rename_i hpc
      split at hinsert
      · rename_i i hnode
        obtain rfl := Except.ok.inj hinsert
        obtain ⟨y, hy, hvalid, hrep⟩ := h.replaced_node hnode (fun _ => e) (fun _ _ => rfl)
          { c.stats with replacements := c.stats.replacements + 1 }
        exact ⟨hvalid, .inr ⟨y, hy, hrep⟩⟩
      · rename_i hnode
        obtain ⟨hpool, hbits, hresident, hsize, hbehind⟩ := pushFront_eq_ok h.pool hinsert
        have hfresh : c.get? e.pc = none := by
          rw [get?, hnode, resident?, hx]
          simp [Option.filter, hpc]
        have hc := changed_behind hpool hbits hresident hbehind
          (by rw [hsize, List.length_cons]; omega)
        obtain ⟨hvalid, hperm⟩ := hc.added h rfl hfresh (by simp [hx]) (by
          rw [bucket, hx]
          exact List.Perm.swap e x _)
        exact ⟨hvalid, .inl ⟨hfresh, hperm⟩⟩

/-- Noting how a block waits replaces it by the block that waits so. -/
lemma setIdle (h : Valid c) (pc : UInt32) (idle : Idle) :
    (c.setIdle pc idle = (false, c) ∧ c.get? pc = none) ∨
      ∃ x c', c.setIdle pc idle = (true, c') ∧ x.pc = pc ∧ Valid c' ∧
        Replaced c c' x { x with idle } := by
  rw [Cache.setIdle]
  split
  · rename_i x hx
    obtain ⟨hres, hpc⟩ := resident?_eq_some hx
    have hrep := h.replaced_resident (e := { x with idle }) (slot_lt c pc) hres rfl c.stats
    exact .inr ⟨x, _, rfl, hpc, hrep⟩
  · rename_i i hnone hnode
    obtain ⟨x, hpc, hrep⟩ := h.replaced_node hnode (fun x => { x with idle }) (fun _ hx => hx) c.stats
    exact .inr ⟨x, _, rfl, hpc, hrep⟩
  · rename_i hnone hnode
    refine .inl ⟨rfl, ?_⟩
    rw [get?, hnone, hnode]
    rfl

/-- An erasure takes the block of the address out of the list. -/
lemma erase (h : Valid c) (pc : UInt32) :
    (c.erase pc = (none, c) ∧ c.get? pc = none) ∨
      ∃ x c', c.erase pc = (some x, c') ∧ x.pc = pc ∧ Valid c' ∧ c.toList.Perm (x :: c'.toList) := by
  have hs := slot_lt c pc
  dsimp only [Cache.erase]
  split
  · rename_i x hx
    obtain ⟨hres, hpc⟩ := resident?_eq_some hx
    have hpos := h.size_pos hs (x := x) (by simp [bucket_eq_cons hres])
    split
    · rename_i i hhead
      exact .inr ⟨x, _, rfl, hpc, h.promoted hres hhead⟩
    · rename_i hhead
      refine .inr ⟨x, _, rfl, hpc, ?_⟩
      have hbehind := h.pool.head_eq_none_iff.mp hhead
      have hc := changed_setResident h.pool hs none (c.size - 1)
        { c.stats with removals := c.stats.removals + 1 } (by
          rw [bucket_eq_cons hres, hbehind]
          simp
          omega)
      exact hc.removed h hs (by simp [hbehind]) (bucket_eq_cons hres) rfl
  · rename_i i hnone hnode
    obtain ⟨x, l₁, l₂, hi, hx, hpc, hold, -, hnew⟩ := node?_eq_some h.pool hnode
    have hpos := h.size_pos hs (x := x) (by simp [bucket, hold])
    have hpool := h.pool.unlink hi
    rw [hx]
    refine .inr ⟨x, _, rfl, hpc, ?_⟩
    have hc : Changed c (c.unlink (c.slot pc) i).countRemoval (c.slot pc) (c.resident (c.slot pc))
        (l₁ ++ l₂) :=
      changed_behind ⟨hpool.path, hpool.partition, hpool.room⟩ (bits_unlink ..) (resident_unlink ..)
        hnew (by
          change (c.unlink (c.slot pc) i).size - 1 + _ = _
          rw [size_unlink, hold]
          simp
          omega)
    have hsettled : c.resident (c.slot pc) = none → l₁ ++ l₂ = [] := fun hnone => by
      simp [h.settled _ hnone] at hold
    have hbucket : c.bucket (c.slot pc) = ((c.resident (c.slot pc)).toList ++ l₁) ++ x :: l₂ := by
      rw [bucket, hold, List.append_assoc]
    exact hc.removed h hs hsettled hbucket (List.append_assoc ..).symm
  · rename_i hnone hnode
    refine .inl ⟨rfl, ?_⟩
    rw [get?, hnone, hnode]
    rfl

/-! ### Lookups after an operation -/

lemma get?_congr (h : Valid c) (h' : Valid c')
    (heq : ∀ y : Entry β, y.pc = pc → (y ∈ c'.toList ↔ y ∈ c.toList)) : c'.get? pc = c.get? pc := by
  ext y
  rw [h'.get?_eq_some_iff, h.get?_eq_some_iff]
  exact and_congr_left fun hy => heq y hy

lemma get?_of_added (h : Valid c) (h' : Valid c') (hperm : c'.toList.Perm (e :: c.toList)) :
    c'.get? = Function.update c.get? e.pc (some e) := by
  funext pc
  by_cases hpc : pc = e.pc
  · subst hpc
    rw [Function.update_self, h'.get?_eq_some_iff, hperm.mem_iff]
    exact ⟨List.mem_cons_self, rfl⟩
  · rw [Function.update_of_ne hpc]
    refine h.get?_congr h' fun y hy => ?_
    rw [hperm.mem_iff, List.mem_cons, or_iff_right]
    rintro rfl
    exact hpc hy.symm

lemma get?_of_removed (h : Valid c) (h' : Valid c') (hperm : c.toList.Perm (x :: c'.toList)) :
    c'.get? = Function.update c.get? x.pc none := by
  have hnodup := h.nodup_pcs
  rw [(hperm.map _).nodup_iff, List.map_cons, List.nodup_cons] at hnodup
  rw [h'.get?_of_added h hperm, Function.update_idem]
  refine (Function.update_eq_self_iff.mpr ?_).symm
  rw [eq_comm, h'.get?_eq_none_iff]
  intro y hy hpc
  exact hnodup.1 (List.mem_map.mpr ⟨y, hy, hpc⟩)

lemma get?_of_replaced (h : Valid c) (h' : Valid c') (hpc : e.pc = x.pc) (hrep : Replaced c c' x e) :
    c'.get? = Function.update c.get? e.pc (some e) := by
  obtain ⟨rest, hold, hnew⟩ := hrep
  funext pc
  by_cases he : pc = e.pc
  · subst he
    rw [Function.update_self, h'.get?_eq_some_iff, hnew.mem_iff]
    exact ⟨List.mem_cons_self, rfl⟩
  · rw [Function.update_of_ne he]
    refine h.get?_congr h' fun y hy => ?_
    rw [hnew.mem_iff, hold.mem_iff, List.mem_cons, List.mem_cons, or_iff_right, or_iff_right]
    · rintro rfl
      exact he (hy.symm.trans hpc.symm)
    · rintro rfl
      exact he hy.symm

/-- After an insertion the address has the block, and every other address what it had. -/
lemma get?_insert (h : Valid c) (hinsert : c.insert e = .ok c') :
    c'.get? = Function.update c.get? e.pc (some e) := by
  obtain ⟨hvalid, ⟨-, hperm⟩ | ⟨x, hpc, hrep⟩⟩ := h.insert hinsert
  · exact h.get?_of_added hvalid hperm
  · exact h.get?_of_replaced hvalid hpc.symm hrep

lemma setIdle_fst (h : Valid c) (pc : UInt32) (idle : Idle) :
    (c.setIdle pc idle).1 = (c.get? pc).isSome := by
  obtain ⟨heq, hnone⟩ | ⟨x, c', heq, hpc, -, rest, hold, -⟩ := h.setIdle pc idle
  · rw [heq, hnone]
    rfl
  · rw [heq, h.get?_eq_some_iff.mpr ⟨hold.mem_iff.mpr List.mem_cons_self, hpc⟩]
    rfl

lemma valid_setIdle (h : Valid c) (pc : UInt32) (idle : Idle) : Valid (c.setIdle pc idle).2 := by
  obtain ⟨heq, -⟩ | ⟨x, c', heq, -, hvalid, -⟩ := h.setIdle pc idle
  · rw [heq]
    exact h
  · rw [heq]
    exact hvalid

/-- Noting how a block waits changes nothing but that. -/
lemma get?_setIdle (h : Valid c) (pc : UInt32) (idle : Idle) :
    (c.setIdle pc idle).2.get? =
      Function.update c.get? pc ((c.get? pc).map fun e => { e with idle }) := by
  obtain ⟨heq, hnone⟩ | ⟨x, c', heq, rfl, hvalid, hrep⟩ := h.setIdle pc idle
  · rw [heq, hnone, Option.map_none, ← hnone, Function.update_eq_self]
  · have hx : c.get? x.pc = some x := by
      obtain ⟨rest, hold, -⟩ := hrep
      exact h.get?_eq_some_iff.mpr ⟨hold.mem_iff.mpr List.mem_cons_self, rfl⟩
    rw [heq, hx]
    exact h.get?_of_replaced (x := x) (e := { x with idle }) hvalid rfl hrep

/-- An erasure gives back the block of the address. -/
lemma erase_fst (h : Valid c) (pc : UInt32) : (c.erase pc).1 = c.get? pc := by
  obtain ⟨heq, hnone⟩ | ⟨x, c', heq, hpc, -, hperm⟩ := h.erase pc
  · rw [heq, hnone]
  · rw [heq, h.get?_eq_some_iff.mpr ⟨hperm.mem_iff.mpr List.mem_cons_self, hpc⟩]

lemma valid_erase (h : Valid c) (pc : UInt32) : Valid (c.erase pc).2 := by
  obtain ⟨heq, -⟩ | ⟨x, c', heq, -, hvalid, -⟩ := h.erase pc
  · rw [heq]
    exact h
  · rw [heq]
    exact hvalid

/-- After an erasure the address has no block, and every other address what it had. -/
lemma get?_erase (h : Valid c) (pc : UInt32) :
    (c.erase pc).2.get? = Function.update c.get? pc none := by
  obtain ⟨heq, hnone⟩ | ⟨x, c', heq, rfl, hvalid, hperm⟩ := h.erase pc
  · rw [heq, ← hnone, Function.update_eq_self]
  · rw [heq]
    exact h.get?_of_removed hvalid hperm

/-- The blocks after an erasure, with the one erased. -/
lemma toList_erase (h : Valid c) (pc : UInt32) :
    c.toList.Perm ((c.erase pc).1.toList ++ (c.erase pc).2.toList) := by
  obtain ⟨heq, -⟩ | ⟨x, c', heq, -, -, hperm⟩ := h.erase pc
  · rw [heq]
    exact .refl _
  · rw [heq]
    exact hperm

/-! ### Erasing several blocks -/

lemma valid_eraseAll (h : Valid c) (pcs : List UInt32) : Valid (c.eraseAll pcs).2 := by
  induction pcs generalizing c with
  | nil => exact h
  | cons pc pcs ih => exact ih (h.valid_erase pc)

lemma toList_eraseAll (h : Valid c) (pcs : List UInt32) :
    c.toList.Perm ((c.eraseAll pcs).1 ++ (c.eraseAll pcs).2.toList) := by
  induction pcs generalizing c with
  | nil => exact .refl _
  | cons pc pcs ih =>
    refine (h.toList_erase pc).trans ?_
    rw [eraseAll, List.append_assoc]
    exact (ih (h.valid_erase pc)).append_left _

lemma get?_eraseAll (h : Valid c) (pcs : List UInt32) (pc : UInt32) :
    (c.eraseAll pcs).2.get? pc = if pc ∈ pcs then none else c.get? pc := by
  induction pcs generalizing c with
  | nil => simp [eraseAll]
  | cons a pcs ih =>
    rw [eraseAll]
    change ((c.erase a).2.eraseAll pcs).2.get? pc = _
    rw [ih (h.valid_erase a), h.get?_erase, Function.update_apply]
    by_cases ha : pc = a <;> simp [ha]

/-- Distinct addresses give back their blocks. -/
lemma eraseAll_fst (h : Valid c) {pcs : List UInt32} (hnodup : pcs.Nodup) :
    (c.eraseAll pcs).1 = pcs.filterMap c.get? := by
  induction pcs generalizing c with
  | nil => rfl
  | cons pc pcs ih =>
    obtain ⟨hpc, hpcs⟩ := List.nodup_cons.mp hnodup
    rw [eraseAll]
    change (c.erase pc).1.toList ++ ((c.erase pc).2.eraseAll pcs).1 = _
    have hrest : pcs.filterMap (c.erase pc).2.get? = pcs.filterMap c.get? := by
      refine List.filterMap_congr fun a ha => ?_
      rw [h.get?_erase, Function.update_of_ne]
      rintro rfl
      exact hpc ha
    rw [ih (h.valid_erase pc) hpcs, hrest, h.erase_fst]
    cases hget : c.get? pc with
    | none => rw [List.filterMap_cons_none hget]; rfl
    | some e => rw [List.filterMap_cons_some hget]; rfl

lemma valid_eraseWhere (h : Valid c) (p : Entry β → Bool) : Valid (c.eraseWhere p).2 :=
  h.valid_eraseAll _

/-- Erasing by a property gives back exactly the blocks that have it, in the order of the list. -/
lemma eraseWhere_fst (h : Valid c) (p : Entry β → Bool) : (c.eraseWhere p).1 = c.toList.filter p := by
  have hnodup : ((c.toList.filter p).map (·.pc)).Nodup :=
    (List.filter_sublist.map _).nodup h.nodup_pcs
  rw [eraseWhere, h.eraseAll_fst hnodup, List.filterMap_map]
  have hself : ∀ e ∈ c.toList.filter p, (c.get? ∘ (·.pc)) e = some e := fun e he =>
    h.get?_eq_some_iff.mpr ⟨List.mem_of_mem_filter he, rfl⟩
  rw [List.filterMap_congr hself, List.filterMap_some]

/-- Erasing by a property leaves the other blocks alone. -/
lemma get?_eraseWhere (h : Valid c) (p : Entry β → Bool) (pc : UInt32) :
    (c.eraseWhere p).2.get? pc = (c.get? pc).filter (!p ·) := by
  rw [eraseWhere, h.get?_eraseAll]
  cases hget : c.get? pc with
  | none => simp
  | some e =>
    obtain ⟨he, rfl⟩ := h.get?_eq_some_iff.mp hget
    have hmem : e.pc ∈ (c.toList.filter p).map (·.pc) ↔ p e = true := by
      rw [List.mem_map]
      constructor
      · rintro ⟨x, hx, hpc⟩
        obtain ⟨hx, hp⟩ := List.mem_filter.mp hx
        rwa [← List.inj_on_of_nodup_map h.nodup_pcs hx he hpc]
      · intro hp
        exact ⟨e, List.mem_filter.mpr ⟨he, hp⟩, rfl⟩
    cases hp : p e <;> simp [hmem, hp, Option.filter]

end Valid

/-! ### Caches without blocks -/

/-- A cache that holds nothing. -/
lemma valid_of_empty (hresident : ∀ s, c.resident s = none) (hhead : ∀ s, c.head s = none)
    (hnodes : c.nodes = #[]) (hfree : c.free = []) (hsize : c.size = 0) :
    Valid c ∧ c.toList = [] := by
  have hpath : ∀ s, Path c.nodes (c.head s) [] := fun s => by
    rw [hhead]
    exact .nil
  have hbehind : ∀ s, c.behind s = [] := fun s => by rw [behind, chain_eq hpath]; rfl
  have hbucket : ∀ s, c.bucket s = [] := fun s => by rw [bucket, hresident, hbehind]; rfl
  have hlist : c.toList = [] := by
    refine List.eq_nil_iff_forall_not_mem.mpr fun e he => ?_
    obtain ⟨s, -, hs⟩ := List.mem_flatMap.mp (c.toList_perm.mem_iff.mp he)
    simp [hbucket] at hs
  refine ⟨⟨.of_paths hpath ?_ ?_, fun s _ => hbehind s, fun s e he => ?_, fun s => ?_, ?_⟩, hlist⟩
  · simp [hfree, hnodes]
  · simp [hnodes]
  · simp [hbucket] at he
  · simp [hbucket]
  · rw [hsize, hlist]
    rfl

lemma join_replicate {α : Type} (n s : Nat) : (Vector.replicate n (none : Option α))[s]?.join = none := by
  rw [Vector.getElem?_replicate]
  split <;> rfl

lemma valid_blank (bits pool : Nat) :
    Valid (blank bits pool : Cache β) ∧ (blank bits pool : Cache β).toList = [] :=
  valid_of_empty (join_replicate _) (join_replicate _) rfl rfl rfl

lemma valid_clear (c : Cache β) : Valid c.clear ∧ c.clear.toList = [] :=
  valid_of_empty (join_replicate _) (join_replicate _) rfl rfl rfl

lemma Valid.get?_of_toList_nil (h : Valid c) (hnil : c.toList = []) (pc : UInt32) : c.get? pc = none := by
  rw [h.get?_eq_none_iff, hnil]
  simp

lemma create_eq_ok {slots pool : Nat} (h : create slots pool = .ok c) :
    c = blank (bitsFor slots) pool := by
  dsimp only [create] at h
  split at h
  · exact (Except.ok.inj h).symm
  · simp at h

/-! ### Counted lookups -/

lemma getCounted_fst (c : Cache β) (pc : UInt32) : (c.getCounted pc).1 = c.get? pc := by
  rw [getCounted, get?]
  cases c.resident? pc <;> cases (c.node? pc).bind c.entryAt <;> rfl

/-- Counting changes the counters alone. -/
lemma getCounted_snd (c : Cache β) (pc : UInt32) :
    ∃ stats, (c.getCounted pc).2 = { c with stats } := by
  rw [getCounted]
  split <;> exact ⟨_, rfl⟩

lemma Valid.with_stats (h : Valid c) (stats : CacheStats) : Valid { c with stats } where
  pool := ⟨h.pool.path, h.pool.partition, h.pool.room⟩
  settled := h.settled
  home := h.home
  distinct := h.distinct
  counted := h.counted

end R3000.Cache
