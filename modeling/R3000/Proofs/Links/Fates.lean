import Mathlib
import R3000.Proofs.Links.Patching

/-!
# What becomes of a site

A site that is passed to the linker is on record until it finds no room to wait, its block goes, or the linker is
cleared.  The books beside the linker keep the sites that left, so that after any operations every site that was
passed is in one place.
-/

namespace R3000.Linker

variable {β : Type} {l l' : Linker} {store : CodeStore β}

/-! ### Operations -/

/-- What may be done to a linker. -/
inductive Command (β : Type)
  | linkExit (cache : Cache β) (owner : UInt32) (exit : Exit)
  | apply (target : UInt32) (code : β)
  | unlinkWhere (p : UInt32 → Bool)
  | forgetOwnedBy (p : UInt32 → Bool)
  | clear
  | resetStats

/-- Does something to a linker and to the link words. -/
def perform (l : Linker) (store : CodeStore β) : Command β → Linker × CodeStore β
  | .linkExit cache owner exit => (l.linkExit store cache owner exit).2
  | .apply target code => (l.apply store target code).2
  | .unlinkWhere p => (l.unlinkWhere store p).2
  | .forgetOwnedBy p => ((l.forgetOwnedBy p).2, store)
  | .clear => (l.clear, store)
  | .resetStats => (l.resetStats, store)

/-- How many sites an operation says it linked or cut. -/
def reported (l : Linker) (store : CodeStore β) : Command β → Nat
  | .linkExit cache owner exit => if (l.linkExit store cache owner exit).1 = .linked then 1 else 0
  | .apply target code => (l.apply store target code).1
  | .unlinkWhere p => (l.unlinkWhere store p).1
  | _ => 0

namespace Command

/-- The site that an operation passes to the linker. -/
def passed : Command β → List Link
  | linkExit _ owner exit => [⟨exit.site, exit.target, owner⟩]
  | _ => []

/-- The word that an operation writes. -/
def word : Command β → Option (LinkWord β)
  | linkExit cache _ exit => (cache.get? exit.target).map fun e => .block e.code
  | apply _ code => some (.block code)
  | unlinkWhere _ => some .slowPath
  | _ => none

/-- Whether an operation leaves both the records and what was counted. -/
def keeps : Command β → Bool
  | clear | resetStats => false
  | _ => true

end Command

/-- The sites that an operation links or cuts. -/
def affected (l : Linker) : Command β → List Link
  | .linkExit cache owner exit =>
    if (cache.get? exit.target).isSome then [⟨exit.site, exit.target, owner⟩] else []
  | .apply target _ => l.pending.filter (·.target == target)
  | .unlinkWhere p => (l.linked.filter fun link => p link.target).reverse
  | _ => []

/-- Of some sites that come one after the other, those that find no room to wait. -/
def refused : Linker → List Link → List Link
  | _, [] => []
  | l, link :: links =>
    match l.defer link with
    | (.dropped, l) => link :: refused l links
    | (_, l) => refused l links

/-- The sites that an operation leaves on the slow path for good. -/
def drops (l : Linker) (store : CodeStore β) : Command β → List Link
  | .linkExit cache owner exit =>
    if (l.linkExit store cache owner exit).1 = .dropped then [⟨exit.site, exit.target, owner⟩] else []
  | .unlinkWhere p => l.refused (l.linked.filter fun link => p link.target).reverse
  | _ => []

/-- The sites that go with their blocks. -/
def forgets (l : Linker) : Command β → List Link
  | .forgetOwnedBy p => l.records.filter fun link => p link.owner
  | _ => []

/-- The sites that go with the code. -/
def clears (l : Linker) : Command β → List Link
  | .clear => l.records
  | _ => []

/-! ### One operation -/

lemma refused_eq (l : Linker) (links : List Link) :
    l.refused links = links.drop (l.capacity - l.pending.length) := by
  induction links generalizing l with
  | nil => rw [refused, List.drop_nil]
  | cons link links ih =>
    rw [refused, defer]
    split_ifs with hroom
    · obtain ⟨n, hn⟩ : ∃ n, l.capacity - l.pending.length = n + 1 :=
        ⟨l.capacity - l.pending.length - 1, by omega⟩
      have hn' : l.capacity - (l.pending ++ [link]).length = n := by
        rw [List.length_append, List.length_singleton]
        omega
      dsimp only
      rw [ih, hn', hn, List.drop_succ_cons]
    · have hn : l.capacity - l.pending.length = 0 := by omega
      dsimp only
      rw [ih, hn, List.drop_zero, List.drop_zero]

/-- An exit is linked if its target is cached; otherwise it waits if there is room, and is dropped if not. -/
lemma linkExit_cases (l : Linker) (store : CodeStore β) (cache : Cache β) (owner : UInt32) (exit : Exit) :
    (∃ e, cache.get? exit.target = some e ∧
      l.linkExit store cache owner exit =
        (.linked,
          { l with
            linked := ⟨exit.site, exit.target, owner⟩ :: l.linked
            stats.immediate := l.stats.immediate + 1 },
          store.patch exit.site (.block e.code))) ∨
      (cache.get? exit.target = none ∧ l.pending.length < l.capacity ∧
        l.linkExit store cache owner exit =
          (.deferred,
            { l with
              pending := l.pending ++ [⟨exit.site, exit.target, owner⟩]
              stats.deferred := l.stats.deferred + 1 },
            store)) ∨
      cache.get? exit.target = none ∧ l.capacity ≤ l.pending.length ∧
        l.linkExit store cache owner exit = (.dropped, { l with stats.dropped := l.stats.dropped + 1 }, store) := by
  rw [linkExit]
  cases cache.get? exit.target with
  | some e => exact .inl ⟨e, rfl, rfl⟩
  | none =>
    dsimp only
    rw [defer]
    split
    · rename_i hroom
      exact .inr (.inl ⟨rfl, hroom, rfl⟩)
    · rename_i hfull
      exact .inr (.inr ⟨rfl, not_lt.mp hfull, rfl⟩)

lemma capacity_perform (l : Linker) (store : CodeStore β) (c : Command β) :
    (l.perform store c).1.capacity = l.capacity := by
  cases c with
  | linkExit cache owner exit =>
    rw [perform]
    obtain ⟨e, -, heq⟩ | ⟨-, -, heq⟩ | ⟨-, -, heq⟩ := l.linkExit_cases store cache owner exit
    all_goals rw [heq]
  | unlinkWhere p => rw [perform, unlinkWhere, foldl_defer]
  | apply => rfl
  | forgetOwnedBy => rfl
  | clear => rfl
  | resetStats => rfl

/-- No operation lets more sites wait than there is room for. -/
lemma bounded_perform (h : l.pending.length ≤ l.capacity) (store : CodeStore β) (c : Command β) :
    (l.perform store c).1.pending.length ≤ l.capacity := by
  cases c with
  | linkExit cache owner exit =>
    rw [perform]
    obtain ⟨e, -, heq⟩ | ⟨-, hroom, heq⟩ | ⟨-, -, heq⟩ := l.linkExit_cases store cache owner exit
    · rw [heq]
      exact h
    · rw [heq, List.length_append, List.length_singleton]
      exact hroom
    · rw [heq]
      exact h
  | apply target code => exact (List.length_filter_le ..).trans h
  | unlinkWhere p =>
    rw [perform, unlinkWhere, foldl_defer]
    simp only [List.length_append, List.length_take]
    omega
  | forgetOwnedBy p => exact (List.length_filter_le ..).trans h
  | clear => exact Nat.zero_le _
  | resetStats => exact h

lemma count_filter_add (p : Link → Bool) (links : List Link) (k : Link) :
    (links.filter p).count k + (links.filter fun link => !p link).count k = links.count k := by
  rw [← List.count_append, (List.filter_append_perm p links).count_eq]

/-- No operation loses or duplicates a site. -/
lemma count_perform (l : Linker) (store : CodeStore β) (c : Command β) (k : Link) :
    (l.perform store c).1.records.count k + (l.drops store c).count k + (l.forgets c).count k +
      (l.clears c).count k = l.records.count k + c.passed.count k := by
  cases c with
  | linkExit cache owner exit =>
    simp only [perform, drops, forgets, clears, Command.passed, records, List.count_append, List.count_nil]
    obtain ⟨e, -, heq⟩ | ⟨-, -, heq⟩ | ⟨-, -, heq⟩ := l.linkExit_cases store cache owner exit
    · simp only [heq, reduceCtorEq, if_false, List.count_cons, List.count_nil]
      omega
    · simp only [heq, reduceCtorEq, if_false, List.count_append, List.count_nil]
      omega
    · simp only [heq, if_true]
      omega
  | apply target code =>
    have hsplit := count_filter_add (·.target == target) l.pending k
    simp only [perform, apply, drops, forgets, clears, Command.passed, records, List.count_append, List.count_reverse,
      List.count_nil, bne]
    omega
  | unlinkWhere p =>
    have hsplit := count_filter_add (fun link => p link.target) l.linked k
    have hroom := congrArg (List.count k) (List.take_append_drop (l.capacity - l.pending.length)
      (l.linked.filter fun link => p link.target).reverse)
    rw [List.count_append, List.count_reverse] at hroom
    simp only [perform, unlinkWhere, foldl_defer, drops, refused_eq, forgets, clears, Command.passed, records,
      List.count_append, List.count_nil]
    omega
  | forgetOwnedBy p =>
    have hpending := count_filter_add (fun link => p link.owner) l.pending k
    have hlinked := count_filter_add (fun link => p link.owner) l.linked k
    simp only [perform, forgetOwnedBy, drops, forgets, clears, Command.passed, records, List.filter_append,
      List.count_append, List.count_nil]
    omega
  | clear => simp [perform, clear, drops, forgets, clears, Command.passed, records]
  | resetStats => simp [perform, resetStats, drops, forgets, clears, Command.passed, records]

/-- An operation reports as many sites as it links or cuts. -/
lemma reported_eq (l : Linker) (store : CodeStore β) (c : Command β) :
    l.reported store c = (l.affected c).length := by
  cases c with
  | linkExit cache owner exit =>
    rw [reported, affected]
    obtain ⟨e, he, heq⟩ | ⟨he, -, heq⟩ | ⟨he, -, heq⟩ := l.linkExit_cases store cache owner exit
    all_goals
      rw [heq, he]
      rfl
  | apply => rfl
  | unlinkWhere p => rfl
  | forgetOwnedBy => rfl
  | clear => rfl
  | resetStats => rfl

/-- An operation writes its word to the sites that it links or cuts, and to no other. -/
lemma word?_perform (l : Linker) (store : CodeStore β) (c : Command β) (i : Site) :
    (l.perform store c).2.word? i =
      if i ∈ (l.affected c).map (·.site) then (store.word? i).bind fun _ => c.word else store.word? i := by
  cases c with
  | linkExit cache owner exit =>
    rw [perform, affected, Command.word]
    obtain ⟨e, he, heq⟩ | ⟨he, -, heq⟩ | ⟨he, -, heq⟩ := l.linkExit_cases store cache owner exit
    · rw [heq, he, CodeStore.word?_patch]
      simp [eq_comm, Option.map_eq_bind]
    · rw [heq, he]
      rfl
    · rw [heq, he]
      rfl
  | apply target code =>
    rw [perform, apply, word?_patchAll, Option.map_eq_bind]
    rfl
  | unlinkWhere p =>
    rw [perform, unlinkWhere, word?_patchAll, Option.map_eq_bind]
    rfl
  | forgetOwnedBy => rfl
  | clear => rfl
  | resetStats => rfl

/-- The sites on record are those that were linked at once or let wait, less those that were cut or forgotten. -/
def Balanced (l : Linker) : Prop :=
  l.pending.length + l.linked.length + l.stats.unlinked + l.stats.forgotten = l.stats.immediate + l.stats.deferred

/-- What comes on record and what leaves it is counted. -/
lemma Balanced.perform (h : l.Balanced) (store : CodeStore β) (c : Command β) (hc : c.keeps = true) :
    (l.perform store c).1.Balanced := by
  rw [Balanced] at h ⊢
  cases c with
  | linkExit cache owner exit =>
    rw [Linker.perform]
    obtain ⟨e, -, heq⟩ | ⟨-, -, heq⟩ | ⟨-, -, heq⟩ := l.linkExit_cases store cache owner exit
    all_goals
      simp only [heq, List.length_cons, List.length_append, List.length_nil]
      omega
  | apply target code =>
    have hsplit := List.length_eq_length_filter_add (l := l.pending) (·.target == target)
    simp only [Linker.perform, apply, List.length_append, List.length_reverse, bne]
    omega
  | unlinkWhere p =>
    have hsplit := List.length_eq_length_filter_add (l := l.linked) fun link => p link.target
    simp only [Linker.perform, unlinkWhere, foldl_defer, List.length_append, List.length_take, List.length_reverse]
    omega
  | forgetOwnedBy p =>
    have hpending := List.length_eq_length_filter_add (l := l.pending) fun link => p link.owner
    have hlinked := List.length_eq_length_filter_add (l := l.linked) fun link => p link.owner
    simp only [Linker.perform, forgetOwnedBy, List.countP_eq_length_filter]
    omega
  | clear => cases hc
  | resetStats => cases hc

/-- What is dropped and what is forgotten is counted. -/
lemma counted_perform (l : Linker) (store : CodeStore β) (c : Command β) (hc : c.keeps = true) :
    (l.perform store c).1.stats.dropped = l.stats.dropped + (l.drops store c).length ∧
      (l.perform store c).1.stats.forgotten = l.stats.forgotten + (l.forgets c).length := by
  cases c with
  | linkExit cache owner exit =>
    rw [perform, drops]
    obtain ⟨e, -, heq⟩ | ⟨-, -, heq⟩ | ⟨-, -, heq⟩ := l.linkExit_cases store cache owner exit
    all_goals
      rw [heq]
      exact ⟨rfl, rfl⟩
  | apply => exact ⟨rfl, rfl⟩
  | unlinkWhere p =>
    rw [perform, unlinkWhere, foldl_defer, drops, refused_eq, List.length_drop]
    exact ⟨rfl, rfl⟩
  | forgetOwnedBy p =>
    rw [forgets, records, List.filter_append, List.length_append, ← List.countP_eq_length_filter,
      ← List.countP_eq_length_filter]
    exact ⟨rfl, rfl⟩
  | clear => cases hc
  | resetStats => cases hc

/-- A site is dropped only if afterwards no other could wait. -/
lemma full_of_drops (h : l.pending.length ≤ l.capacity) (store : CodeStore β) (c : Command β)
    (hdrops : l.drops store c ≠ []) : (l.perform store c).1.pending.length = l.capacity := by
  cases c with
  | linkExit cache owner exit =>
    rw [drops] at hdrops
    rw [perform]
    obtain ⟨e, -, heq⟩ | ⟨-, -, heq⟩ | ⟨-, hfull, heq⟩ := l.linkExit_cases store cache owner exit
    · simp [heq] at hdrops
    · simp [heq] at hdrops
    · rw [heq]
      exact le_antisymm h hfull
  | unlinkWhere p =>
    rw [drops, refused_eq, ne_eq, List.drop_eq_nil_iff, not_le] at hdrops
    rw [perform, unlinkWhere, foldl_defer]
    simp only [List.length_append, List.length_take]
    omega
  | apply => exact absurd rfl hdrops
  | forgetOwnedBy => exact absurd rfl hdrops
  | clear => exact absurd rfl hdrops
  | resetStats => exact absurd rfl hdrops

/-! ### Linking the sites that wait, in place -/

/-- The list of waiting sites while it is looked through, how many of its first are kept, and what was linked. -/
structure Sweep (β : Type) where
  row : List Link
  kept : Nat
  linked : List Link
  patched : Nat
  store : CodeStore β

/-- Looks at the site at a place: it is linked, or moved down behind those that are kept. -/
def Sweep.look (target : UInt32) (code : β) (x : Sweep β) (i : Nat) : Sweep β :=
  match x.row[i]? with
  | none => x
  | some link =>
    if link.target = target then
      { x with
        linked := link :: x.linked
        patched := x.patched + 1
        store := x.store.patch link.site (.block code) }
    else { x with row := x.row.set x.kept link, kept := x.kept + 1 }

/-- Links every site that waits for an address by one pass over the list, which is written while it is read. -/
def applyInPlace (l : Linker) (store : CodeStore β) (target : UInt32) (code : β) : Nat × Linker × CodeStore β :=
  let x := (List.range l.pending.length).foldl (Sweep.look target code) ⟨l.pending, 0, l.linked, 0, store⟩
  (x.patched,
    { l with
      pending := x.row.take x.kept
      linked := x.linked
      stats.applied := l.stats.applied + x.patched },
    x.store)

variable {target : UInt32} {code : β} {x : Sweep β} {n : Nat}

/-- The state after the first `n` sites were looked at. -/
structure Sweep.After (l : Linker) (store : CodeStore β) (target : UInt32) (code : β) (n : Nat) (x : Sweep β) :
    Prop where
  kept_le : x.kept ≤ n
  length : x.row.length = l.pending.length
  kept : x.row.take x.kept = (l.pending.take n).filter (·.target != target)
  /-- What is still to be looked at has not been written over. -/
  rest : x.row.drop n = l.pending.drop n
  linked : x.linked = ((l.pending.take n).filter (·.target == target)).reverse ++ l.linked
  patched : x.patched = ((l.pending.take n).filter (·.target == target)).length
  store : x.store = patchAll store ((l.pending.take n).filter (·.target == target)) (.block code)

lemma Sweep.After.look (h : x.After l store target code n) (hn : n < l.pending.length) :
    (x.look target code n).After l store target code (n + 1) := by
  have hlook : x.row[n]? = some l.pending[n] := by
    have hrest := congrArg (·[0]?) h.rest
    simpa [hn] using hrest
  have htake : l.pending.take (n + 1) = l.pending.take n ++ [l.pending[n]] := by
    rw [List.take_add_one, List.getElem?_eq_getElem hn, Option.toList_some]
  have hrest : x.row.drop (n + 1) = l.pending.drop (n + 1) := by
    rw [← List.drop_drop, ← List.drop_drop, h.rest]
  rw [Sweep.look, hlook]
  dsimp only
  split
  · rename_i htarget
    have hready : (l.pending.take (n + 1)).filter (·.target == target) =
        (l.pending.take n).filter (·.target == target) ++ [l.pending[n]] := by
      rw [htake, List.filter_append, List.filter_cons_of_pos (by simpa using htarget), List.filter_nil]
    have hothers : (l.pending.take (n + 1)).filter (·.target != target) =
        (l.pending.take n).filter (·.target != target) := by
      rw [htake, List.filter_append, List.filter_cons_of_neg (by simpa using htarget), List.filter_nil,
        List.append_nil]
    refine ⟨h.kept_le.trans (Nat.le_succ n), h.length, h.kept.trans hothers.symm, hrest, ?_, ?_, ?_⟩
    · rw [hready, List.reverse_concat, List.cons_append, ← h.linked]
    · rw [hready, List.length_append, List.length_singleton, ← h.patched]
    · rw [hready, patchAll_concat, ← h.store]
  · rename_i htarget
    have hready : (l.pending.take (n + 1)).filter (·.target == target) =
        (l.pending.take n).filter (·.target == target) := by
      rw [htake, List.filter_append, List.filter_cons_of_neg (by simpa using htarget), List.filter_nil,
        List.append_nil]
    have hothers : (l.pending.take (n + 1)).filter (·.target != target) =
        (l.pending.take n).filter (·.target != target) ++ [l.pending[n]] := by
      rw [htake, List.filter_append, List.filter_cons_of_pos (by simpa using htarget), List.filter_nil]
    have hlt : x.kept < x.row.length := h.kept_le.trans_lt (h.length ▸ hn)
    refine ⟨Nat.succ_le_succ h.kept_le, (List.length_set ..).trans h.length, ?_, ?_, hready ▸ h.linked,
      hready ▸ h.patched, hready ▸ h.store⟩
    · rw [hothers, ← h.kept, List.take_add_one, List.getElem?_set_self hlt, List.take_set_of_le (le_refl x.kept),
        Option.toList_some]
    · rw [List.drop_set_of_lt (Nat.lt_succ_of_le h.kept_le)]
      exact hrest

/-- The pass over the list links the sites that wait for the address, and keeps the others in their order. -/
lemma applyInPlace_eq (l : Linker) (store : CodeStore β) (target : UInt32) (code : β) :
    l.applyInPlace store target code = l.apply store target code := by
  have hafter : ∀ n ≤ l.pending.length, ((List.range n).foldl (Sweep.look target code)
      ⟨l.pending, 0, l.linked, 0, store⟩).After l store target code n := by
    intro n hn
    induction n with
    | zero => exact ⟨le_rfl, rfl, rfl, rfl, rfl, rfl, rfl⟩
    | succ n ih =>
      rw [List.range_succ, List.foldl_concat]
      exact (ih (Nat.le_of_succ_le hn)).look hn
  obtain ⟨-, -, hkept, -, hlinked, hpatched, hstore⟩ := hafter _ le_rfl
  rw [List.take_length] at hkept hlinked hpatched hstore
  rw [applyInPlace, apply]
  dsimp only
  rw [hkept, hlinked, hpatched, hstore]

/-! ### The books -/

/-- An operation and the link words that it finds. -/
structure Call (β : Type) where
  command : Command β
  store : CodeStore β

/-- The sites that were passed to the linker. -/
def passed (calls : List (Call β)) : List Link := calls.flatMap fun call => call.command.passed

/-- Where a site can be. -/
inductive Fate
  | pending
  | linked
  | dropped
  | forgotten
  | cleared

/-- All places. -/
def Fate.order : List Fate := [pending, linked, dropped, forgotten, cleared]

lemma Fate.mem_order (f : Fate) : f ∈ order := by
  cases f <;> simp [order]

/-- A linker and the sites that are no longer on record. -/
structure Books where
  linker : Linker
  dropped : List Link := []
  forgotten : List Link := []
  cleared : List Link := []

/-- No site is on record, and nothing has been counted. -/
structure Blank (l : Linker) : Prop where
  pending : l.pending = []
  linked : l.linked = []
  stats : l.stats = {}

lemma Blank.balanced (h : l.Blank) : l.Balanced := by
  rw [Balanced, h.pending, h.linked, h.stats]
  rfl

lemma blank_cleared (l : Linker) : l.clear.resetStats.Blank := ⟨rfl, rfl, rfl⟩

namespace Books

/-- The books of a linker with room for a number of waiting sites. -/
def ofCapacity (capacity : Nat) : Books where
  linker := empty capacity

/-- The sites in one place. -/
def links (b : Books) : Fate → List Link
  | .pending => b.linker.pending
  | .linked => b.linker.linked
  | .dropped => b.dropped
  | .forgotten => b.forgotten
  | .cleared => b.cleared

/-- The sites in all places. -/
def all (b : Books) : List Link := Fate.order.flatMap b.links

/-- Does something to the linker and enters the sites that leave. -/
def enter (b : Books) (call : Call β) : Books where
  linker := (b.linker.perform call.store call.command).1
  dropped := b.dropped ++ b.linker.drops call.store call.command
  forgotten := b.forgotten ++ b.linker.forgets call.command
  cleared := b.cleared ++ b.linker.clears call.command

/-- Does some things one after the other, each with any link words. -/
def run (b : Books) (calls : List (Call β)) : Books := calls.foldl enter b

variable {b : Books} {calls : List (Call β)}

lemma count_all (b : Books) (k : Link) :
    b.all.count k = b.linker.records.count k + b.dropped.count k + b.forgotten.count k + b.cleared.count k := by
  simp only [all, Fate.order, List.flatMap_cons, List.flatMap_nil, List.append_nil, links, records, List.count_append,
    Nat.add_assoc]

/-- The sites in all places are those that were passed. -/
lemma perm_run (b : Books) (calls : List (Call β)) : (b.run calls).all.Perm (b.all ++ passed calls) := by
  induction calls generalizing b with
  | nil => rw [run, List.foldl_nil, passed, List.flatMap_nil, List.append_nil]
  | cons call calls ih =>
    have hstep : (b.enter call).all.Perm (b.all ++ call.command.passed) := by
      rw [List.perm_iff_count]
      intro k
      have hcount := count_perform b.linker call.store call.command k
      simp only [count_all, enter, List.count_append]
      omega
    have hrest := (ih (b.enter call)).trans (hstep.append_right (passed calls))
    rwa [List.append_assoc] at hrest

lemma capacity_run (b : Books) (calls : List (Call β)) : (b.run calls).linker.capacity = b.linker.capacity := by
  induction calls generalizing b with
  | nil => rfl
  | cons call calls ih => exact (ih (b.enter call)).trans (capacity_perform ..)

lemma bounded_run (b : Books) (h : b.linker.pending.length ≤ b.linker.capacity) (calls : List (Call β)) :
    (b.run calls).linker.pending.length ≤ b.linker.capacity := by
  induction calls generalizing b with
  | nil => exact h
  | cons call calls ih =>
    have hcapacity : (b.enter call).linker.capacity = b.linker.capacity := capacity_perform ..
    have hstep := bounded_perform h call.store call.command
    exact (ih (b.enter call) (hcapacity.symm ▸ hstep)).trans_eq hcapacity

lemma balanced_run (h : b.linker.Balanced) (hkeeps : ∀ call ∈ calls, call.command.keeps = true) :
    (b.run calls).linker.Balanced := by
  induction calls generalizing b with
  | nil => exact h
  | cons call calls ih =>
    rw [List.forall_mem_cons] at hkeeps
    exact ih (h.perform call.store call.command hkeeps.1) hkeeps.2

/-- Sites that were passed once are in one place each. -/
lemma existsUnique_fate (hnodup : (b.all.map (·.site)).Nodup) {k : Link} (hk : k ∈ b.all) :
    ∃! f, k.site ∈ (b.links f).map (·.site) := by
  obtain ⟨f, -, hmem⟩ := List.mem_flatMap.mp hk
  refine ⟨f, List.mem_map_of_mem hmem, fun g hg => ?_⟩
  rw [all, List.map_flatMap, List.nodup_flatMap] at hnodup
  have hsymm : Std.Symm (Function.onFun List.Disjoint fun f => (b.links f).map (·.site)) :=
    ⟨fun _ _ hd => List.Disjoint.symm hd⟩
  by_contra hne
  exact hnodup.2.forall g.mem_order f.mem_order hne hg (List.mem_map_of_mem hmem)

/-- What is known of a linker and its books after some operations. -/
structure Accounted (capacity : Nat) (calls : List (Call β)) (b : Books) : Prop where
  perm : b.all.Perm (passed calls)
  once : ∀ k ∈ passed calls, ∃! f, k.site ∈ (b.links f).map (·.site)
  bounded : b.linker.pending.length ≤ capacity
  /-- Since the linker had no sites and had counted nothing. -/
  balanced : ∀ earlier later, calls = earlier ++ later → ((ofCapacity capacity).run earlier).linker.Blank →
    (∀ call ∈ later, call.command.keeps = true) → b.linker.Balanced
  /-- The next address to be linked takes the sites that wait for it, and leaves the others in their order. -/
  applied : ∀ (store : CodeStore β) (target : UInt32) (code : β),
    let waiting := b.linker.pending.filter (·.target == target)
    let next := b.linker.applyInPlace store target code
    next = b.linker.apply store target code ∧ next.1 = waiting.length ∧
      next.2.1.pending = b.linker.pending.filter (·.target != target) ∧
      next.2.1.linked = waiting.reverse ++ b.linker.linked ∧
      ∀ i, next.2.2.word? i =
        if i ∈ waiting.map (·.site) then (store.word? i).map fun _ => .block code else store.word? i
  /-- The next operation writes to the sites that it reports. -/
  written : ∀ (store : CodeStore β) (c : Command β), b.linker.reported store c = (b.linker.affected c).length ∧
    ∀ i, (b.linker.perform store c).2.word? i =
      if i ∈ (b.linker.affected c).map (·.site) then (store.word? i).bind fun _ => c.word else store.word? i
  /-- The next operation drops a site only if there is no room left, and counts those that it drops or forgets. -/
  lost : ∀ (store : CodeStore β) (c : Command β), (b.linker.drops store c ≠ [] →
      (b.linker.perform store c).1.pending.length = capacity) ∧
    (c.keeps = true → (b.linker.perform store c).1.stats.dropped =
        b.linker.stats.dropped + (b.linker.drops store c).length ∧
      (b.linker.perform store c).1.stats.forgotten = b.linker.stats.forgotten + (b.linker.forgets c).length)

/-- After any operations on a linker of any capacity each site is in one place, if each was passed once.  No more
sites wait than there is room for, and the counts agree with the records since both were empty. -/
theorem sites_accounted (capacity : Nat) (calls : List (Call β)) (honce : ((passed calls).map (·.site)).Nodup) :
    Accounted capacity calls ((ofCapacity capacity).run calls) := by
  have hperm := perm_run (ofCapacity capacity) calls
  have hbounded := (ofCapacity capacity).bounded_run (Nat.zero_le capacity) calls
  have hcapacity := capacity_run (ofCapacity capacity) calls
  constructor
  · exact hperm
  · intro k hk
    exact existsUnique_fate ((hperm.map _).nodup_iff.mpr honce) (hperm.mem_iff.mpr hk)
  · exact hbounded
  · rintro earlier later rfl hblank hkeeps
    rw [run, List.foldl_append]
    exact balanced_run hblank.balanced hkeeps
  · intro store target code
    rw [applyInPlace_eq]
    exact ⟨rfl, rfl, rfl, rfl, word?_patchAll store _ _⟩
  · intro store c
    exact ⟨reported_eq _ store c, word?_perform _ store c⟩
  · intro store c
    have hfull := full_of_drops (hbounded.trans_eq hcapacity.symm) store c
    exact ⟨fun hdrops => (hfull hdrops).trans hcapacity, counted_perform _ store c⟩

/-- With room for two sites: one is dropped at once and one when its link is cut, one goes with its block, one with
the code, and after that one waits and one is linked. -/
theorem sites_accounted_crowded :
    let store : CodeStore Nat := ⟨Array.replicate 6 .slowPath, 0, 6, 1, 0, {}, 0, {}⟩
    let exit (owner target : UInt32) (site : Site) : Command Nat :=
      .linkExit (Cache.blank 0 1) owner ⟨target, site⟩
    let earlier := [exit 0 8 0, exit 4 8 1, exit 0 8 2, .apply 8 7, exit 4 12 3, .unlinkWhere (· == 8), .apply 12 9,
      .forgetOwnedBy (· == 0), .clear, .resetStats].map fun c => Call.mk c store
    let later := [exit 0 8 4, exit 0 12 5, .apply 12 9].map fun c => Call.mk c store
    let b := (ofCapacity 2).run (earlier ++ later)
    ((passed (earlier ++ later)).map (·.site)).Nodup ∧ Accounted 2 (earlier ++ later) b ∧ b.linker.Balanced ∧
      Fate.order.map (fun f => (b.links f).map (·.site)) = [[4], [5], [2, 1], [0], [3]] := by
  intro store exit earlier later b
  have honce : ((passed (earlier ++ later)).map (·.site)).Nodup := by decide
  have haccounted := sites_accounted 2 (earlier ++ later) honce
  refine ⟨honce, haccounted, haccounted.balanced earlier later rfl (blank_cleared _) ?_, by decide⟩
  decide

end Books

end R3000.Linker
