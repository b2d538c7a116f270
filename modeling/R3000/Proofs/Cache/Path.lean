import Mathlib
import R3000.Cache

/-!
# Chains of nodes

A chain is given by the nodes that following `next` visits before it ends.  A path is finite by
construction, and since each node has one successor it never visits a node twice; so the walk of a chain
with as much fuel as there are nodes sees all of it.
-/

namespace R3000.Cache

variable {β : Type} {nodes nodes' : Array (Node β)} {o : Option Nat} {is js : List Nat} {i j : Nat}

/-- Following the nodes from `o` on visits a list of nodes and ends. -/
inductive Path (nodes : Array (Node β)) : Option Nat → List Nat → Prop
  | nil : Path nodes none []
  | cons {i : Nat} {is : List Nat} {n : Node β} (node : nodes[i]? = some n)
      (tail : Path nodes n.next is) : Path nodes (some i) (i :: is)

namespace Path

/-! ### Shape -/

lemma eq_nil (h : Path nodes none is) : is = [] := by
  cases h
  rfl

lemma eq_cons (h : Path nodes (some i) is) :
    ∃ n tl, is = i :: tl ∧ nodes[i]? = some n ∧ Path nodes n.next tl := by
  cases h with
  | cons node tail => exact ⟨_, _, rfl, node, tail⟩

lemma head_eq (h : Path nodes o (i :: is)) : o = some i := by
  cases h
  rfl

/-- Where a chain starts determines the nodes that it visits. -/
lemma unique (h : Path nodes o is) (h' : Path nodes o js) : is = js := by
  induction h generalizing js with
  | nil => exact h'.eq_nil.symm
  | cons node tail ih =>
    obtain ⟨n, tl, rfl, node', tail'⟩ := h'.eq_cons
    obtain rfl : _ = n := Option.some.inj (node.symm.trans node')
    rw [ih tail']

lemma lt_size (h : Path nodes o is) (hi : i ∈ is) : i < nodes.size := by
  induction h with
  | nil => simp at hi
  | cons node tail ih =>
    rcases List.mem_cons.mp hi with rfl | hi
    · exact (Array.getElem?_eq_some_iff.mp node).1
    · exact ih hi

/-- A chain from a node in the middle of a chain is the rest of it. -/
lemma suffix (h : Path nodes o (is ++ i :: js)) : Path nodes (some i) (i :: js) := by
  induction is generalizing o with
  | nil =>
    obtain rfl := h.head_eq
    exact h
  | cons k is ih =>
    cases h with
    | cons node tail => exact ih tail

/-- No node comes twice: the chain from its second place would be as long as the one from its first. -/
lemma nodup (h : Path nodes o is) : is.Nodup := by
  induction h with
  | nil => exact List.nodup_nil
  | @cons i is n node tail ih =>
    refine List.nodup_cons.mpr ⟨fun hi => ?_, ih⟩
    obtain ⟨before, after, rfl⟩ := List.append_of_mem hi
    have hwhole : Path nodes (some i) (i :: (before ++ i :: after)) := .cons node tail
    have heq := hwhole.unique tail.suffix
    have hlen := congrArg List.length heq
    simp only [List.length_cons, List.length_append] at hlen
    omega

lemma length_le (h : Path nodes o is) : is.length ≤ nodes.size := by
  have hsub : is ⊆ List.range nodes.size := fun i hi => List.mem_range.mpr (h.lt_size hi)
  simpa using (h.nodup.subperm hsub).length_le

/-- A walk with enough fuel visits the whole chain. -/
lemma walk_eq (h : Path nodes o is) {fuel : Nat} (hfuel : is.length ≤ fuel) :
    walk nodes fuel o = is := by
  induction h generalizing fuel with
  | nil => cases fuel <;> rfl
  | cons node tail ih =>
    cases fuel with
    | zero => simp at hfuel
    | succ fuel =>
      simp only [walk, node]
      rw [ih (by simpa using hfuel)]

/-! ### Changes to the nodes -/

/-- A chain survives every change that leaves the successors of its own nodes alone. -/
lemma congr (h : Path nodes o is)
    (heq : ∀ i ∈ is, (nodes'[i]?).map (·.next) = (nodes[i]?).map (·.next)) : Path nodes' o is := by
  induction h with
  | nil => exact .nil
  | @cons i is n node tail ih =>
    have hi := heq i List.mem_cons_self
    rw [node, Option.map_some, Option.map_eq_some_iff] at hi
    obtain ⟨n', node', hnext⟩ := hi
    refine .cons node' ?_
    rw [hnext]
    exact ih fun j hj => heq j (List.mem_cons_of_mem _ hj)

/-- Once the node before `i` goes on to what follows `i`, the chain visits the same nodes without `i`. -/
lemma skip {pre post : List Nat} {k : Nat} {n : Node β} (h : Path nodes o (pre ++ k :: i :: post))
    (hi : nodes[i]? = some n) (hk : (nodes'[k]?).map (·.next) = some n.next)
    (hpre : ∀ j ∈ pre, (nodes'[j]?).map (·.next) = (nodes[j]?).map (·.next))
    (hpost : ∀ j ∈ post, (nodes'[j]?).map (·.next) = (nodes[j]?).map (·.next)) :
    Path nodes' o (pre ++ k :: post) := by
  induction pre generalizing o with
  | nil =>
    obtain rfl := h.head_eq
    obtain ⟨n', node', hnext⟩ := Option.map_eq_some_iff.mp hk
    have hsuffix : Path nodes (some i) (i :: post) :=
      suffix (show Path nodes (some k) ([k] ++ i :: post) from h)
    obtain ⟨m, tl, htl, node, tail⟩ := hsuffix.eq_cons
    obtain ⟨rfl, rfl⟩ : _ = n ∧ post = tl :=
      ⟨Option.some.inj (node.symm.trans hi), (List.cons.inj htl).2⟩
    refine .cons node' ?_
    rw [hnext]
    exact tail.congr hpost
  | cons j pre ih =>
    obtain ⟨m, tl, htl, node, tail⟩ := (h.head_eq ▸ h).eq_cons
    obtain rfl : pre ++ k :: i :: post = tl := (List.cons.inj htl).2
    obtain rfl := h.head_eq
    obtain ⟨n', node', hnext⟩ := Option.map_eq_some_iff.mp
      ((hpre j List.mem_cons_self).trans (congrArg (Option.map (·.next)) node))
    refine .cons node' ?_
    rw [hnext]
    exact ih tail fun j hj => hpre j (List.mem_cons_of_mem _ hj)

end Path

/-! ### The node before a node -/

lemma before_eq_none (h : i ∉ is) : before i (j :: is) = none := by
  induction is generalizing j with
  | nil => rfl
  | cons k is ih =>
    rw [List.mem_cons, not_or] at h
    rw [before, if_neg (Ne.symm h.1)]
    exact ih h.2

/-- A node of a chain is its first, or there is a node before it. -/
lemma before_cases (hnodup : is.Nodup) (hi : i ∈ is) :
    (∃ tl, is = i :: tl ∧ before i is = none) ∨
      ∃ pre k post, is = pre ++ k :: i :: post ∧ before i is = some k := by
  induction is with
  | nil => simp at hi
  | cons j is ih =>
    obtain ⟨hj, hnd⟩ := List.nodup_cons.mp hnodup
    rcases List.mem_cons.mp hi with rfl | hi
    · exact .inl ⟨is, rfl, before_eq_none hj⟩
    · right
      rcases ih hnd hi with ⟨tl, rfl, -⟩ | ⟨pre, k, post, rfl, hk⟩
      · exact ⟨[], j, tl, rfl, by simp [before]⟩
      · refine ⟨j :: pre, k, post, rfl, ?_⟩
        cases pre with
        | nil =>
          have hki : k ≠ i := by
            rintro rfl
            simp at hnd
          rw [List.nil_append, before, if_neg hki]
          exact hk
        | cons l pre =>
          have hli : l ≠ i := by
            rintro rfl
            simp at hnd
          rw [List.cons_append, before, if_neg hli]
          exact hk

end R3000.Cache
