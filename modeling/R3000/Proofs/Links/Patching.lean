import Mathlib
import R3000.Proofs.Cache.Contents
import R3000.Recompiler

/-!
# Patching and waiting

What a row of patches does to each link word, and which sites of a row find room to wait.
-/

namespace R3000

variable {β : Type}

namespace CodeStore

variable {s : CodeStore β} {w : LinkWord β} {site i : Site}

lemma word?_patch (s : CodeStore β) (site i : Site) (w : LinkWord β) :
    (s.patch site w).word? i = if site = i then (s.word? i).map fun _ => w else s.word? i := by
  change (s.words.setIfInBounds site w)[i]? = _
  rw [Array.getElem?_setIfInBounds]
  by_cases h : site = i
  · subst h
    rw [if_pos rfl, if_pos rfl, word?]
    by_cases hlt : site < s.words.size
    · rw [if_pos hlt, Array.getElem?_eq_getElem hlt, Option.map_some]
    · rw [if_neg hlt, Array.getElem?_eq_none (not_lt.mp hlt), Option.map_none]
  · rw [if_neg h, if_neg h, word?]

lemma word?_patch_of_ne (h : site ≠ i) : (s.patch site w).word? i = s.word? i := by
  rw [word?_patch, if_neg h]

lemma word?_patch_self {w' : LinkWord β} (h : s.word? site = some w') :
    (s.patch site w).word? site = some w := by
  rw [word?_patch, if_pos rfl, h, Option.map_some]

lemma lt_size_of_word? (h : s.word? i = some w) : i < s.words.size :=
  (Array.getElem?_eq_some_iff.mp h).1

variable {s' : CodeStore β} {k : Nat}

/-- Taking new words leaves the old ones. -/
lemma word?_of_old (hwords : s'.words = s.words ++ Array.replicate k .slowPath) (h : s.word? i = some w) :
    s'.word? i = some w := by
  rw [word?, hwords, Array.getElem?_append_left (lt_size_of_word? h)]
  exact h

/-- New words point at the stub. -/
lemma word?_of_new (hwords : s'.words = s.words ++ Array.replicate k .slowPath) (hle : s.words.size ≤ i)
    (hlt : i < s'.words.size) : s'.word? i = some .slowPath := by
  rw [hwords, Array.size_append, Array.size_replicate] at hlt
  rw [word?, hwords, Array.getElem?_append_right hle, Array.getElem?_replicate,
    if_pos (Nat.sub_lt_left_of_lt_add hle hlt)]

end CodeStore

namespace Linker

variable {store : CodeStore β} {w : LinkWord β} {i : Site} {l : Linker}

/-- The sites on record, those that wait first. -/
def records (l : Linker) : List Link := l.pending ++ l.linked

/-- The link words on record. -/
def sites (l : Linker) : List Site := l.records.map (·.site)

lemma patchAll_cons (store : CodeStore β) (link : Link) (links : List Link) (w : LinkWord β) :
    patchAll store (link :: links) w = patchAll (store.patch link.site w) links w := rfl

lemma patchAll_concat (store : CodeStore β) (links : List Link) (link : Link) (w : LinkWord β) :
    patchAll store (links ++ [link]) w = (patchAll store links w).patch link.site w :=
  List.foldl_concat ..

/-- The sites of a row are rewritten, and no others. -/
lemma word?_patchAll (store : CodeStore β) (links : List Link) (w : LinkWord β) (i : Site) :
    (patchAll store links w).word? i =
      if i ∈ links.map (·.site) then (store.word? i).map fun _ => w else store.word? i := by
  induction links generalizing store with
  | nil => rfl
  | cons link links ih =>
    rw [patchAll_cons, ih, CodeStore.word?_patch]
    by_cases hlink : link.site = i
    · simp [hlink, Option.map_map, Function.comp_def]
    · simp [hlink, Ne.symm hlink]

lemma word?_patchAll_of_not_mem {links : List Link} (h : i ∉ links.map (·.site)) :
    (patchAll store links w).word? i = store.word? i := by
  rw [word?_patchAll, if_neg h]

lemma word?_patchAll_of_mem {links : List Link} {w' : LinkWord β} (h : i ∈ links.map (·.site))
    (hi : store.word? i = some w') : (patchAll store links w).word? i = some w := by
  rw [word?_patchAll, if_pos h, hi, Option.map_some]

/-- Of a row of sites the first wait, as many as there is room for, and the others are dropped. -/
lemma foldl_defer (l : Linker) (links : List Link) :
    links.foldl (fun l link => (l.defer link).2) l =
      { l with
        pending := l.pending ++ links.take (l.capacity - l.pending.length)
        stats.deferred := l.stats.deferred + min links.length (l.capacity - l.pending.length)
        stats.dropped := l.stats.dropped + (links.length - (l.capacity - l.pending.length)) } := by
  induction links generalizing l with
  | nil => simp
  | cons link links ih =>
    rw [List.foldl_cons, ih, defer]
    split
    · rename_i hroom
      obtain ⟨n, hn⟩ : ∃ n, l.capacity - l.pending.length = n + 1 :=
        ⟨l.capacity - l.pending.length - 1, by omega⟩
      have hn' : l.capacity - (l.pending ++ [link]).length = n := by
        rw [List.length_append, List.length_singleton]
        omega
      simp only [hn', hn, List.take_succ_cons, List.append_assoc, List.singleton_append,
        List.length_cons]
      congr 2 <;> omega
    · rename_i hfull
      have hn : l.capacity - l.pending.length = 0 := by omega
      simp only [hn, List.take_zero, List.length_cons]
      congr 2 <;> omega

end Linker

end R3000
