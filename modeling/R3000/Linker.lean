import R3000.Block.Exit
import R3000.Cache

/-!
# The linker

Every direct exit of a block is a link from its site to the block at its target.  An exit whose target is
cached is linked at once; otherwise its site waits until the target is translated.  The number of sites
that may wait is bounded, and an exit that finds no place stays on the slow path.
-/

namespace R3000

/-- A link word, the address it should reach, and the block whose code reads it. -/
structure Link where
  site : Site
  target : UInt32
  owner : UInt32
  deriving DecidableEq, Repr

/-- What became of an exit. -/
inductive LinkOutcome
  | linked
  | deferred
  | dropped
  deriving DecidableEq, Repr

/-- What the linker has done so far. -/
structure LinkerStats where
  immediate : Nat := 0
  deferred : Nat := 0
  applied : Nat := 0
  dropped : Nat := 0
  unlinked : Nat := 0
  forgotten : Nat := 0
  deriving DecidableEq, Repr

/-- The counters by name. -/
def LinkerStats.fields (s : LinkerStats) : List (String × Nat) :=
  [ ("immediate", s.immediate),
    ("deferred", s.deferred),
    ("applied", s.applied),
    ("dropped", s.dropped),
    ("unlinked", s.unlinked),
    ("forgotten", s.forgotten) ]

/-- The counters with the values of their names. -/
def LinkerStats.ofFields (n : String → Nat) : LinkerStats where
  immediate := n "immediate"
  deferred := n "deferred"
  applied := n "applied"
  dropped := n "dropped"
  unlinked := n "unlinked"
  forgotten := n "forgotten"

/-- The sites that wait, in the order in which they came, and those that are linked, the latest first. -/
structure Linker where
  pending : List Link
  linked : List Link
  capacity : Nat
  stats : LinkerStats

namespace Linker

variable {β : Type}

/-- A linker with room for a number of waiting sites. -/
def empty (capacity : Nat) : Linker where
  pending := []
  linked := []
  capacity
  stats := {}

/-- Lets a site wait if there is room. -/
def defer (l : Linker) (link : Link) : LinkOutcome × Linker :=
  if l.pending.length < l.capacity then
    (.deferred,
      { l with pending := l.pending ++ [link], stats.deferred := l.stats.deferred + 1 })
  else (.dropped, { l with stats.dropped := l.stats.dropped + 1 })

/-- Links an exit of the block at `owner` if its target is cached, otherwise lets it wait. -/
def linkExit (l : Linker) (store : CodeStore β) (cache : Cache β) (owner : UInt32) (exit : Exit) :
    LinkOutcome × Linker × CodeStore β :=
  let link : Link := ⟨exit.site, exit.target, owner⟩
  match cache.get? exit.target with
  | some e =>
    (.linked,
      { l with linked := link :: l.linked, stats.immediate := l.stats.immediate + 1 },
      store.patch exit.site (.block e.code))
  | none =>
    let (outcome, l) := l.defer link
    (outcome, l, store)

/-- Points each site at a word, in order. -/
def patchAll (store : CodeStore β) (links : List Link) (w : LinkWord β) : CodeStore β :=
  links.foldl (fun store link => store.patch link.site w) store

/-- Links every site that waits for an address to code, and counts them. -/
def apply (l : Linker) (store : CodeStore β) (target : UInt32) (code : β) :
    Nat × Linker × CodeStore β :=
  let ready := l.pending.filter (·.target == target)
  (ready.length,
    { l with
      pending := l.pending.filter (·.target != target)
      linked := ready.reverse ++ l.linked
      stats.applied := l.stats.applied + ready.length },
    patchAll store ready (.block code))

/-- Sends every linked site whose target has a property back to the slow path, where it waits if there is
room, and counts them. -/
def unlinkWhere (l : Linker) (store : CodeStore β) (p : UInt32 → Bool) : Nat × Linker × CodeStore β :=
  let broken := (l.linked.filter fun link => p link.target).reverse
  let kept := { l with
    linked := l.linked.filter fun link => !p link.target
    stats.unlinked := l.stats.unlinked + broken.length }
  (broken.length,
    broken.foldl (fun l link => (l.defer link).2) kept,
    patchAll store broken .slowPath)

/-- Forgets every site whose block has a property, and counts them. -/
def forgetOwnedBy (l : Linker) (p : UInt32 → Bool) : Nat × Linker :=
  let keep (link : Link) := !p link.owner
  let gone := l.pending.countP (fun link => p link.owner) + l.linked.countP fun link => p link.owner
  (gone,
    { l with
      pending := l.pending.filter keep
      linked := l.linked.filter keep
      stats.forgotten := l.stats.forgotten + gone })

/-- Forgets every site. -/
def clear (l : Linker) : Linker := { l with pending := [], linked := [] }

/-- Forgets what was counted. -/
def resetStats (l : Linker) : Linker := { l with stats := {} }

end Linker

end R3000
