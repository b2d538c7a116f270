import R3000.Block.Exit
import R3000.Cache

/-!
# Translators

A translator makes code for the block at an address, taking link words for its direct exits and space for the
code out of the code store.  `Translator.standard` plans the block from instruction words and keeps the plan as
the code.
-/

namespace R3000

/-- Code for a block. -/
structure Translation (β : Type) where
  code : β
  sourceLen : UInt32
  cycles : UInt32
  idle : Idle
  exits : List Exit

/-- The cache entry of a translation at an address. -/
def Translation.entry {β : Type} (t : Translation β) (pc : UInt32) : Entry β where
  pc
  code := t.code
  sourceLen := t.sourceLen
  cycles := t.cycles
  idle := t.idle

/-- What a translator has done so far. -/
structure TranslatorStats where
  blocks : Nat := 0
  instructions : Nat := 0
  idleBlocks : Nat := 0
  deriving DecidableEq, Repr

/-- The counters by name. -/
def TranslatorStats.fields (s : TranslatorStats) : List (String × Nat) :=
  [ ("blocks", s.blocks),
    ("instructions", s.instructions),
    ("idle_blocks", s.idleBlocks) ]

/-- The counters with the values of their names. -/
def TranslatorStats.ofFields (n : String → Nat) : TranslatorStats where
  blocks := n "blocks"
  instructions := n "instructions"
  idleBlocks := n "idle_blocks"

/-- What a translator leaves behind: its state and the store, and a translation if it succeeded. -/
structure Translated (τ β : Type) where
  result : Except TranslateError (Translation β)
  state : τ
  store : CodeStore β

/-- A translator with state `τ` that makes code of type `β`. -/
structure Translator (τ β : Type) where
  /-- Makes code for the block at an address, of at most the given number of instructions. -/
  translate : Source → (pc cap : UInt32) → τ → CodeStore β → Translated τ β
  stats : τ → TranslatorStats
  resetStats : τ → τ

namespace Translator

/-- Takes a link word for each target, in order; words taken before a failure stay taken. -/
def allocExits {β : Type} : List UInt32 → CodeStore β → Except StoreError (List Exit) × CodeStore β
  | [], store => (.ok [], store)
  | target :: targets, store =>
    match store.allocLink with
    | .error e => (.error e, store)
    | .ok (site, store) =>
      match allocExits targets store with
      | (.ok exits, store) => (.ok (⟨target, site⟩ :: exits), store)
      | (.error e, store) => (.error e, store)

/-- The statistics after one more block. -/
def count (stats : TranslatorStats) (p : Plan) : TranslatorStats where
  blocks := stats.blocks + 1
  instructions := stats.instructions + p.length
  idleBlocks := stats.idleBlocks + if p.idle.isIdle then 1 else 0

/-- Physical addresses of the function vectors of the boot ROM, which the dispatcher wants to see
entered. -/
def functionVectors : List UInt32 := [0xA0, 0xB0, 0xC0]

/-- The translator that plans blocks.  `fallback` says whether reserved words may stand in a block, and
`unlinked` names the physical addresses to which no exit is linked. -/
def standard (fallback : Bool) (unlinked : List UInt32) : Translator TranslatorStats Block where
  translate source pc cap stats store :=
    match Plan.ofSource source fallback pc cap with
    | .error e => ⟨.error e, stats, store⟩
    | .ok plan =>
      match allocExits (plan.directTargets unlinked) store with
      | (.error e, store) => ⟨.error (.store e), stats, store⟩
      | (.ok exits, store) =>
        let code : Block := ⟨plan, exits⟩
        match store.define (store.native.block code) with
        | .error e => ⟨.error (.store e), stats, store⟩
        | .ok store =>
          ⟨.ok { code, sourceLen := plan.sourceLen, cycles := plan.cycles, idle := plan.idle, exits },
            count stats plan, store⟩
  stats s := s
  resetStats _ := {}

end Translator

end R3000
