import R3000.Settings
import R3000.Source

/-!
# The code store

Translated code takes bytes of a limited space and reaches its direct exits through link words.  The store hands
out bytes and link words one by one and takes them back all at once; a reset starts a new generation.  A word
either points at the stub that goes back to the dispatcher or at the code of a block.  Code is a value of a type
`β` here.
-/

namespace R3000

/-- Where a link word points. -/
inductive LinkWord (β : Type)
  /-- To the stub that returns to the dispatcher. -/
  | slowPath
  | block (code : β)
  deriving DecidableEq, Repr

/-- What the store has done so far. -/
structure StoreStats where
  functionsDefined : Nat := 0
  bytesEmitted : Nat := 0
  linksAllocated : Nat := 0
  /-- Words rewritten and blocks published, after each of which fetched code is refreshed. -/
  refreshes : Nat := 0
  resets : Nat := 0
  deriving DecidableEq, Repr

/-- The counters by name, save the bytes, which depend on the host. -/
def StoreStats.fields (s : StoreStats) : List (String × Nat) :=
  [ ("functions_defined", s.functionsDefined),
    ("links_allocated", s.linksAllocated),
    ("icache_invalidations", s.refreshes),
    ("resets", s.resets) ]

/-- The counters with the values of their names. -/
def StoreStats.ofFields (n : String → Nat) : StoreStats where
  functionsDefined := n "functions_defined"
  bytesEmitted := n "bytes_emitted"
  linksAllocated := n "links_allocated"
  refreshes := n "icache_invalidations"
  resets := n "resets"

/-- The link words and the space for code of one generation. -/
structure CodeStore (β : Type) where
  words : Array (LinkWord β)
  /-- Bytes of code in use. -/
  used : Nat
  linkCapacity : Nat
  codeCapacity : Nat
  flushMargin : Nat
  native : CodeBytes
  generation : Nat
  stats : StoreStats

/-- The bytes that one allocation may take. -/
def allocationLimit : Nat := 0x8000000000000000

namespace CodeStore

variable {β : Type}

/-- Bytes of a link word. -/
def linkWordBytes : Nat := 8

/-- A store of the given sizes, without stubs. -/
def create (limits : Limits) : Except StoreError (CodeStore β) :=
  if limits.linkCapacity * linkWordBytes < allocationLimit then
    .ok
      { words := #[]
        used := 0
        linkCapacity := limits.linkCapacity
        codeCapacity := limits.codeCapacity
        flushMargin := limits.flushMargin
        native := limits.native
        generation := 0
        stats := {} }
  else .error (.linkTableTooLarge limits.linkCapacity)

/-- Takes space for the code of a function. -/
def define (s : CodeStore β) (bytes : Nat) : Except StoreError (CodeStore β) :=
  if s.used + bytes ≤ s.codeCapacity then
    .ok
      { s with
        used := s.used + bytes
        stats.functionsDefined := s.stats.functionsDefined + 1
        stats.bytesEmitted := s.stats.bytesEmitted + bytes }
  else .error (@StoreError.codeExhausted s.used s.codeCapacity bytes)

/-- Defines the stubs of a generation: back to the dispatcher, out of a block, and to a service. -/
def emitStubs (s : CodeStore β) : Except StoreError (CodeStore β) := do
  let s ← s.define s.native.slowPath
  let s ← s.define s.native.exit
  s.define s.native.bridge

/-- Whether to flush before the next translation: less space for code is left than the margin, or no link word. -/
def needsFlush (s : CodeStore β) : Bool :=
  s.codeCapacity - s.used < s.flushMargin || s.linkCapacity ≤ s.words.size

/-- The word of a site, if the site was handed out in this generation. -/
def word? (s : CodeStore β) (site : Nat) : Option (LinkWord β) := s.words[site]?

/-- Hands out the next link word, pointing at the stub. -/
def allocLink (s : CodeStore β) : Except StoreError (Nat × CodeStore β) :=
  if s.words.size < s.linkCapacity then
    .ok (s.words.size,
      { s with
        words := s.words.push .slowPath
        stats.linksAllocated := s.stats.linksAllocated + 1 })
  else .error (.linksExhausted s.linkCapacity)

/-- Notes that fetched code was refreshed. -/
def refresh (s : CodeStore β) : CodeStore β :=
  { s with stats.refreshes := s.stats.refreshes + 1 }

/-- Points the word of a site somewhere else. -/
def patch (s : CodeStore β) (site : Nat) (w : LinkWord β) : CodeStore β :=
  ({ s with words := s.words.setIfInBounds site w }).refresh

/-- Takes back all link words and all code. -/
def reset (s : CodeStore β) : CodeStore β :=
  { s with
    words := #[]
    used := 0
    generation := s.generation + 1
    stats.resets := s.stats.resets + 1 }

end CodeStore

end R3000
