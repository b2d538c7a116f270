import R3000.Linker
import R3000.Translator

/-!
# The recompiler

The recompiler finds the block for an address or has it translated, publishes it in the cache and links
it with the blocks around it.  When a store runs full everything is flushed and the translation tried
once more.
-/

namespace R3000

/-- Why there is no block, and never will be. -/
inductive RecompileError
  | store (e : StoreError)
  | cache (e : CacheError)
  /-- The translation at an address failed even with empty stores. -/
  | translate (pc : UInt32) (e : TranslateError)
  deriving DecidableEq, Repr

/-- The wording of the error. -/
def RecompileError.message : RecompileError → String
  | store e => e.message
  | cache e => e.message
  | translate pc e =>
    "block at 0x" ++ Text.padded pc ++ " still failed after a full flush: " ++ e.message

/-- How the block for an address was found. -/
inductive Resolved (β : Type)
  | hit (e : Entry β)
  | compiled (e : Entry β)
  /-- The words at the address make no block. -/
  | failed (e : TranslateError)
  deriving DecidableEq, Repr

/-- What the recompiler has done so far. -/
structure RecompilerStats where
  cacheHits : Nat := 0
  blocksCompiled : Nat := 0
  compileFailures : Nat := 0
  flushes : Nat := 0
  invalidatedBlocks : Nat := 0
  deriving DecidableEq, Repr

/-- The counters by name. -/
def RecompilerStats.fields (s : RecompilerStats) : List (String × Nat) :=
  [ ("cache_hits", s.cacheHits),
    ("blocks_compiled", s.blocksCompiled),
    ("compile_failures", s.compileFailures),
    ("flushes", s.flushes),
    ("invalidated_blocks", s.invalidatedBlocks) ]

/-- The counters with the values of their names. -/
def RecompilerStats.ofFields (n : String → Nat) : RecompilerStats where
  cacheHits := n "cache_hits"
  blocksCompiled := n "blocks_compiled"
  compileFailures := n "compile_failures"
  flushes := n "flushes"
  invalidatedBlocks := n "invalidated_blocks"

/-- The translator's state, the stores, and the links between blocks. -/
structure Recompiler (τ β : Type) where
  translator : τ
  maxBlock : UInt32
  store : CodeStore β
  cache : Cache β
  linker : Linker
  stats : RecompilerStats

namespace Recompiler

variable {τ β : Type}

/-- A recompiler without blocks.  The link words are set aside first, then the stubs, then the cache. -/
def create (translator : τ) (limits : Limits) : Except RecompileError (Recompiler τ β) := do
  let store ← (CodeStore.create limits).mapError .store
  let store ← store.emitStubs.mapError .store
  let cache ← (Cache.create limits.cacheSlots limits.poolNodes).mapError .cache
  return {
    translator
    maxBlock := limits.maxBlock
    store
    cache
    linker := .empty limits.patchSites
    stats := {} }

/-- Drops every block, every site and all code. -/
def flush (r : Recompiler τ β) : Except RecompileError (Recompiler τ β) := do
  let store ← r.store.reset.emitStubs.mapError .store
  return {
    r with
    store
    cache := r.cache.clear
    linker := r.linker.clear
    stats.flushes := r.stats.flushes + 1 }

/-- Links the exits of the block at `owner`, in order. -/
def linkExits (cache : Cache β) (owner : UInt32) :
    List Exit → Linker × CodeStore β → Linker × CodeStore β
  | [], s => s
  | exit :: exits, (linker, store) =>
    linkExits cache owner exits (linker.linkExit store cache owner exit).2

/-- Why a block was not published. -/
inductive PublishError
  | translate (e : TranslateError)
  | cache (e : CacheError)

/-- Translates the block at an address, puts it into the cache and links it both ways. -/
def publish (T : Translator τ β) (source : Source) (pc : UInt32) (r : Recompiler τ β) :
    Except PublishError (Entry β) × Recompiler τ β :=
  let t := T.translate source pc (max r.maxBlock 1) r.translator r.store
  let r := { r with translator := t.state, store := t.store }
  match t.result with
  | .error e => (.error (.translate e), r)
  | .ok translation =>
    let entry := translation.entry pc
    match r.cache.insert entry with
    | .error e => (.error (.cache e), r)
    | .ok cache =>
      let (linker, store) := linkExits cache pc translation.exits (r.linker, r.store)
      let (_, linker, store) := linker.apply store pc entry.code
      (.ok entry,
        { r with
          cache
          linker
          store := store.refresh
          stats.blocksCompiled := r.stats.blocksCompiled + 1 })

/-- The recompiler after a block that the program's words do not make. -/
def countFailure (r : Recompiler τ β) : Recompiler τ β :=
  { r with stats.compileFailures := r.stats.compileFailures + 1 }

/-- What a flush leaves: an error, or a recompiler to go on with. -/
def flushThen {α : Type} (r : Recompiler τ β)
    (go : Recompiler τ β → Except RecompileError α × Recompiler τ β) :
    Except RecompileError α × Recompiler τ β :=
  match r.flush with
  | .error e => (.error e, r)
  | .ok r => go r

/-- Publishes into stores just flushed. -/
def publishLast (T : Translator τ β) (source : Source) (pc : UInt32) (r : Recompiler τ β) :
    Except RecompileError (Resolved β) × Recompiler τ β :=
  match r.publish T source pc with
  | (.ok e, r) => (.ok (.compiled e), r)
  | (.error (.cache e), r) => (.error (.cache e), r)
  | (.error (.translate e), r) =>
    if e.isGuestFault then (.ok (.failed e), r.countFailure) else (.error (.translate pc e), r)

/-- Publishes, and once more after a flush if a store ran full. -/
def publishOrFlush (T : Translator τ β) (source : Source) (pc : UInt32) (r : Recompiler τ β) :
    Except RecompileError (Resolved β) × Recompiler τ β :=
  match r.publish T source pc with
  | (.ok e, r) => (.ok (.compiled e), r)
  | (.error (.cache _), r) => r.flushThen (publishLast T source pc)
  | (.error (.translate e), r) =>
    if e.isGuestFault then (.ok (.failed e), r.countFailure)
    else r.flushThen (publishLast T source pc)

/-- Finds the block for an address or makes it. -/
def resolve (T : Translator τ β) (source : Source) (pc : UInt32) (r : Recompiler τ β) :
    Except RecompileError (Resolved β) × Recompiler τ β :=
  match r.cache.getCounted pc with
  | (some e, cache) =>
    (.ok (.hit e), { r with cache, stats.cacheHits := r.stats.cacheHits + 1 })
  | (none, cache) =>
    let r := { r with cache }
    if r.store.needsFlush then r.flushThen (publishOrFlush T source pc)
    else r.publishOrFlush T source pc

/-- Removes the blocks that cover a physical range, forgets the sites they own, and sends every link to
them back to the slow path; gives their number. -/
def invalidate (r : Recompiler τ β) (start len : UInt32) : Nat × Recompiler τ β :=
  if len = 0 then (0, r)
  else
    let last := saturatingAdd start len
    match r.cache.eraseWhere (·.overlaps start last) with
    | ([], cache) => (0, { r with cache })
    | (removed, cache) =>
      let gone := removed.map (·.pc)
      let (_, linker) := r.linker.forgetOwnedBy gone.contains
      let (_, linker, store) := linker.unlinkWhere r.store gone.contains
      (removed.length,
        { r with
          cache
          linker
          store
          stats.invalidatedBlocks := r.stats.invalidatedBlocks + removed.length })

/-- Changes what is known about the waiting of a block, and says whether there is one. -/
def refineIdle (r : Recompiler τ β) (pc : UInt32) (idle : Idle) : Bool × Recompiler τ β :=
  let (found, cache) := r.cache.setIdle pc idle
  (found, { r with cache })

/-- Forgets what was counted, save for the code store. -/
def resetStats (T : Translator τ β) (r : Recompiler τ β) : Recompiler τ β :=
  { r with
    translator := T.resetStats r.translator
    cache := r.cache.resetStats
    linker := r.linker.resetStats
    stats := {} }

end Recompiler

end R3000
