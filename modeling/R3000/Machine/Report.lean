import R3000.Machine.Basic

/-!
# Reports

All counters of a machine at one moment, and the line of `key=value` pairs that shows them.
-/

namespace R3000

/-- All counters of a machine. -/
structure Report where
  cycles : Nat := 0
  dispatch : DispatchStats := {}
  recompiler : RecompilerStats := {}
  translator : TranslatorStats := {}
  cache : CacheStats := {}
  linker : LinkerStats := {}
  store : StoreStats := {}
  /-- Blocks in the cache. -/
  cacheSize : Nat := 0
  /-- Bytes of code in use. -/
  codeUsed : Nat := 0

namespace Report

/-- The report with the values of the counters' names; the blocks translated go by a name of their own. -/
def ofFields (n : String → Nat) : Report where
  cycles := n "cycles"
  dispatch := .ofFields n
  recompiler := .ofFields n
  translator := { TranslatorStats.ofFields n with blocks := n "translator_blocks" }
  cache := .ofFields n
  linker := .ofFields n
  store := .ofFields n
  cacheSize := n "cache_len"
  codeUsed := n "arena_used"

/-- The counters that the line shows, in its order. -/
def fields (r : Report) : List (String × Nat) :=
  [ ("cycles", r.cycles),
    ("frames", r.dispatch.frames),
    ("blocks", r.dispatch.blocksExecuted),
    ("fast_hits", r.dispatch.fastHits),
    ("cache_hits", r.recompiler.cacheHits),
    ("compiled", r.recompiler.blocksCompiled),
    ("compile_failures", r.recompiler.compileFailures),
    ("flushes", r.recompiler.flushes),
    ("invalidated", r.recompiler.invalidatedBlocks),
    ("translated_insns", r.translator.instructions),
    ("idle_blocks", r.translator.idleBlocks),
    ("cache_len", r.cacheSize),
    ("direct_hits", r.cache.directHits),
    ("chain_hits", r.cache.chainHits),
    ("collisions", r.cache.collisions),
    ("links_immediate", r.linker.immediate),
    ("links_deferred", r.linker.deferred),
    ("links_applied", r.linker.applied),
    ("links_dropped", r.linker.dropped),
    ("links_forgotten", r.linker.forgotten),
    ("arena_used", r.codeUsed),
    ("arena_bytes", r.store.bytesEmitted),
    ("min_charges", r.dispatch.minCharges),
    ("aborts", r.dispatch.aborts),
    ("bus_errors", r.dispatch.busErrors),
    ("address_errors", r.dispatch.addressErrors),
    ("interrupts", r.dispatch.interrupts),
    ("interrupts_ignored", r.dispatch.interruptsIgnored),
    ("idle_skips", r.dispatch.idleSkips),
    ("idle_cycles", r.dispatch.idleCyclesSkipped),
    ("events", r.dispatch.eventsDispatched),
    ("bios_intercepts", r.dispatch.biosIntercepts),
    ("smc_pages", r.dispatch.smcPages) ]

/-- The counters on one line. -/
def line (r : Report) : String := " ".intercalate (r.fields.map fun (key, n) => s!"{key}={n}")

end Report

/-- The counters of a machine. -/
def Machine.report {τ β δ : Type} (P : Parts τ β δ) (m : Machine τ β δ) : Report where
  cycles := m.cycles.toNat
  dispatch := m.stats
  recompiler := m.recompiler.stats
  translator := P.translator.stats m.recompiler.translator
  cache := m.recompiler.cache.stats
  linker := m.recompiler.linker.stats
  store := m.recompiler.store.stats
  cacheSize := m.recompiler.cache.size
  codeUsed := m.recompiler.store.used

end R3000
