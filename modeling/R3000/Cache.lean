import R3000.Block.Plan
import R3000.CodeStore

/-!
# The block cache

Blocks by the address they start at.  A slot holds a resident block; the blocks that collide with it
follow in a chain of nodes, the newest first.  All chains lie in one pool of limited size, and a node
taken out of its chain waits to be used again.
-/

namespace R3000

/-- A translated block in the cache. -/
structure Entry (β : Type) where
  pc : UInt32
  code : β
  /-- The number of words covered. -/
  sourceLen : UInt32
  /-- The cycles of the block when it runs to its end. -/
  cycles : UInt32
  idle : Idle
  deriving DecidableEq, Repr

/-- The sum of two words, at most the greatest word. -/
def saturatingAdd (a b : UInt32) : UInt32 := (min (a.toNat + b.toNat) 0xFFFFFFFF).toUInt32

namespace Entry

variable {β : Type}

/-- The bytes covered, at most the greatest word. -/
def sourceBytes (e : Entry β) : UInt32 := (min (e.sourceLen.toNat * 4) 0xFFFFFFFF).toUInt32

/-- The address after the block. -/
def endPc (e : Entry β) : UInt32 := e.pc + e.sourceBytes

/-- Whether the physical addresses covered meet those from `first` up to `last`, the latter excluded. -/
def overlaps (e : Entry β) (first last : UInt32) : Bool :=
  let start := e.pc &&& 0x1FFFFFFF
  start < last && first < saturatingAdd start e.sourceBytes

end Entry

/-- Why the cache takes no block. -/
inductive CacheError
  | tooLarge (slots pool : Nat)
  | poolExhausted (capacity : Nat)
  deriving DecidableEq, Repr

/-- The wording of the error. -/
def CacheError.message : CacheError → String
  | tooLarge slots pool =>
    "block cache allocation failed (" ++ toString slots ++ " slots, " ++ toString pool ++ " pool nodes)"
  | poolExhausted capacity =>
    "block cache overflow pool exhausted (" ++ toString capacity ++ " nodes)"

/-- What the cache has done so far. -/
structure CacheStats where
  directHits : Nat := 0
  chainHits : Nat := 0
  misses : Nat := 0
  inserts : Nat := 0
  replacements : Nat := 0
  collisions : Nat := 0
  removals : Nat := 0
  clears : Nat := 0
  deriving DecidableEq, Repr

/-- The counters by name. -/
def CacheStats.fields (s : CacheStats) : List (String × Nat) :=
  [ ("direct_hits", s.directHits),
    ("chain_hits", s.chainHits),
    ("misses", s.misses),
    ("inserts", s.inserts),
    ("replacements", s.replacements),
    ("collisions", s.collisions),
    ("removals", s.removals),
    ("clears", s.clears) ]

/-- The counters with the values of their names. -/
def CacheStats.ofFields (n : String → Nat) : CacheStats where
  directHits := n "direct_hits"
  chainHits := n "chain_hits"
  misses := n "misses"
  inserts := n "inserts"
  replacements := n "replacements"
  collisions := n "collisions"
  removals := n "removals"
  clears := n "clears"

/-- A node of the pool: a block behind a resident, and the node that follows in the chain. -/
structure Node (β : Type) where
  entry : Entry β
  next : Option Nat

/-- The slots, as many as a power of two, and the pool of nodes. -/
structure Cache (β : Type) where
  bits : Nat
  residents : Vector (Option (Entry β)) (1 <<< bits)
  /-- The first node behind each resident. -/
  heads : Vector (Option Nat) (1 <<< bits)
  nodes : Array (Node β)
  /-- The nodes that wait to be used again, the latest first. -/
  free : List Nat
  poolCapacity : Nat
  /-- The number of blocks. -/
  size : Nat
  stats : CacheStats

namespace Cache

variable {β : Type}

/-! ### Construction -/

/-- The exponent of the first power of two that is not below a number. -/
def bitsFor (slots : Nat) : Nat := if slots ≤ 1 then 0 else (slots - 1).log2 + 1

/-- Bytes of a slot. -/
def slotBytes : Nat := 32

/-- Bytes of a node of the pool. -/
def nodeBytes : Nat := 40

/-- A cache without blocks. -/
def blank (bits pool : Nat) : Cache β where
  bits
  residents := .replicate (1 <<< bits) none
  heads := .replicate (1 <<< bits) none
  nodes := #[]
  free := []
  poolCapacity := pool
  size := 0
  stats := {}

/-- A cache without blocks; the slots are rounded up to a power of two. -/
def create (slots pool : Nat) : Except CacheError (Cache β) :=
  let bits := bitsFor slots
  if 1 <<< bits * slotBytes < allocationLimit ∧ pool * nodeBytes < allocationLimit then
    .ok (blank bits pool)
  else .error (.tooLarge (1 <<< bits) pool)

/-! ### Slots -/

/-- The number of slots. -/
def slots (c : Cache β) : Nat := 1 <<< c.bits

/-- The slot of an address. -/
def slot (c : Cache β) (pc : UInt32) : Nat := (pc >>> 2).toNat % 1 <<< c.bits

/-- The resident block of a slot. -/
def resident (c : Cache β) (s : Nat) : Option (Entry β) := c.residents[s]?.join

/-- The first node behind the resident of a slot. -/
def head (c : Cache β) (s : Nat) : Option Nat := c.heads[s]?.join

/-- Changes the resident block of a slot. -/
def setResident (c : Cache β) (s : Nat) (e : Option (Entry β)) : Cache β :=
  { c with residents := c.residents.setIfInBounds s e }

/-- Changes the first node behind the resident of a slot. -/
def setHead (c : Cache β) (s : Nat) (i : Option Nat) : Cache β :=
  { c with heads := c.heads.setIfInBounds s i }

/-! ### Chains -/

/-- The nodes of a chain from one on, at most `fuel` of them. -/
def walk (nodes : Array (Node β)) : (fuel : Nat) → Option Nat → List Nat
  | 0, _ | _, none => []
  | fuel + 1, some i =>
    match nodes[i]? with
    | some n => i :: walk nodes fuel n.next
    | none => []

/-- The nodes of a slot's chain.  No chain is longer than the pool. -/
def chain (c : Cache β) (s : Nat) : List Nat := walk c.nodes c.nodes.size (c.head s)

/-- The block in a node. -/
def entryAt (c : Cache β) (i : Nat) : Option (Entry β) := c.nodes[i]?.map (·.entry)

/-- Whether the block in a node starts at an address. -/
def holds (c : Cache β) (pc : UInt32) (i : Nat) : Bool := (c.entryAt i).any (·.pc == pc)

/-- The node of an address, if its block is behind a resident. -/
def node? (c : Cache β) (pc : UInt32) : Option Nat := (c.chain (c.slot pc)).find? (c.holds pc)

/-- The number of nodes in chains. -/
def poolUsed (c : Cache β) : Nat := c.nodes.size - c.free.length

/-! ### Lookups -/

/-- The resident block of the address's slot, if it starts there. -/
def resident? (c : Cache β) (pc : UInt32) : Option (Entry β) :=
  (c.resident (c.slot pc)).filter (·.pc == pc)

/-- The block that starts at an address. -/
def get? (c : Cache β) (pc : UInt32) : Option (Entry β) :=
  (c.resident? pc).or ((c.node? pc).bind c.entryAt)

/-- A lookup that counts where the block was found. -/
def getCounted (c : Cache β) (pc : UInt32) : Option (Entry β) × Cache β :=
  match c.resident? pc, (c.node? pc).bind c.entryAt with
  | some e, _ => (some e, { c with stats.directHits := c.stats.directHits + 1 })
  | none, some e => (some e, { c with stats.chainHits := c.stats.chainHits + 1 })
  | none, none => (none, { c with stats.misses := c.stats.misses + 1 })

/-- The blocks, residents first in the order of their slots, then those behind them. -/
def toList (c : Cache β) : List (Entry β) :=
  (List.range c.slots).filterMap c.resident ++
    (List.range c.slots).flatMap fun s => (c.chain s).filterMap c.entryAt

/-! ### Changes -/

/-- Changes a node. -/
def setNode (c : Cache β) (i : Nat) (f : Node β → Node β) : Cache β :=
  { c with nodes := c.nodes.modify i f }

/-- Takes a node out of those that wait, the latest first, or a new one while the pool has room. -/
def takeNode (c : Cache β) (n : Node β) : Option (Nat × Cache β) :=
  match c.free with
  | i :: free => some (i, { c with nodes := c.nodes.setIfInBounds i n, free })
  | [] =>
    if c.nodes.size < c.poolCapacity then some (c.nodes.size, { c with nodes := c.nodes.push n })
    else none

/-- Adds a block at the front of its slot's chain. -/
def pushFront (c : Cache β) (e : Entry β) : Except CacheError (Cache β) :=
  let s := c.slot e.pc
  match c.takeNode ⟨e, c.head s⟩ with
  | some (i, c) =>
    .ok
      { c.setHead s (some i) with
        size := c.size + 1
        stats.inserts := c.stats.inserts + 1
        stats.collisions := c.stats.collisions + 1 }
  | none => .error (.poolExhausted c.poolCapacity)

/-- Notes that a block was replaced. -/
def countReplacement (c : Cache β) : Cache β :=
  { c with stats.replacements := c.stats.replacements + 1 }

/-- Adds a block, or replaces the one that starts at the same address. -/
def insert (c : Cache β) (e : Entry β) : Except CacheError (Cache β) :=
  let s := c.slot e.pc
  match c.resident s with
  | none =>
    .ok { c.setResident s (some e) with size := c.size + 1, stats.inserts := c.stats.inserts + 1 }
  | some resident =>
    if resident.pc = e.pc then .ok (c.setResident s (some e)).countReplacement
    else
      match c.node? e.pc with
      | some i => .ok (c.setNode i fun n => { n with entry := e }).countReplacement
      | none => c.pushFront e

/-- Changes what is known about the waiting of a block, and says whether there is one. -/
def setIdle (c : Cache β) (pc : UInt32) (idle : Idle) : Bool × Cache β :=
  match c.resident? pc, c.node? pc with
  | some e, _ => (true, c.setResident (c.slot pc) (some { e with idle }))
  | none, some i => (true, c.setNode i fun n => { n with entry.idle := idle })
  | none, none => (false, c)

/-- The node before one of a chain. -/
def before (i : Nat) : List Nat → Option Nat
  | j :: k :: is => if k = i then some j else before i (k :: is)
  | _ => none

/-- Lets what comes before a node in a slot's chain, another node or the slot, go on to what follows it. -/
def bypass (c : Cache β) (s i : Nat) : Cache β :=
  let next := c.nodes[i]?.bind (·.next)
  match before i (c.chain s) with
  | some j => c.setNode j fun n => { n with next }
  | none => c.setHead s next

/-- Adds a node to those that wait. -/
def release (c : Cache β) (i : Nat) : Cache β := { c with free := i :: c.free }

/-- Takes a node out of a slot's chain. -/
def unlink (c : Cache β) (s i : Nat) : Cache β := (c.bypass s i).release i

/-- Notes that a block was removed. -/
def countRemoval (c : Cache β) : Cache β :=
  { c with size := c.size - 1, stats.removals := c.stats.removals + 1 }

/-- Removes the block that starts at an address; behind a removed resident the newest moves up. -/
def erase (c : Cache β) (pc : UInt32) : Option (Entry β) × Cache β :=
  let s := c.slot pc
  match c.resident? pc, c.node? pc with
  | some e, _ =>
    match c.head s with
    | some i => (some e, ((c.setResident s (c.entryAt i)).unlink s i).countRemoval)
    | none => (some e, (c.setResident s none).countRemoval)
  | none, some i => (c.entryAt i, (c.unlink s i).countRemoval)
  | none, none => (none, c)

/-- Removes the blocks that start at the addresses, in order. -/
def eraseAll (c : Cache β) : List UInt32 → List (Entry β) × Cache β
  | [] => ([], c)
  | pc :: pcs =>
    let (e, c) := c.erase pc
    let (es, c) := c.eraseAll pcs
    (e.toList ++ es, c)

/-- Removes every block with a property, and gives back those removed. -/
def eraseWhere (c : Cache β) (p : Entry β → Bool) : List (Entry β) × Cache β :=
  c.eraseAll ((c.toList.filter p).map (·.pc))

/-- Removes every block. -/
def clear (c : Cache β) : Cache β :=
  { c with
    residents := .replicate (1 <<< c.bits) none
    heads := .replicate (1 <<< c.bits) none
    nodes := #[]
    free := []
    size := 0
    stats.clears := c.stats.clears + 1 }

/-- Forgets what was counted. -/
def resetStats (c : Cache β) : Cache β := { c with stats := {} }

end Cache

end R3000
