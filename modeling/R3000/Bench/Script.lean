import R3000.Block.Chain
import R3000.Hardware
import R3000.Translator
import Std.Data.HashMap

/-!
# Scripted blocks

A stand-in for the translator: what it makes of an address, and how the block runs, stands in a row of a
table.  The code of such a block is a number if the row gives one; all other blocks share one code.
-/

namespace R3000

/-- What happens at an address. -/
structure Row where
  /-- The error of the translation, given the address and its first word. -/
  error : UInt32 → UInt32 → Option TranslateError := fun _ _ => none
  exits : List UInt32 := []
  length : UInt32 := 1
  cycles : UInt32 := 4
  idle : Idle := .none
  code : Option Nat := none
  /-- What running the block does to the processor. -/
  patch : Cpu → Cpu := id
  /-- The cycles that running the block spends. -/
  spend : Int32 := 4

/-- The table, and what the translator has done so far. -/
structure Script where
  rows : Std.HashMap UInt32 Row := {}
  stats : TranslatorStats := {}
  /-- Every site ever taken, the latest first. -/
  sites : List Site := []

namespace Script

/-- The row of an address. -/
def row (s : Script) (pc : UInt32) : Row := (s.rows[pc]?).getD {}

/-- Adds a row, in place of an earlier one. -/
def addRow (s : Script) (pc : UInt32) (r : Row) : Script := { s with rows := s.rows.insert pc r }

/-- Enters a block: its row is the one that the table now has for the program counter. -/
def enter {σ : Type} (s : Script) : Enter (Option Nat) σ := fun _ budget c rest =>
  let row := s.row c.pc
  ⟨.leave (budget - row.spend), row.patch c, rest⟩

end Script

/-- The translator that follows a table. -/
def Translator.scripted : Translator Script (Option Nat) where
  translate source pc cap s store :=
    let s := { s with stats.blocks := s.stats.blocks + 1 }
    match source pc with
    | .error e => ⟨.error e, s, store⟩
    | .ok w =>
      let row := s.row pc
      match row.error pc w with
      | some e => ⟨.error e, s, store⟩
      | none =>
        let first := store.words.size
        let (result, store) := allocExits row.exits store
        let taken := (List.range' first (store.words.size - first)).reverse
        let s := { s with sites := taken ++ s.sites }
        match result with
        | .error e => ⟨.error (.store e), s, store⟩
        | .ok exits =>
          let length := min row.length cap
          ⟨.ok { code := row.code, sourceLen := length, cycles := row.cycles, idle := row.idle, exits },
            { s with stats.instructions := s.stats.instructions + length.toNat }, store⟩
  stats s := s.stats
  resetStats s := { s with stats := {} }

/-! ### Scripted hosts -/

/-- What a stand-in for a service does. -/
structure Reply where
  patch : Cpu → Cpu := id
  answer : UInt32 := 0

/-- A call of a service: its words, the current instruction, and the registers that a block keeps to
itself. -/
structure Call where
  service : Service
  words : List UInt32

/-- The host that notes its calls, the latest first, and replies by the number of the call and its
service. -/
def Host.scripted (replies : Nat → Service → Reply) (kept : List Reg) : Host (List Call) :=
  fun service a b c calls =>
    let reply := replies calls.length service
    ⟨reply.answer, reply.patch c, ⟨service, [a, b, c.currentPc] ++ kept.map c.reg⟩ :: calls⟩

/-! ### Scripted memory -/

/-- Words at addresses, some known to be unreadable, and the word everywhere else below the boot ROM. -/
structure Words where
  known : Std.HashMap UInt32 (Option UInt32) := {}
  default : Option UInt32 := none

namespace Words

/-- The words as a source of instructions. -/
def source (w : Words) : Source := fun addr =>
  let word :=
    match w.known[addr]? with
    | some known => known
    | none => if physical addr < 0x1F000000 then w.default else none
  word.elim (.error (.memoryRead addr)) .ok

/-- Adds words from an address on. -/
def add (w : Words) : UInt32 → List (Option UInt32) → Words
  | _, [] => w
  | pc, v :: vs => add { w with known := w.known.insert pc v } (pc + 4) vs

end Words

end R3000
