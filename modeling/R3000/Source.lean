import R3000.Text.Numeral

/-!
# Instruction words

A translator takes the words of the program from a source, which gives a word or the reason why there is none.  A
reason of that kind is also what a translation ends in without code; the program is at fault only when its words
cannot be read or make no instruction.
-/

namespace R3000

/-- Why the store has nothing to give. -/
inductive StoreError
  | codeExhausted {used capacity requested : Nat}
  | linksExhausted (capacity : Nat)
  | linkTableTooLarge (capacity : Nat)
  deriving DecidableEq, Repr

/-- The wording of the error. -/
def StoreError.message : StoreError → String
  | @codeExhausted used capacity requested =>
    "code arena exhausted (" ++ toString used ++ " of " ++ toString capacity ++ " bytes used, " ++
      toString requested ++ " requested)"
  | linksExhausted capacity => "link table exhausted (" ++ toString capacity ++ " sites)"
  | linkTableTooLarge capacity => "link table allocation failed (" ++ toString capacity ++ " sites)"

/-- Why there is no code for an address. -/
inductive TranslateError
  | memoryRead (addr : UInt32)
  | unsupportedOpcode (addr opcode : UInt32)
  | backend (message : String)
  | store (e : StoreError)
  deriving DecidableEq, Repr

namespace TranslateError

/-- The wording of the error. -/
def message : TranslateError → String
  | memoryRead addr => "instruction fetch failed at 0x" ++ Text.padded addr
  | unsupportedOpcode addr opcode =>
    "unsupported opcode 0x" ++ Text.padded opcode ++ " at 0x" ++ Text.padded addr
  | backend m => "backend: " ++ m
  | store e => e.message

/-- Whether the program is at fault, so that trying again is no use. -/
def isGuestFault : TranslateError → Bool
  | memoryRead _ | unsupportedOpcode .. => true
  | _ => false

end TranslateError

/-- Where instruction words come from; a word that is not to be had comes with the reason. -/
abbrev Source := UInt32 → Except TranslateError UInt32

/-- The word at an address, if it is to be had. -/
def Source.word? (source : Source) (addr : UInt32) : Option UInt32 := (source addr).toOption

end R3000
