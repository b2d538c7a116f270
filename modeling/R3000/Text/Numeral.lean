/-!
# Numerals

Reading an unsigned number in a radix up to sixteen: one `+` may stand in front, at least one digit
follows, nothing else, and the value stays below a bound.  `padded` writes a word in eight upper-case
hexadecimal digits.
-/

namespace R3000.Text

/-- The value of a digit of either case. -/
def digitValue (c : Char) : Option Nat :=
  if '0' ≤ c ∧ c ≤ '9' then some (c.toNat - '0'.toNat)
  else if 'a' ≤ c ∧ c ≤ 'f' then some (c.toNat - 'a'.toNat + 10)
  else if 'A' ≤ c ∧ c ≤ 'F' then some (c.toNat - 'A'.toNat + 10)
  else none

/-- The value of digits in a radix that follow on a value already read. -/
def digitsValue (radix : Nat) : (value : Nat) → List Char → Option Nat
  | value, [] => some value
  | value, c :: cs =>
    match digitValue c with
    | some d => if d < radix then digitsValue radix (value * radix + d) cs else none
    | none => none

/-- Reads an unsigned number below `bound`. -/
def readUnsigned (radix bound : Nat) (cs : List Char) : Option Nat :=
  let digits := match cs with
    | '+' :: rest => rest
    | _ => cs
  if digits.isEmpty then none else (digitsValue radix 0 digits).filter (· < bound)

/-- Reads a decimal number below `bound`, or after `0x` or `0X` a hexadecimal one with underscores
anywhere. -/
def readWord (bound : Nat) (cs : List Char) : Option Nat :=
  match cs with
  | '0' :: 'x' :: rest | '0' :: 'X' :: rest => readUnsigned 16 bound (rest.filter (· != '_'))
  | _ => readUnsigned 10 bound cs

/-- The upper-case digit of a value below sixteen. -/
def hexDigit (d : Nat) : Char :=
  if d < 10 then Char.ofNat (d + '0'.toNat) else Char.ofNat (d - 10 + 'A'.toNat)

/-- The last `count` hexadecimal digits of a number. -/
def hexDigits : (count : Nat) → Nat → List Char
  | 0, _ => []
  | count + 1, n => hexDigits count (n / 16) ++ [hexDigit (n % 16)]

/-- The word in eight upper-case hexadecimal digits. -/
def padded (v : UInt32) : String := String.ofList (hexDigits 8 v.toNat)

/-- The word in upper-case hexadecimal without leading zeros. -/
def unpadded (v : UInt32) : String :=
  match (hexDigits 8 v.toNat).dropWhile (· == '0') with
  | [] => "0"
  | digits => String.ofList digits

end R3000.Text
