/-!
# Numerals

`digitsValue` is the number that a run of decimal digits stands for, and `readSign` splits an optional sign off a
numeral. `natural?` reads a text that consists of digits alone. In hexadecimal, a byte is written as two lower-case
digits, and digits are read in upper or lower case.
-/

namespace MetricGateway.Text

/-! ## Decimal numerals -/

/-- The number that a run of decimal digits stands for. -/
def digitsValue (ds : List Char) : Nat := Nat.ofDigitChars 10 ds 0

/-- Splits an optional sign off a number: whether it is a minus, and what follows. -/
def readSign : List Char → Bool × List Char
  | '-' :: r => (true, r)
  | '+' :: r => (false, r)
  | r => (false, r)

/-- Reads a number without a sign that takes up the whole text. -/
def natural? (cs : List Char) : Option Nat :=
  if cs ≠ [] ∧ cs.all Char.isDigit then some (digitsValue cs) else none

/-! ## Hexadecimal numerals -/

/-- The digit of a number below sixteen. -/
def hexDigit (n : Nat) : Char := Nat.digitChar n

/-- The digits of a byte string. -/
def hexadecimal (bytes : List UInt8) : String :=
  String.ofList (bytes.flatMap fun b => [hexDigit (b.toNat / 16), hexDigit (b.toNat % 16)])

/-- The value of a hexadecimal digit. -/
def hexDigitValue? (c : Char) : Option Nat :=
  if '0' ≤ c ∧ c ≤ '9' then some (c.toNat - '0'.toNat)
  else if 'A' ≤ c ∧ c ≤ 'F' then some (c.toNat - 'A'.toNat + 10)
  else if 'a' ≤ c ∧ c ≤ 'f' then some (c.toNat - 'a'.toNat + 10)
  else none

/-- Whether a character is a hexadecimal digit. -/
def isHexDigit (c : Char) : Bool := (hexDigitValue? c).isSome

/-- The number that a run of hexadecimal digits stands for. -/
def hexDigitsValue (ds : List Char) : Nat := ds.foldl (fun n d => 16 * n + (hexDigitValue? d).getD 0) 0

end MetricGateway.Text
