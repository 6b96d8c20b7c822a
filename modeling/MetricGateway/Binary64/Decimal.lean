import MetricGateway.Binary64.Basic
import MetricGateway.Text.Numeral

/-!
# Reading decimals and doubles

A `Decimal` is `significand * 10 ^ exponent`. `Decimal.magnitude` is the magnitude of the double nearest to it.
Exponents may be astronomically large in either direction, so two cases are settled before any power of ten is
computed: a nonzero decimal with an exponent of at least 310 exceeds every finite double, and one below half the
smallest subnormal is zero.

A number is an optional sign followed by one of the words `inf`, `infinity` and `nan` in any case, or by a decimal
literal: digits with at most one point among or around them, then an optional exponent `e` or `E` with an optional
sign and at least one digit. At least one digit must stand beside the point. `Binary64.read?` reads the whole text or
nothing, and a literal stands for the double nearest to its exact value.
-/

namespace MetricGateway

/-- The nonnegative number `significand * 10 ^ exponent`. -/
structure Decimal where
  significand : Nat
  exponent : Int
  deriving DecidableEq

namespace Decimal

/-- The magnitude of the double nearest to `d`. -/
def magnitude (d : Decimal) : Nat :=
  match d.exponent with
  | .ofNat e =>
    if d.significand = 0 then 0
    else if 310 ≤ e then Binary64.infMagnitude
    else Binary64.nearestMagnitude (d.significand * Nat.pow 10 e * Nat.pow 2 1074) 1
  | .negSucc e =>
    if d.significand.log2 + 1076 ≤ 3 * (e + 1) then 0
    else Binary64.nearestMagnitude (d.significand * Nat.pow 2 1074) (Nat.pow 10 (e + 1))

/-- The double nearest to `d`, or to its negation. -/
def toBinary64 (negative : Bool) (d : Decimal) : Binary64 := .ofMagnitude negative d.magnitude

end Decimal

/-! ## Literals -/

namespace Decimal

/-- Reads what follows the digits of a literal: nothing, or an exponent. -/
def readExponent? : List Char → Option Int
  | [] => some 0
  | c :: r =>
    let (negative, ds) := Text.readSign r
    if c = 'e' ∨ c = 'E' then (Text.natural? ds).map fun n => if negative then -(n : Int) else n else none

/-- The digits after the point, if there is one, and what follows them. -/
def readFraction : List Char → List Char × List Char
  | '.' :: r => r.span Char.isDigit
  | r => ([], r)

/-- Reads an unsigned decimal literal. -/
def read? (cs : List Char) : Option Decimal :=
  let (whole, r) := cs.span Char.isDigit
  let (fraction, r) := readFraction r
  if whole = [] ∧ fraction = [] then none
  else (readExponent? r).map fun e => ⟨Text.digitsValue (whole ++ fraction), e - fraction.length⟩

end Decimal

namespace Binary64

/-- Reads a number without its sign. -/
def readUnsigned? (negative : Bool) (cs : List Char) : Option Binary64 :=
  let word := cs.map Char.toLower
  if word = ['i', 'n', 'f'] ∨ word = ['i', 'n', 'f', 'i', 'n', 'i', 't', 'y'] then some (infinity negative)
  else if word = ['n', 'a', 'n'] then some (nan negative)
  else (Decimal.read? cs).map (Decimal.toBinary64 negative)

/-- Reads a number that takes up the whole text. -/
def read? (cs : List Char) : Option Binary64 :=
  let (negative, r) := Text.readSign cs
  readUnsigned? negative r

end Binary64

end MetricGateway
