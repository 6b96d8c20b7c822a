import MetricGateway.Binary64.Decimal
import MetricGateway.Text.Blank

/-!
# Writing doubles

A decimal *reads back* as a double if that double is nearest to it. `Decimal.shortest m` is a decimal of fewest digits
that reads back as the magnitude `m`. For one digit, two digits and so on up to seventeen it looks at the two decimals
of that length on either side of the exact value: the first length with a decimal that reads back wins, and of two
such decimals the nearer one, an exact tie going up. Every candidate is tested by reading it back, and the exact
expansion, which always reads back, stands behind the last candidate.

A finite double is written with the digits of its shortest decimal. The *scientific exponent* is the power of ten of
the first digit; from `-4` to `5` the number is written positionally (`0.00015`, `42`, `100000`), without a point
unless digits follow it, and otherwise with an exponent of at least two digits and a sign (`1e+06`, `1.5e-07`). Zero
keeps its sign. The other doubles are the words `NaN`, `+Inf` and `-Inf`.
-/

namespace MetricGateway

/-! ## The shortest decimal of a double -/

namespace Decimal

/-- The place of the decimal point of a positive number of smallest subnormals: the number lies below `10 ^ p` and at or
above `10 ^ (p - 1)`. The number is first scaled by `10 ^ 400`, which makes it larger than one. -/
def pointOf (units : Nat) : Int := (Nat.toDigits 10 (units * Nat.pow 10 400 / Nat.pow 2 1074)).length - 400

/-- The number of smallest subnormals `units` as a fraction of `10 ^ k`. -/
def fractionOf (units : Nat) : Int → Nat × Nat
  | .ofNat k => (units, Nat.pow 2 1074 * Nat.pow 10 k)
  | .negSucc k => (units * Nat.pow 10 (k + 1), Nat.pow 2 1074)

/-- The two multiples of `10 ^ k` on either side of a number, the nearer one first. -/
def neighbours (units : Nat) (k : Int) : List Decimal :=
  let (num, den) := fractionOf units k
  let below : Decimal := ⟨num / den, k⟩
  let above : Decimal := ⟨num / den + 1, k⟩
  if 2 * (num % den) < den then [below, above] else [above, below]

/-- The exact value of a magnitude. -/
def exact (m : Nat) : Decimal := ⟨Binary64.units m * Nat.pow 5 1074, -1074⟩

/-- A decimal of fewest digits that reads back as the magnitude `m`, nearest to its exact value. -/
def shortest (m : Nat) : Decimal :=
  let units := Binary64.units m
  let point := pointOf units
  let candidate := (List.range 17).findSome? fun (n : Nat) =>
    (neighbours units (point - (n + 1))).find? fun d => d.magnitude = m
  candidate.getD (exact m)

end Decimal

/-! ## Notation -/

/-- The decimal digits of a number. -/
def digitsOf (n : Nat) : List Char := Nat.toDigits 10 n

namespace Decimal

/-- Digits that follow a point, or nothing if there are none. -/
def pointed (ds : List Char) : List Char := if ds = [] then [] else '.' :: ds

/-- Digits written positionally, the first one standing for the power `e` of ten. -/
def positional (ds : List Char) : Int → List Char
  | .ofNat e =>
    ds.take (e + 1) ++ List.replicate (e + 1 - ds.length) '0' ++ pointed (ds.drop (e + 1))
  | .negSucc e => '0' :: '.' :: (List.replicate e '0' ++ ds)

/-- An exponent with its sign and at least two digits. -/
def exponentText (e : Int) : List Char :=
  let ds := digitsOf e.natAbs
  'e' :: (if e < 0 then '-' else '+') :: (List.replicate (2 - ds.length) '0' ++ ds)

/-- Digits written with one digit before the point and an exponent. -/
def scientific (ds : List Char) (e : Int) : List Char := ds.take 1 ++ pointed (ds.drop 1) ++ exponentText e

/-- The text of a positive decimal. -/
def text (d : Decimal) : List Char :=
  let ds := digitsOf d.significand
  let e := d.exponent + ds.length - 1
  let ds := Text.trimEnd (· = '0') ds
  if -4 ≤ e ∧ e < 6 then positional ds e else scientific ds e

end Decimal

namespace Binary64

/-- The text of a magnitude below infinity. -/
def magnitudeText (m : Nat) : List Char := if m = 0 then ['0'] else (Decimal.shortest m).text

/-- The text of a double. -/
def text (x : Binary64) : List Char :=
  if x.isNaN then ['N', 'a', 'N']
  else if x.isInfinite then (if x.isNegative then '-' else '+') :: ['I', 'n', 'f']
  else (if x.isNegative then ['-'] else []) ++ magnitudeText x.magnitude

end Binary64

end MetricGateway
