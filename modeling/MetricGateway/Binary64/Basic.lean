/-!
# IEEE 754 double precision numbers

A `Binary64` is its 64-bit word: a sign bit above a 63-bit *magnitude*. Read as natural numbers, the magnitudes count
through the finite numbers in increasing order, then infinity (`infMagnitude`), then the NaNs, so both orders on doubles
are orders of integer keys: `totalKey` separates every word, `numericKey` identifies the two zeros.

Every finite double is a whole multiple of the smallest subnormal `2 ^ -1074`; `units` is that multiple and `scaled` the
signed one. Arithmetic on doubles is therefore integer arithmetic followed by one rounding.

`nearestMagnitude num den` is the magnitude of the double nearest to `num / den` smallest subnormals. One formula serves
every exponent: with `s` chosen so that the quotient by `2 ^ s` has at most 53 bits, the rounded quotient `k` stands for
the magnitude `s * 2 ^ 52 + k`, also when rounding carries `k` up to `2 ^ 53`, and beyond the largest finite number the
magnitude stops at infinity. Magnitude and quotient have the same parity, so ties go to the even magnitude.

Sum, product and quotient are the exact result rounded once. A NaN operand is the result, made quiet, and the first one
if both are NaN; an operation without a value (`∞ - ∞`, `0 * ∞`, `0 / 0`, `∞ / ∞`) gives `undefinedResult`. Counts of
samples enter as the nearest double (`NatCast`) and leave by `toCount`, which drops the fraction and stays within 64
bits.
-/

namespace MetricGateway

/-- A double precision number, given by its word. -/
structure Binary64 where
  /-- The sign bit and the magnitude. -/
  bits : UInt64
  deriving DecidableEq

namespace Binary64

/-- Whether the sign bit is set. -/
def isNegative (x : Binary64) : Bool := 0x8000000000000000 ≤ x.bits.toNat

/-- The word without its sign bit. -/
def magnitude (x : Binary64) : Nat := x.bits.toNat % 0x8000000000000000

/-- The magnitude of the infinities. Finite numbers lie below it and NaNs above. -/
def infMagnitude : Nat := 0x7ff0000000000000

/-- The double of a sign and a magnitude below `2 ^ 63`. -/
def ofMagnitude (negative : Bool) (m : Nat) : Binary64 :=
  ⟨UInt64.ofNat (m + if negative then 0x8000000000000000 else 0)⟩

/-- Positive zero. -/
def zero : Binary64 := ofMagnitude false 0

/-- An infinity. -/
def infinity (negative : Bool) : Binary64 := ofMagnitude negative infMagnitude

/-- The NaN that the word `NaN` stands for. -/
def nan (negative : Bool) : Binary64 := ofMagnitude negative (infMagnitude + 0x8000000000000)

/-- Whether the double is a NaN. -/
def isNaN (x : Binary64) : Bool := infMagnitude < x.magnitude

/-- Whether the double is an infinity. -/
def isInfinite (x : Binary64) : Bool := x.magnitude = infMagnitude

/-- The finite number of a magnitude, counted in smallest subnormals: the exponent field is `m / 2 ^ 52`, and it adds an
implicit leading bit to the fraction unless it is zero. -/
def units (m : Nat) : Nat :=
  if m < 0x10000000000000 then m
  else (m % 0x10000000000000 + 0x10000000000000) * Nat.pow 2 (m / 0x10000000000000 - 1)

/-- A finite number in smallest subnormals, with its sign. -/
def scaled (x : Binary64) : Int := if x.isNegative then -(units x.magnitude : Int) else units x.magnitude

/-! ## Orders -/

/-- The place of a word in the total order: negative NaNs first, `-0` before `0`, positive NaNs last. -/
def totalKey (x : Binary64) : Int := if x.isNegative then -(x.magnitude : Int) - 1 else x.magnitude

/-- The total order on doubles, in which only equal words are equal. -/
instance : Ord Binary64 := ⟨fun x y => compare x.totalKey y.totalKey⟩

/-- The place of a number in the numeric order, in which the zeros coincide. -/
def numericKey (x : Binary64) : Int := if x.isNegative then -(x.magnitude : Int) else x.magnitude

/-- Numeric order: a NaN is not below anything. -/
instance : LE Binary64 := ⟨fun x y => x.isNaN = false ∧ y.isNaN = false ∧ x.numericKey ≤ y.numericKey⟩

instance : DecidableLE Binary64 := fun x y =>
  inferInstanceAs (Decidable (x.isNaN = false ∧ y.isNaN = false ∧ x.numericKey ≤ y.numericKey))

/-- Strict numeric order. -/
instance : LT Binary64 := ⟨fun x y => x.isNaN = false ∧ y.isNaN = false ∧ x.numericKey < y.numericKey⟩

instance : DecidableLT Binary64 := fun x y =>
  inferInstanceAs (Decidable (x.isNaN = false ∧ y.isNaN = false ∧ x.numericKey < y.numericKey))

/-- Numeric equality: the two zeros are equal, and a NaN is not equal to anything. -/
def equals (x y : Binary64) : Bool := x.isNaN = false ∧ y.isNaN = false ∧ x.numericKey = y.numericKey

end Binary64

/-! ## Rounding to nearest, ties to even -/

/-- The whole number nearest to `num / den`, the even one if two are equally near. -/
def roundHalfEven (num den : Nat) : Nat :=
  let q := num / den
  let r := num % den
  if 2 * r < den then q else if den < 2 * r then q + 1 else q + q % 2

namespace Binary64

/-- The magnitude nearest to `num / den` smallest subnormals, the even one if two are equally near. -/
def nearestMagnitude (num den : Nat) : Nat :=
  let s := (num / den).log2 - 52
  min (s * 0x10000000000000 + roundHalfEven num (den * Nat.pow 2 s)) infMagnitude

/-- The double nearest to a signed fraction of smallest subnormals. -/
def ofFraction (negative : Bool) (num den : Nat) : Binary64 := ofMagnitude negative (nearestMagnitude num den)

end Binary64

/-! ## Arithmetic -/

namespace Binary64

/-- The NaN of an operation that has no value. -/
def undefinedResult : Binary64 := nan true

/-- A NaN with its quiet bit set. -/
def quiet (x : Binary64) : Binary64 := ⟨x.bits ||| 0x8000000000000⟩

/-- Runs an operation on two operands neither of which is a NaN. -/
def unlessNaN (x y : Binary64) (value : Binary64) : Binary64 :=
  if x.isNaN then x.quiet else if y.isNaN then y.quiet else value

/-- The sum of two numbers or infinities. A sum of zero is negative only if both operands are. -/
def sum (x y : Binary64) : Binary64 :=
  if x.isInfinite then
    if y.isInfinite ∧ x.isNegative ≠ y.isNegative then undefinedResult else x
  else if y.isInfinite then y
  else if x.scaled + y.scaled = 0 then ofMagnitude (x.isNegative && y.isNegative) 0
  else ofFraction (x.scaled + y.scaled < 0) (x.scaled + y.scaled).natAbs 1

/-- The product of two numbers or infinities. -/
def product (x y : Binary64) : Binary64 :=
  let negative := x.isNegative != y.isNegative
  if x.isInfinite ∨ y.isInfinite then
    if x.magnitude = 0 ∨ y.magnitude = 0 then undefinedResult else infinity negative
  else ofFraction negative (units x.magnitude * units y.magnitude) (Nat.pow 2 1074)

/-- The quotient of two numbers or infinities. -/
def quotient (x y : Binary64) : Binary64 :=
  let negative := x.isNegative != y.isNegative
  if x.isInfinite then
    if y.isInfinite then undefinedResult else infinity negative
  else if y.isInfinite then ofMagnitude negative 0
  else if y.magnitude = 0 then
    if x.magnitude = 0 then undefinedResult else infinity negative
  else ofFraction negative (units x.magnitude * Nat.pow 2 1074) (units y.magnitude)

instance : Add Binary64 := ⟨fun x y => unlessNaN x y (sum x y)⟩
instance : Mul Binary64 := ⟨fun x y => unlessNaN x y (product x y)⟩
instance : Div Binary64 := ⟨fun x y => unlessNaN x y (quotient x y)⟩

/-- A whole number becomes the nearest double. -/
instance : NatCast Binary64 := ⟨fun n => ofFraction false (n * Nat.pow 2 1074) 1⟩

/-- The whole part of a double as a 64-bit count: a NaN or a negative number counts nothing, and a number beyond the
largest count becomes the largest count. -/
def toCount (x : Binary64) : UInt64 :=
  if x.isNaN ∨ x.isNegative then 0
  else if x.isInfinite then UInt64.ofNat (UInt64.size - 1)
  else UInt64.ofNat (min (units x.magnitude / Nat.pow 2 1074) (UInt64.size - 1))

end Binary64
end MetricGateway
