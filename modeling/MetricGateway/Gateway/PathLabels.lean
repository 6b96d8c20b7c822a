import MetricGateway.Label.Basic
import MetricGateway.Text.Blank
import MetricGateway.Text.Numeral
import MetricGateway.Text.Utf8

/-!
# Labels in request paths

The path of a push names labels and values in turn, separated by slashes: `/job/x/instance/y` is `job="x"` and
`instance="y"`. Slashes around the path do not count. A path is percent-decoded as a whole before it is split.
-/

namespace MetricGateway

/-- The byte that two hexadecimal digits stand for. -/
def hexByte? (hi lo : UInt8) : Option UInt8 :=
  match Text.hexDigitValue? (.ofNat hi.toNat), Text.hexDigitValue? (.ofNat lo.toNat) with
  | some hi, some lo => some (UInt8.ofNat (16 * hi + lo))
  | _, _ => none

/-- Replaces each percent sign and the two hexadecimal digits behind it by the byte they stand for. A percent sign
that is not followed by two digits stays. -/
def percentDecode : List UInt8 → List UInt8
  | 37 :: hi :: lo :: r =>
    match hexByte? hi lo with
    | some b => b :: percentDecode r
    | none => 37 :: percentDecode (hi :: lo :: r)
  | b :: r => b :: percentDecode r
  | [] => []

/-- The text that a part of a path stands for, if it is UTF-8. -/
def decodedPath? (cs : List Char) : Option (List Char) := Utf8.decode? (percentDecode (Utf8.encode cs))

/-- Pairs names with the values that follow them, if there is a value for each name. -/
def pairUp : List (List Char) → Option (List Label)
  | [] => some []
  | [_] => none
  | name :: value :: r => (pairUp r).map (⟨String.ofList name, String.ofList value⟩ :: ·)

/-- The labels of a path, unless it ends with a name that has no value. -/
def pathLabels? (cs : List Char) : Option (List Label) :=
  match Text.trimEnds (· == '/') cs with
  | [] => some []
  | path => pairUp (path.splitOn '/')

end MetricGateway
