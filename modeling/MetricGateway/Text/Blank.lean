/-!
# Blanks

A *blank* is a character with the Unicode property `White_Space`. `trim` drops the blanks at both ends of a text, and
`words` are its longest runs without blanks; `trimEnds p` trims any class of characters. The Unicode properties that
the library uses are tables of ranges of code points in increasing order, in which `inRanges` looks a character up.
-/

namespace MetricGateway.Text

/-- Whether a character lies in one of the given ranges, whose ends are included. -/
def inRanges (ranges : List (Nat × Nat)) (c : Char) : Bool :=
  ranges.any fun (first, last) => first ≤ c.toNat && c.toNat ≤ last

/-- The code points with the property `White_Space`. -/
def blankRanges : List (Nat × Nat) :=
  [(0x9, 0xd), (0x20, 0x20), (0x85, 0x85), (0xa0, 0xa0), (0x1680, 0x1680), (0x2000, 0x200a), (0x2028, 0x2029),
   (0x202f, 0x202f), (0x205f, 0x205f), (0x3000, 0x3000)]

/-- Whether a character is white space. -/
def isBlank (c : Char) : Bool := inRanges blankRanges c

/-- Drops the characters of a class at the end of a text. -/
def trimEnd (p : Char → Bool) (cs : List Char) : List Char := (cs.reverse.dropWhile p).reverse

/-- Drops the characters of a class at both ends of a text. -/
def trimEnds (p : Char → Bool) (cs : List Char) : List Char := trimEnd p (cs.dropWhile p)

/-- Drops the blanks at the start of a text. -/
def trimStart (cs : List Char) : List Char := cs.dropWhile isBlank

/-- Drops the blanks at both ends of a text. -/
def trim (cs : List Char) : List Char := trimEnds isBlank cs

/-- The longest runs without blanks, in order. -/
def words (cs : List Char) : List (List Char) := (cs.splitOnP isBlank).filter (· ≠ [])

/-- Splits a text before and after its first character of a class. -/
def cutAt (p : Char → Bool) (cs : List Char) : Option (List Char × List Char) :=
  match cs.dropWhile (!p ·) with
  | [] => none
  | _ :: r => some (cs.takeWhile (!p ·), r)

end MetricGateway.Text
