import MetricGateway.Binary64.Decimal
import MetricGateway.Label.Basic
import MetricGateway.Text.Blank
import MetricGateway.TextFormat.Escape

/-!
# Sample lines

A sample line is a metric name, optionally labels in braces, a number, and optionally a timestamp in milliseconds,
which is checked and forgotten. Between the tokens of the labels stand spaces and tabs (`isGap`), between the numbers
any blanks. The labels are separated by commas, and one more comma may follow the last.
-/

namespace MetricGateway.TextFormat

/-- What a sample line says. -/
structure SampleLine where
  name : String
  /-- The labels in the order of the line. -/
  labels : List Label
  value : Binary64
  deriving DecidableEq

/-- A character that may stand between the tokens of the labels. -/
def isGap (c : Char) : Bool := c == ' ' || c == '\t'

/-- Drops the gap at the start of a text. -/
def skipGap (cs : List Char) : List Char := cs.dropWhile isGap

/-- Reads a label: a name, an equals sign and a quoted value. -/
def readLabel (metric : String) (cs : List Char) : Except LineFault (Label × List Char) :=
  let name := String.ofList (cs.takeWhile isLabelChar)
  if name = "" then .error (.unnamedLabel metric)
  else
    match skipGap (cs.dropWhile isLabelChar) with
    | '=' :: r =>
      match readQuoted (skipGap r) with
      | .ok (value, r) => .ok (⟨name, String.ofList value⟩, r)
      | .error e => .error e
    | _ => .error (.missingEquals name)

/-- Dropping characters does not lengthen a text. -/
theorem length_dropWhile_le (p : Char → Bool) (cs : List Char) : (cs.dropWhile p).length ≤ cs.length :=
  (List.dropWhile_sublist p).length_le

/-- A label that was read is followed by a shorter text. -/
theorem length_readLabel {metric : String} {cs r : List Char} {l : Label} (h : readLabel metric cs = .ok (l, r)) :
    r.length < cs.length := by
  simp only [readLabel] at h
  split at h
  · cases h
  · split at h
    next r₁ h₁ =>
      split at h
      next v r₂ h₂ =>
        cases h
        have := length_readQuoted h₂
        have := length_dropWhile_le isGap r₁
        have := length_dropWhile_le isGap (cs.dropWhile isLabelChar)
        have := length_dropWhile_le isLabelChar cs
        rw [skipGap] at *
        simp only [h₁, List.length_cons] at *
        omega
      · cases h
    · cases h

/-- Reads labels up to the closing brace: the labels and what follows. -/
def readLabels (metric : String) (cs : List Char) : Except LineFault (List Label × List Char) :=
  match _hc : skipGap cs with
  | '}' :: r => .ok ([], r)
  | cs' =>
    match _hl : readLabel metric cs' with
    | .error e => .error e
    | .ok (label, r) =>
      match _hr : skipGap r with
      | ',' :: r' =>
        match readLabels metric r' with
        | .ok (labels, r'') => .ok (label :: labels, r'')
        | .error e => .error e
      | '}' :: r' => .ok ([label], r')
      | _ => .error (.unseparatedLabel label.name)
termination_by cs.length
decreasing_by
  have h₁ := length_dropWhile_le isGap cs
  have h₂ := length_readLabel _hl
  have h₃ := length_dropWhile_le isGap r
  rw [skipGap] at _hc _hr
  simp only [_hc, _hr, List.length_cons] at *
  omega

/-- Reads the optional labels behind a metric name. -/
def readLabelBlock (metric : String) (cs : List Char) : Except LineFault (List Label × List Char) :=
  match skipGap cs with
  | '{' :: r => readLabels metric r
  | r => .ok ([], r)

/-- Reads a timestamp, a signed number of 64 bits. -/
def readTimestamp? (cs : List Char) : Option Int :=
  let (negative, ds) := Text.readSign cs
  let n := (Text.natural? ds).map fun n => if negative then -(n : Int) else n
  n.filter fun n => -0x8000000000000000 ≤ n ∧ n < 0x8000000000000000

/-- Reads the number of a sample and the optional timestamp. -/
def readNumbers (metric : String) : List (List Char) → Except LineFault Binary64
  | [] => .error (.missingNumber metric)
  | number :: more =>
    match Binary64.read? number with
    | none => .error (.invalidNumber (String.ofList number))
    | some v =>
      match more with
      | [] => .ok v
      | timestamp :: surplus =>
        if readTimestamp? timestamp = none then .error (.invalidTimestamp (String.ofList timestamp))
        else
          match surplus with
          | [] => .ok v
          | text :: _ => .error (.surplusText (String.ofList text))

/-- Reads a sample line. -/
def SampleLine.read (line : List Char) : Except LineFault SampleLine :=
  let name := String.ofList (line.takeWhile isMetricChar)
  if name = "" then .error (.unnamedSample (String.ofList line))
  else
    match readLabelBlock name (line.dropWhile isMetricChar) with
    | .error e => .error e
    | .ok (labels, r) =>
      match readNumbers name (Text.words r) with
      | .error e => .error e
      | .ok value => .ok ⟨name, labels, value⟩

end MetricGateway.TextFormat
