import MetricGateway.ParseFault
import MetricGateway.TextFormat.Draft

/-!
# Reading the text format

A text is read line by line. Blanks around a line do not count, and empty lines are skipped. A line that starts with
`#` is a comment; `HELP` and `TYPE` comments describe a family, and each may be given once per family, the type before
the family's samples. Every other line is a sample. Families come out in the order of their first appearance.
-/

namespace MetricGateway.TextFormat

/-- A metric name in a comment. -/
def checkName (name : List Char) : Except LineFault String :=
  if isNameOver isMetricChar name then .ok (String.ofList name)
  else .error (.invalidMetricName (String.ofList name))

/-- Reads what follows `HELP`: a metric name and a help text. -/
def readHelp (ds : Drafts) (r : List Char) : Except LineFault Drafts := do
  let (name, help) := (Text.cutAt isGap r).getD (r, [])
  let name ← checkName name
  if ((ds.lookup name).bind Draft.help).isSome then throw (.secondHelp name)
  return Appearance.alter name {} (fun d => { d with help := some (String.ofList (unescapeHelp help)) }) ds

/-- Reads what follows `TYPE`: a metric name, a type, and anything behind it. -/
def readType (ds : Drafts) (r : List Char) : Except LineFault Drafts :=
  match Text.words r with
  | name :: type :: _ => do
    let name ← checkName name
    match MetricType.ofName? (String.ofList type) with
    | none => throw (.unknownType (String.ofList type))
    | some type =>
      let draft := (ds.lookup name).getD {}
      if draft.type.isSome then throw (if draft.sampled then .typeAfterSamples name else .secondType name)
      return Appearance.alter name {} (fun d => { d with type := some type }) ds
  | _ => throw .incompleteType

/-- Reads what follows the `#` of a comment. -/
def readComment (ds : Drafts) (cs : List Char) : Except LineFault Drafts :=
  match Text.cutAt isGap (Text.trimStart cs) with
  | none => .ok ds
  | some (keyword, r) =>
    if keyword = "HELP".toList then readHelp ds (Text.trimStart r)
    else if keyword = "TYPE".toList then readType ds (Text.trimStart r)
    else .ok ds

/-- Reads a line. -/
def readLine (ds : Drafts) (line : List Char) : Except LineFault Drafts :=
  match Text.trim line with
  | [] => .ok ds
  | '#' :: r => readComment ds r
  | line => do ds.addSample (← SampleLine.read line)

/-- Reads lines, of which the first has the given number. -/
def readLines (number : Nat) (ds : Drafts) : List (List Char) → Except ParseFault Drafts
  | [] => .ok ds
  | line :: r =>
    match readLine ds line with
    | .error fault => .error (.line number fault)
    | .ok ds => readLines (number + 1) ds r

/-- The lines of a text. -/
def linesOf (cs : List Char) : List (List Char) := cs.splitOn '\n'

/-- Reads the families of a text. -/
def readText (cs : List Char) : Except ParseFault (List Family) := Drafts.families <$> readLines 1 [] (linesOf cs)

/-- Reads the families of a payload. -/
def read (payload : List UInt8) : Except ParseFault (List Family) :=
  match Utf8.decode payload with
  | .error fault => .error (.notUtf8 fault)
  | .ok cs => readText cs

end MetricGateway.TextFormat
