import MetricGateway.Binary64.Basic
import MetricGateway.Binary64.Decimal
import MetricGateway.Exposition
import MetricGateway.Sorted
import MetricGateway.Text.Blank

/-!
# Media ranges and the choice of a format

A media range is a media type followed by parameters, each introduced by a semicolon; an `Accept` header lists media
ranges separated by commas. A range has the weight of its parameter `q`, one if it has none and zero if it is no
number. The format of a reply is that of the range with the greatest positive weight among those that ask for a known
format, the first of them if several have it; text is the format if no range asks for one. Protobuf is only meant by
its delimited encoding of metric families.
-/

namespace MetricGateway

/-- A media type with the parameters that matter here. -/
structure MediaRange where
  mediaType : List Char
  weight : Binary64 := ((1 : Nat) : Binary64)
  message : Option (List Char) := none
  encoding : Option (List Char) := none
  deriving DecidableEq

namespace MediaRange

/-- Adds a parameter. -/
def addParameter (r : MediaRange) (parameter : List Char) : MediaRange :=
  match Text.cutAt (· == '=') parameter with
  | none => r
  | some (key, value) =>
    let key := Text.trim key
    let value := Text.trimEnds (· == '"') (Text.trim value)
    if key = "q".toList then { r with weight := (Binary64.read? value).getD .zero }
    else if key = "proto".toList then { r with message := some value }
    else if key = "encoding".toList then { r with encoding := some value }
    else r

/-- Reads a media range. -/
def read (cs : List Char) : MediaRange :=
  match (cs.splitOn ';').map Text.trim with
  | [] => ⟨[], .zero, none, none⟩
  | mediaType :: parameters => parameters.foldl addParameter { mediaType }

/-- Whether a range asks for delimited metric families in protobuf. -/
def isProtobuf (r : MediaRange) : Bool :=
  r.mediaType = "application/vnd.google.protobuf".toList
    ∧ r.message = some "io.prometheus.client.MetricFamily".toList ∧ r.encoding = some "delimited".toList

/-- The format that a range asks for. -/
def format? (r : MediaRange) : Option ExpositionFormat :=
  if r.isProtobuf then some .protobuf else if r.mediaType = "text/plain".toList then some .text else none

/-- The ranges of a header with a positive weight. -/
def positiveRanges (header : List Char) : List MediaRange :=
  ((header.splitOn ',').map read).filter fun r => Binary64.zero < r.weight

end MediaRange

namespace ExpositionFormat

/-- The format of a reply, chosen by an `Accept` header. -/
def negotiate (accept : Option String) : ExpositionFormat :=
  match accept with
  | none => text
  | some header =>
    let ranges := Sorted.sortBy (fun a b => compare b.weight a.weight) (MediaRange.positiveRanges header.toList)
    (ranges.findSome? MediaRange.format?).getD text

/-- The format of a pushed payload, by its content type. -/
def ofContentType (contentType : Option String) : ExpositionFormat :=
  match contentType with
  | none => text
  | some header => if (MediaRange.read header.toList).isProtobuf then protobuf else text

end ExpositionFormat
end MetricGateway
