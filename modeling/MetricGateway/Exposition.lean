import MetricGateway.Protobuf.Reader
import MetricGateway.Protobuf.Writer
import MetricGateway.TextFormat.Reader
import MetricGateway.TextFormat.Writer

/-!
# Exposition formats

Families are exchanged in two formats. `ExpositionFormat.read` reads a payload; `ExpositionFormat.pieces` writes a
family as the pieces that are handed to a sink one after the other, and `ExpositionFormat.encode` as one byte string.
A family without metrics cannot be written.
-/

namespace MetricGateway

/-- A format of metric families. -/
inductive ExpositionFormat
  /-- Lines of text. -/
  | text
  /-- Protobuf messages, each behind its length. -/
  | protobuf
  deriving DecidableEq

/-- The refusal to write a family without metrics. -/
structure EmptyFamily where
  name : String
  deriving DecidableEq

/-- The wording of the refusal. -/
def EmptyFamily.message (e : EmptyFamily) : String := s!"metric family {Text.quoted e.name} has no metrics"

namespace ExpositionFormat

/-- The content type of a format. -/
def contentType : ExpositionFormat → String
  | text => "text/plain; version=0.0.4; charset=utf-8"
  | protobuf => "application/vnd.google.protobuf; proto=io.prometheus.client.MetricFamily; encoding=delimited"

/-- Reads the families of a payload. -/
def read : ExpositionFormat → List UInt8 → Except ParseFault (List Family)
  | text, payload => TextFormat.read payload
  | protobuf, payload => Protobuf.read payload

/-- The pieces of a family: its lines, or its message. -/
def pieces : ExpositionFormat → Family → List (List UInt8)
  | text, f => (TextFormat.familyLines f).map Utf8.encode
  | protobuf, f => [Protobuf.encodeFamily f]

/-- Writes a family. -/
def encode (format : ExpositionFormat) (f : Family) : Except EmptyFamily (List UInt8) :=
  if f.metrics.isEmpty then .error ⟨f.name⟩ else .ok (format.pieces f).flatten

end ExpositionFormat
end MetricGateway
