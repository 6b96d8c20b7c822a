import MetricGateway.Exposition
import MetricGateway.Store.Basic

/-!
# Rendering the store

The store is rendered family by family in the order of their names; families that have lost all their metrics are left
out. The pieces of a family go to a sink one after the other. A sink with little room takes what fits, and rendering
stops there with an error that names the family; an unbounded sink takes everything.
-/

namespace MetricGateway

/-- Where bytes are written to. -/
structure Sink where
  /-- The number of bytes that still fit, unless there is no limit. -/
  room : Option Nat := none
  /-- The pieces that were taken, the last one first. -/
  pieces : List (List UInt8) := []

namespace Sink

/-- What was written. -/
def written (k : Sink) : List UInt8 := k.pieces.reverse.flatten

/-- Writes a piece: the sink afterwards, and whether all of the piece was taken. -/
def write (k : Sink) (piece : List UInt8) : Sink × Bool :=
  match k.room with
  | none => ({ k with pieces := piece :: k.pieces }, true)
  | some n =>
    if piece.length ≤ n then (⟨some (n - piece.length), piece :: k.pieces⟩, true)
    else (⟨some 0, piece.take n :: k.pieces⟩, false)

/-- Writes pieces until one does not fit. -/
def writeAll (k : Sink) : List (List UInt8) → Sink × Bool
  | [] => (k, true)
  | piece :: r =>
    match k.write piece with
    | (k, true) => writeAll k r
    | (k, false) => (k, false)

end Sink

/-- The sink was full within a family. -/
structure RenderError where
  family : String
  deriving DecidableEq

/-- The wording of an error. -/
def RenderError.message (e : RenderError) : String :=
  "failed to encode metric family '" ++ e.family ++ "': sink full"

namespace Store

/-- Renders families one after the other until one does not fit. -/
def renderEach (format : ExpositionFormat) (sink : Sink) : List Family → Sink × Except RenderError Unit
  | [] => (sink, .ok ())
  | f :: r =>
    match sink.writeAll (format.pieces f) with
    | (sink, true) => renderEach format sink r
    | (sink, false) => (sink, .error ⟨f.name⟩)

/-- The families with metrics, in the order of their names. -/
def shownFamilies (s : Store) : List Family :=
  (s.families.entries.map fun e => e.2.family).filter (!·.metrics.isEmpty)

/-- Renders the store into a sink. -/
def renderTo (s : Store) (format : ExpositionFormat) (sink : Sink) : Sink × Except RenderError Unit :=
  renderEach format sink s.shownFamilies

/-- The rendering of the store. -/
def render (s : Store) (format : ExpositionFormat) : List UInt8 := (s.renderTo format {}).1.written

end Store
end MetricGateway
