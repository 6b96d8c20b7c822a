import MetricGateway.Aggregation
import MetricGateway.Label.Fingerprint

/-!
# Metric families

A family is a list of metrics of one declared type under one name. `FamilyError` collects the reasons for which a store
refuses a family; each of them names the family.

A pushed family must not use a label name that the exposition formats reserve (`checkReserved`), and its metrics must be
different series with names that can be written (`checkSeries`). Series are told apart by their fingerprints, metric by
metric, so the first fault in the order of the metrics is the one that is reported.

A family of the same type is merged into another by a union in the order of label sets (`merge`): a series of one side
stays as it is, and a series of both sides is combined by the policy. The result has the name, the help and the type of
the first family.
-/

namespace MetricGateway

/-- The metrics of one name. -/
structure Family where
  name : String
  help : Option String := none
  type : MetricType
  metrics : List (Metric Binary64) := []
  deriving DecidableEq

/-- Why a family is refused. -/
inductive FamilyError
  /-- A name that cannot be written or that the exposition formats reserve. -/
  | invalidLabel (family : String) (fault : NameFault)
  /-- Two metrics that are the same series. -/
  | duplicateLabels (family : String) (labels : LabelSet)
  /-- A type other than that of the stored family. -/
  | typeMismatch (family : String) (existing incoming : MetricType)
  deriving DecidableEq

namespace FamilyError

/-- The family that was refused. -/
def family : FamilyError → String
  | invalidLabel family _ => family
  | duplicateLabels family _ => family
  | typeMismatch family _ _ => family

/-- The wording of an error. -/
def message : FamilyError → String
  | invalidLabel family fault =>
    s!"invalid label {Text.quoted fault.name} in metric family '" ++ family ++ s!"': {fault.problem.message}"
  | duplicateLabels family labels => s!"duplicate labels: {labels.textWithName family}"
  | typeMismatch family existing incoming =>
    "cannot merge metric '" ++ family ++ s!"': type {existing.title} != {incoming.title}"

end FamilyError

/-! ## Validation -/

/-- Why a label name is reserved in families of a type, if it is. -/
def MetricType.reservedProblem? (type : MetricType) (name : String) : Option NameProblem :=
  if ['_', '_'].isPrefixOf name.toList then some .reservedLabelName
  else if type = .histogram ∧ name = boundLabel then some .reservedForBuckets
  else if type = .summary ∧ name = quantileLabel then some .reservedForQuantiles
  else none

namespace Family

/-- The first reserved label name in a family. -/
def reservedFault? (f : Family) : Option NameFault :=
  (f.metrics.flatMap fun m => m.labels.toList).findSome? fun l =>
    (f.type.reservedProblem? l.name).map fun problem => ⟨l.name, problem⟩

/-- Refuses a family with a reserved label name. -/
def checkReserved (f : Family) : Except FamilyError Unit :=
  match f.reservedFault? with
  | some fault => .error (.invalidLabel f.name fault)
  | none => .ok ()

/-- Refuses metrics without a fingerprint, and metrics with a fingerprint that was seen before. -/
def checkSeriesFrom (family : String) (seen : List (List UInt8)) : List (Metric Binary64) → Except FamilyError Unit
  | [] => .ok ()
  | m :: r =>
    match m.labels.fingerprint family with
    | .error fault => .error (.invalidLabel family fault)
    | .ok fp =>
      if seen.contains fp then .error (.duplicateLabels family m.labels) else checkSeriesFrom family (fp :: seen) r

/-- Refuses a family whose metrics are not different series with names that can be written. -/
def checkSeries (f : Family) : Except FamilyError Unit := checkSeriesFrom f.name [] f.metrics

end Family

/-! ## Merging -/

namespace Family

/-- Merges an incoming family into an existing one. -/
def merge (policy : AggregationPolicy) (existing incoming : Family) : Except FamilyError Family :=
  if existing.type ≠ incoming.type then .error (.typeMismatch existing.name existing.type incoming.type)
  else .ok { existing with
    metrics := Sorted.unionBy (compareOn Metric.labels) (Metric.combine policy) existing.metrics incoming.metrics }

/-- A family with its metrics in the order of their label sets. -/
def sortMetrics (f : Family) : Family := { f with metrics := Sorted.sortBy (compareOn Metric.labels) f.metrics }

end Family
end MetricGateway
