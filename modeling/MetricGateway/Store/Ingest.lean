import MetricGateway.Aggregation
import MetricGateway.Exposition
import MetricGateway.Family
import MetricGateway.Label.Basic
import MetricGateway.Store.Basic

/-!
# Pushing families into the store

The labels of a push are added to every metric, and the family is checked (`prepare`). Then it is merged into the
stored family of its name, or stored as it is if there is none (`commit`). Each family of a push commits or fails on
its own. The last injected job label, if there is one, records the time of the push whatever becomes of the families,
but a payload that cannot be read changes nothing.
-/

namespace MetricGateway

/-- A family with the labels of a push added to its metrics. -/
def Family.canonical (f : Family) (injected : List Label) (ignored : IgnoredNames) : Family :=
  { f with metrics := f.metrics.map fun m => { m with labels := m.labels.canonical injected ignored } }

/-- Why a push failed. -/
inductive IngestError
  /-- The payload cannot be read. -/
  | parse (fault : ParseFault)
  /-- Some families were refused; the others were committed. -/
  | rejected (errors : List FamilyError)
  deriving DecidableEq

/-- The wording of an error. -/
def IngestError.message : IngestError → String
  | parse fault => fault.message
  | rejected errors => "; ".intercalate (errors.map FamilyError.message)

/-- The value of the last label of a name. -/
def lastValue? (name : String) (ls : List Label) : Option String := (ls.reverse.find? (·.name = name)).map Label.value

namespace Store

/-- A family as it is to be stored: with canonical labels, checked, and with its metrics in order. -/
def prepare (s : Store) (injected : List Label) (f : Family) : Except FamilyError Family := do
  let f := f.canonical injected s.options.ignored
  f.checkReserved
  f.checkSeries
  return f.sortMetrics

/-- The rules of a family that is stored for the first time. -/
def policyFor (s : Store) (f : Family) : AggregationPolicy :=
  ⟨.ofHelp f.help s.options.gaugeRule, s.options.untypedRule⟩

/-- Merges a prepared family into the stored one of its name, or stores it. A family without metrics changes nothing. -/
def commit (s : Store) (f : Family) : Except FamilyError Store :=
  if f.metrics.isEmpty then .ok s
  else
    match s.families.get? f.name with
    | none => .ok { s with families := s.families.insert f.name ⟨f, s.policyFor f⟩ }
    | some stored => do
      let merged ← stored.family.merge stored.policy f
      return { s with families := s.families.insert f.name { stored with family := merged } }

/-- Pushes one family. -/
def ingestFamily (s : Store) (injected : List Label) (f : Family) : Except FamilyError Store := do
  s.commit (← s.prepare injected f)

/-- Pushes families one after the other and collects the errors. -/
def ingestEach (s : Store) (injected : List Label) : List Family → Store × List FamilyError
  | [] => (s, [])
  | f :: r =>
    match s.ingestFamily injected f with
    | .ok s => ingestEach s injected r
    | .error e =>
      let (s, errors) := ingestEach s injected r
      (s, e :: errors)

/-- Records a push at the given time, if its labels name a job. -/
def recordPush (s : Store) (now : Instant) (injected : List Label) : Store :=
  match lastValue? s.options.jobLabel injected with
  | none => s
  | some job => { s with pushJobs := s.pushJobs.insert job now }

/-- Pushes families: the store afterwards, and the number of families committed or the errors of those that failed. -/
def ingestFamilies (s : Store) (now : Instant) (injected : List Label) (fs : List Family) :
    Store × Except IngestError Nat :=
  let (s, errors) := (s.recordPush now injected).ingestEach injected fs
  (s, if errors = [] then .ok fs.length else .error (.rejected errors))

/-- Pushes a payload. -/
def ingest (s : Store) (now : Instant) (injected : List Label) (format : ExpositionFormat) (payload : List UInt8) :
    Store × Except IngestError Nat :=
  match format.read payload with
  | .error fault => (s, .error (.parse fault))
  | .ok fs => s.ingestFamilies now injected fs

end Store
end MetricGateway
