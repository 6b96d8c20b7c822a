import MetricGateway.Gateway.Accounts
import MetricGateway.Gateway.Http
import MetricGateway.Gateway.PathLabels
import MetricGateway.Gateway.SelfMetrics
import MetricGateway.MediaRange
import MetricGateway.Store.Ingest
import MetricGateway.Store.Sweep

/-!
# The gateway

The gateway owns a store and counts the pushes it accepted. A push is checked in this order: credentials if there are
accounts, labels in the path, the job label if metrics expire, the payload. Only a push all of whose families were
committed is accepted and counted; one that is refused for another reason than its families changes nothing. Before the
gateway reports about itself, it sets its gauges from the store.
-/

namespace MetricGateway

/-- How the routers treat requests. -/
structure GatewayOptions where
  /-- The origin from which browsers may call the api, `*` for any. -/
  cors : String := "*"
  accounts : Accounts := .empty

/-- The state behind both routers. -/
structure Gateway where
  options : GatewayOptions
  store : Store
  /-- The number of accepted pushes of each job. -/
  pushes : Table Nat := .empty
  /-- The number of metrics that background sweeps removed. -/
  evicted : Nat := 0
  /-- The gauges, as they were last set. -/
  gauges : Gauges := {}

/-- Why a push is refused. -/
inductive Refusal
  | unauthorized
  /-- A name in the path without a value. -/
  | oddPath
  /-- No job although metrics expire. -/
  | missingJob (label : String)
  | failed (e : IngestError)
  deriving DecidableEq

/-- The wording of a refusal. -/
def Refusal.message : Refusal → String
  | unauthorized => ""
  | oddPath => "labels must be defined in pairs"
  | missingJob label => s!"the {Text.quoted label} label is required when a metric TTL is set"
  | failed e => e.message

namespace Gateway

/-- Whether a request may push. -/
def authorizes (g : Gateway) (r : Request) : Bool :=
  g.options.accounts.size == 0 ||
    ((r.header? "authorization").bind Credentials.ofHeader?).any (·.matchAccount g.options.accounts)

/-- Counts an accepted push. -/
def countPush (g : Gateway) (job : String) : Gateway :=
  { g with pushes := g.pushes.insert job ((g.pushes.get? job).getD 0 + 1) }

/-- Pushes a payload with the given labels. -/
def pushLabelled (g : Gateway) (now : Instant) (labels : List Label) (r : Request) : Gateway × Option Refusal :=
  let job := lastValue? g.store.options.jobLabel labels
  if g.store.options.ttl.isSome ∧ job = none then (g, some (.missingJob g.store.options.jobLabel))
  else
    match g.store.ingest now labels (.ofContentType (r.textHeader? "content-type")) r.body with
    | (store, .ok _) => ({ g with store }.countPush (job.getD ""), none)
    | (store, .error e) => ({ g with store }, some (.failed e))

/-- Pushes a payload with the labels of a path, of which the part behind `/metrics/` is given. A path that is not
UTF-8 has no labels. -/
def push (g : Gateway) (now : Instant) (labelPath : List Char) (r : Request) : Gateway × Option Refusal :=
  if g.authorizes r then
    match pathLabels? ((decodedPath? labelPath).getD []) with
    | none => (g, some .oddPath)
    | some labels => g.pushLabelled now labels r
  else (g, some .unauthorized)

/-- Sweeps the store and counts the metrics that were removed, unless there is no sweep at this time. -/
def sweep (g : Gateway) (now : Instant) : Option Gateway :=
  (g.store.sweep now).map fun (store, stats) => { g with store, evicted := g.evicted + stats.metrics }

/-- The gateway with other gauges. -/
def withGauges (g : Gateway) (gauges : Gauges) : Gateway := { g with gauges }

@[simp] theorem withGauges_gauges (g : Gateway) : g.withGauges g.gauges = g := rfl

/-- Sets the gauges from the store. -/
def observe (g : Gateway) : Gateway := g.withGauges (g.gauges.observe g.store)

/-- The report of the gateway about itself, with the gauges as they are. -/
def selfMetrics (g : Gateway) : SelfMetrics where
  totalFamilies := g.gauges.totalFamilies
  metricsByFamily := g.gauges.metricsByFamily.entries
  pushesByJob := g.pushes.entries
  evictedMetrics := g.evicted

end Gateway
end MetricGateway
