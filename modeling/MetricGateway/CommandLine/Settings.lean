import MetricGateway.CommandLine.Flag
import MetricGateway.Gateway.Basic
import MetricGateway.SocketAddress.Reader

/-!
# Settings of the gateway

The settings are what the options of the command line say. `Settings.assign?` reads the value of one option,
`Settings.gateway` is the gateway that starts with given settings.
-/

namespace MetricGateway.CommandLine

/-- A number of seconds. -/
abbrev Seconds := UInt64

/-- What the options say. -/
structure Settings where
  apiListen : SocketAddress := .anyAddress 80
  lifecycleListen : SocketAddress := .anyAddress 8888
  cors : String := "*"
  /-- Accounts, each as `user=password`. -/
  authUsers : List String := []
  ignoredLabels : List String := []
  /-- How long the metrics of a silent push job stay; none and zero stand for ever. -/
  metricTtl : Option Seconds := none
  /-- The time between two sweeps. -/
  sweepInterval : Seconds := 60
  gaugeRule : GaugeRule := .sum
  untypedRule : UntypedRule := .sum
  jobLabel : String := "job"
  deriving DecidableEq

/-- Reads a number of seconds: an optional plus, then digits. -/
def readSeconds? (text : String) : Option Seconds :=
  let digits :=
    match text.toList with
    | '+' :: r => r
    | r => r
  ((Text.natural? digits).filter (· < UInt64.size)).map UInt64.ofNat

/-- The items of a list, between its commas. -/
def listItems (text : String) : List String := (text.toList.splitOn ',').map String.ofList

namespace Settings

/-- Sets what an option says, unless it cannot have this value. Items of lists are added to those that are there. -/
def assign? (s : Settings) (f : Flag) (value : String) : Option Settings :=
  match f with
  | .apiListen => (SocketAddress.read? value.toList).map fun a => { s with apiListen := a }
  | .lifecycleListen => (SocketAddress.read? value.toList).map fun a => { s with lifecycleListen := a }
  | .cors => some { s with cors := value }
  | .authUsers => some { s with authUsers := s.authUsers ++ listItems value }
  | .ignoredLabels => some { s with ignoredLabels := s.ignoredLabels ++ listItems value }
  | .metricTtl => (readSeconds? value).map fun n => { s with metricTtl := some n }
  | .sweepInterval => ((readSeconds? value).filter (· ≠ 0)).map fun n => { s with sweepInterval := n }
  | .gaugeAggregation => (GaugeRule.ofName? value).map fun rule => { s with gaugeRule := rule }
  | .untypedAggregation => (UntypedRule.ofName? value).map fun rule => { s with untypedRule := rule }
  | .jobLabel => some { s with jobLabel := value }

/-- The time-to-live of metrics. -/
def ttl (s : Settings) : Option Seconds := s.metricTtl.filter (· ≠ 0)

/-- How the store treats pushes. -/
def storeOptions (s : Settings) : StoreOptions where
  ignored := .ofList s.ignoredLabels
  ttl := s.ttl.map fun n => 1000 * n.toNat
  gaugeRule := s.gaugeRule
  untypedRule := s.untypedRule
  jobLabel := s.jobLabel

/-- The accounts that may push. -/
def accounts (s : Settings) : Accounts := .ofEntries s.authUsers

/-- The gateway at its start. -/
def gateway (s : Settings) : Gateway where
  options := ⟨s.cors, s.accounts⟩
  store := { options := s.storeOptions }

end Settings
end MetricGateway.CommandLine
