/-!
# Options of the command line

Each option is named behind two dashes and has a value. Without it, the variable of the environment that is spelled
like the option counts, in upper case, with underscores, and behind `PAG_`.
-/

namespace MetricGateway.CommandLine

/-- An option. -/
inductive Flag
  | apiListen
  | lifecycleListen
  | cors
  | authUsers
  | ignoredLabels
  | metricTtl
  | sweepInterval
  | gaugeAggregation
  | untypedAggregation
  | jobLabel
  deriving DecidableEq

namespace Flag

/-- Every option. -/
def all : List Flag :=
  [apiListen, lifecycleListen, cors, authUsers, ignoredLabels, metricTtl, sweepInterval, gaugeAggregation,
   untypedAggregation, jobLabel]

/-- The name of an option, without the dashes. -/
def name : Flag → String
  | apiListen => "api-listen"
  | lifecycleListen => "lifecycle-listen"
  | cors => "cors"
  | authUsers => "auth-users"
  | ignoredLabels => "ignored-labels"
  | metricTtl => "metric-ttl"
  | sweepInterval => "sweep-interval"
  | gaugeAggregation => "gauge-aggregation"
  | untypedAggregation => "untyped-aggregation"
  | jobLabel => "job-label"

/-- What an option is for. -/
def purpose : Flag → String
  | apiListen => "Listen for API requests on this address"
  | lifecycleListen => "Listen for lifecycle requests (health, metrics) on this address"
  | cors => "The 'Access-Control-Allow-Origin' value to be returned"
  | authUsers => "Allowed auth users and their passwords, e.g. \"user1=pass1,user2=pass2\""
  | ignoredLabels => "Label names stripped from every pushed metric (case-insensitive)"
  | metricTtl => "Evict metrics of push jobs silent for this many seconds; 0 disables"
  | sweepInterval => "Seconds between two staleness sweeps"
  | gaugeAggregation => "Default gauge aggregation: sum, max, min, last, first or avg"
  | untypedAggregation => "Untyped aggregation: sum or avg"
  | jobLabel => "Path label naming the push job"

/-- The variable of the environment that counts if an option is not given. -/
def environmentName (f : Flag) : String :=
  "PAG_" ++ String.ofList (f.name.toList.map fun c => if c = '-' then '_' else c.toUpper)

/-- Whether the value of an option is a list. Such an option may be given several times. -/
def isList (f : Flag) : Bool := f = authUsers || f = ignoredLabels

/-- The option of a name. -/
def ofName? (name : List Char) : Option Flag := all.find? (·.name.toList = name)

end Flag
end MetricGateway.CommandLine
