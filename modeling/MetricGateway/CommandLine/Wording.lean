import MetricGateway.CommandLine.Reader
import MetricGateway.SocketAddress.Printer

/-!
# What the command line says

The texts that the program prints instead of running: help, version, and what is wrong with the arguments.
-/

namespace MetricGateway.CommandLine

/-- The name of the program. -/
def programName : String := "prom-aggregation-gateway"

/-- The value of an option as it is given. -/
def Settings.value (s : Settings) : Flag → String
  | .apiListen => s.apiListen.text
  | .lifecycleListen => s.lifecycleListen.text
  | .cors => s.cors
  | .authUsers => ",".intercalate s.authUsers
  | .ignoredLabels => ",".intercalate s.ignoredLabels
  | .metricTtl => (s.metricTtl.map fun n => toString n.toNat).getD ""
  | .sweepInterval => toString s.sweepInterval.toNat
  | .gaugeAggregation => s.gaugeRule.name
  | .untypedAggregation => s.untypedRule.name
  | .jobLabel => s.jobLabel

/-- The help on one option. -/
def Flag.help (f : Flag) : String :=
  let default := ({} : Settings).value f
  s!"  --{f.name} <VALUE>  {f.purpose} [env: {f.environmentName}]" ++
    (if default = "" then "\n" else s!" [default: {default}]\n")

/-- The help on the program. -/
def helpText : String :=
  s!"Prometheus aggregation gateway\n\nUsage: {programName} [OPTIONS]\n\nOptions:\n" ++
    String.join (Flag.all.map Flag.help) ++ "  -h, --help  Print help\n  -V, --version  Print version\n"

/-- What is printed when there are no settings. -/
def Stop.message : Stop → String
  | help => helpText
  | version => s!"{programName} 0.1.0\n"
  | unknownArgument argument => s!"error: unexpected argument '{argument}' found\n"
  | unexpectedValue argument => s!"error: unexpected value in '{argument}'\n"
  | missingValue f => s!"error: a value is required for '--{f.name}' but none was supplied\n"
  | repeated f => s!"error: the argument '--{f.name}' cannot be used multiple times\n"
  | invalidValue f value => s!"error: invalid value '{value}' for '--{f.name}'\n"

/-- Whether the request was answered, rather than at fault. -/
def Stop.isAnswer : Stop → Bool
  | help | version => true
  | _ => false

end MetricGateway.CommandLine
