import Std.Time.DateTime.Timestamp
import MetricGateway.CommandLine.Wording
import MetricGateway.Gateway.Router

/-!
# The program

Reads the command line and pushes the payload on standard input to the gateway that it describes, as a `POST` to
`/metrics`. Then it prints what a scrape shows, or why the push was refused.
-/

namespace MetricGateway.Program

/-- Reads a stream to its end. -/
partial def readAll (input : IO.FS.Stream) (read : ByteArray) : IO ByteArray := do
  let chunk ← input.read 65536
  if chunk.isEmpty then return read else readAll input (read ++ chunk)

/-- The environment of the options. -/
def environment : IO (List (String × Option String)) :=
  CommandLine.Flag.all.mapM fun f => return (f.environmentName, ← IO.getEnv f.environmentName)

/-- Pushes the payload on standard input and prints a scrape. -/
def aggregate (gateway : Gateway) : IO UInt32 := do
  let body ← readAll (← IO.getStdin) .empty
  let now : Instant := (← Std.Time.Timestamp.now).toMillisecondsSinceUnixEpoch.toInt
  let (gateway, push) := gateway.api now { method := "POST", uri := "/metrics", body := body.toList }
  if push.status = 202 then
    (← IO.getStdout).write ⟨(gateway.api now { uri := "/metrics" }).2.body.toArray⟩
    return 0
  (← IO.getStderr).write ⟨push.body.toArray⟩
  return 1

/-- Runs the program. -/
def run (arguments : List String) : IO UInt32 := do
  let given ← environment
  match CommandLine.read arguments fun name => (given.lookup name).join with
  | .ok settings => aggregate settings.gateway
  | .error stop =>
    if stop.isAnswer then
      (← IO.getStdout).putStr stop.message
      return 0
    (← IO.getStderr).putStr stop.message
    return 2

end MetricGateway.Program

/-- The program. -/
def main (arguments : List String) : IO UInt32 := MetricGateway.Program.run arguments
