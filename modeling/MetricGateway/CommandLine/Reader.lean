import MetricGateway.CommandLine.Settings

/-!
# Reading the command line

Arguments are read from left to right. An option takes its value from behind an equals sign or from the next argument,
unless that starts with a dash; a value that is an argument of its own is checked only when the next known option, or
the end, is met. An option that is no list may be given once. Then the environment says what the options do not, in
the order of `Flag.all`. The first problem counts, and `--help` and `--version` count as one.
-/

namespace MetricGateway.CommandLine

/-- Why there are no settings. -/
inductive Stop
  | help
  | version
  | unknownArgument (argument : String)
  | unexpectedValue (argument : String)
  | missingValue (f : Flag)
  | repeated (f : Flag)
  | invalidValue (f : Flag) (value : String)
  deriving DecidableEq

/-- How far the command line is read. -/
structure Progress where
  settings : Settings := {}
  /-- The options whose values are set. -/
  given : List Flag := []
  /-- The option whose value is yet to be checked, or to come. -/
  pending : Option (Flag × Option String) := none
  /-- Whether two lone dashes have ended the options. -/
  ended : Bool := false

namespace Progress

/-- Sets the value of an option. -/
def assign (p : Progress) (f : Flag) (value : String) : Except Stop Progress :=
  if f ∈ p.given ∧ ¬f.isList then .error (.repeated f)
  else
    match p.settings.assign? f value with
    | none => .error (.invalidValue f value)
    | some settings => .ok { p with settings, given := f :: p.given }

/-- Sets the value of the pending option, if there is one. -/
def resolve (p : Progress) : Except Stop Progress :=
  match p.pending with
  | none => .ok p
  | some (f, none) => .error (.missingValue f)
  | some (f, some value) => { p with pending := none }.assign f value

/-- Stops at a request, unless the pending option is at fault. -/
def stopAt (p : Progress) (request : Stop) : Except Stop Progress := do
  let _ ← p.resolve
  .error request

/-- Reads a known option. -/
def readFlag (p : Progress) (f : Flag) (value : Option (List Char)) : Except Stop Progress := do
  let p ← p.resolve
  match value with
  | none => return { p with pending := some (f, none) }
  | some value => p.assign f (.ofList value)

/-- Reads an argument that starts with two dashes, of which the name and the value are given. -/
def readLong (p : Progress) (argument : String) (name : List Char) (value : Option (List Char)) :
    Except Stop Progress :=
  match Flag.ofName? name with
  | some f => p.readFlag f value
  | none =>
    let request :=
      if name = "help".toList then some Stop.help else if name = "version".toList then some Stop.version else none
    match request, value with
    | none, _ => .error (.unknownArgument argument)
    | some _, some _ => .error (.unexpectedValue argument)
    | some request, none => p.stopAt request

/-- Reads an argument that starts with one dash and the given letter. -/
def readShort (p : Progress) (argument : String) (letter : Char) : Except Stop Progress :=
  if letter = 'h' then p.stopAt .help
  else if letter = 'V' then p.stopAt .version
  else .error (.unknownArgument argument)

/-- Reads an argument without a dash, which is a value. -/
def readValue (p : Progress) (argument : String) : Except Stop Progress :=
  match p.pending with
  | some (f, none) => .ok { p with pending := some (f, some argument) }
  | _ => .error (.unknownArgument argument)

/-- Reads an argument. -/
def read (p : Progress) (argument : String) : Except Stop Progress :=
  if p.ended then .error (.unknownArgument argument)
  else
    match argument.toList with
    | ['-', '-'] => .ok { p with ended := true }
    | '-' :: '-' :: text =>
      match Text.cutAt (· == '=') text with
      | none => p.readLong argument text none
      | some (name, value) => p.readLong argument name (some value)
    | '-' :: letter :: _ => p.readShort argument letter
    | _ => p.readValue argument

/-- Sets an option from the environment, unless it is given. -/
def readVariable (environment : String → Option String) (p : Progress) (f : Flag) : Except Stop Progress :=
  if f ∈ p.given then .ok p
  else
    match environment f.environmentName with
    | none => .ok p
    | some value => p.assign f value

end Progress

/-- The settings that the arguments and the environment ask for. -/
def read (arguments : List String) (environment : String → Option String) : Except Stop Settings := do
  let p ← arguments.foldlM Progress.read {}
  let p ← p.resolve
  return (← Flag.all.foldlM (Progress.readVariable environment) p).settings

end MetricGateway.CommandLine
