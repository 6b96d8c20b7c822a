import MetricGateway.Text.Blank

/-!
# Requests and answers

The parts of an HTTP request that the gateway looks at, and the parts of its answers. Header names are given in lower
case.

A request names its target by a path (`/metrics?q`) or by an absolute URI, which has a scheme and an authority in
front of it; in both, `path` ends before the query. The other two forms, a bare authority (`host:80`) and `*`, have no
path.
-/

namespace MetricGateway

/-- A request. -/
structure Request where
  method : String := "GET"
  /-- The target as the client wrote it. -/
  uri : String
  headers : List (String × String) := []
  body : List UInt8 := []

/-- An answer. -/
structure Answer where
  status : Nat
  headers : List (String × String) := []
  body : List UInt8 := []

/-- A character of a header that can be read as text. -/
def isHeaderTextChar (c : Char) : Bool := c == '\t' || (' ' ≤ c && c ≤ '~')

namespace Request

/-- The path at the start of a text, up to the `?` or `#` where the query or the fragment starts. -/
def pathOf (target : List Char) : List Char := target.takeWhile fun c => c != '?' && c != '#'

/-- What follows the authority of an absolute URI. -/
def behindAuthority? (uri : List Char) : Option (List Char) :=
  match Text.cutAt (· == ':') uri with
  | some (_, '/' :: '/' :: r) => some (r.dropWhile fun c => c != '/' && c != '?' && c != '#')
  | _ => none

/-- The path of a target; an absolute URI without one has the path `/`. -/
def path (r : Request) : List Char :=
  match r.uri.toList with
  | '/' :: target => '/' :: pathOf target
  | uri =>
    match (behindAuthority? uri).map pathOf with
    | some (c :: p) => c :: p
    | some [] => ['/']
    | none => []

/-- The first header of a name. -/
def header? (r : Request) (name : String) : Option String := r.headers.lookup name

/-- The first header of a name, if it can be read as text. -/
def textHeader? (r : Request) (name : String) : Option String :=
  (r.header? name).filter fun v => v.toList.all isHeaderTextChar

end Request

namespace Answer

/-- Adds a header. -/
def withHeader (a : Answer) (name value : String) : Answer := { a with headers := a.headers ++ [(name, value)] }

/-- An answer without a body. -/
def withoutBody (a : Answer) : Answer := { a with body := [] }

end Answer
end MetricGateway
