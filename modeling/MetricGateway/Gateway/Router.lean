import MetricGateway.Gateway.Basic
import MetricGateway.Store.Render

/-!
# Routes of the gateway

Pushes and scrapes arrive at the *api* router: `GET /metrics` renders the store, and `POST` or `PUT` to `/metrics`, or
to a path below it, pushes a payload. Rendering needs no credentials. The *lifecycle* router has the health checks and
the gateway's own metrics. `HEAD` is answered like `GET`, without a body.
-/

namespace MetricGateway

/-! ## Answers -/

namespace Answer

/-- A text with its content type. -/
def ofText (status : Nat) (contentType : String) (body : String) : Answer :=
  ⟨status, [("content-type", contentType)], Utf8.bytesOf body⟩

/-- The answer to a push that is refused. -/
def refused : Refusal → Answer
  | .unauthorized => ⟨401, [("www-authenticate", "Basic realm=\"Authorization Required\"")], []⟩
  | r => ofText 400 "text/plain; charset=utf-8" (r.message ++ "\n")

/-- The answer to an accepted push. -/
def accepted : Answer := ⟨202, [], []⟩

/-- The answer on a path that does not exist. -/
def notFound : Answer := ⟨404, [], []⟩

/-- The answer to a method that a path does not have. -/
def notAllowed (methods : String) : Answer := ⟨405, [("allow", methods)], []⟩

end Answer

namespace Gateway

/-- The answer to a push. -/
def pushAnswer (g : Gateway) (now : Instant) (labelPath : List Char) (r : Request) : Gateway × Answer :=
  match g.push now labelPath r with
  | (g, none) => (g, .accepted)
  | (g, some refusal) => (g, .refused refusal)

/-- Renders the store in the format that a request asks for. -/
def renderAnswer (g : Gateway) (r : Request) : Answer :=
  let format := ExpositionFormat.negotiate (r.textHeader? "accept")
  ⟨200, [("content-type", format.contentType)], g.store.render format⟩

/-! ## The api router -/

/-- The part of a path behind `/metrics/`, if it is such a path; the empty part stands for `/metrics` alone. -/
def apiPath? (path : List Char) : Option (List Char) :=
  match "/metrics".toList.isPrefixOf? path with
  | some [] => some []
  | some ('/' :: c :: r) => some (c :: r)
  | _ => none

/-- Routes a request on a path of the api. -/
def routeApi (g : Gateway) (now : Instant) (labelPath : List Char) (r : Request) : Gateway × Answer :=
  let methods := if labelPath = [] then "GET,HEAD,POST,PUT" else "POST,PUT"
  if r.method = "POST" ∨ r.method = "PUT" then g.pushAnswer now labelPath r
  else if r.method = "OPTIONS" then (g, ⟨200, [("allow", methods)], []⟩)
  else if labelPath = [] ∧ r.method = "GET" then (g, g.renderAnswer r)
  else if labelPath = [] ∧ r.method = "HEAD" then (g, (g.renderAnswer r).withoutBody)
  else (g, .notAllowed methods)

/-- Whether a text can be the value of a header. -/
def isHeaderValue (s : String) : Bool := s.toList.all fun c => c == '\t' || (' ' ≤ c && c != '\x7f')

/-- Adds the headers by which browsers decide whether they may use an answer. -/
def withCors (g : Gateway) (r : Request) (a : Answer) : Answer :=
  let a := if isHeaderValue g.options.cors then a.withHeader "access-control-allow-origin" g.options.cors else a
  if r.method = "OPTIONS" then a.withHeader "access-control-allow-methods" "GET,POST,PUT" else a

/-- Answers a request to the api. -/
def api (g : Gateway) (now : Instant) (r : Request) : Gateway × Answer :=
  let (g, a) :=
    match apiPath? r.path with
    | some labelPath => g.routeApi now labelPath r
    | none => (g, if r.method = "OPTIONS" then ⟨200, [], []⟩ else .notFound)
  (g, g.withCors r a)

/-! ## The lifecycle router -/

/-- The answer to a health check. -/
def healthAnswer : Answer :=
  .ofText 200 "application/json"
    "\x7b\"name\":\"prom-aggregation-gateway\",\"alive\":true,\"version\":\"0.1.0\"\x7d"

/-- The answer to a request for the gateway's own metrics. -/
def metricsAnswer (g : Gateway) : Answer :=
  .ofText 200 "application/openmetrics-text; version=1.0.0; charset=utf-8" g.selfMetrics.text

/-- Shows a lifecycle page. That of the gateway's own metrics sets the gauges first. -/
def lifecyclePage? (g : Gateway) (path : String) : Option (Gateway × Answer) :=
  if path = "/healthy" ∨ path = "/ready" then some (g, healthAnswer)
  else if path = "/metrics" then some (g.observe, g.observe.metricsAnswer)
  else none

/-- Routes a lifecycle request. -/
def routeLifecycle (g : Gateway) (r : Request) : Gateway × Answer :=
  match g.lifecyclePage? (String.ofList r.path) with
  | none => (g, .notFound)
  | some (shown, page) =>
    if r.method = "GET" then (shown, page)
    else if r.method = "HEAD" then (shown, page.withoutBody)
    else (g, .notAllowed "GET,HEAD")

/-- The answer to a lifecycle request. -/
def lifecycle (g : Gateway) (r : Request) : Answer := (g.routeLifecycle r).2

end Gateway
end MetricGateway
