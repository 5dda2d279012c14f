import Telemetry.Directory.Export
import Telemetry.Scrape.MediaType

/-!
# The scrape endpoint

`ScrapeEndpoint.answer` turns a request for metrics into a response, for any server (specification,
6.3). The method is checked first, then what the client accepts, then whether anything is exported,
then the path and at last the parameters `scope` and `name`; of a repeated parameter the first value
counts.
-/

namespace Telemetry

structure ScrapeRequest where
  method : String := "GET"
  path : String
  /-- The `Accept` values. -/
  accept : List String := []
  params : List (String × String) := []
deriving DecidableEq

structure ScrapeResponse where
  status : Nat
  body : String
  headers : List (String × String)
deriving DecidableEq

namespace ScrapeRequest

/-- The first value of a parameter. -/
def param? (r : ScrapeRequest) (key : String) : Option String :=
  (r.params.find? fun p => p.1 == key).map Prod.snd

end ScrapeRequest

namespace ScrapeResponse

/-- A response without headers. -/
def plain (status : Nat) (body : String) : ScrapeResponse := ⟨status, body, []⟩

/-- Headers that let pages of any origin read the answer. -/
def corsHeaders : List (String × String) :=
  [("Access-Control-Allow-Origin", "*"),
   ("Access-Control-Allow-Headers", "origin, content-type, accept, authorization"),
   ("Access-Control-Allow-Credentials", "true"),
   ("Access-Control-Allow-Methods", "GET, POST, PUT, DELETE, OPTIONS, HEAD")]

/-- The exposition text. -/
def ok (body : String) : ScrapeResponse :=
  ⟨200, body,
    [("Content-Type", exposition.contentType), ("Access-Control-Max-Age", "1209600")] ++
    corsHeaders⟩

/-- The same name but for the case of ASCII letters. -/
def sameName (a b : String) : Bool := a.toList.map Char.toLower == b.toList.map Char.toLower

/-- The value of a header, named in any case. -/
def header? (r : ScrapeResponse) (name : String) : Option String :=
  (r.headers.find? fun h => sameName h.1 name).map Prod.snd

/-- The response to an export that failed. -/
def ofError : MetricsError → ScrapeResponse
  | .scopeNotFound scope => plain 404 s!"Scope {scope} not found"
  | .scopeEmpty scope => plain 204 s!"No data in scope {scope}"
  | .metricNotFound scope name => plain 404 s!"Metric {name} not found in scope {scope}"
  | other => plain 500 (other.message.getD "")

end ScrapeResponse

/-- The path the endpoint answers at. -/
structure ScrapeEndpoint where
  contextRoot : String := "/metrics"
deriving DecidableEq

namespace ScrapeEndpoint

/-- What the parameters ask for. -/
def wanted (scope name : Option String) : ExportRequest :=
  match scope, name with
  | none, none => .everything
  | some scope, none => .scope scope
  | some scope, some name => .metric scope name
  | none, some name => .acrossScopes name

/-- The answer to what the parameters ask for. -/
def answerParams (d : Directory) (scope name : Option String) : ScrapeResponse :=
  match scope.filter fun scope => !d.scopeExists scope with
  | some scope => .plain 404 s!"Scope {scope} not found"
  | none =>
    match d.answerExport (wanted scope name), scope, name with
    | .ok "", none, some name => .plain 404 s!"Metric {name} not found in any scope"
    | .ok body, _, _ => .ok body
    | .error e, _, _ => .ofError e

/-- The answer to a request. -/
def answer (e : ScrapeEndpoint) (d : Directory) (r : ScrapeRequest) : ScrapeResponse :=
  if r.method ≠ "GET" then .plain 405 "Only GET method is accepted."
  else if (bestMediaType r.accept).isNone then
    .plain 406 "Couldn't determine a suitable media type for the given Accept header."
  else
    match d.settings.requireExport with
    | .error _ => .plain 501 "The /metrics endpoint is not supported."
    | .ok _ =>
      match Text.after? e.contextRoot.toList r.path.toList with
      | none =>
        let root := e.contextRoot
        .plain 500
          (s!"The expected context root of metrics is {root}, but a request with a different " ++
            "path was routed to MetricsRequestHandler")
      | some rest =>
        if rest = [] ∨ rest = ['/'] then answerParams d (r.param? "scope") (r.param? "name")
        else .plain 404
          ("The expected requests are /metrics, /metric?scope=<scope>, /metric?name=<name> or " ++
            "/metrics?scope=<scope>&name=<name>")

end ScrapeEndpoint

end Telemetry
