import Telemetry.Directory.Members
import Telemetry.Scrape.Endpoint

/-!
# Steps of a session

A session is a client's run against a directory. The client names the registries, metrics and cells
that it holds by handles of its own, so that a run is data: a list of `Step`s with an `Answer` each.
Durations that a clock would measure are part of the step.
-/

namespace Telemetry

/-- Tags as a client gives them, keys unchecked. -/
abbrev GivenTags := List (String × String)

/-- The registry a step is for. -/
inductive Target where
  /-- A registry held since an earlier step. -/
  | held (handle : String)
  /-- The registry of a scope, made if there is none. -/
  | scope (scope : String)
deriving DecidableEq

/-- What a registration asks for. -/
inductive Wanted where
  | counter
  | histogram
  | timer
  /-- A gauge that samples a new cell, which the client may name. -/
  | gauge (value : Real64) (cell : Option String)
deriving DecidableEq

/-- Steps on a registry. -/
inductive RegistryStep where
  | inspect (hold : Option String)
  | register (wanted : Wanted) (metadata : Metadata) (tags : GivenTags) (hold : Option String)
  | get (name : String) (tags : GivenTags) (kind : Option MetricKind) (hold : Option String)
  | list
  | metadata (name : String)
  | remove (name : String) (tags : GivenTags)
  | removeByName (name : String)
  /-- Remove the metrics whose names start so, those of a kind or all. -/
  | removeMatching (start : String) (kind : Option MetricKind)
  | exportText (name : Option String)
  | resolveTags (name : String) (tags : GivenTags)
  | mapped (member : Member)
  /-- So many clients register the counter and increment it `times` times each. -/
  | crowd (name : String) (clients times : Nat)
deriving DecidableEq

/-- Steps on a held metric. -/
inductive MetricStep where
  | increment (n : UInt64)
  /-- Record values in a histogram, or durations in a timer. -/
  | update (values : List Int) (durations : List Duration)
  /-- Time some work, which may fail. -/
  | time (fails : Bool) (elapsed : Duration)
  /-- Start timing and stop it. -/
  | context (elapsed : Duration)
  /-- Start timing and let go of it. -/
  | expire (elapsed : Duration)
  | read
  | count
  /-- Set a named cell and read the gauge. -/
  | setCell (cell : String) (value : Real64)
  /-- Is it the same adapter? -/
  | same (other : String)
deriving DecidableEq

inductive Step where
  | scopeExists (scope : String)
  | scopes
  | dropScope (scope : String)
  | dropAll
  | lookup (scope : String)
  /-- The registries of the three well-known scopes. -/
  | wellKnown
  | exportAll
  | exportText (request : ExportRequest)
  | registerMember (member : Member) (annotations : List MetricAnnotation)
  /-- Intercept work that may fail. -/
  | intercept (kind : AnnotationKind) (scope : String) (member : Member) (fails : Bool)
      (elapsed : Duration)
  /-- Send a request to an endpoint and look up headers of the response. -/
  | scrape (endpoint : ScrapeEndpoint) (request : ScrapeRequest) (headers : List String)
  | onRegistry (target : Target) (step : RegistryStep)
  | onMetric (handle : String) (step : MetricStep)
deriving DecidableEq

/-- A metric as it is listed. -/
structure Summary where
  kind : MetricKind
  id : MetricId
  count : Option Nat
deriving DecidableEq

/-- What a metric reads. -/
inductive Reading where
  | counter (id : MetricId) (count : Nat)
  | gauge (id : MetricId) (value : Real64)
  | histogram (id : MetricId) (sum : Nat) (snapshot : Snapshot)
  | timer (id : MetricId) (elapsed : Nat) (snapshot : Snapshot)
deriving DecidableEq

/-- What a registry lists. -/
structure Listing where
  metrics : List Summary
  counters : List MetricId
  gauges : List MetricId
  histograms : List MetricId
  timers : List MetricId
  ids : List MetricId
  names : List String
  size : Nat
  meters : Nat
deriving DecidableEq

inductive Answer where
  /-- The handle names nothing, or a metric of a kind that the step does not suit. -/
  | noHandle
  | failed (error : MetricsError)
  /-- The interception was refused, and the work not done. -/
  | notRun (error : MetricsError)
  | ran (failed : Bool)
  | none
  | flag (value : Bool)
  | number (value : Nat)
  | value (value : Real64)
  | text (text : String)
  | texts (texts : List String)
  | exposition (body contentType : String)
  | scopeSize (scope : String) (size : Nat)
  | registry (scope : String) (size meters : Nat) (empty dropped : Bool)
  | summary (summary : Summary)
  | listing (listing : Listing)
  | metadata (metadata : Option Metadata) (kind : Option MetricKind)
  | resolved (app : MetricId) (scope : Tags)
  | mapped (counters timers : Option (List MetricId))
  | crowd (failed : Nat) (count : Option Nat) (meters : Nat)
  | updated (count sum : Nat)
  | elapsed (count nanos : Nat)
  | timed (failed : Bool) (count : Nat)
  | stopped (before after : Nat)
  | reading (reading : Reading)
  | ids (ids : List MetricId)
  | response (response : ScrapeResponse) (lookup : List (Option String))
deriving DecidableEq

end Telemetry
