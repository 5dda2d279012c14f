import Telemetry.Member.Basic
import Telemetry.Settings
import Telemetry.Store.Adapter

/-!
# A registry's own record

A registry keeps the metrics of one scope by id, and by name the metadata and the kind that all
metrics of the name share (specification, 4.2). The tag that names the scope is the registry's own:
it is taken off the ids it stores (`metricId`, `normalize`) and put on those of its meters
(`meterId`). The application tag is laid over what a caller gives.
-/

namespace Telemetry

structure Registry where
  scope : String
  /-- Its scope store. -/
  store : ScopeRef
  metrics : SortedMap MetricId Adapter
  names : SortedMap String NameEntry
  mappings : MemberMappings
  /-- Whether the platform metrics were bound. -/
  platformBound : Bool
  /-- A dropped registry takes no registrations. -/
  dropped : Bool
deriving DecidableEq

/-- The id with the application tag, if there is an application. -/
def RegistrySettings.withAppTag (s : RegistrySettings) (id : MetricId) : MetricId :=
  match s.appName with
  | some app => { id with tags := id.tags.insert appKey app }
  | none => id

namespace Registry

/-- A registry without metrics. -/
def new (scope : String) (store : ScopeRef) : Registry := ⟨scope, store, ∅, ∅, ∅, false, false⟩

/-- The id under which a registration is stored. A tag for another scope is refused. -/
def metricId (r : Registry) (settings : RegistrySettings) (name : String) (tags : List Tag) :
    Outcome MetricId :=
  let tags := Tags.ofList tags
  match tags.get? scopeKey with
  | some value =>
    if value = r.scope then .ok (settings.withAppTag ⟨name, tags.erase scopeKey⟩)
    else .error (.reservedTag value r.scope)
  | none => .ok (settings.withAppTag ⟨name, tags⟩)

/-- The id under which a caller's id is looked up. -/
def normalize (r : Registry) (settings : RegistrySettings) (id : MetricId) : MetricId :=
  settings.withAppTag
    (if id.tags.get? scopeKey = some r.scope then { id with tags := id.tags.erase scopeKey }
     else id)

/-- Tags with the registry's scope on top. -/
def withScopeTag (r : Registry) (tags : Tags) : Tags := tags.insert scopeKey r.scope

/-- The id of the meter behind a stored id. -/
def meterId (r : Registry) (id : MetricId) : MetricId := { id with tags := r.withScopeTag id.tags }

/-- Whether a metric of the name is registered. -/
def hasName (r : Registry) (name : String) : Bool := r.metrics.keys.any fun id => id.name == name

/-- The registry without what it knows of a name, unless a metric of the name remains. -/
def forgetUnused (r : Registry) (name : String) : Registry :=
  if r.hasName name then r else { r with names := r.names.erase name }

/-- The metrics of a kind, by id. -/
def ofKind (r : Registry) (kind : MetricKind) : List Adapter :=
  r.metrics.values.filter fun a => a.kind = kind

/-- The names of the metrics, ascending. -/
def metricNames (r : Registry) : List String :=
  (SortedMap.ofList (r.metrics.keys.map fun id => (id.name, ()))).keys

/-- The metadata of a name. -/
def metadata? (r : Registry) (name : String) : Option Metadata :=
  (r.names.get? name).map (·.metadata)

/-- The kind a name is bound to. -/
def kindOf? (r : Registry) (name : String) : Option MetricKind :=
  (r.names.get? name).map (·.kind)

end Registry

end Telemetry
