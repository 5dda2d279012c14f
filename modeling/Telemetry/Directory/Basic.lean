import Telemetry.Member.Annotation
import Telemetry.Platform
import Telemetry.Registry

/-!
# The directory of registries

A `Directory` has one registry per existing scope, all over one meter store (specification, 4.2 and
4.4). Registries are known by number, so that a caller can still hold one whose scope was dropped:
it is empty and takes no registrations, and a scope of that name made later has a registry of its
own.

`Directory.register` is the get-or-create of metrics. It fails, in this order, for an empty name, a
tag of another scope, a dropped registry, a name bound to another kind, and a distribution that
cannot be laid out.
-/

namespace Telemetry

/-- The number of a registry. -/
abbrev RegistryRef := Nat

structure Directory where
  settings : RegistrySettings
  gates : VisibilityGate
  store : MeterStore
  /-- Every registry ever made, by number. -/
  registries : List Registry
  /-- The registries of the existing scopes. -/
  scopes : SortedMap String RegistryRef
  /-- How many adapters were made. -/
  adapters : Nat
deriving DecidableEq

namespace Directory

/-- A directory without scopes. -/
def new (settings : RegistrySettings) (platform : PlatformReadings) : Directory :=
  ⟨settings, .new 0, .new platform, [], ∅, 0⟩

/-- A directory set up from a configuration. -/
def ofConfig (c : Config) (platform : PlatformReadings) : Outcome Directory :=
  (RegistrySettings.ofConfig c).map fun settings => new settings platform

def registry? (d : Directory) (r : RegistryRef) : Option Registry := d.registries[r]?

/-- Change one registry. -/
def modifyRegistry (d : Directory) (r : RegistryRef) (f : Registry → Registry) : Directory :=
  { d with registries := d.registries.modify r f }

/-- Whether a scope exists. -/
def scopeExists (d : Directory) (scope : String) : Bool := d.scopes.contains scope

/-- The existing scopes, ascending. -/
def scopeNames (d : Directory) : List String := d.scopes.keys

/-- The registry of an existing scope. -/
def lookup? (d : Directory) (scope : String) : Option RegistryRef := d.scopes.get? scope

/-! ## Registration -/

/-- Lay metadata over what the scope knows of the name, which it comes to know now if it is new.
When that changes it, the meters of the name are refreshed. The answer is what holds for the
name. -/
def bindMetadata (d : Directory) (r : RegistryRef) (metadata : Metadata) (kind : MetricKind) :
    Outcome Metadata × Directory :=
  match d.registry? r with
  | none => (.ok metadata, d)
  | some registry =>
    match registry.names.get? metadata.name with
    | none =>
      (.ok metadata, d.modifyRegistry r fun registry =>
        { registry with names := registry.names.insert metadata.name ⟨metadata, kind⟩ })
    | some entry =>
      if entry.kind ≠ kind then (.error (.kindConflict metadata.name entry.kind kind), d)
      else
        let refined := entry.metadata.refine metadata
        if refined = entry.metadata then (.ok refined, d)
        else
          let d := d.modifyRegistry r fun registry =>
            { registry with names := registry.names.insert metadata.name ⟨refined, kind⟩ }
          (.ok refined, { d with store := d.store.refreshMetadata registry.store refined })

/-- Register a meter in the registry's scope, under a grant that is closed again at once, and
capture it. -/
def registerMeter (d : Directory) (registry : Registry) (id : MetricId) (spec : MeterSpec)
    (metadata : Metadata) : Outcome Adapter × Directory :=
  let meterId := registry.meterId id
  let (gate, gates) := d.gates.scopeGate registry.scope
  let (grant, gates) := gates.openGrant gate
  let (answer, store) := d.store.register meterId spec metadata grant
  let d := { d with gates := gates.release grant, store }
  match answer with
  | .error e => (.error e, d)
  | .ok composite =>
    (.ok ⟨d.adapters, id, spec.form, composite, d.store.find? registry.store meterId⟩,
      { d with adapters := d.adapters + 1 })

/-- The metric of an identity, made on first use. A number that no registry has is treated as that
of a dropped one. -/
def register (d : Directory) (r : RegistryRef) (metadata : Metadata) (tags : List Tag)
    (spec : MeterSpec) : Outcome Adapter × Directory :=
  match d.registry? r with
  | none => (.error (.scopeDropped ""), d)
  | some registry =>
    if metadata.name = "" then (.error .emptyName, d)
    else
      match registry.metricId d.settings metadata.name tags with
      | .error e => (.error e, d)
      | .ok id =>
        match registry.metrics.get? id with
        | some existing =>
          if existing.kind ≠ spec.kind then
            (.error (.kindConflict existing.id.name existing.kind spec.kind), d)
          else
            match d.bindMetadata r metadata spec.kind with
            | (.error e, d) => (.error e, d)
            | (.ok _, d) => (.ok existing, d)
        | none =>
          if registry.dropped then (.error (.scopeDropped registry.scope), d)
          else
            match d.bindMetadata r metadata spec.kind with
            | (.error e, d) => (.error e, d)
            | (.ok effective, d) =>
              match d.registerMeter registry id spec effective with
              | (.error e, d) =>
                (.error e, d.modifyRegistry r fun registry => registry.forgetUnused id.name)
              | (.ok adapter, d) =>
                (.ok adapter, d.modifyRegistry r fun registry =>
                  { registry with metrics := registry.metrics.insert id adapter })

def counter (d : Directory) (r : RegistryRef) (metadata : Metadata) (tags : List Tag) :
    Outcome Adapter × Directory :=
  d.register r metadata tags .counter

/-- Register a gauge. An existing one keeps its own sampler. -/
def gauge (d : Directory) (r : RegistryRef) (metadata : Metadata) (tags : List Tag)
    (sampler : Sampler) : Outcome Adapter × Directory :=
  d.register r metadata tags (.gauge sampler)

def histogram (d : Directory) (r : RegistryRef) (metadata : Metadata) (tags : List Tag) :
    Outcome Adapter × Directory :=
  d.register r metadata tags (.histogram (d.settings.distribution.histogram metadata.name))

def timer (d : Directory) (r : RegistryRef) (metadata : Metadata) (tags : List Tag) :
    Outcome Adapter × Directory :=
  d.register r metadata tags (.timer (d.settings.distribution.timer metadata.name))

/-! ## Scopes -/

/-- Register gauge after gauge; a refusal ends it. -/
def registerGauges (r : RegistryRef) : List (Metadata × PlatformFigure) → Directory → Directory
  | [], d => d
  | (metadata, figure) :: rest, d =>
    match d.gauge r metadata [] (.platform figure) with
    | (.error _, d) => d
    | (.ok _, d) => registerGauges r rest d

/-- Bind the platform metrics, once per registry. -/
def bindPlatform (d : Directory) (r : RegistryRef) : Directory :=
  match d.registry? r with
  | none => d
  | some registry =>
    if registry.platformBound then d
    else registerGauges r platformGauges
      (d.modifyRegistry r fun registry => { registry with platformBound := true })

/-- The registry of a scope, made if there is none. -/
def openScope (d : Directory) (scope : String) : RegistryRef × Directory :=
  match d.lookup? scope with
  | some r => (r, d)
  | none =>
    let (gate, gates) := d.gates.scopeGate scope
    let (n, store) := d.store.attach gate d.settings.globalTags
    let r := d.registries.length
    (r, { d with gates, store
                 registries := d.registries ++ [Registry.new scope n]
                 scopes := d.scopes.insert scope r })

/-- The registry of a scope, made if there is none; that of the base scope binds the platform
metrics. -/
def getOrCreate (d : Directory) (scope : String) : RegistryRef × Directory :=
  let (r, d) := d.openScope scope
  (r, if scope = baseScope then d.bindPlatform r else d)

/-- Unregister composites one after the other. -/
def removeAll (s : MeterStore) (metrics : List Adapter) : MeterStore :=
  metrics.foldl (fun s a => (s.remove a.composite.id).2) s

/-- Drop a scope: its registry loses everything and is marked, and its store is detached. Tells
whether there was such a scope. -/
def dropScope (d : Directory) (scope : String) : Bool × Directory :=
  match d.scopes.get? scope with
  | none => (false, d)
  | some r =>
    let d := { d with scopes := d.scopes.erase scope }
    match d.registry? r with
    | none => (true, d)
    | some registry =>
      let store := (removeAll d.store registry.metrics.values).clearScope registry.store
      let d := { d with store := (store.detach scope).2 }
      (true, d.modifyRegistry r fun registry =>
        { registry with metrics := ∅, names := ∅, mappings := ∅, dropped := true })

/-- Drop every scope. -/
def dropAll (d : Directory) : Directory :=
  d.scopeNames.foldl (fun d scope => (d.dropScope scope).2) d

/-! ## Lookup and removal -/

/-- The metric that a caller's id names. -/
def metric? (d : Directory) (r : RegistryRef) (id : MetricId) : Option Adapter :=
  (d.registry? r).bind fun registry => registry.metrics.get? (registry.normalize d.settings id)

/-- The metric of a kind that a caller's id names. -/
def metricOfKind? (d : Directory) (r : RegistryRef) (kind : MetricKind) (id : MetricId) :
    Option Adapter :=
  (d.metric? r id).filter fun a => a.kind = kind

/-- Remove a metric and its meter. Tells whether there was one. -/
def remove (d : Directory) (r : RegistryRef) (id : MetricId) : Bool × Directory :=
  match d.registry? r with
  | none => (false, d)
  | some registry =>
    let id := registry.normalize d.settings id
    match registry.metrics.get? id with
    | none => (false, d)
    | some metric =>
      let d := d.modifyRegistry r fun registry =>
        { registry with metrics := registry.metrics.erase id }.forgetUnused id.name
      (true, { d with store := (d.store.remove metric.composite.id).2 })

/-- Remove ids one after the other and count those that were there. -/
def removeEach (r : RegistryRef) : List MetricId → Directory → Nat × Directory
  | [], d => (0, d)
  | id :: rest, d =>
    let (removed, d) := d.remove r id
    let (n, d) := removeEach r rest d
    (if removed then n + 1 else n, d)

/-- Remove the metrics that satisfy `p`, and count them. -/
def removeMatching (d : Directory) (r : RegistryRef) (p : MetricId → Adapter → Bool) :
    Nat × Directory :=
  match d.registry? r with
  | none => (0, d)
  | some registry => removeEach r (registry.metrics.filter p).keys d

/-- Remove every metric of a name. Tells whether there was one. -/
def removeByName (d : Directory) (r : RegistryRef) (name : String) : Bool × Directory :=
  let (n, d) := d.removeMatching r fun id _ => id.name == name
  (decide (0 < n), d)

/-- How many meters a registry's scope has. -/
def meterCount (d : Directory) (r : RegistryRef) : Nat :=
  ((d.registry? r).map fun registry => d.store.meterCount registry.store).getD 0

end Directory

end Telemetry
