import Telemetry.Gate.Basic
import Telemetry.Store.Meter

/-!
# The meter store

One `MeterStore` serves all scopes (specification, 4.7). Each scope has a `ScopeStore` attached to
it, which takes a registration only under a grant of its own gate. Registering an id makes one
`Composite` with a slot for every attached scope store, in the order they were attached: the meter
where the registration was taken, nothing elsewhere.

Meters and scope stores are known by number. Numbers are never used again, so what was detached or
removed lives on for those who still hold it, apart from what is registered later.
-/

namespace Telemetry

/-- The number of a meter. -/
abbrev MeterRef := Nat

/-- The number of a scope store. -/
abbrev ScopeRef := Nat

/-- The meters of one scope. -/
structure ScopeStore where
  gate : ScopeGate
  /-- Tags shown with every meter of the scope. -/
  commonTags : Tags
  meters : SortedMap MetricId MeterRef
deriving DecidableEq

/-- The view of an id across the scope stores that were attached when it was registered. -/
structure Composite where
  /-- Tells composites of the same id apart. -/
  serial : Nat
  id : MetricId
  kind : MetricKind
  /-- One slot per scope store, in order. -/
  slots : List (Option MeterRef)
deriving DecidableEq

structure MeterStore where
  /-- Every meter ever made, by number. -/
  meters : List Meter
  /-- Every scope store ever made, by number. -/
  scopes : List ScopeStore
  /-- The attached scope stores, in order. -/
  attached : List ScopeRef
  composites : SortedMap MetricId Composite
  /-- How many composites were made. -/
  serials : Nat
  samples : Samples
deriving DecidableEq

namespace Composite

/-- The meter of the first slot. -/
def first? (c : Composite) : Option MeterRef :=
  match c.slots with
  | slot :: _ => slot
  | [] => none

/-- The meters behind the slots. -/
def live (c : Composite) : List MeterRef := c.slots.filterMap fun slot => slot

end Composite

namespace MeterStore

/-- A store without scopes. -/
def new (platform : PlatformReadings) : MeterStore := ⟨[], [], [], ∅, 0, ⟨[], platform⟩⟩

def meter? (s : MeterStore) (m : MeterRef) : Option Meter := s.meters[m]?

def scope? (s : MeterStore) (n : ScopeRef) : Option ScopeStore := s.scopes[n]?

/-- Change one meter. -/
def modifyMeter (s : MeterStore) (m : MeterRef) (f : Meter → Meter) : MeterStore :=
  { s with meters := s.meters.modify m f }

/-- Change one scope store. -/
def modifyScope (s : MeterStore) (n : ScopeRef) (f : ScopeStore → ScopeStore) : MeterStore :=
  { s with scopes := s.scopes.modify n f }

/-! ## Scope stores -/

/-- Attach a new scope store behind a gate. -/
def attach (s : MeterStore) (gate : ScopeGate) (commonTags : Tags) : ScopeRef × MeterStore :=
  let n := s.scopes.length
  (n, { s with scopes := s.scopes ++ [⟨gate, commonTags, ∅⟩], attached := s.attached ++ [n] })

/-- The meter of an id in a scope store. -/
def find? (s : MeterStore) (n : ScopeRef) (id : MetricId) : Option MeterRef :=
  (s.scope? n).bind fun scope => scope.meters.get? id

/-- How many meters a scope store has. -/
def meterCount (s : MeterStore) (n : ScopeRef) : Nat :=
  ((s.scope? n).map fun scope => scope.meters.size).getD 0

/-- Empty a scope store. -/
def clearScope (s : MeterStore) (n : ScopeRef) : MeterStore :=
  s.modifyScope n fun scope => { scope with meters := ∅ }

/-- Give every meter of the metadata's name in a scope store this metadata. -/
def refreshMetadata (s : MeterStore) (n : ScopeRef) (metadata : Metadata) : MeterStore :=
  match s.scope? n with
  | none => s
  | some scope =>
    (scope.meters.entries.filter fun e => e.1.name = metadata.name).foldl
      (fun s e => s.modifyMeter e.2 fun m => { m with metadata }) s

/-- The number of the attached scope store of a scope. -/
def attachedTo? (s : MeterStore) (scope : String) : Option ScopeRef :=
  s.attached.find? fun n => (s.scope? n).any fun c => c.gate.scope = scope

/-- Detach the first scope store of a scope: it loses its meters, and every composite tagged with
the scope is forgotten. -/
def detach (s : MeterStore) (scope : String) : Option ScopeRef × MeterStore :=
  match s.attachedTo? scope with
  | none => (none, s)
  | some n =>
    let s := { s with
      attached := s.attached.erase n
      composites := s.composites.filter fun id _ => id.tags.get? scopeKey ≠ some scope }
    (some n, s.clearScope n)

/-! ## Registration -/

/-- Find or make the meter of an id in one scope store. Without a grant of its gate nothing is
made. -/
def registerIn (s : MeterStore) (n : ScopeRef) (id : MetricId) (spec : MeterSpec)
    (metadata : Metadata) (grant : WriteGrant) : Outcome (Option MeterRef) × MeterStore :=
  match s.scope? n with
  | none => (.ok none, s)
  | some scope =>
    if !grant.isFor scope.gate then (.ok none, s)
    else
      match (scope.meters.get? id).bind fun m => (s.meter? m).map fun meter => (m, meter) with
      | some (m, meter) =>
        if meter.kind = spec.kind then (.ok (some m), s)
        else (.error (.kindConflict id.name meter.kind spec.kind), s)
      | none =>
        match Meter.create id spec metadata with
        | .error e => (.error e, s)
        | .ok meter =>
          let m := s.meters.length
          let s := { s with meters := s.meters ++ [meter] }
          (.ok (some m), s.modifyScope n fun scope =>
            { scope with meters := scope.meters.insert id m })

/-- Register an id in scope store after scope store. The first refusal ends it; what was made before
stays. -/
def registerEach (id : MetricId) (spec : MeterSpec) (metadata : Metadata) (grant : WriteGrant) :
    List ScopeRef → MeterStore → Outcome (List (Option MeterRef)) × MeterStore
  | [], s => (.ok [], s)
  | n :: rest, s =>
    match s.registerIn n id spec metadata grant with
    | (.error e, s) => (.error e, s)
    | (.ok slot, s) =>
      match registerEach id spec metadata grant rest s with
      | (.error e, s) => (.error e, s)
      | (.ok slots, s) => (.ok (slot :: slots), s)

/-- The composite of an id, made on first registration. -/
def register (s : MeterStore) (id : MetricId) (spec : MeterSpec) (metadata : Metadata)
    (grant : WriteGrant) : Outcome Composite × MeterStore :=
  match s.composites.get? id with
  | some c =>
    if c.kind = spec.kind then (.ok c, s)
    else (.error (.kindConflict id.name c.kind spec.kind), s)
  | none =>
    match registerEach id spec metadata grant s.attached s with
    | (.error e, s) => (.error e, s)
    | (.ok slots, s) =>
      let c : Composite := ⟨s.serials, id, spec.kind, slots⟩
      (.ok c, { s with composites := s.composites.insert id c, serials := s.serials + 1 })

/-- Forget the composite of an id and its meter in every attached scope store. Tells whether there
was such a composite. -/
def remove (s : MeterStore) (id : MetricId) : Bool × MeterStore :=
  (s.composites.contains id,
    s.attached.foldl
      (fun s n => s.modifyScope n fun scope => { scope with meters := scope.meters.erase id })
      { s with composites := s.composites.erase id })

/-! ## Reading and writing composites -/

/-- Change every meter behind a composite. -/
def modifyLive (s : MeterStore) (c : Composite) (f : Meter → Meter) : MeterStore :=
  c.live.foldl (fun s m => s.modifyMeter m f) s

/-- The meter that a composite is read from: that of its first slot. -/
def firstMeter? (s : MeterStore) (c : Composite) : Option Meter := c.first?.bind s.meter?

end MeterStore

end Telemetry
