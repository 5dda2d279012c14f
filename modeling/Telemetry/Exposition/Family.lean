import Telemetry.Exposition.Name
import Telemetry.Store.Basic

/-!
# Families

What is exported of a scope is a list of families in name order (specification, 4.7). A family has
one kind and samples with different labels. Different meters can expose one family name (a counter
`a` and a gauge `a_total`): the meter with the least id keeps the series, and a later sample of
another kind or with the same labels is left out (`Families.push`). A distribution exposes its
greatest value as a gauge beside itself, and only when it was not left out.
-/

namespace Telemetry

inductive FamilyKind where
  | counter
  | gauge
  | summary
  | histogram
deriving DecidableEq, Repr

def FamilyKind.name : FamilyKind → String
  | .counter => "counter"
  | .gauge => "gauge"
  | .summary => "summary"
  | .histogram => "histogram"

inductive SampleValue where
  | counter (value : Real64)
  | gauge (value : Real64)
  /-- A distribution by its quantiles. -/
  | summary (snapshot : Snapshot)
  /-- A distribution by its buckets. -/
  | histogram (snapshot : Snapshot)
deriving DecidableEq

def SampleValue.kind : SampleValue → FamilyKind
  | .counter _ => .counter
  | .gauge _ => .gauge
  | .summary _ => .summary
  | .histogram _ => .histogram

structure Sample where
  labels : List (String × String)
  value : SampleValue
deriving DecidableEq

structure Family where
  name : String
  help : String
  kind : FamilyKind
  samples : List Sample
deriving DecidableEq

/-- Families by name. -/
abbrev Families := SortedMap String Family

namespace Families

/-- Add a sample to the family of its name, made with it on first use. A sample of another kind than
the family's or with labels that are there already is left out (`false`). -/
def push (families : Families) (name help : String) (sample : Sample) : Bool × Families :=
  match families.get? name with
  | none => (true, families.insert name ⟨name, help, sample.value.kind, [sample]⟩)
  | some family =>
    if family.kind ≠ sample.value.kind ∨ family.samples.any fun s => s.labels == sample.labels then
      (false, families)
    else (true, families.insert name { family with samples := family.samples ++ [sample] })

end Families

/-- The labels of a meter: its tags over the common ones. -/
def labelsOf (commonTags tags : Tags) : List (String × String) :=
  (commonTags.merge tags).entries.map fun e => (sanitize e.1.text, e.2)

/-- The main sample of a meter, and the greatest value that goes with it. -/
def Meter.exposed (samples : Samples) (m : Meter) : SampleValue × Option SampleValue :=
  match m.value with
  | .counter count => (.counter (.ofNat _ count.toNat), none)
  | .gauge sampler => (.gauge (samples.read sampler), none)
  | .histogram d | .timer d =>
    let snapshot := d.snapshot
    (if snapshot.buckets.isEmpty then .summary snapshot else .histogram snapshot,
      some (.gauge snapshot.max))

/-- Add the samples of a meter. -/
def Families.addMeter (samples : Samples) (commonTags : Tags) (families : Families) (m : Meter) :
    Families :=
  let name := expositionName m.id.name m.kind m.metadata.unit
  let help := m.metadata.help
  let labels := labelsOf commonTags m.id.tags
  let (main, greatest) := m.exposed samples
  match families.push name help ⟨labels, main⟩, greatest with
  | (true, families), some value => (families.push (name ++ "_max") help ⟨labels, value⟩).2
  | (_, families), _ => families

namespace MeterStore

/-- The meters of a scope store in id order, all of them or those of one name. -/
def metersOf (s : MeterStore) (n : ScopeRef) (name : Option String) : List Meter :=
  match s.scope? n with
  | none => []
  | some scope =>
    (scope.meters.entries.filter fun e => name.all fun n => e.1.name = n).filterMap fun e =>
      s.meter? e.2

/-- The families of a scope store, of all meters or of those of one name. -/
def gather (s : MeterStore) (n : ScopeRef) (name : Option String) : List Family :=
  match s.scope? n with
  | none => []
  | some scope =>
    ((s.metersOf n name).foldl (Families.addMeter s.samples scope.commonTags) ∅).values

end MeterStore

/-- Families merged by name: samples of a later family join the first of that name if its kind is
the same, and are left out otherwise. -/
def mergeFamilies (lists : List (List Family)) : List Family :=
  (lists.flatten.foldl
    (fun (merged : Families) family =>
      match merged.get? family.name with
      | none => merged.insert family.name family
      | some first =>
        if first.kind = family.kind then
          merged.insert family.name { first with samples := first.samples ++ family.samples }
        else merged)
    ∅).values

end Telemetry
