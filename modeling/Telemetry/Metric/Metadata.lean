import Telemetry.Metric.Kind

/-!
# Metadata of a metric

A metric name has one unit and one description in its scope (specification, 3). `Metadata.refine`
lays the fields that a later registration sets over the earlier ones; a field it leaves open stays.
-/

namespace Telemetry

structure Metadata where
  name : String
  /-- The unit as it was given. -/
  givenUnit : Option String
  description : Option String
deriving DecidableEq, Inhabited

namespace Metadata

/-- Metadata with nothing but a name. -/
def ofName (name : String) : Metadata := ⟨name, none, none⟩

/-- The unit, if it is one: the empty text and `none` say that there is none. -/
def unit (m : Metadata) : Option String := m.givenUnit.filter fun u => u ≠ "" ∧ u ≠ "none"

/-- The help text: the description, or the name when that is missing or empty. -/
def help (m : Metadata) : String := (m.description.filter (· ≠ "")).getD m.name

/-- `old` with the fields that `new` sets. -/
def refine (old new : Metadata) : Metadata :=
  { old with
    givenUnit := new.givenUnit <|> old.givenUnit
    description := new.description <|> old.description }

end Metadata

/-- What a scope knows of a name: its metadata and the kind it is bound to. -/
structure NameEntry where
  metadata : Metadata
  kind : MetricKind
deriving DecidableEq

end Telemetry
