import Telemetry.Tag.Basic

/-!
# Identity of a metric

A metric is named by a name and a set of tags (specification, 3). Ids are ordered by name, then by
tags.
-/

namespace Telemetry

structure MetricId where
  name : String
  tags : Tags
deriving DecidableEq

namespace MetricId

/-- The id of a name and a tag list. -/
def of (name : String) (tags : List Tag) : MetricId := ⟨name, Tags.ofList tags⟩

/-- Ids are ordered by name, then by tags. -/
instance : Ord MetricId := ⟨compareLex (compareOn name) (compareOn tags)⟩

instance : Std.TransOrd MetricId :=
  inferInstanceAs (Std.TransCmp (compareLex (compareOn name) (compareOn tags)))

instance : Std.LawfulEqOrd MetricId :=
  lawfulEqCmp_compareLex fun a b h1 h2 => by cases a; cases b; cases h1; cases h2; rfl

/-- `name`, or `name{key=value,…}` when there are tags. -/
def text (id : MetricId) : String :=
  if id.tags.isEmpty then id.name else id.name ++ "\x7b" ++ id.tags.text ++ "\x7d"

end MetricId

end Telemetry
