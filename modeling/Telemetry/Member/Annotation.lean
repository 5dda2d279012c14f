import Telemetry.Member.Basic
import Telemetry.Metric.Metadata

/-!
# Counted and timed members

A `MetricAnnotation` declares a counter or a timer on a member (specification, 4.5). Its metric is
named after the member unless the annotation gives a name, and carries the declaring type in front
unless the name is absolute.
-/

namespace Telemetry

inductive AnnotationKind where
  | counted
  | timed
deriving DecidableEq, Repr

/-- The kind of metric that an annotation declares. -/
def AnnotationKind.metric : AnnotationKind → MetricKind
  | .counted => .counter
  | .timed => .timer

/-- The scope of what an application measures. -/
def applicationScope : String := "application"

/-- The scope of what every process has to show. -/
def baseScope : String := "base"

/-- The scope of what a vendor adds. -/
def vendorScope : String := "vendor"

structure MetricAnnotation where
  kind : AnnotationKind
  name : Option String := none
  absolute : Bool := false
  scope : String := applicationScope
  /-- Tag texts, read when the metric is registered. -/
  tags : List String := []
  unit : Option String := none
  description : Option String := none
deriving DecidableEq

namespace MetricAnnotation

/-- The metric's name for a member. An empty name counts as none. -/
def resolveName (a : MetricAnnotation) (member : Member) : String :=
  let own :=
    match a.name.filter (· ≠ "") with
    | some name => name
    | none =>
      match member.kind with
      | .constructor => simpleName member.declaringType
      | .method => member.name
  if a.absolute then own else member.declaringType ++ "." ++ own

def metadata (a : MetricAnnotation) (member : Member) : Metadata :=
  ⟨a.resolveName member, a.unit, a.description⟩

/-- The tags, in order; the first unreadable one is the error. -/
def parseTags (a : MetricAnnotation) : Outcome (List Tag) := a.tags.mapM Tag.parse

end MetricAnnotation

end Telemetry
