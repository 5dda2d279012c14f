import Telemetry.Text.Pieces
import Telemetry.Metric.Id

/-!
# Instrumented members

A member is a method or a constructor of a type (specification, 4.5). `MemberMappings` records the
ids of the counters and timers registered for each member of a scope.
-/

namespace Telemetry

inductive MemberKind where
  | method
  | constructor
deriving DecidableEq, Repr

structure Member where
  declaringType : String
  name : String
  kind : MemberKind
deriving DecidableEq

/-- The text up to the first `::`. -/
def untilPath : List Char → List Char
  | ':' :: ':' :: _ => []
  | c :: r => c :: untilPath r
  | [] => []

/-- The last part of a type's name: after its last `::`, then after its last dot. -/
def simpleName (type : String) : String :=
  String.ofList (Text.afterLast '.' (untilPath type.toList.reverse).reverse)

namespace Member

def method (declaringType name : String) : Member := ⟨declaringType, name, .method⟩

/-- A constructor is named after its type. -/
def constructor (declaringType : String) : Member :=
  ⟨declaringType, simpleName declaringType, .constructor⟩

/-- `type.name` -/
def text (m : Member) : String := m.declaringType ++ "." ++ m.name

/-- Type, name and kind, the order of members. -/
def sortKey (m : Member) : List String :=
  [m.declaringType, m.name, match m.kind with | .method => "method" | .constructor => "constructor"]

theorem sortKey_inj {a b : Member} (h : a.sortKey = b.sortKey) : a = b := by
  obtain ⟨t, n, k⟩ := a
  obtain ⟨t', n', k'⟩ := b
  cases k <;> cases k' <;> simp_all [sortKey]

instance : Ord Member := ⟨compareOn sortKey⟩

instance : Std.TransOrd Member := inferInstanceAs (Std.TransCmp (compareOn sortKey))

instance : Std.LawfulEqOrd Member := lawfulEqCmp_compareOn fun _ _ => sortKey_inj

end Member

/-- Ids by member, each set in id order. -/
abbrev MemberIds := SortedMap Member (SortedMap MetricId Unit)

namespace MemberIds

/-- Add an id to the member's set. -/
def add (ids : MemberIds) (member : Member) (id : MetricId) : MemberIds :=
  ids.insert member (((ids.get? member).getD ∅).insert id ())

/-- The ids of a member; `none` if it was never mapped. -/
def of? (ids : MemberIds) (member : Member) : Option (List MetricId) :=
  (ids.get? member).map SortedMap.keys

end MemberIds

/-- The ids of the metrics registered for each member. -/
structure MemberMappings where
  counters : MemberIds
  timers : MemberIds
deriving DecidableEq

namespace MemberMappings

def empty : MemberMappings := ⟨∅, ∅⟩

instance : EmptyCollection MemberMappings := ⟨empty⟩

def addCounter (m : MemberMappings) (member : Member) (id : MetricId) : MemberMappings :=
  { m with counters := m.counters.add member id }

def addTimer (m : MemberMappings) (member : Member) (id : MetricId) : MemberMappings :=
  { m with timers := m.timers.add member id }

def isEmpty (m : MemberMappings) : Bool := m.counters.isEmpty && m.timers.isEmpty

end MemberMappings

end Telemetry
