import Telemetry.Metric.Kind

/-!
# Exposed names

An exposed name holds only `[a-zA-Z0-9_:]` and starts with no digit (specification, 4.7).
`expositionName` adds a meter's unit, and `_total` for a counter, unless the name ends in it
already.
-/

namespace Telemetry

/-- A character that may start an exposed name. -/
def isExposedStart (c : Char) : Bool := c.isAlpha || c == '_' || c == ':'

/-- A character that may follow in an exposed name. -/
def isExposedPart (c : Char) : Bool := c.isAlphanum || c == '_' || c == ':'

/-- The name with an underscore for every character that may not stand there. -/
def sanitizeChars : List Char → List Char
  | [] => []
  | c :: r =>
    (if isExposedStart c then c else '_') :: r.map fun d => if isExposedPart d then d else '_'

def sanitize (name : String) : String := String.ofList (sanitizeChars name.toList)

/-- `name` ending in `ending`, which is added unless it stands there. -/
def withEnding (name ending : List Char) : List Char :=
  if ending.isSuffixOf name then name else name ++ ending

/-- The exposed unit of a kind: a timer's is the second. -/
def exposedUnit (kind : MetricKind) (unit : Option String) : Option (List Char) :=
  match kind with
  | .timer => some "seconds".toList
  | _ => unit.map fun u => sanitizeChars u.toList

/-- The exposed name of a meter. -/
def expositionName (name : String) (kind : MetricKind) (unit : Option String) : String :=
  let exposed := sanitizeChars name.toList
  let exposed :=
    match exposedUnit kind unit with
    | some u => withEnding exposed ('_' :: u)
    | none => exposed
  String.ofList (if kind = .counter then withEnding exposed "_total".toList else exposed)

end Telemetry
