import Telemetry.Metric.Kind
import Telemetry.Distribution.Fault

/-!
# Errors

`MetricsError` lists the causes for which a configuration, a registration, an interception or an
export fails, and `MetricsError.message` their wording (specification, 7).
-/

namespace Telemetry

/-- Why a text of global tags is refused. -/
inductive GlobalTagsFault where
  | emptyPair
  | notSinglePair (pair : String)
  | emptyPart (pair : String)
  | invalidName (key : String)
deriving DecidableEq

def GlobalTagsFault.message : GlobalTagsFault → String
  | .emptyPair => "empty tag pair"
  | .notSinglePair pair => s!"`{pair}` is not a single key=value pair"
  | .emptyPart pair => s!"`{pair}` has an empty key or value"
  | .invalidName key => s!"invalid tag name `{key}`, expected [a-zA-Z_][a-zA-Z0-9_]*"

/-- Why families cannot be written as text. -/
inductive EncodeFault where
  | unnamedFamily
  | noSamples
deriving DecidableEq, Repr

def EncodeFault.message : EncodeFault → String
  | .unnamedFamily => "Error: MetricFamily has no name"
  | .noSamples => "Error: MetricFamily has no metrics"

inductive MetricsError where
  /-- The text of the global tags is malformed. -/
  | malformedGlobalTags (input : String) (fault : GlobalTagsFault)
  /-- A tag key is no name. -/
  | invalidTagName (key : String)
  /-- A tag text holds no `=`. -/
  | malformedTag (text : String)
  /-- The tag that names a meter's scope was given for another scope. -/
  | reservedTag (value scope : String)
  /-- An entry of a distribution property cannot be read. -/
  | invalidDistribution (property : Property) (entry : String) (fault : EntryFault)
  /-- More digits of precision than a distribution can keep. -/
  | invalidPrecision (digits : Nat)
  /-- A configuration source cannot be read, or holds a value of a wrong type. -/
  | configuration
  | emptyName
  /-- The name is bound to another kind in its scope. -/
  | kindConflict (name : String) (existing requested : MetricKind)
  | scopeNotFound (scope : String)
  /-- The registry was dropped and takes no registrations. -/
  | scopeDropped (scope : String)
  /-- The scope holds no meters. -/
  | scopeEmpty (scope : String)
  | metricNotFound (scope name : String)
  /-- No metric of the kind is mapped to an intercepted member. -/
  | noMetricMapped (kind : MetricKind) (member : String)
  /-- A mapped metric is not registered. -/
  | mappedMetricMissing (id member : String)
  /-- The active backend does not export. -/
  | exportUnsupported (backend : String)
  /-- The counts of a distribution cannot be laid out. -/
  | distribution (name : String) (fault : LayoutFault)
  | encode (fault : EncodeFault)
deriving DecidableEq

/-- The wording of an error. A configuration error has none of its own: it speaks of its source. -/
def MetricsError.message : MetricsError → Option String
  | .malformedGlobalTags input fault =>
    let reason := fault.message
    some s!"malformed global tags `{input}`: {reason}"
  | .invalidTagName key => some (GlobalTagsFault.invalidName key).message
  | .malformedTag text => some s!"malformed tag `{text}`, expected key=value"
  | .reservedTag value scope =>
    some s!"tag `scope` is reserved: value `{value}` does not match registry scope `{scope}`"
  | .invalidDistribution property entry fault =>
    let key := property.key
    let reason := fault.message
    some s!"invalid `{key}` entry `{entry}`: {reason}"
  | .invalidPrecision digits =>
    some s!"percentile precision {digits} is out of range, expected 0..=5"
  | .configuration => none
  | .emptyName => some "metric name must not be empty"
  | .kindConflict name existing requested =>
    let old := existing.name
    let new := requested.name
    some s!"metric `{name}` is already registered as a {old}, cannot register it as a {new}"
  | .scopeNotFound scope => some s!"scope `{scope}` not found"
  | .scopeDropped scope => some s!"scope `{scope}` was dropped"
  | .scopeEmpty scope => some s!"scope `{scope}` has no metrics"
  | .metricNotFound scope name => some s!"metric `{name}` not found in scope `{scope}`"
  | .noMetricMapped kind member =>
    let word := kind.name
    some s!"no {word} metric mapped for member `{member}`"
  | .mappedMetricMissing id member =>
    some s!"metric `{id}` mapped for member `{member}` is not registered"
  | .exportUnsupported backend => some s!"export is not supported by the active `{backend}` backend"
  | .distribution name fault =>
    let reason := fault.name
    some s!"cannot create distribution for `{name}`: {reason}"
  | .encode fault =>
    let reason := fault.message
    some s!"failed to encode metrics: {reason}"

/-- The answer of a step that can fail. -/
abbrev Outcome (α : Type) := Except MetricsError α

end Telemetry
