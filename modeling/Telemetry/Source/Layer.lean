import Telemetry.Config
import Telemetry.Error
import Telemetry.Source.Argument
import Telemetry.Source.Environment
import Telemetry.Source.Json
import Telemetry.Source.Toml
import Telemetry.Source.Yaml

/-!
# Layers of configuration

A configuration is assembled from layers, in the order in which they are given: the value of a key
is the one of the last layer that has the key (specification, 6.2). Types are checked once, on the
assembled values, so a value of a wrong type does no harm if a later layer replaces it; an
unreadable file does.
-/

namespace Telemetry

/-- The settings of a configuration. -/
inductive Setting where
  | appName
  | tags
  | prometheusEnabled
  | precision
  | property (p : Property)
deriving DecidableEq

/-- The key of a setting in a source. -/
def Setting.key : Setting → String
  | appName => "app_name"
  | tags => "tags"
  | prometheusEnabled => "prometheus_enabled"
  | precision => "percentile_precision"
  | property p => p.key

/-- The formats of configuration files. -/
inductive FileFormat where
  | toml
  | yaml
  | json
deriving DecidableEq, Repr

namespace FileFormat

/-- What follows the last point of a path's last component, unless the point begins the
component. -/
def extension? (path : List Char) : Option (List Char) :=
  let whole := (path.reverse.dropWhile (· == '/')).reverse
  let name := Text.afterLast '/' whole
  let tail := Text.afterLast '.' name
  if name = ['.', '.'] ∨ name.length ≤ tail.length + 1 then none else some tail

/-- The format that a file's name stands for, TOML unless another one is named. -/
def ofPath (path : String) : FileFormat :=
  match (extension? path.toList).map fun e => String.ofList (e.map Char.toLower) with
  | some "yaml" | some "yml" => .yaml
  | some "json" => .json
  | _ => .toml

/-- Read a file's content. -/
def read? : FileFormat → String → Option Document
  | toml, content => Toml.read? content.toList
  | yaml, content => Yaml.read? content.toList
  | json, content => Json.read? content.toList

end FileFormat

inductive Layer where
  /-- A file; without content, one that does not exist. -/
  | file (path : String) (content : Option String)
  /-- The environment's variables that begin with a word. -/
  | environment (word : String) (assignments : List (String × String))
  /-- One setting. -/
  | setting (setting : Setting) (value : SourceValue)
  /-- What was given on the command line. -/
  | arguments (arguments : Arguments)

/-- What command line arguments say. -/
def Arguments.table (a : Arguments) : SourceTable :=
  let entries : List (Option (Setting × SourceValue)) :=
    [a.appName.map fun t => (.appName, .text t),
     a.tags.map fun t => (.tags, .text t),
     a.prometheusEnabled.map fun b => (.prometheusEnabled, .boolean b),
     a.precision.map fun n => (.precision, .integer n),
     a.percentiles.map fun t => (.property .percentiles, .text t),
     a.timerBuckets.map fun t => (.property .timerBuckets, .text t)]
  SortedMap.ofList ((entries.filterMap id).map fun e => (e.1.key, e.2))

namespace Layer

/-- What a layer says; `none` when it cannot be read. -/
def table? : Layer → Option SourceTable
  | file _ none => some ∅
  | file path (some content) => ((FileFormat.ofPath path).read? content).bind Document.toTable?
  | environment word assignments => some (Environment.read word assignments)
  | setting s value => some (SortedMap.ofList [(s.key, value)])
  | arguments a => some a.table

/-- Put what later layers say over what earlier ones do. -/
def assemble? (layers : List Layer) : Option SourceTable :=
  layers.foldl (fun below layer => do
    let below ← below
    let above ← layer.table?
    some (below.merge above)) (some ∅)

end Layer

namespace Config

/-- The text of a setting, which may be left out; `none` when it is no text. -/
def textAt? (t : SourceTable) (s : Setting) : Option (Option String) :=
  match t.get? s.key with
  | none | some .nothing => some none
  | some (.text v) => some (some v)
  | some _ => none

/-- The switch for exporting; `none` when it is no boolean. -/
def prometheusAt? (t : SourceTable) : Option Bool :=
  match t.get? Setting.prometheusEnabled.key with
  | none => some true
  | some (.boolean b) => some b
  | some _ => none

/-- The precision; `none` when it is no number below 256. -/
def precisionAt? (t : SourceTable) : Option Nat :=
  match t.get? Setting.precision.key with
  | none => some defaultPrecision
  | some (.integer n) => if 0 ≤ n ∧ n < 256 then some n.toNat else none
  | some _ => none

/-- The configuration that a table gives. Keys that are no settings are ignored. -/
def ofTable? (t : SourceTable) : Option Config := do
  return {
    appName := ← textAt? t .appName
    tags := ← textAt? t .tags
    prometheusEnabled := ← prometheusAt? t
    precision := ← precisionAt? t
    percentiles := ← textAt? t (.property .percentiles)
    histogramBuckets := ← textAt? t (.property .histogramBuckets)
    timerBuckets := ← textAt? t (.property .timerBuckets)
    defaultBuckets := ← textAt? t (.property .defaultBuckets)
    histogramMin := ← textAt? t (.property .histogramMin)
    histogramMax := ← textAt? t (.property .histogramMax)
    timerMin := ← textAt? t (.property .timerMin)
    timerMax := ← textAt? t (.property .timerMax) }

/-- The configuration that layers give. -/
def ofLayers (layers : List Layer) : Outcome Config :=
  match (Layer.assemble? layers).bind ofTable? with
  | some c => .ok c
  | none => .error .configuration

end Config

end Telemetry
