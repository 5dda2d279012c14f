import Telemetry.Directory.Basic
import Telemetry.Exposition.Text

/-!
# Export

A scope is exported by its own registry, or through the directory's exporter, which knows every
existing scope and merges families of one name (specification, 6.1). Both are refused where the
active backend does not export.
-/

namespace Telemetry

namespace Directory

/-- The families of a registry's scope, of all meters or of those of one name. -/
def gather (d : Directory) (r : RegistryRef) (name : Option String) : List Family :=
  match d.registry? r with
  | none => []
  | some registry => d.store.gather registry.store name

/-- The families of every existing scope, merged by name. -/
def gatherAll (d : Directory) (name : Option String) : List Family :=
  mergeFamilies (d.scopes.values.map fun r => d.gather r name)

/-- A registry's own export, of all meters or of those of one name. -/
def exportRegistry (d : Directory) (r : RegistryRef) (name : Option String) : Outcome String := do
  d.settings.requireExport
  encode (d.gather r name)

end Directory

/-- What is asked of the exporter. -/
inductive ExportRequest where
  | everything
  | scope (scope : String)
  | metric (scope name : String)
  /-- The meters of a name in every scope. -/
  | acrossScopes (name : String)
deriving DecidableEq

namespace Directory

/-- The exporter's answer. -/
def answerExport (d : Directory) : ExportRequest → Outcome String
  | .everything => encode (d.gatherAll none)
  | .scope scope =>
    match d.lookup? scope with
    | none => .error (.scopeNotFound scope)
    | some r => if d.meterCount r = 0 then .error (.scopeEmpty scope) else encode (d.gather r none)
  | .metric scope name =>
    match d.lookup? scope with
    | none => .error (.scopeNotFound scope)
    | some r =>
      let families := d.gather r (some name)
      if families.isEmpty then .error (.metricNotFound scope name) else encode families
  | .acrossScopes name => encode (d.gatherAll (some name))

/-- Export through the exporter, where there is one. -/
def exportText (d : Directory) (request : ExportRequest) : Outcome String := do
  d.settings.requireExport
  d.answerExport request

end Directory

end Telemetry
