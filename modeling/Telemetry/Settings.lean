import Telemetry.Distribution.Spec
import Telemetry.Tag.Global

/-!
# Settings of the registries

The configuration, read once (specification, 6.1 and 6.2). The backends that are available follow
from it; the first one is the active one, and only Prometheus exports.
-/

namespace Telemetry

inductive Backend where
  | prometheus
  /-- Meters without exposition. -/
  | simple
deriving DecidableEq, Repr

def Backend.name : Backend → String
  | .prometheus => "prometheus"
  | .simple => "simple"

structure RegistrySettings where
  /-- Tags shown with every meter. -/
  globalTags : Tags
  /-- The value of every metric's application tag. -/
  appName : Option String
  distribution : DistributionSettings
  prometheusEnabled : Bool
deriving DecidableEq

namespace RegistrySettings

/-- Read a configuration, the global tags first. -/
def ofConfig (c : Config) : Outcome RegistrySettings := do
  let globalTags ←
    match c.tags with
    | some text => parseGlobalTags text
    | none => .ok ∅
  let distribution ← DistributionSettings.ofConfig c
  return { globalTags, appName := c.effectiveAppName, distribution,
           prometheusEnabled := c.prometheusEnabled }

/-- The available backends, the preferred one first. -/
def available (s : RegistrySettings) : List Backend :=
  if s.prometheusEnabled then [.prometheus, .simple] else [.simple]

/-- The active backend. -/
def primary (s : RegistrySettings) : Backend := s.available.headD .simple

/-- Refused unless the active backend exports. -/
def requireExport (s : RegistrySettings) : Outcome Unit :=
  match s.primary with
  | .prometheus => .ok ()
  | other => .error (.exportUnsupported other.name)

end RegistrySettings

end Telemetry
