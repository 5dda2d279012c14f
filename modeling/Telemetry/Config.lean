import Telemetry.Text.Blank
import Telemetry.Distribution.Fault

/-!
# Configuration

A `Config` holds the settings as they are written: the lists that shape distributions are texts
here, read once when the registries are set up (specification, 6.2).
-/

namespace Telemetry

/-- Significant digits that a distribution keeps unless configured. -/
def defaultPrecision : Nat := 3

structure Config where
  /-- The application, shown as a tag of every metric. -/
  appName : Option String := none
  /-- Global tags. -/
  tags : Option String := none
  /-- Whether metrics can be exported. -/
  prometheusEnabled : Bool := true
  /-- Significant digits that distributions keep, below 256. -/
  precision : Nat := defaultPrecision
  percentiles : Option String := none
  histogramBuckets : Option String := none
  timerBuckets : Option String := none
  defaultBuckets : Option String := none
  histogramMin : Option String := none
  histogramMax : Option String := none
  timerMin : Option String := none
  timerMax : Option String := none
deriving DecidableEq

namespace Config

/-- The text of a distribution property. -/
def property (c : Config) : Property → Option String
  | .percentiles => c.percentiles
  | .histogramBuckets => c.histogramBuckets
  | .timerBuckets => c.timerBuckets
  | .defaultBuckets => c.defaultBuckets
  | .histogramMin => c.histogramMin
  | .histogramMax => c.histogramMax
  | .timerMin => c.timerMin
  | .timerMax => c.timerMax

/-- The application name without blanks around it; a blank one is none. -/
def effectiveAppName (c : Config) : Option String :=
  (c.appName.map fun name => String.ofList (Text.trim name.toList)).filter (· ≠ "")

end Config

end Telemetry
