import Telemetry.Binary.Decimal

/-!
# What can be wrong with a distribution's settings

An entry of a configured list can be unreadable (`EntryFault`), and the bounds and the precision of
a distribution can ask for a layout of counts that cannot be built (`LayoutFault`).
-/

namespace Telemetry

/-- The configured lists that shape distributions. -/
inductive Property where
  | percentiles
  | histogramBuckets
  | timerBuckets
  | defaultBuckets
  | histogramMin
  | histogramMax
  | timerMin
  | timerMax
deriving DecidableEq, Repr

/-- The key of the list in a configuration. -/
def Property.key : Property → String
  | .percentiles => "percentiles"
  | .histogramBuckets => "histogram_buckets"
  | .timerBuckets => "timer_buckets"
  | .defaultBuckets => "percentiles_histogram_enabled"
  | .histogramMin => "histogram_min_value"
  | .histogramMax => "histogram_max_value"
  | .timerMin => "timer_min_value"
  | .timerMax => "timer_max_value"

/-- Why an entry of a list is refused. -/
inductive EntryFault where
  | noValues
  | emptyName
  | notNumber (text : String)
  | negative (text : String)
  | percentileOutside (percentile : Real64)
  | notBoolean (text : String)
  | notDuration (text : String)
deriving DecidableEq

def EntryFault.message : EntryFault → String
  | .noValues => "expected name=values"
  | .emptyName => "metric name is empty"
  | .notNumber text => s!"`{text}` is not a number"
  | .negative text => s!"`{text}` must be a non-negative number"
  | .percentileOutside p =>
    let shown := p.text
    s!"percentile {shown} is outside [0, 1]"
  | .notBoolean text => s!"`{text}` is not a boolean"
  | .notDuration text => s!"`{text}` is not a duration"

/-- Why the counts of a distribution cannot be laid out. -/
inductive LayoutFault where
  /-- The lowest value leaves no room for a highest one. -/
  | lowExceedsMax
  /-- More than five significant digits. -/
  | digitsExceedMax
  /-- The digits do not fit a word from the lowest value on. -/
  | digitsBeyondLow
deriving DecidableEq, Repr

def LayoutFault.name : LayoutFault → String
  | .lowExceedsMax => "LowExceedsMax"
  | .digitsExceedMax => "SigFigExceedsMax"
  | .digitsBeyondLow => "CannotRepresentSigFigBeyondLow"

end Telemetry
