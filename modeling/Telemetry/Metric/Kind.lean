/-!
# Kinds of metrics
-/

namespace Telemetry

/-- What a metric measures: an increasing count, a sampled value, a distribution of values or a
distribution of durations. -/
inductive MetricKind where
  | counter
  | gauge
  | histogram
  | timer
deriving DecidableEq, Repr

/-- The kind's word in messages and listings. -/
def MetricKind.name : MetricKind → String
  | .counter => "counter"
  | .gauge => "gauge"
  | .histogram => "histogram"
  | .timer => "timer"

end Telemetry
