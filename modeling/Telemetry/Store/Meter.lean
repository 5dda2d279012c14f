import Telemetry.Distribution.Basic
import Telemetry.Error
import Telemetry.Metric.Id
import Telemetry.Metric.Metadata

/-!
# Meters

A meter is what a scope keeps for one id: a count, the source of a sampled value, or a distribution
(specification, 4.7). The values that gauges sample belong to the host. `Samples` holds them: the
host's cells by number and its platform figures.
-/

namespace Telemetry

/-- What the platform reports about the process. -/
inductive PlatformFigure where
  | availableProcessors
  | uptime
  | startTime
  | threadCount
  | residentBytes
deriving DecidableEq, Repr

/-- Where a gauge takes its value from. -/
inductive Sampler where
  | cell (number : Nat)
  | platform (figure : PlatformFigure)
deriving DecidableEq, Repr

/-- The platform figures at present. -/
structure PlatformReadings where
  availableProcessors : Real64
  uptime : Real64
  startTime : Real64
  threadCount : Real64
  residentBytes : Real64
deriving DecidableEq, Inhabited

def PlatformReadings.get (r : PlatformReadings) : PlatformFigure → Real64
  | .availableProcessors => r.availableProcessors
  | .uptime => r.uptime
  | .startTime => r.startTime
  | .threadCount => r.threadCount
  | .residentBytes => r.residentBytes

/-- The values that gauges sample at present. -/
structure Samples where
  cells : List Real64
  platform : PlatformReadings
deriving DecidableEq, Inhabited

namespace Samples

/-- The value of a sampler; a cell that was never made has none. -/
def read (s : Samples) : Sampler → Real64
  | .cell number => (s.cells[number]?).getD .nan
  | .platform figure => s.platform.get figure

/-- A new cell that holds `value`. -/
def newCell (s : Samples) (value : Real64) : Nat × Samples :=
  (s.cells.length, { s with cells := s.cells ++ [value] })

/-- Change a cell. -/
def setCell (s : Samples) (number : Nat) (value : Real64) : Samples :=
  { s with cells := s.cells.set number value }

end Samples

/-- What to make when an id is registered for the first time. -/
inductive MeterSpec where
  | counter
  | gauge (sampler : Sampler)
  | histogram (spec : DistributionSpec)
  | timer (spec : DistributionSpec)
deriving DecidableEq

def MeterSpec.kind : MeterSpec → MetricKind
  | .counter => .counter
  | .gauge _ => .gauge
  | .histogram _ => .histogram
  | .timer _ => .timer

inductive MeterValue where
  | counter (count : UInt64)
  | gauge (sampler : Sampler)
  | histogram (values : Distribution)
  | timer (durations : Distribution)
deriving DecidableEq

def MeterValue.kind : MeterValue → MetricKind
  | .counter _ => .counter
  | .gauge _ => .gauge
  | .histogram _ => .histogram
  | .timer _ => .timer

/-- The meter of one id in one scope. -/
structure Meter where
  id : MetricId
  metadata : Metadata
  value : MeterValue
deriving DecidableEq

namespace Meter

/-- Timers record nanoseconds and expose seconds. -/
def nanosScale : Real64 := .ofNat _ Duration.nanosPerSecond

/-- A new meter. Only a distribution's layout can be refused. -/
def create (id : MetricId) (spec : MeterSpec) (metadata : Metadata) : Outcome Meter :=
  let value : Except LayoutFault MeterValue :=
    match spec with
    | .counter => .ok (.counter 0)
    | .gauge sampler => .ok (.gauge sampler)
    | .histogram d => (Distribution.create d (.ofNat _ 1)).map .histogram
    | .timer d => (Distribution.create d nanosScale).map .timer
  match value with
  | .ok value => .ok ⟨id, metadata, value⟩
  | .error fault => .error (.distribution id.name fault)

def kind (m : Meter) : MetricKind := m.value.kind

/-- Add to a count, modulo the word. Other meters have none. -/
def increment (n : UInt64) (m : Meter) : Meter :=
  match m.value with
  | .counter count => { m with value := .counter (count + n) }
  | _ => m

/-- The count, zero for other meters. -/
def count (m : Meter) : UInt64 :=
  match m.value with
  | .counter count => count
  | _ => 0

def distribution? (m : Meter) : Option Distribution :=
  match m.value with
  | .histogram d => some d
  | .timer d => some d
  | _ => none

/-- Record a raw word in a distribution. Other meters have none. -/
def record (raw : Nat) (m : Meter) : Meter :=
  match m.value with
  | .histogram d => { m with value := .histogram (d.record raw) }
  | .timer d => { m with value := .timer (d.record raw) }
  | _ => m

/-- The sampled value; NaN for a meter that is no gauge. -/
def sample (s : Samples) (m : Meter) : Real64 :=
  match m.value with
  | .gauge sampler => s.read sampler
  | _ => .nan

end Meter

end Telemetry
