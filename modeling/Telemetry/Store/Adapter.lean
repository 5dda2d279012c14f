import Telemetry.Store.Basic

/-!
# Adapters

An adapter is what a caller holds of a metric: the composite, and the meter of the caller's own
scope that was captured at registration (specification, 4.3). It reads and writes the captured
meter. Without one it writes to every slot of the composite and reads the first.
-/

namespace Telemetry

/-- What an adapter does with its meter. -/
inductive AdapterForm where
  | counter
  /-- The sampler serves where no meter was captured. -/
  | gauge (sampler : Sampler)
  | histogram
  | timer
deriving DecidableEq, Repr

def AdapterForm.kind : AdapterForm → MetricKind
  | .counter => .counter
  | .gauge _ => .gauge
  | .histogram => .histogram
  | .timer => .timer

/-- The form of an adapter for what a meter was made from. -/
def MeterSpec.form : MeterSpec → AdapterForm
  | .counter => .counter
  | .gauge sampler => .gauge sampler
  | .histogram _ => .histogram
  | .timer _ => .timer

structure Adapter where
  /-- Tells adapters apart. -/
  serial : Nat
  id : MetricId
  form : AdapterForm
  composite : Composite
  /-- The captured meter. -/
  meter : Option MeterRef
deriving DecidableEq

namespace Adapter

def kind (a : Adapter) : MetricKind := a.form.kind

/-- The captured meter, or the one that the composite is read from. -/
def readable? (a : Adapter) (s : MeterStore) : Option Meter :=
  match a.meter with
  | some m => s.meter? m
  | none => s.firstMeter? a.composite

/-- Add to a counter. -/
def increment (a : Adapter) (n : UInt64) (s : MeterStore) : MeterStore :=
  match a.meter with
  | some m => s.modifyMeter m (Meter.increment n)
  | none => s.modifyLive a.composite (Meter.increment n)

/-- Record a raw word: in the captured meter when it holds a distribution, else behind the
composite. -/
def record (a : Adapter) (raw : Nat) (s : MeterStore) : MeterStore :=
  match a.meter.filter fun m => ((s.meter? m).bind Meter.distribution?).isSome with
  | some m => s.modifyMeter m (Meter.record raw)
  | none => s.modifyLive a.composite (Meter.record raw)

/-- Record a value in a histogram. Negative values are left out. -/
def update (a : Adapter) (value : Int) (s : MeterStore) : MeterStore :=
  match value with
  | .ofNat raw => a.record raw s
  | .negSucc _ => s

/-- Record a duration in a timer, at most the largest word of nanoseconds. -/
def updateDuration (a : Adapter) (d : Duration) (s : MeterStore) : MeterStore :=
  a.record (saturate d.nanos) s

/-- The count of a counter. -/
def counterValue (a : Adapter) (s : MeterStore) : UInt64 :=
  ((a.readable? s).map Meter.count).getD 0

/-- The distribution that a histogram or timer reads. -/
def distribution? (a : Adapter) (s : MeterStore) : Option Distribution :=
  (a.readable? s).bind Meter.distribution?

/-- How many values were recorded. -/
def recorded (a : Adapter) (s : MeterStore) : Nat :=
  ((a.distribution? s).map (·.count)).getD 0

/-- The sum of the raw words recorded. -/
def total (a : Adapter) (s : MeterStore) : Nat :=
  ((a.distribution? s).map (·.total)).getD 0

def snapshot (a : Adapter) (s : MeterStore) : Snapshot :=
  ((a.distribution? s).map Distribution.snapshot).getD .empty

/-- The value of a gauge: that of the captured meter, or of its own sampler. -/
def gaugeValue (a : Adapter) (s : MeterStore) : Real64 :=
  match a.meter with
  | some m => ((s.meter? m).map (Meter.sample s.samples)).getD .nan
  | none =>
    match a.form with
    | .gauge sampler => s.samples.read sampler
    | _ => .nan

/-- What a listing counts: increments or recorded values, nothing for a gauge. -/
def count? (a : Adapter) (s : MeterStore) : Option Nat :=
  match a.kind with
  | .counter => some (a.counterValue s).toNat
  | .gauge => none
  | _ => some (a.recorded s)

end Adapter

end Telemetry
