import Telemetry.Distribution.Layout
import Telemetry.Distribution.Snapshot
import Telemetry.Distribution.Spec

/-!
# Distributions

A `Distribution` counts raw words (specification, 4.3). `scale` turns a raw word into the exposed
unit: one for plain values, nanoseconds per second for durations. Count, total and greatest value
are kept beside the slots, so they do not depend on the layout; the total stops at the largest word.

Recordings are counted by natural numbers, here and in the slots. A counter of one word counts the
same up to `2 ^ 64 - 1` recordings, which no process lives to make: one each nanosecond would take
over five hundred years.
-/

namespace Telemetry

structure Distribution where
  spec : DistributionSpec
  scale : Real64
  slots : SlotCounts
  /-- How many values were recorded; a word has room for `2 ^ 64 - 1` of them. -/
  count : Nat
  /-- Their sum, at most the largest word. -/
  total : Nat
  greatest : Nat
deriving DecidableEq

namespace Distribution

/-- The least value told apart from zero: the configured one in raw units, at least one. -/
def lowOf (spec : DistributionSpec) (scale : Real64) : Nat :=
  max 1 ((spec.minValue.map fun v => (v.mul scale).floorWord).getD 1)

/-- The greatest value that is laid out: the configured one in raw units, at least twice the
least. -/
def highOf (spec : DistributionSpec) (scale : Real64) : Nat :=
  let twice := saturate (2 * lowOf spec scale)
  match spec.maxValue with
  | some v => max (v.mul scale).ceilWord twice
  | none => twice

/-- An empty distribution, unless its counts cannot be laid out. -/
def create (spec : DistributionSpec) (scale : Real64) : Except LayoutFault Distribution :=
  (Layout.of (lowOf spec scale) (highOf spec scale) spec.precision).map fun layout =>
    ⟨spec, scale, .empty layout, 0, 0, 0⟩

/-- Record a raw word. -/
def record (d : Distribution) (raw : Nat) : Distribution :=
  { d with
    slots := d.slots.record raw
    count := d.count + 1
    total := saturate (d.total + raw)
    greatest := max d.greatest raw }

/-- A raw word in the exposed unit. -/
def expose (d : Distribution) (raw : Nat) : Real64 := (Binary.ofNat _ raw).div d.scale

/-- The distribution as it stands. -/
def snapshot (d : Distribution) : Snapshot :=
  { count := d.count
    sum := d.expose d.total
    max := d.expose d.greatest
    percentiles := d.spec.percentiles.map fun p =>
      ⟨p, if d.count = 0 then .zero false else d.expose (d.slots.atQuantile d.count p)⟩
    buckets := d.spec.buckets.map fun b => ⟨b, d.slots.upTo (b.mul d.scale).roundWord⟩ }

end Distribution

end Telemetry
