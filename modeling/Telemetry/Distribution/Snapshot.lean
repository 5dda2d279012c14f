import Telemetry.Binary.Decimal

/-!
# Snapshots

What a distribution shows at one time, in the unit it is exposed in (specification, 4.3).
-/

namespace Telemetry

/-- The value at a published quantile. -/
structure PercentileValue where
  percentile : Real64
  value : Real64
deriving DecidableEq

/-- How many values lie at or below a bound. -/
structure BucketValue where
  bound : Real64
  count : Nat
deriving DecidableEq

structure Snapshot where
  count : Nat
  sum : Real64
  max : Real64
  percentiles : List PercentileValue
  buckets : List BucketValue
deriving DecidableEq

namespace Snapshot

/-- The snapshot of nothing. -/
def empty : Snapshot := ⟨0, .zero false, .zero false, [], []⟩

/-- The arithmetic mean, zero without values. -/
def mean (s : Snapshot) : Real64 :=
  if s.count = 0 then .zero false else s.sum.div (.ofNat _ s.count)

/-- Quantiles nearer than this are taken for the same one: the spacing of the numbers after one. -/
def tolerance : Real64 := .ofRatio false (2 ^ (Format.binary64.fraction - 52)) 1

/-- The value at a published quantile. -/
def valueAt (s : Snapshot) (percentile : Real64) : Option Real64 :=
  (s.percentiles.find? fun p => ((p.percentile.sub percentile).abs).lt tolerance).map (·.value)

/-- One line per figure. -/
def text (s : Snapshot) : String :=
  let line (name : String) (value : String) : String := name ++ ": " ++ value ++ "\n"
  line "count" (toString s.count) ++ line "sum" s.sum.text ++ line "mean" s.mean.text ++
    line "max" s.max.text ++
    String.join (s.percentiles.map fun p =>
      line ("p" ++ (p.percentile.mul (.ofNat _ 100)).text) p.value.text) ++
    String.join (s.buckets.map fun b => line ("le " ++ b.bound.text) (toString b.count))

end Snapshot

end Telemetry
