import Telemetry.SortedMap
import Telemetry.Binary.Logarithm
import Telemetry.Distribution.Fault

/-!
# Layout of the counts of a distribution

A distribution counts its values in slots. The lowest `2 ^ subBits` slots are `2 ^ unitBits` wide;
from there on the width doubles with every further `2 ^ (subBits - 1)` slots, so a slot is never
wider than a fixed part of the values in it. `slotOf` gives a value's slot, `lowestOf` and
`highestOf` the first and the last value of a slot.

`Layout.of` is refused when the lowest value is above half of the words, for more than five digits,
and when the narrowest slots with that many digits exceed a word. The width of the narrowest slots
is the power of two at or below the lowest value (`wholeLog2`).
-/

namespace Telemetry

/-- Where values are counted. -/
structure Layout where
  /-- Values too large for the slots are counted as this one. -/
  high : Nat
  /-- The narrowest slots are `2 ^ unitBits` wide. -/
  unitBits : Nat
  /-- The narrowest slots are `2 ^ subBits` in number. -/
  subBits : Nat
  /-- The number of slots. -/
  slots : Nat
deriving DecidableEq, Repr

namespace Layout

/-- The least `k` with `n ≤ 2 ^ k`, for `n` from two on. -/
def bitsFor (n : Nat) : Nat := (n - 1).log2 + 1

/-- How many doublings of the width the values up to `high` take: one, and one more for each limit
that `high` reaches, where a limit above half of the words is the last. -/
def doublings (high : Nat) : Nat → Nat → Nat
  | 0, _ => 1
  | fuel + 1, limit =>
    if limit ≤ high then
      if wordMax / 2 < limit then 2 else 1 + doublings high fuel (2 * limit)
    else 1

/-- The layout for values from `low` to `high` that keep `digits` significant digits. -/
def of (low high digits : Nat) : Except LayoutFault Layout :=
  if wordMax / 2 < low then .error .lowExceedsMax
  else if 5 < digits then .error .digitsExceedMax
  else
    let unitBits := wholeLog2 low
    let subBits := bitsFor (2 * 10 ^ digits)
    if 63 < unitBits + subBits then .error .digitsBeyondLow
    else
      .ok {
        high, unitBits, subBits
        slots := (doublings high 64 (2 ^ (subBits + unitBits)) + 1) * 2 ^ (subBits - 1) }

variable (l : Layout)

/-- How often the width has doubled at a value. -/
def doublingsAt (value : Nat) : Nat := value.log2 + 1 - (l.subBits + l.unitBits)

/-- The slot of a value. -/
def slotOf (value : Nat) : Nat :=
  let k := l.doublingsAt value
  (k + 1) * 2 ^ (l.subBits - 1) + value / 2 ^ (k + l.unitBits) - 2 ^ (l.subBits - 1)

/-- The doublings and the place among the narrowest slots, from which a slot's values follow. -/
def position (slot : Nat) : Nat × Nat :=
  if slot < 2 ^ l.subBits then (0, slot)
  else (slot / 2 ^ (l.subBits - 1) - 1, slot % 2 ^ (l.subBits - 1) + 2 ^ (l.subBits - 1))

/-- The least value of a slot. -/
def lowestOf (slot : Nat) : Nat :=
  let (k, place) := l.position slot
  place * 2 ^ (k + l.unitBits)

/-- The greatest value of a slot. -/
def highestOf (slot : Nat) : Nat :=
  let (k, _) := l.position slot
  saturate (l.lowestOf slot + 2 ^ (k + l.unitBits)) - 1

end Layout

/-- How many values each slot holds; empty slots have no entry. -/
structure SlotCounts where
  layout : Layout
  /-- Natural numbers; as long as fewer than `2 ^ 64` values are recorded, a word holds each of
  them. -/
  counts : SortedMap Nat Nat
deriving DecidableEq

namespace SlotCounts

/-- No values. -/
def empty (layout : Layout) : SlotCounts := ⟨layout, ∅⟩

/-- The slot at which a value is counted: its own, or that of the highest value when its own is past
the end. -/
def target (c : SlotCounts) (value : Nat) : Nat :=
  let slot := c.layout.slotOf value
  if slot < c.layout.slots then slot else c.layout.slotOf c.layout.high

/-- Count a value. -/
def record (c : SlotCounts) (value : Nat) : SlotCounts :=
  let slot := c.target value
  { c with counts := c.counts.insert slot ((c.counts.get? slot).getD 0 + 1) }

/-- The first slot at which the values so far number at least `rank`. -/
def slotAtRank (rank : Nat) : List (Nat × Nat) → Nat → Option Nat
  | [], _ => none
  | (slot, n) :: rest, before =>
    if rank ≤ before + n then some slot else slotAtRank rank rest (before + n)

/-- The value at a quantile of `total` recorded ones: the greatest of the slot at which the share is
reached, at quantile zero the least. A quantile above one is taken as one. -/
def atQuantile (c : SlotCounts) (total : Nat) (quantile : Real64) : Nat :=
  let one := Binary.ofNat .binary64 1
  let q := if one.lt quantile then one else quantile
  let rank := max 1 (q.mul (Binary.ofNat _ total)).ceilWord
  match slotAtRank rank c.counts.entries 0 with
  | none => 0
  | some slot => if q.same (.zero false) then c.layout.lowestOf slot else c.layout.highestOf slot

/-- How many values lie in the slots that satisfy `p`. -/
def countWhere (p : Nat → Bool) : List (Nat × Nat) → Nat
  | [] => 0
  | (slot, n) :: rest => if p slot then n + countWhere p rest else countWhere p rest

/-- How many values lie in slots that end at or below `bound`. -/
def upTo (c : SlotCounts) (bound : Nat) : Nat :=
  countWhere (fun slot => c.layout.highestOf slot ≤ bound) c.counts.entries

end SlotCounts

end Telemetry
