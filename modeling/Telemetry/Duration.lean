import Telemetry.Binary.Decimal
import Telemetry.Text.Blank
import Telemetry.Text.Pieces

/-!
# Durations

A duration is a number of nanoseconds (specification, 6.2). `Duration.read?` reads an amount with an
optional unit `ms`, `s`, `m` or `h`; an amount alone counts milliseconds.
-/

namespace Telemetry

/-- The double nearest to `significand · 10 ^ exponent`. -/
def decimal (significand : Nat) (exponent : Int) : Real64 :=
  .ofDecimal .binary64 (.finite false significand exponent)

/-- What a text says as an amount. -/
inductive Amount where
  | notNumber
  | negative
  | number (value : Real64)

/-- Read a finite number from zero on; blanks around it are dropped. -/
def Amount.read (cs : List Char) : Amount :=
  match Binary.ofText? .binary64 (Text.trim cs) with
  | none => .notNumber
  | some x => if x.isFinite && !x.lt (.zero false) then .number x else .negative

structure Duration where
  nanos : Nat
deriving DecidableEq, Repr

namespace Duration

def nanosPerSecond : Nat := 1000000000

/-- Seconds, the whole ones and the part after the point converted apart. -/
def seconds (d : Duration) : Real64 :=
  (Binary.ofNat _ (d.nanos / nanosPerSecond)).add
    ((Binary.ofNat _ (d.nanos % nanosPerSecond)).div (Binary.ofNat _ nanosPerSecond))

/-- The units with their nanoseconds, in the order in which they are tried at the end of a text. -/
def units : List (String × Nat) :=
  [("ms", 1000000), ("s", 1000000000), ("m", 60000000000), ("h", 3600000000000)]

/-- The amount's text and the nanoseconds of its unit. -/
def splitUnit (cs : List Char) : List Char × Nat :=
  match units.findSome? fun u => (Text.before? u.1.toList cs).map fun r => (r, u.2) with
  | some r => r
  | none => (cs, 1000000)

/-- Read a duration. -/
def read? (cs : List Char) : Option Duration :=
  let (amount, unit) := splitUnit (Text.trim cs)
  match Amount.read amount with
  | .number x => some ⟨(x.mul (Binary.ofNat _ unit)).roundWord⟩
  | _ => none

end Duration

end Telemetry
