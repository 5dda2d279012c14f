import Telemetry.Binary.Basic

/-!
# Arithmetic of binary numbers

Each operation computes its exact result as a fraction of quanta and rounds it once. The conversions
to a machine word drop (`floorWord`), raise (`ceilWord`) or round (`roundWord`) the part after the
point and clamp to `0 … wordMax`; a NaN gives `0`.
-/

namespace Telemetry

/-- The largest 64-bit word. -/
def wordMax : Nat := UInt64.size - 1

/-- How many signed 64-bit words are negative. -/
def negativeWords : Nat := UInt64.size / 2

/-- Clamp to a 64-bit word. -/
def saturate (n : Nat) : Nat := min n wordMax

namespace Binary

variable {f : Format}

/-- The number nearest to `n`. -/
def ofNat (f : Format) (n : Nat) : Binary f := ofRatio false (n * 2 ^ f.fraction) 1

def neg : Binary f → Binary f
  | nan => nan
  | infinite s => infinite !s
  | finite s m => finite (!s) m

def abs : Binary f → Binary f
  | nan => nan
  | infinite _ => infinite false
  | finite _ m => finite false m

/-- The sum. A zero sum is negative only when both terms are negative zeros. -/
def add : Binary f → Binary f → Binary f
  | nan, _ => nan
  | _, nan => nan
  | infinite s, infinite t => if s = t then infinite s else nan
  | infinite s, finite _ _ => infinite s
  | finite _ _, infinite t => infinite t
  | finite s a, finite t b =>
    let sum : Int :=
      (if s then -(a.quanta : Int) else a.quanta) + if t then -(b.quanta : Int) else b.quanta
    if sum = 0 then zero (s && t) else ofRatio (decide (sum < 0)) sum.natAbs 1

def sub (a b : Binary f) : Binary f := a.add b.neg

/-- The product; `∞ · 0` is NaN. -/
def mul : Binary f → Binary f → Binary f
  | nan, _ => nan
  | _, nan => nan
  | infinite s, infinite t => infinite (s ^^ t)
  | infinite s, finite t b => if b.quanta = 0 then nan else infinite (s ^^ t)
  | finite s a, infinite t => if a.quanta = 0 then nan else infinite (s ^^ t)
  | finite s a, finite t b => ofRatio (s ^^ t) (a.quanta * b.quanta) (2 ^ f.fraction)

/-- The quotient; `0 / 0` and `∞ / ∞` are NaN. -/
def div : Binary f → Binary f → Binary f
  | nan, _ => nan
  | _, nan => nan
  | infinite _, infinite _ => nan
  | infinite s, finite t _ => infinite (s ^^ t)
  | finite s _, infinite t => zero (s ^^ t)
  | finite s a, finite t b =>
    if b.quanta = 0 then
      if a.quanta = 0 then nan else infinite (s ^^ t)
    else ofRatio (s ^^ t) (a.quanta * 2 ^ f.fraction) b.quanta

/-! ## Words -/

/-- Apply `part` to a finite non-negative count of quanta and clamp. -/
def toWord (part : Nat → Nat) : Binary f → Nat
  | nan => 0
  | infinite true => 0
  | infinite false => wordMax
  | finite true _ => 0
  | finite false m => saturate (part m.quanta)

/-- The word at or below the number. -/
def floorWord (x : Binary f) : Nat := x.toWord fun n => n / 2 ^ f.fraction

/-- The word at or above the number. -/
def ceilWord (x : Binary f) : Nat := x.toWord fun n => (n + (2 ^ f.fraction - 1)) / 2 ^ f.fraction

/-- The word nearest to the number, a half goes up. -/
def roundWord (x : Binary f) : Nat :=
  x.toWord fun n => (2 * n + 2 ^ f.fraction) / 2 ^ (f.fraction + 1)

end Binary

end Telemetry
