import Telemetry.Binary.Arithmetic

/-!
# Decimal text of binary numbers

`Decimal.read?` reads an optional sign and then either a word (`inf`, `infinity`, `nan`, in any
case) or digits with an optional point and an optional exponent. At least one digit stands before or
after the point, and nothing else may stand in the text. `Binary.ofText?` rounds what was read to
the nearest number.

`Binary.text` writes the shortest text that reads back: the point nearest to the number on the
coarsest decimal grid that has a point in the number's rounding interval, of two equally near points
the upper one. It is written positionally, without an exponent and without a point for whole
numbers.
-/

namespace Telemetry

/-- The value of a digit string. -/
def digitsValue (cs : List Char) : Nat := cs.foldl (fun n c => 10 * n + (c.toNat - '0'.toNat)) 0

/-- The digits of a number, most significant first. -/
def digitsOf (n : Nat) : List Char := Nat.toDigits 10 n

/-- What a decimal text says, before rounding. -/
inductive Decimal where
  | nan
  | infinite (negative : Bool)
  /-- `± significand · 10 ^ exponent` -/
  | finite (negative : Bool) (significand : Nat) (exponent : Int)
deriving DecidableEq

namespace Decimal

/-- A sign if there is one (`true`: minus), and the rest. -/
def sign : List Char → Bool × List Char
  | '+' :: r => (false, r)
  | '-' :: r => (true, r)
  | r => (false, r)

/-- The leading digits and the rest. -/
def digits (cs : List Char) : List Char × List Char :=
  (cs.takeWhile Char.isDigit, cs.dropWhile Char.isDigit)

/-- The exponent part, which ends the text: nothing, or `e` with a signed number. -/
def exponent? : List Char → Option Int
  | [] => some 0
  | c :: r =>
    if c = 'e' ∨ c = 'E' then
      let (negative, r) := sign r
      let (ds, r) := digits r
      if ds.isEmpty ∨ !r.isEmpty then none
      else some (if negative then -(digitsValue ds : Int) else digitsValue ds)
    else none

/-- Digits, an optional point, digits, an optional exponent. -/
def unsigned? (negative : Bool) (cs : List Char) : Option Decimal :=
  let (whole, r) := digits cs
  let (part, r) :=
    match r with
    | '.' :: r => digits r
    | r => ([], r)
  if whole.isEmpty ∧ part.isEmpty then none
  else (exponent? r).map fun e =>
    .finite negative (digitsValue (whole ++ part)) (e - part.length)

/-- The reading of a whole text. -/
def read? (cs : List Char) : Option Decimal :=
  let (negative, r) := sign cs
  let word := r.map Char.toLower
  if word = "nan".toList then some nan
  else if word = "inf".toList ∨ word = "infinity".toList then some (infinite negative)
  else unsigned? negative r

end Decimal

namespace Binary

variable {f : Format}

/-- The number nearest to a decimal. Exponents so large or small that the answer is an infinity or a
zero whatever the digits are answered first: `10 ^ k` exceeds `2 ^ k`. -/
def ofDecimal (f : Format) : Decimal → Binary f
  | .nan => nan
  | .infinite negative => infinite negative
  | .finite negative significand exponent =>
    if significand = 0 then zero negative
    else
      let top := exponent + (digitsOf significand).length
      if top > f.width then infinite negative
      else if top < -(f.fraction + 2 : Nat) then zero negative
      else if exponent < 0 then
        ofRatio negative (significand * 2 ^ f.fraction) (10 ^ exponent.natAbs)
      else ofRatio negative (significand * 10 ^ exponent.natAbs * 2 ^ f.fraction) 1

/-- Read a number; `none` when the text is no decimal. -/
def ofText? (f : Format) (cs : List Char) : Option (Binary f) :=
  (Decimal.read? cs).map (ofDecimal f)

/-! ## Writing -/

/-- A magnitude's rounding interval in quarter quanta: the reals that round to it. The lower half is
shorter where the spacing changes; the ends belong to it when the significand is even. -/
structure Interval where
  lower : Nat
  value : Nat
  upper : Nat
  closed : Bool

def Interval.of (f : Format) (n : Nat) : Interval :=
  let gap := 2 ^ f.spacing n
  let narrow := n = 2 ^ n.log2 ∧ 1 < gap
  { lower := 4 * n - if narrow then gap else 2 * gap
    value := 4 * n
    upper := 4 * n + 2 * gap
    closed := (n / gap) % 2 == 0 }

/-- `significand · 10 ^ exponent` -/
structure Digits where
  significand : Nat
  exponent : Int

/-- The nearest point in the interval on the grid of multiples of `10 ^ p`, if one of the two around
the value is in it. -/
def Interval.gridPoint? (f : Format) (i : Interval) (p : Int) : Option Digits :=
  let unit := 4 * 2 ^ f.fraction * 10 ^ p.toNat
  let scale := 10 ^ (-p).toNat
  let value := i.value * scale
  let below := value / unit
  let within (c : Nat) : Bool :=
    if i.closed then decide (i.lower * scale ≤ c * unit ∧ c * unit ≤ i.upper * scale)
    else decide (i.lower * scale < c * unit ∧ c * unit < i.upper * scale)
  match within below, within (below + 1) with
  | true, true =>
    if value - below * unit < (below + 1) * unit - value then some ⟨below, p⟩
    else some ⟨below + 1, p⟩
  | true, false => some ⟨below, p⟩
  | false, true => some ⟨below + 1, p⟩
  | false, false => none

/-- Search the grids from `10 ^ p` downwards. -/
def Interval.coarsest (f : Format) (i : Interval) : Nat → Int → Digits
  | 0, p => ⟨0, p⟩
  | fuel + 1, p => (i.gridPoint? f p).getD (coarsest f i fuel (p - 1))

/-- The shortest decimal that reads back as `n` quanta. No multiple of a power of ten above the
first grid tried is in the interval, since `2 ^ e < 10 ^ (e / 3 + 1)` and
`2 ^ (-e) ≤ 10 ^ (-(e / 4))`. -/
def shortest (f : Format) (n : Nat) : Digits :=
  let e : Int := (n.log2 + 2 : Nat) - (f.fraction : Int)
  let top := if 0 ≤ e then e / 3 + 1 else -(-e / 4)
  (Interval.of f n).coarsest f (f.width + f.fraction) top

/-- Drop the zeros at the end. -/
def dropTrailingZeros (cs : List Char) : List Char := (cs.reverse.dropWhile (· == '0')).reverse

/-- Positional notation of `d`. -/
def Digits.text (d : Digits) : List Char :=
  let ds := digitsOf d.significand
  if 0 ≤ d.exponent then ds ++ List.replicate d.exponent.toNat '0'
  else
    let places := (-d.exponent).toNat
    let padded := List.replicate (places + 1 - ds.length) '0' ++ ds
    let whole := padded.take (padded.length - places)
    let part := dropTrailingZeros (padded.drop (padded.length - places))
    if part.isEmpty then whole else whole ++ '.' :: part

/-- The text of a number. -/
def text : Binary f → String
  | nan => "NaN"
  | infinite negative => if negative then "-inf" else "inf"
  | finite negative m =>
    let body := if m.quanta = 0 then ['0'] else (shortest f m.quanta).text
    String.ofList (if negative then '-' :: body else body)

end Binary

end Telemetry
