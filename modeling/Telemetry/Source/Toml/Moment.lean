import Telemetry.Binary.Decimal
import Telemetry.Text.Pieces

/-!
# Dates and times of TOML documents

A moment is a date, a time, or a date with a time after a `T` or a blank; only in the last form the
time may have an offset. Months have their own lengths, leap years included, and a minute may have a
leap second.
-/

namespace Telemetry

namespace Toml

/-- A number of two digits within bounds, and the rest. -/
def twoDigits? (low high : Nat) : List Char → Option (Nat × List Char)
  | a :: b :: r =>
    let n := digitsValue [a, b]
    if a.isDigit ∧ b.isDigit ∧ low ≤ n ∧ n ≤ high then some (n, r) else none
  | _ => none

/-- A year of four digits and the rest. -/
def year? (cs : List Char) : Option (Nat × List Char) :=
  let ds := cs.take 4
  if ds.length = 4 ∧ ds.all Char.isDigit then some (digitsValue ds, cs.drop 4) else none

def isLeapYear (year : Nat) : Bool := year % 4 == 0 && (year % 100 != 0 || year % 400 == 0)

def daysOfMonth (year month : Nat) : Nat :=
  if month = 2 then if isLeapYear year then 29 else 28
  else if month = 4 ∨ month = 6 ∨ month = 9 ∨ month = 11 then 30
  else 31

/-- The rest after a date. -/
def date? (cs : List Char) : Option (List Char) := do
  let (year, r) ← year? cs
  let r ← Text.after? ['-'] r
  let (month, r) ← twoDigits? 1 12 r
  let r ← Text.after? ['-'] r
  let (_, r) ← twoDigits? 1 (daysOfMonth year month) r
  some r

/-- The rest after a time. -/
def time? (cs : List Char) : Option (List Char) := do
  let (_, r) ← twoDigits? 0 23 cs
  let r ← Text.after? [':'] r
  let (_, r) ← twoDigits? 0 59 r
  let r ← Text.after? [':'] r
  let (_, r) ← twoDigits? 0 60 r
  match r with
  | '.' :: c :: part => if c.isDigit then some (part.dropWhile Char.isDigit) else some r
  | r => some r

/-- The rest after an offset, if there is one. -/
def offset? (cs : List Char) : Option (List Char) :=
  match cs with
  | [] => some []
  | c :: r =>
    if c = 'Z' ∨ c = 'z' then some r
    else if c = '+' ∨ c = '-' then do
      let (_, r) ← twoDigits? 0 23 r
      let r ← Text.after? [':'] r
      let (_, r) ← twoDigits? 0 59 r
      some r
    else some (c :: r)

/-- The rest after a moment. -/
def moment? (cs : List Char) : Option (List Char) :=
  match date? cs with
  | none => time? cs
  | some [] => some []
  | some (c :: r) =>
    if c = 'T' ∨ c = 't' ∨ c = ' ' then
      match time? r with
      | some r => offset? r
      | none => some (c :: r)
    else some (c :: r)

end Toml

end Telemetry
