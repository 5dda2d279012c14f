import Telemetry.Binary.Decimal
import Telemetry.Source.Toml.Moment
import Telemetry.Source.Toml.Text

/-!
# Values of TOML documents

`Toml.value?` reads a value and returns it with the text after it. Integers are signed words; other
numbers are refused when they round to the positive infinity.
-/

namespace Telemetry

namespace Toml

/-! ## Numbers and words -/

/-- Digits of a base with underscores between them. -/
def spaced? (isDigit : Char → Bool) : List Char → Option (List Char)
  | [] => none
  | c :: r =>
    if !isDigit c then none
    else
      match r with
      | [] => some [c]
      | '_' :: r => (spaced? isDigit r).map (c :: ·)
      | r => (spaced? isDigit r).map (c :: ·)

/-- A signed 64-bit integer. -/
def word? (n : Int) : Option Document :=
  if -(negativeWords : Int) ≤ n ∧ n < negativeWords then some (.integer n) else none

/-- An integer in a base, after the mark of the base. -/
def based? (base : Nat) (cs : List Char) : Option Document := do
  let ds ← spaced? (fun c => (hexDigit? c).isSome) cs
  let n ← inBase? base ds
  word? n

/-- No zero stands before another digit. -/
def noLeadingZero (ds : List Char) : Bool := !(ds.head? == some '0' && 1 < ds.length)

/-- Whether a number with a point or an exponent, given after its sign, is not beyond the greatest
double. Below the least one it is taken as the negative infinity. -/
def isInRange (negative : Bool) (cs : List Char) : Bool :=
  negative || ((Binary.ofText? .binary64 (cs.filter (· != '_'))).map Binary.isFinite).getD false

/-- A decimal number after its sign: an integer, or a number with a point or an exponent. -/
def decimal? (negative : Bool) (cs : List Char) : Option Document := do
  let isPart (c : Char) : Bool := c.isDigit || c == '_'
  let whole ← spaced? Char.isDigit (cs.takeWhile isPart)
  if !noLeadingZero whole then none
  else
    match cs.dropWhile isPart with
    | [] => word? (if negative then -(digitsValue whole : Int) else digitsValue whole)
    | r =>
      let r ← match r with
        | '.' :: r =>
          let _ ← spaced? Char.isDigit (r.takeWhile isPart)
          some (r.dropWhile isPart)
        | r => some r
      let ends ← match r with
        | [] => some true
        | c :: r =>
          if c = 'e' ∨ c = 'E' then
            (spaced? Char.isDigit (Decimal.sign r).2).map fun _ => true
          else none
      if ends && isInRange negative cs then some .fraction else none

/-- A word or a number. -/
def token? (cs : List Char) : Option Document :=
  match cs with
  | ['t', 'r', 'u', 'e'] => some (.boolean true)
  | ['f', 'a', 'l', 's', 'e'] => some (.boolean false)
  | '0' :: 'x' :: r => based? 16 r
  | '0' :: 'o' :: r => based? 8 r
  | '0' :: 'b' :: r => based? 2 r
  | cs =>
    let (negative, r) := Decimal.sign cs
    if r = ['i', 'n', 'f'] ∨ r = ['n', 'a', 'n'] then some .fraction else decimal? negative r

def isTokenChar (c : Char) : Bool :=
  c.isAlphanum || c == '_' || c == '+' || c == '-' || c == '.' || c == ':'

/-- A value that is neither quoted nor bracketed, and the rest. -/
def tokenAt? (cs : List Char) : Option (Document × List Char) :=
  match moment? cs with
  | some r => some (.moment, r)
  | none => (token? (cs.takeWhile isTokenChar)).map fun v => (v, cs.dropWhile isTokenChar)

/-! ## Values -/

mutual

/-- A value, which may hold so many levels of arrays and inline tables, and the rest. -/
def valueWithin? : Nat → Nat → List Char → Option (Document × List Char)
  | 0, _, _ => none
  | fuel + 1, depth, cs =>
    match cs, depth with
    | '"' :: _, _ => (string? cs).map fun (t, r) => (.text t, r)
    | '\'' :: _, _ => (string? cs).map fun (t, r) => (.text t, r)
    | '[' :: _, 0 => none
    | '[' :: r, depth + 1 => (elements? fuel depth r).map fun (vs, r) => (.list vs, r)
    | '{' :: _, 0 => none
    | '{' :: r, depth + 1 =>
      match skipBlanks r with
      | '}' :: r => some (.table [], r)
      | r => (members? fuel depth r []).map fun r => (.table [], r)
    | cs, _ => tokenAt? cs

/-- The elements of an array up to its end, and the rest. -/
def elements? : Nat → Nat → List Char → Option (List Document × List Char)
  | 0, _, _ => none
  | fuel + 1, depth, cs => do
    match ← skipLines? cs.length.succ cs with
    | ']' :: r => some ([], r)
    | cs =>
      let (v, r) ← valueWithin? fuel depth cs
      match ← skipLines? r.length.succ r with
      | ',' :: r =>
        let (vs, r) ← elements? fuel depth r
        some (v :: vs, r)
      | ']' :: r => some ([v], r)
      | _ => none

/-- The rest after the members of an inline table, none of whose keys leads another. -/
def members? : Nat → Nat → List Char → List (List String) → Option (List Char)
  | 0, _, _, _ => none
  | fuel + 1, depth, cs, seen => do
    let (key, r) ← key? cs
    if seen.any fun k => k.isPrefixOf key || key.isPrefixOf k then none
    else
      match r with
      | '=' :: r =>
        let (_, r) ← valueWithin? fuel depth (skipBlanks r)
        match skipBlanks r with
        | ',' :: r => members? fuel depth r (key :: seen)
        | '}' :: r => some r
        | _ => none
      | _ => none

end

/-- A value and the rest. -/
def value? (cs : List Char) : Option (Document × List Char) :=
  valueWithin? cs.length.succ maxDepth cs

end Toml

end Telemetry
