import Telemetry.Binary.Decimal
import Telemetry.Source.Document

/-!
# JSON documents

`Json.read?` reads a whole text as one JSON value with blanks around it. A number beyond the doubles
is refused, and so are lists and objects that lie too deep in each other.
-/

namespace Telemetry

namespace Json

def isBlank (c : Char) : Bool := c == ' ' || c == '\t' || c == '\n' || c == '\r'

def skipBlanks (cs : List Char) : List Char := cs.dropWhile isBlank

/-- The code point of a `\u` escape, written as one unit or as a pair of surrogates, and the
rest. -/
def unit? (cs : List Char) : Option (Char × List Char) := do
  let (high, r) ← hexDigits? 4 0 cs
  if 0xD800 ≤ high ∧ high < 0xDC00 then
    match r with
    | '\\' :: 'u' :: r =>
      let (low, r) ← hexDigits? 4 0 r
      if 0xDC00 ≤ low ∧ low < 0xE000 then
        let c ← charOf? (0x10000 + (high - 0xD800) * 0x400 + (low - 0xDC00))
        some (c, r)
      else none
    | _ => none
  else
    let c ← charOf? high
    some (c, r)

/-- The character of an escape, after its backslash, and the rest. -/
def escaped? : List Char → Option (Char × List Char)
  | '"' :: r => some ('"', r)
  | '\\' :: r => some ('\\', r)
  | '/' :: r => some ('/', r)
  | 'b' :: r => some ('\x08', r)
  | 'f' :: r => some ('\x0c', r)
  | 'n' :: r => some ('\n', r)
  | 'r' :: r => some ('\r', r)
  | 't' :: r => some ('\t', r)
  | 'u' :: r => unit? r
  | _ => none

/-- The content of a string, after its first quote, and the rest. -/
def content? : Nat → List Char → Option (List Char × List Char)
  | 0, _ => none
  | _ + 1, [] => none
  | _ + 1, '"' :: r => some ([], r)
  | fuel + 1, '\\' :: r => do
    let (c, r) ← escaped? r
    let (cs, r) ← content? fuel r
    some (c :: cs, r)
  | fuel + 1, c :: r =>
    if c.toNat < 0x20 then none
    else do
      let (cs, r) ← content? fuel r
      some (c :: cs, r)

def string? (cs : List Char) : Option (String × List Char) :=
  (content? cs.length.succ cs).map fun (t, r) => (String.ofList t, r)

/-- Digits, of which those count that a word can hold: the value so far, how many digits were left
out after it, and the rest. Once a digit is left out, so are all after it. -/
def counted : Nat → List Char → Nat × Nat × List Char
  | n, [] => (n, 0, [])
  | n, c :: r =>
    if c.isDigit then
      let next := 10 * n + (c.toNat - '0'.toNat)
      if next ≤ wordMax then counted next r
      else (n, ((c :: r).takeWhile Char.isDigit).length, r.dropWhile Char.isDigit)
    else (n, 0, c :: r)

/-- The exponent, zero if there is none, and the rest. -/
def exponent? : List Char → Option (Int × List Char)
  | [] => some (0, [])
  | c :: r =>
    if c = 'e' ∨ c = 'E' then
      let (negative, r) := Decimal.sign r
      let (ds, r) := Decimal.digits r
      if ds.isEmpty then none
      else some (if negative then -(digitsValue ds : Int) else digitsValue ds, r)
    else some (0, c :: r)

/-- Whether `significand · 10 ^ exponent` is a double when both factors are rounded first. -/
def isDouble (significand : Nat) (exponent : Int) : Bool :=
  if significand = 0 ∨ exponent < 0 then true
  else if 308 < exponent then false
  else
    let scale := Binary.ofDecimal .binary64 (.finite false 1 exponent)
    ((Binary.ofNat .binary64 significand).mul scale).isFinite

/-- The rest after the point and the exponent of a number, if it is a double. Its whole part is the
value `whole` of its counted digits, with `left` digits more. -/
def fraction? (whole left : Nat) (cs : List Char) : Option (List Char) := do
  let (n, places, r) ←
    match cs with
    | '.' :: r =>
      let (part, after) := Decimal.digits r
      let (n, dropped, _) := counted whole r
      if part.isEmpty then none else some (n, part.length - dropped, after)
    | r => some (whole, 0, r)
  let (e, r) ← exponent? r
  if isDouble n (left - places + e) then some r else none

/-- A number and the rest. Whole numbers that a word holds are integers; of the others only those
are numbers that a double can hold. -/
def number? (cs : List Char) : Option (Document × List Char) :=
  let (negative, digits) :=
    match cs with
    | '-' :: r => (true, r)
    | r => (false, r)
  let (ds, r) := Decimal.digits digits
  if ds.isEmpty ∨ (ds.head? = some '0' ∧ 1 < ds.length) then none
  else
    let (n, left, _) := counted 0 ds
    let isWord := left = 0 ∧ (negative → 0 < n ∧ n ≤ negativeWords)
    let ends := match r with
      | c :: _ => c != '.' && c != 'e' && c != 'E'
      | [] => true
    if ends ∧ isWord then some (.integer (if negative then -(n : Int) else n), r)
    else (fraction? n left r).map fun r => (.fraction, r)

/-- A word of the language, and the rest. -/
def word? (cs : List Char) : Option (Document × List Char) :=
  match cs with
  | 'n' :: 'u' :: 'l' :: 'l' :: r => some (.nothing, r)
  | 't' :: 'r' :: 'u' :: 'e' :: r => some (.boolean true, r)
  | 'f' :: 'a' :: 'l' :: 's' :: 'e' :: r => some (.boolean false, r)
  | _ => none

/-- How deep lists and objects may lie in each other. -/
def maxDepth : Nat := 127

mutual

/-- A value, which may hold so many levels of lists and objects, and the rest. -/
def value? : Nat → Nat → List Char → Option (Document × List Char)
  | 0, _, _ => none
  | fuel + 1, depth, cs =>
    match skipBlanks cs, depth with
    | '{' :: _, 0 => none
    | '{' :: r, depth + 1 =>
      match skipBlanks r with
      | '}' :: r => some (.table [], r)
      | r => (members? fuel depth r).map fun (es, r) => (.table es, r)
    | '[' :: _, 0 => none
    | '[' :: r, depth + 1 =>
      match skipBlanks r with
      | ']' :: r => some (.list [], r)
      | r => (elements? fuel depth r).map fun (vs, r) => (.list vs, r)
    | '"' :: r, _ => (string? r).map fun (t, r) => (.text t, r)
    | r, _ => (word? r).or (number? r)

/-- The members of an object up to its end, and the rest. -/
def members? : Nat → Nat → List Char → Option (List (String × Document) × List Char)
  | 0, _, _ => none
  | fuel + 1, depth, cs =>
    match skipBlanks cs with
    | '"' :: r => do
      let (key, r) ← string? r
      match skipBlanks r with
      | ':' :: r =>
        let (v, r) ← value? fuel depth r
        match skipBlanks r with
        | ',' :: r =>
          let (es, r) ← members? fuel depth r
          some ((key, v) :: es, r)
        | '}' :: r => some ([(key, v)], r)
        | _ => none
      | _ => none
    | _ => none

/-- The elements of an array up to its end, and the rest. -/
def elements? : Nat → Nat → List Char → Option (List Document × List Char)
  | 0, _, _ => none
  | fuel + 1, depth, cs => do
    let (v, r) ← value? fuel depth cs
    match skipBlanks r with
    | ',' :: r =>
      let (vs, r) ← elements? fuel depth r
      some (v :: vs, r)
    | ']' :: r => some ([v], r)
    | _ => none

end

/-- The value of a whole text. -/
def read? (cs : List Char) : Option Document :=
  match value? cs.length.succ maxDepth cs with
  | some (v, r) => if (skipBlanks r).isEmpty then some v else none
  | none => none

end Json

end Telemetry
