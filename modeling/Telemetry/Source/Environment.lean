import Telemetry.Binary.Decimal
import Telemetry.Source.Toml.Text
import Telemetry.Text.Blank
import Telemetry.Text.Pieces

/-!
# Environment variables as a source

A variable belongs to a source when its name begins with the source's word and an underscore, in any
case; the rest of the name, in lower case, is the key (specification, 6.2). A value is read as a
word, a number, a quoted text, a list or a table, and taken as it stands when it is none of them.
-/

namespace Telemetry

namespace Environment

def isBlank (c : Char) : Bool :=
  c == ' ' || c == '\t' || c == '\n' || c == '\r' || c == '\x0c'

def skipBlanks (cs : List Char) : List Char := cs.dropWhile isBlank

/-- A bare value ends before one of these. -/
def isSeparator (c : Char) : Bool :=
  c == ',' || c == '{' || c == '}' || c == '[' || c == ']'

/-- A whole number that a word holds. -/
def integer? (cs : List Char) : Option Int :=
  let (negative, r) := Decimal.sign cs
  let n := digitsValue r
  if r.isEmpty ∨ !r.all Char.isDigit then none
  else if negative then if n ≤ negativeWords then some (-(n : Int)) else none
  else if n ≤ wordMax then some n else none

/-- A value without quotes and brackets. -/
def bare (cs : List Char) : Document :=
  if cs.contains '.' ∧ (Decimal.read? cs).isSome then .fraction
  else
    match integer? cs with
    | some n => .integer n
    | none => .text (String.ofList cs)

/-- The first `n` bytes of a text, if a character ends there. -/
def firstBytes? (n : Nat) : List Char → Option (List Char)
  | [] => if n = 0 then some [] else none
  | c :: r =>
    if n = 0 then some []
    else if n < c.utf8Size then none
    else (firstBytes? (n - c.utf8Size) r).map (c :: ·)

/-- The content of a quoted text, after its quote, and the rest. Of the characters before the first
escape only as many bytes are kept as there are characters. -/
def quoted? (cs : List Char) : Option (List Char × List Char) := do
  let (content, r) ← Toml.basic? cs.length.succ cs
  let plain := cs.takeWhile fun c => c != '\\' && c != '"'
  match cs.drop plain.length with
  | '\\' :: _ =>
    let kept ← firstBytes? plain.length plain
    some (kept ++ content.drop plain.length, r)
  | _ => some (content, r)

def isKeyChar (c : Char) : Bool := c.isAlphanum || c == '_' || c == '-'

/-- A key of a table and the rest after its equals sign. -/
def key? (cs : List Char) : Option (String × List Char) := do
  let (key, r) ←
    match skipBlanks cs with
    | '"' :: r => quoted? r
    | r =>
      let key := r.takeWhile isKeyChar
      if key.isEmpty then none else some (key, r.dropWhile isKeyChar)
  match skipBlanks r with
  | '=' :: r => some (String.ofList key, r)
  | _ => none

mutual

/-- A value with the blanks around it, and the rest. -/
def value? : Nat → List Char → Option (Document × List Char)
  | 0, _ => none
  | fuel + 1, cs => do
    let (v, r) ←
      match skipBlanks cs with
      | 't' :: 'r' :: 'u' :: 'e' :: r => some (.boolean true, r)
      | 'f' :: 'a' :: 'l' :: 's' :: 'e' :: r => some (.boolean false, r)
      | '"' :: r => (quoted? r).map fun (t, r) => (.text (String.ofList t), r)
      | '\'' :: c :: '\'' :: r => some (.text c.toString, r)
      | '\'' :: _ => none
      | '[' :: r => (elements? fuel r).map fun (vs, r) => (.list vs, r)
      | '{' :: r => (members? fuel r).map fun (es, r) => (.table es, r)
      | r =>
        let word := r.takeWhile fun c => !isSeparator c
        some (bare (Text.trim word), r.drop word.length)
    some (v, skipBlanks r)

/-- The elements of a list up to its end, and the rest. -/
def elements? : Nat → List Char → Option (List Document × List Char)
  | 0, _ => none
  | _ + 1, ']' :: r => some ([], r)
  | fuel + 1, cs => do
    let (v, r) ← value? fuel cs
    match r with
    | ',' :: r =>
      let (vs, r) ← elements? fuel r
      some (v :: vs, r)
    | ']' :: r => some ([v], r)
    | _ => none

/-- The members of a table up to its end, and the rest. -/
def members? : Nat → List Char → Option (List (String × Document) × List Char)
  | 0, _ => none
  | _ + 1, '}' :: r => some ([], r)
  | fuel + 1, cs => do
    let (key, r) ← key? cs
    let (v, r) ← value? fuel r
    match r with
    | ',' :: r =>
      let (es, r) ← members? fuel r
      some ((key, v) :: es, r)
    | '}' :: r => some ([(key, v)], r)
    | _ => none

end

/-- The value of a variable. -/
def value (cs : List Char) : Document :=
  match value? cs.length.succ cs with
  | some (v, []) => v
  | _ => .text (String.ofList cs)

/-- The key that a variable's name stands for, in parts between points. -/
def key (word name : List Char) : Option (List (List Char)) := do
  let rest ← Text.after? (word.map Char.toLower ++ ['_']) ((Text.trim name).map Char.toLower)
  let parts := Text.splitOn '.' (Text.trim rest)
  if parts.any List.isEmpty then none else some parts

/-- The key and value of a variable. A key in several parts stands for a table within the first of
them. -/
def binding? (word : String) (named : String × String) : Option (String × SourceValue) := do
  let parts ← key word.toList named.1.toList
  let first ← parts.head?
  let v := (value named.2.toList).toValue
  some (String.ofList first, if parts.length = 1 then v else .other)

/-- What the variables of a source say; of two for one key the later one counts. -/
def read (word : String) (assignments : List (String × String)) : SourceTable :=
  SortedMap.ofList (assignments.filterMap (binding? word))

end Environment

end Telemetry
