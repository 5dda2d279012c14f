import Telemetry.Source.Toml.Names
import Telemetry.Source.Toml.Value

/-!
# TOML documents

`Toml.read?` reads a whole text as a TOML table. A text is a list of `Item`s: a key with its value,
or the header of a table or of an element of an array of tables. `Toml.define?` lays the items out
below each other and refuses a text that defines a name twice.
-/

namespace Telemetry

namespace Toml

/-! ## Items -/

inductive Item where
  | entry (key : List String) (value : Document)
  | header (key : List String)
  | element (key : List String)

/-- An item and the rest of the text, from its next line. -/
def item? (cs : List Char) : Option (Item × List Char) := do
  match cs with
  | '[' :: '[' :: r =>
    let (key, r) ← key? r
    match r with
    | ']' :: ']' :: r => (endLine? r).map fun r => (.element key, r)
    | _ => none
  | '[' :: r =>
    let (key, r) ← key? r
    match r with
    | ']' :: r => (endLine? r).map fun r => (.header key, r)
    | _ => none
  | cs =>
    let (key, r) ← key? cs
    match r with
    | '=' :: r =>
      let (v, r) ← value? (skipBlanks r)
      (endLine? r).map fun r => (.entry key v, r)
    | _ => none

/-- The items of a text. -/
def items? : Nat → List Char → Option (List Item)
  | 0, _ => none
  | fuel + 1, cs => do
    match ← skipLines? cs.length.succ cs with
    | [] => some []
    | cs =>
      let (item, r) ← item? cs
      (items? fuel r).map (item :: ·)

/-! ## Definitions -/

/-- The last part of a key and those before it. -/
def splitLast? (key : List String) : Option (List String × String) :=
  key.getLast?.map fun last => (key.dropLast, last)

/-- Define what the items say, one after the other below the table that the last header opened. -/
def define? : List Item → Path → Names → Option Names
  | [], _, names => some names
  | .entry key _ :: rest, here, names => do
    let (front, last) ← splitLast? key
    let (p, names) ← names.walkDotted? here front
    let p := p ++ [(last, 0)]
    if (names.find? p).isSome then none else define? rest here (names.set p .value)
  | .header key :: rest, _, names => do
    let (front, last) ← splitLast? key
    let (p, names) ← names.walk? [] front
    let p := p ++ [(last, 0)]
    match names.find? p with
    | none | some .implied => define? rest p (names.set p .headed)
    | some _ => none
  | .element key :: rest, _, names => do
    let (front, last) ← splitLast? key
    let (p, names) ← names.walk? [] front
    let array := p ++ [(last, 0)]
    match names.find? array with
    | none => define? rest (p ++ [(last, 1)]) (names.set array (.elements 1))
    | some (.elements n) =>
      define? rest (p ++ [(last, n + 1)]) (names.set array (.elements (n + 1)))
    | some _ => none

/-- The entries at the top of a document: the values given before the first header, and an empty
table for everything else that has a name there. -/
def topEntries (items : List Item) (names : Names) : List (String × Document) :=
  let tables := names.filterMap fun e =>
    match e with
    | (_, .value) => none
    | ([(name, _)], _) => some (name, Document.table [])
    | _ => none
  let values := (items.takeWhile fun i => match i with | .entry .. => true | _ => false).filterMap
    fun i => match i with | .entry [key] v => some (key, v) | _ => none
  tables ++ values

/-- A byte order mark may begin a text. -/
def withoutMark : List Char → List Char
  | '\ufeff' :: r => r
  | r => r

/-- The table of a whole text. Only what stands at its top is kept. -/
def read? (cs : List Char) : Option Document := do
  let cs := withoutMark cs
  let items ← items? cs.length.succ cs
  let names ← define? items [] []
  some (.table (topEntries items names))

end Toml

end Telemetry
