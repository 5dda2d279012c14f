import Telemetry.Binary.Decimal
import Telemetry.Source.Document
import Telemetry.Source.Yaml.Cursor

/-!
# Tags and directives of YAML documents

A tag is written as a handle with a suffix, and a directive may say which start of a tag its handle
stands for. A `Tag` is a list of octets: a character may be written as `%` with the hexadecimal
digits of its octets.
-/

namespace Telemetry

namespace Yaml

/-- The octets of a tag, each as the character of its number. -/
abbrev Tag := List Char

namespace Tag

/-- The tags that a value's type may be given by. -/
def core (name : String) : Tag := ("tag:yaml.org,2002:" ++ name).toList

/-- A tag of the document's own: one that begins with `!` and whose octets are text. -/
def isLocal : Tag → Bool
  | '!' :: r => ByteArray.validateUTF8 ⟨(r.map fun c => c.toNat.toUInt8).toArray⟩
  | _ => false

end Tag

/-! ## Octets -/

/-- An octet after a percent sign, and the rest. -/
def octet? : List Char → Option (Nat × List Char)
  | '%' :: r => hexDigits? 2 0 r
  | _ => none

/-- So many octets that may not begin a character, and the rest. -/
def trailingOctets? : Nat → List Char → Option (List Nat × List Char)
  | 0, cs => some ([], cs)
  | n + 1, cs => do
    let (o, r) ← octet? cs
    if o < 0x80 ∨ 0xC0 ≤ o then none
    else do
      let (os, r) ← trailingOctets? n r
      some (o :: os, r)

/-- How many octets follow the first one of a character. -/
def trailing? (first : Nat) : Option Nat :=
  if first < 0x80 then some 0
  else if 0xC0 ≤ first ∧ first < 0xE0 then some 1
  else if 0xE0 ≤ first ∧ first < 0xF0 then some 2
  else if 0xF0 ≤ first ∧ first < 0xF8 then some 3
  else none

/-- The octets of an escaped character, and the rest. -/
def escapedOctets? (cs : List Char) : Option (Tag × List Char) := do
  let (first, r) ← octet? cs
  let n ← trailing? first
  let (more, r) ← trailingOctets? n r
  some ((first :: more).map Char.ofNat, r)

/-- The characters of a tag's suffix. -/
def isSuffixChar (c : Char) : Bool :=
  isWord c ||
    [';', '/', '?', ':', '@', '&', '=', '+', '$', '.', '!', '~', '*', '\'', '(', ')'].contains c

/-- The characters of a tag between angle brackets, or of a directive. -/
def isTagChar (c : Char) : Bool := isSuffixChar c || c == ',' || c == '[' || c == ']'

/-- Octets up to a character that is not among the given ones, and the rest. -/
def octets? (isPart : Char → Bool) : Nat → List Char → Option (Tag × List Char)
  | 0, _ => none
  | _ + 1, [] => some ([], [])
  | fuel + 1, c :: r =>
    if c = '%' then do
      let (os, r) ← escapedOctets? (c :: r)
      let (t, r) ← octets? isPart fuel r
      some (os ++ t, r)
    else if isPart c then (octets? isPart fuel r).map fun (t, r) => (c :: t, r)
    else some ([], c :: r)

/-- One or more octets and the rest. Those from an octet zero on do not count. -/
def someOctets? (isPart : Char → Bool) (cs : List Char) : Option (Tag × List Char) := do
  let (t, r) ← octets? isPart cs.length.succ cs
  if t.isEmpty then none else some (t.takeWhile (· != '\x00'), r)

/-! ## Tags -/

/-- A tag as written: the handle `!`, `!!` or `!name!`, or none before a whole tag. -/
structure WrittenTag where
  handle : List Char
  suffix : Tag

/-- A tag after its exclamation mark, and the rest. The mark alone is a whole tag. -/
def writtenTag? (cs : List Char) : Option (WrittenTag × List Char) :=
  match cs with
  | '<' :: r => do
    let (t, r) ← someOctets? isTagChar r
    match r with
    | '>' :: r => some (⟨[], t⟩, r)
    | _ => none
  | cs =>
    let word := cs.takeWhile isWord
    match cs.drop word.length with
    | '!' :: r => (someOctets? isSuffixChar r).map fun (t, r) => (⟨'!' :: word ++ ['!'], t⟩, r)
    | r => do
      let (t, r) ← octets? isSuffixChar r.length.succ r
      let suffix := (word ++ t).takeWhile (· != '\x00')
      some (if suffix.isEmpty then ⟨[], ['!']⟩ else ⟨['!'], suffix⟩, r)

/-- What handles stand for. -/
abbrev Handles := List (List Char × Tag)

/-- The handles that need no directive. -/
def Handles.standard : Handles := [(['!'], ['!']), (['!', '!'], Tag.core "")]

/-- The tag that was written, if its handle stands for something. -/
def WrittenTag.tag? (t : WrittenTag) (handles : Handles) : Option Tag :=
  if t.handle.isEmpty then some t.suffix else (handles.lookup t.handle).map (· ++ t.suffix)

/-! ## Directives -/

inductive Directive where
  | version (major minor : Nat)
  | handle (name : List Char) (start : Tag)

/-- A number of one to nine digits and the rest. -/
def versionNumber? (cs : List Char) : Option (Nat × List Char) :=
  let (ds, r) := Decimal.digits cs
  if ds.isEmpty ∨ 9 < ds.length then none else some (digitsValue ds, r)

/-- The handle of a directive and the rest: `!`, or a name between two marks. -/
def handle? : List Char → Option (List Char × List Char)
  | '!' :: cs =>
    let word := cs.takeWhile isWord
    match cs.drop word.length with
    | '!' :: r => some ('!' :: word ++ ['!'], r)
    | r => if word.isEmpty then some (['!'], r) else none
  | _ => none

/-- A directive after its percent sign, and the rest of its line. -/
def directive? (cs : List Char) : Option (Directive × List Char) :=
  let name := cs.takeWhile isWord
  let r := cs.drop name.length
  let value := r.dropWhile isBlank
  if !isApart r then none
  else if name = "YAML".toList then do
    let (major, r) ← versionNumber? value
    match r with
    | '.' :: r => do
      let (minor, r) ← versionNumber? r
      some (.version major minor, r)
    | _ => none
  else if name = "TAG".toList then do
    let (name, r) ← handle? value
    if !r.head?.any isBlank then none
    else do
      let (start, r) ← someOctets? isTagChar (r.dropWhile isBlank)
      if isApart r then some (.handle name start, r) else none
  else none

end Yaml

end Telemetry
