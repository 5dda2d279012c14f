import Telemetry.Order
import Telemetry.SortedMap
import Telemetry.Text.Blank
import Telemetry.Text.Pieces
import Telemetry.Error

/-!
# Tags

A tag is a key with a value (specification, 3). A key is a `TagName`: it matches
`[a-zA-Z_][a-zA-Z0-9_]*`, and the type says so. `Tags` is the map of a tag list: keys ascending, the
last value of a key kept, so two lists with the same last values give equal maps.
-/

namespace Telemetry

/-- A letter or the underscore. -/
def isNameStart (c : Char) : Bool := c.isAlpha || c == '_'

/-- A letter, a digit or the underscore. -/
def isNamePart (c : Char) : Bool := c.isAlphanum || c == '_'

/-- The text matches `[a-zA-Z_][a-zA-Z0-9_]*`. -/
def isTagName (text : String) : Bool :=
  match text.toList with
  | [] => false
  | c :: r => isNameStart c && r.all isNamePart

/-- A valid tag key. -/
structure TagName where
  text : String
  valid : isTagName text = true
deriving DecidableEq

namespace TagName

/-- The key of a text that is one. -/
def of? (text : String) : Option TagName :=
  if h : isTagName text then some ⟨text, h⟩ else none

/-- Keys are ordered as texts. -/
instance : Ord TagName := ⟨compareOn text⟩

instance : Std.TransOrd TagName := inferInstanceAs (Std.TransCmp (compareOn text))

instance : Std.LawfulEqOrd TagName :=
  lawfulEqCmp_compareOn fun a b h => by cases a; cases b; cases h; rfl

end TagName

/-- The key that names the scope a meter belongs to. -/
def scopeKey : TagName := ⟨"scope", by decide⟩

/-- The key that names the application. -/
def appKey : TagName := ⟨"_app", by decide⟩

/-- A key with its value. -/
structure Tag where
  key : TagName
  value : String
deriving DecidableEq

namespace Tag

/-- The tag of a key text and a value. -/
def of (key value : String) : Outcome Tag :=
  match TagName.of? key with
  | some name => .ok ⟨name, value⟩
  | none => .error (.invalidTagName key)

/-- Read `key=value`, cut at the first `=`; blanks around both parts are dropped. -/
def parse (text : String) : Outcome Tag :=
  match Text.cut? '=' text.toList with
  | some (key, value) => of (String.ofList (Text.trim key)) (String.ofList (Text.trim value))
  | none => .error (.malformedTag text)

def text (t : Tag) : String := t.key.text ++ "=" ++ t.value

end Tag

/-- Tags by key. -/
abbrev Tags := SortedMap TagName String

namespace Tags

/-- The map of a list: of a repeated key the last value stays. -/
def ofList (tags : List Tag) : Tags := SortedMap.ofList (tags.map fun t => (t.key, t.value))

/-- The tags in key order. -/
def toList (tags : Tags) : List Tag := tags.entries.map fun e => ⟨e.1, e.2⟩

/-- `key=value` pairs between commas. -/
def text (tags : Tags) : String := ",".intercalate (tags.toList.map Tag.text)

/-- Pairs are ordered by key, then by value. -/
def pairOrder : TagName × String → TagName × String → Ordering :=
  compareLex (compareOn Prod.fst) (compareOn Prod.snd)

instance : Std.TransCmp pairOrder :=
  inferInstanceAs (Std.TransCmp (compareLex (compareOn Prod.fst) (compareOn Prod.snd)))

instance : Std.LawfulEqCmp pairOrder := lawfulEqCmp_compareLex fun _ _ => Prod.ext

/-- Tags are ordered as their lists of pairs. -/
instance : Ord Tags := ⟨fun a b => List.compareLex pairOrder a.entries b.entries⟩

instance : Std.TransOrd Tags where
  eq_swap {a b} := by
    change List.compareLex pairOrder a.entries b.entries =
      (List.compareLex pairOrder b.entries a.entries).swap
    exact Std.OrientedCmp.eq_swap
  isLE_trans {a b c} h1 h2 := by
    change (List.compareLex pairOrder a.entries b.entries).isLE at h1
    change (List.compareLex pairOrder b.entries c.entries).isLE at h2
    change (List.compareLex pairOrder a.entries c.entries).isLE
    exact Std.TransCmp.isLE_trans h1 h2

instance : Std.LawfulEqOrd Tags where
  compare_self {a} := by
    change List.compareLex pairOrder a.entries a.entries = .eq
    exact Std.ReflCmp.compare_self
  eq_of_compare {a b} h := by
    change List.compareLex pairOrder a.entries b.entries = .eq at h
    exact SortedMap.ext (Std.LawfulEqCmp.eq_of_compare h)

end Tags

end Telemetry
