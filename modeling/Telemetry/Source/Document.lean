import Telemetry.SortedMap

/-!
# What configuration sources hold

A source, whatever its format, is a `Document`. A configuration is read from its top level only, so
`SourceValue` keeps apart just the values that a setting can take.
-/

namespace Telemetry

inductive Document where
  | nothing
  | boolean (value : Bool)
  | integer (value : Int)
  /-- A number with a point or an exponent, or one that no word holds. -/
  | fraction
  | text (value : String)
  /-- A date or a time. -/
  | moment
  | list (items : List Document)
  | table (entries : List (String × Document))
deriving Inhabited

/-- A value as a setting sees it. -/
inductive SourceValue where
  | nothing
  | boolean (value : Bool)
  | integer (value : Int)
  | text (value : String)
  /-- A value that no setting takes. -/
  | other
deriving DecidableEq

def Document.toValue : Document → SourceValue
  | nothing => .nothing
  | boolean b => .boolean b
  | integer n => .integer n
  | text t => .text t
  | _ => .other

/-- Values by key. -/
abbrev SourceTable := SortedMap String SourceValue

/-- The entries of a document that is a table; of a repeated key the last one stays. -/
def Document.toTable? : Document → Option SourceTable
  | table entries => some (SortedMap.ofList (entries.map fun e => (e.1, e.2.toValue)))
  | _ => none

/-- The value of a hexadecimal digit. -/
def hexDigit? (c : Char) : Option Nat :=
  if c.isDigit then some (c.toNat - '0'.toNat)
  else if 'a' ≤ c ∧ c ≤ 'f' then some (c.toNat - 'a'.toNat + 10)
  else if 'A' ≤ c ∧ c ≤ 'F' then some (c.toNat - 'A'.toNat + 10)
  else none

/-- The value of one or more digits of a base. -/
def inBase? (base : Nat) : List Char → Option Nat
  | [] => none
  | c :: r => (c :: r).foldl (fun n c => do
    let n ← n
    let d ← hexDigit? c
    if d < base then some (base * n + d) else none) (some 0)

/-- The value of so many hexadecimal digits, and the rest. -/
def hexDigits? : Nat → Nat → List Char → Option (Nat × List Char)
  | 0, value, cs => some (value, cs)
  | n + 1, value, c :: r => (hexDigit? c).bind fun d => hexDigits? n (16 * value + d) r
  | _ + 1, _, [] => none

/-- The character of a code point, if there is one. -/
def charOf? (n : Nat) : Option Char := if h : n.isValidChar then some (Char.ofNatAux n h) else none

end Telemetry
