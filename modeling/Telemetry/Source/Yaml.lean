import Telemetry.Binary.Decimal
import Telemetry.Source.Yaml.Node

/-!
# YAML documents

`Yaml.read?` reads a whole text as one YAML document, which has to be a mapping or empty. A plain
scalar is what its text says (`plainValue`), a quoted one a text, and a tag may settle either. Each
alias is replaced by the node that it stands for, but only so often, and only so deep.
-/

namespace Telemetry

namespace Yaml

/-! ## Scalars -/

/-- Digits with a zero before another one make a text. -/
def isPadded (cs : List Char) : Bool :=
  match (Decimal.sign cs).2 with
  | '0' :: r => !r.isEmpty && r.all Char.isDigit
  | _ => false

/-- The value of digits with the mark of their base before them. -/
def natural? : List Char → Option Nat
  | '0' :: 'x' :: r => inBase? 16 r
  | '0' :: 'o' :: r => inBase? 8 r
  | '0' :: 'b' :: r => inBase? 2 r
  | cs => inBase? 10 cs

/-- A whole number that 128 bits hold, signed if it is negative. -/
def integer? (cs : List Char) : Option Int :=
  let words := UInt64.size * UInt64.size
  let (negative, r) := Decimal.sign cs
  if isPadded cs then none
  else do
    let n ← natural? r
    if negative then if 2 * n ≤ words then some (-(n : Int)) else none
    else if n < words then some n else none

/-- Whether a text is a number in decimal notation that a double can hold, an infinity, or no
number. -/
def isFraction (cs : List Char) : Bool :=
  let infinite := ["\x2einf", "\x2eInf", "\x2eINF"].contains (String.ofList (Decimal.sign cs).2)
  let nan := ["\x2enan", "\x2eNaN", "\x2eNAN"].contains (String.ofList cs)
  infinite || nan ||
    match Decimal.read? cs with
    | some (.finite negative n e) => (Binary.ofDecimal .binary64 (.finite negative n e)).isFinite
    | _ => false

def isNull (cs : List Char) : Bool := ["~", "null", "Null", "NULL"].contains (String.ofList cs)

def boolean? (cs : List Char) : Option Bool :=
  let t := String.ofList cs
  if ["true", "True", "TRUE"].contains t then some true
  else if ["false", "False", "FALSE"].contains t then some false
  else none

/-- The value of a plain scalar. -/
def plainValue (cs : List Char) : Document :=
  if cs.isEmpty ∨ isNull cs then .nothing
  else
    match boolean? cs, integer? cs with
    | some b, _ => .boolean b
    | none, some n => .integer n
    | none, none => if !isPadded cs && isFraction cs then .fraction else .text (String.ofList cs)

/-- The value of a scalar with a tag; `none` when its text is not of the tag's type, and for a tag
of the document's own. Other tags make a text of it. -/
def taggedValue? (tag : Tag) (plain : Bool) (cs : List Char) : Option Document :=
  if tag.isLocal then none
  else if tag = Tag.core "bool" then (boolean? cs).map .boolean
  else if tag = Tag.core "int" then (integer? cs).map .integer
  else if tag = Tag.core "float" then if isFraction cs then some .fraction else none
  else if tag = Tag.core "null" then if isNull cs then some .nothing else none
  else if plain ∧ tag.head? = some '!' then some (plainValue cs)
  else some (.text (String.ofList cs))

/-- The value of a scalar. -/
def scalarValue? (p : Properties) (plain : Bool) (text : String) : Option Document :=
  match p.tag with
  | some tag => taggedValue? tag plain text.toList
  | none => some (if plain then plainValue text.toList else .text text)

/-! ## Nodes -/

/-- How often an alias may still be replaced. -/
abbrev Expansion := StateT Nat Option

/-- The nodes that aliases stand for, by number. -/
abbrev Anchors := List (Nat × Node)

/-- Replace an alias. -/
def Anchors.follow (anchors : Anchors) : Node → Expansion Node
  | .aliasOf number => do
    let left ← get
    if left = 0 then failure
    set (left - 1)
    match anchors.lookup number with
    | some n => pure n
    | none => failure
  | n => pure n

/-- The text of a key, which has to be a scalar. -/
def Anchors.key (anchors : Anchors) (n : Node) : Expansion String := do
  match ← anchors.follow n with
  | .scalar _ _ text => pure text
  | _ => failure

/-- The value of a node that may hold so many levels of sequences and mappings. A tag of the
document's own is refused. -/
def Anchors.value (anchors : Anchors) : Nat → Node → Expansion Document
  | 0, n => do
    match ← anchors.follow n with
    | .scalar p plain text => liftM (scalarValue? p plain text)
    | _ => failure
  | depth + 1, n => do
    match ← anchors.follow n with
    | .scalar p plain text => liftM (scalarValue? p plain text)
    | .sequence p items =>
      if p.tag.any Tag.isLocal then failure
      return .list (← items.mapM (anchors.value depth))
    | .mapping p pairs =>
      if p.tag.any Tag.isLocal then failure
      return .table
        (← pairs.mapM fun (k, v) => do return (← anchors.key k, ← anchors.value depth v))
    | .aliasOf _ => failure

/-- How deep sequences and mappings may lie in each other. -/
def maxDepth : Nat := 128

/-- The value of a document's node: a mapping, whatever its tag, or nothing at all. Aliases are
replaced at most a hundred times as often as there are nodes. -/
def documentValue? (root : Node) : Option Document :=
  match root with
  | .mapping _ pairs =>
    let anchors : Anchors := root.anchored.reverse
    ((anchors.value maxDepth (.mapping {} pairs)).run (100 * root.size)).map Prod.fst
  | .scalar _ true "" => some (.table [])
  | _ => none

/-- The value of a whole text. -/
def read? (cs : List Char) : Option Document :=
  if !cs.all isAllowed then none
  else do
    let tokens ← Token.ofText? (unixLines cs)
    let root ← Node.ofTokens? tokens
    documentValue? root

end Yaml

end Telemetry
