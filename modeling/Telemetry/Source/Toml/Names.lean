import Telemetry.Source.Document

/-!
# Names of a TOML document

Tables are named by headers and by dotted keys, and either may lead through tables that have no
definition of their own. `Names` holds how each name came to be defined and finds the table that a
header or a key leads to, so that nothing is defined twice.
-/

namespace Telemetry

namespace Toml

/-- How a name was defined. -/
inductive Definition where
  | value
  /-- A table named on the way to another one. -/
  | implied
  /-- A table with a header. -/
  | headed
  /-- A table named by a dotted key. -/
  | dotted
  /-- An array of tables with so many elements. -/
  | elements (n : Nat)
deriving DecidableEq

/-- A name below others, each with the number of its element, zero for what is no array. -/
abbrev Path := List (String × Nat)

/-- The definitions so far. -/
abbrev Names := List (Path × Definition)

namespace Names

def find? (names : Names) (p : Path) : Option Definition :=
  (List.find? (fun e => e.1 == p) names).map Prod.snd

def set (names : Names) (p : Path) (d : Definition) : Names :=
  (p, d) :: names.filter fun e => e.1 != p

/-- The table at the end of a header's way. -/
def walk? (names : Names) (here : Path) : List String → Option (Path × Names)
  | [] => some (here, names)
  | part :: rest =>
    let p := here ++ [(part, 0)]
    match names.find? p with
    | none => walk? (names.set p .implied) p rest
    | some .value => none
    | some (.elements n) => walk? names (here ++ [(part, n)]) rest
    | some _ => walk? names p rest

/-- Go a dotted key's way below a table, through what was not given a header. -/
def walkParts? (names : Names) (here : Path) : List String → Option (Path × Names)
  | [] => some (here, names)
  | part :: rest =>
    let p := here ++ [(part, 0)]
    match names.find? p with
    | none => walkParts? (names.set p .dotted) p rest
    | some .dotted | some .implied => walkParts? names p rest
    | some (.elements n) => walkParts? names (here ++ [(part, n)]) rest
    | some .value | some .headed => none

/-- The table at the end of a dotted key's way. Unless the way is empty, only a table that a dotted
key named is extended so. -/
def walkDotted? (names : Names) (here : Path) (way : List String) : Option (Path × Names) := do
  let (p, names) ← names.walkParts? here way
  if way.isEmpty ∨ names.find? p = some .dotted then some (p, names) else none

end Names

end Toml

end Telemetry
