import Telemetry.SortedMap

/-!
# Write gates

A scope's meters are written only under a grant of the scope's own gate (specification, 4.1). A
`VisibilityGate` makes one `ScopeGate` per scope, on first use, and hands out the same one ever
after. Gates are told apart by who made them and by their number there, not by their scope. The
grants of each gate that are open are counted. A grant knows the gate that issued it, so it opens no
other one.
-/

namespace Telemetry

/-- The gate of one scope. -/
structure ScopeGate where
  /-- Tells those who make gates apart. -/
  issuer : Nat
  /-- Tells the gates of an issuer apart. -/
  number : Nat
  scope : String
deriving DecidableEq

/-- Whether both are one gate. -/
def ScopeGate.same (gate other : ScopeGate) : Bool :=
  gate.issuer == other.issuer && gate.number == other.number

/-- Leave to write in one scope. -/
structure WriteGrant where
  gate : ScopeGate
deriving DecidableEq

/-- Whether the gate issued this grant. -/
def WriteGrant.isFor (grant : WriteGrant) (gate : ScopeGate) : Bool := grant.gate.same gate

/-- The gates of all scopes. -/
structure VisibilityGate where
  issuer : Nat
  /-- The number of every scope's gate. -/
  numbers : SortedMap String Nat
  /-- How many grants of every gate are open, by number. -/
  outstanding : List Nat
deriving DecidableEq

namespace VisibilityGate

/-- An issuer without gates. -/
def new (issuer : Nat) : VisibilityGate := ⟨issuer, ∅, []⟩

/-- The gate that was made for a scope. -/
def gate? (v : VisibilityGate) (scope : String) : Option ScopeGate :=
  (v.numbers.get? scope).map fun n => ⟨v.issuer, n, scope⟩

/-- Whether a gate was made for the scope. -/
def contains (v : VisibilityGate) (scope : String) : Bool := (v.gate? scope).isSome

/-- Open grants of a gate. -/
def grants (v : VisibilityGate) (gate : ScopeGate) : Nat := (v.outstanding[gate.number]?).getD 0

/-- Open grants of a scope. -/
def count (v : VisibilityGate) (scope : String) : Nat := ((v.gate? scope).map v.grants).getD 0

/-- Whether the scope has an open grant. -/
def isOpen (v : VisibilityGate) (scope : String) : Bool := decide (0 < v.count scope)

/-- The gate of a scope, made on first use. -/
def scopeGate (v : VisibilityGate) (scope : String) : ScopeGate × VisibilityGate :=
  match v.gate? scope with
  | some gate => (gate, v)
  | none =>
    let n := v.outstanding.length
    (⟨v.issuer, n, scope⟩,
      { v with numbers := v.numbers.insert scope n, outstanding := v.outstanding ++ [0] })

/-- Open a grant. -/
def openGrant (v : VisibilityGate) (gate : ScopeGate) : WriteGrant × VisibilityGate :=
  (⟨gate⟩, { v with outstanding := v.outstanding.modify gate.number (· + 1) })

/-- Close a grant. -/
def release (v : VisibilityGate) (grant : WriteGrant) : VisibilityGate :=
  { v with outstanding := v.outstanding.modify grant.gate.number (· - 1) }

end VisibilityGate

end Telemetry
