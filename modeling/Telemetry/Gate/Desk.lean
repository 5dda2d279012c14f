import Telemetry.Gate.Basic

/-!
# A desk that hands out grants

A `GrantDesk` is a `VisibilityGate` with the open grants held by handle (specification, 4.1).
`GrantDesk.step` carries out one request; a grant leaves the desk by being closed, by being replaced
under its handle, or at once when the work done under it fails.
-/

namespace Telemetry

structure GrantDesk where
  gates : VisibilityGate
  held : SortedMap String WriteGrant
deriving DecidableEq

inductive GrantRequest where
  /-- Was a gate made for the scope? -/
  | contains (scope : String)
  /-- Look at the scope's gate. -/
  | inspect (scope : String)
  /-- Open a grant and hold it. -/
  | openAs (scope handle : String)
  /-- Open a grant for work that fails. -/
  | failing (scope : String)
  | close (handle : String)
  /-- Does the held grant open the scope's gate? -/
  | isFor (handle scope : String)

inductive GrantAnswer where
  | known (answer : Bool)
  | gate (scope : String) (isOpen : Bool) (outstanding : Nat) (same : Bool)
  | opened (outstanding : Nat)
  | failed (outstanding : Nat)
  | closed (outstanding : Nat) (isOpen : Bool)
  | issued (grantScope : String) (isFor : Bool)
  | noGrant

namespace GrantDesk

/-- A desk without grants. -/
def new : GrantDesk := ⟨VisibilityGate.new 0, ∅⟩

def step (d : GrantDesk) : GrantRequest → GrantAnswer × GrantDesk
  | .contains scope => (.known (d.gates.contains scope), d)
  | .inspect scope =>
    let (gate, gates) := d.gates.scopeGate scope
    let (again, gates) := gates.scopeGate scope
    (.gate gate.scope (gates.isOpen scope) (gates.count scope) (gate.same again), { d with gates })
  | .openAs scope handle =>
    let (gate, gates) := d.gates.scopeGate scope
    let (grant, gates) := gates.openGrant gate
    let gates :=
      match d.held.get? handle with
      | some older => gates.release older
      | none => gates
    (.opened (gates.count scope), ⟨gates, d.held.insert handle grant⟩)
  | .failing scope =>
    let (gate, gates) := d.gates.scopeGate scope
    let (grant, gates) := gates.openGrant gate
    let gates := gates.release grant
    (.failed (gates.count scope), { d with gates })
  | .close handle =>
    match d.held.get? handle with
    | none => (.noGrant, d)
    | some grant =>
      let gates := d.gates.release grant
      let scope := grant.gate.scope
      (.closed (gates.count scope) (gates.isOpen scope), ⟨gates, d.held.erase handle⟩)
  | .isFor handle scope =>
    match d.held.get? handle with
    | none => (.noGrant, d)
    | some grant =>
      let (gate, gates) := d.gates.scopeGate scope
      (.issued grant.gate.scope (grant.isFor gate), { d with gates })

end GrantDesk

end Telemetry
