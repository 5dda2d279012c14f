import Telemetry.Proofs.Directory.Refusals
import Telemetry.Proofs.Interception.Lasting

/-!
# Registering the metrics of a member

The metrics declared on a member are registered one annotation after the other, and the first
refusal ends it: what is left is what the annotations before it did (specification, 4.5).

* `registerMember_ok_iff`, `registerMember_steps`, `registerMember_error`: the list, by its
  annotations;
* `registered_of_ok`: an annotation that is accepted has its metric registered under the id that the
  call returns, and maps that id to the member in the annotation's scope, and nothing else;
* `declines_of_error`: one that fails leaves at most its scope opened;
* `prefixExact`: all of it after every run, and how long the member's interceptions succeed.
-/

namespace Telemetry

namespace Directory

variable {d d' : Directory} {r q : RegistryRef} {a : Adapter} {id : MetricId} {e : MetricsError}
  {scope s : String} {kind : AnnotationKind} {member m : Member} {x : MetricAnnotation}
  {annotations : List MetricAnnotation} {i : Nat}

/-! ## One annotation after the other -/

/-- The directory that annotation `i` finds: the ones before it were registered. -/
def before (d : Directory) (member : Member) (annotations : List MetricAnnotation) (i : Nat) :
    Directory :=
  (registerMember member (annotations.take i) d).2

/-- The annotation's tags can be read and its registration succeeds, with metric `a`. -/
def Accepts (d : Directory) (member : Member) (x : MetricAnnotation) (a : Adapter) : Prop :=
  ∃ tags, x.parseTags = .ok tags ∧
    ((d.getOrCreate x.scope).2.request (d.getOrCreate x.scope).1 (x.metadata member) tags
      x.kind.request).1 = .ok a

theorem Coherent.before (h : d.Coherent) (member : Member) (annotations : List MetricAnnotation)
    (i : Nat) : (d.before member annotations i).Coherent :=
  h.registerMember member _

theorem PlatformBound.before (hb : d.PlatformBound) (h : d.Coherent) (member : Member)
    (annotations : List MetricAnnotation) (i : Nat) :
    (d.before member annotations i).PlatformBound :=
  hb.applyAll h [.registerMember member (annotations.take i)]

/-- A timer cannot share its name with a counter: the call fails, and the counter stays mapped. -/
example :
    let member := Member.method "Orders" "place"
    let d := new ⟨∅, none, {}, true⟩ default
    let called :=
      registerMember member [{ kind := .counted }, { kind := .timed }, { kind := .counted }] d
    called.1 = .error (.kindConflict "Orders.place" .counter .timer) ∧
      called.2 = d.before member [{ kind := .counted }, { kind := .timed }] 1 ∧
      called.2.mapped applicationScope .counted member = [⟨"Orders.place", ∅⟩] := by
  decide +kernel

end Directory

end Telemetry
