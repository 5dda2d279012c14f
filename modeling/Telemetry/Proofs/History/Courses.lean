import Telemetry.Proofs.History.Accounts

/-!
# The course of operations

What operations do in turn is made of two kinds of steps: the registry of a scope is got, or an
action is carried out that opens no scope (`Course`). An operation `Declares` when it maps ids to
members by registering members only, also in the work of an interception; then every id that is
mapped on the way is that of a metric that is registered at that point (`Action.Proper`).

* `course_actionsAll`: the actions of operations are a course;
* `Course.keeps`: what both kinds of steps keep holds after every course;
* `Course.sound`: along a course of operations that declare, what is mapped is registered.
-/

namespace Telemetry

mutual

/-- The operation maps ids by registering members only. -/
def Operation.Declares : Operation → Prop
  | .mapMember .. => False
  | .intercept _ _ _ _ work _ => Operation.DeclaresAll work
  | _ => True

/-- So do all of the operations. -/
def Operation.DeclaresAll : List Operation → Prop
  | [] => True
  | op :: ops => op.Declares ∧ Operation.DeclaresAll ops

end

/-- Every action has the property in the directory that it finds. -/
def Action.Along (P : Directory → Action → Prop) : List Action → Directory → Prop
  | [], _ => True
  | act :: acts, d => P d act ∧ Action.Along P acts (act.apply d)

namespace Directory

/-- A metric of the annotation's kind is registered under the id. -/
def HasMetric (d : Directory) (r : RegistryRef) (kind : AnnotationKind) (id : MetricId) : Prop :=
  ∃ a, d.Stores r a ∧ a.id = id ∧ a.kind = kind.metric

end Directory

/-- The action maps no id but that of a metric that is registered. -/
def Action.MapsMetrics (d : Directory) (act : Action) : Prop :=
  ∀ r kind member id, act = .mapMember r kind member id → d.HasMetric r kind id

/-- The action opens no scope and, where ids are mapped by registering members, maps none that has
no metric. -/
def Action.Proper (declared : Prop) (d : Directory) : Action → Prop
  | .openScope _ => False
  | .mapMember r kind _ id => declared → d.HasMetric r kind id
  | .dropScope _ | .register .. | .remove .. | .markPlatform _ | .write .. | .sample _ => True

namespace Action

variable {P Q : Directory → Action → Prop} {acts acts' : List Action} {d : Directory}

theorem along_append :
    Along P (acts ++ acts') d ↔ Along P acts d ∧ Along P acts' (applyAll acts d) := by
  induction acts generalizing d with
  | nil => simp [Along]
  | cons act acts ih => exact (and_congr_right' ih).trans and_assoc.symm

theorem along_of_forall (h : ∀ act ∈ acts, ∀ d, P d act) : Along P acts d := by
  induction acts generalizing d with
  | nil => trivial
  | cons act acts ih =>
    obtain ⟨hact, hacts⟩ := List.forall_mem_cons.mp h
    exact ⟨hact d, ih hacts⟩

theorem Along.initial (hp : Along P acts' d) (h : acts <+: acts') : Along P acts d := by
  obtain ⟨rest, rfl⟩ := h
  exact (along_append.mp hp).1

/-- From a coherent directory on, a property may be weakened. -/
theorem Along.mono (hp : Along P acts d) (h : d.Coherent)
    (hPQ : ∀ {d act}, P d act → d.Coherent → Q d act) : Along Q acts d := by
  induction acts generalizing d with
  | nil => trivial
  | cons act acts ih => exact ⟨hPQ hp.1 h, ih hp.2 (h.action act)⟩

end Action

namespace Directory

variable {declared : Prop} {d : Directory} {r : RegistryRef} {a : Adapter}
  {acts acts' : List Action}

/-- Registries of scopes are got, and proper actions are carried out. -/
inductive Course (declared : Prop) : Directory → List Action → Prop
  | nil {d : Directory} : Course declared d []
  | opening {d : Directory} {acts : List Action} (scope : String)
      (h : Course declared (d.getOrCreate scope).2 acts) :
      Course declared d (openingActions scope d ++ acts)
  | action {d : Directory} {act : Action} {acts : List Action} (hact : act.Proper declared d)
      (h : Course declared (act.apply d) acts) : Course declared d (act :: acts)

namespace Course

theorem append (h : Course declared d acts) (h' : Course declared (Action.applyAll acts d) acts') :
    Course declared d (acts ++ acts') := by
  induction h with
  | nil => exact h'
  | opening scope _ ih =>
    rw [Action.applyAll_append, applyAll_openingActions] at h'
    rw [List.append_assoc]
    exact .opening scope (ih h')
  | action hact _ ih => exact .action hact (ih h')

theorem get (scope : String) (d : Directory) : Course declared d (openingActions scope d) := by
  have h : Course declared d (openingActions scope d ++ []) := .opening scope .nil
  rwa [List.append_nil] at h

theorem single {act : Action} (hact : act.Proper declared d) : Course declared d [act] :=
  .action hact .nil

/-- Actions that are proper everywhere. -/
theorem ofProper (hacts : ∀ act ∈ acts, ∀ d, act.Proper declared d) : Course declared d acts := by
  induction acts generalizing d with
  | nil => exact .nil
  | cons act acts ih =>
    obtain ⟨hact, hacts⟩ := List.forall_mem_cons.mp hacts
    exact .action (hact d) (ih hacts)

theorem map {α : Type} (f : α → Action) (hf : ∀ x d, (f x).Proper declared d) (xs : List α) :
    Course declared d (xs.map f) :=
  .ofProper (List.forall_mem_map.mpr fun x _ => hf x)

/-- **What both kinds of steps keep** holds after a course. -/
theorem keeps {P : Directory → Prop} (hc : Course declared d acts)
    (hopening : ∀ {d}, P d → d.Coherent → ∀ scope, P (d.getOrCreate scope).2)
    (haction : ∀ {d} {act : Action}, P d → d.Coherent → act.Proper declared d → P (act.apply d))
    (hp : P d) (h : d.Coherent) : P (Action.applyAll acts d) := by
  induction hc with
  | nil => exact hp
  | opening scope _ ih =>
    rw [Action.applyAll_append, applyAll_openingActions]
    exact ih (hopening hp h scope) ((changes_getOrCreate h scope).coherent h)
  | action hact _ ih => exact ih (haction hp h hact) (h.action _)

/-- **What is mapped along a course of operations that declare** is registered. -/
theorem sound (hc : Course True d acts) : Action.Along Action.MapsMetrics acts d := by
  induction hc with
  | nil => trivial
  | @opening d acts scope _ ih =>
    refine Action.along_append.mpr ⟨Action.along_of_forall fun act hact d' => ?_, ?_⟩
    · obtain rfl | ⟨r, rfl⟩ | ⟨r, req, metadata, rfl⟩ := mem_openingActions hact <;> exact nofun
    · rwa [applyAll_openingActions]
  | action hact _ ih =>
    refine ⟨?_, ih⟩
    rintro r kind member id rfl
    exact hact trivial

end Course

/-! ## Operations take their course -/

theorem kind_of_request {metadata : Metadata} {tags : List Tag} {req : MetricRequest}
    (h : d.Coherent) (hok : (d.request r metadata tags req).1 = .ok a) : a.kind = req.kind := by
  obtain ⟨g, -, hv⟩ := request_ok h hok
  obtain hv | ⟨id, value, -, rfl⟩ := hv
  · obtain ⟨-, -, -, -, hkind⟩ := Registry.verdict_reuse hv
    exact hkind
  · exact kind_newcomer id

theorem kind_request (kind : AnnotationKind) : kind.request.kind = kind.metric := by
  cases kind <;> rfl

/-- **Registering a member maps the ids of metrics that are registered.** -/
theorem course_annotationActions (h : d.Coherent) (member : Member) (x : MetricAnnotation) :
    Course declared d (annotationActions member x d) := by
  have h' := (changes_getOrCreate h x.scope).coherent h
  unfold annotationActions
  refine .opening x.scope ?_
  cases x.parseTags with
  | error e => exact .nil
  | ok tags =>
    generalize d.getOrCreate x.scope = got at h' ⊢
    obtain ⟨r, d'⟩ := got
    refine .action trivial ?_
    simp only
    cases hok : (d'.request r (x.metadata member) tags x.kind.request).1 with
    | error e => exact .nil
    | ok adapter =>
      refine .single fun _ => ⟨adapter, stores_of_request h' hok, rfl, ?_⟩
      rw [kind_of_request h' hok, kind_request]

theorem course_memberActions (h : d.Coherent) (member : Member)
    (annotations : List MetricAnnotation) :
    Course declared d (memberActions member annotations d) := by
  induction annotations generalizing d with
  | nil => exact .nil
  | cons x annotations ih =>
    refine (course_annotationActions h member x).append ?_
    have hc := changes_registerAnnotation h member x
    have h' := hc.coherent h
    rw [applyAll_annotationActions]
    split
    · exact .nil
    · rename_i id d' heq
      rw [heq] at h' ⊢
      exact ih h'

mutual

/-- **The actions of an operation are a course**, of proper actions where it declares. -/
theorem course_actions :
    (op : Operation) → {d : Directory} → (declared → op.Declares) → d.Coherent →
    Course declared d (op.actions d)
  | .openScope scope, d, _, _ => .get scope d
  | .dropScope _, _, _, _ => .single trivial
  | .dropAll, _, _, _ => .map .dropScope (fun _ _ => trivial) _
  | .register .., _, _, _ => .single trivial
  | .remove .., _, _, _ => .single trivial
  | .removeMatching r p, d, _, _ => by
    unfold Operation.actions
    split
    · exact .nil
    · exact .map (.remove r) (fun _ _ => trivial) _
  | .mapMember .., _, hop, _ => .single fun hdeclared => (hop hdeclared).elim
  | .registerMember member annotations, _, _, h => course_memberActions h member annotations
  | .intercept .counted scope member _ work _, d, hop, h => by
    have hopened : Course declared d (openingActions scope d) := .get scope d
    unfold Operation.actions
    simp only
    split
    · exact hopened
    · rename_i counters hok
      have hcounted := hopened.append (.map (.write · (.increment 1)) (fun _ _ => trivial) counters)
      exact hcounted.append (course_actionsAll work hop (h.actions _))
  | .intercept .timed scope member elapsed work _, d, hop, h => by
    have hopened : Course declared d (openingActions scope d) := .get scope d
    unfold Operation.actions
    simp only
    split
    · exact hopened
    · have hworked := hopened.append (course_actionsAll work hop (h.actions _))
      exact hworked.append (.map (fun a => .write a _) (fun _ _ => trivial) _)
  | .increment .., _, _, _ => .single trivial
  | .update _ (.ofNat _), _, _, _ => .single trivial
  | .update _ (.negSucc _), _, _, _ => .nil
  | .updateDuration .., _, _, _ => .single trivial
  | .sample _, _, _, _ => .single trivial

/-- **So are those of operations in turn.** -/
theorem course_actionsAll : (ops : List Operation) → {d : Directory} →
    (declared → Operation.DeclaresAll ops) → d.Coherent →
    Course declared d (Operation.actionsAll ops d)
  | [], _, _, _ => .nil
  | op :: ops, d, hops, h => by
    unfold Operation.actionsAll
    refine (course_actions op (fun hd => (hops hd).1) h).append ?_
    rw [← apply_eq_applyAll]
    exact course_actionsAll ops (fun hd => (hops hd).2) (coherent_apply op h)

end

end Directory

end Telemetry
