import Mathlib.Data.List.Induction
import Telemetry.Proofs.Directory.Runs

/-!
# Histories

Whatever is asked of a directory comes down to a few `Action`s: a scope is opened or dropped, a
metric is registered or removed, a registry is marked, an id is mapped to a member, a meter is
written to, what gauges sample is set. `Operation.actions` lists the actions of an operation, which
depend on the directory: the gauges of the platform end with the first refusal, an interception
writes to the metrics that it resolved.

* `apply_eq_applyAll`: an operation does what its actions do, in turn. So every run of operations is
  a history (`afterRun_eq_reached`), and the points inside the work of an interception are points of
  it.
* `coherent_reached`: every history ends in a coherent directory.
-/

namespace Telemetry

/-- What is written through an adapter. -/
inductive Update where
  | increment (n : UInt64)
  | record (raw : Nat)
deriving DecidableEq

/-- Write through an adapter. -/
def Adapter.write (a : Adapter) : Update → MeterStore → MeterStore
  | .increment n => a.increment n
  | .record raw => a.record raw

/-- What is done to a directory, in the smallest steps between which a caller may look at it. -/
inductive Action where
  /-- Make the registry of a scope, unless the scope exists. -/
  | openScope (scope : String)
  | dropScope (scope : String)
  | register (r : RegistryRef) (q : MetricRequest) (metadata : Metadata) (tags : List Tag)
  | remove (r : RegistryRef) (id : MetricId)
  /-- Mark a registry as one that the platform metrics were bound in. -/
  | markPlatform (r : RegistryRef)
  | mapMember (r : RegistryRef) (kind : AnnotationKind) (member : Member) (id : MetricId)
  | write (a : Adapter) (u : Update)
  /-- Set what gauges sample. -/
  | sample (samples : Samples)
deriving DecidableEq

/-- Carry out an action. -/
def Action.apply : Action → Directory → Directory
  | .openScope scope, d => (d.openScope scope).2
  | .dropScope scope, d => (d.dropScope scope).2
  | .register r q metadata tags, d => (d.request r metadata tags q).2
  | .remove r id, d => (d.remove r id).2
  | .markPlatform r, d => d.modifyRegistry r fun g => { g with platformBound := true }
  | .mapMember r kind member id, d => d.modifyRegistry r (Directory.mapMember kind member id)
  | .write a u, d => d.modifyStore (a.write u)
  | .sample samples, d => d.modifyStore fun s => { s with samples }

/-- Carry out actions in turn. -/
def Action.applyAll (acts : List Action) (d : Directory) : Directory :=
  acts.foldl (fun d act => act.apply d) d

namespace Action

@[simp]
theorem applyAll_nil (d : Directory) : applyAll [] d = d := rfl

@[simp]
theorem applyAll_cons (act : Action) (acts : List Action) (d : Directory) :
    applyAll (act :: acts) d = applyAll acts (act.apply d) := rfl

@[simp]
theorem applyAll_append (acts acts' : List Action) (d : Directory) :
    applyAll (acts ++ acts') d = applyAll acts' (applyAll acts d) :=
  List.foldl_append

theorem applyAll_map_write {α : Type} (adapter : α → Adapter) (u : α → Update) (xs : List α)
    (d : Directory) :
    applyAll (xs.map fun x => .write (adapter x) (u x)) d =
      d.modifyStore fun s => xs.foldl (fun s x => (adapter x).write (u x) s) s := by
  induction xs generalizing d with
  | nil => rfl
  | cons x xs ih =>
    rw [List.map_cons, applyAll_cons, ih]
    rfl

end Action

namespace Directory

/-- The directory after a history. -/
def reached (settings : RegistrySettings) (platform : PlatformReadings) (acts : List Action) :
    Directory :=
  Action.applyAll acts (new settings platform)

variable {d : Directory} {settings : RegistrySettings} {platform : PlatformReadings}

theorem reached_append (acts acts' : List Action) :
    reached settings platform (acts ++ acts') =
      Action.applyAll acts' (reached settings platform acts) :=
  Action.applyAll_append ..

theorem reached_snoc (acts : List Action) (act : Action) :
    reached settings platform (acts ++ [act]) = act.apply (reached settings platform acts) :=
  reached_append ..

/-! ## The actions of an operation -/

/-- Registering gauge after gauge, up to the first refusal. -/
def gaugeActions (r : RegistryRef) : List (Metadata × PlatformFigure) → Directory → List Action
  | [], _ => []
  | (metadata, figure) :: rest, d =>
    .register r (.gauge (.platform figure)) metadata [] ::
      match d.gauge r metadata [] (.platform figure) with
      | (.error _, _) => []
      | (.ok _, d) => gaugeActions r rest d

/-- Binding the platform metrics, once per registry. -/
def platformActions (r : RegistryRef) (d : Directory) : List Action :=
  match d.registry? r with
  | none => []
  | some registry =>
    if registry.platformBound then []
    else .markPlatform r ::
      gaugeActions r platformGauges
        (d.modifyRegistry r fun registry => { registry with platformBound := true })

/-- Getting the registry of a scope. -/
def openingActions (scope : String) (d : Directory) : List Action :=
  .openScope scope ::
    if scope = baseScope then platformActions (d.openScope scope).1 (d.openScope scope).2 else []

/-- Registering the metric of one annotation and mapping it to the member. -/
def annotationActions (member : Member) (a : MetricAnnotation) (d : Directory) : List Action :=
  openingActions a.scope d ++
    match a.parseTags with
    | .error _ => []
    | .ok tags =>
      let (r, d) := d.getOrCreate a.scope
      .register r a.kind.request (a.metadata member) tags ::
        match (d.request r (a.metadata member) tags a.kind.request).1 with
        | .error _ => []
        | .ok adapter => [.mapMember r a.kind member adapter.id]

/-- Registering the metrics declared on a member, up to the first refusal. -/
def memberActions (member : Member) : List MetricAnnotation → Directory → List Action
  | [], _ => []
  | a :: rest, d =>
    annotationActions member a d ++
      match d.registerAnnotation member a with
      | (.error _, _) => []
      | (.ok _, d) => memberActions member rest d

end Directory

mutual

/-- What an operation does to a directory. -/
def Operation.actions : Operation → Directory → List Action
  | .openScope scope, d => Directory.openingActions scope d
  | .dropScope scope, _ => [.dropScope scope]
  | .dropAll, d => d.scopeNames.map .dropScope
  | .register r q metadata tags, _ => [.register r q metadata tags]
  | .remove r id, _ => [.remove r id]
  | .removeMatching r p, d =>
    match d.registry? r with
    | none => []
    | some registry => (registry.metrics.filter p).keys.map (.remove r)
  | .mapMember r kind member id, _ => [.mapMember r kind member id]
  | .registerMember member annotations, d => Directory.memberActions member annotations d
  | .intercept .counted scope member _ work _, d =>
    let opening := Directory.openingActions scope d
    match (d.getOrCreate scope).2.resolveMapped (d.getOrCreate scope).1 .counted member with
    | .error _ => opening
    | .ok counters =>
      let counted := opening ++ counters.map fun a => .write a (.increment 1)
      counted ++ Operation.actionsAll work (Action.applyAll counted d)
  | .intercept .timed scope member elapsed work _, d =>
    let opening := Directory.openingActions scope d
    match (d.getOrCreate scope).2.resolveMapped (d.getOrCreate scope).1 .timed member with
    | .error _ => opening
    | .ok timers =>
      opening ++ Operation.actionsAll work (Action.applyAll opening d) ++
        timers.map fun a => .write a (.record (saturate (elapsed a).nanos))
  | .increment a n, _ => [.write a (.increment n)]
  | .update a (.ofNat raw), _ => [.write a (.record raw)]
  | .update _ (.negSucc _), _ => []
  | .updateDuration a elapsed, _ => [.write a (.record (saturate elapsed.nanos))]
  | .sample samples, _ => [.sample samples]

/-- What operations do in turn. -/
def Operation.actionsAll : List Operation → Directory → List Action
  | [], _ => []
  | op :: ops, d => op.actions d ++ Operation.actionsAll ops (op.apply d)

end

namespace Directory

variable {d : Directory} {settings : RegistrySettings} {platform : PlatformReadings}

theorem applyAll_gaugeActions (r : RegistryRef) (gauges : List (Metadata × PlatformFigure))
    (d : Directory) : Action.applyAll (gaugeActions r gauges d) d = registerGauges r gauges d := by
  induction gauges generalizing d with
  | nil => rfl
  | cons gauge gauges ih =>
    obtain ⟨metadata, figure⟩ := gauge
    unfold gaugeActions registerGauges
    rw [Action.applyAll_cons]
    show Action.applyAll _ (d.gauge r metadata [] (.platform figure)).2 = _
    cases d.gauge r metadata [] (.platform figure) with
    | mk answer d' =>
      cases answer with
      | error e => rfl
      | ok a => exact ih d'

theorem applyAll_platformActions (r : RegistryRef) (d : Directory) :
    Action.applyAll (platformActions r d) d = d.bindPlatform r := by
  unfold platformActions bindPlatform
  cases d.registry? r with
  | none => rfl
  | some g =>
    simp only
    split
    · rfl
    · exact applyAll_gaugeActions r platformGauges _

theorem applyAll_openingActions (scope : String) (d : Directory) :
    Action.applyAll (openingActions scope d) d = (d.getOrCreate scope).2 := by
  unfold openingActions getOrCreate
  rw [Action.applyAll_cons]
  simp only
  split
  · exact applyAll_platformActions _ _
  · rfl

theorem applyAll_annotationActions (member : Member) (a : MetricAnnotation) (d : Directory) :
    Action.applyAll (annotationActions member a d) d = (d.registerAnnotation member a).2 := by
  unfold annotationActions
  rw [registerAnnotation_eq, Action.applyAll_append, applyAll_openingActions]
  cases a.parseTags with
  | error e => rfl
  | ok tags =>
    simp only [Action.applyAll_cons, Action.apply]
    generalize (d.getOrCreate a.scope).2.request (d.getOrCreate a.scope).1 (a.metadata member) tags
      a.kind.request = made
    obtain ⟨answer, d'⟩ := made
    cases answer <;> rfl

theorem applyAll_memberActions (member : Member) (annotations : List MetricAnnotation)
    (d : Directory) :
    Action.applyAll (memberActions member annotations d) d =
      (registerMember member annotations d).2 := by
  induction annotations generalizing d with
  | nil => rfl
  | cons a annotations ih =>
    unfold memberActions registerMember
    rw [Action.applyAll_append, applyAll_annotationActions]
    cases d.registerAnnotation member a with
    | mk answer d' =>
      cases answer with
      | error e => rfl
      | ok id =>
        simp only
        rw [ih d']
        split <;> rename_i heq <;> rw [heq]

theorem applyAll_map_remove (r : RegistryRef) (ids : List MetricId) (d : Directory) :
    Action.applyAll (ids.map (.remove r)) d = (removeEach r ids d).2 := by
  induction ids generalizing d with
  | nil => rfl
  | cons id ids ih => exact ih (d.remove r id).2

mutual

/-- **An operation does what its actions do.** -/
theorem apply_eq_applyAll : (op : Operation) → (d : Directory) →
    op.apply d = Action.applyAll (op.actions d) d
  | .openScope scope, d => (applyAll_openingActions scope d).symm
  | .dropScope _, _ => rfl
  | .dropAll, d => by
    unfold Operation.apply Operation.actions dropAll Action.applyAll
    rw [List.foldl_map]
    rfl
  | .register .., _ => rfl
  | .remove .., _ => rfl
  | .removeMatching r p, d => by
    unfold Operation.apply Operation.actions removeMatching
    cases d.registry? r with
    | none => rfl
    | some g => exact (applyAll_map_remove r _ d).symm
  | .mapMember .., _ => rfl
  | .registerMember member annotations, d => (applyAll_memberActions member annotations d).symm
  | .intercept .counted scope member _ work _, d => by
    unfold Operation.apply Operation.actions
    rw [invokeCounted_eq]
    simp only
    cases (d.getOrCreate scope).2.resolveMapped (d.getOrCreate scope).1 .counted member with
    | error e => exact (applyAll_openingActions scope d).symm
    | ok counters =>
      simp only
      rw [Action.applyAll_append, ← applyAll_eq_applyAll work]
      refine congrArg (Operation.applyAll work) ?_
      rw [Action.applyAll_append, applyAll_openingActions,
        Action.applyAll_map_write (fun a => a) fun _ => .increment 1]
      rfl
  | .intercept .timed scope member elapsed work _, d => by
    unfold Operation.apply Operation.actions
    rw [invokeTimed_eq]
    simp only
    cases (d.getOrCreate scope).2.resolveMapped (d.getOrCreate scope).1 .timed member with
    | error e => exact (applyAll_openingActions scope d).symm
    | ok timers =>
      simp only
      rw [Action.applyAll_append, Action.applyAll_append, ← applyAll_eq_applyAll work,
        applyAll_openingActions,
        Action.applyAll_map_write (fun a => a) fun a => .record (saturate (elapsed a).nanos)]
      rfl
  | .increment .., _ => rfl
  | .update _ (.ofNat _), _ => rfl
  | .update _ (.negSucc _), _ => rfl
  | .updateDuration .., _ => rfl
  | .sample _, _ => rfl

/-- **So do operations in turn.** -/
theorem applyAll_eq_applyAll : (ops : List Operation) → (d : Directory) →
    Operation.applyAll ops d = Action.applyAll (Operation.actionsAll ops d) d
  | [], _ => rfl
  | op :: ops, d => by
    unfold Operation.applyAll Operation.actionsAll
    rw [Action.applyAll_append, ← apply_eq_applyAll op d]
    exact applyAll_eq_applyAll ops _

end

/-- The history of a run. -/
def history (settings : RegistrySettings) (platform : PlatformReadings) (ops : List Operation) :
    List Action :=
  Operation.actionsAll ops (new settings platform)

/-- **Every run is a history.** -/
theorem afterRun_eq_reached (ops : List Operation) :
    afterRun settings platform ops = reached settings platform (history settings platform ops) :=
  applyAll_eq_applyAll ops _

/-! ## Histories are coherent -/

/-- **Every action keeps a directory coherent.** -/
theorem Coherent.action (h : d.Coherent) (act : Action) : (act.apply d).Coherent := by
  cases act with
  | openScope scope => exact (changes_openScope h scope).coherent h
  | dropScope scope => exact (changes_dropScope h scope).coherent h
  | register r q metadata tags => exact coherent_apply (.register r q metadata tags) h
  | remove r id => exact coherent_apply (.remove r id) h
  | markPlatform r => exact h.mark r fun _ => rfl
  | mapMember r kind member id => exact h.mark r fun _ => rfl
  | write a u =>
    cases u with
    | increment n => exact h.rewrite (a.rewritten_increment n d.store)
    | record raw => exact h.rewrite (a.rewritten_record raw d.store)
  | sample samples => exact h.rewrite (.samples d.store samples)

theorem Coherent.actions (h : d.Coherent) (acts : List Action) :
    (Action.applyAll acts d).Coherent := by
  induction acts generalizing d with
  | nil => exact h
  | cons act acts ih => exact ih (h.action act)

theorem coherent_reached (settings : RegistrySettings) (platform : PlatformReadings)
    (acts : List Action) : (reached settings platform acts).Coherent :=
  (coherent_new settings platform).actions acts

end Directory

end Telemetry
