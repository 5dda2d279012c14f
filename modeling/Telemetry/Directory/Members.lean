import Telemetry.Directory.Basic
import Telemetry.Store.Timing

/-!
# Counted and timed members

Members' metrics are registered up front (`registerMember`; specification, 4.5). An interception
resolves them in its scope: it is refused before the work when nothing is mapped to the member or a
mapped metric is missing. Otherwise every counter is incremented before the work (`invokeCounted`).
Every timer is started before it (`invokeTimed`): the contexts are stopped when the work returns,
and dropped when it unwinds, which passes the interception by.

* `invokeTimed_eq`, `time_eq`: however the work ends, every timer has recorded once after it.
-/

namespace Telemetry

namespace Directory

/-- Register the metric of one annotation and map it to the member. -/
def registerAnnotation (d : Directory) (member : Member) (a : MetricAnnotation) :
    Outcome MetricId × Directory :=
  let (r, d) := d.getOrCreate a.scope
  match a.parseTags with
  | .error e => (.error e, d)
  | .ok tags =>
    let metadata := a.metadata member
    let (answer, d) :=
      match a.kind with
      | .counted => d.counter r metadata tags
      | .timed => d.timer r metadata tags
    match answer with
    | .error e => (.error e, d)
    | .ok adapter =>
      (.ok adapter.id, d.modifyRegistry r fun registry =>
        { registry with
          mappings :=
            match a.kind with
            | .counted => registry.mappings.addCounter member adapter.id
            | .timed => registry.mappings.addTimer member adapter.id })

/-- Register the metrics declared on a member, in order. The first refusal ends it. -/
def registerMember (member : Member) : List MetricAnnotation → Directory →
    Outcome (List MetricId) × Directory
  | [], d => (.ok [], d)
  | a :: rest, d =>
    match d.registerAnnotation member a with
    | (.error e, d) => (.error e, d)
    | (.ok id, d) =>
      match registerMember member rest d with
      | (.error e, d) => (.error e, d)
      | (.ok ids, d) => (.ok (id :: ids), d)

/-- The ids mapped to a member for an annotation's kind. -/
def mappedIds (registry : Registry) (kind : AnnotationKind) (member : Member) : List MetricId :=
  let ids :=
    match kind with
    | .counted => registry.mappings.counters
    | .timed => registry.mappings.timers
  (ids.of? member).getD []

/-- The metrics mapped to a member; refused when there are none or one of them is missing. -/
def resolveMapped (d : Directory) (r : RegistryRef) (kind : AnnotationKind) (member : Member) :
    Outcome (List Adapter) :=
  match ((d.registry? r).map fun registry => mappedIds registry kind member).getD [] with
  | [] => .error (.noMetricMapped kind.metric member.text)
  | ids => ids.mapM fun id =>
    match d.metricOfKind? r kind.metric id with
    | some adapter => .ok adapter
    | none => .error (.mappedMetricMissing id.text member.text)

/-- Write through the store. -/
def modifyStore (d : Directory) (f : MeterStore → MeterStore) : Directory :=
  { d with store := f d.store }

section

variable {β : Type}

/-- Count an invocation of a member, then do the work. -/
def invokeCounted (d : Directory) (scope : String) (member : Member)
    (work : Directory → Ending β × Directory) : Ending (Outcome β) × Directory :=
  let (r, d) := d.getOrCreate scope
  match d.resolveMapped r .counted member with
  | .error e => (.returned (.error e), d)
  | .ok counters =>
    match work (d.modifyStore fun s => counters.foldl (fun s a => a.increment 1 s) s) with
    | (.returned result, d) => (.returned (.ok result), d)
    | (.unwound, d) => (.unwound, d)

/-- Do the work of a member while its timers run. The host measures how long each of them ran. -/
def invokeTimed (d : Directory) (scope : String) (member : Member) (elapsed : Adapter → Duration)
    (work : Directory → Ending β × Directory) : Ending (Outcome β) × Directory :=
  let (r, d) := d.getOrCreate scope
  match d.resolveMapped r .timed member with
  | .error e => (.returned (.error e), d)
  | .ok timers =>
    let contexts := timers.map Adapter.start
    match work d with
    | (.returned result, d) =>
      (.returned (.ok result), d.modifyStore (TimerContext.stopEach elapsed contexts))
    | (.unwound, d) => (.unwound, d.modifyStore (TimerContext.dropEach elapsed contexts))

/-- Do work while one timer runs. Its context is not stopped: it is dropped when the work ends. -/
def time (d : Directory) (timer : Adapter) (elapsed : Duration)
    (work : Directory → Ending β × Directory) : Ending β × Directory :=
  let context := timer.start
  let (ending, d) := work d
  (ending, d.modifyStore (context.drop elapsed))

variable (d : Directory) (scope : String) (member : Member)
  (work : Directory → Ending β × Directory)

/-- **A counted interception** counts before the work, and ends as the work does. -/
theorem invokeCounted_eq : d.invokeCounted scope member work =
    match (d.getOrCreate scope).2.resolveMapped (d.getOrCreate scope).1 .counted member with
    | .error e => (.returned (.error e), (d.getOrCreate scope).2)
    | .ok counters =>
      let done := work ((d.getOrCreate scope).2.modifyStore fun s =>
        counters.foldl (fun s a => a.increment 1 s) s)
      (done.1.map .ok, done.2) := by
  unfold invokeCounted
  simp only
  split
  · rfl
  · split <;> simp only [*, Ending.map]

/-- **A timed interception** records once in every timer after the work, and ends as the work
does. -/
theorem invokeTimed_eq (elapsed : Adapter → Duration) :
    d.invokeTimed scope member elapsed work =
      match (d.getOrCreate scope).2.resolveMapped (d.getOrCreate scope).1 .timed member with
      | .error e => (.returned (.error e), (d.getOrCreate scope).2)
      | .ok timers =>
        let done := work (d.getOrCreate scope).2
        (done.1.map .ok, done.2.modifyStore fun s =>
          timers.foldl (fun s a => a.updateDuration (elapsed a) s) s) := by
  unfold invokeTimed modifyStore
  simp only [TimerContext.stopEach_start, TimerContext.dropEach_start]
  split
  · rfl
  · split <;> simp only [*, Ending.map]

/-- **A timer records once** after the work that it times. -/
theorem time_eq (timer : Adapter) (elapsed : Duration) :
    d.time timer elapsed work =
      ((work d).1, (work d).2.modifyStore (timer.updateDuration elapsed)) := by
  show ((work d).1, (work d).2.modifyStore (timer.start.drop elapsed)) = _
  rw [funext (TimerContext.drop_start timer elapsed)]

end

end Directory

end Telemetry
