import Telemetry.Session.Step

/-!
# Running a session

`Session.step` carries out one step and `Session.run` a list of them. A step on a registry resolves
its target first, which makes the scope; then the tags are checked; then the registry is asked. A
failed registration holds nothing under its handle.
-/

namespace Telemetry

structure Session where
  directory : Directory
  registries : SortedMap String RegistryRef
  metrics : SortedMap String Adapter
  cells : SortedMap String Nat
deriving DecidableEq

/-- Check the keys of given tags. -/
def checkTags (tags : GivenTags) : Outcome (List Tag) := tags.mapM fun t => Tag.of t.1 t.2

namespace Session

/-- A session that holds nothing. -/
def new (d : Directory) : Session := ⟨d, ∅, ∅, ∅⟩

/-- Hold a registry, if a handle is given. -/
def holdRegistry (s : Session) (handle : Option String) (r : RegistryRef) : Session :=
  match handle with
  | some h => { s with registries := s.registries.insert h r }
  | none => s

/-- Hold a metric, if a handle is given. -/
def holdMetric (s : Session) (handle : Option String) (a : Adapter) : Session :=
  match handle with
  | some h => { s with metrics := s.metrics.insert h a }
  | none => s

/-- The registry of a target. -/
def resolve (s : Session) : Target → Option RegistryRef × Session
  | .held handle => (s.registries.get? handle, s)
  | .scope scope =>
    let (r, directory) := s.directory.getOrCreate scope
    (some r, { s with directory })

/-- Make a cell, under the client's name for it if it has one. -/
def newCell (s : Session) (value : Real64) (name : Option String) : Nat × Session :=
  let (n, samples) := s.directory.store.samples.newCell value
  let s := { s with directory := s.directory.modifyStore fun store => { store with samples } }
  (n, match name with
    | some name => { s with cells := s.cells.insert name n }
    | none => s)

def summarize (d : Directory) (a : Adapter) : Summary := ⟨a.kind, a.id, a.count? d.store⟩

/-! ## Steps on a registry -/

/-- Register what is wanted. -/
def register (s : Session) (r : RegistryRef) (metadata : Metadata) (tags : List Tag) :
    Wanted → Outcome Adapter × Session
  | .counter =>
    let (answer, d) := s.directory.counter r metadata tags; (answer, { s with directory := d })
  | .histogram =>
    let (answer, d) := s.directory.histogram r metadata tags; (answer, { s with directory := d })
  | .timer =>
    let (answer, d) := s.directory.timer r metadata tags; (answer, { s with directory := d })
  | .gauge value cell =>
    let (n, s) := s.newCell value cell
    let (answer, d) := s.directory.gauge r metadata tags (.cell n)
    (answer, { s with directory := d })

/-- Register the counter as one of a crowd and increment it. -/
def crowdMember (r : RegistryRef) (name : String) (times : Nat) (d : Directory) :
    Bool × Directory :=
  match d.counter r (.ofName name) [] with
  | (.error _, d) => (false, d)
  | (.ok a, d) => (true, d.modifyStore (a.increment (.ofNat times)))

/-- So many members of a crowd, one after the other; counts those that failed. -/
def crowdRun (r : RegistryRef) (name : String) (times : Nat) : Nat → Directory → Nat × Directory
  | 0, d => (0, d)
  | n + 1, d =>
    let (ok, d) := crowdMember r name times d
    let (failed, d) := crowdRun r name times n d
    (if ok then failed else failed + 1, d)

def listing (d : Directory) (r : RegistryRef) (registry : Registry) : Listing :=
  let ids (kind : MetricKind) : List MetricId := (registry.ofKind kind).map (·.id)
  { metrics := registry.metrics.values.map (summarize d)
    counters := ids .counter
    gauges := ids .gauge
    histograms := ids .histogram
    timers := ids .timer
    ids := registry.metrics.keys
    names := registry.metricNames
    size := registry.metrics.size
    meters := d.meterCount r }

/-- A step with given tags: they are checked before anything else. -/
def withTags (s : Session) (tags : GivenTags) (f : List Tag → Answer × Session) :
    Answer × Session :=
  match checkTags tags with
  | .error e => (.failed e, s)
  | .ok tags => f tags

def ofText (s : Session) : Outcome String → Answer × Session
  | .ok text => (.text text, s)
  | .error e => (.failed e, s)

/-- Carry out a step on a registry. -/
def onRegistry (s : Session) (r : RegistryRef) (registry : Registry) :
    RegistryStep → Answer × Session
  | .inspect hold =>
    (.registry registry.scope registry.metrics.size (s.directory.meterCount r)
        registry.metrics.isEmpty registry.dropped,
      s.holdRegistry hold r)
  | .register wanted metadata tags hold =>
    s.withTags tags fun tags =>
      match s.register r metadata tags wanted with
      | (.error e, s) => (.failed e, s)
      | (.ok a, s) => (.summary (summarize s.directory a), s.holdMetric hold a)
  | .get name tags kind hold =>
    s.withTags tags fun tags =>
      let id := MetricId.of name tags
      let found :=
        match kind with
        | some kind => s.directory.metricOfKind? r kind id
        | none => s.directory.metric? r id
      match found with
      | some a => (.summary (summarize s.directory a), s.holdMetric hold a)
      | none => (.none, s)
  | .list => (.listing (listing s.directory r registry), s)
  | .metadata name => (.metadata (registry.metadata? name) (registry.kindOf? name), s)
  | .remove name tags =>
    s.withTags tags fun tags =>
      let (removed, directory) := s.directory.remove r (MetricId.of name tags)
      (.flag removed, { s with directory })
  | .removeByName name =>
    let (removed, directory) := s.directory.removeByName r name
    (.flag removed, { s with directory })
  | .removeMatching start kind =>
    let (n, directory) := s.directory.removeMatching r fun id a =>
      (Text.after? start.toList id.name.toList).isSome && kind.all fun kind => a.kind = kind
    (.number n, { s with directory })
  | .exportText name => s.ofText (s.directory.exportRegistry r name)
  | .resolveTags name tags =>
    s.withTags tags fun tags =>
      let id := MetricId.of name tags
      (.resolved (s.directory.settings.withAppTag id) (registry.withScopeTag id.tags), s)
  | .mapped member =>
    (.mapped (registry.mappings.counters.of? member) (registry.mappings.timers.of? member), s)
  | .crowd name clients times =>
    let (failed, directory) := crowdRun r name times clients s.directory
    let count := (directory.metricOfKind? r .counter ⟨name, ∅⟩).map fun a =>
      (a.counterValue directory.store).toNat
    (.crowd failed count (directory.meterCount r), { s with directory })

/-! ## Steps on a metric -/

/-- Work that changes nothing, and returns or fails. -/
def idle (fails : Bool) (d : Directory) : Ending Unit × Directory :=
  (if fails then .unwound else .returned (), d)

/-- Write through the store. -/
def modifyStore (s : Session) (f : MeterStore → MeterStore) : Session :=
  { s with directory := s.directory.modifyStore f }

/-- What a metric reads. -/
def reading (store : MeterStore) (a : Adapter) : Reading :=
  match a.kind with
  | .counter => .counter a.id (a.counterValue store).toNat
  | .gauge => .gauge a.id (a.gaugeValue store)
  | .histogram => .histogram a.id (a.total store) (a.snapshot store)
  | .timer => .timer a.id (a.total store) (a.snapshot store)

/-- Carry out a step on a metric. -/
def onMetric (s : Session) (a : Adapter) : MetricStep → Answer × Session
  | .increment n =>
    if a.kind = .counter then
      let s := s.modifyStore (a.increment n)
      (.number (a.counterValue s.directory.store).toNat, s)
    else (.noHandle, s)
  | .update values durations =>
    match a.kind with
    | .histogram =>
      let s := s.modifyStore fun store => values.foldl (fun store v => a.update v store) store
      (.updated (a.recorded s.directory.store) (a.total s.directory.store), s)
    | .timer =>
      let s := s.modifyStore fun store =>
        durations.foldl (fun store d => a.updateDuration d store) store
      (.elapsed (a.recorded s.directory.store) (a.total s.directory.store), s)
    | _ => (.noHandle, s)
  | .time fails elapsed =>
    if a.kind = .timer then
      let (ending, directory) := s.directory.time a elapsed (idle fails)
      let s := { s with directory }
      (.timed ending.unwinds (a.recorded s.directory.store), s)
    else (.noHandle, s)
  | .context elapsed =>
    if a.kind = .timer then
      let before := a.recorded s.directory.store
      let s := s.modifyStore fun store => (a.start.stop elapsed store).2
      (.stopped before (a.recorded s.directory.store), s)
    else (.noHandle, s)
  | .expire elapsed =>
    if a.kind = .timer then
      let before := a.recorded s.directory.store
      let s := s.modifyStore (a.start.drop elapsed)
      (.stopped before (a.recorded s.directory.store), s)
    else (.noHandle, s)
  | .read => (.reading (reading s.directory.store a), s)
  | .count => (.summary (summarize s.directory a), s)
  | .setCell cell value =>
    if a.kind = .gauge then
      let s :=
        match s.cells.get? cell with
        | some n => s.modifyStore fun store =>
          { store with samples := store.samples.setCell n value }
        | none => s
      (.value (a.gaugeValue s.directory.store), s)
    else (.noHandle, s)
  | .same other => (.flag ((s.metrics.get? other).any fun b => b.serial == a.serial), s)

/-! ## Steps on the directory -/

/-- Answer an interception. -/
def ofInterception (s : Session) : Ending (Outcome Unit) × Directory → Answer × Session
  | (.returned (.error e), directory) => (.notRun e, { s with directory })
  | (.returned (.ok ()), directory) => (.ran false, { s with directory })
  | (.unwound, directory) => (.ran true, { s with directory })

/-- However an interception ends, the session goes on in the directory that it left. -/
theorem ofInterception_snd (s : Session) (done : Ending (Outcome Unit) × Directory) :
    (s.ofInterception done).2 = { s with directory := done.2 } := by
  match done with
  | (.returned (.error _), _) => rfl
  | (.returned (.ok _), _) => rfl
  | (.unwound, _) => rfl

/-- Carry out a step. -/
def step (s : Session) : Step → Answer × Session
  | .scopeExists scope => (.flag (s.directory.scopeExists scope), s)
  | .scopes => (.texts s.directory.scopeNames, s)
  | .dropScope scope =>
    let (dropped, directory) := s.directory.dropScope scope
    (.flag dropped, { s with directory })
  | .dropAll =>
    let directory := s.directory.dropAll
    (.texts directory.scopeNames, { s with directory })
  | .lookup scope =>
    match (s.directory.lookup? scope).bind s.directory.registry? with
    | some registry => (.scopeSize registry.scope registry.metrics.size, s)
    | none => (.none, s)
  | .wellKnown =>
    let scopes := [applicationScope, baseScope, vendorScope]
    let directory := scopes.foldl (fun d scope => (d.getOrCreate scope).2) s.directory
    (.texts scopes, { s with directory })
  | .exportAll =>
    match s.directory.exportText .everything with
    | .ok body => (.exposition body exposition.contentType, s)
    | .error e => (.failed e, s)
  | .exportText request => s.ofText (s.directory.exportText request)
  | .registerMember member annotations =>
    match Directory.registerMember member annotations s.directory with
    | (.error e, directory) => (.failed e, { s with directory })
    | (.ok ids, directory) => (.ids ids, { s with directory })
  | .intercept kind scope member fails elapsed =>
    s.ofInterception <|
      match kind with
      | .counted => s.directory.invokeCounted scope member (idle fails)
      | .timed => s.directory.invokeTimed scope member (fun _ => elapsed) (idle fails)
  | .scrape endpoint request headers =>
    let response := endpoint.answer s.directory request
    (.response response (headers.map response.header?), s)
  | .onRegistry target step =>
    match s.resolve target with
    | (none, s) => (.noHandle, s)
    | (some r, s) =>
      match s.directory.registry? r with
      | none => (.noHandle, s)
      | some registry => s.onRegistry r registry step
  | .onMetric handle step =>
    match s.metrics.get? handle with
    | none => (.noHandle, s)
    | some a => s.onMetric a step

/-- Carry out steps in turn. -/
def run : List Step → Session → List Answer × Session
  | [], s => ([], s)
  | step :: rest, s =>
    let (answer, s) := s.step step
    let (answers, s) := run rest s
    (answer :: answers, s)

end Session

end Telemetry
