import Telemetry.Exposition.Text
import Telemetry.Store.Adapter
import Telemetry.Tag.Global

/-!
# A store on the bench

`StoreBench` drives a meter store by itself: scope stores by number in the order they were made,
composites by handle, grants for any scope, and ids that carry just the tags given (specification,
4.7). What a composite and a meter show is a `CompositeView` and a `MeterView`.
-/

namespace Telemetry

structure StoreBench where
  gates : VisibilityGate
  store : MeterStore
  held : SortedMap String Composite
deriving DecidableEq

/-- What to register; a gauge samples a new cell with this value. -/
inductive BenchSpec where
  | counter
  | gauge (value : Real64)
  | histogram (spec : DistributionSpec)
  | timer (spec : DistributionSpec)
deriving DecidableEq

inductive BenchStep where
  /-- Attach a scope store with common tags, given as a text. -/
  | attach (scope common : String)
  | register (name : String) (tags : List (String × String)) (spec : BenchSpec)
      (grantScope : String) (metadata : Metadata) (hold : String)
  | increment (handle : String) (n : UInt64)
  | record (handle : String) (raw : Nat)
  | read (handle : String)
  /-- Use an adapter that captured the meter of a scope store, or none. The amount is an increment,
  a value or nanoseconds; a gauge without a meter samples `value`. -/
  | adapt (handle : String) (scope : Option ScopeRef) (amount : Int) (value : Real64)
  | remove (handle : String)
  | detach (scope : String)
  | find (scope : ScopeRef) (name : String) (tags : List (String × String))
  | size (scope : ScopeRef)
  | clear (scope : ScopeRef)
  | refresh (scope : ScopeRef) (metadata : Metadata)
  | gather (scope : ScopeRef) (name : Option String)
deriving DecidableEq

/-- What a meter shows. A meter without a distribution has no count of values and no total. -/
structure MeterView where
  id : MetricId
  kind : MetricKind
  metadata : Metadata
  counter : Nat
  gauge : Real64
  values : Option (Nat × Nat)
deriving DecidableEq

/-- What a composite shows: the figures of its first slot, and its meters. -/
structure CompositeView where
  id : MetricId
  kind : MetricKind
  counter : Nat
  count : Nat
  total : Nat
  snapshot : Snapshot
  live : List MeterView
deriving DecidableEq

/-- What an adapter shows after its use. -/
inductive AdapterView where
  | counter (id : MetricId) (count : Nat)
  | gauge (id : MetricId) (value : Real64)
  | histogram (id : MetricId) (count sum : Nat) (snapshot : Snapshot)
  | timer (id : MetricId) (count elapsed : Nat) (snapshot : Snapshot)
deriving DecidableEq

inductive BenchAnswer where
  | noHandle
  | failed (error : MetricsError)
  | none
  | number (n : Nat)
  | flag (value : Bool)
  | text (text : String)
  | scopeSize (scope : String) (size : Nat)
  /-- How many slots took the registration, and which handles held this composite already. -/
  | registered (live : Nat) (kind : MetricKind) (sameAs : List String)
  | composite (view : CompositeView)
  | meter (view : MeterView)
  | adapted (view : AdapterView) (captured : Bool) (composite : CompositeView)
deriving DecidableEq

namespace StoreBench

/-- An empty store. -/
def new : StoreBench := ⟨.new 0, .new default, ∅⟩

def viewMeter (s : MeterStore) (m : Meter) : MeterView :=
  { id := m.id, kind := m.kind, metadata := m.metadata
    counter := m.count.toNat
    gauge := m.sample s.samples
    values := m.distribution?.map fun d => (d.count, d.total) }

def viewComposite (s : MeterStore) (c : Composite) : CompositeView :=
  let first := s.firstMeter? c
  let distribution := first.bind Meter.distribution?
  { id := c.id, kind := c.kind
    counter := ((first.map Meter.count).getD 0).toNat
    count := (distribution.map (·.count)).getD 0
    total := (distribution.map (·.total)).getD 0
    snapshot := (distribution.map Distribution.snapshot).getD .empty
    live := c.live.filterMap fun m => (s.meter? m).map (viewMeter s) }

/-- Make what a registration needs. -/
def specOf (b : StoreBench) : BenchSpec → MeterSpec × StoreBench
  | .counter => (.counter, b)
  | .histogram d => (.histogram d, b)
  | .timer d => (.timer d, b)
  | .gauge value =>
    let (n, samples) := b.store.samples.newCell value
    (.gauge (.cell n), { b with store := { b.store with samples } })

/-- The handles under which this very composite is held. -/
def handlesOf (b : StoreBench) (c : Composite) : List String :=
  (b.held.entries.filter fun e => e.2.serial = c.serial).map Prod.fst

/-- An id of the given tags. -/
def idOf (name : String) (tags : List (String × String)) : Outcome MetricId :=
  (tags.mapM fun t => Tag.of t.1 t.2).map (MetricId.of name)

/-- Use an adapter once. -/
def useAdapter (a : Adapter) (amount : Int) (s : MeterStore) : MeterStore :=
  match a.kind with
  | .counter => a.increment (.ofInt amount) s
  | .gauge => s
  | .histogram => a.update amount s
  | .timer => a.updateDuration ⟨amount.toNat⟩ s

def viewAdapter (s : MeterStore) (a : Adapter) : AdapterView :=
  match a.kind with
  | .counter => .counter a.id (a.counterValue s).toNat
  | .gauge => .gauge a.id (a.gaugeValue s)
  | .histogram => .histogram a.id (a.recorded s) (a.total s) (a.snapshot s)
  | .timer => .timer a.id (a.recorded s) (a.total s) (a.snapshot s)

/-- The form of an adapter over a composite. -/
def formOf (kind : MetricKind) (cell : Nat) : AdapterForm :=
  match kind with
  | .counter => .counter
  | .gauge => .gauge (.cell cell)
  | .histogram => .histogram
  | .timer => .timer

/-- Work on a held composite. -/
def withHeld (b : StoreBench) (handle : String) (f : Composite → BenchAnswer × StoreBench) :
    BenchAnswer × StoreBench :=
  match b.held.get? handle with
  | some c => f c
  | none => (.noHandle, b)

/-- Work on a scope store. -/
def withScope (b : StoreBench) (n : ScopeRef) (f : ScopeStore → BenchAnswer × StoreBench) :
    BenchAnswer × StoreBench :=
  match b.store.scope? n with
  | some scope => f scope
  | none => (.noHandle, b)

/-- Show a composite as it is now. -/
def showing (b : StoreBench) (c : Composite) : BenchAnswer × StoreBench :=
  (.composite (viewComposite b.store c), b)

def step (b : StoreBench) : BenchStep → BenchAnswer × StoreBench
  | .attach scope common =>
    match parseGlobalTags common with
    | .error e => (.failed e, b)
    | .ok tags =>
      let (gate, gates) := b.gates.scopeGate scope
      let (n, store) := b.store.attach gate tags
      (.number (n + 1), { b with gates, store })
  | .register name tags spec grantScope metadata hold =>
    match idOf name tags with
    | .error e => (.failed e, b)
    | .ok id =>
      let (spec, b) := b.specOf spec
      let (gate, gates) := b.gates.scopeGate grantScope
      let (grant, gates) := gates.openGrant gate
      let (answer, store) := b.store.register id spec metadata grant
      let b := { b with gates := gates.release grant, store }
      match answer with
      | .error e => (.failed e, b)
      | .ok c =>
        (.registered c.live.length c.kind (b.handlesOf c), { b with held := b.held.insert hold c })
  | .increment handle n =>
    b.withHeld handle fun c =>
      showing { b with store := b.store.modifyLive c (Meter.increment n) } c
  | .record handle raw =>
    b.withHeld handle fun c =>
      showing { b with store := b.store.modifyLive c (Meter.record raw) } c
  | .read handle => b.withHeld handle b.showing
  | .adapt handle scope amount value =>
    b.withHeld handle fun c =>
      let (cell, samples) := b.store.samples.newCell value
      let store := { b.store with samples }
      let captured := scope.bind fun n => store.find? n c.id
      let adapter : Adapter := ⟨0, c.id, formOf c.kind cell, c, captured⟩
      let store := useAdapter adapter amount store
      (.adapted (viewAdapter store adapter) captured.isSome (viewComposite store c),
        { b with store })
  | .remove handle =>
    b.withHeld handle fun c =>
      let (removed, store) := b.store.remove c.id
      (.flag removed, { b with store })
  | .detach scope =>
    match b.store.detach scope with
    | (none, store) => (.none, { b with store })
    | (some n, store) => (.scopeSize scope (store.meterCount n), { b with store })
  | .find n name tags =>
    b.withScope n fun _ =>
      match idOf name tags with
      | .error e => (.failed e, b)
      | .ok id =>
        match (b.store.find? n id).bind b.store.meter? with
        | some m => (.meter (viewMeter b.store m), b)
        | none => (.none, b)
  | .size n =>
    b.withScope n fun scope => (.scopeSize scope.gate.scope scope.meters.size, b)
  | .clear n =>
    b.withScope n fun _ =>
      let store := b.store.clearScope n
      (.number (store.meterCount n), { b with store })
  | .refresh n metadata =>
    b.withScope n fun scope =>
      (.number scope.meters.size, { b with store := b.store.refreshMetadata n metadata })
  | .gather n name =>
    b.withScope n fun _ =>
      match encode (b.store.gather n name) with
      | .ok text => (.text text, b)
      | .error e => (.failed e, b)

end StoreBench

end Telemetry
