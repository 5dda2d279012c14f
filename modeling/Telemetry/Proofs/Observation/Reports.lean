import Telemetry.Proofs.Exposition.Gathered
import Telemetry.Session.Run

/-!
# What can be told of a directory

Of a meter its id, its metadata and what it holds at present can be told (`MeterReport`), of a
directory the reports of the meters of each existing scope. That is all: a listing, a lookup, an
export and the response to a scrape follow from the settings, the names of the scopes and the set of
reports of each.

* `SameMeters.answers`: coherent directories with the `SameMeters` give the `SameAnswers`, however
  they came about.

The reports of a scope come in the order of their ids, each once, so two scopes with the same set of
reports have one list of them (`SameMeters.reports`). What is stored of metrics and names is read
off this list (`Coherent.reading_iff`, `Coherent.name_iff`), and families are made from it
(`Coherent.gather_eq_reports`).
-/

namespace Telemetry

/-- What a meter holds at present. -/
inductive ValueReport where
  | counter (count : UInt64)
  | gauge (value : Real64)
  | histogram (sum : Nat) (snapshot : Snapshot)
  | timer (sum : Nat) (snapshot : Snapshot)
deriving DecidableEq

def ValueReport.kind : ValueReport → MetricKind
  | .counter _ => .counter
  | .gauge _ => .gauge
  | .histogram _ _ => .histogram
  | .timer _ _ => .timer

/-- What can be told of a meter. -/
structure MeterReport where
  id : MetricId
  metadata : Metadata
  value : ValueReport
deriving DecidableEq

namespace MeterReport

def kind (v : MeterReport) : MetricKind := v.value.kind

/-- What the metric reads whose meter this is. -/
def reading (v : MeterReport) (id : MetricId) : Reading :=
  match v.value with
  | .counter count => .counter id count.toNat
  | .gauge value => .gauge id value
  | .histogram sum snapshot => .histogram id sum snapshot
  | .timer sum snapshot => .timer id sum snapshot

/-- The main sample, and the greatest value that goes with it. -/
def exposed (v : MeterReport) : SampleValue × Option SampleValue :=
  match v.value with
  | .counter count => (.counter (.ofNat _ count.toNat), none)
  | .gauge value => (.gauge value, none)
  | .histogram _ snapshot | .timer _ snapshot =>
    (if snapshot.buckets.isEmpty then .summary snapshot else .histogram snapshot,
      some (.gauge snapshot.max))

/-- Add the samples. -/
def addTo (commonTags : Tags) (families : Families) (v : MeterReport) : Families :=
  let name := expositionName v.id.name v.kind v.metadata.unit
  let labels := labelsOf commonTags v.id.tags
  match families.push name v.metadata.help ⟨labels, v.exposed.1⟩, v.exposed.2 with
  | (true, families), some value =>
    (families.push (name ++ "_max") v.metadata.help ⟨labels, value⟩).2
  | (_, families), _ => families

end MeterReport

namespace Meter

variable {samples : Samples} {m : Meter}

def report (samples : Samples) (m : Meter) : MeterReport :=
  ⟨m.id, m.metadata,
    match m.value with
    | .counter count => .counter count
    | .gauge sampler => .gauge (samples.read sampler)
    | .histogram d => .histogram d.total d.snapshot
    | .timer d => .timer d.total d.snapshot⟩

theorem kind_report : (m.report samples).kind = m.kind := by
  obtain ⟨id, metadata, value⟩ := m
  cases value <;> rfl

theorem exposed_report : (m.report samples).exposed = m.exposed samples := by
  obtain ⟨id, metadata, value⟩ := m
  cases value <;> rfl

theorem addTo_report (commonTags : Tags) (families : Families) :
    (m.report samples).addTo commonTags families = families.addMeter samples commonTags m := by
  unfold MeterReport.addTo Families.addMeter
  rw [kind_report, exposed_report]
  rfl

end Meter

/-- What a listing tells of a metric is what it reads. -/
def Reading.summary : Reading → Summary
  | .counter id count => ⟨.counter, id, some count⟩
  | .gauge id _ => ⟨.gauge, id, none⟩
  | .histogram id _ snapshot => ⟨.histogram, id, some snapshot.count⟩
  | .timer id _ snapshot => ⟨.timer, id, some snapshot.count⟩

theorem Adapter.count_snapshot (a : Adapter) (s : MeterStore) :
    (a.snapshot s).count = a.recorded s := by
  unfold snapshot recorded
  cases a.distribution? s <;> rfl

theorem summary_reading (d : Directory) (a : Adapter) :
    (Session.reading d.store a).summary = Session.summarize d a := by
  unfold Session.reading Session.summarize Adapter.count?
  cases a.kind <;> simp only [Reading.summary, Adapter.count_snapshot]

namespace Directory

variable {d d' : Directory} {r r' : RegistryRef} {g g' : Registry} {id : MetricId} {a : Adapter}
  {m : MeterRef} {meter : Meter} {scope : String} {only : Option String} {v : MeterReport}

/-- What can be told of the meters of a scope. -/
def reports (d : Directory) (scope : String) : List MeterReport :=
  (((d.lookup? scope).bind d.registry?).map fun g =>
    (d.store.metersOf g.store none).map (Meter.report d.store.samples)).getD []

/-- The same scopes exist, and the same meters are in each. -/
structure SameMeters (d d' : Directory) : Prop where
  settings : d.settings = d'.settings
  scopes : ∀ scope, d.scopeExists scope = d'.scopeExists scope
  meters : ∀ scope v, v ∈ d.reports scope ↔ v ∈ d'.reports scope

/-- Whatever registries of the same scope are asked, they answer the same. -/
structure SameRegistry (d d' : Directory) (r r' : RegistryRef) (g g' : Registry) : Prop where
  listing : Session.listing d r g = Session.listing d' r' g'
  /-- The metadata and the kinds of the names. -/
  names : g.names = g'.names
  /-- The metrics of all ids and what they read. -/
  readings : ∀ id, (d.metric? r id).map (Session.reading d.store) =
    (d'.metric? r' id).map (Session.reading d'.store)
  gather : ∀ only, d.gather r only = d'.gather r' only
  exportRegistry : ∀ only, d.exportRegistry r only = d'.exportRegistry r' only

/-- Whatever the directories are asked, they answer the same. -/
structure SameAnswers (d d' : Directory) : Prop where
  scopeNames : d.scopeNames = d'.scopeNames
  registry : ∀ scope r r' g g', d.lookup? scope = some r → d'.lookup? scope = some r' →
    d.registry? r = some g → d'.registry? r' = some g' → SameRegistry d d' r r' g g'
  gatherAll : ∀ only, d.gatherAll only = d'.gatherAll only
  exportText : ∀ request, d.exportText request = d'.exportText request
  scrape : ∀ (e : ScrapeEndpoint) request, e.answer d request = e.answer d' request

/-! ## The reports of a scope -/

theorem reports_eq (hs : d.lookup? scope = some r) (hr : d.registry? r = some g) :
    d.reports scope = (d.store.metersOf g.store none).map (Meter.report d.store.samples) := by
  unfold reports
  rw [hs, Option.bind_some, hr]
  rfl

theorem Coherent.mem_reports (h : d.Coherent) (hs : d.lookup? scope = some r)
    (hr : d.registry? r = some g) :
    v ∈ d.reports scope ↔ ∃ id a m meter, g.metrics.get? id = some a ∧ d.Backed g id a m meter ∧
      meter.report d.store.samples = v := by
  rw [reports_eq hs hr, List.mem_map]
  simp only [h.mem_metersOf hr]
  constructor
  · rintro ⟨meter, ⟨id, a, m, ha, hb, -⟩, hv⟩
    exact ⟨id, a, m, meter, ha, hb, hv⟩
  · rintro ⟨id, a, m, meter, ha, hb, hv⟩
    exact ⟨meter, ⟨id, a, m, ha, hb, nofun⟩, hv⟩

theorem Coherent.reports_ascending (h : d.Coherent) (scope : String) :
    (d.reports scope).Pairwise fun v w => compare v.id w.id = .lt := by
  cases hs : d.lookup? scope with
  | none =>
    unfold reports
    rw [hs]
    exact .nil
  | some r =>
    obtain ⟨g, hr, -⟩ := (h.current scope r).mp hs
    rw [Directory.reports_eq hs hr]
    exact (h.metersOf_ascending hr none).map _ fun _ _ hlt => hlt

instance : Std.Irrefl fun v w : MeterReport => compare v.id w.id = .lt := ⟨fun v => by simp⟩

instance : Std.Antisymm fun v w : MeterReport => compare v.id w.id = .lt :=
  ⟨fun _ _ h h' => absurd h' (Std.OrientedCmp.not_lt_of_lt h)⟩

/-- **The same reports come in the same order.** -/
theorem SameMeters.reports (hsame : SameMeters d d') (h : d.Coherent) (h' : d'.Coherent)
    (scope : String) : d.reports scope = d'.reports scope :=
  (h.reports_ascending scope).eq_of_mem_iff (h'.reports_ascending scope) (hsame.meters scope)

/-! ## What is stored, read off the reports -/

/-- **A metric reads what can be told of its meter.** -/
theorem Backed.reading_eq (hb : d.Backed g id a m meter) :
    Session.reading d.store a = (meter.report d.store.samples).reading id := by
  have hstored := hb.stored
  have hcaptured := hb.captured
  have hpresent := hb.present
  have hkind := hb.meter_kind
  obtain ⟨mid, metadata, value⟩ := meter
  unfold Session.reading Adapter.counterValue Adapter.gaugeValue Adapter.total Adapter.snapshot
    Adapter.distribution? Adapter.readable?
  rw [← hkind, hcaptured, hstored]
  cases value <;> simp only [hpresent] <;> rfl

theorem Coherent.reading_iff (h : d.Coherent) (hs : d.lookup? scope = some r)
    (hr : d.registry? r = some g) {x : Reading} :
    (g.metrics.get? id).map (Session.reading d.store) = some x ↔
      d.settings.Normal id ∧ ∃ v ∈ d.reports scope, v.id = g.meterId id ∧ v.reading id = x := by
  rw [Option.map_eq_some_iff]
  constructor
  · rintro ⟨a, ha, rfl⟩
    obtain ⟨m, meter, hb⟩ := h.backed r g id a hr ha
    exact ⟨hb.normal, _, (h.mem_reports hs hr).mpr ⟨id, a, m, meter, ha, hb, rfl⟩, hb.meter_id,
      hb.reading_eq.symm⟩
  · rintro ⟨hnormal, v, hv, hid, rfl⟩
    obtain ⟨id', a, m, meter, ha, hb, rfl⟩ := (h.mem_reports hs hr).mp hv
    obtain rfl : id' = id :=
      Registry.meterId_inj hb.normal.unscoped hnormal.unscoped (hb.meter_id.symm.trans hid)
    exact ⟨a, ha, hb.reading_eq⟩

theorem Backed.report_name (hb : d.Backed g id a m meter) (samples : Samples) :
    (meter.report samples).id.name = id.name := by
  show meter.id.name = id.name
  rw [hb.meter_id]
  rfl

theorem Coherent.name_iff (h : d.Coherent) (hs : d.lookup? scope = some r)
    (hr : d.registry? r = some g) {name : String} {e : NameEntry} :
    g.names.get? name = some e ↔
      ∃ v ∈ d.reports scope, v.id.name = name ∧ e = ⟨v.metadata, v.kind⟩ := by
  constructor
  · intro he
    obtain ⟨id, a, ha, rfl⟩ := h.names_used r g name e hr he
    obtain ⟨m, meter, hb⟩ := h.backed r g id a hr ha
    refine ⟨_, (h.mem_reports hs hr).mpr ⟨id, a, m, meter, ha, hb, rfl⟩, hb.report_name _, ?_⟩
    rw [Meter.kind_report, hb.meter_kind]
    exact Option.some.inj (he.symm.trans hb.name)
  · rintro ⟨v, hv, rfl, rfl⟩
    obtain ⟨id, a, m, meter, ha, hb, rfl⟩ := (h.mem_reports hs hr).mp hv
    rw [Meter.kind_report, hb.meter_kind, hb.report_name]
    exact hb.name

/-- The reports of the meters of a name. -/
theorem Coherent.map_metersOf (h : d.Coherent) (hs : d.lookup? scope = some r)
    (hr : d.registry? r = some g) (only : Option String) :
    (d.store.metersOf g.store only).map (Meter.report d.store.samples) =
      (d.reports scope).filter fun v => only.all fun name => v.id.name = name := by
  have hascending : ((d.store.metersOf g.store only).map (Meter.report d.store.samples)).Pairwise
      fun v w => compare v.id w.id = .lt :=
    (h.metersOf_ascending hr only).map _ fun _ _ hlt => hlt
  refine hascending.eq_of_mem_iff ((h.reports_ascending scope).filter _) fun v => ?_
  rw [List.mem_map, List.mem_filter, h.mem_reports hs hr]
  simp only [h.mem_metersOf hr, Option.all_eq_true, decide_eq_true_eq]
  constructor
  · rintro ⟨meter, ⟨id, a, m, ha, hb, honly⟩, rfl⟩
    exact ⟨⟨id, a, m, meter, ha, hb, rfl⟩, fun name hname =>
      (hb.report_name _).trans (honly name hname)⟩
  · rintro ⟨⟨id, a, m, meter, ha, hb, rfl⟩, honly⟩
    exact ⟨meter,
      ⟨id, a, m, ha, hb, fun name hname => (hb.report_name _).symm.trans (honly name hname)⟩, rfl⟩

/-- **Families are made from reports.** -/
theorem Coherent.gather_eq_reports (h : d.Coherent) (hs : d.lookup? scope = some r)
    (only : Option String) :
    d.gather r only =
      (((d.reports scope).filter fun v => only.all fun name => v.id.name = name).foldl
        (MeterReport.addTo d.settings.globalTags) ∅).values := by
  obtain ⟨g, hr, -⟩ := (h.current scope r).mp hs
  obtain ⟨c, hc⟩ := h.exists_scope hr
  have hadd :
      (fun families m => (Meter.report d.store.samples m).addTo d.settings.globalTags families) =
      Families.addMeter d.store.samples d.settings.globalTags := by
    funext families m
    exact Meter.addTo_report _ _
  rw [← h.map_metersOf hs hr, List.foldl_map]
  unfold gather MeterStore.gather
  rw [hr]
  simp only [h.store r g hr, hc, (h.scope r g c hr hc).2]
  exact congrArg (fun f => (List.foldl f ∅ (d.store.metersOf r only)).values) hadd.symm

/-! ## The same answers -/

/-- Existing scopes correspond. -/
theorem SameMeters.lookup (hsame : SameMeters d d') (scope : String) :
    (d.lookup? scope = none ∧ d'.lookup? scope = none) ∨
      ∃ r r', d.lookup? scope = some r ∧ d'.lookup? scope = some r' := by
  have hexists : (d.lookup? scope).isSome = (d'.lookup? scope).isSome := hsame.scopes scope
  cases hs : d.lookup? scope <;> cases hs' : d'.lookup? scope <;> simp_all

theorem SameMeters.scopeNames (hsame : SameMeters d d') : d.scopeNames = d'.scopeNames := by
  have hmaps : d.scopes.map (fun _ => ()) = d'.scopes.map fun _ => () := by
    refine SortedMap.ext_get? fun scope => ?_
    rw [SortedMap.get?_map, SortedMap.get?_map]
    obtain ⟨hs, hs'⟩ | ⟨r, r', hs, hs'⟩ := hsame.lookup scope
    · rw [show d.scopes.get? scope = none from hs, show d'.scopes.get? scope = none from hs']
    · rw [show d.scopes.get? scope = some r from hs, show d'.scopes.get? scope = some r' from hs']
      rfl
  exact (SortedMap.keys_map ..).symm.trans
    ((congrArg SortedMap.keys hmaps).trans (SortedMap.keys_map ..))

theorem ids_ofKind (d : Directory) (g : Registry) (kind : MetricKind) :
    (g.ofKind kind).map (·.id) =
      ((g.metrics.values.map (Session.summarize d)).filter fun s => s.kind = kind).map (·.id) := by
  unfold Registry.ofKind
  rw [List.filter_map, List.map_map]
  rfl

section Answers

variable (hsame : SameMeters d d') (h : d.Coherent) (h' : d'.Coherent)
include hsame h h'

theorem SameMeters.gather (hs : d.lookup? scope = some r) (hs' : d'.lookup? scope = some r')
    (only : Option String) : d.gather r only = d'.gather r' only := by
  rw [h.gather_eq_reports hs, h'.gather_eq_reports hs', hsame.reports h h', hsame.settings]

/-- The stored metrics read the same under all ids. -/
theorem SameMeters.readings (hs : d.lookup? scope = some r) (hs' : d'.lookup? scope = some r')
    (hr : d.registry? r = some g) (hr' : d'.registry? r' = some g') :
    g.metrics.map (Session.reading d.store) = g'.metrics.map (Session.reading d'.store) := by
  have hscope : g'.scope = g.scope := (h'.of_lookup hs' hr').1.trans (h.of_lookup hs hr).1.symm
  refine SortedMap.ext_get? fun id => Option.ext fun x => ?_
  rw [SortedMap.get?_map, SortedMap.get?_map]
  refine (h.reading_iff hs hr).trans (Iff.trans ?_ (h'.reading_iff hs' hr').symm)
  rw [hsame.reports h h', hsame.settings, Registry.meterId_congr hscope]

theorem SameMeters.names (hs : d.lookup? scope = some r) (hs' : d'.lookup? scope = some r')
    (hr : d.registry? r = some g) (hr' : d'.registry? r' = some g') : g.names = g'.names := by
  refine SortedMap.ext_get? fun name => Option.ext fun e => ?_
  rw [h.name_iff hs hr, h'.name_iff hs' hr', hsame.reports h h']

theorem SameMeters.meterCount (hs : d.lookup? scope = some r) (hs' : d'.lookup? scope = some r') :
    d.meterCount r = d'.meterCount r' := by
  obtain ⟨g, hr, -⟩ := (h.current scope r).mp hs
  obtain ⟨g', hr', -⟩ := (h'.current scope r').mp hs'
  have hmaps := hsame.readings h h' hs hs' hr hr'
  rw [← h.size_eq_meterCount hr, ← h'.size_eq_meterCount hr', ← SortedMap.length_keys,
    ← SortedMap.length_keys, ← SortedMap.keys_map, hmaps, SortedMap.keys_map]

theorem SameMeters.listing (hs : d.lookup? scope = some r) (hs' : d'.lookup? scope = some r')
    (hr : d.registry? r = some g) (hr' : d'.registry? r' = some g') :
    Session.listing d r g = Session.listing d' r' g' := by
  have hmaps := hsame.readings h h' hs hs' hr hr'
  have hkeys : g.metrics.keys = g'.metrics.keys := by
    rw [← SortedMap.keys_map, hmaps, SortedMap.keys_map]
  have hsummaries : g.metrics.values.map (Session.summarize d) =
      g'.metrics.values.map (Session.summarize d') := by
    have hreadings := congrArg (fun m => m.values.map Reading.summary) hmaps
    simpa only [SortedMap.values_map, List.map_map, Function.comp_def,
      summary_reading] using hreadings
  have hids : ∀ kind, (g.ofKind kind).map (·.id) = (g'.ofKind kind).map (·.id) := by
    intro kind
    rw [ids_ofKind d, ids_ofKind d', hsummaries]
  unfold Session.listing Registry.metricNames
  simp only [hids, hsummaries, hkeys, ← SortedMap.length_keys, hsame.meterCount h h' hs hs']

theorem SameMeters.registry (hs : d.lookup? scope = some r) (hs' : d'.lookup? scope = some r')
    (hr : d.registry? r = some g) (hr' : d'.registry? r' = some g') :
    SameRegistry d d' r r' g g' where
  listing := hsame.listing h h' hs hs' hr hr'
  names := hsame.names h h' hs hs' hr hr'
  readings := by
    intro id
    have hscope : g.scope = g'.scope := (h.of_lookup hs hr).1.trans (h'.of_lookup hs' hr').1.symm
    unfold metric?
    rw [hr, hr', Option.bind_some, Option.bind_some, ← SortedMap.get?_map, ← SortedMap.get?_map,
      hsame.readings h h' hs hs' hr hr', hsame.settings,
      Registry.normalize_congr hscope]
  gather := hsame.gather h h' hs hs'
  exportRegistry := by
    intro only
    unfold exportRegistry
    rw [hsame.gather h h' hs hs', hsame.settings]

theorem SameMeters.gatherAll (only : Option String) : d.gatherAll only = d'.gatherAll only := by
  have hmaps : d.scopes.map (d.gather · only) = d'.scopes.map (d'.gather · only) := by
    refine SortedMap.ext_get? fun scope => ?_
    rw [SortedMap.get?_map, SortedMap.get?_map]
    obtain ⟨hs, hs'⟩ | ⟨r, r', hs, hs'⟩ := hsame.lookup scope
    · rw [show d.scopes.get? scope = none from hs, show d'.scopes.get? scope = none from hs',
        Option.map_none, Option.map_none]
    · rw [show d.scopes.get? scope = some r from hs, show d'.scopes.get? scope = some r' from hs',
        Option.map_some, Option.map_some, hsame.gather h h' hs hs']
  unfold Directory.gatherAll
  rw [← SortedMap.values_map, hmaps, SortedMap.values_map]

theorem SameMeters.answerExport (request : ExportRequest) :
    d.answerExport request = d'.answerExport request := by
  cases request with
  | everything => simp only [Directory.answerExport, hsame.gatherAll h h']
  | acrossScopes name => simp only [Directory.answerExport, hsame.gatherAll h h']
  | scope scope =>
    obtain ⟨hs, hs'⟩ | ⟨r, r', hs, hs'⟩ := hsame.lookup scope
    · simp only [Directory.answerExport, hs, hs']
    · simp only [Directory.answerExport, hs, hs', hsame.meterCount h h' hs hs',
        hsame.gather h h' hs hs']
  | metric scope name =>
    obtain ⟨hs, hs'⟩ | ⟨r, r', hs, hs'⟩ := hsame.lookup scope
    · simp only [Directory.answerExport, hs, hs']
    · simp only [Directory.answerExport, hs, hs', hsame.gather h h' hs hs']

/-- **The same meters give the same answers.** -/
theorem SameMeters.answers : SameAnswers d d' where
  scopeNames := hsame.scopeNames
  registry := fun _ _ _ _ _ => hsame.registry h h'
  gatherAll := hsame.gatherAll h h'
  exportText := by
    intro request
    unfold exportText
    rw [hsame.answerExport h h', hsame.settings]
  scrape := by
    intro e request
    unfold ScrapeEndpoint.answer ScrapeEndpoint.answerParams
    simp only [hsame.settings, hsame.answerExport h h', hsame.scopes]

end Answers

end Directory

end Telemetry
