import Telemetry.Proofs.Isolation.Effects
import Telemetry.Session.Run

/-!
# What twins read

Whatever is read of a scope is the same in both of two directories in which the scope is: values of
metrics, listings and exported texts. Nothing that is shown contains a number of a registry, a
meter, a cell or an adapter.
-/

namespace Telemetry

variable {ρ : Pairing}

/-! ## Meters -/

namespace Meter.Match

variable {m m' : Meter}

theorem kind (h : m.Match ρ m') : m.kind = m'.kind := by
  obtain ⟨id, metadata, value⟩ := m
  obtain ⟨id', metadata', value'⟩ := m'
  cases h.value <;> rfl

theorem count (h : m.Match ρ m') : m.count = m'.count := by
  obtain ⟨id, metadata, value⟩ := m
  obtain ⟨id', metadata', value'⟩ := m'
  cases h.value <;> rfl

theorem distribution? (h : m.Match ρ m') : m.distribution? = m'.distribution? := by
  obtain ⟨id, metadata, value⟩ := m
  obtain ⟨id', metadata', value'⟩ := m'
  cases h.value <;> rfl

theorem increment (h : m.Match ρ m') (n : UInt64) : (m.increment n).Match ρ (m'.increment n) := by
  obtain ⟨id, metadata, value⟩ := m
  obtain ⟨id', metadata', value'⟩ := m'
  cases h.value with
  | counter count => exact ⟨h.id, h.metadata, .counter (count + n)⟩
  | gauge hs => exact h
  | histogram values => exact h
  | timer durations => exact h

theorem record (h : m.Match ρ m') (raw : Nat) : (m.record raw).Match ρ (m'.record raw) := by
  obtain ⟨id, metadata, value⟩ := m
  obtain ⟨id', metadata', value'⟩ := m'
  cases h.value with
  | counter count => exact h
  | gauge hs => exact h
  | histogram values => exact ⟨h.id, h.metadata, .histogram (values.record raw)⟩
  | timer durations => exact ⟨h.id, h.metadata, .timer (durations.record raw)⟩

end Meter.Match

/-- An export of the scope alone. -/
def ExportRequest.At (t : String) : ExportRequest → Prop
  | .scope u | .metric u _ => u = t
  | .everything | .acrossScopes _ => False

namespace Directory

variable {t : String} {d d' : Directory} {r r' : RegistryRef} {g g' : Registry} {a a' : Adapter}

/-! ## Values -/

theorem Alike.read (h : Alike t ρ d d') {s s' : Sampler} (hs : s.Match ρ s') :
    d.store.samples.read s = d'.store.samples.read s' := by
  cases hs with
  | cell hn =>
    obtain ⟨v, v', hv, hv', rfl⟩ := h.cell _ _ hn
    show (d.store.samples.cells[_]?).getD _ = (d'.store.samples.cells[_]?).getD _
    rw [hv, hv']
  | platform figure =>
    show d.store.samples.platform.get figure = d'.store.samples.platform.get figure
    rw [h.platform]

theorem Alike.sample (h : Alike t ρ d d') {m m' : Meter} (hm : m.Match ρ m') :
    m.sample d.store.samples = m'.sample d'.store.samples := by
  obtain ⟨id, metadata, value⟩ := m
  obtain ⟨id', metadata', value'⟩ := m'
  cases hm.value with
  | gauge hs => exact h.read hs
  | _ => rfl

theorem Alike.exposed (h : Alike t ρ d d') {m m' : Meter} (hm : m.Match ρ m') :
    m.exposed d.store.samples = m'.exposed d'.store.samples := by
  obtain ⟨id, metadata, value⟩ := m
  obtain ⟨id', metadata', value'⟩ := m'
  cases hm.value with
  | gauge hs =>
    show (SampleValue.gauge _, none) = (SampleValue.gauge _, none)
    rw [h.read hs]
  | _ => rfl

/-- Adapters that correspond read meters that do. -/
theorem Alike.readable (h : Alike t ρ d d') (ha : a.Match ρ a') :
    Both (Meter.Match ρ) (a.readable? d.store) (a'.readable? d'.store) := by
  obtain ⟨m, m', hm, hm', hr⟩ := ha.meter
  unfold Adapter.readable?
  rw [hm.1, hm'.1]
  exact (h.meter m m' hr).imp fun _ _ hx => hx.2

theorem Alike.counterValue (h : Alike t ρ d d') (ha : a.Match ρ a') :
    a.counterValue d.store = a'.counterValue d'.store := by
  obtain ⟨x, x', hx, hx', hm⟩ := h.readable ha
  unfold Adapter.counterValue
  rw [hx, hx', Option.map_some, Option.map_some, hm.count]

theorem Alike.distribution? (h : Alike t ρ d d') (ha : a.Match ρ a') :
    a.distribution? d.store = a'.distribution? d'.store := by
  obtain ⟨x, x', hx, hx', hm⟩ := h.readable ha
  unfold Adapter.distribution?
  rw [hx, hx', Option.bind_some, Option.bind_some, hm.distribution?]

theorem Alike.recorded (h : Alike t ρ d d') (ha : a.Match ρ a') :
    a.recorded d.store = a'.recorded d'.store := by
  unfold Adapter.recorded
  rw [h.distribution? ha]

theorem Alike.total (h : Alike t ρ d d') (ha : a.Match ρ a') :
    a.total d.store = a'.total d'.store := by
  unfold Adapter.total
  rw [h.distribution? ha]

theorem Alike.snapshot (h : Alike t ρ d d') (ha : a.Match ρ a') :
    a.snapshot d.store = a'.snapshot d'.store := by
  unfold Adapter.snapshot
  rw [h.distribution? ha]

theorem Alike.gaugeValue (h : Alike t ρ d d') (ha : a.Match ρ a') :
    a.gaugeValue d.store = a'.gaugeValue d'.store := by
  obtain ⟨m, m', hm, hm', hr⟩ := ha.meter
  obtain ⟨x, x', hx, hx', -, hmatch⟩ := h.meter m m' hr
  unfold Adapter.gaugeValue
  rw [hm.1, hm'.1]
  simp only
  rw [hx, hx', Option.map_some, Option.map_some, h.sample hmatch]

theorem Alike.summarize (h : Alike t ρ d d') (ha : a.Match ρ a') :
    Session.summarize d a = Session.summarize d' a' := by
  unfold Session.summarize Adapter.count?
  rw [ha.kind, ha.id, h.counterValue ha, h.recorded ha]

theorem Alike.reading (h : Alike t ρ d d') (ha : a.Match ρ a') :
    Session.reading d.store a = Session.reading d'.store a' := by
  unfold Session.reading
  rw [ha.kind, ha.id, h.counterValue ha, h.gaugeValue ha, h.total ha, h.snapshot ha]

/-! ## Lookup -/

theorem Alike.scopeExists (h : Alike t ρ d d') : d.scopeExists t = d'.scopeExists t :=
  isSome_of_rel h.current

/-- Metrics found by one id correspond. -/
theorem Alike.metric? (h : Alike t ρ d d') (hr : ρ.rel .registry r r') (id : MetricId) :
    Option.Rel (Adapter.Match ρ) (d.metric? r id) (d'.metric? r' id) := by
  obtain ⟨g, g', hg, hg', -, -, hm⟩ := h.registries hr
  unfold Directory.metric?
  rw [hg, hg', Option.bind_some, Option.bind_some, h.settings,
    Registry.normalize_congr hm.scope]
  exact hm.metrics.get? _

theorem Alike.metricOfKind? (h : Alike t ρ d d') (hr : ρ.rel .registry r r') (kind : MetricKind)
    (id : MetricId) :
    Option.Rel (Adapter.Match ρ) (d.metricOfKind? r kind id) (d'.metricOfKind? r' kind id) := by
  unfold Directory.metricOfKind?
  have hrel := h.metric? hr id
  generalize d.metric? r id = o, d'.metric? r' id = o' at hrel
  cases hrel with
  | none => exact .none
  | @some a a' ha =>
    rw [Option.filter_some, Option.filter_some, ha.kind]
    split
    · exact .some ha
    · exact .none

/-! ## Listings and exports -/

theorem Twins.meterCount (h : Twins t ρ d d') (hr : ρ.rel .registry r r') :
    d.meterCount r = d'.meterCount r' := by
  obtain ⟨g, g', hg, hg', -⟩ := h.registry r r' hr
  obtain ⟨c, c', hc, hc', hm⟩ := h.store r r' hr
  unfold Directory.meterCount MeterStore.meterCount
  rw [hg, hg', Option.map_some, Option.map_some, h.left.store r g hg,
    h.right.store r' g' hg', hc, hc', Option.map_some, Option.map_some, hm.size]

theorem Twins.listing (h : Twins t ρ d d') (hr : ρ.rel .registry r r') (hm : g.Match ρ g') :
    Session.listing d r g = Session.listing d' r' g' := by
  have hids : ∀ kind, (g.ofKind kind).map (·.id) = (g'.ofKind kind).map (·.id) := by
    intro kind
    have hkind : List.Forall₂ (Adapter.Match ρ) (g.ofKind kind) (g'.ofKind kind) :=
      filter_of_forall₂ hm.metrics.values fun a a' ha => by rw [ha.kind]
    exact map_eq_of_forall₂ hkind fun _ _ ha => ha.id
  unfold Session.listing Registry.metricNames
  simp only [hids, hm.metrics.keys, hm.metrics.size, h.meterCount hr]
  rw [map_eq_of_forall₂ hm.metrics.values fun _ _ ha => h.summarize ha]

/-- The meters of a scope correspond, in their order. -/
theorem Alike.metersOf (h : Alike t ρ d d') (hr : ρ.rel .registry r r') (name : Option String) :
    List.Forall₂ (Meter.Match ρ) (d.store.metersOf r name) (d'.store.metersOf r' name) := by
  obtain ⟨c, c', hc, hc', hm⟩ := h.store r r' hr
  unfold MeterStore.metersOf
  rw [hc, hc']
  simp only
  refine List.rel_filterMap (fun e e' he => ?_)
    (filter_of_forall₂ hm fun e e' he => by rw [he.1])
  obtain ⟨x, x', hx, hx', -, hmatch⟩ := h.meter _ _ he.2
  show Option.Rel _ (d.store.meter? e.2) (d'.store.meter? e'.2)
  rw [hx, hx']
  exact .some hmatch

theorem Twins.gather (h : Twins t ρ d d') (hr : ρ.rel .registry r r') (name : Option String) :
    d.gather r name = d'.gather r' name := by
  obtain ⟨g, g', hg, hg', -⟩ := h.registry r r' hr
  obtain ⟨c, c', hc, hc', -⟩ := h.store r r' hr
  have htags : c.commonTags = c'.commonTags := by
    rw [(h.left.scope r g c hg hc).2, (h.right.scope r' g' c' hg' hc').2, h.settings]
  unfold Directory.gather MeterStore.gather
  rw [hg, hg']
  simp only
  rw [h.left.store r g hg, h.right.store r' g' hg', hc, hc']
  simp only
  refine congrArg SortedMap.values (List.rel_foldl (P := Eq) ?_ rfl (h.metersOf hr name))
  rintro families _ rfl m m' hm
  unfold Families.addMeter
  rw [hm.id, hm.kind, hm.metadata, h.exposed hm, htags]

theorem Twins.exportRegistry (h : Twins t ρ d d') (hr : ρ.rel .registry r r')
    (name : Option String) : d.exportRegistry r name = d'.exportRegistry r' name := by
  unfold Directory.exportRegistry
  rw [h.gather hr, h.settings]

theorem Twins.answerExport (h : Twins t ρ d d') {request : ExportRequest} (hat : request.At t) :
    d.answerExport request = d'.answerExport request := by
  have hcurrent := both_of_rel h.current
  cases request with
  | scope scope =>
    cases hat
    obtain ⟨hs, hs'⟩ | ⟨r, r', hs, hs', hr⟩ := hcurrent
    · simp only [Directory.answerExport, Directory.lookup?, hs, hs']
    · simp only [Directory.answerExport, Directory.lookup?, hs, hs', h.meterCount hr, h.gather hr]
  | metric scope name =>
    cases hat
    obtain ⟨hs, hs'⟩ | ⟨r, r', hs, hs', hr⟩ := hcurrent
    · simp only [Directory.answerExport, Directory.lookup?, hs, hs']
    · simp only [Directory.answerExport, Directory.lookup?, hs, hs', h.gather hr]
  | everything => cases hat
  | acrossScopes name => cases hat

theorem Twins.exportText (h : Twins t ρ d d') {request : ExportRequest} (hat : request.At t) :
    d.exportText request = d'.exportText request := by
  unfold Directory.exportText
  rw [h.answerExport hat, h.settings]

/-- A request to an endpoint for one scope. -/
theorem Twins.scrape (h : Twins t ρ d d') (e : ScrapeEndpoint) {request : ScrapeRequest}
    (hscope : request.param? "scope" = some t) : e.answer d request = e.answer d' request := by
  have hwanted : (ScrapeEndpoint.wanted (some t) (request.param? "name")).At t := by
    cases request.param? "name" <;> rfl
  unfold ScrapeEndpoint.answer ScrapeEndpoint.answerParams
  rw [hscope, h.settings, h.answerExport hwanted]
  simp only [Option.filter_some, h.scopeExists]

end Directory

end Telemetry
