import Telemetry.Directory.Members
import Telemetry.Proofs.Gate.Numbers
import Telemetry.Proofs.Registry

/-!
# Coherent directories

What holds between the parts of a directory after every operation. A registry and its scope store
have one number. Each metric that a registry stores is `Backed`: it captured a meter, which its
scope store has under the metric's id with the scope's tag, and the composite of that id shows this
meter and no other one. Conversely every meter of a scope store and every composite belongs to a
stored metric.

`Aligned` relates registries, scope stores and gates by number and scope, `Linked` what they hold; a
`Coherent` directory moreover knows no name that no metric has. Two registries that were not dropped
have different scopes (`Aligned.eq_of_scope`), so different metrics have meters of different ids
(`Linked.eq_of_meterId`).
-/

namespace Telemetry

namespace Directory

/-- Metric `a`, stored in `g` under `id`, stands for the meter with number `m`, at present
`meter`. -/
structure Backed (d : Directory) (g : Registry) (id : MetricId) (a : Adapter) (m : MeterRef)
    (meter : Meter) : Prop where
  stored : a.id = id
  normal : d.settings.Normal id
  captured : a.meter = some m
  found : d.store.find? g.store (g.meterId id) = some m
  present : d.store.meter? m = some meter
  meter_id : meter.id = g.meterId id
  meter_kind : meter.kind = a.kind
  composite : d.store.composites.get? (g.meterId id) = some a.composite
  composite_id : a.composite.id = g.meterId id
  composite_kind : a.composite.kind = a.kind
  live : a.composite.live = [m]
  name : g.names.get? id.name = some ⟨meter.metadata, a.kind⟩
  allowed : d.settings.Allows a.kind id.name
  serial : a.serial < d.adapters

/-- Registries, scope stores, gates and existing scopes correspond. -/
structure Aligned (d : Directory) : Prop where
  stores : d.store.scopes.length = d.registries.length
  store : ∀ r g, d.registry? r = some g → g.store = r
  scope : ∀ r g c, d.registry? r = some g → d.store.scope? r = some c →
    d.gates.gate? g.scope = some c.gate ∧ c.commonTags = d.settings.globalTags
  gates : d.gates.Numbered
  current : ∀ s r, d.scopes.get? s = some r ↔
    ∃ g, d.registry? r = some g ∧ g.scope = s ∧ g.dropped = false
  attached : ∀ n, n ∈ d.store.attached ↔ ∃ g, d.registry? n = some g ∧ g.dropped = false
  attached_nodup : d.store.attached.Nodup

/-- What registries and the store hold corresponds. -/
structure Linked (d : Directory) : Prop extends Aligned d where
  dropped : ∀ r g, d.registry? r = some g → g.dropped = true → g.metrics = ∅ ∧ g.names = ∅
  backed : ∀ r g id a, d.registry? r = some g → g.metrics.get? id = some a →
    ∃ m meter, d.Backed g id a m meter
  meter_used : ∀ r g mid m, d.registry? r = some g → d.store.find? r mid = some m →
    ∃ id a, g.metrics.get? id = some a ∧ mid = g.meterId id
  composite_used : ∀ mid c, d.store.composites.get? mid = some c →
    ∃ r g id a, d.registry? r = some g ∧ g.metrics.get? id = some a ∧ mid = g.meterId id
  name_key : ∀ r g n e, d.registry? r = some g → g.names.get? n = some e → e.metadata.name = n

/-- Every name that a registry knows is the name of one of its metrics. -/
def NamesUsed (d : Directory) : Prop :=
  ∀ r g n e, d.registry? r = some g → g.names.get? n = some e →
    ∃ id a, g.metrics.get? id = some a ∧ id.name = n

/-- The parts fit together, and no name outlives its metrics. -/
structure Coherent (d : Directory) : Prop extends Linked d where
  names_used : d.NamesUsed

theorem registry?_modifyRegistry (d : Directory) (r : RegistryRef) (f : Registry → Registry)
    (q : RegistryRef) :
    registry? (d.modifyRegistry r f) q =
      if q = r then (d.registry? q).map f else d.registry? q := by
  unfold modifyRegistry registry?
  rw [List.getElem?_modify]
  by_cases h : r = q
  · subst h
    simp
  · have hq : q ≠ r := fun e => h e.symm
    simp [h, hq]

namespace Aligned

variable {d : Directory} {r r' : RegistryRef} {g g' : Registry}

theorem exists_scope (h : d.Aligned) (hr : d.registry? r = some g) :
    ∃ c, d.store.scope? r = some c := by
  have hlt : r < d.registries.length := (List.getElem?_eq_some_iff.mp hr).1
  rw [← h.stores] at hlt
  exact ⟨_, List.getElem?_eq_getElem hlt⟩

/-- Existing scopes have one registry each. -/
theorem eq_of_scope (h : d.Aligned) (hr : d.registry? r = some g) (hr' : d.registry? r' = some g')
    (hg : g.dropped = false) (hg' : g'.dropped = false) (hs : g.scope = g'.scope) : r = r' := by
  have h1 := (h.current g.scope r).mpr ⟨g, hr, rfl, hg⟩
  have h2 := (h.current g.scope r').mpr ⟨g', hr', hs.symm, hg'⟩
  rw [h1] at h2
  exact Option.some.inj h2

/-- What the registry of an existing scope says of itself. -/
theorem of_lookup (h : d.Aligned) {scope : String} (hs : d.lookup? scope = some r)
    (hr : d.registry? r = some g) : g.scope = scope ∧ g.dropped = false := by
  obtain ⟨g', hr', hscope, hdrop⟩ := (h.current scope r).mp hs
  rw [hr] at hr'
  cases hr'
  exact ⟨hscope, hdrop⟩

/-- The gate of a scope store is that of its registry's scope. -/
theorem gate_scope (h : d.Aligned) {c : ScopeStore} (hr : d.registry? r = some g)
    (hc : d.store.scope? r = some c) : c.gate.scope = g.scope :=
  (VisibilityGate.gate?_eq_some_iff.mp (h.scope r g c hr hc).1).2.1

/-- The other scope stores take nothing under a grant of a scope's gate. -/
theorem denies (h : d.Aligned) {gate : ScopeGate} (hr : d.registry? r = some g)
    (hg : g.dropped = false) (hgate : d.gates.gate? g.scope = some gate)
    (hn : r' ∈ d.store.attached) (hne : r' ≠ r) : d.store.Denies ⟨gate⟩ r' := by
  intro c hc
  obtain ⟨g', hr', hg'⟩ := (h.attached r').mp hn
  refine Bool.eq_false_iff.mpr fun hsame => hne (h.eq_of_scope hr' hr hg' hg ?_)
  exact ((h.gates.same_iff hgate (h.scope r' g' c hr' hc).1).mp hsame).symm

theorem mem_attached (h : d.Aligned) (hr : d.registry? r = some g) (hg : g.dropped = false) :
    r ∈ d.store.attached :=
  (h.attached r).mpr ⟨g, hr, hg⟩

end Aligned

namespace Linked

variable {d : Directory} {r r' : RegistryRef} {g g' : Registry} {id id' : MetricId}
  {a a' : Adapter}

/-- Only a registry that was not dropped has metrics. -/
theorem not_dropped (h : d.Linked) (hr : d.registry? r = some g)
    (ha : g.metrics.get? id = some a) : g.dropped = false := by
  cases hd : g.dropped with
  | false => rfl
  | true =>
    rw [(h.dropped r g hr hd).1] at ha
    cases ha

/-- The meters of different metrics have different ids. -/
theorem eq_of_meterId (h : d.Linked) (hr : d.registry? r = some g) (hr' : d.registry? r' = some g')
    (hg : g.dropped = false) (hg' : g'.dropped = false) (hid : d.settings.Normal id)
    (hid' : d.settings.Normal id') (heq : g.meterId id = g'.meterId id') : r = r' ∧ id = id' := by
  have hscope : g.scope = g'.scope := by
    have := congrArg (fun q : MetricId => q.tags.get? scopeKey) heq
    simp only [Registry.scope_meterId] at this
    exact Option.some.inj this
  refine ⟨h.eq_of_scope hr hr' hg hg' hscope, ?_⟩
  rw [Registry.meterId_congr hscope.symm] at heq
  exact Registry.meterId_inj hid.unscoped hid'.unscoped heq

/-- Different metrics have different meters. -/
theorem eq_of_meter (h : d.Linked) (hr : d.registry? r = some g) (hr' : d.registry? r' = some g')
    (ha : g.metrics.get? id = some a) (ha' : g'.metrics.get? id' = some a') {m : MeterRef}
    {meter meter' : Meter} (hb : d.Backed g id a m meter) (hb' : d.Backed g' id' a' m meter') :
    r = r' ∧ id = id' := by
  have hmeter : meter = meter' := Option.some.inj (hb.present.symm.trans hb'.present)
  exact h.eq_of_meterId hr hr' (h.not_dropped hr ha) (h.not_dropped hr' ha') hb.normal hb'.normal
    (by rw [← hb.meter_id, hmeter, hb'.meter_id])

/-- A meter under the id of a metric is a meter of the metric's own scope store. -/
theorem eq_of_find? (h : d.Linked) (hr : d.registry? r = some g) (hr' : d.registry? r' = some g')
    (hg : g.dropped = false) (hid : d.settings.Normal id) {m : MeterRef}
    (hm : d.store.find? r' (g.meterId id) = some m) :
    r' = r ∧ ∃ a, g.metrics.get? id = some a := by
  obtain ⟨id', a', ha', heq⟩ := h.meter_used r' g' _ _ hr' hm
  obtain ⟨_, _, hb'⟩ := h.backed r' g' _ _ hr' ha'
  obtain ⟨rfl, rfl⟩ :=
    h.eq_of_meterId hr hr' hg (h.not_dropped hr' ha') hid hb'.normal heq
  rw [hr] at hr'
  cases hr'
  exact ⟨rfl, a', ha'⟩

theorem find?_none (h : d.Linked) (hr : d.registry? r = some g) (hg : g.dropped = false)
    (hid : d.settings.Normal id) (hnew : g.metrics.get? id = none) :
    d.store.find? r (g.meterId id) = none := by
  cases hm : d.store.find? r (g.meterId id) with
  | none => rfl
  | some m =>
    obtain ⟨-, a, ha⟩ := h.eq_of_find? hr hr hg hid hm
    rw [hnew] at ha
    cases ha

theorem composite_none (h : d.Linked) (hr : d.registry? r = some g) (hg : g.dropped = false)
    (hid : d.settings.Normal id) (hnew : g.metrics.get? id = none) :
    d.store.composites.get? (g.meterId id) = none := by
  cases hc : d.store.composites.get? (g.meterId id) with
  | none => rfl
  | some c =>
    obtain ⟨r', g', id', a', hr', ha', heq⟩ := h.composite_used _ c hc
    obtain ⟨_, _, hb'⟩ := h.backed r' g' _ _ hr' ha'
    obtain ⟨rfl, rfl⟩ :=
      h.eq_of_meterId hr hr' hg (h.not_dropped hr' ha') hid hb'.normal heq
    rw [hr] at hr'
    cases hr'
    rw [hnew] at ha'
    cases ha'

/-- The meters of a name are those of its metrics. -/
theorem named_iff (h : d.Linked) (hr : d.registry? r = some g) {name : String} {m : MeterRef} :
    d.store.Named r name m ↔
      ∃ id a, g.metrics.get? id = some a ∧ id.name = name ∧ a.meter = some m := by
  constructor
  · rintro ⟨mid, hm, hname⟩
    obtain ⟨id, a, ha, rfl⟩ := h.meter_used r g mid m hr hm
    obtain ⟨m', _, hb⟩ := h.backed r g id a hr ha
    have hfound := hb.found
    rw [h.store r g hr, hm] at hfound
    exact ⟨id, a, ha, hname, by rw [hb.captured, hfound]⟩
  · rintro ⟨id, a, ha, hname, hm⟩
    obtain ⟨m', _, hb⟩ := h.backed r g id a hr ha
    have hfound := hb.found
    rw [h.store r g hr] at hfound
    rw [hb.captured] at hm
    cases hm
    exact ⟨_, hfound, hname⟩

end Linked

end Directory

end Telemetry
