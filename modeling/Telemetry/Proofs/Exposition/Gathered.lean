import Telemetry.Proofs.Exposition.Exposures
import Telemetry.Proofs.History.Handles

/-!
# What a scope exports

The export of a scope goes through the meters of its registry's metrics in the order of their ids
(`Coherent.mem_metersOf`, `Coherent.metersOf_ascending`). What a metric exposes can be told from the
registry and the settings, and from what the metric's adapter reads (`Directory.exposures`): it is
what its meter exposes (`Coherent.exposures_eq`).

* `gather_eq`: the families of a scope are those that its `shown` exposures make.
* `named_reached`: every metric has a name, so that its families have one too
  (`Coherent.isExposedName_family`).
-/

namespace Telemetry

/-- What an adapter reads, as the samples that are exposed. -/
def Adapter.exposed (a : Adapter) (s : MeterStore) : SampleValue × Option SampleValue :=
  match a.kind with
  | .counter => (.counter (.ofNat _ (a.counterValue s).toNat), none)
  | .gauge => (.gauge (a.gaugeValue s), none)
  | .histogram | .timer =>
    let snapshot := a.snapshot s
    (if snapshot.buckets.isEmpty then .summary snapshot else .histogram snapshot,
      some (.gauge snapshot.max))

/-- An adapter reads what its meter exposes. -/
theorem Adapter.exposed_eq {a : Adapter} {s : MeterStore} {m : MeterRef} {meter : Meter}
    (ha : a.meter = some m) (hm : s.meter? m = some meter) (hk : meter.kind = a.kind) :
    a.exposed s = meter.exposed s.samples := by
  obtain ⟨id, metadata, value⟩ := meter
  unfold exposed Meter.exposed counterValue gaugeValue snapshot distribution? readable?
  rw [← hk, ha]
  simp only [hm]
  cases value <;> rfl

namespace Directory

variable {d : Directory} {r : RegistryRef} {g : Registry} {id : MetricId} {a : Adapter}
  {only : Option String} {meter : Meter} {m : MeterRef} {e : Exposure} {f : Family} {key : String}

/-- What a metric of a registry exposes, as its adapter reads it. -/
def exposures (d : Directory) (g : Registry) (a : Adapter) : List Exposure :=
  Exposure.all (g.meterId a.id) a.kind ((g.metadata? a.id.name).getD (.ofName a.id.name))
    (labelsOf d.settings.globalTags (g.meterId a.id).tags) (a.exposed d.store)

/-- The exposures that the export of a scope shows, of all metrics or of those of one name. -/
def shown (d : Directory) (g : Registry) (only : Option String) : List Exposure :=
  kept d.store.samples d.settings.globalTags (d.store.metersOf g.store only)

/-- **A metric exposes what its meter exposes.** -/
theorem Backed.exposures_eq (hb : d.Backed g id a m meter) :
    d.exposures g a = meter.exposures d.store.samples d.settings.globalTags := by
  have hname : g.metadata? a.id.name = some meter.metadata := by
    rw [hb.stored]
    exact congrArg (Option.map NameEntry.metadata) hb.name
  unfold exposures Meter.exposures
  rw [hname, hb.meter_id, hb.meter_kind, ← hb.stored,
    Adapter.exposed_eq hb.captured hb.present hb.meter_kind]
  rfl

/-! ## The meters of an export -/

theorem Coherent.mem_metersOf (h : d.Coherent) (hr : d.registry? r = some g) :
    meter ∈ d.store.metersOf g.store only ↔
      ∃ id a m, g.metrics.get? id = some a ∧ d.Backed g id a m meter ∧
        ∀ name ∈ only, id.name = name := by
  rw [MeterStore.mem_metersOf]
  constructor
  · rintro ⟨mid, m, hm, hpresent, honly⟩
    have hm' := hm
    rw [h.store r g hr] at hm'
    obtain ⟨id, a, ha, rfl⟩ := h.meter_used r g mid m hr hm'
    obtain ⟨m', meter', hb⟩ := h.backed r g id a hr ha
    have hfound := hb.found
    rw [hm] at hfound
    cases hfound
    have hpresent' := hb.present
    rw [hpresent] at hpresent'
    cases hpresent'
    exact ⟨id, a, m, ha, hb, honly⟩
  · rintro ⟨id, a, m, -, hb, honly⟩
    exact ⟨g.meterId id, m, hb.found, hb.present, honly⟩

/-- The meters of an export come in the order of their ids. -/
theorem Coherent.metersOf_ascending (h : d.Coherent) (hr : d.registry? r = some g)
    (only : Option String) :
    (d.store.metersOf g.store only).Pairwise fun a b => compare a.id b.id = .lt := by
  unfold MeterStore.metersOf
  cases hc : d.store.scope? g.store with
  | none => exact .nil
  | some c =>
    have hid : ∀ entry ∈ c.meters.entries, ∀ meter, d.store.meter? entry.2 = some meter →
        meter.id = entry.1 := by
      intro entry hentry meter hmeter
      have hm : d.store.find? g.store entry.1 = some entry.2 :=
        (MeterStore.find?_eq hc).trans (SortedMap.get?_eq_some_iff.mpr hentry)
      rw [h.store r g hr] at hm
      obtain ⟨id, a, ha, hmid⟩ := h.meter_used r g _ _ hr hm
      obtain ⟨m', meter', hb⟩ := h.backed r g id a hr ha
      have hfound := hb.found
      rw [h.store r g hr, ← hmid, hm] at hfound
      cases hfound
      have hpresent := hb.present
      rw [hmeter] at hpresent
      cases hpresent
      rw [hb.meter_id, hmid]
    refine List.pairwise_filterMap.mpr
      ((c.meters.ascending.filter _).imp_of_mem fun {x y} hx hy hxy b hb b' hb' => ?_)
    rw [hid x (List.mem_filter.mp hx).1 b hb, hid y (List.mem_filter.mp hy).1 b' hb']
    exact hxy

/-! ## The families of an export -/

/-- **The families of a scope are made from what it shows.** -/
theorem Coherent.gather_eq (h : d.Coherent) (hr : d.registry? r = some g) (only : Option String) :
    ∃ families : Families, families.Holds (d.shown g only) ∧ d.gather r only = families.values := by
  obtain ⟨c, hc⟩ := h.exists_scope hr
  refine ⟨_, Families.holds_foldl d.store.samples d.settings.globalTags _, ?_⟩
  unfold gather MeterStore.gather
  rw [hr]
  simp only
  rw [h.store r g hr, hc, ← (h.scope r g c hr hc).2]

theorem Coherent.mem_gather (h : d.Coherent) (hr : d.registry? r = some g) :
    f ∈ d.gather r only ↔ Exposure.family? f.name (d.shown g only) = some f := by
  obtain ⟨families, hholds, heq⟩ := h.gather_eq hr only
  rw [heq, hholds.mem_values]

theorem Coherent.gather_ascending (h : d.Coherent) (hr : d.registry? r = some g)
    (only : Option String) : (d.gather r only).Pairwise fun f f' => f.name < f'.name := by
  obtain ⟨families, hholds, heq⟩ := h.gather_eq hr only
  rw [heq]
  exact hholds.names_ascending

/-- A name has one family in an export, if what is shown makes one. -/
theorem Coherent.filter_gather (h : d.Coherent) (hr : d.registry? r = some g) (only : Option String)
    (key : String) :
    (d.gather r only).filter (fun f => f.name = key) =
      (Exposure.family? key (d.shown g only)).toList := by
  have htoList : ∀ o : Option Family, o.toList.Pairwise fun f f' => f.name < f'.name := by
    intro o
    cases o with
    | none => exact .nil
    | some f => exact List.pairwise_singleton _ f
  refine ((h.gather_ascending hr only).filter _).eq_of_mem_iff (htoList _) fun f => ?_
  rw [List.mem_filter, decide_eq_true_eq, h.mem_gather hr, Option.mem_toList]
  constructor
  · rintro ⟨hf, rfl⟩
    exact hf
  · intro hf
    obtain rfl := (Exposure.family?_eq_some hf).1
    exact ⟨hf, rfl⟩

theorem apart_shown (d : Directory) (g : Registry) (only : Option String) :
    Exposure.Apart (d.shown g only) :=
  apart_kept ..

/-- What is shown is exposed by a metric. -/
theorem Coherent.exists_of_mem_shown (h : d.Coherent) (hr : d.registry? r = some g)
    (he : e ∈ d.shown g only) :
    ∃ a, g.metrics.get? a.id = some a ∧ (∀ name ∈ only, a.id.name = name) ∧
      e ∈ d.exposures g a := by
  obtain ⟨meter, hmeter, he⟩ := exists_of_mem_kept he
  obtain ⟨id, a, m, ha, hb, honly⟩ := (h.mem_metersOf hr).mp hmeter
  rw [← hb.exposures_eq] at he
  rw [← hb.stored] at ha honly
  exact ⟨a, ha, honly, he⟩

/-! ## Names -/

/-- Every metric has a name. -/
def Named (d : Directory) : Prop := ∀ r a, d.Stores r a → a.id.name ≠ ""

theorem named_reached (settings : RegistrySettings) (platform : PlatformReadings)
    (acts : List Action) : (reached settings platform acts).Named := by
  intro r a ha
  have hheld := held_of_stores ha
  clear ha
  induction acts using List.reverseRecOn with
  | nil => exact absurd hheld not_held_nil
  | append_singleton acts act ih =>
    obtain hold | ⟨g, req, metadata, tags, id, value, -, -, hv, rfl⟩ := held_snoc hheld
    · exact ih hold
    · obtain ⟨hname, hid, -⟩ := Registry.verdict_enroll hv
      show id.name ≠ ""
      rwa [(Registry.metricId_ok hid).1]

/-- Families of metrics with names have valid names. -/
theorem Coherent.isExposedName_family (h : d.Coherent) (hn : d.Named) (hr : d.registry? r = some g)
    (he : e ∈ d.shown g only) : isExposedName e.family = true := by
  obtain ⟨a, ha, -, he⟩ := h.exists_of_mem_shown hr he
  have hname := isExposedName_expositionName (hn r a ⟨g, _, hr, ha⟩) a.kind
    ((g.metadata? a.id.name).getD (.ofName a.id.name)).unit
  obtain heq | heq := Exposure.family_of_mem_all he
  · rw [heq]
    exact hname
  · rw [heq]
    exact isExposedName_append hname (List.all_eq_true.mp (by decide))

end Directory

end Telemetry
