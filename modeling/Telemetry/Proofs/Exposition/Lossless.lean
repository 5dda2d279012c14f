import Telemetry.Proofs.Exposition.Gathered
import Telemetry.Proofs.Exposition.Merging

/-!
# What the export of a scope leaves out

Every sample of a scope's export is an exposure of one metric, with the labels of its meter and the
value that its adapter reads, and of the exposures none is lost without a clash: a main one is left
out just when a metric whose meter has a smaller id shows one that clashes with it, and a greatest
value just when the main one beside it is left out or it clashes so itself (`Directory.Lossless`).

* `lossless`: this holds of every existing scope after every history. Where no exposures clash, all
  of them are shown, and the export is what the exports of the names merge to.
-/

namespace Telemetry

namespace Directory

variable {d : Directory} {r : RegistryRef} {g : Registry} {a a' : Adapter} {e e' : Exposure}
  {name : String} {settings : RegistrySettings} {platform : PlatformReadings} {acts : List Action}

/-- The sample of a family is the exposure of a metric, which is shown. -/
structure ShownBy (d : Directory) (g : Registry) (shown : List Exposure) (f : Family) (s : Sample)
    (a : Adapter) (e : Exposure) : Prop where
  metric : g.metrics.get? a.id = some a
  exposed : e ∈ d.exposures g a
  shown : e ∈ shown
  family : e.family = f.name
  sample : e.sample = s

/-- No two exposures of a registry's metrics clash. -/
def Clashless (d : Directory) (g : Registry) : Prop :=
  ∀ a a', g.metrics.get? a.id = some a → g.metrics.get? a'.id = some a' →
    ∀ e ∈ d.exposures g a, ∀ e' ∈ d.exposures g a', e ≠ e' → ¬ e.Clash e'

/-- These are the exposures in the export of a registry's scope, and what is left out clashes. -/
structure Lossless (d : Directory) (r : RegistryRef) (g : Registry) (shown : List Exposure) :
    Prop where
  /-- Every sample is one exposure of one metric. -/
  sound : ∀ f ∈ d.gather r none, ∀ s ∈ f.samples,
    ∃! p : Adapter × Exposure, d.ShownBy g shown f s p.1 p.2
  /-- Everything that is shown is a sample, once. -/
  complete : ∀ e ∈ shown, ∃ f ∈ d.gather r none, f.name = e.family ∧ f.samples.count e.sample = 1
  /-- Every metric has a main exposure, and perhaps a greatest value beside it. They are left out
  just for a clash, the greatest value together with the main exposure. -/
  left_out : ∀ a, g.metrics.get? a.id = some a → ∃ main rest, d.exposures g a = main :: rest ∧
    main.part = .main ∧ (main ∉ shown ↔ main.Outranked shown) ∧
    ∀ e ∈ rest, e.part = .greatest ∧ (e ∉ shown ↔ main ∉ shown ∨ e.Outranked shown)
  /-- Where nothing clashes, everything is shown, -/
  everything : d.Clashless g → ∀ a, g.metrics.get? a.id = some a → ∀ e ∈ d.exposures g a, e ∈ shown
  /-- and the export is what the exports of the names merge to. -/
  merged : d.Clashless g →
    d.gather r none = mergeFamilies (g.metricNames.map fun name => d.gather r (some name))

/-! ## Metrics and names -/

theorem mem_metricNames :
    name ∈ g.metricNames ↔ ∃ id a, g.metrics.get? id = some a ∧ id.name = name := by
  unfold Registry.metricNames
  rw [SortedMap.mem_keys_ofList]
  simp only [List.mem_map, Prod.mk.injEq, SortedMap.mem_keys]
  constructor
  · rintro ⟨-, id, ⟨a, ha⟩, hname, -⟩
    exact ⟨id, a, ha, hname⟩
  · rintro ⟨id, a, ha, hname⟩
    exact ⟨(), id, ⟨a, ha⟩, hname, trivial⟩

theorem MetricId.lt_of_name {id id' : MetricId} (h : compare id.name id'.name = .lt) :
    compare id id' = .lt := by
  show (compare id.name id'.name).then (compare id.tags id'.tags) = .lt
  rw [h]
  rfl

/-- A metric is known by an exposure of it. -/
theorem Coherent.eq_of_exposure (h : d.Coherent) (hr : d.registry? r = some g)
    (ha : g.metrics.get? a.id = some a) (ha' : g.metrics.get? a'.id = some a')
    (he : e ∈ d.exposures g a) (he' : e ∈ d.exposures g a') : a = a' := by
  obtain ⟨_, _, hb⟩ := h.backed r g _ _ hr ha
  obtain ⟨_, _, hb'⟩ := h.backed r g _ _ hr ha'
  have hmid : g.meterId a.id = g.meterId a'.id :=
    (Exposure.id_of_mem_all he).symm.trans (Exposure.id_of_mem_all he')
  rw [Registry.meterId_inj hb.normal.unscoped hb'.normal.unscoped hmid, ha'] at ha
  exact (Option.some.inj ha).symm

theorem Coherent.exists_meter (h : d.Coherent) (hr : d.registry? r = some g)
    (ha : g.metrics.get? a.id = some a) :
    ∃ meter ∈ d.store.metersOf g.store none, meter.id = g.meterId a.id ∧
      d.exposures g a = meter.exposures d.store.samples d.settings.globalTags := by
  obtain ⟨m, meter, hb⟩ := h.backed r g _ a hr ha
  exact ⟨meter, (h.mem_metersOf hr).mpr ⟨_, a, m, ha, hb, nofun⟩, hb.meter_id, hb.exposures_eq⟩

instance : Std.Irrefl fun (m m' : Meter) => compare m.id m'.id = .lt := ⟨fun m => by simp⟩

instance : Std.Antisymm fun (m m' : Meter) => compare m.id m'.id = .lt :=
  ⟨fun _ _ h h' => absurd h' (Std.OrientedCmp.not_lt_of_lt h)⟩

/-- The meters of a scope are those of one name after the other. -/
theorem Coherent.metersOf_none (h : d.Coherent) (hr : d.registry? r = some g) :
    d.store.metersOf g.store none =
      g.metricNames.flatMap fun name => d.store.metersOf g.store (some name) := by
  refine (h.metersOf_ascending hr none).eq_of_mem_iff (List.pairwise_flatMap.mpr ⟨?_, ?_⟩) ?_
  · exact fun name _ => h.metersOf_ascending hr (some name)
  · have hnames : g.metricNames.Pairwise fun a b => compare a b = .lt :=
      List.pairwise_map.mpr (SortedMap.ascending _)
    have hname : ∀ {name meter}, meter ∈ d.store.metersOf g.store (some name) →
        meter.id.name = name := by
      intro name meter hmeter
      obtain ⟨id, a, m, -, hb, honly⟩ := (h.mem_metersOf hr).mp hmeter
      rw [hb.meter_id]
      exact honly name rfl
    refine hnames.imp fun hlt x hx y hy => MetricId.lt_of_name ?_
    rwa [hname hx, hname hy]
  · intro meter
    simp only [List.mem_flatMap, mem_metricNames, h.mem_metersOf hr]
    constructor
    · rintro ⟨id, a, m, ha, hb, -⟩
      exact ⟨id.name, ⟨id, a, ha, rfl⟩, id, a, m, ha, hb, fun name hname => Option.some.inj hname⟩
    · rintro ⟨name, -, id, a, m, ha, hb, -⟩
      exact ⟨id, a, m, ha, hb, nofun⟩

/-! ## What is shown -/

/-- **Every sample is one exposure of one metric.** -/
theorem Coherent.existsUnique_shownBy (h : d.Coherent) (hr : d.registry? r = some g) {f : Family}
    (hf : f ∈ d.gather r none) {s : Sample} (hs : s ∈ f.samples) :
    ∃! p : Adapter × Exposure, d.ShownBy g (d.shown g none) f s p.1 p.2 := by
  obtain ⟨-, hsamples, -⟩ := Exposure.family?_eq_some ((h.mem_gather hr).mp hf)
  rw [hsamples] at hs
  obtain ⟨e, he, rfl⟩ := List.mem_map.mp hs
  obtain ⟨he, hfamily⟩ := List.mem_filter.mp he
  have hfamily : e.family = f.name := of_decide_eq_true hfamily
  obtain ⟨a, ha, -, hexposed⟩ := h.exists_of_mem_shown hr he
  refine ⟨(a, e), ⟨ha, hexposed, he, hfamily, rfl⟩, ?_⟩
  rintro ⟨a', e'⟩ ⟨ha', hexposed', he', hfamily', hsample⟩
  obtain rfl : e' = e := (apart_shown d g none).eq_of_clash he' he
    ⟨hfamily'.trans hfamily.symm, .inr (congrArg Sample.labels hsample)⟩
  obtain rfl := h.eq_of_exposure hr ha ha' hexposed hexposed'
  rfl

/-- **Everything that is shown is a sample**, once. -/
theorem Coherent.count_shown (h : d.Coherent) (hr : d.registry? r = some g)
    (he : e ∈ d.shown g none) :
    ∃ f ∈ d.gather r none, f.name = e.family ∧ f.samples.count e.sample = 1 := by
  obtain ⟨f, hf⟩ := Exposure.exists_family? he
  obtain ⟨hname, hsamples, -⟩ := Exposure.family?_eq_some hf
  refine ⟨f, (h.mem_gather hr).mpr (hname.symm ▸ hf), hname, ?_⟩
  rw [hsamples]
  refine List.count_eq_one_of_mem ?_ (List.mem_map_of_mem (List.mem_filter.mpr ⟨he, by simp⟩))
  refine List.pairwise_map.mpr (List.Pairwise.imp_of_mem ?_ ((apart_shown d g none).filter _))
  intro e₁ e₂ h₁ h₂ hapart heq
  have hfamily₁ : e₁.family = e.family := of_decide_eq_true (List.mem_filter.mp h₁).2
  have hfamily₂ : e₂.family = e.family := of_decide_eq_true (List.mem_filter.mp h₂).2
  exact hapart ⟨hfamily₁.trans hfamily₂.symm, .inr (congrArg Sample.labels heq)⟩

/-- **Only what clashes is left out.** -/
theorem Coherent.left_out (h : d.Coherent) (hr : d.registry? r = some g)
    (ha : g.metrics.get? a.id = some a) :
    ∃ main rest, d.exposures g a = main :: rest ∧ main.part = .main ∧
      (main ∉ d.shown g none ↔ main.Outranked (d.shown g none)) ∧
      ∀ e ∈ rest, e.part = .greatest ∧
        (e ∉ d.shown g none ↔ main ∉ d.shown g none ∨ e.Outranked (d.shown g none)) := by
  obtain ⟨meter, hmeter, -, hexposures⟩ := h.exists_meter hr ha
  obtain ⟨main, greatest, hall, hmain, hgreatest⟩ := Exposure.exists_all meter.id meter.kind
    meter.metadata (labelsOf d.settings.globalTags meter.id.tags) (meter.exposed d.store.samples)
  obtain ⟨hmainShown, hgreatestShown⟩ := mem_kept_iff (h.metersOf_ascending hr none) hmeter hall
  have hmainShown : main ∉ d.shown g none ↔ main.Outranked (d.shown g none) :=
    not_iff_comm.mp hmainShown.symm
  refine ⟨main, greatest.toList, hexposures.trans hall, hmain, hmainShown, fun e he => ?_⟩
  have he := Option.mem_toList.mp he
  have hne : e ≠ main := by
    rintro rfl
    exact nomatch hmain.symm.trans (hgreatest e he)
  have heShown : e ∈ d.shown g none ↔
      ¬ main.Outranked (d.shown g none) ∧ ¬ e.Outranked (d.shown g none) :=
    hgreatestShown e he hne
  refine ⟨hgreatest e he, ?_⟩
  rw [heShown, hmainShown, not_and_or, not_not, not_not]

/-! ## Where nothing clashes -/

/-- Where nothing clashes, every export shows all exposures of its meters. -/
theorem Coherent.shown_eq (h : d.Coherent) (hr : d.registry? r = some g) (hc : d.Clashless g)
    (only : Option String) :
    d.shown g only = (d.store.metersOf g.store only).flatMap fun meter =>
      meter.exposures d.store.samples d.settings.globalTags := by
  refine kept_eq_flatMap (List.Nodup.pairwise_of_forall_ne ?_ ?_)
  · refine List.nodup_flatMap.mpr ⟨fun meter _ => Exposure.nodup_all .., ?_⟩
    refine (h.metersOf_ascending hr only).imp fun {meter meter'} hlt e he he' => ?_
    rw [← Exposure.id_of_mem_all he, ← Exposure.id_of_mem_all he'] at hlt
    simp at hlt
  · intro e he e' he' hne
    obtain ⟨meter, hmeter, he⟩ := List.mem_flatMap.mp he
    obtain ⟨meter', hmeter', he'⟩ := List.mem_flatMap.mp he'
    obtain ⟨id, a, m, ha, hb, -⟩ := (h.mem_metersOf hr).mp hmeter
    obtain ⟨id', a', m', ha', hb', -⟩ := (h.mem_metersOf hr).mp hmeter'
    rw [← hb.exposures_eq] at he
    rw [← hb'.exposures_eq] at he'
    exact hc a a' (hb.stored ▸ ha) (hb'.stored ▸ ha') e he e' he' hne

theorem Coherent.mem_shown (h : d.Coherent) (hr : d.registry? r = some g) (hc : d.Clashless g)
    (ha : g.metrics.get? a.id = some a) (he : e ∈ d.exposures g a) : e ∈ d.shown g none := by
  obtain ⟨meter, hmeter, -, heq⟩ := h.exists_meter hr ha
  rw [h.shown_eq hr hc]
  exact List.mem_flatMap.mpr ⟨meter, hmeter, heq ▸ he⟩

/-- **Where nothing clashes, the export is what the exports of the names merge to.** -/
theorem Coherent.gather_eq_merge (h : d.Coherent) (hr : d.registry? r = some g)
    (hc : d.Clashless g) :
    d.gather r none = mergeFamilies (g.metricNames.map fun name => d.gather r (some name)) := by
  have hshown : d.shown g none = (g.metricNames.map fun name => d.shown g (some name)).flatten := by
    simp only [h.shown_eq hr hc, h.metersOf_none hr, List.flatMap_assoc, ← List.flatMap_def]
  refine (h.gather_ascending hr none).eq_of_mem_iff (mergeFamilies_ascending _) fun f => ?_
  have hparts : ((g.metricNames.map fun name => d.gather r (some name)).flatten.filter
      fun f' => f'.name = f.name) =
        (g.metricNames.map fun name => d.shown g (some name)).flatMap fun es =>
          (Exposure.family? f.name es).toList := by
    rw [← List.flatMap_def, List.filter_flatMap, List.flatMap_map]
    simp only [h.filter_gather hr]
  rw [h.mem_gather hr, mem_mergeFamilies, hparts, Exposure.join_family? ?_, hshown]
  rw [← hshown]
  exact apart_shown d g none

/-- **No series is lost without a clash**, of an existing scope after any history. -/
theorem lossless (settings : RegistrySettings) (platform : PlatformReadings) (acts : List Action)
    (scope : String) (r : RegistryRef)
    (hs : (reached settings platform acts).lookup? scope = some r) :
    ∃ g, registry? (reached settings platform acts) r = some g ∧ g.scope = scope ∧
      Lossless (reached settings platform acts) r g
        (shown (reached settings platform acts) g none) := by
  have h := coherent_reached settings platform acts
  obtain ⟨g, hr, hscope, -⟩ := (h.current scope r).mp hs
  exact ⟨g, hr, hscope, {
    sound := fun f hf s hs => h.existsUnique_shownBy hr hf hs
    complete := fun e he => h.count_shown hr he
    left_out := fun a ha => h.left_out hr ha
    everything := fun hc a ha e he => h.mem_shown hr hc ha he
    merged := fun hc => h.gather_eq_merge hr hc }⟩

/-- A counter and a gauge that are for one family, and a histogram. -/
def clashing : List Action :=
  [.openScope "s", .register 0 (.gauge (.cell 0)) (.ofName "a_total") [],
    .register 0 .counter (.ofName "a") [], .register 0 .histogram (.ofName "h") []]

/-- The counter comes first, and the gauge is left out. -/
theorem lossless_clashing :
    let d := reached ⟨∅, none, {}, true⟩ default clashing
    d.lookup? "s" = some 0 ∧
      (∃ g, d.registry? 0 = some g ∧ g.scope = "s" ∧ Lossless d 0 g (d.shown g none)) ∧
      (d.gather 0 none).map (fun f => (f.name, f.kind, f.samples.length)) =
        [("a_total", .counter, 1), ("h", .summary, 1), ("h_max", .gauge, 1)] := by
  intro d
  have hs : d.lookup? "s" = some 0 := by decide +kernel
  exact ⟨hs, lossless ⟨∅, none, {}, true⟩ default clashing "s" 0 hs, by decide +kernel⟩

end Directory

end Telemetry
