import Telemetry.Proofs.History.Handles
import Telemetry.Proofs.Observation.Reports

/-!
# Registrations and updates commute

A registration or an update works at one place, the scope of the registry and the name of the metric
(`Action.Touches`). It leaves everything beside that place as it is (`Directory.Beside`), and what
becomes of the place follows from what was there. So actions at different places can be done in
either order.

* `observation_unordered`: directories with the same meters give the same answers, however they came
  about, and two registrations or updates at different places lead to the same meters in either
  order.

The numbers of meters and adapters do depend on the order. What is compared are therefore meters as
they are found in a scope under an id (`Directory.meterIn`).
-/

namespace Telemetry

namespace Directory

variable {d d' d'' : Directory} {r : RegistryRef} {g g' : Registry}
  {id mid : MetricId} {a : Adapter} {m : MeterRef} {meter : Meter} {scope name : String}
  {place : String × String} {metadata : Metadata}

/-! ## Places -/

/-- `d'` differs from `d` at most in what is under one name in one scope. -/
structure Beside (place : String × String) (d d' : Directory) : Prop extends SameLayout d d' where
  samples : d'.store.samples = d.store.samples
  names : ∀ r g g', d.registry? r = some g → d'.registry? r = some g' → ∀ n,
    (g.scope, n) ≠ place → g'.names.get? n = g.names.get? n
  metrics : ∀ r g g', d.registry? r = some g → d'.registry? r = some g' → ∀ id : MetricId,
    (g.scope, id.name) ≠ place → g'.metrics.get? id = g.metrics.get? id
  found : ∀ r g, d.registry? r = some g → ∀ mid : MetricId, (g.scope, mid.name) ≠ place →
    d'.store.find? r mid = d.store.find? r mid
  meter : ∀ r g, d.registry? r = some g → ∀ mid : MetricId, (g.scope, mid.name) ≠ place →
    ∀ m, d.store.find? r mid = some m → d'.store.meter? m = d.store.meter? m

namespace Beside

theorem refl (place : String × String) (d : Directory) : Beside place d d where
  toSameLayout := .refl d
  samples := rfl
  names := by
    intro r g g' hr hr' _ _
    rw [hr] at hr'
    cases hr'
    rfl
  metrics := by
    intro r g g' hr hr' _ _
    rw [hr] at hr'
    cases hr'
    rfl
  found := fun _ _ _ _ _ => rfl
  meter := fun _ _ _ _ _ _ _ => rfl

theorem trans (h : Beside place d d') (h' : Beside place d' d'') : Beside place d d'' where
  toSameLayout := h.toSameLayout.trans h'.toSameLayout
  samples := h'.samples.trans h.samples
  names := by
    intro r g g'' hr hr'' n hne
    obtain ⟨g', hr', hscope, -⟩ := h.registry' hr
    rw [h'.names r g' g'' hr' hr'' n (hscope ▸ hne), h.names r g g' hr hr' n hne]
  metrics := by
    intro r g g'' hr hr'' id hne
    obtain ⟨g', hr', hscope, -⟩ := h.registry' hr
    rw [h'.metrics r g' g'' hr' hr'' id (hscope ▸ hne), h.metrics r g g' hr hr' id hne]
  found := by
    intro r g hr mid hne
    obtain ⟨g', hr', hscope, -⟩ := h.registry' hr
    rw [h'.found r g' hr' mid (hscope ▸ hne), h.found r g hr mid hne]
  meter := by
    intro r g hr mid hne m hm
    obtain ⟨g', hr', hscope, -⟩ := h.registry' hr
    rw [h'.meter r g' hr' mid (hscope ▸ hne) m (by rw [h.found r g hr mid hne, hm]),
      h.meter r g hr mid hne m hm]

end Beside

/-! ## What is left beside a place -/

/-- A meter that is found in one registry's scope store is not found elsewhere. -/
theorem Linked.place_of_find? (h : d.Linked) {q : RegistryRef} (hq : d.registry? q = some g')
    (hr : d.registry? r = some g) (hm : d.store.find? q mid = some m)
    {mid' : MetricId} (hm' : d.store.find? r mid' = some m) : q = r ∧ mid = mid' := by
  obtain ⟨id, a, ha, rfl⟩ := h.meter_used q g' mid m hq hm
  obtain ⟨id', a', ha', rfl⟩ := h.meter_used r g mid' m hr hm'
  obtain ⟨k, meter, hb⟩ := h.backed q g' id a hq ha
  obtain ⟨k', meter', hb'⟩ := h.backed r g id' a' hr ha'
  have hk := hb.found
  rw [h.store q g' hq, hm] at hk
  cases hk
  have hk' := hb'.found
  rw [h.store r g hr, hm'] at hk'
  cases hk'
  obtain ⟨rfl, rfl⟩ := h.eq_of_meter hq hr ha ha' hb hb'
  rw [hq] at hr
  cases hr
  exact ⟨rfl, rfl⟩

/-- A meter that is found is not the one that is made next. -/
theorem Linked.ne_length_of_find? (h : d.Linked) (hm : d.store.find? r mid = some m) :
    m ≠ d.store.meters.length := by
  obtain ⟨a, hstores, hsole⟩ := h.stored_of_find? hm
  obtain ⟨-, k, meter, hsole', hpresent, -⟩ := h.sole hstores
  cases hsole.1.symm.trans hsole'.1
  exact Nat.ne_of_lt (List.getElem?_eq_some_iff.mp hpresent).1

theorem beside_describe (h : d.Linked) (hr : d.registry? r = some g) (metadata : Metadata)
    (kind : MetricKind) : Beside (g.scope, metadata.name) d (d.describe r metadata kind) where
  toSameLayout := sameLayout_describe d r metadata kind
  samples := by
    show (d.store.refreshMetadata r metadata).samples = _
    rw [MeterStore.refreshMetadata_eq]
  names := by
    intro q g₀ g' hq hq' n hne
    have hq₁ := (modify_of_registry _ hq).symm.trans hq'
    cases hq₁
    split
    · rename_i hqr
      rw [hqr, hr] at hq
      cases hq
      exact (SortedMap.get?_insert ..).trans (if_neg fun hn => hne (by rw [hn]))
    · rfl
  metrics := by
    intro q g₀ g' hq hq' id hne
    have hq₁ := (modify_of_registry _ hq).symm.trans hq'
    cases hq₁
    split <;> rfl
  found := fun q _ _ mid _ => find?_describe q mid
  meter := by
    classical
    intro q g₀ hq mid hne k hk
    refine (MeterStore.meter?_refreshMetadata d.store r metadata k).trans (if_neg ?_)
    rintro ⟨mid', hk', hname⟩
    obtain ⟨rfl, rfl⟩ := h.place_of_find? hq hr hk hk'
    rw [hr] at hq
    cases hq
    exact hne (by rw [hname])

theorem beside_enroll (h : d.Linked) (hr : d.registry? r = some g) (hname : id.name = name)
    (hmeter : meter.id.name = name) (form : AdapterForm) :
    Beside (g.scope, name) d (d.enroll r id form meter) where
  toSameLayout := sameLayout_enroll d r id form meter
  samples := rfl
  names := by
    intro q g₀ g' hq hq' n hne
    have hq₁ := (modify_of_registry _ hq).symm.trans hq'
    cases hq₁
    split <;> rfl
  metrics := by
    intro q g₀ g' hq hq' id' hne
    have hq₁ := (modify_of_registry _ hq).symm.trans hq'
    cases hq₁
    split
    · rename_i hqr
      rw [hqr, hr] at hq
      cases hq
      exact (SortedMap.get?_insert ..).trans (if_neg fun hid => hne (by rw [hid, hname]))
    · rfl
  found := by
    intro q g₀ hq mid hne
    obtain ⟨c, hc⟩ := h.exists_scope hr
    refine (MeterStore.find?_enter hc ..).trans (if_neg ?_)
    rintro ⟨rfl, rfl⟩
    rw [hr] at hq
    cases hq
    exact hne (by rw [hmeter])
  meter := by
    intro q g₀ hq mid hne k hk
    exact (MeterStore.meter?_enter ..).trans (if_neg (h.ne_length_of_find? hk))

theorem beside_request (h : d.Coherent) (hr : d.registry? r = some g) (metadata : Metadata)
    (tags : List Tag) (q : MetricRequest) :
    Beside (g.scope, metadata.name) d (d.request r metadata tags q).2 := by
  have heffective := effective_name h.toLinked hr metadata
  rw [request_eq h hr]
  cases hv : g.verdict d.settings metadata tags q with
  | refuse e => exact .refl _ _
  | reuse a => exact heffective ▸ beside_describe h.toLinked hr (g.effective metadata) q.kind
  | enroll id value =>
    obtain ⟨-, hid, hnew, hdrop, hkind, -⟩ := Registry.verdict_enroll hv
    have hidname : id.name = metadata.name := (Registry.metricId_ok hid).1
    have hdescribe :
        Beside (g.scope, metadata.name) d (d.describe r (g.effective metadata) q.kind) :=
      heffective ▸ beside_describe h.toLinked hr (g.effective metadata) q.kind
    have hlinked : (d.describe r (g.effective metadata) q.kind).Linked :=
      h.toLinked.describe hr hdrop (heffective ▸ hkind)
    obtain ⟨g', hr', hscope, -⟩ := hdescribe.registry' hr
    exact hdescribe.trans (hscope ▸ beside_enroll hlinked hr' hidname hidname q.form)

theorem beside_write {settings : RegistrySettings} {platform : PlatformReadings}
    {acts : List Action} (hr : registry? (reached settings platform acts) r = some g)
    (ha : Held settings platform acts r a) (u : Update) :
    Beside (g.scope, a.id.name) (reached settings platform acts)
      (reached settings platform (acts ++ [.write a u])) := by
  obtain ⟨-, m, meter, hsole, -, -⟩ := held_meter ha
  have h := coherent_reached settings platform acts
  rw [reached_snoc]
  show Beside _ _ { reached settings platform acts with
    store := a.write u (reached settings platform acts).store }
  rw [hsole.write]
  exact {
    toSameLayout := ⟨rfl, rfl, rfl, rfl, rfl, rfl, fun _ g h => ⟨g, h, rfl, rfl, rfl⟩,
      fun _ c h => ⟨c, h, rfl, rfl⟩⟩
    samples := rfl
    names := by
      intro q g₀ g' hq hq' _ _
      cases hq.symm.trans hq'
      rfl
    metrics := by
      intro q g₀ g' hq hq' _ _
      cases hq.symm.trans hq'
      rfl
    found := fun _ _ _ _ _ => rfl
    meter := by
      intro q g₀ hq mid hne k hk
      refine (MeterStore.meter?_modifyMeter ..).trans (if_neg ?_)
      rintro rfl
      -- The meter is that of the metric, so it was found at the place of the metric.
      obtain ⟨a', ha', hsole'⟩ := h.stored_of_find? hk
      obtain ⟨rfl, rfl⟩ := held_inj ha (held_of_stores ha') (.inr (hsole.1.trans hsole'.1.symm))
      rw [hr] at hq
      cases hq
      have hstored := (h.stored_id hr).mp ha'
      obtain ⟨k', meter', hb⟩ := h.backed r g a.id a hr hstored
      have hfound := hb.found
      cases hsole.1.symm.trans hb.captured
      rw [h.store r g hr] at hfound
      obtain ⟨-, rfl⟩ := h.place_of_find? hr hr hk hfound
      exact hne rfl }

/-! ## Meters, as they are found -/

/-- The number of the meter of an id in an existing scope. -/
def refIn (d : Directory) (scope : String) (mid : MetricId) : Option MeterRef :=
  ((d.lookup? scope).bind d.registry?).bind fun g => d.store.find? g.store mid

/-- The meter of an id in an existing scope. -/
def meterIn (d : Directory) (scope : String) (mid : MetricId) : Option Meter :=
  (d.refIn scope mid).bind d.store.meter?

theorem refIn_eq (hs : d.lookup? scope = some r) (hr : d.registry? r = some g) (mid : MetricId) :
    d.refIn scope mid = d.store.find? g.store mid := by
  unfold refIn
  rw [hs, Option.bind_some, hr, Option.bind_some]

theorem mem_reports_iff {v : MeterReport} :
    v ∈ d.reports scope ↔ ∃ mid meter, d.meterIn scope mid = some meter ∧
      meter.report d.store.samples = v := by
  unfold reports meterIn refIn
  cases (d.lookup? scope).bind d.registry? with
  | none => simp
  | some g =>
    simp only [Option.map_some, Option.getD_some, List.mem_map, MeterStore.mem_metersOf,
      Option.bind_some, Option.bind_eq_some_iff]
    constructor
    · rintro ⟨meter, ⟨mid, m, hm, hmeter, -⟩, hv⟩
      exact ⟨mid, meter, ⟨m, hm, hmeter⟩, hv⟩
    · rintro ⟨mid, meter, ⟨m, hm, hmeter⟩, hv⟩
      exact ⟨meter, ⟨mid, m, hm, hmeter, nofun⟩, hv⟩

/-- Directories with the same scopes in which the same meters are found. -/
theorem sameMeters_of_meterIn (hsettings : d.settings = d'.settings)
    (hsamples : d.store.samples = d'.store.samples) (hscopes : d.scopes = d'.scopes)
    (hmeters : ∀ scope mid, d.meterIn scope mid = d'.meterIn scope mid) : SameMeters d d' where
  settings := hsettings
  scopes := by
    intro scope
    unfold scopeExists
    rw [hscopes]
  meters := by
    intro scope v
    simp only [mem_reports_iff, hmeters, hsamples]

/-- **Beside the place the same meters are found.** -/
theorem Beside.meterIn_eq (hb : Beside place d d') (h : d.Coherent)
    (hne : (scope, mid.name) ≠ place) :
    d'.meterIn scope mid = d.meterIn scope mid := by
  have hlookup : d'.lookup? scope = d.lookup? scope := congrArg (·.get? scope) hb.scopes
  cases hs : d.lookup? scope with
  | none =>
    unfold meterIn refIn
    rw [hlookup, hs]
    rfl
  | some r =>
    obtain ⟨g, hr, rfl, -⟩ := (h.current scope r).mp hs
    obtain ⟨g', hr', -, hstore, -⟩ := hb.registry' hr
    have hfound := hb.found r g hr mid hne
    unfold meterIn
    rw [refIn_eq (hlookup.trans hs) hr', refIn_eq hs hr, hstore, h.store r g hr, hfound]
    cases hm : d.store.find? r mid with
    | none => rfl
    | some m => exact hb.meter r g hr mid hne m hm

/-! ## What becomes of a place -/

theorem meterIn_describe (h : d.Coherent) (hs : d.lookup? scope = some r)
    (hname : mid.name = metadata.name) (kind : MetricKind) :
    (d.describe r metadata kind).meterIn scope mid =
      (d.meterIn scope mid).map fun meter => { meter with metadata } := by
  classical
  obtain ⟨g, hr, -⟩ := (h.current scope r).mp hs
  obtain ⟨g', hr', -, hstore, -⟩ := (sameLayout_describe d r metadata kind).registry' hr
  have hs' : (d.describe r metadata kind).lookup? scope = some r := hs
  unfold meterIn
  rw [refIn_eq hs' hr', refIn_eq hs hr, hstore, find?_describe, h.store r g hr]
  cases hm : d.store.find? r mid with
  | none => rfl
  | some m =>
    exact (MeterStore.meter?_refreshMetadata d.store r metadata m).trans (if_pos ⟨mid, hm, hname⟩)

theorem meterIn_enroll (h : d.Linked) (hs : d.lookup? scope = some r) (hr : d.registry? r = some g)
    (form : AdapterForm) :
    (d.enroll r id form meter).meterIn scope mid =
      if mid = meter.id then some meter else d.meterIn scope mid := by
  obtain ⟨c, hc⟩ := h.exists_scope hr
  obtain ⟨g', hr', -, hstore, -⟩ := (sameLayout_enroll d r id form meter).registry' hr
  have hs' : (d.enroll r id form meter).lookup? scope = some r := hs
  unfold meterIn
  rw [refIn_eq hs' hr', refIn_eq hs hr, hstore, h.store r g hr]
  rw [show (d.enroll r id form meter).store.find? r mid = _ from MeterStore.find?_enter hc ..]
  by_cases hmid : mid = meter.id
  · rw [if_pos ⟨rfl, hmid⟩, if_pos hmid]
    exact (MeterStore.meter?_enter ..).trans (if_pos rfl)
  · rw [if_neg fun heq => hmid heq.2, if_neg hmid]
    cases hm : d.store.find? r mid with
    | none => rfl
    | some m => exact (MeterStore.meter?_enter ..).trans (if_neg (h.ne_length_of_find? hm))

theorem meterIn_write (hsole : a.Sole m) (u : Update) :
    (d.modifyStore (a.write u)).meterIn scope mid =
      (d.refIn scope mid).bind fun k =>
        if k = m then (d.store.meter? k).map (Meter.update u) else d.store.meter? k := by
  have href : (d.modifyStore (a.write u)).refIn scope mid = d.refIn scope mid := by
    show (Directory.refIn { d with store := a.write u d.store } scope mid) = _
    rw [hsole.write]
    rfl
  unfold meterIn
  rw [href]
  exact Option.bind_congr fun k _ => meter_write hsole u k

/-- The verdict on a request follows from the settings and from what is under the name. -/
theorem verdict_congr (hscope : g'.scope = g.scope) (hdrop : g'.dropped = g.dropped)
    (hnames : g'.names.get? metadata.name = g.names.get? metadata.name)
    (hmetrics : ∀ id : MetricId, id.name = metadata.name → g'.metrics.get? id = g.metrics.get? id)
    (settings : RegistrySettings) (tags : List Tag) (q : MetricRequest) :
    g'.verdict settings metadata tags q = g.verdict settings metadata tags q := by
  unfold Registry.verdict
  rw [Registry.metricId_congr hscope, hdrop, hscope, hnames]
  cases hid : g.metricId settings metadata.name tags with
  | error e => rfl
  | ok id =>
    simp only
    rw [hmetrics id (Registry.metricId_ok hid).1]

theorem effective_congr (hnames : g'.names.get? metadata.name = g.names.get? metadata.name) :
    g'.effective metadata = g.effective metadata := by
  unfold Registry.effective
  rw [hnames]

/-- **A registration does the same** to what is under its name when something beside it has
changed. -/
theorem Beside.meterIn_request (hb : Beside place d d') (h : d.Coherent) (h' : d'.Coherent)
    (hr : d.registry? r = some g) (hne : (g.scope, metadata.name) ≠ place) (tags : List Tag)
    (q : MetricRequest) (hname : mid.name = metadata.name) :
    (d'.request r metadata tags q).2.meterIn g.scope mid =
      (d.request r metadata tags q).2.meterIn g.scope mid := by
  obtain ⟨g', hr', hscope, hstore, hdrop⟩ := hb.registry' hr
  have hnames := hb.names r g g' hr hr' _ hne
  have hmetrics : ∀ id : MetricId, id.name = metadata.name →
      g'.metrics.get? id = g.metrics.get? id :=
    fun id hid => hb.metrics r g g' hr hr' id (hid ▸ hne)
  have hunchanged : d'.meterIn g.scope mid = d.meterIn g.scope mid :=
    hb.meterIn_eq h (hname ▸ hne)
  have hlookup : d'.lookup? g.scope = d.lookup? g.scope := congrArg (·.get? g.scope) hb.scopes
  have heffective : (g.effective metadata).name = metadata.name :=
    effective_name h.toLinked hr metadata
  rw [request_eq h hr, request_eq h' hr', hb.settings, verdict_congr hscope hdrop hnames hmetrics,
    effective_congr hnames]
  have hdescribe (hs : d.lookup? g.scope = some r) :
      (d'.describe r (g.effective metadata) q.kind).meterIn g.scope mid =
        (d.describe r (g.effective metadata) q.kind).meterIn g.scope mid := by
    rw [meterIn_describe h' (hlookup.trans hs) (hname.trans heffective.symm),
      meterIn_describe h hs (hname.trans heffective.symm), hunchanged]
  cases hv : g.verdict d.settings metadata tags q with
  | refuse e => exact hunchanged
  | reuse a =>
    obtain ⟨-, id, -, ha, -⟩ := Registry.verdict_reuse hv
    exact hdescribe ((h.current g.scope r).mpr ⟨g, hr, rfl, h.not_dropped hr ha⟩)
  | enroll id value =>
    obtain ⟨-, -, -, hcurrent, hkind, -⟩ := Registry.verdict_enroll hv
    have hs : d.lookup? g.scope = some r := (h.current g.scope r).mpr ⟨g, hr, rfl, hcurrent⟩
    have hlinked : (d.describe r (g.effective metadata) q.kind).Linked :=
      h.toLinked.describe hr hcurrent (heffective ▸ hkind)
    have hlinked' : (d'.describe r (g.effective metadata) q.kind).Linked :=
      h'.toLinked.describe hr' (hdrop.trans hcurrent) (heffective ▸ hnames ▸ hkind)
    have hr₁ : registry? (d.describe r (g.effective metadata) q.kind) r = some _ :=
      modify_of_registry _ hr
    have hr₁' : registry? (d'.describe r (g.effective metadata) q.kind) r = some _ :=
      modify_of_registry _ hr'
    show ((d'.describe r (g.effective metadata) q.kind).enroll r id q.form _).meterIn g.scope mid =
      ((d.describe r (g.effective metadata) q.kind).enroll r id q.form _).meterIn g.scope mid
    rw [meterIn_enroll hlinked' (hlookup.trans hs) hr₁',
      meterIn_enroll hlinked hs hr₁, hdescribe hs, Registry.meterId_congr hscope]

/-- **An update does the same** to what is under its name when something beside it has changed. -/
theorem Beside.meterIn_write (hb : Beside place d d') (h : d.Coherent)
    (hne : (scope, mid.name) ≠ place) (hsole : a.Sole m) (u : Update) :
    (d'.modifyStore (a.write u)).meterIn scope mid =
    (d.modifyStore (a.write u)).meterIn scope mid := by
  have hlookup : d'.lookup? scope = d.lookup? scope := congrArg (·.get? scope) hb.scopes
  rw [Directory.meterIn_write hsole, Directory.meterIn_write hsole]
  cases hs : d.lookup? scope with
  | none =>
    unfold refIn
    rw [hlookup, hs]
    rfl
  | some r =>
    obtain ⟨g, hr, rfl, -⟩ := (h.current scope r).mp hs
    obtain ⟨g', hr', -, hstore, -⟩ := hb.registry' hr
    rw [refIn_eq (hlookup.trans hs) hr', refIn_eq hs hr, hstore, h.store r g hr,
      hb.found r g hr mid hne]
    cases hk : d.store.find? r mid with
    | none => rfl
    | some k => simp only [Option.bind_some, hb.meter r g hr mid hne k hk]

/-! ## Actions at a place -/

/-- The action registers or updates a metric of the name, through the registry or of the registry,
whose scope it is. A registration may be refused, and an updated metric may be lost. -/
def Touches (settings : RegistrySettings) (platform : PlatformReadings) (acts : List Action)
    (act : Action) (scope name : String) : Prop :=
  match act with
  | .register r _ metadata _ =>
    ∃ g, registry? (reached settings platform acts) r = some g ∧ g.scope = scope ∧
      metadata.name = name
  | .write a _ =>
    ∃ r g, Held settings platform acts r a ∧ registry? (reached settings platform acts) r = some g ∧
      g.scope = scope ∧ a.id.name = name
  | _ => False

section Touches

variable {settings : RegistrySettings} {platform : PlatformReadings} {acts acts' : List Action}
  {act : Action} {mid : MetricId}

theorem Touches.append (h : Touches settings platform acts act scope name) (acts' : List Action) :
    Touches settings platform (acts ++ acts') act scope name := by
  have hkept {r : RegistryRef} {g : Registry}
      (hr : registry? (reached settings platform acts) r = some g) :
      ∃ g', registry? (reached settings platform (acts ++ acts')) r = some g' ∧
        g'.scope = g.scope := by
    rw [reached_append]
    obtain ⟨g', hr', hscope, -⟩ := (coherent_reached settings platform acts).registry_kept hr acts'
    exact ⟨g', hr', hscope⟩
  cases act with
  | register r q metadata tags =>
    obtain ⟨g, hr, hscope, hname⟩ := h
    obtain ⟨g', hr', hscope'⟩ := hkept hr
    exact ⟨g', hr', hscope'.trans hscope, hname⟩
  | write a u =>
    obtain ⟨r, g, ha, hr, hscope, hname⟩ := h
    obtain ⟨g', hr', hscope'⟩ := hkept hr
    exact ⟨r, g', ha.append acts', hr', hscope'.trans hscope, hname⟩
  | _ => exact h.elim

/-- **What an action touches**: all beside its place is left. -/
theorem Touches.beside (h : Touches settings platform acts act scope name) :
    Beside (scope, name) (reached settings platform acts)
      (reached settings platform (acts ++ [act])) := by
  cases act with
  | register r q metadata tags =>
    obtain ⟨g, hr, rfl, rfl⟩ := h
    rw [reached_snoc]
    exact beside_request (coherent_reached ..) hr metadata tags q
  | write a u =>
    obtain ⟨r, g, ha, hr, rfl, rfl⟩ := h
    exact beside_write hr ha u
  | _ => exact h.elim

/-- **What becomes of the place** of an action does not depend on what was changed beside it
before. -/
theorem Touches.meterIn_eq (h : Touches settings platform acts act scope name)
    (hb : Beside place (reached settings platform acts) (reached settings platform acts'))
    (hne : (scope, name) ≠ place) (hname : mid.name = name) :
    (reached settings platform (acts' ++ [act])).meterIn scope mid =
      (reached settings platform (acts ++ [act])).meterIn scope mid := by
  rw [reached_snoc, reached_snoc]
  cases act with
  | register r q metadata tags =>
    obtain ⟨g, hr, rfl, rfl⟩ := h
    exact hb.meterIn_request (coherent_reached ..) (coherent_reached ..) hr hne tags q hname
  | write a u =>
    obtain ⟨r, g, ha, hr, rfl, rfl⟩ := h
    obtain ⟨-, m, -, hsole, -, -⟩ := held_meter ha
    exact hb.meterIn_write (coherent_reached ..) (hname ▸ hne) hsole u
  | _ => exact h.elim

/-- **Actions at different places commute**, up to what can be told of the meters. -/
theorem Touches.commute {act' : Action} {scope' name' : String}
    (h : Touches settings platform acts act scope name)
    (h' : Touches settings platform acts act' scope' name')
    (hne : (scope, name) ≠ (scope', name')) :
    SameMeters (reached settings platform (acts ++ [act, act']))
      (reached settings platform (acts ++ [act', act])) := by
  have hb := h.beside
  have hb' := h'.beside
  have hafter := (h'.append [act]).beside
  have hafter' := (h.append [act']).beside
  rw [List.append_assoc] at hafter hafter'
  refine sameMeters_of_meterIn ?_ ?_ ?_ fun s mid => ?_
  · rw [settings_reached, settings_reached]
  · exact (hafter.samples.trans hb.samples).trans (hafter'.samples.trans hb'.samples).symm
  · exact (hafter.scopes.trans hb.scopes).trans (hafter'.scopes.trans hb'.scopes).symm
  have hlast (hs : (s, mid.name) ≠ (scope', name')) :=
    hafter.meterIn_eq (coherent_reached settings platform (acts ++ [act])) hs
  have hlast' (hs : (s, mid.name) ≠ (scope, name)) :=
    hafter'.meterIn_eq (coherent_reached settings platform (acts ++ [act'])) hs
  by_cases hplace : (s, mid.name) = (scope, name)
  · -- at the place of the first action: the other one leaves it, whether it is done before or after
    cases hplace
    have hsame := h.meterIn_eq hb' hne rfl
    rw [List.append_assoc] at hsame
    exact (hlast hne).trans hsame.symm
  by_cases hplace' : (s, mid.name) = (scope', name')
  · cases hplace'
    have hsame := h'.meterIn_eq hb hne.symm rfl
    rw [List.append_assoc] at hsame
    exact hsame.trans (hlast' hplace).symm
  · rw [List.singleton_append] at hlast hlast'
    rw [hlast hplace', hlast' hplace, hb.meterIn_eq (coherent_reached ..) hplace,
      hb'.meterIn_eq (coherent_reached ..) hplace']

end Touches

/-- **Observation does not depend on the order of construction**: with the same meters, however they
came about, all answers are the same, and registrations and updates at different places lead to the
same meters in either order. -/
theorem observation_unordered (settings : RegistrySettings) (platform : PlatformReadings)
    (acts : List Action) :
    (∀ settings' platform' acts',
      SameMeters (reached settings platform acts) (reached settings' platform' acts') →
        SameAnswers (reached settings platform acts) (reached settings' platform' acts')) ∧
    ∀ act act' scope name scope' name', Touches settings platform acts act scope name →
      Touches settings platform acts act' scope' name' → (scope, name) ≠ (scope', name') →
        SameMeters (reached settings platform (acts ++ [act, act']))
          (reached settings platform (acts ++ [act', act])) :=
  ⟨fun _ _ _ hsame => hsame.answers (coherent_reached ..) (coherent_reached ..),
    fun _ _ _ _ _ _ h h' hne => h.commute h' hne⟩

/-- A counter of one scope and a timer of another one, whose names are the same. -/
theorem observation_unordered_twoScopes :
    let before : List Action := [.openScope "s", .openScope "t"]
    let counter : Action := .register 0 .counter (.ofName "a") []
    let timer : Action := .register 1 .timer (.ofName "a") []
    let d := reached ⟨∅, none, {}, true⟩ default (before ++ [counter, timer])
    let d' := reached ⟨∅, none, {}, true⟩ default (before ++ [timer, counter])
    d ≠ d' ∧ SameMeters d d' ∧ SameAnswers d d' := by
  intro before counter timer d d'
  have hsame : SameMeters d d' :=
    (observation_unordered ⟨∅, none, {}, true⟩ default before).2 counter timer "s" "a" "t" "a"
      ⟨_, rfl, rfl, rfl⟩ ⟨_, rfl, rfl, rfl⟩ (by decide)
  exact ⟨by decide +kernel, hsame,
    (observation_unordered ⟨∅, none, {}, true⟩ default (before ++ [counter, timer])).1 _ _ _ hsame⟩

end Directory

end Telemetry
