import Telemetry.Proofs.Directory.Coherent

/-!
# What operations do inside a scope

What operations do inside a scope comes down to a few effects: a name is described anew
(`describe`), a metric comes in (`enroll`) or goes out (`discard`), and meters are written to
(`Rewritten`). Each keeps the directory's layout (`SameLayout`), that is which registries and scope
stores there are and for which scopes, and keeps its parts linked.
-/

namespace Telemetry

namespace Directory

/-- The metadata and the kind of a name set in a registry, and its meters told. -/
def describe (d : Directory) (r : RegistryRef) (metadata : Metadata) (kind : MetricKind) :
    Directory :=
  { d.modifyRegistry r fun g =>
      { g with names := g.names.insert metadata.name ⟨metadata, kind⟩ } with
    store := d.store.refreshMetadata r metadata }

/-- The adapter of the metric that comes in next. -/
def nextAdapter (d : Directory) (r : RegistryRef) (id : MetricId) (form : AdapterForm)
    (meterId : MetricId) : Adapter :=
  ⟨d.adapters, id, form, d.store.nextComposite r meterId form.kind, some d.store.meters.length⟩

/-- A metric in a registry, with its meter in the registry's scope store. -/
def enroll (d : Directory) (r : RegistryRef) (id : MetricId) (form : AdapterForm) (meter : Meter) :
    Directory :=
  { d.modifyRegistry r fun g =>
      { g with metrics := g.metrics.insert id (d.nextAdapter r id form meter.id) } with
    store := d.store.enter r form.kind meter
    adapters := d.adapters + 1 }

/-- A metric out of a registry, with its meter, and its name when no other metric has it. -/
def discard (d : Directory) (r : RegistryRef) (id meterId : MetricId) : Directory :=
  { d.modifyRegistry r fun g => { g with metrics := g.metrics.erase id }.forgetUnused id.name with
    store := d.store.leave r meterId }

/-! ## Layout -/

/-- The same registries and scope stores, up to what they hold. -/
structure SameLayout (d d' : Directory) : Prop where
  settings : d'.settings = d.settings
  gates : d'.gates = d.gates
  scopes : d'.scopes = d.scopes
  attached : d'.store.attached = d.store.attached
  stores : d'.store.scopes.length = d.store.scopes.length
  registries : d'.registries.length = d.registries.length
  registry : ∀ q g', d'.registry? q = some g' →
    ∃ g, d.registry? q = some g ∧ g'.scope = g.scope ∧ g'.store = g.store ∧ g'.dropped = g.dropped
  scope : ∀ n c', d'.store.scope? n = some c' →
    ∃ c, d.store.scope? n = some c ∧ c'.gate = c.gate ∧ c'.commonTags = c.commonTags

variable {d d' : Directory} {r q : RegistryRef} {g g' : Registry} {id : MetricId}

/-- A registry of the changed directory, by what it was. -/
theorem registry_of_modify {f : Registry → Registry}
    (h : registry? (d.modifyRegistry r f) q = some g') :
    ∃ g, d.registry? q = some g ∧ (q = r ∧ g' = f g ∨ q ≠ r ∧ g' = g) := by
  rw [registry?_modifyRegistry] at h
  split at h
  · rename_i hq
    obtain ⟨g, hg, rfl⟩ := Option.map_eq_some_iff.mp h
    exact ⟨g, hg, .inl ⟨hq, rfl⟩⟩
  · rename_i hq
    exact ⟨g', h, .inr ⟨hq, rfl⟩⟩

/-- What a registry becomes. -/
theorem modify_of_registry (f : Registry → Registry) (h : d.registry? q = some g) :
    registry? (d.modifyRegistry r f) q = some (if q = r then f g else g) := by
  rw [registry?_modifyRegistry, h]
  split <;> rfl

namespace SameLayout

theorem refl (d : Directory) : SameLayout d d :=
  ⟨rfl, rfl, rfl, rfl, rfl, rfl, fun _ g h => ⟨g, h, rfl, rfl, rfl⟩, fun _ c h => ⟨c, h, rfl, rfl⟩⟩

theorem trans {d'' : Directory} (h : SameLayout d d') (h' : SameLayout d' d'') :
    SameLayout d d'' where
  settings := h'.settings.trans h.settings
  gates := h'.gates.trans h.gates
  scopes := h'.scopes.trans h.scopes
  attached := h'.attached.trans h.attached
  stores := h'.stores.trans h.stores
  registries := h'.registries.trans h.registries
  registry := by
    intro q g'' hq
    obtain ⟨g', hq', hscope', hstore', hdrop'⟩ := h'.registry q g'' hq
    obtain ⟨g, hq, hscope, hstore, hdrop⟩ := h.registry q g' hq'
    exact ⟨g, hq, hscope'.trans hscope, hstore'.trans hstore, hdrop'.trans hdrop⟩
  scope := by
    intro n c'' hc
    obtain ⟨c', hc', hgate', htags'⟩ := h'.scope n c'' hc
    obtain ⟨c, hc, hgate, htags⟩ := h.scope n c' hc'
    exact ⟨c, hc, hgate'.trans hgate, htags'.trans htags⟩

theorem registry' (hs : SameLayout d d') (h : d.registry? q = some g) :
    ∃ g', d'.registry? q = some g' ∧ g'.scope = g.scope ∧ g'.store = g.store ∧
      g'.dropped = g.dropped := by
  have hlt : q < d.registries.length := (List.getElem?_eq_some_iff.mp h).1
  rw [← hs.registries] at hlt
  have hq : d'.registry? q = some d'.registries[q] := List.getElem?_eq_getElem hlt
  obtain ⟨g₀, h₀, heq⟩ := hs.registry q _ hq
  rw [h] at h₀
  cases h₀
  exact ⟨_, hq, heq⟩

/-- Changing what registries hold and which meters the scope stores have keeps the layout. -/
theorem of_modify {f : Registry → Registry} {store : MeterStore} (adapters : Nat)
    (hf : ∀ g, (f g).scope = g.scope ∧ (f g).store = g.store ∧ (f g).dropped = g.dropped)
    (hattached : store.attached = d.store.attached)
    (hstores : store.scopes.length = d.store.scopes.length)
    (hscope : ∀ n c', store.scope? n = some c' →
      ∃ c, d.store.scope? n = some c ∧ c'.gate = c.gate ∧ c'.commonTags = c.commonTags) :
    SameLayout d { d.modifyRegistry r f with store, adapters } where
  settings := rfl
  gates := rfl
  scopes := rfl
  attached := hattached
  stores := hstores
  registries := List.length_modify ..
  registry := by
    intro q g' hq
    obtain ⟨g, hg, ⟨-, rfl⟩ | ⟨-, rfl⟩⟩ := registry_of_modify (d := d) (r := r) (f := f) hq
    · exact ⟨g, hg, hf g⟩
    · exact ⟨_, hg, rfl, rfl, rfl⟩
  scope := hscope

end SameLayout

theorem Aligned.congr (h : d.Aligned) (hs : SameLayout d d') : d'.Aligned where
  stores := by rw [hs.stores, hs.registries, h.stores]
  store := by
    intro q g' hq
    obtain ⟨g, hg, -, hst, -⟩ := hs.registry q g' hq
    rw [hst, h.store q g hg]
  scope := by
    intro q g' c' hq hc
    obtain ⟨g, hg, hsc, -, -⟩ := hs.registry q g' hq
    obtain ⟨c, hc, hgate, htags⟩ := hs.scope q c' hc
    rw [hgate, htags, hsc, hs.gates, hs.settings]
    exact h.scope q g c hg hc
  gates := by rw [hs.gates]; exact h.gates
  current := by
    intro s q
    rw [hs.scopes, h.current s q]
    constructor
    · rintro ⟨g, hg, rfl, hdrop⟩
      obtain ⟨g', hg', hsc, -, hdr⟩ := hs.registry' hg
      exact ⟨g', hg', hsc, hdr.trans hdrop⟩
    · rintro ⟨g', hg', rfl, hdrop⟩
      obtain ⟨g, hg, hsc, -, hdr⟩ := hs.registry q g' hg'
      exact ⟨g, hg, hsc.symm, hdr.symm.trans hdrop⟩
  attached := by
    intro n
    rw [hs.attached, h.attached n]
    constructor
    · rintro ⟨g, hg, hdrop⟩
      obtain ⟨g', hg', -, -, hdr⟩ := hs.registry' hg
      exact ⟨g', hg', hdr.trans hdrop⟩
    · rintro ⟨g', hg', hdrop⟩
      obtain ⟨g, hg, -, -, hdr⟩ := hs.registry n g' hg'
      exact ⟨g, hg, hdr.symm.trans hdrop⟩
  attached_nodup := by rw [hs.attached]; exact h.attached_nodup

/-- A stored metric stays backed where its meter, its composite and its name are kept. -/
theorem Backed.congr {a : Adapter} {m : MeterRef} {meter meter' : Meter}
    (hb : d.Backed g id a m meter) (hsettings : d'.settings = d.settings)
    (hscope : g'.scope = g.scope) (hstore : g'.store = g.store)
    (hfind : d'.store.find? g.store (g.meterId id) = some m)
    (hmeter : d'.store.meter? m = some meter') (hid : meter'.id = meter.id)
    (hkind : meter'.kind = meter.kind)
    (hcomposite : d'.store.composites.get? (g.meterId id) = some a.composite)
    (hname : g'.names.get? id.name = some ⟨meter'.metadata, a.kind⟩)
    (hserial : d.adapters ≤ d'.adapters) : d'.Backed g' id a m meter' where
  stored := hb.stored
  normal := by rw [hsettings]; exact hb.normal
  captured := hb.captured
  found := by rw [Registry.meterId_congr hscope, hstore]; exact hfind
  present := hmeter
  meter_id := by rw [hid, hb.meter_id, Registry.meterId_congr hscope]
  meter_kind := by rw [hkind, hb.meter_kind]
  composite := by rw [Registry.meterId_congr hscope]; exact hcomposite
  composite_id := by rw [hb.composite_id, Registry.meterId_congr hscope]
  composite_kind := hb.composite_kind
  live := hb.live
  name := hname
  allowed := by rw [hsettings]; exact hb.allowed
  serial := Nat.lt_of_lt_of_le hb.serial hserial

/-! ## Describing a name -/

section Describe

variable {metadata : Metadata} {kind : MetricKind}

theorem sameLayout_describe (d : Directory) (r : RegistryRef) (metadata : Metadata)
    (kind : MetricKind) : SameLayout d (d.describe r metadata kind) := by
  refine SameLayout.of_modify d.adapters (fun _ => ⟨rfl, rfl, rfl⟩) ?_ ?_ ?_
  · rw [MeterStore.refreshMetadata_eq]
  · rw [MeterStore.refreshMetadata_eq]
  · intro n c hc
    rw [MeterStore.refreshMetadata_eq] at hc
    exact ⟨c, hc, rfl, rfl⟩

theorem find?_describe (n : ScopeRef) (mid : MetricId) :
    (d.describe r metadata kind).store.find? n mid = d.store.find? n mid := by
  show (d.store.refreshMetadata r metadata).find? n mid = _
  rw [MeterStore.refreshMetadata_eq]
  rfl

theorem composites_describe :
    (d.describe r metadata kind).store.composites = d.store.composites := by
  show (d.store.refreshMetadata r metadata).composites = _
  rw [MeterStore.refreshMetadata_eq]

theorem Linked.describe (h : d.Linked) (hr : d.registry? r = some g) (hg : g.dropped = false)
    (hkind : ∀ e, g.names.get? metadata.name = some e → e.kind = kind) :
    (d.describe r metadata kind).Linked where
  toAligned := h.toAligned.congr (sameLayout_describe d r metadata kind)
  dropped := by
    intro q g' hq hdrop
    obtain ⟨g₀, hg₀, ⟨rfl, rfl⟩ | ⟨-, rfl⟩⟩ := registry_of_modify (d := d) hq
    · rw [hr] at hg₀
      cases hg₀
      rw [show g.dropped = true from hdrop] at hg
      cases hg
    · exact h.dropped q _ hg₀ hdrop
  backed := by
    classical
    intro q g' id a hq ha
    obtain ⟨g₀, hg₀, hcase⟩ := registry_of_modify (d := d) hq
    have ha₀ : g₀.metrics.get? id = some a := by
      obtain ⟨-, rfl⟩ | ⟨-, rfl⟩ := hcase <;> exact ha
    obtain ⟨m, meter, hb⟩ := h.backed q g₀ id a hg₀ ha₀
    have hmeter := MeterStore.meter?_refreshMetadata d.store r metadata m
    rw [hb.present] at hmeter
    have hfind : (d.describe r metadata kind).store.find? g₀.store (g₀.meterId id) = some m := by
      rw [find?_describe, hb.found]
    have hcomp : (d.describe r metadata kind).store.composites.get? (g₀.meterId id) =
        some a.composite := by
      rw [composites_describe, hb.composite]
    by_cases hnamed : q = r ∧ id.name = metadata.name
    · -- a metric of the name: its meter is told
      obtain ⟨rfl, hname⟩ := hnamed
      obtain ⟨-, rfl⟩ | ⟨hne, -⟩ := hcase
      · rw [hr] at hg₀
        cases hg₀
        rw [if_pos ((h.named_iff hr).mpr ⟨id, a, ha₀, hname, hb.captured⟩)] at hmeter
        have hk : a.kind = kind := hkind _ (hname ▸ hb.name)
        refine ⟨m, _, hb.congr rfl rfl rfl hfind hmeter rfl rfl hcomp ?_ (Nat.le_refl _)⟩
        rw [hname, hk]
        exact (SortedMap.get?_insert ..).trans (if_pos rfl)
      · exact absurd rfl hne
    · have hother : ¬ d.store.Named r metadata.name m := by
        intro hm
        obtain ⟨id', a', ha', hname', hm'⟩ := (h.named_iff hr).mp hm
        obtain ⟨m', meter', hb'⟩ := h.backed r g id' a' hr ha'
        have : m' = m := by rw [hb'.captured] at hm'; exact Option.some.inj hm'
        subst this
        obtain ⟨rfl, rfl⟩ := h.eq_of_meter hg₀ hr ha₀ ha' hb hb'
        exact hnamed ⟨rfl, hname'⟩
      rw [if_neg hother] at hmeter
      have hname : g'.names.get? id.name = some ⟨meter.metadata, a.kind⟩ := by
        obtain ⟨rfl, rfl⟩ | ⟨-, rfl⟩ := hcase
        · have hne : id.name ≠ metadata.name := fun e => hnamed ⟨rfl, e⟩
          exact ((SortedMap.get?_insert ..).trans (if_neg hne)).trans hb.name
        · exact hb.name
      have hsame : g'.scope = g₀.scope ∧ g'.store = g₀.store := by
        obtain ⟨-, rfl⟩ | ⟨-, rfl⟩ := hcase <;> exact ⟨rfl, rfl⟩
      exact ⟨m, meter, hb.congr rfl hsame.1 hsame.2 hfind hmeter rfl rfl hcomp hname
        (Nat.le_refl _)⟩
  meter_used := by
    intro q g' mid m hq hm
    rw [find?_describe] at hm
    obtain ⟨g₀, hg₀, ⟨-, rfl⟩ | ⟨-, rfl⟩⟩ := registry_of_modify (d := d) hq
    · exact h.meter_used q g₀ mid m hg₀ hm
    · exact h.meter_used q _ mid m hg₀ hm
  composite_used := by
    intro mid c hc
    rw [composites_describe] at hc
    obtain ⟨q, g₀, id, a, hq, ha, hmid⟩ := h.composite_used mid c hc
    refine ⟨q, _, id, a, modify_of_registry _ hq, ?_, ?_⟩
    · split <;> exact ha
    · split <;> exact hmid
  name_key := by
    intro q g' n e hq he
    obtain ⟨g₀, hg₀, ⟨-, rfl⟩ | ⟨-, rfl⟩⟩ := registry_of_modify (d := d) hq
    · have he' := (SortedMap.get?_insert ..).symm.trans he
      split at he'
      · rename_i hn
        cases he'
        exact hn.symm
      · exact h.name_key q g₀ n e hg₀ he'
    · exact h.name_key q _ n e hg₀ he

/-- Describing the name of a stored metric. -/
theorem Coherent.describe (h : d.Coherent) (hr : d.registry? r = some g) {a : Adapter}
    (ha : g.metrics.get? id = some a) (hname : id.name = metadata.name)
    (hkind : ∀ e, g.names.get? metadata.name = some e → e.kind = kind) :
    (d.describe r metadata kind).Coherent where
  toLinked := h.toLinked.describe hr (h.not_dropped hr ha) hkind
  names_used := by
    intro q g' n e hq he
    obtain ⟨g₀, hg₀, ⟨rfl, rfl⟩ | ⟨-, rfl⟩⟩ := registry_of_modify (d := d) hq
    · rw [hr] at hg₀
      cases hg₀
      have he' := (SortedMap.get?_insert ..).symm.trans he
      split at he'
      · rename_i hn
        exact ⟨id, a, ha, hname.trans hn.symm⟩
      · exact h.names_used q g n e hr he'
    · exact h.names_used q _ n e hg₀ he

end Describe

/-! ## A metric coming in -/

section Admit

variable {form : AdapterForm} {meter : Meter}

theorem sameLayout_enroll (d : Directory) (r : RegistryRef) (id : MetricId) (form : AdapterForm)
    (meter : Meter) : SameLayout d (d.enroll r id form meter) := by
  refine SameLayout.of_modify _ (fun _ => ⟨rfl, rfl, rfl⟩) rfl (List.length_modify ..) ?_
  intro n c' hc
  have hc' := (MeterStore.scope?_modifyScope _ r _ n).symm.trans hc
  split at hc'
  · obtain ⟨c, hn, rfl⟩ := Option.map_eq_some_iff.mp hc'
    exact ⟨c, hn, rfl, rfl⟩
  · exact ⟨c', hc', rfl, rfl⟩

theorem Linked.enroll (h : d.Linked) (hr : d.registry? r = some g) (hg : g.dropped = false)
    (hid : d.settings.Normal id) (hnew : g.metrics.get? id = none)
    (hmeter : meter.id = g.meterId id) (hkind : meter.kind = form.kind)
    (hname : g.names.get? id.name = some ⟨meter.metadata, form.kind⟩)
    (hallowed : d.settings.Allows form.kind id.name) : (d.enroll r id form meter).Linked where
  toAligned := h.toAligned.congr (sameLayout_enroll d r id form meter)
  dropped := by
    intro q g' hq hdrop
    obtain ⟨g₀, hg₀, ⟨rfl, rfl⟩ | ⟨-, rfl⟩⟩ := registry_of_modify (d := d) hq
    · rw [hr] at hg₀
      cases hg₀
      rw [show g.dropped = true from hdrop] at hg
      cases hg
    · exact h.dropped q _ hg₀ hdrop
  backed := by
    obtain ⟨c, hc⟩ := h.exists_scope hr
    -- what was there before keeps its meter: the new one has a number and an id of its own
    have hold : ∀ q g₀ g' id' a, d.registry? q = some g₀ → g₀.metrics.get? id' = some a →
        (q = r → id' ≠ id) → g'.scope = g₀.scope → g'.store = g₀.store → g'.names = g₀.names →
        ∃ m meter', (d.enroll r id form meter).Backed g' id' a m meter' := by
      intro q g₀ g' id' a hq ha hne hscope hstore hnames
      obtain ⟨m, meter', hb⟩ := h.backed q g₀ id' a hq ha
      have hmid : g₀.meterId id' ≠ meter.id := by
        rw [hmeter]
        intro heq
        obtain ⟨rfl, rfl⟩ := h.eq_of_meterId hq hr (h.not_dropped hq ha) hg hb.normal hid heq
        exact hne rfl rfl
      refine ⟨m, meter', hb.congr rfl hscope hstore ?_ ?_ rfl rfl ?_ ?_ (Nat.le_succ _)⟩
      · refine (MeterStore.find?_enter hc form.kind meter g₀.store _).trans ?_
        rw [if_neg fun hk => hmid hk.2, hb.found]
      · refine (MeterStore.meter?_enter d.store r form.kind meter m).trans ?_
        rw [if_neg (Nat.ne_of_lt (List.getElem?_eq_some_iff.mp hb.present).1), hb.present]
      · exact ((SortedMap.get?_insert ..).trans (if_neg hmid)).trans hb.composite
      · rw [hnames, hb.name]
    intro q g' id' a hq ha
    obtain ⟨g₀, hg₀, ⟨rfl, rfl⟩ | ⟨hne, rfl⟩⟩ := registry_of_modify (d := d) hq
    · rw [hr] at hg₀
      cases hg₀
      by_cases hid' : id' = id
      · subst hid'
        have ha' := ((SortedMap.get?_insert ..).trans (if_pos rfl)).symm.trans ha
        cases ha'
        have hmem := h.mem_attached hr hg
        exact ⟨d.store.meters.length, meter, {
          stored := rfl
          normal := hid
          captured := rfl
          found := by
            refine (MeterStore.find?_enter hc form.kind meter g.store _).trans ?_
            exact if_pos ⟨h.store q g hr, hmeter.symm⟩
          present := (MeterStore.meter?_enter ..).trans (if_pos rfl)
          meter_id := hmeter
          meter_kind := hkind
          composite := (SortedMap.get?_insert ..).trans (if_pos hmeter.symm)
          composite_id := hmeter
          composite_kind := rfl
          live := MeterStore.live_nextComposite hmem h.attached_nodup form.kind
          name := hname
          allowed := hallowed
          serial := Nat.lt_succ_self _ }⟩
      · have ha' := ((SortedMap.get?_insert ..).trans (if_neg hid')).symm.trans ha
        exact hold q g _ id' a hr ha' (fun _ => hid') rfl rfl rfl
    · exact hold q _ _ id' a hg₀ ha (fun e => absurd e hne) rfl rfl rfl
  meter_used := by
    obtain ⟨c, hc⟩ := h.exists_scope hr
    intro q g' mid m hq hm
    have hm' := (MeterStore.find?_enter hc form.kind meter q mid).symm.trans hm
    obtain ⟨g₀, hg₀, ⟨rfl, rfl⟩ | ⟨hne, rfl⟩⟩ := registry_of_modify (d := d) hq
    · rw [hr] at hg₀
      cases hg₀
      split at hm'
      · rename_i hmid
        exact ⟨id, _, (SortedMap.get?_insert ..).trans (if_pos rfl), hmid.2.trans hmeter⟩
      · obtain ⟨id', a, ha, hmid⟩ := h.meter_used q g mid m hr hm'
        have hne : id' ≠ id := fun e => by rw [e, hnew] at ha; cases ha
        exact ⟨id', a, ((SortedMap.get?_insert ..).trans (if_neg hne)).trans ha, hmid⟩
    · rw [if_neg fun hk => hne hk.1] at hm'
      exact h.meter_used q _ mid m hg₀ hm'
  composite_used := by
    intro mid c hc
    have hc' := (SortedMap.get?_insert ..).symm.trans hc
    split at hc'
    · rename_i hmid
      have hr' := modify_of_registry (r := r) (fun g =>
        { g with metrics := g.metrics.insert id (d.nextAdapter r id form meter.id) }) hr
      rw [if_pos rfl] at hr'
      exact ⟨r, _, id, _, hr', (SortedMap.get?_insert ..).trans (if_pos rfl), hmid.trans hmeter⟩
    · obtain ⟨q, g₀, id', a, hq, ha, hmid⟩ := h.composite_used mid c hc'
      refine ⟨q, _, id', a, modify_of_registry _ hq, ?_, ?_⟩
      · split
        · rename_i hqr
          rw [hqr, hr] at hq
          cases hq
          have hne : id' ≠ id := fun e => by rw [e, hnew] at ha; cases ha
          exact ((SortedMap.get?_insert ..).trans (if_neg hne)).trans ha
        · exact ha
      · split <;> exact hmid
  name_key := by
    intro q g' n e hq he
    obtain ⟨g₀, hg₀, ⟨-, rfl⟩ | ⟨-, rfl⟩⟩ := registry_of_modify (d := d) hq
    · exact h.name_key q g₀ n e hg₀ he
    · exact h.name_key q _ n e hg₀ he

/-- The name of the metric that came in may have been unused before. -/
theorem namesUsed_enroll (h : ∀ q g₀ n e, d.registry? q = some g₀ → g₀.names.get? n = some e →
      q = r ∧ n = id.name ∨ ∃ id' a, g₀.metrics.get? id' = some a ∧ id'.name = n) :
    (d.enroll r id form meter).NamesUsed := by
  intro q g' n e hq he
  obtain ⟨g₀, hg₀, ⟨rfl, rfl⟩ | ⟨hne, rfl⟩⟩ := registry_of_modify (d := d) hq
  · by_cases hn : n = id.name
    · exact ⟨id, _, (SortedMap.get?_insert ..).trans (if_pos rfl), hn.symm⟩
    · obtain ⟨-, rfl⟩ | ⟨id', a, ha, hname⟩ := h q g₀ n e hg₀ he
      · exact absurd rfl hn
      · have hid : id' ≠ id := fun e => hn (by rw [← hname, e])
        exact ⟨id', a, ((SortedMap.get?_insert ..).trans (if_neg hid)).trans ha, hname⟩
  · obtain ⟨rfl, -⟩ | hused := h q _ n e hg₀ he
    · exact absurd rfl hne
    · exact hused

end Admit

/-! ## A metric going out -/

section Discard

variable {a : Adapter}

theorem forgetUnused_same (g : Registry) (name : String) :
    (g.forgetUnused name).scope = g.scope ∧ (g.forgetUnused name).store = g.store ∧
      (g.forgetUnused name).dropped = g.dropped ∧ (g.forgetUnused name).metrics = g.metrics := by
  unfold Registry.forgetUnused
  split <;> exact ⟨rfl, rfl, rfl, rfl⟩

/-- A name is forgotten only when no metric has it. -/
theorem get?_names_forgetUnused (g : Registry) (name n : String) :
    (g.forgetUnused name).names.get? n =
      if n = name ∧ g.hasName name = false then none else g.names.get? n := by
  unfold Registry.forgetUnused
  cases hn : g.hasName name with
  | true => simp
  | false => simp [SortedMap.get?_erase]

theorem sameLayout_discard (d : Directory) (r : RegistryRef) (id mid : MetricId) :
    SameLayout d (d.discard r id mid) := by
  refine SameLayout.of_modify d.adapters (fun g => ?_) rfl (List.length_modify ..) ?_
  · obtain ⟨h1, h2, h3, -⟩ := forgetUnused_same { g with metrics := g.metrics.erase id } id.name
    exact ⟨h1, h2, h3⟩
  · intro n c' hc
    have hc' := (MeterStore.scope?_modifyScope _ r _ n).symm.trans hc
    split at hc'
    · obtain ⟨c, hn, rfl⟩ := Option.map_eq_some_iff.mp hc'
      exact ⟨c, hn, rfl, rfl⟩
    · exact ⟨c', hc', rfl, rfl⟩

/-- What a registry is after one of its metrics went out. -/
theorem registry_of_discard (hq : registry? (d.discard r id mid) q = some g') :
    ∃ g, d.registry? q = some g ∧ g'.scope = g.scope ∧ g'.store = g.store ∧
      g'.dropped = g.dropped ∧
      (∀ id', g'.metrics.get? id' = if q = r ∧ id' = id then none else g.metrics.get? id') ∧
      (∀ n, g'.names.get? n = if q = r ∧ n = id.name ∧
        ({ g with metrics := g.metrics.erase id } : Registry).hasName n = false
        then none else g.names.get? n) := by
  obtain ⟨g₀, hg₀, ⟨rfl, rfl⟩ | ⟨hne, rfl⟩⟩ := registry_of_modify (d := d) hq
  · obtain ⟨h1, h2, h3, h4⟩ := forgetUnused_same { g₀ with metrics := g₀.metrics.erase id } id.name
    refine ⟨g₀, hg₀, h1, h2, h3, fun id' => ?_, fun n => ?_⟩
    · rw [h4, SortedMap.get?_erase]
      simp
    · rw [get?_names_forgetUnused]
      by_cases hn : n = id.name
      · simp [hn]
      · simp [hn]
  · exact ⟨_, hg₀, rfl, rfl, rfl, fun _ => by simp [hne], fun _ => by simp [hne]⟩

theorem Linked.discard (h : d.Linked) (hr : d.registry? r = some g)
    (ha : g.metrics.get? id = some a) : (d.discard r id (g.meterId id)).Linked where
  toAligned := h.toAligned.congr (sameLayout_discard d r id _)
  dropped := by
    intro q g' hq hdrop
    obtain ⟨g₀, hg₀, -, -, hd, hmetrics, hnames⟩ := registry_of_discard hq
    obtain ⟨hm, hn⟩ := h.dropped q g₀ hg₀ (hd ▸ hdrop)
    refine ⟨SortedMap.ext_get? fun id' => ?_, SortedMap.ext_get? fun n => ?_⟩
    · rw [hmetrics, hm]
      split <;> rfl
    · rw [hnames, hn]
      split <;> rfl
  backed := by
    intro q g' id' a' hq ha'
    obtain ⟨g₀, hg₀, hscope, hstore, -, hmetrics, hnames⟩ := registry_of_discard hq
    rw [hmetrics] at ha'
    split at ha'
    · cases ha'
    · rename_i hne
      obtain ⟨m, meter, hb⟩ := h.backed q g₀ id' a' hg₀ ha'
      obtain ⟨_, _, hb₀⟩ := h.backed r g id a hr ha
      have hmid : g₀.meterId id' ≠ g.meterId id := fun heq =>
        hne (h.eq_of_meterId hg₀ hr (h.not_dropped hg₀ ha') (h.not_dropped hr ha) hb.normal
          hb₀.normal heq)
      refine ⟨m, meter, hb.congr rfl hscope hstore ?_ hb.present rfl rfl ?_ ?_ (Nat.le_refl _)⟩
      · refine (MeterStore.find?_leave d.store r _ g₀.store _).trans ?_
        rw [if_neg fun hk => hmid hk.2, hb.found]
      · exact ((SortedMap.get?_erase ..).trans (if_neg hmid)).trans hb.composite
      · rw [hnames, if_neg, hb.name]
        rintro ⟨rfl, hn, hunused⟩
        have hused : ({ g₀ with metrics := g₀.metrics.erase id } : Registry).hasName id'.name :=
          Registry.hasName_iff.mpr ⟨id', a', (SortedMap.get?_erase ..).trans
            ((if_neg fun e => hne ⟨rfl, e⟩).trans ha'), rfl⟩
        rw [hunused] at hused
        cases hused
  meter_used := by
    intro q g' mid m hq hm
    obtain ⟨g₀, hg₀, hscope, -, -, hmetrics, -⟩ := registry_of_discard hq
    have hm' := (MeterStore.find?_leave d.store r _ q mid).symm.trans hm
    split at hm'
    · cases hm'
    · rename_i hne
      obtain ⟨id', a', ha', hmid⟩ := h.meter_used q g₀ mid m hg₀ hm'
      refine ⟨id', a', ?_, by rw [hmid, Registry.meterId_congr hscope]⟩
      rw [hmetrics, if_neg, ha']
      rintro ⟨rfl, rfl⟩
      rw [hr] at hg₀
      cases hg₀
      exact hne ⟨rfl, hmid⟩
  composite_used := by
    intro mid c hc
    have hc' := (SortedMap.get?_erase ..).symm.trans hc
    split at hc'
    · cases hc'
    · rename_i hne
      obtain ⟨q, g₀, id', a', hq, ha', hmid⟩ := h.composite_used mid c hc'
      have hs := sameLayout_discard d r id (g.meterId id)
      obtain ⟨g', hg', -⟩ := hs.registry' hq
      obtain ⟨g₁, hg₁, hscope, -, -, hmetrics, -⟩ := registry_of_discard hg'
      rw [hq] at hg₁
      cases hg₁
      refine ⟨q, g', id', a', hg', ?_, by rw [hmid, Registry.meterId_congr hscope]⟩
      rw [hmetrics, if_neg, ha']
      rintro ⟨rfl, rfl⟩
      rw [hr] at hq
      cases hq
      exact hne hmid
  name_key := by
    intro q g' n e hq he
    obtain ⟨g₀, hg₀, -, -, -, -, hnames⟩ := registry_of_discard hq
    rw [hnames] at he
    split at he
    · cases he
    · exact h.name_key q g₀ n e hg₀ he

theorem Coherent.discard (h : d.Coherent) (hr : d.registry? r = some g)
    (ha : g.metrics.get? id = some a) : (d.discard r id (g.meterId id)).Coherent where
  toLinked := h.toLinked.discard hr ha
  names_used := by
    intro q g' n e hq he
    obtain ⟨g₀, hg₀, -, -, -, hmetrics, hnames⟩ := registry_of_discard hq
    rw [hnames] at he
    split at he
    · cases he
    · rename_i hkept
      by_cases hn : q = r ∧ n = id.name
      · have hused : ({ g₀ with metrics := g₀.metrics.erase id } : Registry).hasName n = true := by
          cases hu : ({ g₀ with metrics := g₀.metrics.erase id } : Registry).hasName n with
          | true => rfl
          | false => exact absurd ⟨hn.1, hn.2, hu⟩ hkept
        obtain ⟨id', a', ha', hname⟩ := Registry.hasName_iff.mp hused
        have ha' := (SortedMap.get?_erase ..).symm.trans ha'
        split at ha'
        · cases ha'
        · rename_i hne
          exact ⟨id', a', by rw [hmetrics, if_neg fun hk => hne hk.2, ha'], hname⟩
      · obtain ⟨id', a', ha', hname⟩ := h.names_used q g₀ n e hg₀ he
        refine ⟨id', a', ?_, hname⟩
        rw [hmetrics, if_neg, ha']
        rintro ⟨rfl, rfl⟩
        exact hn ⟨rfl, hname.symm⟩

end Discard

/-! ## Writing to meters -/

end Directory

/-- The same store but for what its meters hold and what gauges sample. -/
structure MeterStore.Rewritten (s s' : MeterStore) : Prop where
  rest : s' = { s with meters := s'.meters, samples := s'.samples }
  length : s'.meters.length = s.meters.length
  meter : ∀ m meter, s.meter? m = some meter →
    ∃ meter', s'.meter? m = some meter' ∧ meter'.id = meter.id ∧ meter'.metadata = meter.metadata ∧
      meter'.kind = meter.kind

namespace MeterStore.Rewritten

variable {s s' s'' : MeterStore}

theorem refl (s : MeterStore) : Rewritten s s :=
  ⟨rfl, rfl, fun _ meter h => ⟨meter, h, rfl, rfl, rfl⟩⟩

theorem trans (h : Rewritten s s') (h' : Rewritten s' s'') : Rewritten s s'' where
  rest := by
    rw [h'.rest, h.rest]
  length := h'.length.trans h.length
  meter := by
    intro m meter hm
    obtain ⟨meter', hm', hid, hmetadata, hkind⟩ := h.meter m meter hm
    obtain ⟨meter'', hm'', hid', hmetadata', hkind'⟩ := h'.meter m meter' hm'
    exact ⟨meter'', hm'', hid'.trans hid, hmetadata'.trans hmetadata, hkind'.trans hkind⟩

theorem foldl {α : Type} {f : MeterStore → α → MeterStore} (hf : ∀ s a, Rewritten s (f s a))
    (l : List α) (s : MeterStore) : Rewritten s (l.foldl f s) := by
  induction l generalizing s with
  | nil => exact refl s
  | cons a l ih => exact (hf s a).trans (ih (f s a))

theorem modifyMeter {f : Meter → Meter}
    (hf : ∀ m, (f m).id = m.id ∧ (f m).metadata = m.metadata ∧ (f m).kind = m.kind) (s : MeterStore)
    (m : MeterRef) : Rewritten s (s.modifyMeter m f) where
  rest := rfl
  length := List.length_modify ..
  meter := by
    intro k meter hk
    rw [meter?_modifyMeter, hk]
    split
    · exact ⟨f meter, rfl, hf meter⟩
    · exact ⟨meter, rfl, rfl, rfl, rfl⟩

theorem samples (s : MeterStore) (samples : Samples) : Rewritten s { s with samples } :=
  ⟨rfl, rfl, fun _ meter h => ⟨meter, h, rfl, rfl, rfl⟩⟩

end MeterStore.Rewritten

namespace Meter

theorem increment_same (n : UInt64) (m : Meter) :
    (m.increment n).id = m.id ∧ (m.increment n).metadata = m.metadata ∧
      (m.increment n).kind = m.kind := by
  unfold increment
  cases hv : m.value <;> simp [kind, hv, MeterValue.kind]

theorem record_same (raw : Nat) (m : Meter) :
    (m.record raw).id = m.id ∧ (m.record raw).metadata = m.metadata ∧
      (m.record raw).kind = m.kind := by
  unfold record
  cases hv : m.value <;> simp [kind, hv, MeterValue.kind]

end Meter

namespace Adapter

open MeterStore (Rewritten)

theorem rewritten_increment (a : Adapter) (n : UInt64) (s : MeterStore) :
    Rewritten s (a.increment n s) := by
  unfold increment
  split
  · exact .modifyMeter (Meter.increment_same n) s _
  · exact .foldl (fun s m => .modifyMeter (Meter.increment_same n) s m) _ s

theorem rewritten_record (a : Adapter) (raw : Nat) (s : MeterStore) :
    Rewritten s (a.record raw s) := by
  unfold record
  split
  · exact .modifyMeter (Meter.record_same raw) s _
  · exact .foldl (fun s m => .modifyMeter (Meter.record_same raw) s m) _ s

theorem rewritten_update (a : Adapter) (value : Int) (s : MeterStore) :
    Rewritten s (a.update value s) := by
  unfold update
  split
  · exact a.rewritten_record _ s
  · exact .refl s

end Adapter

namespace Directory

variable {d : Directory}

/-- Writing to meters keeps a directory coherent. -/
theorem Coherent.rewrite (h : d.Coherent) {s : MeterStore} (hs : d.store.Rewritten s) :
    ({ d with store := s } : Directory).Coherent := by
  have hrest := hs.rest
  obtain ⟨meters, scopes, attached, composites, serials, samples⟩ := s
  cases hrest
  exact {
    toAligned := ⟨h.stores, h.store, h.scope, h.gates, h.current, h.attached, h.attached_nodup⟩
    dropped := h.dropped
    backed := by
      intro q g id a hq ha
      obtain ⟨m, meter, hb⟩ := h.backed q g id a hq ha
      obtain ⟨meter', hm', hid, hmetadata, hkind⟩ := hs.meter m meter hb.present
      exact ⟨m, meter', hb.congr rfl rfl rfl hb.found hm' hid hkind hb.composite
        (by rw [hmetadata, hb.name]) (Nat.le_refl _)⟩
    meter_used := h.meter_used
    composite_used := h.composite_used
    name_key := h.name_key
    names_used := h.names_used }

/-- So does a change of a registry's mappings and of its platform mark. -/
theorem Coherent.mark (h : d.Coherent) (r : RegistryRef) {f : Registry → Registry}
    (hf : ∀ g, f g = { g with mappings := (f g).mappings, platformBound := (f g).platformBound }) :
    (d.modifyRegistry r f).Coherent := by
  have hsame : ∀ g, (f g).scope = g.scope ∧ (f g).store = g.store ∧ (f g).dropped = g.dropped ∧
      (f g).metrics = g.metrics ∧ (f g).names = g.names := fun g => by
    rw [hf g]
    exact ⟨rfl, rfl, rfl, rfl, rfl⟩
  have hlayout : SameLayout d (d.modifyRegistry r f) :=
    .of_modify _ (fun g => ⟨(hsame g).1, (hsame g).2.1, (hsame g).2.2.1⟩) rfl rfl
      fun _ c hc => ⟨c, hc, rfl, rfl⟩
  have hof : ∀ q g', registry? (d.modifyRegistry r f) q = some g' → ∃ g, d.registry? q = some g ∧
      g'.scope = g.scope ∧ g'.store = g.store ∧ g'.dropped = g.dropped ∧
      g'.metrics = g.metrics ∧ g'.names = g.names := by
    intro q g' hq
    obtain ⟨g, hg, ⟨-, rfl⟩ | ⟨-, rfl⟩⟩ := registry_of_modify hq
    · exact ⟨g, hg, hsame g⟩
    · exact ⟨_, hg, rfl, rfl, rfl, rfl, rfl⟩
  exact {
    toAligned := h.toAligned.congr hlayout
    dropped := by
      intro q g' hq hdrop
      obtain ⟨g, hg, -, -, hd, hm, hn⟩ := hof q g' hq
      rw [hm, hn]
      exact h.dropped q g hg (hd ▸ hdrop)
    backed := by
      intro q g' id a hq ha
      obtain ⟨g, hg, hscope, hstore, -, hm, hn⟩ := hof q g' hq
      obtain ⟨m, meter, hb⟩ := h.backed q g id a hg (hm ▸ ha)
      exact ⟨m, meter, hb.congr rfl hscope hstore hb.found hb.present rfl rfl hb.composite
        (by rw [hn, hb.name]) (Nat.le_refl _)⟩
    meter_used := by
      intro q g' mid m hq hmid
      obtain ⟨g, hg, hscope, -, -, hm, -⟩ := hof q g' hq
      obtain ⟨id, a, ha, heq⟩ := h.meter_used q g mid m hg hmid
      exact ⟨id, a, by rw [hm, ha], by rw [heq, Registry.meterId_congr hscope]⟩
    composite_used := by
      intro mid c hc
      obtain ⟨q, g, id, a, hq, ha, heq⟩ := h.composite_used mid c hc
      obtain ⟨g', hg', -⟩ := hlayout.registry' hq
      obtain ⟨g₀, hg₀, hscope, -, -, hm, -⟩ := hof q g' hg'
      rw [hq] at hg₀
      cases hg₀
      exact ⟨q, g', id, a, hg', by rw [hm, ha], by rw [heq, Registry.meterId_congr hscope]⟩
    name_key := by
      intro q g' n e hq he
      obtain ⟨g, hg, -, -, -, -, hn⟩ := hof q g' hq
      exact h.name_key q g n e hg (hn ▸ he)
    names_used := by
      intro q g' n e hq he
      obtain ⟨g, hg, -, -, -, hm, hn⟩ := hof q g' hq
      rw [hm]
      exact h.names_used q g n e hg (hn ▸ he) }

end Directory

end Telemetry
