import Telemetry.Proofs.Directory.Removals
import Telemetry.Proofs.Directory.Requests

/-!
# Changes inside one scope

`Changes scope d d'` says that `d'` comes from `d` by effects inside one scope. Every operation that
is addressed to a scope makes such changes, and that is all that a proof about all operations has to
know of them:

* `Changes.coherent`: a coherent directory stays coherent;
* `Changes.frame`: what belongs to the other scopes stays as it is, and no registry or meter is
  lost.
-/

namespace Telemetry

namespace Directory

/-- Effects inside one scope, one after the other. -/
inductive Changes (scope : String) : Directory → Directory → Prop
  | refl (d : Directory) : Changes scope d d
  | trans {d d' d'' : Directory} (h : Changes scope d d') (h' : Changes scope d' d'') :
      Changes scope d d''
  /-- A registered name is described anew. -/
  | describe {d : Directory} {r : RegistryRef} {g : Registry} {id : MetricId} {a : Adapter}
      {metadata : Metadata} {kind : MetricKind} (hr : d.registry? r = some g)
      (hscope : g.scope = scope) (ha : g.metrics.get? id = some a) (hname : id.name = metadata.name)
      (hkind : ∀ e, g.names.get? metadata.name = some e → e.kind = kind) :
      Changes scope d (d.describe r metadata kind)
  /-- A metric comes in under a name that is described with it. -/
  | enroll {d : Directory} {r : RegistryRef} {g : Registry} {id : MetricId} {metadata : Metadata}
      {q : MetricRequest} {value : MeterValue} (hr : d.registry? r = some g)
      (hscope : g.scope = scope) (hdrop : g.dropped = false) (hid : d.settings.Normal id)
      (hname : id.name = metadata.name) (hnew : g.metrics.get? id = none)
      (hkind : ∀ e, g.names.get? metadata.name = some e → e.kind = q.kind)
      (hvalue : (q.spec d.settings metadata.name).initial = .ok value) :
      Changes scope d ((d.describe r metadata q.kind).enroll r id q.form
        ⟨g.meterId id, metadata, value⟩)
  /-- A metric goes out. -/
  | discard {d : Directory} {r : RegistryRef} {g : Registry} {id : MetricId} {a : Adapter}
      (hr : d.registry? r = some g) (hscope : g.scope = scope) (ha : g.metrics.get? id = some a) :
      Changes scope d (d.discard r id (g.meterId id))
  | found {d : Directory} (hnew : d.scopes.get? scope = none) : Changes scope d (d.found scope)
  | dissolve {d : Directory} {r : RegistryRef} {g : Registry} (hr : d.registry? r = some g)
      (hscope : g.scope = scope) (hdrop : g.dropped = false) : Changes scope d (d.dissolve r scope)
  /-- Meters of the scope are written to. -/
  | write {d : Directory} {s : MeterStore} (hs : d.store.Rewritten s)
      (hsamples : s.samples = d.store.samples)
      (hothers : ∀ m meter, d.store.meter? m = some meter →
        meter.id.tags.get? scopeKey ≠ some scope → s.meter? m = some meter) :
      Changes scope d { d with store := s }
  /-- A registry's mappings or its platform mark change. -/
  | mark {d : Directory} {r : RegistryRef} {g : Registry} {f : Registry → Registry}
      (hr : d.registry? r = some g) (hscope : g.scope = scope)
      (hf : ∀ g,
        f g = { g with mappings := (f g).mappings, platformBound := (f g).platformBound }) :
      Changes scope d (d.modifyRegistry r f)

/-- What changes in one scope leave of a directory. -/
structure Frame (scope : String) (d d' : Directory) : Prop where
  settings : d'.settings = d.settings
  samples : d'.store.samples = d.store.samples
  adapters : d.adapters ≤ d'.adapters
  /-- No registry is lost. -/
  registry : ∀ q g, d.registry? q = some g → ∃ g', d'.registry? q = some g' ∧ g'.scope = g.scope
  /-- No meter is lost. -/
  meter : ∀ m meter, d.store.meter? m = some meter →
    ∃ meter', d'.store.meter? m = some meter' ∧ meter'.id = meter.id ∧ meter'.kind = meter.kind
  registry_others : ∀ q g, g.scope ≠ scope → (d'.registry? q = some g ↔ d.registry? q = some g)
  scope_others : ∀ q g, d.registry? q = some g → g.scope ≠ scope →
    d'.store.scope? q = d.store.scope? q
  meter_others : ∀ m meter, d.store.meter? m = some meter →
    meter.id.tags.get? scopeKey ≠ some scope → d'.store.meter? m = some meter

namespace Frame

variable {scope : String} {d d' d'' : Directory}

theorem refl (scope : String) (d : Directory) : Frame scope d d where
  settings := rfl
  samples := rfl
  adapters := Nat.le_refl _
  registry := fun _ g h => ⟨g, h, rfl⟩
  meter := fun _ meter h => ⟨meter, h, rfl, rfl⟩
  registry_others := fun _ _ _ => Iff.rfl
  scope_others := fun _ _ _ _ => rfl
  meter_others := fun _ _ h _ => h

theorem trans (h : Frame scope d d') (h' : Frame scope d' d'') : Frame scope d d'' where
  settings := h'.settings.trans h.settings
  samples := h'.samples.trans h.samples
  adapters := Nat.le_trans h.adapters h'.adapters
  registry := by
    intro q g hq
    obtain ⟨g', hq', hscope⟩ := h.registry q g hq
    obtain ⟨g'', hq'', hscope'⟩ := h'.registry q g' hq'
    exact ⟨g'', hq'', hscope'.trans hscope⟩
  meter := by
    intro m meter hm
    obtain ⟨meter', hm', hid, hkind⟩ := h.meter m meter hm
    obtain ⟨meter'', hm'', hid', hkind'⟩ := h'.meter m meter' hm'
    exact ⟨meter'', hm'', hid'.trans hid, hkind'.trans hkind⟩
  registry_others := fun q g hne => (h'.registry_others q g hne).trans (h.registry_others q g hne)
  scope_others := fun q g hq hne =>
    (h'.scope_others q g ((h.registry_others q g hne).mpr hq) hne).trans (h.scope_others q g hq hne)
  meter_others := fun m meter hm hne => h'.meter_others m meter (h.meter_others m meter hm hne) hne

end Frame

variable {d d' : Directory} {r : RegistryRef} {g : Registry} {id : MetricId} {a : Adapter}
  {scope : String}

/-! ## Single effects -/

/-- Registries after one of the scope's was changed. -/
theorem registry_others_of_modify {f : Registry → Registry} (hr : d.registry? r = some g)
    (hf : (f g).scope = g.scope) (q : RegistryRef) (g₀ : Registry) (hne : g₀.scope ≠ g.scope) :
    registry? (d.modifyRegistry r f) q = some g₀ ↔ d.registry? q = some g₀ := by
  rw [registry?_modifyRegistry]
  split
  · rename_i hq
    rw [hq, hr, Option.map_some, Option.some.injEq, Option.some.injEq]
    constructor
    · rintro rfl
      exact absurd hf hne
    · rintro rfl
      exact absurd rfl hne
  · exact Iff.rfl

theorem registry_kept_of_modify {f : Registry → Registry} (hf : ∀ g, (f g).scope = g.scope)
    (q : RegistryRef) (g : Registry) (hq : d.registry? q = some g) :
    ∃ g', registry? (d.modifyRegistry r f) q = some g' ∧ g'.scope = g.scope := by
  refine ⟨_, modify_of_registry f hq, ?_⟩
  split
  · exact hf g
  · rfl

/-- Scope stores after one was changed. -/
theorem scope_others_of_modify {f : ScopeStore → ScopeStore} {s : MeterStore}
    (hs : s.scopes = d.store.scopes.modify r f) (hr : d.registry? r = some g) (q : RegistryRef)
    (g₀ : Registry) (hq : d.registry? q = some g₀) (hne : g₀.scope ≠ g.scope) :
    s.scope? q = d.store.scope? q := by
  have hqr : q ≠ r := by
    rintro rfl
    rw [hr] at hq
    cases hq
    exact hne rfl
  have := MeterStore.scope?_modifyScope d.store r f q
  rw [if_neg hqr] at this
  rw [← this]
  unfold MeterStore.scope?
  rw [hs]
  rfl

theorem frame_describe (h : d.Linked) (hr : d.registry? r = some g) (metadata : Metadata)
    (kind : MetricKind) : Frame g.scope d (d.describe r metadata kind) := by
  classical
  have hmeter := MeterStore.meter?_refreshMetadata d.store r metadata
  have hrest := MeterStore.refreshMetadata_eq d.store r metadata
  exact {
    settings := rfl
    samples := by
      show (d.store.refreshMetadata r metadata).samples = _
      rw [hrest]
    adapters := Nat.le_refl _
    registry := registry_kept_of_modify fun _ => rfl
    meter := by
      intro m meter hm
      have hm' := hmeter m
      rw [hm, Option.map_some] at hm'
      split at hm' <;> exact ⟨_, hm', rfl, rfl⟩
    registry_others := registry_others_of_modify hr rfl
    scope_others := by
      intro q g₀ hq hne
      show (d.store.refreshMetadata r metadata).scope? q = _
      rw [hrest]
      rfl
    meter_others := by
      intro m meter hm hne
      refine (hmeter m).trans ?_
      rw [if_neg, hm]
      intro hnamed
      obtain ⟨id, a, ha, -, hcaptured⟩ := (h.named_iff hr).mp hnamed
      obtain ⟨m', meter', hb⟩ := h.backed r g id a hr ha
      rw [hb.captured] at hcaptured
      cases hcaptured
      rw [hb.present] at hm
      cases hm
      rw [hb.meter_id, Registry.scope_meterId] at hne
      exact hne rfl }

theorem frame_enroll (hr : d.registry? r = some g) (id : MetricId) (form : AdapterForm)
    (meter : Meter) : Frame g.scope d (d.enroll r id form meter) where
  settings := rfl
  samples := rfl
  adapters := Nat.le_succ _
  registry := registry_kept_of_modify fun _ => rfl
  meter := by
    intro m meter' hm
    refine ⟨meter', (MeterStore.meter?_enter ..).trans ?_, rfl, rfl⟩
    rw [if_neg (Nat.ne_of_lt (List.getElem?_eq_some_iff.mp hm).1), hm]
  registry_others := registry_others_of_modify hr rfl
  scope_others := scope_others_of_modify rfl hr
  meter_others := by
    intro m meter' hm _
    refine (MeterStore.meter?_enter ..).trans ?_
    rw [if_neg (Nat.ne_of_lt (List.getElem?_eq_some_iff.mp hm).1), hm]

theorem frame_discard (hr : d.registry? r = some g) (id mid : MetricId) :
    Frame g.scope d (d.discard r id mid) where
  settings := rfl
  samples := rfl
  adapters := Nat.le_refl _
  registry := registry_kept_of_modify fun _ => (forgetUnused_same _ _).1
  meter := fun _ meter hm => ⟨meter, hm, rfl, rfl⟩
  registry_others := registry_others_of_modify hr (forgetUnused_same _ _).1
  scope_others := scope_others_of_modify rfl hr
  meter_others := fun _ _ hm _ => hm

theorem frame_found (h : d.Aligned) (scope : String) : Frame scope d (d.found scope) where
  settings := rfl
  samples := rfl
  adapters := Nat.le_refl _
  registry := fun q g hq => ⟨g, registry?_found_of_registry scope hq, rfl⟩
  meter := fun _ meter hm => ⟨meter, hm, rfl, rfl⟩
  registry_others := by
    intro q g hne
    constructor
    · intro hq
      obtain ⟨-, rfl⟩ | hq := registry_of_found hq
      · exact absurd rfl hne
      · exact hq
    · exact registry?_found_of_registry scope
  scope_others := by
    intro q g hq _
    rw [scope?_found, h.stores, if_neg (Nat.ne_of_lt (registry_lt hq))]
  meter_others := fun _ _ hm _ => hm

theorem frame_dissolve (hr : d.registry? r = some g) :
    Frame g.scope d (d.dissolve r g.scope) where
  settings := rfl
  samples := rfl
  adapters := Nat.le_refl _
  registry := registry_kept_of_modify fun _ => rfl
  meter := fun _ meter hm => ⟨meter, hm, rfl, rfl⟩
  registry_others := registry_others_of_modify hr rfl
  scope_others := scope_others_of_modify rfl hr
  meter_others := fun _ _ hm _ => hm

theorem frame_write {s : MeterStore} (hs : d.store.Rewritten s)
    (hsamples : s.samples = d.store.samples)
    (hothers : ∀ m meter, d.store.meter? m = some meter →
      meter.id.tags.get? scopeKey ≠ some scope → s.meter? m = some meter) :
    Frame scope d { d with store := s } where
  settings := rfl
  samples := hsamples
  adapters := Nat.le_refl _
  registry := fun _ g hq => ⟨g, hq, rfl⟩
  meter := by
    intro m meter hm
    obtain ⟨meter', hm', hid, -, hkind⟩ := hs.meter m meter hm
    exact ⟨meter', hm', hid, hkind⟩
  registry_others := fun _ _ _ => Iff.rfl
  scope_others := by
    intro q g _ _
    show s.scope? q = _
    rw [hs.rest]
    rfl
  meter_others := hothers

theorem frame_mark (hr : d.registry? r = some g) {f : Registry → Registry}
    (hf : ∀ g, (f g).scope = g.scope) : Frame g.scope d (d.modifyRegistry r f) where
  settings := rfl
  samples := rfl
  adapters := Nat.le_refl _
  registry := registry_kept_of_modify hf
  meter := fun _ meter hm => ⟨meter, hm, rfl, rfl⟩
  registry_others := registry_others_of_modify hr (hf g)
  scope_others := fun _ _ _ _ => rfl
  meter_others := fun _ _ hm _ => hm

/-! ## All changes -/

/-- The directory after a metric came in, its name described with it. -/
theorem Coherent.enroll (h : d.Coherent) {metadata : Metadata} {q : MetricRequest}
    {value : MeterValue} (hr : d.registry? r = some g) (hdrop : g.dropped = false)
    (hid : d.settings.Normal id) (hname : id.name = metadata.name) (hnew : g.metrics.get? id = none)
    (hkind : ∀ e, g.names.get? metadata.name = some e → e.kind = q.kind)
    (hvalue : (q.spec d.settings metadata.name).initial = .ok value) :
    ((d.describe r metadata q.kind).enroll r id q.form
      ⟨g.meterId id, metadata, value⟩).Coherent := by
  have hlinked : (d.describe r metadata q.kind).Linked := h.toLinked.describe hr hdrop hkind
  have hr' : registry? (d.describe r metadata q.kind) r = some _ := modify_of_registry _ hr
  rw [if_pos rfl] at hr'
  refine ⟨hlinked.enroll hr' hdrop hid hnew rfl ?_ ?_ ?_, namesUsed_enroll ?_⟩
  · rw [MetricRequest.kind_form]
    exact (MeterSpec.kind_initial hvalue).trans (MetricRequest.kind_spec ..)
  · rw [MetricRequest.kind_form, hname]
    exact (SortedMap.get?_insert ..).trans (if_pos rfl)
  · rw [MetricRequest.kind_form, hname]
    exact RegistrySettings.allows_of_initial hvalue
  · intro q' g₀ n e hq he
    obtain ⟨g₁, hg₁, ⟨rfl, rfl⟩ | ⟨-, rfl⟩⟩ := registry_of_modify (d := d) hq
    · have he' := (SortedMap.get?_insert ..).symm.trans he
      split at he'
      · rename_i hn
        exact .inl ⟨rfl, hn.trans hname.symm⟩
      · exact .inr (h.names_used q' g₁ n e hg₁ he')
    · exact .inr (h.names_used q' _ n e hg₁ he)

/-- **Changes inside a scope keep a directory coherent.** -/
theorem Changes.coherent (hc : Changes scope d d') (h : d.Coherent) : d'.Coherent := by
  induction hc with
  | refl => exact h
  | trans _ _ ih ih' => exact ih' (ih h)
  | describe hr _ ha hname hkind => exact h.describe hr ha hname hkind
  | enroll hr _ hdrop hid hname hnew hkind hvalue =>
    exact h.enroll hr hdrop hid hname hnew hkind hvalue
  | discard hr _ ha => exact h.discard hr ha
  | found hnew => exact h.found hnew
  | dissolve hr hscope hdrop => exact hscope ▸ h.dissolve hr hdrop
  | write hs _ _ => exact h.rewrite hs
  | mark _ _ hf => exact h.mark _ hf

/-- **Changes inside a scope leave the others alone.** -/
theorem Changes.frame (hc : Changes scope d d') (h : d.Coherent) : Frame scope d d' := by
  induction hc with
  | refl => exact .refl scope _
  | trans hc _ ih ih' => exact (ih h).trans (ih' (hc.coherent h))
  | describe hr hscope _ _ _ => exact hscope ▸ frame_describe h.toLinked hr _ _
  | @enroll d r g id metadata q value hr hscope hdrop hid hname hnew hkind hvalue =>
    have hr' : registry? (d.describe r metadata q.kind) r = some _ := modify_of_registry _ hr
    rw [if_pos rfl] at hr'
    exact hscope ▸ (frame_describe h.toLinked hr _ _).trans (frame_enroll hr' _ _ _)
  | discard hr hscope _ => exact hscope ▸ frame_discard hr _ _
  | found _ => exact frame_found h.toAligned _
  | dissolve hr hscope _ => exact hscope ▸ frame_dissolve hr
  | write hs hsamples hothers => exact frame_write hs hsamples hothers
  | mark hr hscope hf => exact hscope ▸ frame_mark hr fun g => by rw [hf g]

end Directory

end Telemetry
