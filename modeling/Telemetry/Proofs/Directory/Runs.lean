import Mathlib.Data.Set.Function
import Telemetry.Proofs.Directory.Operations

/-!
# Runs of a directory

An `Operation` is anything that can be asked of a directory and changes it: opening and dropping
scopes, registering and removing metrics through a registry that may be stale, mapping and
intercepting members, writing through an adapter, whether the directory knows it or not, and setting
what gauges sample. The work of an interception is again a list of operations, so members may be
intercepted within one another. A `Run` is a list of operations on a new directory.

* **`coherent_applyAll`**: operations keep a directory coherent, so every run ends in a coherent
  one.
* **`faithful_run`**: after every run the store holds exactly what the registries hold (`Faithful`).
-/

namespace Telemetry

/-- What can be asked of a directory. -/
inductive Operation where
  /-- Get the registry of a scope, made if there is none. -/
  | openScope (scope : String)
  | dropScope (scope : String)
  | dropAll
  | register (r : RegistryRef) (q : MetricRequest) (metadata : Metadata) (tags : List Tag)
  | remove (r : RegistryRef) (id : MetricId)
  | removeMatching (r : RegistryRef) (p : MetricId → Adapter → Bool)
  /-- Map an id to a member, whatever the id. -/
  | mapMember (r : RegistryRef) (kind : AnnotationKind) (member : Member) (id : MetricId)
  | registerMember (member : Member) (annotations : List MetricAnnotation)
  /-- Intercept a member. Its work is done, and ends so, when a metric of the kind is mapped to it;
  whoever asked for it catches what unwinds. -/
  | intercept (kind : AnnotationKind) (scope : String) (member : Member)
      (elapsed : Adapter → Duration) (work : List Operation) (ending : Ending Unit)
  | increment (a : Adapter) (n : UInt64)
  | update (a : Adapter) (value : Int)
  | updateDuration (a : Adapter) (d : Duration)
  /-- Set what gauges sample. -/
  | sample (samples : Samples)

mutual

/-- Carry out an operation. -/
def Operation.apply : Operation → Directory → Directory
  | .openScope scope, d => (d.getOrCreate scope).2
  | .dropScope scope, d => (d.dropScope scope).2
  | .dropAll, d => d.dropAll
  | .register r q metadata tags, d => (d.request r metadata tags q).2
  | .remove r id, d => (d.remove r id).2
  | .removeMatching r p, d => (d.removeMatching r p).2
  | .mapMember r kind member id, d => d.modifyRegistry r (Directory.mapMember kind member id)
  | .registerMember member annotations, d => (Directory.registerMember member annotations d).2
  | .intercept .counted scope member _ work ending, d =>
    (d.invokeCounted scope member fun d => (ending, Operation.applyAll work d)).2
  | .intercept .timed scope member elapsed work ending, d =>
    (d.invokeTimed scope member elapsed fun d => (ending, Operation.applyAll work d)).2
  | .increment a n, d => d.modifyStore (a.increment n)
  | .update a value, d => d.modifyStore (a.update value)
  | .updateDuration a elapsed, d => d.modifyStore (a.updateDuration elapsed)
  | .sample samples, d => d.modifyStore fun s => { s with samples }

/-- Carry out operations in turn. -/
def Operation.applyAll : List Operation → Directory → Directory
  | [], d => d
  | op :: ops, d => Operation.applyAll ops (op.apply d)

end

namespace Directory

/-- The directory after a run. -/
def afterRun (settings : RegistrySettings) (platform : PlatformReadings) (ops : List Operation) :
    Directory :=
  Operation.applyAll ops (new settings platform)

variable {d : Directory} {r : RegistryRef} {g : Registry} {id : MetricId} {a : Adapter}

/-! ## Runs are coherent -/

theorem coherent_new (settings : RegistrySettings) (platform : PlatformReadings) :
    (new settings platform).Coherent := by
  have hnone : ∀ r, registry? (new settings platform) r = none := fun _ => rfl
  exact {
    stores := rfl
    store := fun r g h => nomatch (hnone r).symm.trans h
    scope := fun r g c h => nomatch (hnone r).symm.trans h
    gates := VisibilityGate.numbered_new 0
    current := fun s r => by
      constructor
      · intro h
        cases h
      · rintro ⟨g, h, -⟩
        exact nomatch (hnone r).symm.trans h
    attached := fun n => by
      constructor
      · exact fun h => absurd h List.not_mem_nil
      · rintro ⟨g, h, -⟩
        exact nomatch (hnone n).symm.trans h
    attached_nodup := List.nodup_nil
    dropped := fun r g h => nomatch (hnone r).symm.trans h
    backed := fun r g id a h => nomatch (hnone r).symm.trans h
    meter_used := fun r g mid m h => nomatch (hnone r).symm.trans h
    composite_used := fun mid c h => by cases h
    name_key := fun r g n e h => nomatch (hnone r).symm.trans h
    names_used := fun r g n e h => nomatch (hnone r).symm.trans h }

/-- An operation on a registry that there is, or on none. -/
theorem hasRegistry_or_none (d : Directory) (r : RegistryRef) :
    (∃ scope, d.HasRegistry r scope) ∨ d.registry? r = none := by
  cases hr : d.registry? r with
  | none => exact .inr rfl
  | some g => exact .inl ⟨g.scope, g, hr, rfl⟩

mutual

/-- **Every operation keeps a directory coherent.** -/
theorem coherent_apply : (op : Operation) → {d : Directory} → d.Coherent → (op.apply d).Coherent
  | .openScope scope, _, h => (changes_getOrCreate h scope).coherent h
  | .dropScope scope, _, h => (changes_dropScope h scope).coherent h
  | .dropAll, _, h => h.dropAll
  | .register r q metadata tags, d, h => by
    obtain ⟨scope, hr⟩ | hr := hasRegistry_or_none d r
    · exact (changes_request h hr metadata tags q).coherent h
    · unfold Operation.apply
      rw [request_eq_register]
      unfold register
      rw [hr]
      exact h
  | .remove r id, d, h => by
    obtain ⟨scope, hr⟩ | hr := hasRegistry_or_none d r
    · exact (changes_remove h hr id).coherent h
    · unfold Operation.apply remove
      rw [hr]
      exact h
  | .removeMatching r p, d, h => by
    obtain ⟨scope, hr⟩ | hr := hasRegistry_or_none d r
    · exact (changes_removeMatching h hr p).coherent h
    · unfold Operation.apply removeMatching
      rw [hr]
      exact h
  | .mapMember r kind member id, d, h => h.mark r fun _ => rfl
  | .registerMember member annotations, _, h => h.registerMember member annotations
  | .intercept .counted scope member _ work _, _, h =>
    h.invokeCounted scope member fun _ h => coherent_applyAll work h
  | .intercept .timed scope member elapsed work _, _, h =>
    h.invokeTimed scope member elapsed fun _ h => coherent_applyAll work h
  | .increment a n, d, h => h.rewrite (a.rewritten_increment n d.store)
  | .update a value, d, h => h.rewrite (a.rewritten_update value d.store)
  | .updateDuration a elapsed, d, h => h.rewrite (a.rewritten_record _ d.store)
  | .sample samples, d, h => h.rewrite (.samples d.store samples)

/-- **So does every list of operations.** -/
theorem coherent_applyAll : (ops : List Operation) → {d : Directory} → d.Coherent →
    (Operation.applyAll ops d).Coherent
  | [], _, h => h
  | op :: ops, _, h => coherent_applyAll ops (coherent_apply op h)

end

theorem coherent_afterRun (settings : RegistrySettings) (platform : PlatformReadings)
    (ops : List Operation) : (afterRun settings platform ops).Coherent :=
  coherent_applyAll ops (coherent_new settings platform)

/-! ## What a coherent directory represents -/

/-- The store holds what the registries hold, and nothing else. -/
structure Faithful (d : Directory) : Prop where
  /-- There is one attached scope store for every existing scope, and no other one. -/
  children : (d.store.attached.map fun n => (d.store.scope? n).map (·.gate.scope)).Perm
    (d.scopeNames.map some)
  /-- A scope's registry writes to the scope's attached store. -/
  store : ∀ s r g, d.lookup? s = some r → d.registry? r = some g →
    g.scope = s ∧ g.store ∈ d.store.attached ∧
      ∃ c, d.store.scope? g.store = some c ∧ c.gate.scope = s
  /-- Metrics correspond to composites with the scope's tag. -/
  composites : ∀ s r g, d.lookup? s = some r → d.registry? r = some g →
    Set.BijOn g.meterId {id | g.metrics.contains id}
      {mid | d.store.composites.contains mid ∧ mid.tags.get? scopeKey = some s}
  /-- Metrics correspond to the meters of the scope store. -/
  meters : ∀ s r g, d.lookup? s = some r → d.registry? r = some g →
    Set.BijOn g.meterId {id | g.metrics.contains id} {mid | (d.store.find? g.store mid).isSome}
  /-- A registered adapter captured the meter of the scope store, which is the only one that its
  composite shows, all of one kind, and reads it. -/
  captured : ∀ r g id a, d.registry? r = some g → g.metrics.get? id = some a →
    ∃ m meter, a.meter = some m ∧ d.store.find? g.store (g.meterId id) = some m ∧
      d.store.composites.get? (g.meterId id) = some a.composite ∧ a.composite.live = [m] ∧
      d.store.meter? m = some meter ∧ meter.kind = a.kind ∧ a.composite.kind = a.kind ∧
      a.readable? d.store = some meter
  /-- Every composite has the tag of an existing scope. -/
  composite_scope : ∀ mid, d.store.composites.contains mid →
    ∃ s, mid.tags.get? scopeKey = some s ∧ d.scopeExists s
  /-- A registry, current or dropped, counts as many metrics as meters. -/
  size : ∀ r g, d.registry? r = some g → g.metrics.size = d.meterCount r

theorem Aligned.children (h : d.Aligned) :
    (d.store.attached.map fun n => (d.store.scope? n).map (·.gate.scope)).Perm
      (d.scopeNames.map some) := by
  have hscope : ∀ n ∈ d.store.attached, ∃ g, d.registry? n = some g ∧ g.dropped = false ∧
      (d.store.scope? n).map (·.gate.scope) = some g.scope := by
    intro n hn
    obtain ⟨g, hg, hdrop⟩ := (h.attached n).mp hn
    obtain ⟨c, hc⟩ := h.exists_scope hg
    exact ⟨g, hg, hdrop, by rw [hc, Option.map_some, h.gate_scope hg hc]⟩
  rw [List.perm_ext_iff_of_nodup]
  · intro x
    simp only [List.mem_map]
    constructor
    · rintro ⟨n, hn, rfl⟩
      obtain ⟨g, hg, hdrop, heq⟩ := hscope n hn
      exact ⟨g.scope, SortedMap.mem_keys.mpr ⟨n, (h.current _ n).mpr ⟨g, hg, rfl, hdrop⟩⟩, heq.symm⟩
    · rintro ⟨s, hs, rfl⟩
      obtain ⟨n, hn⟩ := SortedMap.mem_keys.mp hs
      obtain ⟨g, hg, rfl, hdrop⟩ := (h.current s n).mp hn
      obtain ⟨g', hg', -, heq⟩ := hscope n (h.mem_attached hg hdrop)
      rw [hg] at hg'
      cases hg'
      exact ⟨n, h.mem_attached hg hdrop, heq⟩
  · refine List.pairwise_map.mpr (h.attached_nodup.imp_of_mem fun {n k} hn hk hne heq => ?_)
    obtain ⟨g, hg, hdrop, hgs⟩ := hscope n hn
    obtain ⟨g', hg', hdrop', hgs'⟩ := hscope k hk
    rw [hgs, hgs'] at heq
    exact hne (h.eq_of_scope hg hg' hdrop hdrop' (Option.some.inj heq))
  · exact List.pairwise_map.mpr (d.scopes.nodup_keys.imp fun hne heq => hne (Option.some.inj heq))

theorem Linked.meterId_injOn (h : d.Linked) (hr : d.registry? r = some g) :
    Set.InjOn g.meterId {id | g.metrics.contains id} := by
  intro id hid id' hid' heq
  obtain ⟨a, ha⟩ := SortedMap.contains_iff.mp hid
  obtain ⟨a', ha'⟩ := SortedMap.contains_iff.mp hid'
  obtain ⟨_, _, hb⟩ := h.backed r g id a hr ha
  obtain ⟨_, _, hb'⟩ := h.backed r g id' a' hr ha'
  exact Registry.meterId_inj hb.normal.unscoped hb'.normal.unscoped heq

theorem Linked.bijOn_composites (h : d.Linked) (hr : d.registry? r = some g)
    (hdrop : g.dropped = false) :
    Set.BijOn g.meterId {id | g.metrics.contains id}
      {mid | d.store.composites.contains mid ∧ mid.tags.get? scopeKey = some g.scope} := by
  refine ⟨?_, h.meterId_injOn hr, ?_⟩
  · intro id hid
    obtain ⟨a, ha⟩ := SortedMap.contains_iff.mp hid
    obtain ⟨_, _, hb⟩ := h.backed r g id a hr ha
    exact ⟨SortedMap.contains_iff.mpr ⟨_, hb.composite⟩, Registry.scope_meterId g id⟩
  · rintro mid ⟨hmid, hscope⟩
    obtain ⟨c, hc⟩ := SortedMap.contains_iff.mp hmid
    obtain ⟨q, g', id, a, hq, ha, rfl⟩ := h.composite_used mid c hc
    rw [Registry.scope_meterId, Option.some.injEq] at hscope
    have hqr := h.eq_of_scope hq hr (h.not_dropped hq ha) hdrop hscope
    rw [hqr, hr] at hq
    cases hq
    exact ⟨id, SortedMap.contains_iff.mpr ⟨a, ha⟩, rfl⟩

theorem Linked.bijOn_meters (h : d.Linked) (hr : d.registry? r = some g) :
    Set.BijOn g.meterId {id | g.metrics.contains id}
      {mid | (d.store.find? g.store mid).isSome} := by
  refine ⟨?_, h.meterId_injOn hr, ?_⟩
  · intro id hid
    obtain ⟨a, ha⟩ := SortedMap.contains_iff.mp hid
    obtain ⟨m, _, hb⟩ := h.backed r g id a hr ha
    exact Option.isSome_iff_exists.mpr ⟨m, hb.found⟩
  · intro mid hmid
    obtain ⟨m, hm⟩ := Option.isSome_iff_exists.mp hmid
    rw [h.store r g hr] at hm
    obtain ⟨id, a, ha, rfl⟩ := h.meter_used r g mid m hr hm
    exact ⟨id, SortedMap.contains_iff.mpr ⟨a, ha⟩, rfl⟩

theorem Linked.size_eq_meterCount (h : d.Linked) (hr : d.registry? r = some g) :
    g.metrics.size = d.meterCount r := by
  obtain ⟨c, hc⟩ := h.exists_scope hr
  have hcount : d.meterCount r = c.meters.size := by
    unfold meterCount MeterStore.meterCount
    rw [hr, Option.map_some, Option.getD_some, h.store r g hr, hc]
    rfl
  obtain ⟨hmaps, hinj, hsurj⟩ := h.bijOn_meters hr
  have hkey : ∀ {id}, id ∈ g.metrics.keys ↔ g.metrics.contains id := by
    intro id
    rw [SortedMap.mem_keys, SortedMap.contains_iff]
  have hfind : ∀ mid, mid ∈ c.meters.keys ↔ (d.store.find? g.store mid).isSome := by
    intro mid
    rw [SortedMap.mem_keys, h.store r g hr, MeterStore.find?_eq hc, Option.isSome_iff_exists]
  rw [hcount]
  refine SortedMap.size_eq_of_keys
    (fun id hid id' hid' heq => hinj (hkey.mp hid) (hkey.mp hid') heq) fun mid => ?_
  rw [hfind]
  constructor
  · intro hmid
    obtain ⟨id, hid, heq⟩ := hsurj hmid
    exact ⟨id, hkey.mpr hid, heq⟩
  · rintro ⟨id, hid, rfl⟩
    exact hmaps (hkey.mp hid)

theorem Coherent.faithful (h : d.Coherent) : d.Faithful where
  children := h.children
  store := by
    intro s r g hs hr
    obtain ⟨hscope, hdrop⟩ := h.of_lookup hs hr
    obtain ⟨c, hc⟩ := h.exists_scope hr
    rw [h.store r g hr]
    exact ⟨hscope, h.mem_attached hr hdrop, c, hc, by rw [h.gate_scope hr hc, hscope]⟩
  composites := by
    intro s r g hs hr
    obtain ⟨rfl, hdrop⟩ := h.of_lookup hs hr
    exact h.bijOn_composites hr hdrop
  meters := fun _ _ _ _ hr => h.bijOn_meters hr
  captured := by
    intro r g id a hr ha
    obtain ⟨m, meter, hb⟩ := h.backed r g id a hr ha
    refine ⟨m, meter, hb.captured, hb.found, hb.composite, hb.live, hb.present, hb.meter_kind,
      hb.composite_kind, ?_⟩
    unfold Adapter.readable?
    rw [hb.captured]
    exact hb.present
  composite_scope := by
    intro mid hmid
    obtain ⟨c, hc⟩ := SortedMap.contains_iff.mp hmid
    obtain ⟨q, g, id, a, hq, ha, rfl⟩ := h.composite_used mid c hc
    exact ⟨g.scope, Registry.scope_meterId g id, SortedMap.contains_iff.mpr
      ⟨q, (h.current _ q).mpr ⟨g, hq, rfl, h.not_dropped hq ha⟩⟩⟩
  size := fun _ _ hr => h.size_eq_meterCount hr

/-- **After every run the store is faithful**: one attached scope store per existing scope; in each
scope the metrics, the composites with its tag and the meters of its store correspond one to one and
in kind; every registered adapter reads the meter of its own scope; and no composite is left of a
scope that does not exist. -/
theorem faithful_run (settings : RegistrySettings) (platform : PlatformReadings)
    (ops : List Operation) : (afterRun settings platform ops).Faithful :=
  (coherent_afterRun settings platform ops).faithful

end Directory

end Telemetry
