import Telemetry.Proofs.Directory.Scopes

/-!
# What a registration comes to

In a coherent directory a registration is decided by the registry alone (`request_eq`): a refused
one leaves the directory as it was, one for a metric that is there describes its name, and any other
one describes the name and enrolls a metric. In particular what a failed registration wrote on its
way is taken back: a distribution can only be refused when its name has no metric yet, since what is
made for a name and a kind is fixed by the settings.
-/

namespace Telemetry

namespace MetricRequest

/-- The form of the adapter that the request is answered with. -/
def form : MetricRequest → AdapterForm
  | .counter => .counter
  | .gauge sampler => .gauge sampler
  | .histogram => .histogram
  | .timer => .timer

theorem form_spec (q : MetricRequest) (settings : RegistrySettings) (name : String) :
    (q.spec settings name).form = q.form := by
  cases q <;> rfl

theorem kind_form (q : MetricRequest) : q.form.kind = q.kind := by
  cases q <;> rfl

end MetricRequest

namespace Directory

/-- Register what is requested. -/
def request (d : Directory) (r : RegistryRef) (metadata : Metadata) (tags : List Tag) :
    MetricRequest → Outcome Adapter × Directory
  | .counter => d.counter r metadata tags
  | .gauge sampler => d.gauge r metadata tags sampler
  | .histogram => d.histogram r metadata tags
  | .timer => d.timer r metadata tags

variable {d : Directory} {r : RegistryRef} {g : Registry} {id : MetricId} {metadata : Metadata}
  {kind : MetricKind}

theorem request_eq_register (d : Directory) (r : RegistryRef) (metadata : Metadata)
    (tags : List Tag) (q : MetricRequest) :
    d.request r metadata tags q = d.register r metadata tags (q.spec d.settings metadata.name) := by
  cases q <;> rfl

/-! ## Binding a name -/

theorem effective_name (h : d.Linked) (hr : d.registry? r = some g) (metadata : Metadata) :
    (g.effective metadata).name = metadata.name := by
  unfold Registry.effective
  cases he : g.names.get? metadata.name with
  | none => rfl
  | some entry => exact h.name_key r g _ entry hr he

/-- Telling meters what they know. -/
theorem refreshMetadata_of_told {s : MeterStore} {n : ScopeRef}
    (h : ∀ m meter, s.Named n metadata.name m → s.meter? m = some meter →
      meter.metadata = metadata) : s.refreshMetadata n metadata = s := by
  classical
  rw [MeterStore.refreshMetadata_eq]
  have hmeters : (s.refreshMetadata n metadata).meters = s.meters := by
    refine List.ext_getElem? fun m => ?_
    refine (MeterStore.meter?_refreshMetadata s n metadata m).trans ?_
    split
    · rename_i hnamed
      cases hm : s.meter? m with
      | none => exact hm.symm
      | some meter =>
        rw [Option.map_some, ← h m meter hnamed hm]
        exact hm.symm
    · rfl
  rw [hmeters]

/-- Describing a name that no metric has leaves the store as it is. -/
theorem store_describe_unused (h : d.Linked) (hr : d.registry? r = some g) (kind : MetricKind)
    (hunused : ∀ id a, g.metrics.get? id = some a → id.name ≠ metadata.name) :
    (d.describe r metadata kind).store = d.store := by
  refine refreshMetadata_of_told fun m meter hnamed _ => ?_
  obtain ⟨id, a, ha, hname, -⟩ := (h.named_iff hr).mp hnamed
  exact absurd hname (hunused id a ha)

/-- Describing a name as it is described already changes nothing. -/
theorem describe_of_described (h : d.Linked) (hr : d.registry? r = some g)
    (hentry : g.names.get? metadata.name = some ⟨metadata, kind⟩) :
    d.describe r metadata kind = d := by
  have hstore : d.store.refreshMetadata r metadata = d.store := by
    refine refreshMetadata_of_told fun m meter hnamed hm => ?_
    obtain ⟨id, a, ha, hname, hcaptured⟩ := (h.named_iff hr).mp hnamed
    obtain ⟨m', meter', hb⟩ := h.backed r g id a hr ha
    rw [hb.captured] at hcaptured
    cases hcaptured
    rw [hb.present] at hm
    cases hm
    have := hb.name
    rw [hname, hentry] at this
    exact (congrArg NameEntry.metadata (Option.some.inj this)).symm
  have hregistries : (d.registries.modify r fun g =>
      { g with names := g.names.insert metadata.name ⟨metadata, kind⟩ }) = d.registries := by
    refine List.ext_getElem? fun q => ?_
    rw [List.getElem?_modify]
    by_cases hq : r = q
    · subst hq
      rw [show d.registries[r]? = some g from hr]
      simp [SortedMap.insert_of_get? hentry]
    · simp [hq]
  unfold describe modifyRegistry
  rw [hstore, hregistries]

theorem bindMetadata_eq (h : d.Linked) (hr : d.registry? r = some g)
    (hkind : ∀ e, g.names.get? metadata.name = some e → e.kind = kind) :
    d.bindMetadata r metadata kind =
      (.ok (g.effective metadata), d.describe r (g.effective metadata) kind) := by
  unfold bindMetadata
  rw [hr]
  simp only
  unfold Registry.effective
  cases he : g.names.get? metadata.name with
  | none =>
    have hunused : ∀ id a, g.metrics.get? id = some a → id.name ≠ metadata.name := by
      intro id a ha hname
      obtain ⟨_, _, hb⟩ := h.backed r g id a hr ha
      have := hb.name
      rw [hname, he] at this
      cases this
    have hstore := store_describe_unused h hr kind hunused
    simp only
    unfold describe at hstore ⊢
    simp only at hstore
    rw [hstore]
    rfl
  | some entry =>
    have hk := hkind entry he
    have hname := h.name_key r g _ entry hr he
    simp only [hk, ne_eq, not_true_eq_false, if_false]
    split
    · rename_i hsame
      have hentry : g.names.get? (entry.metadata.refine metadata).name =
          some ⟨entry.metadata.refine metadata, kind⟩ := by
        show g.names.get? entry.metadata.name = _
        rw [hname, he, hsame, ← hk]
      rw [describe_of_described h hr hentry]
    · unfold describe
      rw [h.store r g hr, show (entry.metadata.refine metadata).name = metadata.name from hname]
      rfl

theorem bindMetadata_conflict {entry : NameEntry} (hr : d.registry? r = some g)
    (he : g.names.get? metadata.name = some entry) (hk : entry.kind ≠ kind) :
    d.bindMetadata r metadata kind =
      (.error (.kindConflict metadata.name entry.kind kind), d) := by
  unfold bindMetadata
  rw [hr]
  simp only [he, if_pos hk]

/-! ## Making a meter -/

theorem registerMeter_eq {g' : Registry} {spec : MeterSpec} (h : d.Linked)
    (hr : d.registry? r = some g') (hg : g'.dropped = false) (hscope : g.scope = g'.scope)
    (hstore : g.store = r) (hid : d.settings.Normal id) (hnew : g'.metrics.get? id = none) :
    d.registerMeter g id spec metadata =
      match spec.initial with
      | .error fault => (.error (.distribution id.name fault), d)
      | .ok value =>
        (.ok (d.nextAdapter r id spec.form (g.meterId id)),
          { d with
            store := d.store.enter r spec.kind ⟨g.meterId id, metadata, value⟩
            adapters := d.adapters + 1 }) := by
  obtain ⟨c, hc⟩ := h.exists_scope hr
  have hmid : g.meterId id = g'.meterId id := Registry.meterId_congr hscope id
  have hgate : d.gates.gate? g'.scope = some c.gate := (h.scope r g' c hr hc).1
  have hfor : WriteGrant.isFor ⟨c.gate⟩ c.gate = true := ScopeGate.same_iff.mpr ⟨rfl, rfl⟩
  have hnone : c.meters.get? (g'.meterId id) = none := by
    rw [← MeterStore.find?_eq hc]
    exact h.find?_none hr hg hid hnew
  have hregister : d.store.register (g'.meterId id) spec metadata ⟨c.gate⟩ = _ :=
    MeterStore.register_new (h.composite_none hr hg hid hnew)
      (h.mem_attached hr hg) h.attached_nodup hc hfor hnone fun k hk hne =>
        h.denies hr hg hgate hk hne
  unfold registerMeter
  rw [hscope, VisibilityGate.scopeGate_of_some hgate, hmid, hstore]
  simp only
  rw [show (d.gates.openGrant c.gate).1 = ⟨c.gate⟩ from rfl, hregister, Meter.create_eq,
    VisibilityGate.release_openGrant]
  cases spec.initial with
  | error fault => rfl
  | ok value =>
    simp only
    rw [MeterStore.find?_enter hc, if_pos ⟨rfl, rfl⟩]
    unfold nextAdapter
    rw [MeterSpec.kind_form]

/-! ## Registration -/

/-- A name that is described and forgotten again is as it was. -/
theorem forget_describe (h : d.Linked) (hr : d.registry? r = some g)
    (hnone : g.names.get? metadata.name = none)
    (hunused : ∀ id a, g.metrics.get? id = some a → id.name ≠ metadata.name) :
    (d.describe r metadata kind).modifyRegistry r (fun g => g.forgetUnused metadata.name) = d := by
  have hregistries : (d.describe r metadata kind).registries.modify r
      (fun g => g.forgetUnused metadata.name) = d.registries := by
    refine List.ext_getElem? fun q => ?_
    rw [List.getElem?_modify]
    show _ <$> (d.registries.modify r _)[q]? = _
    rw [List.getElem?_modify]
    by_cases hq : r = q
    · subst hq
      rw [show d.registries[r]? = some g from hr]
      have hname : ({ g with names := g.names.insert metadata.name ⟨metadata, kind⟩ } :
          Registry).hasName metadata.name = false := by
        cases hn : ({ g with names := g.names.insert metadata.name ⟨metadata, kind⟩ } :
            Registry).hasName metadata.name with
        | false => rfl
        | true =>
          obtain ⟨id, a, ha, hname⟩ := Registry.hasName_iff.mp hn
          exact absurd hname (hunused id a ha)
      simp [Registry.forgetUnused, hname, SortedMap.erase_insert hnone]
    · simp [hq]
  have hstore := store_describe_unused h hr kind hunused
  unfold modifyRegistry
  rw [hregistries]
  show ({ d with store := (d.describe r metadata kind).store } : Directory) = d
  rw [hstore]

/-- **Why a failure can be taken back.** When a distribution cannot be laid out for a name, the
registry does not know the name: a metric of the name and kind could not have been made either. -/
theorem Coherent.unnamed (h : d.Coherent) (hr : d.registry? r = some g) {name : String}
    {q : MetricRequest} {fault : LayoutFault}
    (hkind : ∀ e, g.names.get? name = some e → e.kind = q.kind)
    (hfault : (q.spec d.settings name).initial = .error fault) :
    g.names.get? name = none ∧ ∀ id a, g.metrics.get? id = some a → id.name ≠ name := by
  have hunused : ∀ id a, g.metrics.get? id = some a → id.name ≠ name := by
    intro id a ha hname
    obtain ⟨_, _, hb⟩ := h.backed r g id a hr ha
    have hk : a.kind = q.kind := hkind _ (hname ▸ hb.name)
    obtain ⟨value, hvalue⟩ := hb.allowed q hk.symm
    rw [hname, hfault] at hvalue
    cases hvalue
  refine ⟨?_, hunused⟩
  cases he : g.names.get? name with
  | none => rfl
  | some entry =>
    obtain ⟨id, a, ha, hname⟩ := h.names_used r g _ entry hr he
    exact absurd hname (hunused id a ha)

/-- What the verdict on a request comes to; `metadata` is what holds for the name by now. -/
def settle (d : Directory) (r : RegistryRef) (g : Registry) (metadata : Metadata)
    (q : MetricRequest) :
    Verdict → Outcome Adapter × Directory
  | .refuse e => (.error e, d)
  | .reuse a => (.ok a, d.describe r metadata q.kind)
  | .enroll id value =>
    let d := d.describe r metadata q.kind
    (.ok (d.nextAdapter r id q.form (g.meterId id)),
      d.enroll r id q.form ⟨g.meterId id, metadata, value⟩)

/-- **A registration, by the verdict of the registry.** -/
theorem request_eq (h : d.Coherent) (hr : d.registry? r = some g) (metadata : Metadata)
    (tags : List Tag) (q : MetricRequest) :
    d.request r metadata tags q =
      d.settle r g (g.effective metadata) q (g.verdict d.settings metadata tags q) := by
  rw [request_eq_register]
  unfold register Registry.verdict
  rw [hr]
  simp only
  by_cases hname : metadata.name = ""
  · rw [if_pos hname, if_pos hname]
    rfl
  rw [if_neg hname, if_neg hname]
  cases hid : g.metricId d.settings metadata.name tags with
  | error e => rfl
  | ok id =>
    obtain ⟨hidname, hnormal⟩ := Registry.metricId_ok hid
    simp only [MetricRequest.kind_spec]
    cases ha : g.metrics.get? id with
    | some a =>
      obtain ⟨_, _, hb⟩ := h.backed r g id a hr ha
      simp only
      by_cases hk : a.kind = q.kind
      · have hkind : ∀ e, g.names.get? metadata.name = some e → e.kind = q.kind := by
          intro e he
          have := hb.name
          rw [hidname, he] at this
          rw [Option.some.inj this, hk]
        rw [if_neg (by simpa using hk), if_pos hk, bindMetadata_eq h.toLinked hr hkind]
        rfl
      · rw [if_pos hk, if_neg hk, hb.stored, hidname]
        rfl
    | none =>
      simp only
      cases hdrop : g.dropped with
      | true => rfl
      | false =>
        simp only [Bool.false_eq_true, if_false]
        cases he : (g.names.get? metadata.name).filter fun entry => entry.kind ≠ q.kind with
        | some entry =>
          obtain ⟨he, hk⟩ := Option.filter_eq_some_iff.mp he
          rw [bindMetadata_conflict hr he (by simpa using hk)]
          rfl
        | none =>
          have hkind : ∀ e, g.names.get? metadata.name = some e → e.kind = q.kind := by
            intro e hentry
            rw [hentry, Option.filter_some] at he
            by_cases hk : e.kind = q.kind
            · exact hk
            · rw [if_pos (by simpa using hk)] at he
              cases he
          have heff := effective_name h.toLinked hr metadata
          have hdesc : (d.describe r (g.effective metadata) q.kind).Linked :=
            h.toLinked.describe hr hdrop (by rw [heff]; exact hkind)
          have hr' : registry? (d.describe r (g.effective metadata) q.kind) r = some _ :=
            modify_of_registry _ hr
          rw [if_pos rfl] at hr'
          rw [bindMetadata_eq h.toLinked hr hkind]
          simp only
          rw [registerMeter_eq (g := g) hdesc hr' hdrop rfl (h.store r g hr) hnormal ha]
          cases hinit : (q.spec d.settings metadata.name).initial with
          | error fault =>
            obtain ⟨hnone, hunused⟩ := h.unnamed hr hkind hinit
            have hsame : g.effective metadata = metadata := by
              unfold Registry.effective
              rw [hnone]
            simp only
            rw [hsame, hidname, forget_describe h.toLinked hr hnone hunused]
            rfl
          | ok value =>
            simp only [MetricRequest.form_spec, MetricRequest.kind_spec]
            unfold settle enroll
            simp only [MetricRequest.kind_form]
            rfl

end Directory

end Telemetry
