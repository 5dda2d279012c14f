import Telemetry.Proofs.History.Actions

/-!
# What an action does

In a coherent directory every action is one of the effects, or nothing (`Directory.effect`). From
that follows all that proofs about histories use of it:

* to a registry: `registryAfter` is the registry that an action leaves of one, and `Effect.registry`
  says that this is what becomes of it; new registries come with opened scopes
  (`Effect.registry_new`);
* to a meter: only writing changes a value (`Effect.meter`), and what is written through an adapter
  with one meter changes that one alone (`meter_write`); a metric that comes in has a new meter with
  the initial value of its kind (`meter_enrolled`).
-/

namespace Telemetry

/-- The registry with what it knows of a name set. -/
def Registry.describe (g : Registry) (metadata : Metadata) (kind : MetricKind) : Registry :=
  { g with names := g.names.insert metadata.name ⟨metadata, kind⟩ }

/-- What a meter's value becomes when something is written. -/
def MeterValue.update : Update → MeterValue → MeterValue
  | .increment n, .counter count => .counter (count + n)
  | .record raw, .histogram values => .histogram (values.record raw)
  | .record raw, .timer durations => .timer (durations.record raw)
  | _, value => value

/-- A meter that something was written to. -/
def Meter.update (u : Update) (m : Meter) : Meter := { m with value := m.value.update u }

theorem Meter.increment_eq (n : UInt64) : Meter.increment n = Meter.update (.increment n) := by
  funext m
  obtain ⟨id, metadata, value⟩ := m
  cases value <;> rfl

theorem Meter.record_eq (raw : Nat) : Meter.record raw = Meter.update (.record raw) := by
  funext m
  obtain ⟨id, metadata, value⟩ := m
  cases value <;> rfl

/-- Writing through an adapter that has one meter changes that one alone. -/
theorem Adapter.Sole.write {a : Adapter} {m : MeterRef} (h : a.Sole m) (u : Update)
    (s : MeterStore) : a.write u s = s.modifyMeter m (Meter.update u) := by
  cases u with
  | increment n => exact (h.increment n s).trans (by rw [Meter.increment_eq])
  | record raw => exact (h.record raw s).trans (by rw [Meter.record_eq])

namespace Directory

variable {d d' : Directory} {r q : RegistryRef} {g g' : Registry} {id : MetricId} {a : Adapter}
  {metadata : Metadata} {tags : List Tag} {req : MetricRequest} {act : Action}

/-! ## Registrations, by their answer -/

/-- The metric that comes in when the verdict on a request is to enroll one. -/
def newcomer (d : Directory) (r : RegistryRef) (g : Registry) (metadata : Metadata)
    (req : MetricRequest) (id : MetricId) : Adapter :=
  (d.describe r (g.effective metadata) req.kind).nextAdapter r id req.form (g.meterId id)

theorem serial_newcomer (id : MetricId) :
    (d.newcomer r g metadata req id).serial = d.adapters := rfl

theorem kind_newcomer (id : MetricId) : (d.newcomer r g metadata req id).kind = req.kind :=
  MetricRequest.kind_form req

theorem meter_newcomer (id : MetricId) :
    (d.newcomer r g metadata req id).meter = some d.store.meters.length :=
  congrArg some (MeterStore.length_meters_refreshMetadata ..)

/-- A registration at a number that no registry has. -/
theorem request_none (hr : d.registry? r = none) :
    d.request r metadata tags req = (.error (.scopeDropped ""), d) := by
  rw [request_eq_register]
  unfold register
  rw [hr]

/-- A registration is answered with the metric that is there or with the one that comes in. -/
theorem request_ok (h : d.Coherent) (hok : (d.request r metadata tags req).1 = .ok a) :
    ∃ g, d.registry? r = some g ∧
      (g.verdict d.settings metadata tags req = .reuse a ∨
        ∃ id value, g.verdict d.settings metadata tags req = .enroll id value ∧
          a = d.newcomer r g metadata req id) := by
  cases hr : d.registry? r with
  | none =>
    rw [request_none hr] at hok
    cases hok
  | some g =>
    refine ⟨g, rfl, ?_⟩
    rw [request_eq h hr] at hok
    cases hv : g.verdict d.settings metadata tags req with
    | refuse e =>
      rw [hv] at hok
      cases hok
    | reuse b =>
      rw [hv] at hok
      cases hok
      exact .inl rfl
    | enroll id value =>
      rw [hv] at hok
      cases hok
      exact .inr ⟨id, value, rfl, rfl⟩

/-! ## Registries -/

/-- What an action leaves of a registry. -/
def registryAfter (d : Directory) (q : RegistryRef) (g : Registry) : Action → Registry
  | .register r req metadata tags =>
    if q = r then
      match g.verdict d.settings metadata tags req with
      | .refuse _ => g
      | .reuse _ => g.describe (g.effective metadata) req.kind
      | .enroll id _ =>
        { g.describe (g.effective metadata) req.kind with
          metrics := g.metrics.insert id (d.newcomer r g metadata req id) }
    else g
  | .remove r id =>
    let id := g.normalize d.settings id
    if q = r ∧ (g.metrics.get? id).isSome then
      { g with metrics := g.metrics.erase id }.forgetUnused id.name
    else g
  | .dropScope scope => if d.scopes.get? scope = some q then g.drop else g
  | .markPlatform r => if q = r then { g with platformBound := true } else g
  | .mapMember r kind member id => if q = r then mapMember kind member id g else g
  | .openScope _ | .write _ _ | .sample _ => g

theorem same_registryAfter (d : Directory) (q : RegistryRef) (g : Registry) (act : Action) :
    (d.registryAfter q g act).scope = g.scope ∧ (d.registryAfter q g act).store = g.store := by
  cases act with
  | register r req metadata tags =>
    simp only [registryAfter]
    split
    · split <;> exact ⟨rfl, rfl⟩
    · exact ⟨rfl, rfl⟩
  | remove r id =>
    simp only [registryAfter]
    split
    · obtain ⟨hscope, hstore, -⟩ := forgetUnused_same
        { g with metrics := g.metrics.erase (g.normalize d.settings id) }
        (g.normalize d.settings id).name
      exact ⟨hscope, hstore⟩
    · exact ⟨rfl, rfl⟩
  | dropScope | markPlatform | mapMember =>
    simp only [registryAfter]
    split <;> exact ⟨rfl, rfl⟩
  | openScope | write | sample => exact ⟨rfl, rfl⟩

/-- No action brings back what was dropped. -/
theorem dropped_registryAfter (hg : g.dropped = true) (act : Action) :
    (d.registryAfter q g act).dropped = true := by
  cases act with
  | register r req metadata tags =>
    simp only [registryAfter]
    split
    · split <;> exact hg
    · exact hg
  | remove r id =>
    simp only [registryAfter]
    split
    · rw [(forgetUnused_same _ _).2.2.1]
      exact hg
    · exact hg
  | dropScope scope =>
    simp only [registryAfter]
    split
    · rfl
    · exact hg
  | markPlatform | mapMember =>
    simp only [registryAfter]
    split <;> exact hg
  | openScope | write | sample => exact hg

/-- A removal takes one metric, if it is there, and no other one. -/
theorem get?_registryAfter_remove (d : Directory) (r : RegistryRef) (g : Registry)
    (key removed : MetricId) :
    (d.registryAfter r g (.remove r removed)).metrics.get? key =
      if key = g.normalize d.settings removed then none else g.metrics.get? key := by
  simp only [registryAfter, true_and]
  split
  · rw [(forgetUnused_same _ _).2.2.2, SortedMap.get?_erase]
  · rename_i hnone
    split
    · rename_i hkey
      rw [hkey]
      exact Option.not_isSome_iff_eq_none.mp hnone
    · rfl

/-- What an action comes to in a directory. -/
inductive Effect (d : Directory) : Action → Directory → Prop
  /-- There is nothing to do, or it is refused. -/
  | idle {act : Action} (h : ∀ q g, d.registry? q = some g → d.registryAfter q g act = g) :
      Effect d act d
  | found {scope : String} (hnew : d.scopes.get? scope = none) :
      Effect d (.openScope scope) (d.found scope)
  | dissolve {scope : String} {r : RegistryRef} (hr : d.scopes.get? scope = some r) :
      Effect d (.dropScope scope) (d.dissolve r scope)
  /-- The metric is there; what its name means may be set anew. -/
  | describe {r : RegistryRef} {g : Registry} {req : MetricRequest} {metadata : Metadata}
      {tags : List Tag} {a : Adapter} (hr : d.registry? r = some g)
      (hv : g.verdict d.settings metadata tags req = .reuse a) :
      Effect d (.register r req metadata tags) (d.describe r (g.effective metadata) req.kind)
  | enroll {r : RegistryRef} {g : Registry} {req : MetricRequest} {metadata : Metadata}
      {tags : List Tag} {id : MetricId} {value : MeterValue} (hr : d.registry? r = some g)
      (hv : g.verdict d.settings metadata tags req = .enroll id value) :
      Effect d (.register r req metadata tags)
        ((d.describe r (g.effective metadata) req.kind).enroll r id req.form
          ⟨g.meterId id, g.effective metadata, value⟩)
  | discard {r : RegistryRef} {g : Registry} {id : MetricId} (hr : d.registry? r = some g)
      (ha : (g.metrics.get? (g.normalize d.settings id)).isSome) :
      Effect d (.remove r id)
        (d.discard r (g.normalize d.settings id) (g.meterId (g.normalize d.settings id)))
  | markPlatform {r : RegistryRef} :
      Effect d (.markPlatform r) (d.modifyRegistry r fun g => { g with platformBound := true })
  | mapMember {r : RegistryRef} {kind : AnnotationKind} {member : Member} {id : MetricId} :
      Effect d (.mapMember r kind member id) (d.modifyRegistry r (mapMember kind member id))
  | write {a : Adapter} {u : Update} : Effect d (.write a u) (d.modifyStore (a.write u))
  | sample {samples : Samples} :
      Effect d (.sample samples) (d.modifyStore fun s => { s with samples })

/-- **What an action does**, in a coherent directory. -/
theorem effect (h : d.Coherent) (act : Action) : Effect d act (act.apply d) := by
  -- A registry that is not there is not one that is there.
  have hother : ∀ {r q : RegistryRef} {g : Registry}, d.registry? r = none →
      d.registry? q = some g → q ≠ r := by
    rintro r q g hr hq rfl
    exact nomatch hr.symm.trans hq
  cases act with
  | openScope scope =>
    show Effect d _ (d.openScope scope).2
    rw [openScope_eq h.toAligned]
    cases hs : d.scopes.get? scope with
    | some r => exact .idle fun _ _ _ => rfl
    | none => exact .found hs
  | dropScope scope =>
    show Effect d _ (d.dropScope scope).2
    rw [dropScope_eq h]
    cases hs : d.scopes.get? scope with
    | some r => exact .dissolve hs
    | none => exact .idle fun q g _ => if_neg (by rw [hs]; exact nofun)
  | register r req metadata tags =>
    show Effect d _ (d.request r metadata tags req).2
    cases hr : d.registry? r with
    | none =>
      rw [request_none hr]
      exact .idle fun q g hq => if_neg (hother hr hq)
    | some g =>
      rw [request_eq h hr]
      cases hv : g.verdict d.settings metadata tags req with
      | reuse a => exact .describe hr hv
      | enroll id value => exact .enroll hr hv
      | refuse e =>
        refine .idle fun q g' hq => ?_
        simp only [registryAfter]
        split
        · rename_i hqr
          rw [hqr, hr] at hq
          cases hq
          rw [hv]
        · rfl
  | remove r id =>
    show Effect d _ (d.remove r id).2
    cases hr : d.registry? r with
    | none =>
      unfold remove
      rw [hr]
      exact .idle fun q g hq => if_neg fun hc => hother hr hq hc.1
    | some g =>
      rw [remove_eq h hr]
      split
      · rename_i ha
        exact .discard hr ha
      · rename_i hnone
        refine .idle fun q g' hq => if_neg ?_
        rintro ⟨rfl, hsome⟩
        rw [hr] at hq
        cases hq
        exact hnone hsome
  | markPlatform r => exact .markPlatform
  | mapMember r kind member id => exact .mapMember
  | write a u => exact .write
  | sample samples => exact .sample

/-- **What becomes of a registry.** -/
theorem Effect.registry (he : Effect d act d') (hq : d.registry? q = some g) :
    d'.registry? q = some (d.registryAfter q g act) := by
  cases he with
  | idle hidle => rw [hidle q g hq, hq]
  | found hnew => exact registry?_found_of_registry _ hq
  | dissolve hr =>
    refine (modify_of_registry Registry.drop hq).trans ?_
    simp only [registryAfter, hr, Option.some.injEq, eq_comm]
  | @describe r g₀ req metadata tags a hr hv =>
    refine (modify_of_registry _ hq).trans ?_
    simp only [registryAfter]
    split
    · rename_i hqr
      rw [hqr, hr] at hq
      cases hq
      rw [hv]
      rfl
    · rfl
  | @enroll r g₀ req metadata tags id value hr hv =>
    have hdescribed : registry? (d.describe r (g₀.effective metadata) req.kind) q = some _ :=
      modify_of_registry _ hq
    refine (modify_of_registry _ hdescribed).trans ?_
    simp only [registryAfter]
    split
    · rename_i hqr
      rw [hqr, hr] at hq
      cases hq
      rw [hv]
      rfl
    · rfl
  | @discard r g₀ id hr ha =>
    refine (modify_of_registry _ hq).trans ?_
    simp only [registryAfter]
    by_cases hqr : q = r
    · rw [hqr, hr] at hq
      cases hq
      simp only [hqr, ha, and_self, if_true]
    · simp only [hqr, false_and, if_false]
  | markPlatform => exact modify_of_registry _ hq
  | mapMember => exact modify_of_registry _ hq
  | write => exact hq
  | sample => exact hq

/-- **Registries are made by opening scopes**, and come empty. -/
theorem Effect.registry_new (he : Effect d act d') (hq : d.registry? q = none)
    (hq' : d'.registry? q = some g') :
    ∃ scope, act = .openScope scope ∧ d.scopes.get? scope = none ∧ g' = Registry.new scope q := by
  have hmodify : ∀ {e : Directory} {r f}, e.registry? q = none →
      registry? (e.modifyRegistry r f) q = none := by
    intro e r f he
    rw [registry?_modifyRegistry, he]
    split <;> rfl
  cases he with
  | found hnew =>
    obtain ⟨rfl, rfl⟩ | hold := registry_of_found hq'
    · exact ⟨_, rfl, hnew, rfl⟩
    · exact nomatch hq.symm.trans hold
  | enroll hr hv => exact nomatch (hmodify (hmodify hq)).symm.trans hq'
  | dissolve | describe | discard | markPlatform | mapMember =>
    exact nomatch (hmodify hq).symm.trans hq'
  | idle | write | sample => exact nomatch hq.symm.trans hq'

/-- **No registry is lost**, and none comes back that was dropped. -/
theorem Coherent.registry_kept (h : d.Coherent) (hr : d.registry? r = some g) (acts : List Action) :
    ∃ g', registry? (Action.applyAll acts d) r = some g' ∧ g'.scope = g.scope ∧
      (g.dropped = true → g'.dropped = true) := by
  induction acts generalizing d g with
  | nil => exact ⟨g, hr, rfl, fun hdrop => hdrop⟩
  | cons act acts ih =>
    obtain ⟨g', hr', hscope, hdrop⟩ := ih (h.action act) ((effect h act).registry hr)
    exact ⟨g', hr', hscope.trans (same_registryAfter d r g act).1, fun hg =>
      hdrop (dropped_registryAfter hg act)⟩

/-! ## Settings and meters -/

theorem Effect.settings (he : Effect d act d') : d'.settings = d.settings := by
  cases he <;> rfl

theorem Effect.adapters (he : Effect d act d') : d.adapters ≤ d'.adapters := by
  cases he with
  | enroll => exact Nat.le_succ _
  | _ => exact Nat.le_refl _

/-- **Only writing changes a meter's value.** -/
theorem Effect.meter (he : Effect d act d') {m : MeterRef} {meter : Meter}
    (hm : d.store.meter? m = some meter) (hact : ∀ a u, act ≠ .write a u) :
    ∃ meter', d'.store.meter? m = some meter' ∧ meter'.value = meter.value := by
  classical
  have hdescribe : ∀ r metadata kind, ∃ meter',
      (d.describe r metadata kind).store.meter? m = some meter' ∧ meter'.value = meter.value := by
    intro r metadata kind
    have hrefreshed := MeterStore.meter?_refreshMetadata d.store r metadata m
    rw [hm, Option.map_some] at hrefreshed
    split at hrefreshed <;> exact ⟨_, hrefreshed, rfl⟩
  cases he with
  | describe => exact hdescribe _ _ _
  | @enroll r g req metadata =>
    obtain ⟨meter', hm', hvalue⟩ := hdescribe r (g.effective metadata) req.kind
    refine ⟨meter', (MeterStore.meter?_enter ..).trans ?_, hvalue⟩
    rw [if_neg (Nat.ne_of_lt (List.getElem?_eq_some_iff.mp hm').1), hm']
  | @write a u => exact absurd rfl (hact a u)
  | _ => exact ⟨meter, hm, rfl⟩

/-- A metric that comes in has a new meter, with the initial value of its kind. -/
theorem meter_enrolled (h : d.Coherent) (hr : d.registry? r = some g) {value : MeterValue}
    (hv : g.verdict d.settings metadata tags req = .enroll id value) :
    (d.request r metadata tags req).2.store.meter? d.store.meters.length =
      some ⟨g.meterId id, g.effective metadata, value⟩ := by
  rw [request_eq h hr, hv]
  refine (MeterStore.meter?_enter ..).trans (if_pos ?_)
  exact (MeterStore.length_meters_refreshMetadata ..).symm

/-- Writing through an adapter that has one meter. -/
theorem meter_write {m : MeterRef} (ha : a.Sole m) (u : Update) (k : MeterRef) :
    (d.modifyStore (a.write u)).store.meter? k =
      if k = m then (d.store.meter? k).map (Meter.update u) else d.store.meter? k := by
  show (a.write u d.store).meter? k = _
  rw [ha.write, MeterStore.meter?_modifyMeter]

/-! ## Histories -/

variable {settings : RegistrySettings} {platform : PlatformReadings}

@[simp]
theorem settings_reached (acts : List Action) :
    (reached settings platform acts).settings = settings := by
  induction acts using List.reverseRecOn with
  | nil => rfl
  | append_singleton acts act ih =>
    rw [reached_snoc, (effect (coherent_reached ..) act).settings, ih]

end Directory

end Telemetry
