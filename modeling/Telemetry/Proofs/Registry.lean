import Telemetry.Registry
import Telemetry.Proofs.Store

/-!
# Ids in a registry, and what is asked of it

A registry stores metrics under **normal** ids: without the scope's own tag and with the application
tag. `metricId` gives normal ids only, `normalize` leaves them as they are, and `meterId` tells them
apart (`meterId_inj`), also those of other scopes (`scope_meterId`).

A `MetricRequest` is what a caller can register under a name. What is made for it follows from the
settings alone, and so does whether it can be made (`RegistrySettings.Allows`); what a registry does
with a request is its `Registry.verdict`.
-/

namespace Telemetry

theorem appKey_ne_scopeKey : appKey ≠ scopeKey := by decide

namespace RegistrySettings

variable {s : RegistrySettings} {id : MetricId}

/-- The form of the ids under which metrics are stored. -/
structure Normal (s : RegistrySettings) (id : MetricId) : Prop where
  unscoped : id.tags.get? scopeKey = none
  app : s.withAppTag id = id

theorem withAppTag_name (s : RegistrySettings) (id : MetricId) :
    (s.withAppTag id).name = id.name := by
  unfold withAppTag
  cases s.appName <;> rfl

theorem withAppTag_scope (s : RegistrySettings) (id : MetricId) :
    (s.withAppTag id).tags.get? scopeKey = id.tags.get? scopeKey := by
  unfold withAppTag
  cases s.appName with
  | none => rfl
  | some app => exact (SortedMap.get?_insert ..).trans (if_neg appKey_ne_scopeKey.symm)

theorem withAppTag_withAppTag (s : RegistrySettings) (id : MetricId) :
    s.withAppTag (s.withAppTag id) = s.withAppTag id := by
  unfold withAppTag
  cases s.appName with
  | none => rfl
  | some app => simp only [SortedMap.insert_insert]

theorem normal_withAppTag (h : id.tags.get? scopeKey = none) : s.Normal (s.withAppTag id) :=
  ⟨by rw [withAppTag_scope, h], withAppTag_withAppTag s id⟩

end RegistrySettings

namespace Registry

variable {g g' : Registry} {settings : RegistrySettings} {id id' : MetricId}

/-- A registration is stored under the name and tags that it gives, without the scope's own tag,
which it may give, and with the application's. -/
theorem metricId_eq {name : String} {tags : List Tag}
    (hid : g.metricId settings name tags = .ok id) :
    (∀ value, (Tags.ofList tags).get? scopeKey = some value → value = g.scope) ∧
      id = settings.withAppTag ⟨name, (Tags.ofList tags).erase scopeKey⟩ := by
  unfold metricId at hid
  simp only at hid
  split at hid
  · rename_i value hvalue
    split at hid
    · rename_i hscope
      cases hid
      refine ⟨fun value' hvalue' => ?_, rfl⟩
      cases hvalue.symm.trans hvalue'
      exact hscope
    · cases hid
  · rename_i hnone
    cases hid
    constructor
    · intro value hvalue
      cases hnone.symm.trans hvalue
    · rw [SortedMap.erase_of_get?_none hnone]

theorem metricId_ok {name : String} {tags : List Tag} (h : g.metricId settings name tags = .ok id) :
    id.name = name ∧ settings.Normal id := by
  obtain ⟨-, rfl⟩ := metricId_eq h
  exact ⟨RegistrySettings.withAppTag_name _ _,
    RegistrySettings.normal_withAppTag (SortedMap.get?_erase_self _ _)⟩

/-- A tag list is refused only for the tag of another scope. -/
theorem metricId_error {name : String} {tags : List Tag} {e : MetricsError} :
    g.metricId settings name tags = .error e ↔
      ∃ value, (Tags.ofList tags).get? scopeKey = some value ∧ value ≠ g.scope ∧
        e = .reservedTag value g.scope := by
  unfold metricId
  simp only
  cases (Tags.ofList tags).get? scopeKey with
  | none => simp
  | some value =>
    by_cases hv : value = g.scope
    · simp [hv]
    · simp [hv, eq_comm]

/-- Registration and lookup find the same id for a name and tags. -/
theorem normalize_of_metricId {name : String} {tags : List Tag}
    (h : g.metricId settings name tags = .ok id) : g.normalize settings (.of name tags) = id := by
  unfold metricId at h
  unfold normalize MetricId.of
  simp only at h ⊢
  cases hscope : (Tags.ofList tags).get? scopeKey with
  | none =>
    rw [hscope] at h
    cases h
    rw [if_neg nofun]
  | some value =>
    rw [hscope] at h
    simp only at h
    split at h
    · rename_i hv
      cases h
      rw [if_pos (congrArg some hv)]
    · cases h

theorem normalize_of_normal (h : settings.Normal id) : g.normalize settings id = id := by
  unfold normalize
  rw [if_neg (by rw [h.unscoped]; exact nofun), h.app]

theorem scope_meterId (g : Registry) (id : MetricId) :
    (g.meterId id).tags.get? scopeKey = some g.scope := by
  unfold meterId withScopeTag
  rw [SortedMap.get?_insert, if_pos rfl]

/-- Normal ids have different meters. -/
theorem meterId_inj (h : id.tags.get? scopeKey = none) (h' : id'.tags.get? scopeKey = none)
    (heq : g.meterId id = g.meterId id') : id = id' := by
  obtain ⟨name, tags⟩ := id
  obtain ⟨name', tags'⟩ := id'
  unfold meterId withScopeTag at heq
  simp only [MetricId.mk.injEq] at heq
  obtain ⟨rfl, htags⟩ := heq
  have := congrArg (fun t : Tags => t.erase scopeKey) htags
  simp only [SortedMap.erase_insert h, SortedMap.erase_insert h'] at this
  rw [this]

theorem meterId_congr (h : g'.scope = g.scope) (id : MetricId) : g'.meterId id = g.meterId id := by
  unfold meterId withScopeTag
  rw [h]

/-- A registry's scope alone decides how ids are stored and looked up. -/
theorem metricId_congr (h : g.scope = g'.scope) (settings : RegistrySettings) (name : String)
    (tags : List Tag) : g.metricId settings name tags = g'.metricId settings name tags := by
  unfold metricId
  rw [h]

theorem normalize_congr (h : g.scope = g'.scope) (settings : RegistrySettings) (id : MetricId) :
    g.normalize settings id = g'.normalize settings id := by
  unfold normalize
  rw [h]

theorem withScopeTag_congr (h : g.scope = g'.scope) (tags : Tags) :
    g.withScopeTag tags = g'.withScopeTag tags := by
  unfold withScopeTag
  rw [h]

theorem hasName_iff {name : String} :
    g.hasName name = true ↔ ∃ id a, g.metrics.get? id = some a ∧ id.name = name := by
  unfold hasName
  simp only [List.any_eq_true, beq_iff_eq, SortedMap.mem_keys]
  constructor
  · rintro ⟨id, ⟨a, ha⟩, hn⟩
    exact ⟨id, a, ha, hn⟩
  · rintro ⟨id, a, ha, hn⟩
    exact ⟨id, ⟨a, ha⟩, hn⟩

/-- The metadata that a registration leaves its name with. -/
def effective (g : Registry) (metadata : Metadata) : Metadata :=
  match g.names.get? metadata.name with
  | none => metadata
  | some entry => entry.metadata.refine metadata

end Registry

/-! ## Requests -/

/-- What a caller can register under a name. -/
inductive MetricRequest where
  | counter
  | gauge (sampler : Sampler)
  | histogram
  | timer
deriving DecidableEq

namespace MetricRequest

def kind : MetricRequest → MetricKind
  | .counter => .counter
  | .gauge _ => .gauge
  | .histogram => .histogram
  | .timer => .timer

/-- What is made for the request: a distribution is made as the settings say of the name. -/
def spec (q : MetricRequest) (settings : RegistrySettings) (name : String) : MeterSpec :=
  match q with
  | .counter => .counter
  | .gauge sampler => .gauge sampler
  | .histogram => .histogram (settings.distribution.histogram name)
  | .timer => .timer (settings.distribution.timer name)

theorem kind_spec (q : MetricRequest) (settings : RegistrySettings) (name : String) :
    (q.spec settings name).kind = q.kind := by
  cases q <;> rfl

end MetricRequest

/-- A metric of a kind can be made under a name. -/
def RegistrySettings.Allows (s : RegistrySettings) (kind : MetricKind) (name : String) : Prop :=
  ∀ q : MetricRequest, q.kind = kind → ∃ value, (q.spec s name).initial = .ok value

theorem RegistrySettings.allows_of_initial {s : RegistrySettings} {name : String}
    {q : MetricRequest} {value : MeterValue} (h : (q.spec s name).initial = .ok value) :
    s.Allows q.kind name := by
  intro q' hq'
  cases q with
  | counter => cases q' <;> cases hq'; exact ⟨_, rfl⟩
  | gauge sampler => cases q' <;> cases hq'; exact ⟨_, rfl⟩
  | histogram => cases q' <;> cases hq'; exact ⟨value, h⟩
  | timer => cases q' <;> cases hq'; exact ⟨value, h⟩

/-! ## The verdict on a request -/

/-- What a registry does with a request. -/
inductive Verdict where
  | refuse (error : MetricsError)
  /-- The metric that is there. -/
  | reuse (a : Adapter)
  /-- A new metric under this id, with a meter that holds the value. -/
  | enroll (id : MetricId) (value : MeterValue)

/-- The verdict follows from the registry and the settings. -/
def Registry.verdict (g : Registry) (settings : RegistrySettings) (metadata : Metadata)
    (tags : List Tag) (q : MetricRequest) : Verdict :=
  if metadata.name = "" then .refuse .emptyName
  else
    match g.metricId settings metadata.name tags with
    | .error e => .refuse e
    | .ok id =>
      match g.metrics.get? id with
      | some a =>
        if a.kind = q.kind then .reuse a
        else .refuse (.kindConflict metadata.name a.kind q.kind)
      | none =>
        if g.dropped then .refuse (.scopeDropped g.scope)
        else
          match (g.names.get? metadata.name).filter fun entry => entry.kind ≠ q.kind with
          | some entry => .refuse (.kindConflict metadata.name entry.kind q.kind)
          | none =>
            match (q.spec settings metadata.name).initial with
            | .error fault => .refuse (.distribution metadata.name fault)
            | .ok value => .enroll id value

namespace Registry

variable {g : Registry} {settings : RegistrySettings} {metadata : Metadata} {tags : List Tag}
  {q : MetricRequest}

/-- What is used again has the name and the kind of the request. -/
theorem verdict_reuse {a : Adapter} (h : g.verdict settings metadata tags q = .reuse a) :
    metadata.name ≠ "" ∧ ∃ id, g.metricId settings metadata.name tags = .ok id ∧
      g.metrics.get? id = some a ∧ a.kind = q.kind := by
  unfold verdict at h
  split at h
  · cases h
  rename_i hname
  split at h
  · cases h
  rename_i id hid
  split at h
  · rename_i a' ha
    split at h
    · rename_i hk
      cases h
      exact ⟨hname, id, hid, ha, hk⟩
    · cases h
  · split at h
    · cases h
    split at h
    · cases h
    split at h
    · cases h
    · cases h

/-- What is enrolled is new, in a registry that was not dropped, and its name is not bound to
another kind. -/
theorem verdict_enroll {id : MetricId} {value : MeterValue}
    (h : g.verdict settings metadata tags q = .enroll id value) :
    metadata.name ≠ "" ∧ g.metricId settings metadata.name tags = .ok id ∧
      g.metrics.get? id = none ∧ g.dropped = false ∧
      (∀ e, g.names.get? metadata.name = some e → e.kind = q.kind) ∧
      (q.spec settings metadata.name).initial = .ok value := by
  unfold verdict at h
  split at h
  · cases h
  rename_i hname
  split at h
  · cases h
  rename_i id' hid
  split at h
  · split at h
    · cases h
    · cases h
  rename_i hnew
  split at h
  · cases h
  rename_i hdrop
  split at h
  · cases h
  rename_i hnone
  split at h
  · cases h
  rename_i value' hvalue
  cases h
  refine ⟨hname, hid, hnew, by simpa using hdrop, fun e he => ?_, hvalue⟩
  rw [he, Option.filter_some] at hnone
  by_cases hk : e.kind = q.kind
  · exact hk
  · rw [if_pos (by simpa using hk)] at hnone
    cases hnone

end Registry

end Telemetry
