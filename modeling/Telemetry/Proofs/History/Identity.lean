import Telemetry.Proofs.Directory.Refusals
import Telemetry.Proofs.History.Accounts

/-!
# Identity of a metric

What a caller spells as a name and tags stands for an `Identity`: the name, and the value of each
tag, where of a repeated key the last value counts, the scope's own tag does not count, and the
application's name takes the place of whatever value is given for it (specification, 3).

* `identities`: registration, lookup and removal go by the identity alone. As long as a metric is
  not removed, registering is answered with it, looking up finds it and removing removes it for
  exactly the spellings of its identity (`GoesBy`).

Registration and lookup make ids on different ways (`Registry.metricId`, `Registry.normalize`); both
end in the one normal id of the identity (`Registry.normalize_eq_iff`,
`Registry.identity_of_metricId`).
-/

namespace Telemetry

/-- What tells the metrics of a scope apart. -/
structure Identity where
  name : String
  value? : TagName → Option String

/-- The identity in a scope of a name and tag values. -/
def RegistrySettings.identity (s : RegistrySettings) (scope name : String)
    (value? : TagName → Option String) : Identity :=
  ⟨name, fun key =>
    if key = appKey ∧ s.appName.isSome then s.appName
    else if key = scopeKey ∧ value? key = some scope then none
    else value? key⟩

/-- Of a repeated key the last value counts. -/
def lastValue? (tags : List Tag) (key : TagName) : Option String :=
  ((tags.filter fun t => t.key = key).getLast?).map (·.value)

/-- The identity in a scope of a name and a tag list. -/
def RegistrySettings.identityOf (s : RegistrySettings) (scope name : String) (tags : List Tag) :
    Identity :=
  s.identity scope name (lastValue? tags)

/-- The identity in a scope of an id. -/
def RegistrySettings.identityOfId (s : RegistrySettings) (scope : String) (id : MetricId) :
    Identity :=
  s.identity scope id.name id.tags.get?

/-! ## Normal ids -/

namespace RegistrySettings

variable {s : RegistrySettings} {id id' : MetricId}

theorem identityOfId_of (s : RegistrySettings) (scope name : String) (tags : List Tag) :
    s.identityOfId scope (.of name tags) = s.identityOf scope name tags := by
  unfold identityOfId identityOf
  congr 1
  funext key
  exact Tags.get?_ofList tags key

/-- A normal id has the application tag, where there is an application. -/
theorem Normal.appName (h : s.Normal id) {app : String} (happ : s.appName = some app) :
    id.tags.get? appKey = some app := by
  have hid := h.app
  unfold withAppTag at hid
  rw [happ] at hid
  rw [← hid]
  exact (SortedMap.get?_insert ..).trans (if_pos rfl)

/-- **An identity has one normal id.** -/
theorem Normal.eq_of_identity (h : s.Normal id) (h' : s.Normal id') {scope : String}
    (heq : s.identityOfId scope id = s.identityOfId scope id') : id = id' := by
  obtain ⟨name, tags⟩ := id
  obtain ⟨name', tags'⟩ := id'
  unfold identityOfId identity at heq
  simp only [Identity.mk.injEq] at heq
  obtain ⟨rfl, hvalues⟩ := heq
  congr 1
  refine SortedMap.ext_get? fun key => ?_
  have hvalue := congrFun hvalues key
  by_cases happ : key = appKey ∧ s.appName.isSome
  · obtain ⟨rfl, happ⟩ := happ
    obtain ⟨app, happ⟩ := Option.isSome_iff_exists.mp happ
    exact (h.appName happ).trans (h'.appName happ).symm
  · by_cases hkey : key = scopeKey
    · subst hkey
      exact h.unscoped.trans h'.unscoped.symm
    · simpa only [if_neg happ, hkey, false_and, if_false] using hvalue

end RegistrySettings

namespace Registry

variable {g : Registry} {settings : RegistrySettings} {id id' : MetricId}

/-- Looking an id up does not change what it stands for. -/
theorem identity_normalize (g : Registry) (settings : RegistrySettings) (id : MetricId) :
    settings.identityOfId g.scope (g.normalize settings id) = settings.identityOfId g.scope id := by
  have hwith : ∀ id, settings.identityOfId g.scope (settings.withAppTag id) =
      settings.identityOfId g.scope id := by
    intro id
    unfold RegistrySettings.withAppTag
    cases happ : settings.appName with
    | none => rfl
    | some app =>
      unfold RegistrySettings.identityOfId RegistrySettings.identity
      simp only [Identity.mk.injEq, true_and]
      funext key
      rw [SortedMap.get?_insert, happ]
      by_cases hkey : key = appKey
      · simp [hkey]
      · simp [hkey]
  unfold normalize
  rw [hwith]
  split
  · rename_i hscope
    unfold RegistrySettings.identityOfId RegistrySettings.identity
    simp only [Identity.mk.injEq, true_and]
    funext key
    rw [SortedMap.get?_erase]
    by_cases hkey : key = scopeKey
    · subst hkey
      simp [hscope]
    · simp [hkey]
  · rfl

/-- An id with the tag of another scope is looked up under an id that no metric has. -/
theorem scope_normalize {value : String} (h : id.tags.get? scopeKey = some value)
    (hvalue : value ≠ g.scope) : (g.normalize settings id).tags.get? scopeKey = some value := by
  unfold normalize
  rw [if_neg (by rw [h]; exact fun he => hvalue (Option.some.inj he)),
    RegistrySettings.withAppTag_scope, h]

/-- **An id is looked up under the normal id of its identity.** -/
theorem normalize_eq_iff (h : settings.Normal id') :
    g.normalize settings id = id' ↔
      settings.identityOfId g.scope id = settings.identityOfId g.scope id' := by
  constructor
  · rintro rfl
    exact (identity_normalize g settings id).symm
  · intro heq
    refine RegistrySettings.Normal.eq_of_identity ?_ h
      ((identity_normalize g settings id).trans heq)
    unfold normalize
    refine RegistrySettings.normal_withAppTag ?_
    -- An identity of a normal id has no value for the scope.
    have hvalue := congrFun (congrArg Identity.value? heq) scopeKey
    simp only [RegistrySettings.identityOfId, RegistrySettings.identity, appKey_ne_scopeKey.symm,
      false_and, if_false, true_and, h.unscoped] at hvalue
    split
    · exact SortedMap.get?_erase_self _ _
    · rename_i hother
      rw [if_neg hother, if_neg nofun] at hvalue
      exact hvalue

/-- **A registration is stored under the normal id of its identity.** -/
theorem identity_of_metricId {name : String} {tags : List Tag}
    (h : g.metricId settings name tags = .ok id) :
    settings.identityOfId g.scope id = settings.identityOf g.scope name tags := by
  rw [← normalize_of_metricId h, identity_normalize, RegistrySettings.identityOfId_of]

end Registry

/-- Neither a removal from a registry nor a drop of its scope. -/
def Action.Spares (r : RegistryRef) (scope : String) : Action → Prop
  | .remove q _ => q ≠ r
  | .dropScope dropped => dropped ≠ scope
  | .openScope _ | .register .. | .markPlatform _ | .mapMember .. | .write .. | .sample _ => True

namespace Directory

variable {d : Directory} {r : RegistryRef} {g : Registry} {id : MetricId} {a : Adapter}
  {act : Action} {settings : RegistrySettings} {platform : PlatformReadings} {acts : List Action}

/-! ## Metrics that stay -/

/-- **Only removals and drops lose a metric.** -/
theorem Effect.spared {d' : Directory} (he : Effect d act d') (h : d.Coherent)
    (hr : d.registry? r = some g) (ha : g.metrics.get? id = some a) (hact : act.Spares r g.scope) :
    ∃ g', d'.registry? r = some g' ∧ g'.scope = g.scope ∧ g'.metrics.get? id = some a := by
  refine ⟨_, he.registry hr, (same_registryAfter d r g act).1, ?_⟩
  cases act with
  | register q req metadata tags =>
    simp only [registryAfter]
    split
    · split
      · exact ha
      · exact ha
      · rename_i id' value hv
        obtain ⟨-, -, hnew, -⟩ := Registry.verdict_enroll hv
        refine (SortedMap.get?_insert ..).trans ((if_neg ?_).trans ha)
        rintro rfl
        cases hnew.symm.trans ha
    · exact ha
  | remove q id' =>
    have hqr : r ≠ q := Ne.symm hact
    simpa only [registryAfter, hqr, false_and, if_false] using ha
  | dropScope scope =>
    have hother : d.scopes.get? scope ≠ some r := by
      intro hs
      exact hact (h.of_lookup hs hr).1.symm
    simpa only [registryAfter, hother, if_false] using ha
  | markPlatform | mapMember =>
    simp only [registryAfter]
    split <;> exact ha
  | openScope | write | sample => exact ha

theorem Coherent.spared (h : d.Coherent) {acts' : List Action} (hr : d.registry? r = some g)
    (ha : g.metrics.get? id = some a) (hacts : ∀ act ∈ acts', act.Spares r g.scope) :
    ∃ g', registry? (Action.applyAll acts' d) r = some g' ∧ g'.scope = g.scope ∧
      g'.metrics.get? id = some a := by
  induction acts' generalizing d g with
  | nil => exact ⟨g, hr, rfl, ha⟩
  | cons act acts' ih =>
    obtain ⟨g', hr', hscope, ha'⟩ :=
      (effect h act).spared h hr ha (hacts act (List.mem_cons_self ..))
    obtain ⟨g'', hr'', hscope', ha''⟩ := ih (h.action act) hr' ha' fun act' hact' =>
      hscope ▸ hacts act' (List.mem_cons_of_mem _ hact')
    exact ⟨g'', hr'', hscope'.trans hscope, ha''⟩

/-! ## Metrics by their identity -/

/-- The metric `a` of registry `r` goes by identity `n`: it is what exactly the spellings of `n`
name. -/
structure GoesBy (settings : RegistrySettings) (d : Directory) (r : RegistryRef) (scope : String)
    (a : Adapter) (n : Identity) : Prop where
  /-- A registration that succeeds is answered with the metric just when it spells its identity. -/
  registration : ∀ req metadata tags b, (d.request r metadata tags req).1 = .ok b →
    (b = a ↔ settings.identityOf scope metadata.name tags = n) ∧
      (b.serial = a.serial ↔ settings.identityOf scope metadata.name tags = n)
  lookup : ∀ id, d.metric? r id = some a ↔ settings.identityOfId scope id = n
  removal : ∀ id, ((d.remove r id).1 = true ∧ ¬ (d.remove r id).2.Stores r a) ↔
    settings.identityOfId scope id = n

/-- A registration that spells the identity of a metric that is there is answered with it. -/
theorem eq_of_identity (h : d.Coherent) (hr : d.registry? r = some g)
    (ha : g.metrics.get? a.id = some a) {req : MetricRequest} {metadata : Metadata}
    {tags : List Tag} {b : Adapter} (hok : (d.request r metadata tags req).1 = .ok b)
    (heq : d.settings.identityOf g.scope metadata.name tags =
      d.settings.identityOfId g.scope a.id) :
    b = a := by
  obtain ⟨_, _, hbacked⟩ := h.backed r g a.id a hr ha
  have hkey : ∀ id, g.metricId d.settings metadata.name tags = .ok id → id = a.id := fun id hid =>
    (Registry.metricId_ok hid).2.eq_of_identity hbacked.normal
      ((Registry.identity_of_metricId hid).trans heq)
  obtain ⟨g', hr', hv⟩ := request_ok h hok
  rw [hr] at hr'
  cases hr'
  obtain hv | ⟨id, value, hv, -⟩ := hv
  · obtain ⟨-, id, hid, hgot, -⟩ := Registry.verdict_reuse hv
    rw [hkey id hid, ha] at hgot
    exact (Option.some.inj hgot).symm
  · obtain ⟨-, hid, hnew, -⟩ := Registry.verdict_enroll hv
    rw [hkey id hid, ha] at hnew
    exact nomatch hnew

/-- A registration that is answered with a metric that is there spells its identity. -/
theorem identity_of_serial (hr : registry? (reached settings platform acts) r = some g)
    (ha : g.metrics.get? a.id = some a) {req : MetricRequest} {metadata : Metadata}
    {tags : List Tag} {b : Adapter}
    (hok : ((reached settings platform acts).request r metadata tags req).1 = .ok b)
    (heq : b.serial = a.serial) :
    settings.identityOf g.scope metadata.name tags = settings.identityOfId g.scope a.id := by
  have h := coherent_reached settings platform acts
  have hheld : Held settings platform acts r a := held_of_stores ⟨g, a.id, hr, ha⟩
  obtain ⟨g', hr', hv⟩ := request_ok h hok
  rw [hr] at hr'
  cases hr'
  obtain hv | ⟨id, value, hv, rfl⟩ := hv
  · rw [settings_reached] at hv
    obtain ⟨-, id, hid, hgot, -⟩ := Registry.verdict_reuse hv
    obtain ⟨-, rfl⟩ := held_inj (held_of_stores ⟨g, id, hr, hgot⟩) hheld (.inl heq)
    obtain ⟨_, _, hbacked⟩ := h.backed r g id b hr hgot
    rw [← Registry.identity_of_metricId hid, hbacked.stored]
  · have hnew : (reached settings platform acts).Enrolls (.register r req metadata tags) r _ :=
      ⟨g, req, metadata, tags, id, value, rfl, hr, hv, rfl⟩
    exact absurd heq (hnew.new hheld).1

/-- **A stored metric goes by the identity of its id.** -/
theorem goesBy_stored (hr : registry? (reached settings platform acts) r = some g)
    (ha : g.metrics.get? id = some a) :
    GoesBy settings (reached settings platform acts) r g.scope a
      (settings.identityOfId g.scope id) := by
  have h := coherent_reached settings platform acts
  have hs : (reached settings platform acts).settings = settings := settings_reached acts
  obtain ⟨_, _, hb⟩ := h.backed r g id a hr ha
  have hnormal := hb.normal
  rw [hs] at hnormal
  obtain rfl := hb.stored
  exact {
    registration := by
      intro req metadata tags b hok
      have hspelt := eq_of_identity h hr ha hok
      rw [hs] at hspelt
      have hserial := identity_of_serial hr ha hok
      exact ⟨⟨fun heq => hserial (congrArg _ heq), hspelt⟩, hserial, fun heq =>
        congrArg _ (hspelt heq)⟩
    lookup := by
      intro id
      rw [← Registry.normalize_eq_iff hnormal]
      unfold metric?
      rw [hr, Option.bind_some, hs]
      constructor
      · intro hget
        obtain ⟨_, _, hb'⟩ := h.backed r g _ a hr hget
        exact hb'.stored.symm
      · intro heq
        rw [heq, ha]
    removal := by
      intro id
      rw [stores_remove_iff h hr ha, hs, not_not, Registry.normalize_eq_iff hnormal]
      refine and_iff_right_of_imp fun heq => ?_
      rw [remove_eq h hr, hs, (Registry.normalize_eq_iff hnormal).mpr heq, ha]
      rfl }

/-! ## Identities -/

/-- How the registries of a directory tell metrics apart. -/
structure Identified (settings : RegistrySettings) (d : Directory) : Prop where
  /-- A metric goes by the identity under which it was registered until it is removed or its scope
  is dropped. -/
  registered : ∀ r g req metadata tags a acts', d.registry? r = some g →
    (d.request r metadata tags req).1 = .ok a → (∀ act ∈ acts', Action.Spares r g.scope act) →
    GoesBy settings (Action.applyAll acts' (d.request r metadata tags req).2) r g.scope a
      (settings.identityOf g.scope metadata.name tags)
  /-- An id with the tag of another scope names nothing. -/
  foreign : ∀ r g id value, d.registry? r = some g → id.tags.get? scopeKey = some value →
    value ≠ g.scope → d.metric? r id = none ∧ d.remove r id = (false, d)
  /-- Metrics are stored, and found, under their ids, which are normal. -/
  stored : ∀ r g id a, d.registry? r = some g → g.metrics.get? id = some a →
    id.tags.get? scopeKey = none ∧ g.normalize settings id = id ∧ a.id = id ∧
      d.metric? r a.id = some a

/-- **Identity decides**, in registrations, lookups and removals alike. -/
theorem identities (settings : RegistrySettings) (platform : PlatformReadings)
    (acts : List Action) :
    Identified settings (reached settings platform acts) := by
  have h := coherent_reached settings platform acts
  have hs : (reached settings platform acts).settings = settings := settings_reached acts
  exact {
    registered := by
      intro r g req metadata tags a acts' hr hok hspares
      obtain ⟨id, g', hid, hr', hscope, ha⟩ := stored_of_request h hr hok
      rw [hs] at hid
      have hafter : ((reached settings platform acts).request r metadata tags req).2 =
          reached settings platform (acts ++ [.register r req metadata tags]) :=
        (reached_snoc acts (.register r req metadata tags)).symm
      rw [hafter] at hr' ⊢
      obtain ⟨g'', hr'', hscope', ha'⟩ := (coherent_reached ..).spared hr' ha (hscope ▸ hspares)
      rw [← reached_append] at hr'' ⊢
      have hgoes := goesBy_stored hr'' ha'
      rwa [hscope'.trans hscope, Registry.identity_of_metricId hid] at hgoes
    foreign := by
      intro r g id value hr hvalue hother
      have hnone : g.metrics.get? (g.normalize settings id) = none := by
        by_contra hsome
        obtain ⟨a, ha⟩ := Option.ne_none_iff_exists'.mp hsome
        obtain ⟨_, _, hb⟩ := h.backed r g _ a hr ha
        exact nomatch hb.normal.unscoped.symm.trans (Registry.scope_normalize hvalue hother)
      constructor
      · unfold metric?
        rw [hr, Option.bind_some, hs, hnone]
      · rw [remove_eq h hr, hs, hnone]
        rfl
    stored := by
      intro r g id a hr ha
      obtain ⟨_, _, hb⟩ := h.backed r g id a hr ha
      have hnormal := hb.normal
      rw [hs] at hnormal
      obtain rfl := hb.stored
      exact ⟨hnormal.unscoped, Registry.normalize_of_normal hnormal, rfl,
        ((goesBy_stored hr ha).lookup a.id).mpr rfl⟩ }

/-- Neither the scope's own tag nor the value that is given for the application counts. -/
example :
    let d := reached ⟨∅, some "shop", {}, true⟩ default
      [.openScope "s", .register 0 .counter (.ofName "n") [⟨scopeKey, "s"⟩]]
    (d.metric? 0 ⟨"n", ∅⟩).isSome ∧
      (d.request 0 (.ofName "n") [⟨appKey, "other"⟩] .counter).1.toOption =
      d.metric? 0 ⟨"n", ∅⟩ := by
  decide +kernel

end Directory

end Telemetry
