import Telemetry.Proofs.Directory.Runs

/-!
# Which registrations are refused, and what they leave

`Refusal` lists the reasons for which a registration is refused, in the order in which they count:
the empty name, the tag of another scope, a dropped registry, a name of another kind, and a
distribution that cannot be laid out for a new identity (specification, 4.2).

* **`request_refused`**: after every run and through every registry, a registration fails with
  exactly the refusal that applies, succeeds when none does, and leaves the whole directory as it
  was when it fails.
-/

namespace Telemetry

/-- Of a repeated key the last value stays. -/
theorem Tags.get?_ofList (tags : List Tag) (k : TagName) :
    (Tags.ofList tags).get? k = ((tags.filter fun t => t.key = k).getLast?).map (·.value) :=
  (SortedMap.get?_ofList ..).trans (lastOf?_map ..)

/-- The last value that a tag list gives for the scope. -/
def givenScope? (tags : List Tag) : Option String :=
  ((tags.filter fun t => t.key = scopeKey).getLast?).map (·.value)

/-- Why a registry refuses a request, the first reason that applies. -/
inductive Refusal (settings : RegistrySettings) (g : Registry) (metadata : Metadata)
    (tags : List Tag) (q : MetricRequest) : MetricsError → Prop
  | emptyName (hname : metadata.name = "") : Refusal settings g metadata tags q .emptyName
  | reservedTag {value : String} (hname : metadata.name ≠ "")
      (htag : givenScope? tags = some value) (hvalue : value ≠ g.scope) :
      Refusal settings g metadata tags q (.reservedTag value g.scope)
  | scopeDropped (hname : metadata.name ≠ "")
      (htag : ∀ value, givenScope? tags = some value → value = g.scope) (hdrop : g.dropped = true) :
      Refusal settings g metadata tags q (.scopeDropped g.scope)
  /-- Some metric of the name, whatever its tags, is of another kind. -/
  | kindConflict {id : MetricId} {a : Adapter} (hname : metadata.name ≠ "")
      (htag : ∀ value, givenScope? tags = some value → value = g.scope) (hdrop : g.dropped = false)
      (ha : g.metrics.get? id = some a) (hid : id.name = metadata.name) (hkind : a.kind ≠ q.kind) :
      Refusal settings g metadata tags q (.kindConflict metadata.name a.kind q.kind)
  | distribution {id : MetricId} {fault : LayoutFault} (hname : metadata.name ≠ "")
      (htag : ∀ value, givenScope? tags = some value → value = g.scope) (hdrop : g.dropped = false)
      (hkind : ∀ id a, g.metrics.get? id = some a → id.name = metadata.name → a.kind = q.kind)
      (hid : g.metricId settings metadata.name tags = .ok id) (hnew : g.metrics.get? id = none)
      (hfault : (q.spec settings metadata.name).initial = .error fault) :
      Refusal settings g metadata tags q (.distribution metadata.name fault)

namespace Registry

variable {g : Registry} {settings : RegistrySettings} {metadata : Metadata} {tags : List Tag}
  {q : MetricRequest}

/-- An id is made only for tags that name no other scope. -/
theorem scope_of_metricId {name : String} {id : MetricId}
    (hid : g.metricId settings name tags = .ok id) {value : String}
    (hvalue : givenScope? tags = some value) : value = g.scope := by
  by_cases hne : value = g.scope
  · exact hne
  · have hrefused : g.metricId settings name tags = .error (.reservedTag value g.scope) :=
      metricId_error.mpr ⟨value, (Tags.get?_ofList ..).trans hvalue, hne, rfl⟩
    rw [hid] at hrefused
    cases hrefused

/-- At most one refusal applies. -/
theorem refusal_unique {e e' : MetricsError} (h : Refusal settings g metadata tags q e)
    (h' : Refusal settings g metadata tags q e')
    (hkinds : ∀ id a id' a', g.metrics.get? id = some a → g.metrics.get? id' = some a' →
      id.name = id'.name → a.kind = a'.kind) : e = e' := by
  cases h with
  | emptyName hname => cases h' <;> first | rfl | contradiction
  | reservedTag hname htag hvalue =>
    cases h' with
    | emptyName hname' => exact absurd hname' hname
    | reservedTag _ htag' _ =>
      rw [htag] at htag'
      cases htag'
      rfl
    | scopeDropped _ htag' _ => exact absurd (htag' _ htag) hvalue
    | kindConflict _ htag' _ _ _ _ => exact absurd (htag' _ htag) hvalue
    | distribution _ htag' _ _ _ _ _ => exact absurd (htag' _ htag) hvalue
  | scopeDropped hname htag hdrop =>
    cases h' with
    | emptyName hname' => exact absurd hname' hname
    | reservedTag _ htag' hvalue => exact absurd (htag _ htag') hvalue
    | scopeDropped _ _ _ => rfl
    | kindConflict _ _ hdrop' _ _ _ => rw [hdrop] at hdrop'; cases hdrop'
    | distribution _ _ hdrop' _ _ _ _ => rw [hdrop] at hdrop'; cases hdrop'
  | kindConflict hname htag hdrop ha hid hkind =>
    cases h' with
    | emptyName hname' => exact absurd hname' hname
    | reservedTag _ htag' hvalue => exact absurd (htag _ htag') hvalue
    | scopeDropped _ _ hdrop' => rw [hdrop] at hdrop'; cases hdrop'
    | kindConflict _ _ _ ha' hid' _ => rw [hkinds _ _ _ _ ha ha' (hid.trans hid'.symm)]
    | distribution _ _ _ hkind' _ _ _ => exact absurd (hkind' _ _ ha hid) hkind
  | distribution hname htag hdrop hkind hid hnew hfault =>
    cases h' with
    | emptyName hname' => exact absurd hname' hname
    | reservedTag _ htag' hvalue => exact absurd (htag _ htag') hvalue
    | scopeDropped _ _ hdrop' => rw [hdrop] at hdrop'; cases hdrop'
    | kindConflict _ _ _ ha' hid' hkind' => exact absurd (hkind _ _ ha' hid') hkind'
    | distribution _ _ _ _ _ _ hfault' =>
      rw [hfault] at hfault'
      cases hfault'
      rfl

end Registry

namespace Directory

variable {d : Directory} {r : RegistryRef} {g : Registry}

/-- Metrics of one name are of one kind. -/
theorem Linked.kind_of_name (h : d.Linked) (hr : d.registry? r = some g) {id id' : MetricId}
    {a a' : Adapter} (ha : g.metrics.get? id = some a) (ha' : g.metrics.get? id' = some a')
    (hname : id.name = id'.name) : a.kind = a'.kind := by
  obtain ⟨_, _, hb⟩ := h.backed r g id a hr ha
  obtain ⟨_, _, hb'⟩ := h.backed r g id' a' hr ha'
  have hentry := hb.name
  rw [hname, hb'.name] at hentry
  exact (congrArg NameEntry.kind (Option.some.inj hentry)).symm

/-- What a registry refuses is a refusal. -/
theorem refusal_of_verdict (h : d.Coherent) (hr : d.registry? r = some g) {metadata : Metadata}
    {tags : List Tag} {q : MetricRequest} {e : MetricsError}
    (hv : g.verdict d.settings metadata tags q = .refuse e) :
    Refusal d.settings g metadata tags q e := by
  unfold Registry.verdict at hv
  split at hv
  · rename_i hname
    cases hv
    exact .emptyName hname
  rename_i hname
  split at hv
  · rename_i e' hid
    cases hv
    obtain ⟨value, hvalue, hne, rfl⟩ := Registry.metricId_error.mp hid
    rw [Tags.get?_ofList] at hvalue
    exact .reservedTag hname hvalue hne
  rename_i id hid
  have htag : ∀ value, givenScope? tags = some value → value = g.scope :=
    fun _ hvalue => Registry.scope_of_metricId hid hvalue
  split at hv
  · rename_i a ha
    split at hv
    · cases hv
    · rename_i hkind
      cases hv
      exact .kindConflict hname htag (h.not_dropped hr ha) ha (Registry.metricId_ok hid).1 hkind
  rename_i hnew
  split at hv
  · rename_i hdrop
    cases hv
    exact .scopeDropped hname htag hdrop
  rename_i hdrop
  rw [Bool.not_eq_true] at hdrop
  split at hv
  · rename_i entry hentry
    cases hv
    obtain ⟨hentry, hkind⟩ := Option.filter_eq_some_iff.mp hentry
    obtain ⟨id', a, ha, hidname⟩ := h.names_used r g _ entry hr hentry
    obtain ⟨_, _, hb⟩ := h.backed r g id' a hr ha
    have hsame := hb.name
    rw [hidname, hentry] at hsame
    have hk : entry.kind = a.kind := congrArg NameEntry.kind (Option.some.inj hsame)
    rw [hk] at hkind ⊢
    exact .kindConflict hname htag hdrop ha hidname (by simpa using hkind)
  rename_i hnone
  split at hv
  · rename_i fault hfault
    cases hv
    refine .distribution hname htag hdrop (fun id' a ha hidname => ?_) hid hnew hfault
    obtain ⟨_, _, hb⟩ := h.backed r g id' a hr ha
    have hentry := hb.name
    rw [hidname] at hentry
    rw [hentry, Option.filter_some] at hnone
    by_cases hk : a.kind = q.kind
    · exact hk
    · rw [if_pos (by simpa using hk)] at hnone
      cases hnone
  · cases hv

/-- Where a refusal applies the registry refuses. -/
theorem verdict_of_refusal (h : d.Coherent) (hr : d.registry? r = some g) {metadata : Metadata}
    {tags : List Tag} {q : MetricRequest} {e : MetricsError}
    (he : Refusal d.settings g metadata tags q e) :
    g.verdict d.settings metadata tags q = .refuse e := by
  have htaken : ¬ Refusal d.settings g metadata tags q e ∨
      ∃ e', g.verdict d.settings metadata tags q = .refuse e' := by
    cases hv : g.verdict d.settings metadata tags q with
    | refuse e' => exact .inr ⟨e', rfl⟩
    | reuse a =>
      obtain ⟨hname, id, hid, ha, hk⟩ := Registry.verdict_reuse hv
      have hidname := (Registry.metricId_ok hid).1
      refine .inl fun he => ?_
      cases he with
      | emptyName h' => exact hname h'
      | reservedTag _ htag hne => exact hne (Registry.scope_of_metricId hid htag)
      | scopeDropped _ _ hdrop =>
        rw [h.not_dropped hr ha] at hdrop
        cases hdrop
      | kindConflict _ _ _ ha' hid' hne =>
        exact hne ((h.kind_of_name hr ha' ha (hid'.trans hidname.symm)).trans hk)
      | distribution _ _ _ _ hid' hnew _ =>
        rw [hid] at hid'
        cases hid'
        rw [ha] at hnew
        cases hnew
    | enroll id value =>
      obtain ⟨hname, hid, -, hdrop, hkind, hvalue⟩ := Registry.verdict_enroll hv
      refine .inl fun he => ?_
      cases he with
      | emptyName h' => exact hname h'
      | reservedTag _ htag hne => exact hne (Registry.scope_of_metricId hid htag)
      | scopeDropped _ _ hdrop' =>
        rw [hdrop] at hdrop'
        cases hdrop'
      | kindConflict _ _ _ ha hid' hne =>
        obtain ⟨_, _, hb⟩ := h.backed r g _ _ hr ha
        exact hne (hkind _ (hid' ▸ hb.name))
      | distribution _ _ _ _ _ _ hfault =>
        rw [hvalue] at hfault
        cases hfault
  obtain hnot | ⟨e', hv⟩ := htaken
  · exact absurd he hnot
  · rw [hv, Registry.refusal_unique he (refusal_of_verdict h hr hv) fun _ _ _ _ ha ha' hname =>
      h.kind_of_name hr ha ha' hname]

theorem request_error_iff (h : d.Coherent) (hr : d.registry? r = some g) {metadata : Metadata}
    {tags : List Tag} {q : MetricRequest} {e : MetricsError} :
    (d.request r metadata tags q).1 = .error e ↔ Refusal d.settings g metadata tags q e := by
  have hiff : (d.request r metadata tags q).1 = .error e ↔
      g.verdict d.settings metadata tags q = .refuse e := by
    rw [request_eq h hr]
    cases g.verdict d.settings metadata tags q <;> simp [settle]
  exact hiff.trans ⟨refusal_of_verdict h hr, verdict_of_refusal h hr⟩

/-- A registration that fails changes nothing. -/
theorem request_of_error (h : d.Coherent) (hr : d.registry? r = some g) {metadata : Metadata}
    {tags : List Tag} {q : MetricRequest} {e : MetricsError}
    (he : (d.request r metadata tags q).1 = .error e) : (d.request r metadata tags q).2 = d := by
  rw [request_eq h hr] at he ⊢
  cases hv : g.verdict d.settings metadata tags q with
  | refuse e' => rfl
  | reuse a =>
    rw [hv] at he
    cases he
  | enroll id value =>
    rw [hv] at he
    cases he

/-- **Registrations fail exactly when a refusal applies, and without an effect.** After every run
and through every registry, current or dropped, whatever the kind, the metadata and the tags. -/
theorem request_refused (settings : RegistrySettings) (platform : PlatformReadings)
    (ops : List Operation) (r : RegistryRef) (g : Registry)
    (hr : registry? (afterRun settings platform ops) r = some g) (metadata : Metadata)
    (tags : List Tag) (q : MetricRequest) :
    let d := afterRun settings platform ops
    let answer := d.request r metadata tags q
    (∀ e, answer.1 = .error e ↔ Refusal d.settings g metadata tags q e) ∧
      ((∃ a, answer.1 = .ok a) ↔ ∀ e, ¬ Refusal d.settings g metadata tags q e) ∧
      ∀ e, answer.1 = .error e → answer.2 = d := by
  intro d answer
  have h : d.Coherent := coherent_afterRun settings platform ops
  have hiff : ∀ e, answer.1 = .error e ↔ Refusal d.settings g metadata tags q e :=
    fun e => request_error_iff h hr
  refine ⟨hiff, ?_, fun e he => request_of_error h hr he⟩
  constructor
  · rintro ⟨a, ha⟩ e he
    rw [(hiff e).mpr he] at ha
    cases ha
  · intro hnone
    cases ha : answer.1 with
    | ok a => exact ⟨a, rfl⟩
    | error e => exact absurd ((hiff e).mp ha) (hnone e)

/-- A histogram is refused where a counter of the name was registered. -/
theorem request_refused_conflict :
    let d := afterRun ⟨∅, none, {}, true⟩ default
      [.openScope "s", .register 0 .counter ⟨"n", none, none⟩ []]
    d.request 0 ⟨"n", none, none⟩ [] .histogram =
      (.error (.kindConflict "n" .counter .histogram), d) := by
  intro d
  obtain ⟨g, a, hr, hdrop, ha, hkind⟩ : ∃ g a, d.registry? 0 = some g ∧ g.dropped = false ∧
      g.metrics.get? ⟨"n", ∅⟩ = some a ∧ a.kind = .counter := ⟨_, _, rfl, rfl, rfl, rfl⟩
  obtain ⟨hiff, -, hsame⟩ := request_refused ⟨∅, none, {}, true⟩ default
    [.openScope "s", .register 0 .counter ⟨"n", none, none⟩ []] 0 g hr ⟨"n", none, none⟩ []
    .histogram
  have hrefused := (hiff _).mpr
    (.kindConflict (by decide) (fun _ h => by cases h) hdrop ha rfl (by rw [hkind]; decide))
  rw [hkind] at hrefused
  exact Prod.ext hrefused (hsame _ hrefused)

end Directory

end Telemetry
