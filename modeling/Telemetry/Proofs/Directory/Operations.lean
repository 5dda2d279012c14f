import Telemetry.Proofs.Directory.Changes
import Telemetry.Proofs.Outcomes

/-!
# Operations make changes inside one scope

For every operation of a directory that is addressed to a scope: what it does is a sequence of
changes inside that scope (`Changes`), whether it succeeds or fails. An operation on a registry is
addressed to the registry's scope, be the registry current or dropped; one on a member's metrics to
the scopes of the annotations.
-/

namespace Telemetry

/-- What an annotation of the kind registers. -/
def AnnotationKind.request : AnnotationKind → MetricRequest
  | .counted => .counter
  | .timed => .timer

namespace Adapter

/-- The adapter captured the meter, and its composite shows no other one. -/
def Sole (a : Adapter) (m : MeterRef) : Prop := a.meter = some m ∧ a.composite.live = [m]

/-- An adapter that has one meter only adds to that one. -/
theorem Sole.increment {a : Adapter} {m : MeterRef} (h : a.Sole m) (n : UInt64) (s : MeterStore) :
    a.increment n s = s.modifyMeter m (Meter.increment n) := by
  unfold Adapter.increment
  rw [h.1]

theorem Sole.record {a : Adapter} {m : MeterRef} (h : a.Sole m) (raw : Nat) (s : MeterStore) :
    a.record raw s = s.modifyMeter m (Meter.record raw) := by
  unfold Adapter.record MeterStore.modifyLive
  rw [h.1, h.2]
  split
  · rename_i m' hm'
    rw [Option.filter_eq_some_iff] at hm'
    cases hm'.1
    rfl
  · rfl

end Adapter

namespace Directory

/-- The number is that of a registry of the scope, current or dropped. -/
def HasRegistry (d : Directory) (r : RegistryRef) (scope : String) : Prop :=
  ∃ g, d.registry? r = some g ∧ g.scope = scope

variable {d d' : Directory} {r : RegistryRef} {g : Registry} {scope : String}

theorem HasRegistry.changes {other : String} (hr : d.HasRegistry r scope) (h : d.Coherent)
    (hc : Changes other d d') : d'.HasRegistry r scope := by
  obtain ⟨g, hr, rfl⟩ := hr
  exact (hc.frame h).registry r g hr

/-! ## Registration and removal -/

theorem changes_request (h : d.Coherent) (hr : d.HasRegistry r scope) (metadata : Metadata)
    (tags : List Tag) (q : MetricRequest) : Changes scope d (d.request r metadata tags q).2 := by
  obtain ⟨g, hr, rfl⟩ := hr
  have hname := effective_name h.toLinked hr metadata
  rw [request_eq h hr]
  cases hv : g.verdict d.settings metadata tags q with
  | refuse e => exact .refl d
  | reuse a =>
    obtain ⟨-, id, hid, ha, hk⟩ := Registry.verdict_reuse hv
    obtain ⟨_, _, hb⟩ := h.backed r g id a hr ha
    have hidname := (Registry.metricId_ok hid).1
    refine .describe hr rfl ha (hidname.trans hname.symm) fun e he => ?_
    have hentry := hb.name
    rw [hidname, ← hname, he] at hentry
    rw [Option.some.inj hentry, hk]
  | enroll id value =>
    obtain ⟨-, hid, hnew, hdrop, hkind, hvalue⟩ := Registry.verdict_enroll hv
    obtain ⟨hidname, hnormal⟩ := Registry.metricId_ok hid
    rw [← hname] at hidname hkind hvalue
    exact .enroll hr rfl hdrop hnormal hidname hnew hkind hvalue

theorem changes_remove (h : d.Coherent) (hr : d.HasRegistry r scope) (id : MetricId) :
    Changes scope d (d.remove r id).2 := by
  obtain ⟨g, hr, rfl⟩ := hr
  rw [remove_eq h hr]
  split
  · rename_i hsome
    obtain ⟨a, ha⟩ := Option.isSome_iff_exists.mp hsome
    exact .discard hr rfl ha
  · exact .refl d

theorem changes_removeEach (h : d.Coherent) (hr : d.HasRegistry r scope) (ids : List MetricId) :
    Changes scope d (removeEach r ids d).2 := by
  induction ids generalizing d with
  | nil => exact .refl d
  | cons id ids ih =>
    have hc := changes_remove h hr id
    exact hc.trans (ih (hc.coherent h) (hr.changes h hc))

theorem changes_removeMatching (h : d.Coherent) (hr : d.HasRegistry r scope)
    (p : MetricId → Adapter → Bool) : Changes scope d (d.removeMatching r p).2 := by
  unfold removeMatching
  split
  · exact .refl d
  · exact changes_removeEach h hr _

/-! ## Scopes -/

theorem changes_openScope (h : d.Coherent) (scope : String) :
    Changes scope d (d.openScope scope).2 := by
  rw [openScope_eq h.toAligned]
  cases hs : d.scopes.get? scope with
  | some r => exact .refl d
  | none => exact .found hs

/-- The registry of an opened scope is one of the scope. -/
theorem hasRegistry_openScope (h : d.Coherent) (scope : String) :
    (d.openScope scope).2.HasRegistry (d.openScope scope).1 scope := by
  rw [openScope_eq h.toAligned]
  cases hs : d.scopes.get? scope with
  | some r =>
    obtain ⟨g, hr, hscope, -⟩ := (h.current scope r).mp hs
    exact ⟨g, hr, hscope⟩
  | none => exact ⟨_, (registry?_found ..).trans (if_pos rfl), rfl⟩

theorem changes_registerGauges (h : d.Coherent) (hr : d.HasRegistry r scope)
    (gauges : List (Metadata × PlatformFigure)) :
    Changes scope d (registerGauges r gauges d) := by
  induction gauges generalizing d with
  | nil => exact .refl d
  | cons gauge gauges ih =>
    obtain ⟨metadata, figure⟩ := gauge
    have hc : Changes scope d (d.gauge r metadata [] (.platform figure)).2 :=
      changes_request h hr metadata [] (.gauge (.platform figure))
    unfold registerGauges
    cases hg : d.gauge r metadata [] (.platform figure) with
    | mk answer d' =>
      rw [hg] at hc
      cases answer with
      | error e => exact hc
      | ok a => exact hc.trans (ih (hc.coherent h) (hr.changes h hc))

theorem changes_bindPlatform (h : d.Coherent) (hr : d.HasRegistry r scope) :
    Changes scope d (d.bindPlatform r) := by
  unfold bindPlatform
  split
  · exact .refl d
  split
  · exact .refl d
  obtain ⟨g, hg, hscope⟩ := hr
  have hc : Changes scope d (d.modifyRegistry r fun g => { g with platformBound := true }) :=
    .mark hg hscope fun _ => rfl
  exact hc.trans
    (changes_registerGauges (hc.coherent h) (HasRegistry.changes ⟨g, hg, hscope⟩ h hc) _)

theorem changes_getOrCreate (h : d.Coherent) (scope : String) :
    Changes scope d (d.getOrCreate scope).2 := by
  have hc := changes_openScope h scope
  unfold getOrCreate
  simp only
  split
  · exact hc.trans (changes_bindPlatform (hc.coherent h) (hasRegistry_openScope h scope))
  · exact hc

theorem hasRegistry_getOrCreate (h : d.Coherent) (scope : String) :
    (d.getOrCreate scope).2.HasRegistry (d.getOrCreate scope).1 scope := by
  have hc := changes_openScope h scope
  have hr := hasRegistry_openScope h scope
  unfold getOrCreate
  simp only
  split
  · exact hr.changes (hc.coherent h) (changes_bindPlatform (hc.coherent h) hr)
  · exact hr

theorem changes_dropScope (h : d.Coherent) (scope : String) :
    Changes scope d (d.dropScope scope).2 := by
  rw [dropScope_eq h]
  cases hs : d.scopes.get? scope with
  | none => exact .refl d
  | some r =>
    obtain ⟨g, hr, hscope, hdrop⟩ := (h.current scope r).mp hs
    exact .dissolve hr hscope hdrop

theorem Coherent.dropAll (h : d.Coherent) : d.dropAll.Coherent := by
  unfold Directory.dropAll
  generalize d.scopeNames = scopes
  induction scopes generalizing d with
  | nil => exact h
  | cons scope scopes ih => exact ih ((changes_dropScope h scope).coherent h)

theorem scopes_dropScope (h : d.Coherent) (scope : String) :
    (d.dropScope scope).2.scopes = d.scopes.erase scope := by
  rw [dropScope_eq h]
  cases hs : d.scopes.get? scope with
  | none => exact (SortedMap.erase_of_get?_none hs).symm
  | some r => rfl

/-- Scopes that were dropped, or did not exist, do not exist after further drops. -/
theorem lookup?_dropEach (h : d.Coherent) {scopes : List String}
    (hscope : scope ∈ scopes ∨ d.lookup? scope = none) :
    lookup? (scopes.foldl (fun d scope => (d.dropScope scope).2) d) scope = none := by
  induction scopes generalizing d with
  | nil => exact hscope.resolve_left nofun
  | cons u scopes ih =>
    refine ih ((changes_dropScope h u).coherent h) ?_
    by_cases hmem : scope ∈ scopes
    · exact .inl hmem
    · refine .inr ?_
      unfold lookup? at hscope ⊢
      rw [scopes_dropScope h, SortedMap.get?_erase]
      split
      · rfl
      · rename_i hne
        exact hscope.resolve_left fun hscope => (List.mem_cons.mp hscope).elim hne hmem

/-- **No scope exists once all were dropped.** -/
theorem scopeNames_dropAll (h : d.Coherent) : d.dropAll.scopeNames = [] := by
  refine List.eq_nil_iff_forall_not_mem.mpr fun scope hmem => ?_
  obtain ⟨r, hr⟩ := SortedMap.mem_keys.mp hmem
  have hnone : d.dropAll.lookup? scope = none := by
    refine lookup?_dropEach h ?_
    cases hs : d.lookup? scope with
    | none => exact .inr rfl
    | some r => exact .inl (SortedMap.mem_keys.mpr ⟨r, hs⟩)
  exact nomatch hr.symm.trans hnone

/-! ## Members -/

/-- The mappings with one more id of a member. -/
def mapMember (kind : AnnotationKind) (member : Member) (id : MetricId) (g : Registry) : Registry :=
  { g with mappings := match kind with
    | .counted => g.mappings.addCounter member id
    | .timed => g.mappings.addTimer member id }

theorem registerAnnotation_eq (d : Directory) (member : Member) (a : MetricAnnotation) :
    d.registerAnnotation member a =
      match a.parseTags with
      | .error e => (.error e, (d.getOrCreate a.scope).2)
      | .ok tags =>
        let made := (d.getOrCreate a.scope).2.request (d.getOrCreate a.scope).1
          (a.metadata member) tags a.kind.request
        match made.1 with
        | .error e => (.error e, made.2)
        | .ok adapter => (.ok adapter.id,
            made.2.modifyRegistry (d.getOrCreate a.scope).1
              (mapMember a.kind member adapter.id)) := by
  unfold registerAnnotation mapMember
  cases a.parseTags with
  | error e => rfl
  | ok tags => cases a.kind <;> rfl

theorem changes_registerAnnotation (h : d.Coherent) (member : Member) (a : MetricAnnotation) :
    Changes a.scope d (d.registerAnnotation member a).2 := by
  have hc := changes_getOrCreate h a.scope
  have hr := hasRegistry_getOrCreate h a.scope
  rw [registerAnnotation_eq]
  cases a.parseTags with
  | error e => exact hc
  | ok tags =>
    have hc' := changes_request (hc.coherent h) hr (a.metadata member) tags a.kind.request
    obtain ⟨g, hg, hscope⟩ := hr.changes (hc.coherent h) hc'
    simp only
    split
    · exact hc.trans hc'
    · exact (hc.trans hc').trans (.mark hg hscope fun _ => rfl)

/-- Registering the metrics of a member changes the scopes of its annotations. -/
theorem changes_registerMember (h : d.Coherent) (member : Member)
    {annotations : List MetricAnnotation} (hscope : ∀ a ∈ annotations, a.scope = scope) :
    Changes scope d (registerMember member annotations d).2 := by
  induction annotations generalizing d with
  | nil => exact .refl d
  | cons a annotations ih =>
    have hc := changes_registerAnnotation h member a
    rw [hscope a List.mem_cons_self] at hc
    unfold registerMember
    split
    · rename_i e d' heq
      rw [heq] at hc
      exact hc
    · rename_i id d' heq
      rw [heq] at hc
      have hrest := ih (hc.coherent h) fun b hb => hscope b (List.mem_cons_of_mem a hb)
      split
      · rename_i e d'' heq'
        rw [heq'] at hrest
        exact hc.trans hrest
      · rename_i ids d'' heq'
        rw [heq'] at hrest
        exact hc.trans hrest

theorem Coherent.registerMember (h : d.Coherent) (member : Member)
    (annotations : List MetricAnnotation) :
    (Directory.registerMember member annotations d).2.Coherent := by
  induction annotations generalizing d with
  | nil => exact h
  | cons a annotations ih =>
    have hc := changes_registerAnnotation h member a
    have ha := hc.coherent h
    unfold Directory.registerMember
    split
    · rename_i e d' heq
      rw [heq] at ha
      exact ha
    · rename_i id d' heq
      rw [heq] at ha
      have hrest := ih ha
      split
      · rename_i e d'' heq'
        rw [heq'] at hrest
        exact hrest
      · rename_i ids d'' heq'
        rw [heq'] at hrest
        exact hrest

/-! ## Interception -/

/-- What is resolved for a member is stored in the registry. -/
theorem resolveMapped_stored {kind : AnnotationKind} {member : Member} {adapters : List Adapter}
    (hr : d.registry? r = some g) (hok : d.resolveMapped r kind member = .ok adapters) :
    ∀ a ∈ adapters, ∃ id, g.metrics.get? id = some a ∧ a.kind = kind.metric := by
  intro a ha
  unfold resolveMapped at hok
  split at hok
  · cases hok
  · obtain ⟨id, -, hid⟩ := mem_of_mapM hok ha
    split at hid
    · rename_i a' hm
      cases hid
      unfold metricOfKind? metric? at hm
      rw [hr, Option.bind_some, Option.filter_eq_some_iff] at hm
      exact ⟨_, hm.1, by simpa using hm.2⟩
    · cases hid

/-- The adapter's only meter is one of the scope. -/
def Owns (d : Directory) (scope : String) (a : Adapter) : Prop :=
  ∃ m meter, a.Sole m ∧ d.store.meter? m = some meter ∧ meter.id.tags.get? scopeKey = some scope

/-- The metrics that a registry stores have meters of its scope. -/
theorem Linked.owns (h : d.Linked) (hr : d.registry? r = some g) {id : MetricId} {a : Adapter}
    (ha : g.metrics.get? id = some a) : d.Owns g.scope a := by
  obtain ⟨m, meter, hb⟩ := h.backed r g id a hr ha
  exact ⟨m, meter, ⟨hb.captured, hb.live⟩, hb.present, by rw [hb.meter_id, Registry.scope_meterId]⟩

theorem Owns.changes {other : String} {a : Adapter} (ha : d.Owns scope a) (h : d.Coherent)
    (hc : Changes other d d') : d'.Owns scope a := by
  obtain ⟨m, meter, hsole, hm, htag⟩ := ha
  obtain ⟨meter', hm', hid, -⟩ := (hc.frame h).meter m meter hm
  exact ⟨m, meter', hsole, hm', hid ▸ htag⟩

/-- What a registration is answered with has a meter of the scope. -/
theorem owns_request (h : d.Coherent) (hr : d.HasRegistry r scope) {metadata : Metadata}
    {tags : List Tag} {q : MetricRequest} {a : Adapter}
    (hok : (d.request r metadata tags q).1 = .ok a) :
    (d.request r metadata tags q).2.Owns scope a := by
  have hc := changes_request h hr metadata tags q
  obtain ⟨g, hr, rfl⟩ := hr
  rw [request_eq h hr] at hok hc ⊢
  cases hv : g.verdict d.settings metadata tags q with
  | refuse e =>
    rw [hv] at hok
    cases hok
  | reuse b =>
    rw [hv] at hok hc
    cases hok
    obtain ⟨-, id, -, ha, -⟩ := Registry.verdict_reuse hv
    exact (h.owns hr ha).changes h hc
  | enroll id value =>
    rw [hv] at hok hc
    cases hok
    have hdescribed : registry? (d.describe r (g.effective metadata) q.kind) r = some _ :=
      modify_of_registry _ hr
    rw [if_pos rfl] at hdescribed
    have henrolled : registry? ((d.describe r (g.effective metadata) q.kind).enroll r id q.form
        ⟨g.meterId id, g.effective metadata, value⟩) r = some _ :=
      modify_of_registry _ hdescribed
    rw [if_pos rfl] at henrolled
    exact (hc.coherent h).owns henrolled ((SortedMap.get?_insert ..).trans (if_pos rfl))

/-- Writing to a meter of the scope. -/
theorem changes_modifyMeter {m : MeterRef} {meter : Meter} {f : Meter → Meter}
    (hm : d.store.meter? m = some meter) (htag : meter.id.tags.get? scopeKey = some scope)
    (hf : ∀ m, (f m).id = m.id ∧ (f m).metadata = m.metadata ∧ (f m).kind = m.kind) :
    Changes scope d (d.modifyStore fun s => s.modifyMeter m f) := by
  refine .write (.modifyMeter hf d.store m) rfl fun k meter' hk hne => ?_
  rw [MeterStore.meter?_modifyMeter, if_neg, hk]
  rintro rfl
  rw [hm] at hk
  cases hk
  exact hne htag

theorem changes_increment {a : Adapter} (ha : d.Owns scope a) (n : UInt64) :
    Changes scope d (d.modifyStore (a.increment n)) := by
  obtain ⟨m, meter, hsole, hm, htag⟩ := ha
  rw [funext (hsole.increment n)]
  exact changes_modifyMeter hm htag (Meter.increment_same n)

theorem changes_record {a : Adapter} (ha : d.Owns scope a) (raw : Nat) :
    Changes scope d (d.modifyStore (a.record raw)) := by
  obtain ⟨m, meter, hsole, hm, htag⟩ := ha
  rw [funext (hsole.record raw)]
  exact changes_modifyMeter hm htag (Meter.record_same raw)

/-- Writing through adapters of the scope, one after the other. -/
theorem changes_foldl {α : Type} {f : MeterStore → α → MeterStore} {xs : List α} (h : d.Coherent)
    (adapter : α → Adapter) (howns : ∀ x ∈ xs, d.Owns scope (adapter x))
    (hf : ∀ d x, d.Owns scope (adapter x) → Changes scope d (d.modifyStore fun s => f s x)) :
    Changes scope d (d.modifyStore fun s => xs.foldl f s) := by
  induction xs generalizing d with
  | nil => exact .refl d
  | cons x xs ih =>
    have hc := hf d x (howns x List.mem_cons_self)
    exact hc.trans <| ih (hc.coherent h) fun y hy =>
      (howns y (List.mem_cons_of_mem x hy)).changes h hc

/-- What is resolved for a member has meters of the scope. -/
theorem owns_resolveMapped (h : d.Coherent) (hr : d.HasRegistry r scope) {kind : AnnotationKind}
    {member : Member} {adapters : List Adapter}
    (hok : d.resolveMapped r kind member = .ok adapters) : ∀ a ∈ adapters, d.Owns scope a := by
  obtain ⟨g, hr, rfl⟩ := hr
  intro a ha
  obtain ⟨id, ha, -⟩ := resolveMapped_stored hr hok a ha
  exact h.owns hr ha

theorem changes_increments (h : d.Coherent) (hr : d.HasRegistry r scope) {member : Member}
    {counters : List Adapter} (hok : d.resolveMapped r .counted member = .ok counters) :
    Changes scope d (d.modifyStore fun s => counters.foldl (fun s a => a.increment 1 s) s) :=
  changes_foldl h (fun a => a) (owns_resolveMapped h hr hok) fun _ _ ha => changes_increment ha 1

/-- An interception of a counted member, whatever its work does in between. -/
theorem Coherent.invokeCounted (h : d.Coherent) {β : Type} (scope : String) (member : Member)
    {work : Directory → Ending β × Directory} (hwork : ∀ d, d.Coherent → (work d).2.Coherent) :
    (d.invokeCounted scope member work).2.Coherent := by
  have h' := (changes_getOrCreate h scope).coherent h
  rw [invokeCounted_eq]
  split
  · exact h'
  · rename_i counters hok
    exact hwork _ ((changes_increments h' (hasRegistry_getOrCreate h scope) hok).coherent h')

/-- An interception of a timed member. The work may have dropped what was resolved before it. -/
theorem Coherent.invokeTimed (h : d.Coherent) {β : Type} (scope : String) (member : Member)
    (elapsed : Adapter → Duration) {work : Directory → Ending β × Directory}
    (hwork : ∀ d, d.Coherent → (work d).2.Coherent) :
    (d.invokeTimed scope member elapsed work).2.Coherent := by
  have h' := (changes_getOrCreate h scope).coherent h
  rw [invokeTimed_eq]
  split
  · exact h'
  · exact (hwork _ h').rewrite (.foldl (fun s a => Adapter.rewritten_record a _ s) _ _)

/-- An interception whose work stays in the scope stays there too. -/
theorem changes_invokeCounted (h : d.Coherent) {β : Type} (scope : String) (member : Member)
    {work : Directory → Ending β × Directory} (hwork : ∀ d, Changes scope d (work d).2) :
    Changes scope d (d.invokeCounted scope member work).2 := by
  have hc := changes_getOrCreate h scope
  have hr := hasRegistry_getOrCreate h scope
  rw [invokeCounted_eq]
  split
  · exact hc
  · rename_i counters hok
    exact (hc.trans (changes_increments (hc.coherent h) hr hok)).trans (hwork _)

theorem changes_invokeTimed (h : d.Coherent) {β : Type} (scope : String) (member : Member)
    (elapsed : Adapter → Duration) {work : Directory → Ending β × Directory}
    (hwork : ∀ d, Changes scope d (work d).2) :
    Changes scope d (d.invokeTimed scope member elapsed work).2 := by
  have hc := changes_getOrCreate h scope
  have hr := hasRegistry_getOrCreate h scope
  rw [invokeTimed_eq]
  split
  · exact hc
  · rename_i timers hok
    have hdone := hc.trans (hwork (d.getOrCreate scope).2)
    refine hdone.trans (changes_foldl (hdone.coherent h) (fun a => a) (fun a ha => ?_) fun _ _ ha =>
      changes_record ha _)
    exact (owns_resolveMapped (hc.coherent h) hr hok a ha).changes (hc.coherent h) (hwork _)

end Directory

end Telemetry
