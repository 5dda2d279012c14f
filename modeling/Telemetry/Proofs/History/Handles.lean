import Telemetry.Proofs.History.Steps

/-!
# Handles

A caller holds metrics beyond their removal. `Directory.Stores` says that a registry has a metric
now, `Held` that it had the metric at some point of a history: these are the metrics that a caller
can hold.

* `held_inj`: metrics that are held differ in their serial and in their meter, so a handle stands
  for one metric of one registry;
* `held_meter`: the meter of a metric that is held is there still, and it is the only one that the
  metric shows;
* `retired_forever`: a metric that a registry lost does not come back;
* `unlisted_of_retired`: and no scope store has its meter.
-/

namespace Telemetry

namespace Directory

variable {d d' : Directory} {r r' q : RegistryRef} {g : Registry} {id : MetricId} {a a' : Adapter}
  {metadata : Metadata} {tags : List Tag} {req : MetricRequest} {act : Action} {m : MeterRef}
  {settings : RegistrySettings} {platform : PlatformReadings} {acts : List Action}

/-! ## Stored metrics -/

/-- The registry has the metric. -/
def Stores (d : Directory) (r : RegistryRef) (a : Adapter) : Prop :=
  ∃ g id, d.registry? r = some g ∧ g.metrics.get? id = some a

theorem Linked.sole (h : d.Linked) (ha : d.Stores r a) :
    a.serial < d.adapters ∧
      ∃ m meter, a.Sole m ∧ d.store.meter? m = some meter ∧ meter.kind = a.kind := by
  obtain ⟨g, id, hr, hget⟩ := ha
  obtain ⟨m, meter, hb⟩ := h.backed r g id a hr hget
  exact ⟨hb.serial, m, meter, ⟨hb.captured, hb.live⟩, hb.present, hb.meter_kind⟩

/-- A metric is stored under its own id only. -/
theorem Linked.stored_id (h : d.Linked) (hr : d.registry? r = some g) :
    d.Stores r a ↔ g.metrics.get? a.id = some a := by
  constructor
  · rintro ⟨g', id, hr', hget⟩
    rw [hr] at hr'
    cases hr'
    obtain ⟨_, _, hb⟩ := h.backed r g id a hr hget
    rwa [hb.stored]
  · exact fun hget => ⟨g, a.id, hr, hget⟩

/-- Every meter of a scope store is that of a stored metric. -/
theorem Linked.stored_of_find? (h : d.Linked) {mid : MetricId} (hm : d.store.find? q mid = some m) :
    ∃ a, d.Stores q a ∧ a.Sole m := by
  have hlt : q < d.registries.length := by
    unfold MeterStore.find? MeterStore.scope? at hm
    obtain ⟨c, hc, -⟩ := Option.bind_eq_some_iff.mp hm
    rw [← h.stores]
    exact (List.getElem?_eq_some_iff.mp hc).1
  have hr : d.registry? q = some d.registries[q] := List.getElem?_eq_getElem hlt
  obtain ⟨id, a, ha, rfl⟩ := h.meter_used q _ mid m hr hm
  obtain ⟨m', _, hb⟩ := h.backed q _ id a hr ha
  have hfound := hb.found
  rw [h.store q _ hr, hm] at hfound
  cases hfound
  exact ⟨a, ⟨_, id, hr, ha⟩, hb.captured, hb.live⟩

/-- What is enrolled by an action. -/
def Enrolls (d : Directory) (act : Action) (r : RegistryRef) (a : Adapter) : Prop :=
  ∃ g req metadata tags id value, act = .register r req metadata tags ∧ d.registry? r = some g ∧
    g.verdict d.settings metadata tags req = .enroll id value ∧ a = d.newcomer r g metadata req id

theorem Enrolls.unique (ha : d.Enrolls act r a) (ha' : d.Enrolls act r' a') : r = r' ∧ a = a' := by
  obtain ⟨g, req, metadata, tags, id, value, rfl, hr, hv, rfl⟩ := ha
  obtain ⟨g', req', metadata', tags', id', value', hact, hr', hv', rfl⟩ := ha'
  cases hact
  rw [hr] at hr'
  cases hr'
  rw [hv] at hv'
  cases hv'
  exact ⟨rfl, rfl⟩

theorem Enrolls.serial (ha : d.Enrolls act r a) : a.serial = d.adapters := by
  obtain ⟨g, req, metadata, tags, id, value, -, -, -, rfl⟩ := ha
  exact serial_newcomer id

theorem Enrolls.meter (ha : d.Enrolls act r a) : a.meter = some d.store.meters.length := by
  obtain ⟨g, req, metadata, tags, id, value, -, -, -, rfl⟩ := ha
  exact meter_newcomer id

/-- **A registry has a metric** when it had it or when the metric came in. -/
theorem Effect.stores (he : Effect d act d') (ha : d'.Stores r a) :
    d.Stores r a ∨ d.Enrolls act r a := by
  obtain ⟨g', id, hr', hget⟩ := ha
  cases hr : d.registry? r with
  | none =>
    obtain ⟨scope, -, -, rfl⟩ := he.registry_new hr hr'
    cases hget
  | some g =>
    have hold : g.metrics.get? id = some a → d.Stores r a := fun h => ⟨g, id, hr, h⟩
    rw [he.registry hr] at hr'
    cases hr'
    cases act with
    | register q req metadata tags =>
      simp only [registryAfter] at hget
      split at hget
      · rename_i hq
        subst hq
        split at hget
        · exact .inl (hold hget)
        · exact .inl (hold hget)
        · rename_i id' value hv
          rw [SortedMap.get?_insert] at hget
          split at hget
          · cases hget
            exact .inr ⟨g, req, metadata, tags, id', value, rfl, hr, hv, rfl⟩
          · exact .inl (hold hget)
      · exact .inl (hold hget)
    | remove q id' =>
      simp only [registryAfter] at hget
      split at hget
      · rw [(forgetUnused_same _ _).2.2.2, SortedMap.get?_erase] at hget
        split at hget
        · cases hget
        · exact .inl (hold hget)
      · exact .inl (hold hget)
    | dropScope scope =>
      simp only [registryAfter] at hget
      split at hget
      · cases hget
      · exact .inl (hold hget)
    | markPlatform | mapMember =>
      simp only [registryAfter] at hget
      split at hget <;> exact .inl (hold hget)
    | openScope | write | sample => exact .inl (hold hget)

/-- No action loses a meter or changes its kind. -/
theorem Effect.meter_kind (he : Effect d act d') {meter : Meter}
    (hm : d.store.meter? m = some meter) :
    ∃ meter', d'.store.meter? m = some meter' ∧ meter'.kind = meter.kind := by
  by_cases hact : ∃ a u, act = .write a u
  · obtain ⟨a, u, rfl⟩ := hact
    have hs : d.store.Rewritten (a.write u d.store) := by
      cases u with
      | increment n => exact a.rewritten_increment n d.store
      | record raw => exact a.rewritten_record raw d.store
    obtain ⟨meter', hm', -, -, hkind⟩ := hs.meter m meter hm
    cases he with
    | idle => exact ⟨meter, hm, rfl⟩
    | write => exact ⟨meter', hm', hkind⟩
  · obtain ⟨meter', hm', hvalue⟩ := he.meter hm fun a u h => hact ⟨a, u, h⟩
    exact ⟨meter', hm', congrArg MeterValue.kind hvalue⟩

/-! ## Held metrics -/

/-- The metric was the registry's at some point of the history. -/
def Held (settings : RegistrySettings) (platform : PlatformReadings) (acts : List Action)
    (r : RegistryRef) (a : Adapter) : Prop :=
  ∃ before, before <+: acts ∧ (reached settings platform before).Stores r a

theorem held_of_stores (ha : (reached settings platform acts).Stores r a) :
    Held settings platform acts r a :=
  ⟨acts, List.prefix_rfl, ha⟩

theorem Held.append (ha : Held settings platform acts r a) (acts' : List Action) :
    Held settings platform (acts ++ acts') r a := by
  obtain ⟨before, hbefore, ha⟩ := ha
  exact ⟨before, hbefore.trans (List.prefix_append acts acts'), ha⟩

theorem not_held_nil : ¬ Held settings platform [] r a := by
  rintro ⟨before, hbefore, g, id, hr, -⟩
  rw [List.prefix_nil.mp hbefore] at hr
  cases hr

/-- What is held after an action was held before it or came in with it. -/
theorem held_snoc (ha : Held settings platform (acts ++ [act]) r a) :
    Held settings platform acts r a ∨ (reached settings platform acts).Enrolls act r a := by
  obtain ⟨before, hbefore, ha⟩ := ha
  obtain rfl | hbefore := List.prefix_concat_iff.mp hbefore
  · rw [reached_snoc] at ha
    exact ((effect (coherent_reached ..) act).stores ha).imp_left held_of_stores
  · exact .inl ⟨before, hbefore, ha⟩

/-- **A metric that is held has a meter of its own**, for good. -/
theorem held_meter (ha : Held settings platform acts r a) :
    a.serial < (reached settings platform acts).adapters ∧ ∃ m meter, a.Sole m ∧
      (reached settings platform acts).store.meter? m = some meter ∧ meter.kind = a.kind := by
  induction acts using List.reverseRecOn with
  | nil => exact absurd ha not_held_nil
  | append_singleton acts act ih =>
    obtain ⟨before, hbefore, hs⟩ := ha
    obtain rfl | hbefore := List.prefix_concat_iff.mp hbefore
    · exact (coherent_reached ..).sole hs
    · obtain ⟨hserial, m, meter, hsole, hm, hkind⟩ := ih ⟨before, hbefore, hs⟩
      have he := effect (coherent_reached settings platform acts) act
      obtain ⟨meter', hm', hkind'⟩ := he.meter_kind hm
      rw [reached_snoc]
      exact ⟨Nat.lt_of_lt_of_le hserial he.adapters, m, meter', hsole, hm', hkind'.trans hkind⟩

/-- What comes in is not held yet, and its meter is not that of a metric that is held. -/
theorem Enrolls.new (ha : (reached settings platform acts).Enrolls act r a)
    (ha' : Held settings platform acts r' a') : a.serial ≠ a'.serial ∧ a.meter ≠ a'.meter := by
  obtain ⟨hserial, m, meter, hsole, hm, -⟩ := held_meter ha'
  constructor
  · rw [ha.serial]
    exact (Nat.ne_of_lt hserial).symm
  · rw [ha.meter, hsole.1]
    intro heq
    exact Nat.ne_of_lt (List.getElem?_eq_some_iff.mp hm).1 (Option.some.inj heq).symm

/-- **Handles tell metrics apart**: by serial, and by meter. -/
theorem held_inj (ha : Held settings platform acts r a) (ha' : Held settings platform acts r' a')
    (hsame : a.serial = a'.serial ∨ a.meter = a'.meter) : r = r' ∧ a = a' := by
  induction acts using List.reverseRecOn with
  | nil => exact absurd ha not_held_nil
  | append_singleton acts act ih =>
    obtain hold | hnew := held_snoc ha
    · obtain hold' | hnew' := held_snoc ha'
      · exact ih hold hold'
      · obtain ⟨hserial, hmeter⟩ := hnew'.new hold
        exact (hsame.elim (fun h => hserial h.symm) fun h => hmeter h.symm).elim
    · obtain hold' | hnew' := held_snoc ha'
      · obtain ⟨hserial, hmeter⟩ := hnew.new hold'
        exact (hsame.elim hserial hmeter).elim
      · exact hnew.unique hnew'

/-- **A metric that a registry lost does not come back**, to it or to another one. -/
theorem retired_forever (ha : Held settings platform acts r a)
    (hretired : ¬ (reached settings platform acts).Stores r a) (acts' : List Action) :
    ¬ (reached settings platform (acts ++ acts')).Stores r' a := by
  induction acts' using List.reverseRecOn generalizing r' with
  | nil =>
    rw [List.append_nil]
    intro hs
    obtain ⟨rfl, -⟩ := held_inj ha (held_of_stores hs) (.inl rfl)
    exact hretired hs
  | append_singleton acts' act ih =>
    rw [← List.append_assoc, reached_snoc]
    intro hs
    obtain hs | hnew := (effect (coherent_reached ..) act).stores hs
    · exact ih hs
    · exact (hnew.new (ha.append acts')).1 rfl

/-- **No scope store has the meter of a metric that was lost.** -/
theorem unlisted_of_retired (ha : Held settings platform acts r a)
    (hretired : ¬ (reached settings platform acts).Stores r a) (hm : a.Sole m) (q : ScopeRef)
    (mid : MetricId) : (reached settings platform acts).store.find? q mid ≠ some m := by
  intro hfound
  obtain ⟨a', ha', hm'⟩ := (coherent_reached ..).stored_of_find? hfound
  obtain ⟨rfl, rfl⟩ := held_inj ha (held_of_stores ha') (.inr (hm.1.trans hm'.1.symm))
  exact hretired ha'

end Directory

end Telemetry
