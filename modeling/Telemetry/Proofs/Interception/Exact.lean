import Telemetry.Proofs.Interception.Prepared

/-!
# Interceptions are exact

An interception finds the member `Ready` in the scope when something is mapped to it there and all
of it is registered, as metrics of the kind (specification, 4.5). Then each of these metrics is
written to once and no other meter is changed (`MeterStore.WrittenOnce`): counters before the work,
timers after it, where they record whether the work returned, so that their contexts were stopped,
or unwound, so that they were dropped. Otherwise the interception is `Refused`: the work is not
done, and what was there stays as it is.

* `resolveMapped_of_ready`, `resolveMapped_of_not_ready`: what a resolution answers;
* `interceptions_exact`: both, in every directory that operations which declare lead to.
-/

namespace Telemetry

/-! ## Writing once -/

/-- Each of the metrics had its update written to its meter, and no other meter changed. -/
structure MeterStore.WrittenOnce (metrics : Adapter → Prop) (u : Adapter → Update)
    (s s' : MeterStore) : Prop where
  rest : s' = { s with meters := s'.meters }
  once : ∀ a, metrics a → ∃ m meter, a.Sole m ∧ s.meter? m = some meter ∧ meter.kind = a.kind ∧
    s'.meter? m = some (meter.update (u a))
  others : ∀ m, (∀ a, metrics a → ¬ a.Sole m) → s'.meter? m = s.meter? m

namespace MeterStore.WrittenOnce

variable {s s' : MeterStore} {a : Adapter} {metrics : Adapter → Prop} {u : Adapter → Update}

/-- A counter reads as much more as was added to it. -/
theorem counterValue (h : s.WrittenOnce metrics u s') (ha : metrics a) (hkind : a.kind = .counter)
    {n : UInt64} (hu : u a = .increment n) : a.counterValue s' = a.counterValue s + n := by
  obtain ⟨m, ⟨id, metadata, value⟩, hsole, hm, hk, hm'⟩ := h.once a ha
  rw [hkind] at hk
  unfold Adapter.counterValue Adapter.readable?
  simp only [hsole.1, hm, hm', hu, Option.map_some, Option.getD_some]
  cases value with
  | counter count => rfl
  | _ => cases hk

/-- A timer has recorded one value more. -/
theorem recorded (h : s.WrittenOnce metrics u s') (ha : metrics a) (hkind : a.kind = .timer)
    {raw : Nat} (hu : u a = .record raw) : a.recorded s' = a.recorded s + 1 := by
  obtain ⟨m, ⟨id, metadata, value⟩, hsole, hm, hk, hm'⟩ := h.once a ha
  rw [hkind] at hk
  unfold Adapter.recorded Adapter.distribution? Adapter.readable?
  simp only [hsole.1, hm, hm', hu, Option.bind_some]
  cases value with
  | timer durations => rfl
  | _ => cases hk

end MeterStore.WrittenOnce

/-- Writing through metrics with meters of their own, one after the other. -/
theorem MeterStore.writtenOnce_foldl {s : MeterStore} {adapters : List Adapter}
    (hsole : ∀ a ∈ adapters, ∃ m meter, a.Sole m ∧ s.meter? m = some meter ∧ meter.kind = a.kind)
    (hapart : adapters.Pairwise fun a b => ∀ m, a.Sole m → ¬ b.Sole m) (u : Adapter → Update) :
    s.WrittenOnce (· ∈ adapters) u (adapters.foldl (fun s a => a.write (u a) s) s) := by
  induction adapters generalizing s with
  | nil => exact ⟨rfl, fun a ha => absurd ha List.not_mem_nil, fun _ _ => rfl⟩
  | cons a adapters ih =>
    obtain ⟨m, meter, hm, hmeter, hkind⟩ := hsole a List.mem_cons_self
    obtain ⟨hfirst, hapart⟩ := List.pairwise_cons.mp hapart
    have hwritten (k : MeterRef) : (a.write (u a) s).meter? k =
        if k = m then (s.meter? k).map (Meter.update (u a)) else s.meter? k := by
      rw [hm.write, meter?_modifyMeter]
    -- the metrics that follow have other meters, so for them it is as if nothing had been written
    have hkept {b : Adapter} (hb : b ∈ adapters) {k : MeterRef} (hk : b.Sole k) :
        (a.write (u a) s).meter? k = s.meter? k := by
      rw [hwritten, if_neg]
      rintro rfl
      exact hfirst b hb k hm hk
    have hrest := ih (s := a.write (u a) s) (fun b hb => by
      obtain ⟨k, meter', hk, hmeter', hkind'⟩ := hsole b (List.mem_cons_of_mem a hb)
      exact ⟨k, meter', hk, (hkept hb hk).trans hmeter', hkind'⟩) hapart
    constructor
    · rw [List.foldl_cons, hrest.rest, hm.write]
      rfl
    · intro b hb
      obtain rfl | hb := List.mem_cons.mp hb
      · refine ⟨m, meter, hm, hmeter, hkind, (hrest.others m fun c hc => hfirst c hc m hm).trans ?_⟩
        rw [hwritten, if_pos rfl, hmeter, Option.map_some]
      · obtain ⟨k, meter', hk, hmeter', hkind', hafter⟩ := hrest.once b hb
        exact ⟨k, meter', hk, (hkept hb hk).symm.trans hmeter', hkind', hafter⟩
    · intro k hk
      refine (hrest.others k fun b hb => hk b (List.mem_cons_of_mem a hb)).trans ?_
      rw [hwritten, if_neg]
      rintro rfl
      exact hk a List.mem_cons_self hm

/-! ## Resolving all or nothing -/

section

variable {α β ε : Type} {f : α → Option β} {k : α → Except ε β} {xs : List α}

theorem mapM_of_isSome (hk : ∀ x y, f x = some y → k x = .ok y) (h : ∀ x ∈ xs, (f x).isSome) :
    xs.mapM k = .ok (xs.filterMap f) := by
  induction xs with
  | nil => rfl
  | cons x xs ih =>
    obtain ⟨hx, hxs⟩ := List.forall_mem_cons.mp h
    obtain ⟨y, hy⟩ := Option.isSome_iff_exists.mp hx
    rw [List.mapM_cons, ih hxs, List.filterMap_cons_some hy, hk x y hy]
    rfl

/-- The first failure ends it. -/
theorem mapM_of_none (hk : ∀ x y, f x = some y → k x = .ok y) {e : α → ε}
    (he : ∀ x, f x = none → k x = .error (e x)) (h : ∃ x ∈ xs, f x = none) :
    ∃ x ∈ xs, f x = none ∧ xs.mapM k = .error (e x) := by
  induction xs with
  | nil =>
    obtain ⟨x, hx, -⟩ := h
    exact absurd hx List.not_mem_nil
  | cons x xs ih =>
    cases hx : f x with
    | none =>
      refine ⟨x, List.mem_cons_self, hx, ?_⟩
      rw [List.mapM_cons, he x hx]
      rfl
    | some y =>
      obtain ⟨z, hz, hnone⟩ := h
      have hrest : z ∈ xs := (List.mem_cons.mp hz).resolve_left fun hzx => by
        rw [hzx, hx] at hnone
        cases hnone
      obtain ⟨w, hw, hwnone, hfail⟩ := ih ⟨z, hrest, hnone⟩
      refine ⟨w, List.mem_cons_of_mem x hw, hwnone, ?_⟩
      rw [List.mapM_cons, hfail, hk x y hx]
      rfl

end

namespace Directory

variable {d d' : Directory} {r : RegistryRef} {g : Registry} {id : MetricId} {a : Adapter}
  {m : MeterRef} {meter : Meter} {kind : AnnotationKind} {scope : String} {member : Member}

/-! ## What is mapped to a member -/

/-- The ids mapped to a member in a scope; a scope that does not exist maps none. -/
def mapped (d : Directory) (scope : String) (kind : AnnotationKind) (member : Member) :
    List MetricId :=
  (((d.lookup? scope).bind d.registry?).map fun g => mappedIds g kind member).getD []

/-- The metric that a mapped id stands for at present. -/
def resolved? (d : Directory) (scope : String) (kind : AnnotationKind) (id : MetricId) :
    Option Adapter :=
  (d.lookup? scope).bind fun r => d.metricOfKind? r kind.metric id

/-- The metric is mapped to the member, and is there. -/
def Mapped (d : Directory) (scope : String) (kind : AnnotationKind) (member : Member)
    (a : Adapter) : Prop :=
  ∃ id ∈ d.mapped scope kind member, d.resolved? scope kind id = some a

/-- Something is mapped to the member, and all of it is there. -/
def Ready (d : Directory) (scope : String) (kind : AnnotationKind) (member : Member) : Prop :=
  d.mapped scope kind member ≠ [] ∧
    ∀ id ∈ d.mapped scope kind member, (d.resolved? scope kind id).isSome

/-- Why a member that is not ready is refused. -/
inductive Unready (d : Directory) (scope : String) (kind : AnnotationKind) (member : Member) :
    MetricsError → Prop
  | unmapped (h : d.mapped scope kind member = []) :
      Unready d scope kind member (.noMetricMapped kind.metric member.text)
  | missing {id : MetricId} (hid : id ∈ d.mapped scope kind member)
      (h : d.resolved? scope kind id = none) :
      Unready d scope kind member (.mappedMetricMissing id.text member.text)

theorem mapped_eq (hs : d.lookup? scope = some r) (kind : AnnotationKind) (member : Member) :
    d.mapped scope kind member =
      ((d.registry? r).map fun g => mappedIds g kind member).getD [] := by
  unfold mapped
  rw [hs, Option.bind_some]

theorem resolved?_eq (hs : d.lookup? scope = some r) (kind : AnnotationKind) (id : MetricId) :
    d.resolved? scope kind id = d.metricOfKind? r kind.metric id := by
  unfold resolved?
  rw [hs, Option.bind_some]

theorem mapped_of_new (hs : d.lookup? scope = none) (kind : AnnotationKind) (member : Member) :
    d.mapped scope kind member = [] := by
  unfold mapped
  rw [hs]
  rfl

theorem Ready.exists_scope (h : d.Ready scope kind member) : ∃ r, d.lookup? scope = some r := by
  cases hs : d.lookup? scope with
  | some r => exact ⟨r, rfl⟩
  | none => exact absurd (mapped_of_new hs kind member) h.1

/-- Ids are resolved one by one. -/
theorem resolveMapped_eq (hs : d.lookup? scope = some r) (hne : d.mapped scope kind member ≠ []) :
    ∃ k : MetricId → Outcome Adapter, (∀ id a, d.resolved? scope kind id = some a → k id = .ok a) ∧
      (∀ id, d.resolved? scope kind id = none →
        k id = .error (.mappedMetricMissing id.text member.text)) ∧
      d.resolveMapped r kind member = (d.mapped scope kind member).mapM k := by
  unfold resolveMapped
  rw [← mapped_eq hs]
  split
  · rename_i hnil
    exact absurd hnil hne
  · refine ⟨_, fun id a ha => ?_, fun id hid => ?_, rfl⟩
    · rw [← resolved?_eq hs, ha]
    · rw [← resolved?_eq hs, hid]

/-- **Resolving a member that is ready** gives what is mapped to it. -/
theorem resolveMapped_of_ready (hs : d.lookup? scope = some r) (h : d.Ready scope kind member) :
    d.resolveMapped r kind member =
      .ok ((d.mapped scope kind member).filterMap (d.resolved? scope kind)) := by
  obtain ⟨k, hok, -, hresolve⟩ := resolveMapped_eq hs h.1
  rw [hresolve]
  exact mapM_of_isSome hok h.2

/-- **Resolving a member that is not ready** fails, and says why. -/
theorem resolveMapped_of_not_ready (hs : d.lookup? scope = some r)
    (h : ¬ d.Ready scope kind member) :
    ∃ e, d.Unready scope kind member e ∧ d.resolveMapped r kind member = .error e := by
  by_cases hnil : d.mapped scope kind member = []
  · refine ⟨_, .unmapped hnil, ?_⟩
    unfold resolveMapped
    rw [← mapped_eq hs, hnil]
  · have hmissing : ∃ id ∈ d.mapped scope kind member, d.resolved? scope kind id = none := by
      by_contra hall
      refine h ⟨hnil, fun id hid => ?_⟩
      exact Option.isSome_iff_ne_none.mpr fun hnone => hall ⟨id, hid, hnone⟩
    obtain ⟨k, hok, herror, hresolve⟩ := resolveMapped_eq hs hnil
    obtain ⟨id, hid, hnone, hfail⟩ := mapM_of_none hok herror hmissing
    exact ⟨_, .missing hid hnone, hresolve.trans hfail⟩

/-! ## What is written -/

theorem stored_of_resolved (hs : d.lookup? scope = some r) (hr : d.registry? r = some g)
    (hid : d.settings.Normal id) (ha : d.resolved? scope kind id = some a) :
    g.metrics.get? id = some a ∧ a.kind = kind.metric := by
  rw [resolved?_eq hs] at ha
  unfold metricOfKind? metric? at ha
  rw [hr, Option.bind_some, Registry.normalize_of_normal hid, Option.filter_eq_some_iff] at ha
  exact ⟨ha.1, by simpa using ha.2⟩

theorem Mapped.kind_eq (h : d.Mapped scope kind member a) : a.kind = kind.metric := by
  obtain ⟨id, -, ha⟩ := h
  obtain ⟨r, -, ha⟩ := Option.bind_eq_some_iff.mp ha
  unfold metricOfKind? at ha
  simpa using (Option.filter_eq_some_iff.mp ha).2

/-- A metric that is mapped has a meter of its own. -/
theorem Mapped.sole (h : d.Coherent) (ha : d.Mapped scope kind member a) :
    ∃ m meter, a.Sole m ∧ d.store.meter? m = some meter ∧ meter.kind = a.kind := by
  obtain ⟨id, -, ha⟩ := ha
  obtain ⟨r, -, ha⟩ := Option.bind_eq_some_iff.mp ha
  unfold metricOfKind? at ha
  obtain ⟨g, hr, ha⟩ := Option.bind_eq_some_iff.mp (Option.filter_eq_some_iff.mp ha).1
  exact (h.sole ⟨g, _, hr, ha⟩).2

/-- **Different ids that are mapped to a member are those of different metrics.** -/
theorem Prepared.apart (hp : d.Prepared) (h : d.Coherent) (hs : d.lookup? scope = some r) :
    ((d.mapped scope kind member).filterMap (d.resolved? scope kind)).Pairwise
      fun a b => ∀ m, a.Sole m → ¬ b.Sole m := by
  obtain ⟨g, hr, -⟩ := (h.current scope r).mp hs
  rw [mapped_eq hs, hr, Option.map_some, Option.getD_some, List.pairwise_filterMap]
  refine (nodup_mappedIds g kind member).imp_of_mem fun {id id'} hid hid' hne a ha b hb m hm hm' =>
    hne ?_
  obtain ⟨ha, -⟩ := stored_of_resolved hs hr (hp.normal r g hr kind member id hid) ha
  obtain ⟨hb, -⟩ := stored_of_resolved hs hr (hp.normal r g hr kind member id' hid') hb
  obtain ⟨k, meter, hba⟩ := h.backed r g id a hr ha
  obtain ⟨k', meter', hbb⟩ := h.backed r g id' b hr hb
  cases hm.1.symm.trans hba.captured
  cases hm'.1.symm.trans hbb.captured
  exact (h.eq_of_meter hr hr ha hb hba hbb).2

/-- No operation loses a meter or changes its kind. -/
theorem Coherent.meter_kept (h : d.Coherent) (hm : d.store.meter? m = some meter)
    (acts : List Action) :
    ∃ meter', (Action.applyAll acts d).store.meter? m = some meter' ∧ meter'.kind = meter.kind := by
  induction acts generalizing d meter with
  | nil => exact ⟨meter, hm, rfl⟩
  | cons act acts ih =>
    obtain ⟨meter', hm', hkind⟩ := (effect h act).meter_kind hm
    obtain ⟨meter'', hm'', hkind'⟩ := ih (h.action act) hm'
    exact ⟨meter'', hm'', hkind'.trans hkind⟩

/-- **Writing to all that is mapped to a member**, at once or after operations. -/
theorem Prepared.writtenOnce (hp : d.Prepared) (h : d.Coherent) (hs : d.lookup? scope = some r)
    (kind : AnnotationKind) (member : Member) (u : Adapter → Update) (ops : List Operation) :
    (Operation.applyAll ops d).store.WrittenOnce (d.Mapped scope kind member) u
      (((d.mapped scope kind member).filterMap (d.resolved? scope kind)).foldl
        (fun s a => a.write (u a) s) (Operation.applyAll ops d).store) := by
  have hmem : (· ∈ (d.mapped scope kind member).filterMap (d.resolved? scope kind)) =
      d.Mapped scope kind member :=
    funext fun a => propext List.mem_filterMap
  rw [← hmem]
  refine MeterStore.writtenOnce_foldl (fun a ha => ?_) (hp.apart h hs) u
  obtain ⟨m, meter, hsole, hm, hkind⟩ := Mapped.sole h (List.mem_filterMap.mp ha)
  obtain ⟨meter', hm', hkind'⟩ := h.meter_kept hm (Operation.actionsAll ops d)
  rw [← applyAll_eq_applyAll] at hm'
  exact ⟨m, meter', hsole, hm', hkind'.trans hkind⟩

/-! ## Interceptions -/

/-- An interception refused with `e` leaves `d'`. -/
structure Refused (d : Directory) (scope : String) (kind : AnnotationKind) (member : Member)
    (e : MetricsError) (d' : Directory) : Prop where
  reason : d.Unready scope kind member e
  /-- All that is done is to get the registry of the scope. -/
  opened : d' = (d.getOrCreate scope).2
  unchanged : d.scopeExists scope = true → d' = d
  beyond : Beyond d d'

theorem Prepared.refused (hp : d.Prepared) (h : d.Coherent) (hready : ¬ d.Ready scope kind member) :
    ∃ e, d.Refused scope kind member e (d.getOrCreate scope).2 ∧
      (d.getOrCreate scope).2.resolveMapped (d.getOrCreate scope).1 kind member = .error e := by
  cases hs : d.lookup? scope with
  | some r =>
    obtain ⟨e, hreason, hfail⟩ := resolveMapped_of_not_ready hs hready
    rw [hp.getOrCreate_of_exists h hs]
    refine ⟨e, ⟨hreason, ?_, fun _ => rfl, .refl d⟩, hfail⟩
    rw [hp.getOrCreate_of_exists h hs]
  | none =>
    have hbeyond := Beyond.getOrCreate h hs
    have hnumber : (d.getOrCreate scope).1 = d.registries.length := by rw [getOrCreate_of_new h hs]
    refine ⟨_, ⟨.unmapped (mapped_of_new hs kind member), rfl, fun hexists => ?_, hbeyond⟩, ?_⟩
    · obtain ⟨r, hr⟩ := SortedMap.contains_iff.mp hexists
      exact nomatch hs.symm.trans hr
    · obtain ⟨g, hr, -⟩ := hasRegistry_getOrCreate h scope
      unfold resolveMapped
      rw [hr, Option.map_some, Option.getD_some, hbeyond.unmapped g (hnumber ▸ hr)]

/-- An interception of a counted member. -/
structure CountedExact (d : Directory) (scope : String) (member : Member) : Prop where
  /-- The counters are incremented before the work, which is done once and whose ending, a result or
  an unwinding, is that of the interception. -/
  succeeds : d.Ready scope .counted member → ∃ s,
    d.store.WrittenOnce (d.Mapped scope .counted member) (fun _ => .increment 1) s ∧
    (∀ a, d.Mapped scope .counted member a → a.counterValue s = a.counterValue d.store + 1) ∧
    ∀ (β : Type) (work : Directory → Ending β × Directory),
      let done := work { d with store := s }
      d.invokeCounted scope member work = (done.1.map .ok, done.2)
  /-- The work is not done. -/
  refused : ¬ d.Ready scope .counted member → ∃ e d', d.Refused scope .counted member e d' ∧
    ∀ (β : Type) (work : Directory → Ending β × Directory),
      d.invokeCounted scope member work = (.returned (.error e), d')

theorem Prepared.countedExact (hp : d.Prepared) (h : d.Coherent) (scope : String)
    (member : Member) :
    d.CountedExact scope member := by
  constructor
  · intro hready
    obtain ⟨r, hs⟩ := hready.exists_scope
    have hwritten := hp.writtenOnce h hs .counted member (fun _ => .increment 1) []
    refine ⟨_, hwritten, fun a ha => hwritten.counterValue ha ha.kind_eq rfl, fun β work => ?_⟩
    rw [invokeCounted_eq, hp.getOrCreate_of_exists h hs]
    simp only
    rw [resolveMapped_of_ready hs hready]
    rfl
  · intro hready
    obtain ⟨e, hrefused, hfail⟩ := hp.refused h hready
    refine ⟨e, _, hrefused, fun β work => ?_⟩
    rw [invokeCounted_eq, hfail]

/-- What a member does: operations, that may depend on the directory it finds, and how it ends. -/
structure Work (β : Type) where
  operations : Directory → List Operation
  ending : Directory → Ending β

/-- Do the work. -/
def Work.run {β : Type} (w : Work β) (d : Directory) : Ending β × Directory :=
  (w.ending d, Operation.applyAll (w.operations d) d)

/-- An interception of a timed member, of whose work the host measured `elapsed`. -/
structure TimedExact (d : Directory) (scope : String) (member : Member)
    (elapsed : Adapter → Duration) : Prop where
  /-- The work is done once, and then every timer has recorded once, whatever the work did, and
  whether it returned or unwound; the interception ends as the work does. -/
  succeeds : d.Ready scope .timed member → ∀ (β : Type) (work : Work β), ∃ s,
    let done := work.run d
    done.2.store.WrittenOnce (d.Mapped scope .timed member)
      (fun a => .record (saturate (elapsed a).nanos)) s ∧
    (∀ a, d.Mapped scope .timed member a → a.recorded s = a.recorded done.2.store + 1) ∧
    d.invokeTimed scope member elapsed work.run = (done.1.map .ok, { done.2 with store := s })
  /-- The work is not done. -/
  refused : ¬ d.Ready scope .timed member → ∃ e d', d.Refused scope .timed member e d' ∧
    ∀ (β : Type) (work : Directory → Ending β × Directory),
      d.invokeTimed scope member elapsed work = (.returned (.error e), d')

theorem Prepared.timedExact (hp : d.Prepared) (h : d.Coherent) (scope : String) (member : Member)
    (elapsed : Adapter → Duration) : d.TimedExact scope member elapsed := by
  constructor
  · intro hready β work
    obtain ⟨r, hs⟩ := hready.exists_scope
    have hwritten := hp.writtenOnce h hs .timed member
      (fun a => .record (saturate (elapsed a).nanos)) (work.operations d)
    refine ⟨_, hwritten, fun a ha => hwritten.recorded ha ha.kind_eq rfl, ?_⟩
    rw [invokeTimed_eq, hp.getOrCreate_of_exists h hs]
    simp only
    rw [resolveMapped_of_ready hs hready]
    rfl
  · intro hready
    obtain ⟨e, hrefused, hfail⟩ := hp.refused h hready
    refine ⟨e, _, hrefused, fun β work => ?_⟩
    rw [invokeTimed_eq, hfail]

/-- **Interceptions are all or nothing, and exact**, where ids are mapped by registering members. -/
theorem interceptions_exact (settings : RegistrySettings) (platform : PlatformReadings)
    (ops : List Operation) (hops : Operation.DeclaresAll ops) (scope : String) (member : Member) :
    (afterRun settings platform ops).CountedExact scope member ∧
      ∀ elapsed, (afterRun settings platform ops).TimedExact scope member elapsed := by
  have hp := prepared_afterRun settings platform hops
  have h := coherent_afterRun settings platform ops
  exact ⟨hp.countedExact h scope member, hp.timedExact h scope member⟩

/-- A counter and a timer of a member, both there. -/
theorem interceptions_exact_registered :
    let member := Member.method "Orders" "place"
    let annotations : List MetricAnnotation :=
      [{ kind := .counted }, { kind := .timed, name := "time" }]
    let d := afterRun ⟨∅, none, {}, true⟩ default [.registerMember member annotations]
    d.Ready applicationScope .counted member ∧ d.Ready applicationScope .timed member ∧
      d.CountedExact applicationScope member ∧
      ∀ elapsed, d.TimedExact applicationScope member elapsed := by
  intro member annotations d
  refine ⟨?_, ?_,
    interceptions_exact ⟨∅, none, {}, true⟩ default [.registerMember member annotations]
      ⟨trivial, trivial⟩ applicationScope member⟩
  · unfold Ready
    decide +kernel
  · unfold Ready
    decide +kernel

end Directory

end Telemetry
