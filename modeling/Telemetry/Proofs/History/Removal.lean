import Telemetry.Proofs.Exposition.Gathered
import Telemetry.Proofs.History.Identity
import Telemetry.Proofs.History.Metadata

/-!
# Removal

The metrics of a registry that satisfy a condition are listed first and then removed one after the
other, each by its id, with its meter and, when it was the last of its name, with what is known of
the name (specification, 4.2).

* `removeMatching_eq`: what comes out is the directory `less` these metrics, all taken out at one
  go, because taking some out and then others is taking all out (`less_less`) and a stored id is
  looked up under itself.
* `removed_exactly`: exactly the metrics that satisfy the condition are gone, from the registry, the
  composites and the scope stores; the names keep what is known of them as long as a metric is left,
  and are free for any kind afterwards (`Unbound`); removing a name or an id is removing by a
  condition.
-/

namespace Telemetry

/-! ## Maps without some keys -/

namespace SortedMap

variable {κ α : Type} [Ord κ] [DecidableEq κ]

/-- The entries under other keys than these. -/
def without (m : SortedMap κ α) (ks : List κ) : SortedMap κ α := m.filter fun k _ => decide (k ∉ ks)

variable [Std.TransOrd κ] [Std.LawfulEqOrd κ]

theorem get?_without (m : SortedMap κ α) (ks : List κ) (k : κ) :
    (m.without ks).get? k = if k ∈ ks then none else m.get? k := by
  unfold without
  rw [get?_filter]
  by_cases hk : k ∈ ks
  · cases m.get? k <;> simp [hk]
  · cases m.get? k <;> simp [hk]

theorem get?_without_eq_some {m : SortedMap κ α} {ks : List κ} {k : κ} {v : α} :
    (m.without ks).get? k = some v ↔ m.get? k = some v ∧ k ∉ ks := by
  rw [get?_without]
  by_cases hk : k ∈ ks <;> simp [hk]

theorem without_nil (m : SortedMap κ α) : m.without [] = m := by
  refine ext_get? fun k => ?_
  rw [get?_without, if_neg List.not_mem_nil]

theorem without_without (m : SortedMap κ α) (ks ks' : List κ) :
    (m.without ks).without ks' = m.without (ks ++ ks') := by
  refine ext_get? fun k => ?_
  simp only [get?_without, List.mem_append]
  by_cases hk : k ∈ ks <;> simp [hk]

theorem erase_eq_without (m : SortedMap κ α) (k : κ) : m.erase k = m.without [k] := by
  refine ext_get? fun q => ?_
  rw [get?_erase, get?_without]
  simp only [List.mem_singleton]

/-- A key that is there is the only one of its own. -/
theorem keys_filter_eq (m : SortedMap κ α) (k : κ) :
    (m.filter fun k' _ => decide (k' = k)).keys = if (m.get? k).isSome then [k] else [] := by
  have hmem : ∀ k', k' ∈ (m.filter fun k' _ => decide (k' = k)).keys ↔
      k' = k ∧ (m.get? k).isSome := by
    intro k'
    rw [mem_keys, Option.isSome_iff_exists]
    simp only [get?_filter, Option.filter_eq_some_iff, decide_eq_true_eq]
    constructor
    · rintro ⟨v, hv, rfl⟩
      exact ⟨rfl, v, hv⟩
    · rintro ⟨rfl, v, hv⟩
      exact ⟨v, hv, rfl⟩
  split
  · rename_i hk
    refine List.perm_singleton.mp
      ((List.perm_ext_iff_of_nodup (nodup_keys _) (List.nodup_singleton k)).mpr fun k' => ?_)
    rw [hmem, List.mem_singleton, and_iff_left hk]
  · rename_i hk
    exact List.eq_nil_iff_forall_not_mem.mpr fun k' hk' => hk ((hmem k').mp hk').2

end SortedMap

namespace Registry

variable {g : Registry} {ids ids' : List MetricId} {name : String}

/-- The registry without the metrics under some ids, and without the names that no metric is left
of. -/
def less (g : Registry) (ids : List MetricId) : Registry :=
  let rest := { g with metrics := g.metrics.without ids }
  { rest with names := g.names.filter fun name _ => rest.hasName name }

theorem hasName_less (g : Registry) (ids : List MetricId) (name : String) :
    (g.less ids).hasName name = true ↔
      ∃ id a, g.metrics.get? id = some a ∧ id ∉ ids ∧ id.name = name := by
  rw [hasName_iff]
  unfold less
  simp only [SortedMap.get?_without_eq_some, and_assoc]

theorem get?_names_less (g : Registry) (ids : List MetricId) (name : String) :
    (g.less ids).names.get? name =
      if (g.less ids).hasName name then g.names.get? name else none := by
  show (g.names.filter fun name _ => (g.less ids).hasName name).get? name = _
  rw [SortedMap.get?_filter]
  cases g.names.get? name <;> simp [Option.filter]

/-- A registry is what is left when it has the metrics and the names that are left. -/
theorem eq_less {g₁ : Registry} (hrest : g₁ = { g with metrics := g₁.metrics, names := g₁.names })
    (hmetrics : g₁.metrics = g.metrics.without ids)
    (hnames : ∀ name, g₁.names.get? name = if g₁.hasName name then g.names.get? name else none) :
    g₁ = g.less ids := by
  have hsame : ∀ name, (g.less ids).hasName name = g₁.hasName name := by
    intro name
    unfold hasName less
    rw [hmetrics]
  have heq : g₁.names = (g.less ids).names := by
    refine SortedMap.ext_get? fun name => ?_
    rw [hnames, get?_names_less, hsame]
  rw [hrest, heq, hmetrics]
  rfl

theorem less_less (g : Registry) (ids ids' : List MetricId) :
    (g.less ids).less ids' = g.less (ids ++ ids') := by
  refine eq_less rfl (SortedMap.without_without ..) fun name => ?_
  rw [get?_names_less, get?_names_less]
  by_cases hname : ((g.less ids).less ids').hasName name = true
  · have hbefore : (g.less ids).hasName name = true := by
      obtain ⟨id, a, ha, -, rfl⟩ := (hasName_less ..).mp hname
      exact hasName_iff.mpr ⟨id, a, ha, rfl⟩
    rw [if_pos hname, if_pos hbefore, if_pos hname]
  · rw [if_neg hname, if_neg hname]

/-- Taking nothing out changes nothing where every name that is known is a metric's. -/
theorem less_nil (hused : ∀ name e, g.names.get? name = some e → g.hasName name = true) :
    g.less [] = g := by
  refine (eq_less rfl (SortedMap.without_nil _).symm fun name => ?_).symm
  split
  · rfl
  · rename_i hname
    cases he : g.names.get? name with
    | none => rfl
    | some e => exact absurd (hused name e he) hname

/-- Erasing one metric and forgetting its name, if it is left unused, takes it out. -/
theorem forgetUnused_erase (hused : ∀ name e, g.names.get? name = some e → g.hasName name = true)
    (id : MetricId) :
    forgetUnused { g with metrics := g.metrics.erase id } id.name = g.less [id] := by
  obtain ⟨-, -, -, hmetrics⟩ :=
    Directory.forgetUnused_same { g with metrics := g.metrics.erase id } id.name
  refine eq_less ?_ (hmetrics.trans (SortedMap.erase_eq_without ..)) fun name => ?_
  · unfold forgetUnused
    split <;> rfl
  rw [Directory.get?_names_forgetUnused, show hasName (forgetUnused _ _) name = hasName _ name from
    congrArg (fun metrics : SortedMap MetricId Adapter => metrics.keys.any fun id =>
      id.name == name) hmetrics]
  by_cases hname : hasName { g with metrics := g.metrics.erase id } name = true
  · rw [if_pos hname, if_neg]
    rintro ⟨rfl, hnone⟩
    exact absurd (hname.symm.trans hnone) nofun
  · rw [if_neg hname]
    split
    · rfl
    · rename_i hother
      -- Only the name of the metric that was erased can have lost its last one.
      cases he : g.names.get? name with
      | none => rfl
      | some e =>
        obtain ⟨id', a, ha, rfl⟩ := hasName_iff.mp (hused name e he)
        refine absurd (hasName_iff.mpr ⟨id', a, ?_, rfl⟩) hname
        refine (SortedMap.get?_erase ..).trans ((if_neg ?_).trans ha)
        rintro rfl
        exact hother ⟨rfl, (Bool.not_eq_true _).mp hname⟩

end Registry

namespace Directory

variable {d d' : Directory} {r : RegistryRef} {g g' : Registry} {id : MetricId} {a : Adapter}
  {ids mids : List MetricId} {p : MetricId → Adapter → Bool}

/-- The directory without the metrics of a registry under some ids, whose meters have the ids
`mids`. -/
def less (d : Directory) (r : RegistryRef) (ids mids : List MetricId) : Directory :=
  { d.modifyRegistry r fun g => g.less ids with
    store := { d.store with
      composites := d.store.composites.without mids
      scopes := d.store.scopes.modify r fun c => { c with meters := c.meters.without mids } } }

theorem less_less (d : Directory) (r : RegistryRef) (ids mids ids' mids' : List MetricId) :
    (d.less r ids mids).less r ids' mids' = d.less r (ids ++ ids') (mids ++ mids') := by
  unfold less modifyRegistry
  simp only [List.modify_modify_eq, SortedMap.without_without, Function.comp_def,
    Registry.less_less]

theorem registries_modify_congr {f f' : Registry → Registry} (hr : d.registry? r = some g)
    (hf : f g = f' g) : d.registries.modify r f = d.registries.modify r f' := by
  refine List.ext_getElem? fun q => ?_
  rw [List.getElem?_modify, List.getElem?_modify]
  by_cases hq : r = q
  · subst hq
    rw [show d.registries[r]? = some g from hr]
    simp [hf]
  · simp [hq]

theorem Coherent.used (h : d.Coherent) (hr : d.registry? r = some g) (name : String) (e : NameEntry)
    (he : g.names.get? name = some e) : g.hasName name = true :=
  Registry.hasName_iff.mpr (h.names_used r g name e hr he)

theorem less_nil (h : d.Coherent) (hr : d.registry? r = some g) : d.less r [] [] = d := by
  have hregistries : d.registries.modify r (fun g => g.less []) = d.registries :=
    (registries_modify_congr hr (Registry.less_nil (h.used hr))).trans (List.modify_id ..)
  have hscopes : d.store.scopes.modify r (fun c => { c with meters := c.meters.without [] }) =
      d.store.scopes := by
    simp only [SortedMap.without_nil]
    exact List.modify_id ..
  unfold less modifyRegistry
  rw [hregistries, hscopes, SortedMap.without_nil]

/-- Discarding a metric takes it out. -/
theorem discard_eq_less (h : d.Coherent) (hr : d.registry? r = some g) (id mid : MetricId) :
    d.discard r id mid = d.less r [id] [mid] := by
  have hregistries : d.registries.modify r (fun g =>
      { g with metrics := g.metrics.erase id }.forgetUnused id.name) =
        d.registries.modify r fun g => g.less [id] :=
    registries_modify_congr hr (Registry.forgetUnused_erase (h.used hr) id)
  unfold discard less modifyRegistry MeterStore.leave MeterStore.modifyScope
  rw [hregistries]
  simp only [SortedMap.erase_eq_without]

theorem registry?_less (hr : d.registry? r = some g) (ids mids : List MetricId) :
    registry? (d.less r ids mids) r = some (g.less ids) := by
  have hmodified := modify_of_registry (d := d) (r := r) (fun g => g.less ids) hr
  rwa [if_pos rfl] at hmodified

/-- **Removing metrics one after the other** takes them out at one go. -/
theorem removeEach_eq (h : d.Coherent) (hr : d.registry? r = some g) (hnodup : ids.Nodup)
    (hids : ∀ id ∈ ids, ∃ a, g.metrics.get? id = some a) :
    removeEach r ids d = (ids.length, d.less r ids (ids.map g.meterId)) := by
  induction ids generalizing d g with
  | nil => exact Prod.ext rfl (less_nil h hr).symm
  | cons id ids ih =>
    obtain ⟨hnew, hnodup⟩ := List.nodup_cons.mp hnodup
    obtain ⟨a, ha⟩ := hids id List.mem_cons_self
    obtain ⟨_, _, hb⟩ := h.backed r g id a hr ha
    have hremove : d.remove r id = (true, d.less r [id] [g.meterId id]) := by
      rw [remove_eq h hr, Registry.normalize_of_normal hb.normal, ha, discard_eq_less h hr]
      rfl
    have hcoherent : (d.less r [id] [g.meterId id]).Coherent := by
      rw [← discard_eq_less h hr]
      exact h.discard hr ha
    have hrest := ih hcoherent (registry?_less hr [id] _) hnodup fun id' hid' => by
      obtain ⟨a', ha'⟩ := hids id' (List.mem_cons_of_mem _ hid')
      refine ⟨a', SortedMap.get?_without_eq_some.mpr ⟨ha', fun heq => hnew ?_⟩⟩
      rwa [← List.mem_singleton.mp heq]
    unfold removeEach
    rw [hremove]
    simp only [hrest, if_true]
    rw [less_less]
    rfl

/-- **Removing by a condition** takes out the metrics that satisfy it. -/
theorem removeMatching_eq (h : d.Coherent) (hr : d.registry? r = some g)
    (p : MetricId → Adapter → Bool) :
    d.removeMatching r p = ((g.metrics.filter p).size,
      d.less r (g.metrics.filter p).keys ((g.metrics.filter p).keys.map g.meterId)) := by
  unfold removeMatching
  rw [hr]
  simp only
  rw [removeEach_eq h hr (SortedMap.nodup_keys _) fun id hid => ?_, SortedMap.length_keys]
  obtain ⟨a, ha⟩ := SortedMap.mem_keys.mp hid
  rw [SortedMap.get?_filter, Option.filter_eq_some_iff] at ha
  exact ⟨a, ha.1⟩

/-- An id is that of a meter of one of the metrics of `g` that satisfy `p`. -/
def Gone (g : Registry) (p : MetricId → Adapter → Bool) (mid : MetricId) : Prop :=
  ∃ id a, g.metrics.get? id = some a ∧ p id a = true ∧ mid = g.meterId id

/-- `d'` is `d` without the metrics of registry `r`, at first `g`, that satisfy `p`. -/
structure Removed (d d' : Directory) (r : RegistryRef) (g : Registry)
    (p : MetricId → Adapter → Bool) : Prop where
  /-- The registry has exactly the other metrics, each with its adapter, and knows exactly the names
  of these, with the metadata and the kind that it knew. -/
  registry : ∃ g', d'.registry? r = some g' ∧
    g' = { g with metrics := g'.metrics, names := g'.names } ∧
    (∀ id a, g'.metrics.get? id = some a ↔ g.metrics.get? id = some a ∧ p id a = false) ∧
    (∀ name e, g'.names.get? name = some e ↔
      g.names.get? name = some e ∧ ∃ id a, g'.metrics.get? id = some a ∧ id.name = name)
  /-- Exactly the composites of these metrics are gone, -/
  composites : ∀ mid c, d'.store.composites.get? mid = some c ↔
    d.store.composites.get? mid = some c ∧ ¬ Gone g p mid
  /-- and exactly their meters, in whatever scope store. -/
  meters : ∀ n mid m, d'.store.find? n mid = some m ↔ d.store.find? n mid = some m ∧ ¬ Gone g p mid
  /-- No meter and no sample changes, so an adapter reads what it read, -/
  reading : ∀ a : Adapter, a.counterValue d'.store = a.counterValue d.store ∧
    a.gaugeValue d'.store = a.gaugeValue d.store ∧ a.snapshot d'.store = a.snapshot d.store
  /-- and the other registries are as they were, and so is what else there is. -/
  others : ∀ q, q ≠ r → d'.registry? q = d.registry? q
  rest : d'.settings = d.settings ∧ d'.gates = d.gates ∧ d'.scopes = d.scopes ∧
    d'.store.attached = d.store.attached ∧ d'.adapters = d.adapters

theorem mem_gone {mid : MetricId} :
    mid ∈ (g.metrics.filter p).keys.map g.meterId ↔ Gone g p mid := by
  simp only [List.mem_map, SortedMap.mem_keys, SortedMap.get?_filter,
    Option.filter_eq_some_iff, Gone]
  constructor
  · rintro ⟨id, ⟨a, ha, hp⟩, rfl⟩
    exact ⟨id, a, ha, hp, rfl⟩
  · rintro ⟨id, a, ha, hp, rfl⟩
    exact ⟨id, ⟨a, ha, hp⟩, rfl⟩

theorem mem_keys_filter (ha : g.metrics.get? id = some a) :
    id ∈ (g.metrics.filter p).keys ↔ p id a = true := by
  rw [SortedMap.mem_keys]
  simp [SortedMap.get?_filter, ha, Option.filter]

theorem find?_less (d : Directory) (r : RegistryRef) (ids mids : List MetricId) (n : ScopeRef)
    (mid : MetricId) : (d.less r ids mids).store.find? n mid =
      if n = r ∧ mid ∈ mids then none else d.store.find? n mid := by
  have hscope : (d.less r ids mids).store.scope? n =
      if n = r then (d.store.scope? n).map (fun c => { c with meters := c.meters.without mids })
      else d.store.scope? n :=
    MeterStore.scope?_modifyScope _ r _ n
  unfold MeterStore.find?
  rw [hscope]
  by_cases hn : n = r
  · rw [if_pos hn]
    cases d.store.scope? n with
    | none => simp
    | some c => simp only [Option.map_some, Option.bind_some, SortedMap.get?_without, hn, true_and]
  · rw [if_neg hn, if_neg fun hk => hn hk.1]

/-- **Taking the metrics out that satisfy a condition** removes exactly these. -/
theorem removed_less (h : d.Coherent) (hr : d.registry? r = some g)
    (p : MetricId → Adapter → Bool) :
    Removed d (d.less r (g.metrics.filter p).keys ((g.metrics.filter p).keys.map g.meterId)) r g
      p where
  registry := by
    refine ⟨_, registry?_less hr _ _, rfl, fun id a => ?_, fun name e => ?_⟩
    · refine SortedMap.get?_without_eq_some.trans (and_congr_right fun ha => ?_)
      rw [mem_keys_filter ha, Bool.not_eq_true]
    · rw [Registry.get?_names_less, ← Registry.hasName_iff]
      split
      · rename_i hname
        exact (and_iff_left hname).symm
      · rename_i hname
        exact ⟨nofun, fun hk => absurd hk.2 hname⟩
  composites := fun mid c => SortedMap.get?_without_eq_some.trans (by rw [mem_gone])
  meters := by
    intro n mid m
    rw [find?_less]
    split
    · rename_i hgone
      exact ⟨nofun, fun hk => absurd (mem_gone.mp hgone.2) hk.2⟩
    · rename_i hkept
      refine (and_iff_left_of_imp fun hm hgone => hkept ⟨?_, mem_gone.mpr hgone⟩).symm
      -- Only the registry's own scope store has meters of these ids.
      obtain ⟨id, a, ha, -, rfl⟩ := hgone
      obtain ⟨_, _, hb⟩ := h.backed r g id a hr ha
      obtain ⟨_, ⟨g', _, hr', -⟩, -⟩ := h.stored_of_find? hm
      exact (h.eq_of_find? hr hr' (h.not_dropped hr ha) hb.normal hm).1
  reading := fun _ => ⟨rfl, rfl, rfl⟩
  others := by
    intro q hq
    exact (registry?_modifyRegistry ..).trans (if_neg hq)
  rest := ⟨rfl, rfl, rfl, rfl, rfl⟩

theorem removed_removeMatching (h : d.Coherent) (hr : d.registry? r = some g)
    (p : MetricId → Adapter → Bool) :
    Removed d (d.removeMatching r p).2 r g p := by
  rw [removeMatching_eq h hr]
  exact removed_less h hr p

/-! ## Single metrics -/

/-- **Removing a metric** is removing the metrics of its id. -/
theorem Coherent.remove_eq_removeMatching (h : d.Coherent) (hr : d.registry? r = some g)
    (id : MetricId) :
    d.remove r id = ((d.metric? r id).isSome,
      (d.removeMatching r fun id' _ => decide (id' = g.normalize d.settings id)).2) := by
  rw [remove_eq h hr, removeMatching_eq h hr, SortedMap.keys_filter_eq]
  unfold metric?
  rw [hr, Option.bind_some]
  split
  · rename_i hstored
    rw [hstored, discard_eq_less h hr]
    rfl
  · rename_i hstored
    rw [Bool.not_eq_true] at hstored
    rw [hstored]
    exact Prod.ext rfl (less_nil h hr).symm

theorem Removed.scope (hd : Removed d d' r g p) (hr' : d'.registry? r = some g') :
    g'.scope = g.scope := by
  obtain ⟨g₁, hr₁, heq, -⟩ := hd.registry
  rw [hr'] at hr₁
  cases hr₁
  rw [heq]

/-- A metric that was removed is not found again, and removing it once more does nothing. -/
theorem Coherent.remove_remove (h : d.Coherent) (hr : d.registry? r = some g) (id : MetricId) :
    (d.remove r id).2.metric? r id = none ∧
    (d.remove r id).2.remove r id = (false, (d.remove r id).2) := by
  have hd := removed_removeMatching h hr fun id' _ => decide (id' = g.normalize d.settings id)
  rw [← congrArg Prod.snd (h.remove_eq_removeMatching hr id)] at hd
  obtain ⟨g', hr', heq, hmetrics, -⟩ := hd.registry
  have hid : g'.normalize (d.remove r id).2.settings id = g.normalize d.settings id := by
    rw [hd.rest.1, heq]
    rfl
  have hnone : g'.metrics.get? (g.normalize d.settings id) = none :=
    Option.eq_none_iff_forall_not_mem.mpr fun a ha => by simpa using ((hmetrics _ a).mp ha).2
  constructor
  · unfold metric?
    rw [hr', Option.bind_some, hid, hnone]
  · have hcoherent : (d.remove r id).2.Coherent := coherent_apply (.remove r id) h
    rw [remove_eq hcoherent hr', hid, hnone]
    rfl

/-! ## Names that no metric is left of -/

/-- A name of a scope that a registry knows nothing of can be registered as any kind. -/
structure Unbound (d : Directory) (r : RegistryRef) (scope name : String) : Prop where
  unknown : ∃ g, d.registry? r = some g ∧ g.metadata? name = none ∧ g.kindOf? name = none
  /-- A registration whose tags name no other scope succeeds when there is a meter for it, which for
  a counter and a gauge there always is, -/
  accepted : ∀ q metadata tags, metadata.name = name →
    (∀ value, givenScope? tags = some value → value = scope) →
      ((∃ a, (d.request r metadata tags q).1 = .ok a) ↔
      ∃ value, (q.spec d.settings name).initial = .ok value)
  /-- fails only for the distribution, -/
  refused : ∀ q metadata tags e, metadata.name = name →
    (∀ value, givenScope? tags = some value → value = scope) →
      ((d.request r metadata tags q).1 = .error e ↔
        ∃ fault, (q.spec d.settings name).initial = .error fault ∧ e = .distribution name fault)
  /-- and binds the name to its own kind and metadata. -/
  bound : ∀ q metadata tags a, metadata.name = name → (d.request r metadata tags q).1 = .ok a →
    a.kind = q.kind ∧ ∃ g, registry? (d.request r metadata tags q).2 r = some g ∧
      g.names.get? name = some ⟨metadata, q.kind⟩

theorem Coherent.unbound (h : d.Coherent) (hr : d.registry? r = some g) {name : String}
    (hname : name ≠ "") (hdrop : g.dropped = false)
    (hnone : ∀ id a, g.metrics.get? id = some a → id.name ≠ name) :
    d.Unbound r g.scope name := by
  have hentry : g.names.get? name = none := by
    refine Option.eq_none_iff_forall_not_mem.mpr fun e he => ?_
    obtain ⟨id, a, ha, hid⟩ := h.names_used r g name e hr he
    exact hnone id a ha hid
  have hrefused : ∀ q metadata tags e, metadata.name = name →
      (∀ value, givenScope? tags = some value → value = g.scope) →
      ((d.request r metadata tags q).1 = .error e ↔
        ∃ fault, (q.spec d.settings name).initial = .error fault ∧
          e = .distribution name fault) := by
    rintro q metadata tags e rfl htag
    rw [request_error_iff h hr]
    constructor
    · intro he
      cases he with
      | emptyName hempty => exact absurd hempty hname
      | reservedTag _ hgiven hvalue => exact absurd (htag _ hgiven) hvalue
      | scopeDropped _ _ hdropped => exact nomatch hdrop.symm.trans hdropped
      | kindConflict _ _ _ ha hid _ => exact absurd hid (hnone _ _ ha)
      | distribution _ _ _ _ _ _ hfault => exact ⟨_, hfault, rfl⟩
    · rintro ⟨fault, hfault, rfl⟩
      cases hid : g.metricId d.settings metadata.name tags with
      | error e =>
        obtain ⟨value, hvalue, hne, -⟩ := Registry.metricId_error.mp hid
        exact absurd (htag value (by rwa [Tags.get?_ofList] at hvalue)) hne
      | ok id =>
        refine .distribution hname htag hdrop
          (fun id' a ha hid' => absurd hid' (hnone id' a ha)) hid ?_ hfault
        exact Option.eq_none_iff_forall_not_mem.mpr fun a ha =>
          hnone id a ha (Registry.metricId_ok hid).1
  refine ⟨⟨g, hr, ?_, ?_⟩, fun q metadata tags hmetadata htag => ?_, hrefused, ?_⟩
  · unfold Registry.metadata?
    rw [hentry, Option.map_none]
  · unfold Registry.kindOf?
    rw [hentry, Option.map_none]
  · have hiff := hrefused q metadata tags
    cases hinitial : (q.spec d.settings name).initial with
    | ok value =>
      refine ⟨fun _ => ⟨value, rfl⟩, fun _ => ?_⟩
      cases hanswer : (d.request r metadata tags q).1 with
      | ok a => exact ⟨a, rfl⟩
      | error e =>
        obtain ⟨fault, hfault, -⟩ := (hiff e hmetadata htag).mp hanswer
        exact nomatch hinitial.symm.trans hfault
    | error fault =>
      refine ⟨fun ⟨a, ha⟩ => ?_, fun ⟨_, hvalue⟩ => nomatch hvalue⟩
      exact nomatch ha.symm.trans ((hiff _ hmetadata htag).mpr ⟨fault, hinitial, rfl⟩)
  · rintro q metadata tags a rfl hok
    have hnames := names_register h hr q metadata tags
    rw [hok] at hnames
    refine ⟨?_, _, (effect h (.register r q metadata tags)).registry hr, ?_⟩
    · obtain ⟨g', hr', hv⟩ := request_ok h hok
      rw [hr] at hr'
      cases hr'
      obtain hv | ⟨id, value, -, rfl⟩ := hv
      · obtain ⟨-, id, hid, ha, -⟩ := Registry.verdict_reuse hv
        exact absurd (Registry.metricId_ok hid).1 (hnone id a ha)
      · exact kind_newcomer id
    · rw [hnames]
      refine (SortedMap.get?_insert ..).trans ((if_pos rfl).trans ?_)
      unfold Registry.effective
      rw [hentry]

/-! ## Removals -/

/-- How metrics are removed from the registry `r`, at present `g`. -/
structure Removing (settings : RegistrySettings) (d : Directory) (r : RegistryRef) (g : Registry) :
    Prop where
  /-- The metrics that satisfy a condition are removed and no other ones, and their number is
  told. -/
  matching : ∀ p, (d.removeMatching r p).1 = (g.metrics.filter p).size ∧
    Removed d (d.removeMatching r p).2 r g p
  /-- A name whose metrics all satisfied the condition can be registered again. -/
  again : ∀ p name, (∃ id a, g.metrics.get? id = some a ∧ id.name = name) →
    (∀ id a, g.metrics.get? id = some a → id.name = name → p id a = true) →
      (d.removeMatching r p).2.Unbound r g.scope name
  /-- A name is removed by the condition to be of the name. -/
  byName : ∀ name, (d.removeByName r name).2 = (d.removeMatching r fun id _ => id.name == name).2 ∧
    ((d.removeByName r name).1 = true ↔ ∃ id a, g.metrics.get? id = some a ∧ id.name = name)
  /-- An id removes what it finds, by the condition to be of its identity. -/
  single : ∀ id, (d.remove r id).1 = (d.metric? r id).isSome ∧
    (d.remove r id).2 = (d.removeMatching r fun id' _ => decide (id' = g.normalize settings id)).2 ∧
    ∀ id' a, g.metrics.get? id' = some a →
      (id' = g.normalize settings id ↔
        settings.identityOfId g.scope id' = settings.identityOfId g.scope id)
  twice : ∀ id, (d.remove r id).2.metric? r id = none ∧
    (d.remove r id).2.remove r id = (false, (d.remove r id).2)

/-- **Removal is exact**, in every history and through every registry. -/
theorem removed_exactly (settings : RegistrySettings) (platform : PlatformReadings)
    (acts : List Action) (r : RegistryRef) (g : Registry)
    (hr : registry? (reached settings platform acts) r = some g) :
    Removing settings (reached settings platform acts) r g := by
  have h := coherent_reached settings platform acts
  have hs : (reached settings platform acts).settings = settings := settings_reached acts
  refine ⟨fun p => ⟨congrArg Prod.fst (removeMatching_eq h hr p), removed_removeMatching h hr p⟩,
    fun p name hknown hall => ?_, fun name => ⟨rfl, ?_⟩, fun id => ?_, h.remove_remove hr⟩
  · obtain ⟨id, a, ha, rfl⟩ := hknown
    have hd := removed_removeMatching h hr p
    obtain ⟨g', hr', heq, hmetrics, -⟩ := hd.registry
    have hcoherent : (removeMatching (reached settings platform acts) r p).2.Coherent :=
      coherent_apply (.removeMatching r p) h
    have hname : id.name ≠ "" := by
      obtain ⟨_, _, hb⟩ := h.backed r g id a hr ha
      rw [← hb.stored]
      exact named_reached settings platform acts r a ⟨g, id, hr, ha⟩
    have hdrop : g.dropped = false := h.not_dropped hr ha
    rw [← hd.scope hr']
    refine hcoherent.unbound hr' hname (heq ▸ hdrop) fun id' a' ha' hid' => ?_
    obtain ⟨ha', hkept⟩ := (hmetrics id' a').mp ha'
    exact nomatch hkept.symm.trans (hall id' a' ha' hid')
  · unfold removeByName
    rw [removeMatching_eq h hr]
    simp only [decide_eq_true_eq]
    rw [← SortedMap.length_keys, List.length_pos_iff_exists_mem]
    simp only [SortedMap.mem_keys, SortedMap.get?_filter, Option.filter_eq_some_iff, beq_iff_eq]
  · have hremove := h.remove_eq_removeMatching hr id
    rw [hs] at hremove
    refine ⟨congrArg Prod.fst hremove, congrArg Prod.snd hremove, fun id' a ha => ?_⟩
    obtain ⟨_, _, hb⟩ := h.backed r g id' a hr ha
    rw [eq_comm, Registry.normalize_eq_iff (hs ▸ hb.normal), eq_comm]

/-- Two counters of one name are removed by the name and leave it free; a third one keeps its
adapter, its value and its metadata. -/
theorem removed_exactly_counters :
    let settings : RegistrySettings := ⟨∅, none, {}, true⟩
    let kept : Metadata := ⟨"kept", some "bytes", some "what stays"⟩
    let made : List Action := [.openScope "s", .register 0 .counter (.ofName "n") [],
      .register 0 .counter (.ofName "n") [⟨⟨"k", by decide⟩, "v"⟩], .register 0 .counter kept []]
    let written : List Action := (metric? (reached settings default made) 0 ⟨"kept", ∅⟩).toList.map
      fun a => .write a (.increment 3)
    let d := reached settings default (made ++ written)
    let d' := (d.removeByName 0 "n").2
    (d.removeByName 0 "n").1 = true ∧ (d.removeMatching 0 fun id _ => id.name == "n").1 = 2 ∧
    d'.Unbound 0 "s" "n" ∧
    ∃ g g' a, d.registry? 0 = some g ∧ g.metrics.size = 3 ∧ d'.registry? 0 = some g' ∧
      g'.metrics.get? ⟨"kept", ∅⟩ = some a ∧ g.metrics.get? ⟨"kept", ∅⟩ = some a ∧
      a.counterValue d'.store = 3 ∧ g'.names.get? "kept" = some ⟨kept, .counter⟩ := by
  intro settings kept made written d d'
  obtain ⟨g, hr⟩ := Option.isSome_iff_exists.mp (show (d.registry? 0).isSome by decide +kernel)
  have hremoving : Removing settings d 0 g :=
    removed_exactly settings default (made ++ written) 0 g hr
  have hbefore : (d.registry? 0).map (fun g => (g.scope, g.metrics.size,
      (g.metrics.filter fun id _ => id.name == "n").size, (g.metrics.get? ⟨"n", ∅⟩).isSome)) =
        some ("s", 3, 2, true) := by decide +kernel
  have hcounted : (d.registry? 0).bind (fun g =>
      (g.metrics.get? ⟨"kept", ∅⟩).map (·.counterValue d.store)) = some 3 := by decide +kernel
  have hentry : (d.registry? 0).bind (fun g => g.names.get? "kept") = some ⟨kept, .counter⟩ := by
    decide +kernel
  -- From here on the theorem alone counts, and not what the directory was made of.
  clear_value d kept
  rw [hr] at hbefore hcounted hentry
  simp only [Option.map_some, Option.some.injEq, Prod.mk.injEq, Option.isSome_iff_exists] at hbefore
  obtain ⟨hscope, hsize, htwo, a, ha⟩ := hbefore
  obtain ⟨b, hb, hvalue⟩ := Option.map_eq_some_iff.mp hcounted
  obtain ⟨hsame, htold⟩ := hremoving.byName "n"
  obtain ⟨hcount, hremoved⟩ := hremoving.matching fun id _ => id.name == "n"
  have hfree := hremoving.again _ "n" ⟨⟨"n", ∅⟩, a, ha, rfl⟩ fun _ _ _ hname => beq_iff_eq.mpr hname
  rw [← hsame] at hremoved hfree
  obtain ⟨g', hr', -, hmetrics, hnames⟩ := hremoved.registry
  have hkept : g'.metrics.get? ⟨"kept", ∅⟩ = some b := (hmetrics _ b).mpr ⟨hb, by decide⟩
  refine ⟨htold.mpr ⟨⟨"n", ∅⟩, a, ha, rfl⟩, hcount.trans htwo, hscope ▸ hfree, g, g', b,
    hr, hsize, hr', hkept, hb, ?value, ?metadata⟩
  case value => exact (hremoved.reading b).1.trans hvalue
  case metadata => exact (hnames "kept" _).mpr ⟨hentry, ⟨"kept", ∅⟩, b, hkept, rfl⟩

end Directory

end Telemetry
