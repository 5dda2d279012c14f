import Telemetry.Proofs.Directory.Scopes

/-!
# What removals and scope changes come to

In a coherent directory each of these operations is one of the effects, or nothing:

* `remove_eq`: removing a metric that is there discards it;
* `openScope_eq`: opening a scope that does not exist founds it;
* `dropScope_eq`: dropping a scope that exists dissolves it. The meters are unregistered one after
  the other before the scope store is detached; that order leaves nothing that the detaching alone
  would not (`MeterStore.Shrunk`).
-/

namespace Telemetry

/-- The store as another one, up to what belongs to one scope: its scope store's meters and the
composites with its tag. -/
structure MeterStore.Shrunk (scope : String) (n : ScopeRef) (s s' : MeterStore) : Prop where
  rest : s' = { s with scopes := s'.scopes, composites := s'.composites }
  composites : (s'.composites.filter fun id _ => id.tags.get? scopeKey ≠ some scope) =
    s.composites.filter fun id _ => id.tags.get? scopeKey ≠ some scope
  scopes : (s'.scopes.modify n fun c => { c with meters := ∅ }) =
    s.scopes.modify n fun c => { c with meters := ∅ }

namespace MeterStore.Shrunk

variable {scope : String} {n : ScopeRef} {s s' s'' : MeterStore}

theorem refl : Shrunk scope n s s := ⟨rfl, rfl, rfl⟩

theorem trans (h : Shrunk scope n s s') (h' : Shrunk scope n s' s'') : Shrunk scope n s s'' where
  rest := by rw [h'.rest, h.rest]
  composites := h'.composites.trans h.composites
  scopes := h'.scopes.trans h.scopes

theorem attached (h : Shrunk scope n s s') : s'.attached = s.attached := by
  rw [h.rest]

theorem scope?_clear (h : Shrunk scope n s s') (k : ScopeRef) :
    (s'.clearScope n).scope? k = (s.clearScope n).scope? k :=
  congrArg (fun l : List ScopeStore => l[k]?) h.scopes

/-- The other scope stores are as they were. -/
theorem scope? (h : Shrunk scope n s s') {k : ScopeRef} (hk : k ≠ n) :
    s'.scope? k = s.scope? k := by
  have := h.scope?_clear k
  unfold clearScope at this
  rwa [scope?_modifyScope, scope?_modifyScope, if_neg hk, if_neg hk] at this

theorem find? (h : Shrunk scope n s s') {k : ScopeRef} (hk : k ≠ n) (id : MetricId) :
    s'.find? k id = s.find? k id := by
  unfold MeterStore.find?
  rw [h.scope? hk]

/-- Unregistering an id of the scope. -/
theorem remove {id : MetricId} (hn : n ∈ s.attached)
    (hothers : ∀ k ∈ s.attached, k ≠ n → s.find? k id = none)
    (hid : id.tags.get? scopeKey = some scope) : Shrunk scope n s (s.remove id).2 := by
  rw [remove_eq hn hothers]
  refine ⟨rfl, SortedMap.ext_get? fun q => ?_, ?_⟩
  · show ((s.composites.erase id).filter _).get? q = _
    rw [SortedMap.get?_filter, SortedMap.get?_filter, SortedMap.get?_erase]
    by_cases hq : q = id
    · subst hq
      cases s.composites.get? q <;> simp [Option.filter, hid]
    · rw [if_neg hq]
  · refine List.ext_getElem? fun k => ?_
    show ((s.scopes.modify n _).modify n _)[k]? = _
    simp only [List.getElem?_modify]
    by_cases hk : n = k
    · subst hk
      cases s.scopes[n]? <;> simp
    · simp [hk]

/-- Unregistering ids of the scope one after the other. -/
theorem foldl {ids : List MetricId} (hn : n ∈ s.attached)
    (hids : ∀ id ∈ ids, id.tags.get? scopeKey = some scope ∧
      ∀ k ∈ s.attached, k ≠ n → s.find? k id = none) :
    Shrunk scope n s (ids.foldl (fun s id => (s.remove id).2) s) := by
  induction ids generalizing s with
  | nil => exact refl
  | cons id ids ih =>
    obtain ⟨hid, hothers⟩ := hids id List.mem_cons_self
    have hstep := remove hn hothers hid
    refine hstep.trans (ih (by rw [hstep.attached]; exact hn) fun q hq => ?_)
    obtain ⟨htag, hq⟩ := hids q (List.mem_cons_of_mem id hq)
    refine ⟨htag, fun k hk hne => ?_⟩
    rw [hstep.attached] at hk
    rw [hstep.find? hne, hq k hk hne]

end MeterStore.Shrunk

theorem find?_eq_of_unique {α : Type} {p : α → Bool} {l : List α} {a : α} (ha : a ∈ l)
    (hp : p a = true) (h : ∀ b ∈ l, p b = true → b = a) : l.find? p = some a := by
  cases hf : l.find? p with
  | none => exact absurd hp (by simpa using List.find?_eq_none.mp hf a ha)
  | some b => rw [h b (List.mem_of_find?_eq_some hf) (List.find?_some hf)]

namespace Directory

variable {d : Directory} {r : RegistryRef} {g : Registry} {scope : String}

/-! ## Removal -/

/-- **Removing a metric** discards it. -/
theorem remove_eq (h : d.Coherent) (hr : d.registry? r = some g) (id : MetricId) :
    d.remove r id =
      if (g.metrics.get? (g.normalize d.settings id)).isSome then
        (true, d.discard r (g.normalize d.settings id) (g.meterId (g.normalize d.settings id)))
      else (false, d) := by
  unfold remove
  rw [hr]
  simp only
  cases ha : g.metrics.get? (g.normalize d.settings id) with
  | none => rfl
  | some a =>
    obtain ⟨_, _, hb⟩ := h.backed r g _ a hr ha
    have hdrop := h.not_dropped hr ha
    have hremove : (d.store.remove (g.meterId (g.normalize d.settings id))).2 = _ :=
      congrArg Prod.snd <| MeterStore.remove_eq (h.mem_attached hr hdrop) fun k hk hne => by
        cases hm : d.store.find? k (g.meterId (g.normalize d.settings id)) with
        | none => rfl
        | some m =>
          obtain ⟨g', hr', -⟩ := (h.attached k).mp hk
          exact absurd (h.eq_of_find? hr hr' hdrop hb.normal hm).1 hne
    simp only [Option.isSome_some, if_true]
    rw [hb.composite_id]
    unfold discard
    show (true, ({ d.modifyRegistry r _ with store := (d.store.remove _).2 } : Directory)) = _
    rw [hremove]

/-! ## Scopes -/

/-- **Opening a scope** founds it unless it exists. -/
theorem openScope_eq (h : d.Aligned) (scope : String) :
    d.openScope scope =
      match d.scopes.get? scope with
      | some r => (r, d)
      | none => (d.registries.length, d.found scope) := by
  unfold openScope lookup?
  cases d.scopes.get? scope with
  | some r => rfl
  | none =>
    unfold found
    simp only [MeterStore.attach, h.stores]

/-- The scope store of an existing scope is found by its scope, also in a store that lost meters. -/
theorem attachedTo?_eq (h : d.Aligned) (hr : d.registry? r = some g) (hg : g.dropped = false)
    {s : MeterStore} (hattached : s.attached = d.store.attached)
    (hscope : ∀ k c', s.scope? k = some c' → ∃ c, d.store.scope? k = some c ∧ c'.gate = c.gate)
    (hexists : ∃ c', s.scope? r = some c') : s.attachedTo? g.scope = some r := by
  unfold MeterStore.attachedTo?
  rw [hattached]
  refine find?_eq_of_unique (h.mem_attached hr hg) ?_ fun k hk hp => ?_
  · obtain ⟨c', hc'⟩ := hexists
    obtain ⟨c, hc, hgate⟩ := hscope r c' hc'
    rw [hc', Option.any_some, hgate, h.gate_scope hr hc]
    exact decide_eq_true rfl
  · obtain ⟨g', hr', hg'⟩ := (h.attached k).mp hk
    cases hc' : s.scope? k with
    | none => rw [hc'] at hp; cases hp
    | some c' =>
      obtain ⟨c, hc, hgate⟩ := hscope k c' hc'
      rw [hc', Option.any_some, hgate, h.gate_scope hr' hc] at hp
      exact h.eq_of_scope hr' hr hg' hg (of_decide_eq_true hp)

/-- What dropping a scope leaves of the store. -/
theorem detach_clear_shrunk {s : MeterStore} (hs : d.store.Shrunk scope r s)
    (hfound : (s.clearScope r).attachedTo? scope = some r) :
    ((s.clearScope r).detach scope).2 = (d.dissolve r scope).store := by
  obtain ⟨hrest, hcomposites, hscopes⟩ := hs
  have htwice : ((s.scopes.modify r fun c => { c with meters := ∅ }).modify r fun c =>
      { c with meters := ∅ }) = s.scopes.modify r fun c => { c with meters := ∅ } := by
    refine List.ext_getElem? fun k => ?_
    simp only [List.getElem?_modify]
    by_cases hk : r = k
    · subst hk
      cases s.scopes[r]? <;> simp
    · simp [hk]
  unfold MeterStore.detach dissolve
  rw [hfound]
  unfold MeterStore.clearScope MeterStore.modifyScope
  simp only
  rw [htwice, hscopes, hcomposites, hrest]

/-- **Dropping a scope** dissolves it. -/
theorem dropScope_eq (h : d.Coherent) (scope : String) :
    d.dropScope scope =
      match d.scopes.get? scope with
      | none => (false, d)
      | some r => (true, d.dissolve r scope) := by
  unfold dropScope
  cases hs : d.scopes.get? scope with
  | none => rfl
  | some r =>
    obtain ⟨g, hr, rfl, hdrop⟩ := (h.current scope r).mp hs
    have hr' : registry? { d with scopes := d.scopes.erase g.scope } r = some g := hr
    simp only [hr', h.store r g hr]
    have hshrunk : d.store.Shrunk g.scope r (removeAll d.store g.metrics.values) := by
      unfold removeAll
      rw [← List.foldl_map (f := fun a : Adapter => a.composite.id)
        (g := fun (s : MeterStore) id => (s.remove id).2)]
      refine .foldl (h.mem_attached hr hdrop) fun mid hmid => ?_
      obtain ⟨a, hmem, rfl⟩ := List.mem_map.mp hmid
      obtain ⟨id, ha⟩ := SortedMap.mem_values.mp hmem
      obtain ⟨_, _, hb⟩ := h.backed r g id a hr ha
      rw [hb.composite_id]
      refine ⟨Registry.scope_meterId g id, fun k hk hne => ?_⟩
      cases hm : d.store.find? k (g.meterId id) with
      | none => rfl
      | some m =>
        obtain ⟨g', hr', -⟩ := (h.attached k).mp hk
        exact absurd (h.eq_of_find? hr hr' hdrop hb.normal hm).1 hne
    have hfound := attachedTo?_eq h.toAligned hr hdrop
      (s := (removeAll d.store g.metrics.values).clearScope r) hshrunk.attached ?_ ?_
    · rw [detach_clear_shrunk hshrunk hfound]
      rfl
    · intro k c' hc'
      rw [hshrunk.scope?_clear] at hc'
      unfold MeterStore.clearScope at hc'
      rw [MeterStore.scope?_modifyScope] at hc'
      split at hc'
      · obtain ⟨c, hc, heq⟩ := Option.map_eq_some_iff.mp hc'
        exact ⟨c, hc, heq ▸ rfl⟩
      · exact ⟨c', hc', rfl⟩
    · obtain ⟨c, hc⟩ := h.exists_scope hr
      refine ⟨{ c with meters := ∅ }, ?_⟩
      rw [hshrunk.scope?_clear]
      unfold MeterStore.clearScope
      rw [MeterStore.scope?_modifyScope, if_pos rfl, hc]
      rfl

end Directory

end Telemetry
