import Telemetry.Proofs.Directory.Effects

/-!
# Scopes founded and dissolved

A new scope comes with an empty registry and an attached scope store (`found`); when it goes its
registry loses everything and stays behind as a dropped one, and its scope store is detached
(`dissolve`). Both keep the directory coherent.
-/

namespace Telemetry

/-- A registry that lost everything and was dropped. -/
def Registry.drop (g : Registry) : Registry :=
  { g with metrics := ∅, names := ∅, mappings := ∅, dropped := true }

namespace Directory

/-- A new scope with an empty registry. -/
def found (d : Directory) (scope : String) : Directory :=
  { d with
    gates := (d.gates.scopeGate scope).2
    store := (d.store.attach (d.gates.scopeGate scope).1 d.settings.globalTags).2
    registries := d.registries ++ [Registry.new scope d.registries.length]
    scopes := d.scopes.insert scope d.registries.length }

/-- A scope gone, with its meters and their composites. -/
def dissolve (d : Directory) (r : RegistryRef) (scope : String) : Directory :=
  { d.modifyRegistry r Registry.drop with
    scopes := d.scopes.erase scope
    store :=
      { d.store with
        attached := d.store.attached.erase r
        composites := d.store.composites.filter fun id _ => id.tags.get? scopeKey ≠ some scope
        scopes := d.store.scopes.modify r fun c => { c with meters := ∅ } } }

variable {d : Directory} {r q : RegistryRef} {g g' : Registry} {scope : String}

/-! ## Founding -/

theorem registry?_found (d : Directory) (scope : String) (q : RegistryRef) :
    registry? (d.found scope) q =
      if q = d.registries.length then some (Registry.new scope d.registries.length)
      else d.registry? q :=
  getElem?_append_one ..

theorem scope?_found (d : Directory) (scope : String) (n : ScopeRef) :
    (d.found scope).store.scope? n =
      if n = d.store.scopes.length then
        some ⟨(d.gates.scopeGate scope).1, d.settings.globalTags, ∅⟩
      else d.store.scope? n :=
  getElem?_append_one ..

/-- A new scope store has no meters. -/
theorem find?_found (d : Directory) (scope : String) (n : ScopeRef) (mid : MetricId) :
    (d.found scope).store.find? n mid = d.store.find? n mid := by
  unfold MeterStore.find?
  rw [scope?_found]
  split
  · rename_i hn
    have hnone : d.store.scope? n = none := by
      rw [hn]
      exact List.getElem?_eq_none (Nat.le_refl _)
    rw [hnone]
    rfl
  · rfl

theorem registry_lt (h : d.registry? q = some g) : q < d.registries.length :=
  (List.getElem?_eq_some_iff.mp h).1

/-- The registries of the directory that was. -/
theorem registry?_found_of_registry (scope : String) (h : d.registry? q = some g) :
    registry? (d.found scope) q = some g := by
  rw [registry?_found, if_neg (Nat.ne_of_lt (registry_lt h)), h]

/-- A registry after a founding is the new one or an old one. -/
theorem registry_of_found (h : registry? (d.found scope) q = some g) :
    q = d.registries.length ∧ g = Registry.new scope d.registries.length ∨
      d.registry? q = some g := by
  rw [registry?_found] at h
  split at h
  · rename_i hq
    cases h
    exact .inl ⟨hq, rfl⟩
  · exact .inr h

theorem Aligned.found (h : d.Aligned) (hnew : d.scopes.get? scope = none) :
    (d.found scope).Aligned where
  stores := by
    show (d.store.scopes ++ [_]).length = (d.registries ++ [_]).length
    rw [List.length_append, List.length_append, h.stores]
    rfl
  store := by
    intro q g' hq
    obtain ⟨rfl, rfl⟩ | hq := registry_of_found hq
    · rfl
    · exact h.store q g' hq
  scope := by
    intro q g' c hq hc
    rw [scope?_found, h.stores] at hc
    obtain ⟨rfl, rfl⟩ | hq := registry_of_found hq
    · rw [if_pos rfl] at hc
      cases hc
      exact ⟨VisibilityGate.gate?_scopeGate d.gates scope, rfl⟩
    · rw [if_neg (Nat.ne_of_lt (registry_lt hq))] at hc
      obtain ⟨hgate, htags⟩ := h.scope q g' c hq hc
      exact ⟨VisibilityGate.gate?_of_scopeGate hgate, htags⟩
  gates := h.gates.scopeGate scope
  current := by
    intro s q
    show (d.scopes.insert scope _).get? s = some q ↔ _
    rw [SortedMap.get?_insert]
    constructor
    · intro hs
      split at hs
      · rename_i heq
        cases hs
        exact ⟨_, (registry?_found ..).trans (if_pos rfl), heq.symm, rfl⟩
      · obtain ⟨g', hq, hg'⟩ := (h.current s q).mp hs
        exact ⟨g', registry?_found_of_registry scope hq, hg'⟩
    · rintro ⟨g', hq, rfl, hdrop⟩
      obtain ⟨rfl, rfl⟩ | hq := registry_of_found hq
      · exact if_pos rfl
      · have hcur := (h.current g'.scope q).mpr ⟨g', hq, rfl, hdrop⟩
        rw [if_neg, hcur]
        intro heq
        rw [heq, hnew] at hcur
        cases hcur
  attached := by
    intro n
    show n ∈ d.store.attached ++ [d.store.scopes.length] ↔ _
    rw [List.mem_append, List.mem_singleton, h.stores, h.attached n]
    constructor
    · rintro (⟨g', hq, hdrop⟩ | rfl)
      · exact ⟨g', registry?_found_of_registry scope hq, hdrop⟩
      · exact ⟨_, (registry?_found ..).trans (if_pos rfl), rfl⟩
    · rintro ⟨g', hq, hdrop⟩
      obtain ⟨rfl, -⟩ | hq := registry_of_found hq
      · exact .inr rfl
      · exact .inl ⟨g', hq, hdrop⟩
  attached_nodup := by
    show (d.store.attached ++ [d.store.scopes.length]).Nodup
    refine List.nodup_append.mpr ⟨h.attached_nodup, by simp, ?_⟩
    intro n hn k hk heq
    rw [List.mem_singleton] at hk
    obtain ⟨g', hq, -⟩ := (h.attached n).mp hn
    have := registry_lt hq
    rw [heq, hk, h.stores] at this
    exact Nat.lt_irrefl _ this

theorem Coherent.found (h : d.Coherent) (hnew : d.scopes.get? scope = none) :
    (d.found scope).Coherent where
  toAligned := h.toAligned.found hnew
  dropped := by
    intro q g' hq hdrop
    obtain ⟨-, rfl⟩ | hq := registry_of_found hq
    · cases hdrop
    · exact h.dropped q g' hq hdrop
  backed := by
    intro q g' id a hq ha
    obtain ⟨-, rfl⟩ | hq := registry_of_found hq
    · cases ha
    · obtain ⟨m, meter, hb⟩ := h.backed q g' id a hq ha
      exact ⟨m, meter, hb.congr rfl rfl rfl ((find?_found ..).trans hb.found) hb.present rfl rfl
        hb.composite hb.name (Nat.le_refl _)⟩
  meter_used := by
    intro q g' mid m hq hm
    rw [find?_found] at hm
    obtain ⟨rfl, -⟩ | hq := registry_of_found hq
    · unfold MeterStore.find? at hm
      rw [← h.stores, show d.store.scope? d.store.scopes.length = none from
        List.getElem?_eq_none (Nat.le_refl _)] at hm
      cases hm
    · exact h.meter_used q g' mid m hq hm
  composite_used := by
    intro mid c hc
    obtain ⟨q, g', id, a, hq, ha, hmid⟩ := h.composite_used mid c hc
    exact ⟨q, g', id, a, registry?_found_of_registry scope hq, ha, hmid⟩
  name_key := by
    intro q g' n e hq he
    obtain ⟨-, rfl⟩ | hq := registry_of_found hq
    · cases he
    · exact h.name_key q g' n e hq he
  names_used := by
    intro q g' n e hq he
    obtain ⟨-, rfl⟩ | hq := registry_of_found hq
    · cases he
    · exact h.names_used q g' n e hq he

/-! ## Dissolving -/

/-- The meters of the scope store that was dissolved are gone. -/
theorem find?_dissolve (d : Directory) (r : RegistryRef) (scope : String) (n : ScopeRef)
    (mid : MetricId) :
    (d.dissolve r scope).store.find? n mid = if n = r then none else d.store.find? n mid := by
  have hscope : (d.dissolve r scope).store.scope? n = if n = r then
      (d.store.scope? n).map (fun c => { c with meters := ∅ }) else d.store.scope? n :=
    MeterStore.scope?_modifyScope d.store r (fun c => { c with meters := ∅ }) n
  unfold MeterStore.find?
  rw [hscope]
  split
  · cases d.store.scope? n <;> rfl
  · rfl

theorem Aligned.dissolve (h : d.Aligned) (hr : d.registry? r = some g) (hg : g.dropped = false) :
    (d.dissolve r g.scope).Aligned where
  stores := by
    show (d.store.scopes.modify r _).length = (d.registries.modify r _).length
    rw [List.length_modify, List.length_modify, h.stores]
  store := by
    intro q g' hq
    obtain ⟨g₀, hg₀, ⟨-, rfl⟩ | ⟨-, rfl⟩⟩ := registry_of_modify (d := d) hq
    · exact h.store q g₀ hg₀
    · exact h.store q _ hg₀
  scope := by
    intro q g' c' hq hc
    have hc' := (MeterStore.scope?_modifyScope d.store r _ q).symm.trans hc
    obtain ⟨g₀, hg₀, ⟨rfl, rfl⟩ | ⟨hne, rfl⟩⟩ := registry_of_modify (d := d) hq
    · rw [if_pos rfl] at hc'
      obtain ⟨c, hc₀, rfl⟩ := Option.map_eq_some_iff.mp hc'
      exact h.scope q g₀ c hg₀ hc₀
    · rw [if_neg hne] at hc'
      exact h.scope q _ c' hg₀ hc'
  gates := h.gates
  current := by
    intro s q
    show (d.scopes.erase g.scope).get? s = some q ↔ _
    rw [SortedMap.get?_erase]
    constructor
    · intro hs
      split at hs
      · cases hs
      · rename_i hne
        obtain ⟨g', hq, hsc, hdrop⟩ := (h.current s q).mp hs
        have hqr : q ≠ r := by
          rintro rfl
          rw [hr] at hq
          cases hq
          exact hne hsc.symm
        exact ⟨g', (modify_of_registry _ hq).trans (by rw [if_neg hqr]), hsc, hdrop⟩
    · rintro ⟨g', hq, rfl, hdrop⟩
      obtain ⟨g₀, hg₀, ⟨-, rfl⟩ | ⟨hne, rfl⟩⟩ := registry_of_modify (d := d) hq
      · cases hdrop
      · rw [if_neg, (h.current _ q).mpr ⟨_, hg₀, rfl, hdrop⟩]
        exact fun hs => hne (h.eq_of_scope hg₀ hr hdrop hg hs)
  attached := by
    intro n
    show n ∈ d.store.attached.erase r ↔ _
    rw [h.attached_nodup.mem_erase_iff, h.attached n]
    constructor
    · rintro ⟨hne, g', hq, hdrop⟩
      exact ⟨g', (modify_of_registry _ hq).trans (by rw [if_neg hne]), hdrop⟩
    · rintro ⟨g', hq, hdrop⟩
      obtain ⟨g₀, hg₀, ⟨-, rfl⟩ | ⟨hne, rfl⟩⟩ := registry_of_modify (d := d) hq
      · cases hdrop
      · exact ⟨hne, _, hg₀, hdrop⟩
  attached_nodup := h.attached_nodup.erase r

theorem Coherent.dissolve (h : d.Coherent) (hr : d.registry? r = some g) (hg : g.dropped = false) :
    (d.dissolve r g.scope).Coherent where
  toAligned := h.toAligned.dissolve hr hg
  dropped := by
    intro q g' hq hdrop
    obtain ⟨g₀, hg₀, ⟨-, rfl⟩ | ⟨-, rfl⟩⟩ := registry_of_modify (d := d) hq
    · exact ⟨rfl, rfl⟩
    · exact h.dropped q _ hg₀ hdrop
  backed := by
    intro q g' id a hq ha
    obtain ⟨g₀, hg₀, ⟨-, rfl⟩ | ⟨hne, rfl⟩⟩ := registry_of_modify (d := d) hq
    · cases ha
    · obtain ⟨m, meter, hb⟩ := h.backed q _ id a hg₀ ha
      refine ⟨m, meter, hb.congr rfl rfl rfl ?_ hb.present rfl rfl ?_ hb.name (Nat.le_refl _)⟩
      · rw [find?_dissolve, if_neg, hb.found]
        rw [h.store q _ hg₀]
        exact hne
      · show (d.store.composites.filter _).get? _ = _
        rw [SortedMap.get?_filter, hb.composite, Option.filter_some, if_pos]
        rw [Registry.scope_meterId]
        simp only [ne_eq, Option.some.injEq, decide_eq_true_eq]
        exact fun hs => hne (h.eq_of_scope hg₀ hr (h.not_dropped hg₀ ha) hg hs)
  meter_used := by
    intro q g' mid m hq hm
    rw [find?_dissolve] at hm
    split at hm
    · cases hm
    · rename_i hne
      obtain ⟨g₀, hg₀, ⟨heq, -⟩ | ⟨-, rfl⟩⟩ := registry_of_modify (d := d) hq
      · exact absurd heq hne
      · exact h.meter_used q _ mid m hg₀ hm
  composite_used := by
    intro mid c hc
    have hc' := (SortedMap.get?_filter ..).symm.trans hc
    rw [Option.filter_eq_some_iff] at hc'
    obtain ⟨q, g₀, id, a, hq, ha, hmid⟩ := h.composite_used mid c hc'.1
    have hqr : q ≠ r := by
      rintro rfl
      rw [hr] at hq
      cases hq
      have := hc'.2
      rw [hmid, Registry.scope_meterId] at this
      simp at this
    exact ⟨q, g₀, id, a, (modify_of_registry _ hq).trans (by rw [if_neg hqr]), ha, hmid⟩
  name_key := by
    intro q g' n e hq he
    obtain ⟨g₀, hg₀, ⟨-, rfl⟩ | ⟨-, rfl⟩⟩ := registry_of_modify (d := d) hq
    · cases he
    · exact h.name_key q _ n e hg₀ he
  names_used := by
    intro q g' n e hq he
    obtain ⟨g₀, hg₀, ⟨-, rfl⟩ | ⟨-, rfl⟩⟩ := registry_of_modify (d := d) hq
    · cases he
    · exact h.names_used q _ n e hg₀ he

end Directory

end Telemetry
