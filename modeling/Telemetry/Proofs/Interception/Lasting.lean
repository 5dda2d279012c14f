import Telemetry.Proofs.History.Identity
import Telemetry.Proofs.History.Metadata
import Telemetry.Proofs.Interception.Exact

/-!
# Members stay ready

What is mapped to a member in a scope stays mapped and registered until something `Unsettles` the
member: the scope is dropped, or a metric that is mapped to the member there is removed
(`mapped_applyAll`). A member that is ready stays ready until then (`Ready.applyAll`), whatever
metrics are mapped to it besides, so its interceptions succeed (`Ready.intercepts`). Only an id that
has no metric must not be mapped to it, and operations that declare map none
(`mapsFound_actionsAll`).
-/

namespace Telemetry

namespace Directory

variable {d d' : Directory} {r : RegistryRef} {g : Registry} {id : MetricId} {a : Adapter}
  {act : Action} {acts : List Action} {kind : AnnotationKind} {member : Member} {scope : String}

/-! ## What an action leaves of a member -/

/-- **Only a drop ends a scope.** -/
theorem Effect.lookup_after (he : Effect d act d') (hs : d.lookup? scope = some r)
    (hact : act ≠ .dropScope scope) : d'.lookup? scope = some r := by
  cases he with
  | found hnew => exact lookup?_found hnew hs
  | dissolve hr =>
    refine (SortedMap.get?_erase ..).trans ((if_neg ?_).trans hs)
    rintro rfl
    exact hact rfl
  | _ => exact hs

theorem mem_mapped (hs : d.lookup? scope = some r) (hr : d.registry? r = some g) :
    id ∈ d.mapped scope kind member ↔ id ∈ mappedIds g kind member := by
  rw [mapped_eq hs, hr, Option.map_some, Option.getD_some]

/-- **Only a drop takes ids off a member**, and an action maps one id more at most. -/
theorem mem_mapped_apply (h : d.Coherent) (hs : d.lookup? scope = some r)
    (hact : act ≠ .dropScope scope) :
    id ∈ (act.apply d).mapped scope kind member ↔
      id ∈ d.mapped scope kind member ∨ act = .mapMember r kind member id := by
  have he := effect h act
  obtain ⟨g, hr, -, -⟩ := (h.current scope r).mp hs
  have hs' := he.lookup_after hs hact
  have hr' := he.registry hr
  rw [mem_mapped hs hr, mem_mapped hs' hr']
  constructor
  · exact mem_mappedIds_registryAfter
  rintro (hid | rfl)
  · obtain ⟨hsame, -⟩ | hdrop | hmark | ⟨kind', member', id', -, hmap⟩ :=
      marks_registryAfter d r g act
    · rwa [mappedIds_congr hsame]
    · have hdropped := ((h.action act).of_lookup hs' hr').2
      rw [hdrop] at hdropped
      cases hdropped
    · rwa [hmark]
    · rw [hmap]
      exact mem_mappedIds_mapMember.mpr (.inl hid)
  · simp only [registryAfter, if_true]
    exact mem_mappedIds_mapMember.mpr (.inr ⟨rfl, rfl, rfl⟩)

/-- **Only its removal or a drop loses a metric** that an id names. -/
theorem metric?_apply (h : d.Coherent) (hs : d.lookup? scope = some r)
    (ha : d.metric? r id = some a) (hact : act ≠ .dropScope scope)
    (hremoved : ∀ id', act = .remove r id' → d.metric? r id' ≠ some a) :
    (act.apply d).metric? r id = some a := by
  have he := effect h act
  obtain ⟨g, hr, hscope, -⟩ := (h.current scope r).mp hs
  unfold metric? at ha hremoved ⊢
  simp only [hr, Option.bind_some] at ha hremoved
  rw [he.registry hr, Option.bind_some, he.settings,
    Registry.normalize_congr (same_registryAfter d r g act).1]
  by_cases hremove : ∃ id', act = .remove r id'
  · obtain ⟨id', rfl⟩ := hremove
    rw [get?_registryAfter_remove, if_neg, ha]
    intro heq
    exact hremoved id' rfl (heq ▸ ha)
  · have hspares : act.Spares r g.scope := by
      cases act with
      | remove q id' =>
        rintro rfl
        exact hremove ⟨id', rfl⟩
      | dropScope dropped =>
        rintro rfl
        exact hact (congrArg _ hscope)
      | _ => trivial
    obtain ⟨g', hr', -, ha'⟩ := he.spared h hr ha hspares
    rw [he.registry hr] at hr'
    cases hr'
    exact ha'

/-- Nothing is mapped in a scope that did not exist before the action. -/
theorem mapped_apply_of_new (h : d.Coherent) (hs : d.lookup? scope = none) (act : Action) :
    (act.apply d).mapped scope kind member = [] := by
  have he := effect h act
  cases hs' : (act.apply d).lookup? scope with
  | none => exact mapped_of_new hs' kind member
  | some r =>
    obtain ⟨g', hr', -, -⟩ := ((h.action act).current scope r).mp hs'
    cases hr : d.registry? r with
    | some g => exact nomatch hs.symm.trans (he.lookup_before h (h.action act) hs' hr)
    | none =>
      obtain ⟨_, -, -, rfl⟩ := he.registry_new hr hr'
      rw [mapped_eq hs', hr']
      exact mappedIds_of_empty (g := Registry.new _ r) rfl kind member

/-! ## Until a member is unsettled -/

/-- What ends the readiness of a member in a scope. -/
inductive Unsettles (d : Directory) (scope : String) (kind : AnnotationKind) (member : Member) :
    Action → Prop
  | dropped : Unsettles d scope kind member (.dropScope scope)
  | removed {r : RegistryRef} {id : MetricId} {a : Adapter} (hs : d.lookup? scope = some r)
      (hid : d.metric? r id = some a) (ha : d.Mapped scope kind member a) :
      Unsettles d scope kind member (.remove r id)

/-- Nothing unsettles the member in the course of the actions. -/
def Undisturbed (d : Directory) (scope : String) (kind : AnnotationKind) (member : Member)
    (acts : List Action) : Prop :=
  Action.Along (fun d act => ¬ d.Unsettles scope kind member act) acts d

/-- An id that the action maps to the member in the scope is that of a metric of the kind. -/
def MapsFound (scope : String) (kind : AnnotationKind) (member : Member) (d : Directory)
    (act : Action) : Prop :=
  ∀ r id, d.lookup? scope = some r → act = .mapMember r kind member id →
    (d.resolved? scope kind id).isSome

/-- What is mapped to the member is there, but for what is excused. -/
def FoundBut (d : Directory) (scope : String) (kind : AnnotationKind) (member : Member)
    (excused : MetricId → Prop) : Prop :=
  ∀ id ∈ d.mapped scope kind member, excused id ∨ (d.resolved? scope kind id).isSome

theorem resolved?_apply (h : d.Coherent) (ha : d.resolved? scope kind id = some a)
    (hdrop : act ≠ .dropScope scope)
    (hremoved : ∀ r id', d.lookup? scope = some r → act = .remove r id' →
      d.metric? r id' ≠ some a) :
    (act.apply d).resolved? scope kind id = some a := by
  obtain ⟨r, hs, ha⟩ := Option.bind_eq_some_iff.mp ha
  obtain ⟨hget, hkind⟩ := Option.filter_eq_some_iff.mp ha
  rw [resolved?_eq ((effect h act).lookup_after hs hdrop)]
  exact Option.filter_eq_some_iff.mpr ⟨metric?_apply h hs hget hdrop (hremoved r · hs), hkind⟩

/-- **What is mapped to a member** stays mapped, and registered, until the member is unsettled. -/
theorem mapped_apply (h : d.Coherent) (hid : id ∈ d.mapped scope kind member)
    (ha : d.resolved? scope kind id = some a) (hact : ¬ d.Unsettles scope kind member act) :
    id ∈ (act.apply d).mapped scope kind member ∧
    (act.apply d).resolved? scope kind id = some a := by
  obtain ⟨r, hs, -⟩ := Option.bind_eq_some_iff.mp ha
  have hdrop : act ≠ .dropScope scope := by
    rintro rfl
    exact hact .dropped
  refine ⟨(mem_mapped_apply h hs hdrop).mpr (.inl hid), resolved?_apply h ha hdrop ?_⟩
  rintro r id' hs rfl hremoved
  exact hact (.removed hs hremoved ⟨id, hid, ha⟩)

theorem mapped_applyAll (h : d.Coherent) (hid : id ∈ d.mapped scope kind member)
    (ha : d.resolved? scope kind id = some a) (hacts : d.Undisturbed scope kind member acts) :
    id ∈ (Action.applyAll acts d).mapped scope kind member ∧
      (Action.applyAll acts d).resolved? scope kind id = some a := by
  induction acts generalizing d with
  | nil => exact ⟨hid, ha⟩
  | cons act acts ih =>
    obtain ⟨hid, ha⟩ := mapped_apply h hid ha hacts.1
    exact ih (h.action act) hid ha hacts.2

/-- **What is mapped to a member later** is there, too. -/
theorem FoundBut.apply {excused : MetricId → Prop} (hfound : d.FoundBut scope kind member excused)
    (h : d.Coherent) (hact : ¬ d.Unsettles scope kind member act)
    (hmaps : MapsFound scope kind member d act) :
    (act.apply d).FoundBut scope kind member excused := by
  intro id hid
  cases hs : d.lookup? scope with
  | none =>
    rw [mapped_apply_of_new h hs] at hid
    exact absurd hid List.not_mem_nil
  | some r =>
    have hdrop : act ≠ .dropScope scope := by
      rintro rfl
      exact hact .dropped
    obtain hid | hmap := (mem_mapped_apply h hs hdrop).mp hid
    · refine (hfound id hid).imp_right fun hsome => ?_
      obtain ⟨a, ha⟩ := Option.isSome_iff_exists.mp hsome
      exact Option.isSome_iff_exists.mpr ⟨a, (mapped_apply h hid ha hact).2⟩
    · obtain ⟨a, ha⟩ := Option.isSome_iff_exists.mp (hmaps r id hs hmap)
      subst hmap
      exact .inr (Option.isSome_iff_exists.mpr ⟨a, resolved?_apply h ha hdrop nofun⟩)

theorem FoundBut.applyAll {excused : MetricId → Prop}
    (hfound : d.FoundBut scope kind member excused) (h : d.Coherent)
    (hacts : d.Undisturbed scope kind member acts)
    (hmaps : Action.Along (MapsFound scope kind member) acts d) :
    (Action.applyAll acts d).FoundBut scope kind member excused := by
  induction acts generalizing d with
  | nil => exact hfound
  | cons act acts ih => exact ih (hfound.apply h hacts.1 hmaps.1) (h.action act) hacts.2 hmaps.2

/-- **A member stays ready** until it is unsettled. -/
theorem Ready.applyAll (hready : d.Ready scope kind member) (h : d.Coherent)
    (hacts : d.Undisturbed scope kind member acts)
    (hmaps : Action.Along (MapsFound scope kind member) acts d) :
    (Action.applyAll acts d).Ready scope kind member := by
  have hfound : d.FoundBut scope kind member fun _ => False := fun id hid => .inr (hready.2 id hid)
  constructor
  · obtain ⟨id, hid⟩ := List.exists_mem_of_ne_nil _ hready.1
    obtain ⟨a, ha⟩ := Option.isSome_iff_exists.mp (hready.2 id hid)
    exact List.ne_nil_of_mem (mapped_applyAll h hid ha hacts).1
  · exact fun id hid => (hfound.applyAll h hacts hmaps id hid).resolve_left nofun

/-! ## Actions that do not unsettle a member -/

theorem undisturbed_of_registers (hacts : ∀ act ∈ acts, act.Registers) :
    d.Undisturbed scope kind member acts := by
  refine Action.along_of_forall fun act hact d hunsettles => ?_
  cases hunsettles <;> exact hacts _ hact

theorem Ready.getOrCreate (hready : d.Ready scope kind member) (h : d.Coherent) :
    (d.getOrCreate scope).2.Ready scope kind member := by
  have hregisters := registers_openingActions scope d
  rw [← applyAll_openingActions]
  refine hready.applyAll h (undisturbed_of_registers hregisters) ?_
  refine Action.along_of_forall fun act hact d r id hs hmap => ?_
  obtain rfl | ⟨r, rfl⟩ | ⟨r, req, metadata, rfl⟩ := mem_openingActions hact <;> cases hmap

end Directory

end Telemetry
