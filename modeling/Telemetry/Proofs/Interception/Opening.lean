import Telemetry.Proofs.History.Authentic

/-!
# Making the registry of a scope

An interception gets the registry of its scope first. Where the scope does not exist, that makes a
registry, and for the base scope it registers the platform metrics (`getOrCreate_of_new`). It leaves
what was there (`Beyond.getOrCreate`): one registry is new, its metrics have new meters, and nothing
is mapped in it, since ids are mapped one by one (`mem_mappedIds_registryAfter`).
-/

namespace Telemetry

namespace Directory

variable {d d' : Directory} {r q : RegistryRef} {g g' : Registry} {id id' : MetricId} {m : MeterRef}
  {meter : Meter} {act : Action} {kind kind' : AnnotationKind} {member member' : Member}
  {scope : String}

/-! ## Mapped ids -/

theorem mappedIds_congr (h : g'.mappings = g.mappings) (kind : AnnotationKind) (member : Member) :
    mappedIds g' kind member = mappedIds g kind member := by
  unfold mappedIds
  rw [h]

theorem mappedIds_of_empty (h : g.mappings = ∅) (kind : AnnotationKind) (member : Member) :
    mappedIds g kind member = [] := by
  unfold mappedIds
  rw [h]
  cases kind <;> rfl

theorem of?_eq_keys (ids : MemberIds) (member : Member) :
    (ids.of? member).getD [] = ((ids.get? member).getD ∅).keys := by
  unfold MemberIds.of?
  cases ids.get? member <;> rfl

theorem mem_of?_add {ids : MemberIds} :
    id ∈ ((ids.add member' id').of? member).getD [] ↔
      id ∈ (ids.of? member).getD [] ∨ member = member' ∧ id = id' := by
  unfold MemberIds.add
  rw [of?_eq_keys, of?_eq_keys, SortedMap.get?_insert, SortedMap.mem_keys, SortedMap.mem_keys]
  by_cases hmember : member = member'
  · subst hmember
    by_cases hid : id = id'
    · simp [SortedMap.get?_insert, hid]
    · simp [SortedMap.get?_insert, hid]
  · simp [hmember]

theorem nodup_mappedIds (g : Registry) (kind : AnnotationKind) (member : Member) :
    (mappedIds g kind member).Nodup := by
  unfold mappedIds
  simp only
  rw [of?_eq_keys]
  exact SortedMap.nodup_keys _

/-- **Mapping an id** maps it to the member, for the kind, and maps nothing else. -/
theorem mem_mappedIds_mapMember :
    id ∈ mappedIds (mapMember kind' member' id' g) kind member ↔
      id ∈ mappedIds g kind member ∨ kind = kind' ∧ member = member' ∧ id = id' := by
  by_cases hkind : kind = kind'
  · subst hkind
    simp only [true_and]
    cases kind <;> exact mem_of?_add
  · have hsame : mappedIds (mapMember kind' member' id' g) kind member =
        mappedIds g kind member := by
      cases kind <;> cases kind' <;> first | rfl | exact absurd rfl hkind
    simp only [hsame, hkind, false_and, or_false]

/-- What an action leaves of a registry's mappings and of its platform mark. -/
theorem marks_registryAfter (d : Directory) (q : RegistryRef) (g : Registry) (act : Action) :
    ((d.registryAfter q g act).mappings = g.mappings ∧
        (d.registryAfter q g act).platformBound = g.platformBound) ∨
      d.registryAfter q g act = g.drop ∨
      d.registryAfter q g act = { g with platformBound := true } ∨
      ∃ kind member id, act = .mapMember q kind member id ∧
        d.registryAfter q g act = mapMember kind member id g := by
  cases act with
  | register r req metadata tags =>
    refine .inl ?_
    simp only [registryAfter]
    split
    · split <;> exact ⟨rfl, rfl⟩
    · exact ⟨rfl, rfl⟩
  | remove r id =>
    refine .inl ?_
    simp only [registryAfter]
    split
    · unfold Registry.forgetUnused
      split <;> exact ⟨rfl, rfl⟩
    · exact ⟨rfl, rfl⟩
  | dropScope scope =>
    simp only [registryAfter]
    split
    · exact .inr (.inl rfl)
    · exact .inl ⟨rfl, rfl⟩
  | markPlatform r =>
    simp only [registryAfter]
    split
    · exact .inr (.inr (.inl rfl))
    · exact .inl ⟨rfl, rfl⟩
  | mapMember r kind member id =>
    simp only [registryAfter]
    split
    · rename_i hq
      subst hq
      exact .inr (.inr (.inr ⟨kind, member, id, rfl, rfl⟩))
    · exact .inl ⟨rfl, rfl⟩
  | openScope | write | sample => exact .inl ⟨rfl, rfl⟩

/-- **Ids are mapped one by one.** -/
theorem mem_mappedIds_registryAfter (h : id ∈ mappedIds (d.registryAfter q g act) kind member) :
    id ∈ mappedIds g kind member ∨ act = .mapMember q kind member id := by
  obtain ⟨hsame, -⟩ | hdrop | hmark | ⟨kind', member', id', rfl, hmap⟩ :=
    marks_registryAfter d q g act
  · exact .inl (mappedIds_congr hsame kind member ▸ h)
  · rw [hdrop, mappedIds_of_empty (g := g.drop) rfl] at h
    exact absurd h List.not_mem_nil
  · rw [hmark] at h
    exact .inl h
  · rw [hmap, mem_mappedIds_mapMember] at h
    obtain h | ⟨rfl, rfl, rfl⟩ := h
    · exact .inl h
    · exact .inr rfl

/-! ## Getting a registry -/

theorem openScope_of_exists (h : d.Aligned) (hs : d.lookup? scope = some r) :
    d.openScope scope = (r, d) := by
  rw [openScope_eq h, show d.scopes.get? scope = some r from hs]

theorem openScope_of_new (h : d.Aligned) (hs : d.lookup? scope = none) :
    d.openScope scope = (d.registries.length, d.found scope) := by
  rw [openScope_eq h, show d.scopes.get? scope = none from hs]

/-- The new registry of the base scope, marked as one whose platform metrics are bound. -/
def foundBase (d : Directory) : Directory :=
  (d.found baseScope).modifyRegistry d.registries.length fun g => { g with platformBound := true }

theorem registry_of_foundBase (hr : d.foundBase.registry? q = some g) :
    q = d.registries.length ∧ g = { Registry.new baseScope q with platformBound := true } ∨
      d.registry? q = some g := by
  obtain ⟨g₀, hr₀, hcase⟩ := registry_of_modify (d := d.found baseScope) hr
  obtain ⟨rfl, rfl⟩ | hold := registry_of_found hr₀
  · obtain ⟨-, rfl⟩ | ⟨hne, -⟩ := hcase
    · exact .inl ⟨rfl, rfl⟩
    · exact absurd rfl hne
  · obtain ⟨rfl, -⟩ | ⟨-, rfl⟩ := hcase
    · exact absurd (registry_lt hold) (Nat.lt_irrefl _)
    · exact .inr hold

theorem coherent_foundBase (h : d.Coherent) (hs : d.lookup? baseScope = none) :
    d.foundBase.Coherent :=
  (h.found hs).mark _ fun _ => rfl

/-- **A scope that does not exist** is founded, and the base scope's platform metrics are
registered. -/
theorem getOrCreate_of_new (h : d.Coherent) (hs : d.lookup? scope = none) :
    d.getOrCreate scope = (d.registries.length,
      if scope = baseScope then registerGauges d.registries.length platformGauges d.foundBase
      else d.found scope) := by
  unfold getOrCreate
  rw [openScope_of_new h.toAligned hs]
  refine Prod.ext rfl ?_
  simp only
  split
  · rename_i hbase
    subst hbase
    unfold bindPlatform
    rw [registry?_found, if_pos rfl]
    rfl
  · rfl

/-! ## Beyond what was there -/

/-- `d'` has what `d` has, and besides that at most one registry, with meters of its own and nothing
mapped in it. -/
structure Beyond (d d' : Directory) : Prop where
  settings : d'.settings = d.settings
  samples : d'.store.samples = d.store.samples
  scopes : ∀ s r, d.lookup? s = some r → d'.lookup? s = some r
  registry : ∀ q g, d.registry? q = some g → d'.registry? q = some g
  meter : ∀ m meter, d.store.meter? m = some meter → d'.store.meter? m = some meter
  own : ∀ a m, d'.Stores d.registries.length a → a.Sole m → d.store.meters.length ≤ m
  unmapped : ∀ g, d'.registry? d.registries.length = some g → ∀ kind member,
    mappedIds g kind member = []

theorem registry?_length (d : Directory) : d.registry? d.registries.length = none :=
  List.getElem?_eq_none (Nat.le_refl _)

theorem lookup?_found (hs : d.lookup? scope = none) {s : String} (hr : d.lookup? s = some r) :
    (d.found scope).lookup? s = some r := by
  refine (SortedMap.get?_insert ..).trans ((if_neg ?_).trans hr)
  rintro rfl
  exact nomatch hs.symm.trans hr

namespace Beyond

theorem refl (d : Directory) : Beyond d d where
  settings := rfl
  samples := rfl
  scopes := fun _ _ hs => hs
  registry := fun _ _ hr => hr
  meter := fun _ _ hm => hm
  own := by
    rintro a m ⟨g, id, hr, -⟩
    exact nomatch (registry?_length d).symm.trans hr
  unmapped := fun g hr => nomatch (registry?_length d).symm.trans hr

theorem found (hs : d.lookup? scope = none) : Beyond d (d.found scope) where
  settings := rfl
  samples := rfl
  scopes := fun _ _ => lookup?_found hs
  registry := fun _ _ => registry?_found_of_registry scope
  meter := fun _ _ hm => hm
  own := by
    rintro a m ⟨g, id, hr, hget⟩
    rw [registry?_found, if_pos rfl] at hr
    cases hr
    cases hget
  unmapped := by
    intro g hr
    rw [registry?_found, if_pos rfl] at hr
    cases hr
    exact mappedIds_of_empty rfl

/-- Changing the new registry, up to its metrics and mappings. -/
theorem modify {f : Registry → Registry} (hb : Beyond d d')
    (hf : ∀ g, (f g).metrics = g.metrics ∧ (f g).mappings = g.mappings) :
    Beyond d (d'.modifyRegistry d.registries.length f) where
  settings := hb.settings
  samples := hb.samples
  scopes := hb.scopes
  registry := by
    intro q g hr
    refine (modify_of_registry f (hb.registry q g hr)).trans ?_
    rw [if_neg (Nat.ne_of_lt (registry_lt hr))]
  meter := hb.meter
  own := by
    rintro a m ⟨g', id, hr', hget⟩
    obtain ⟨g, hr, ⟨-, rfl⟩ | ⟨-, rfl⟩⟩ := registry_of_modify hr'
    · exact hb.own a m ⟨g, id, hr, (hf g).1 ▸ hget⟩
    · exact hb.own a m ⟨_, id, hr, hget⟩
  unmapped := by
    intro g' hr' kind member
    obtain ⟨g, hr, ⟨-, rfl⟩ | ⟨-, rfl⟩⟩ := registry_of_modify hr'
    · rw [mappedIds_congr (hf g).2, hb.unmapped g hr]
    · exact hb.unmapped _ hr kind member

theorem foundBase (hs : d.lookup? baseScope = none) : Beyond d d.foundBase :=
  (found hs).modify fun _ => ⟨rfl, rfl⟩

/-- No metric of the new registry has one of the old meters. -/
theorem not_named (hb : Beyond d d') (h' : d'.Linked) {name : String}
    (hm : d.store.meter? m = some meter) : ¬ d'.store.Named d.registries.length name m := by
  rintro ⟨mid, hfound, -⟩
  obtain ⟨a, hstores, hsole⟩ := h'.stored_of_find? hfound
  exact Nat.not_le_of_lt (List.getElem?_eq_some_iff.mp hm).1 (hb.own a m hstores hsole)

theorem meter_describe (hb : Beyond d d') (h' : d'.Linked) (metadata : Metadata) (kind : MetricKind)
    (hm : d.store.meter? m = some meter) :
    (d'.describe d.registries.length metadata kind).store.meter? m = some meter := by
  classical
  refine (MeterStore.meter?_refreshMetadata ..).trans ?_
  rw [if_neg (hb.not_named h' hm), hb.meter m meter hm]

/-- **A registration in the new registry** leaves what was there before it. -/
theorem register {d'' : Directory} {req : MetricRequest} {metadata : Metadata} {tags : List Tag}
    (hb : Beyond d d') (h' : d'.Linked)
    (he : Effect d' (.register d.registries.length req metadata tags) d'') : Beyond d d'' where
  settings := he.settings.trans hb.settings
  samples := (he.samples trivial).trans hb.samples
  scopes := by
    intro s r hs
    cases he <;> exact hb.scopes s r hs
  registry := by
    intro q g hr
    refine (he.registry (hb.registry q g hr)).trans (congrArg some ?_)
    exact if_neg (Nat.ne_of_lt (registry_lt hr))
  meter := by
    intro m meter hm
    cases he with
    | idle => exact hb.meter m meter hm
    | describe => exact hb.meter_describe h' _ _ hm
    | @enroll _ g _ _ _ id value hr hv =>
      -- the meter that comes in has the next number, which no old one has
      have hkept := hb.meter_describe h' (g.effective metadata) req.kind hm
      refine (MeterStore.meter?_enter ..).trans ((if_neg ?_).trans hkept)
      exact Nat.ne_of_lt (List.getElem?_eq_some_iff.mp hkept).1
  own := by
    intro a m hstores hsole
    obtain hold | ⟨g, _, _, _, id, value, -, -, -, rfl⟩ := he.stores hstores
    · exact hb.own a m hold hsole
    · -- its meter is behind those that are there, and the old ones are among them
      cases hsole.1.symm.trans (meter_newcomer id)
      refine Nat.le_of_not_lt fun hlt => ?_
      have hold := hb.meter _ _ (List.getElem?_eq_getElem hlt)
      exact Nat.lt_irrefl _ (List.getElem?_eq_some_iff.mp hold).1
  unmapped := by
    intro g' hr' kind member
    cases hr : d'.registry? d.registries.length with
    | none =>
      obtain ⟨_, hact, -⟩ := he.registry_new hr hr'
      cases hact
    | some g =>
      cases hr'.symm.trans (he.registry hr)
      refine List.eq_nil_iff_forall_not_mem.mpr fun id hid => ?_
      obtain hid | hact := mem_mappedIds_registryAfter hid
      · rw [hb.unmapped g hr] at hid
        exact List.not_mem_nil hid
      · cases hact

theorem registerGauges (hb : Beyond d d') (h' : d'.Coherent)
    (gauges : List (Metadata × PlatformFigure)) :
    Beyond d (Directory.registerGauges d.registries.length gauges d') := by
  induction gauges generalizing d' with
  | nil => exact hb
  | cons gauge gauges ih =>
    obtain ⟨metadata, figure⟩ := gauge
    let act : Action := .register d.registries.length (.gauge (.platform figure)) metadata []
    have hmade : Beyond d (act.apply d') := hb.register h'.toLinked (effect h' act)
    have hrest := ih hmade (h'.action act)
    unfold Directory.registerGauges
    split
    · rename_i e d'' heq
      rwa [show act.apply d' = d'' from congrArg Prod.snd heq] at hmade
    · rename_i a d'' heq
      rwa [show act.apply d' = d'' from congrArg Prod.snd heq] at hrest

/-- **What making a registry leaves.** -/
theorem getOrCreate (h : d.Coherent) (hs : d.lookup? scope = none) :
    Beyond d (d.getOrCreate scope).2 := by
  rw [getOrCreate_of_new h hs]
  simp only
  split
  · rename_i hbase
    subst hbase
    exact (foundBase hs).registerGauges (coherent_foundBase h hs) platformGauges
  · exact found hs

end Beyond

end Directory

end Telemetry
