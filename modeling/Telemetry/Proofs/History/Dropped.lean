import Telemetry.Proofs.Directory.Refusals
import Telemetry.Proofs.History.Accounts

/-!
# Dropped registries

A caller can hold a registry beyond the drop of its scope (specification, 4.4). From then on it is
`Inert`, whatever is done later (`inert_of_drop`): it has nothing, takes nothing, and what goes
through it, or through metrics that were its, reaches no other registry and no export. That the
scope may have been made again does not matter: its registry is another one, and its meters are new.
-/

namespace Telemetry

/-- The action goes through a registry that is held: it is asked of it or of its mappings, or it
writes through a metric that was its at some point of the history. -/
def Action.Through (settings : RegistrySettings) (platform : PlatformReadings) (acts : List Action)
    (r : RegistryRef) : Action → Prop
  | .register q _ _ _ | .remove q _ | .markPlatform q | .mapMember q _ _ _ => q = r
  | .write a _ => Directory.Held settings platform acts r a
  | .openScope _ | .dropScope _ | .sample _ => False

namespace Directory

variable {d : Directory} {r : RegistryRef} {g : Registry} {scope : String}
  {settings : RegistrySettings} {platform : PlatformReadings} {acts : List Action}

/-! ## Staying dropped -/

/-- A registry is dropped once its scope is. -/
theorem Coherent.dropped_of_mem (h : d.Coherent) (hr : d.registry? r = some g)
    (hacts : .dropScope g.scope ∈ acts) :
    ∃ g', registry? (Action.applyAll acts d) r = some g' ∧ g'.scope = g.scope ∧
      g'.dropped = true := by
  induction acts generalizing d g with
  | nil => cases hacts
  | cons act acts ih =>
    have hr' := (effect h act).registry hr
    have hscope := (same_registryAfter d r g act).1
    obtain rfl | hacts := List.mem_cons.mp hacts
    · have hdrop : (d.registryAfter r g (.dropScope g.scope)).dropped = true := by
        cases hg : g.dropped with
        | true => exact dropped_registryAfter hg _
        | false =>
          simp only [registryAfter, (h.current g.scope r).mpr ⟨g, hr, rfl, hg⟩, if_true]
          rfl
      obtain ⟨g', hg', hscope', hkept⟩ := (h.action _).registry_kept hr' acts
      exact ⟨g', hg', hscope'.trans hscope, hkept hdrop⟩
    · obtain ⟨g', hg', hscope', hdrop'⟩ := ih (h.action act) hr' (hscope ▸ hacts)
      exact ⟨g', hg', hscope'.trans hscope, hdrop'⟩

/-- Dropping every scope drops each that exists. -/
theorem dropScope_mem_actions (hs : d.lookup? scope = some r) {op : Operation}
    (hop : op = .dropScope scope ∨ op = .dropAll) : .dropScope scope ∈ op.actions d := by
  obtain rfl | rfl := hop
  · exact List.mem_singleton.mpr rfl
  · exact List.mem_map.mpr ⟨scope, SortedMap.mem_keys.mpr ⟨r, hs⟩, rfl⟩

/-! ## What a dropped registry answers -/

/-- **A dropped registry refuses every registration**, and for being dropped unless the name is
empty or the tags name another scope. -/
theorem Coherent.refused_dropped (h : d.Coherent) (hr : d.registry? r = some g)
    (hdrop : g.dropped = true) (metadata : Metadata) (tags : List Tag) (req : MetricRequest) :
    ∃ e, d.request r metadata tags req = (.error e, d) ∧
      (metadata.name ≠ "" → (∀ value, givenScope? tags = some value → value = g.scope) →
        e = .scopeDropped g.scope) := by
  have hverdict : ∃ e, g.verdict d.settings metadata tags req = .refuse e := by
    cases hv : g.verdict d.settings metadata tags req with
    | refuse e => exact ⟨e, rfl⟩
    | reuse a =>
      obtain ⟨-, id, -, ha, -⟩ := Registry.verdict_reuse hv
      exact nomatch (h.not_dropped hr ha).symm.trans hdrop
    | enroll id value =>
      obtain ⟨-, -, -, hlive, -⟩ := Registry.verdict_enroll hv
      exact nomatch hlive.symm.trans hdrop
  obtain ⟨e, hv⟩ := hverdict
  have hrequest : d.request r metadata tags req = (.error e, d) := by
    rw [request_eq h hr, hv]
    rfl
  refine ⟨e, hrequest, fun hname htag => ?_⟩
  exact Registry.refusal_unique ((request_error_iff h hr).mp (congrArg Prod.fst hrequest))
    (.scopeDropped hname htag hdrop) fun _ _ _ _ => h.kind_of_name hr

/-- A dropped registry has nothing to remove. -/
theorem Coherent.remove_dropped (h : d.Coherent) (hr : d.registry? r = some g)
    (hdrop : g.dropped = true) (id : MetricId) : d.remove r id = (false, d) := by
  rw [remove_eq h hr, (h.dropped r g hr hdrop).1]
  rfl

theorem Coherent.removeMatching_dropped (h : d.Coherent) (hr : d.registry? r = some g)
    (hdrop : g.dropped = true) (p : MetricId → Adapter → Bool) : d.removeMatching r p = (0, d) := by
  unfold removeMatching
  rw [hr]
  simp only [(h.dropped r g hr hdrop).1]
  rfl

/-! ## What goes through a dropped registry -/

/-- The action changes registry `r` alone, and nothing that is read or exported. -/
structure Harmless (settings : RegistrySettings) (platform : PlatformReadings) (acts : List Action)
    (r : RegistryRef) (act : Action) (d : Directory) : Prop where
  scopes : (act.apply d).scopes = d.scopes
  registries : ∀ q, q ≠ r → registry? (act.apply d) q = d.registry? q
  exports : SameExports d (act.apply d)
  readings : ∀ q b, q ≠ r → Held settings platform acts q b →
    b.ReadsSame d.store (act.apply d).store

/-- Marking a registry changes it alone. -/
theorem harmless_of_modify {f : Registry → Registry} (hf : ∀ g, (f g).store = g.store)
    {act : Action} (hact : act.apply d = d.modifyRegistry r f) :
    Harmless settings platform acts r act d where
  scopes := by
    rw [hact]
    rfl
  registries := by
    intro q hq
    rw [hact]
    exact (registry?_modifyRegistry d r f q).trans (if_neg hq)
  exports := by
    rw [hact]
    refine SameShown.exports ⟨rfl, rfl, fun q => ?_, fun _ => rfl, rfl, fun _ _ _ _ => rfl⟩
    rw [registry?_modifyRegistry]
    split
    · rw [Option.map_map]
      exact congrArg (Option.map · _) (funext hf)
    · rfl
  readings := by
    intro q b _ _
    rw [hact]
    exact ⟨rfl, rfl⟩

/-- What changes nothing is harmless. -/
theorem harmless_of_eq {act : Action} (hact : act.apply d = d) :
    Harmless settings platform acts r act d where
  scopes := by rw [hact]
  registries := fun q _ => by rw [hact]
  exports := by
    rw [hact]
    exact ⟨fun _ => rfl, fun _ _ => rfl, fun _ _ => rfl⟩
  readings := fun q b _ _ => by
    rw [hact]
    exact ⟨rfl, rfl⟩

/-- **What goes through a dropped registry is harmless.** -/
theorem harmless_of_through (hr : registry? (reached settings platform acts) r = some g)
    (hdrop : g.dropped = true) {act : Action} (hact : act.Through settings platform acts r) :
    Harmless settings platform acts r act (reached settings platform acts) := by
  have h := coherent_reached settings platform acts
  cases act with
  | register q req metadata tags =>
    obtain rfl : q = r := hact
    obtain ⟨e, hrequest, -⟩ := h.refused_dropped hr hdrop metadata tags req
    exact harmless_of_eq (congrArg Prod.snd hrequest)
  | remove q id =>
    obtain rfl : q = r := hact
    exact harmless_of_eq (congrArg Prod.snd (h.remove_dropped hr hdrop id))
  | markPlatform q =>
    obtain rfl : q = r := hact
    exact harmless_of_modify (f := fun g => { g with platformBound := true }) (fun _ => rfl) rfl
  | mapMember q kind member id =>
    obtain rfl : q = r := hact
    exact harmless_of_modify (f := Directory.mapMember kind member id) (fun _ => rfl) rfl
  | write a u =>
    have ha : Held settings platform acts r a := hact
    have hlost : ¬ (reached settings platform acts).Stores r a := by
      rintro ⟨g', id, hr', hget⟩
      rw [hr] at hr'
      cases hr'
      exact nomatch (h.not_dropped hr hget).symm.trans hdrop
    exact {
      scopes := rfl
      registries := fun _ _ => rfl
      exports := (shown_of_write ha hlost u).exports
      readings := by
        intro q b hq hb
        refine readsSame_of_write ha hb (fun heq => hq ?_) u
        exact (held_inj hb ha (.inl heq)).1 }
  | openScope _ | dropScope _ | sample _ => exact hact.elim

/-! ## Inert registries -/

/-- After the history, registry `r` is a dropped one of the scope, and nothing comes of it. -/
structure Inert (settings : RegistrySettings) (platform : PlatformReadings) (acts : List Action)
    (r : RegistryRef) (scope : String) (d : Directory) : Prop where
  /-- The registry is none of the existing ones, and it has nothing. -/
  dropped : ∃ g, d.registry? r = some g ∧ g.scope = scope ∧ g.dropped = true ∧ g.metrics = ∅ ∧
    g.names = ∅
  gone : ∀ s, d.lookup? s ≠ some r
  meters : d.meterCount r = 0
  /-- Every registration is refused, and for being dropped unless the name is empty or the tags name
  another scope. -/
  refuses : ∀ req metadata tags, ∃ e, d.request r metadata tags req = (.error e, d) ∧
    (metadata.name ≠ "" → (∀ value, givenScope? tags = some value → value = scope) →
      e = .scopeDropped scope)
  /-- There is nothing to remove. -/
  remove : ∀ id, d.remove r id = (false, d)
  removeMatching : ∀ p, d.removeMatching r p = (0, d)
  removeByName : ∀ name, d.removeByName r name = (false, d)
  /-- What goes through the registry is harmless. -/
  harmless : ∀ act, act.Through settings platform acts r → Harmless settings platform acts r act d

theorem inert_of_dropped (hr : registry? (reached settings platform acts) r = some g)
    (hdrop : g.dropped = true) :
    Inert settings platform acts r g.scope (reached settings platform acts) := by
  have h := coherent_reached settings platform acts
  obtain ⟨hmetrics, hnames⟩ := h.dropped r g hr hdrop
  exact {
    dropped := ⟨g, hr, rfl, hdrop, hmetrics, hnames⟩
    gone := by
      intro s hs
      exact nomatch (h.of_lookup hs hr).2.symm.trans hdrop
    meters := by
      rw [← h.size_eq_meterCount hr, hmetrics]
      rfl
    refuses := fun req metadata tags => h.refused_dropped hr hdrop metadata tags req
    remove := h.remove_dropped hr hdrop
    removeMatching := h.removeMatching_dropped hr hdrop
    removeByName := by
      intro name
      unfold Directory.removeByName
      rw [h.removeMatching_dropped hr hdrop]
      rfl
    harmless := fun act hact => harmless_of_through hr hdrop hact }

/-- **A registry is inert once its scope was dropped**, alone or with all others, whatever is done
afterwards. -/
theorem inert_of_drop (hs : (reached settings platform acts).lookup? scope = some r)
    {op : Operation} (hop : op = .dropScope scope ∨ op = .dropAll) (later : List Action) :
    let acts := acts ++ op.actions (reached settings platform acts) ++ later
    Inert settings platform acts r scope (reached settings platform acts) := by
  intro all
  have h := coherent_reached settings platform acts
  obtain ⟨g, hr, rfl, -⟩ := (h.current scope r).mp hs
  have hmem : .dropScope g.scope ∈ op.actions (reached settings platform acts) ++ later :=
    List.mem_append_left later (dropScope_mem_actions hs hop)
  obtain ⟨g', hr', hscope, hdrop⟩ := h.dropped_of_mem hr hmem
  rw [← reached_append, ← List.append_assoc] at hr'
  exact hscope ▸ inert_of_dropped hr' hdrop

end Directory

end Telemetry
