import Telemetry.Proofs.History.Handles

/-!
# Authentic histories

A history is `Authentic` when it writes through metrics that were registered by then, which is all
that a caller can do. A run of operations has an authentic history as soon as the caller's own
handles are of that kind (`authentic_history`), since interceptions write to metrics of the
registry.
-/

namespace Telemetry

/-- The action neither writes to a meter nor sets what gauges sample. -/
def Action.Quiet : Action → Prop
  | .write .. | .sample _ => False
  | .openScope _ | .dropScope _ | .register .. | .remove .. | .markPlatform _ | .mapMember .. =>
    True

/-- The action opens a scope, registers a metric, marks a registry or maps an id. -/
def Action.Registers : Action → Prop
  | .openScope _ | .register .. | .markPlatform _ | .mapMember .. => True
  | .dropScope _ | .remove .. | .write .. | .sample _ => False

theorem Action.Registers.quiet {act : Action} (hact : act.Registers) : act.Quiet := by
  cases act <;> trivial

theorem Action.quiet_single (act : Action) (hact : act.Quiet) : ∀ act' ∈ [act], act'.Quiet :=
  List.forall_mem_singleton.mpr hact

namespace Directory

variable {d d' : Directory} {r : RegistryRef} {a : Adapter} {act : Action}
  {settings : RegistrySettings} {platform : PlatformReadings} {acts : List Action}

theorem Effect.samples (he : Effect d act d') (hact : act.Quiet) :
    d'.store.samples = d.store.samples := by
  have hdescribe : ∀ r metadata kind,
      (d.describe r metadata kind).store.samples = d.store.samples := by
    intro r metadata kind
    show (d.store.refreshMetadata r metadata).samples = _
    rw [MeterStore.refreshMetadata_eq]
  cases he with
  | describe => exact hdescribe _ _ _
  | enroll => exact hdescribe _ _ _
  | write | sample => exact hact.elim
  | _ => rfl

theorem Coherent.samples_kept (h : d.Coherent) {acts : List Action}
    (hacts : ∀ act ∈ acts, act.Quiet) :
    (Action.applyAll acts d).store.samples = d.store.samples := by
  induction acts generalizing d with
  | nil => rfl
  | cons act acts ih =>
    obtain ⟨hact, hacts⟩ := List.forall_mem_cons.mp hacts
    exact (ih (h.action act) hacts).trans ((effect h act).samples hact)

/-- Whatever is written is written through a metric that was registered by then. -/
def Authentic (settings : RegistrySettings) (platform : PlatformReadings) (acts : List Action) :
    Prop :=
  ∀ before a u after, acts = before ++ .write a u :: after → ∃ r, Held settings platform before r a

theorem authentic_nil : Authentic settings platform [] := by
  intro before a u after h
  cases before <;> cases h

theorem authentic_snoc :
    Authentic settings platform (acts ++ [act]) ↔
      Authentic settings platform acts ∧
        ∀ a u, act = .write a u → ∃ r, Held settings platform acts r a := by
  constructor
  · intro h
    constructor
    · rintro before a u after rfl
      exact h before a u (after ++ [act]) (by rw [List.append_assoc, List.cons_append])
    · rintro a u rfl
      exact h acts a u [] rfl
  · rintro ⟨h, hlast⟩ before a u after heq
    obtain rfl | ⟨after, last, rfl⟩ := List.eq_nil_or_concat after
    · obtain ⟨rfl, hact⟩ := List.append_inj' heq rfl
      exact hlast a u (List.cons.inj hact).1
    · rw [List.concat_eq_append, ← List.cons_append, ← List.append_assoc] at heq
      exact h before a u after (List.append_inj' heq rfl).1

theorem Authentic.write (h : Authentic settings platform acts)
    (ha : Held settings platform acts r a) (u : Update) :
    Authentic settings platform (acts ++ [.write a u]) := by
  refine authentic_snoc.mpr ⟨h, fun b u' hact => ?_⟩
  cases hact
  exact ⟨r, ha⟩

/-- Only writing takes a handle. -/
theorem Authentic.quiet (h : Authentic settings platform acts) {acts' : List Action}
    (hquiet : ∀ act ∈ acts', act.Quiet) : Authentic settings platform (acts ++ acts') := by
  induction acts' using List.reverseRecOn with
  | nil => rwa [List.append_nil]
  | append_singleton acts' act ih =>
    rw [← List.append_assoc]
    refine authentic_snoc.mpr ⟨ih fun act' hact' => hquiet act' (List.mem_append_left _ hact'), ?_⟩
    rintro a u rfl
    exact (hquiet _ (List.mem_append_right acts' List.mem_cons_self)).elim

theorem Authentic.sample (h : Authentic settings platform acts) (samples : Samples) :
    Authentic settings platform (acts ++ [.sample samples]) :=
  authentic_snoc.mpr ⟨h, nofun⟩

/-- Writing through metrics that are held, one after the other. -/
theorem Authentic.writes {α : Type} (h : Authentic settings platform acts) (adapter : α → Adapter)
    {xs : List α} (hxs : ∀ x ∈ xs, ∃ r, Held settings platform acts r (adapter x))
    (u : α → Update) :
    Authentic settings platform (acts ++ xs.map fun x => .write (adapter x) (u x)) := by
  induction xs generalizing acts with
  | nil => rwa [List.map_nil, List.append_nil]
  | cons x xs ih =>
    obtain ⟨r, hx⟩ := hxs x List.mem_cons_self
    rw [List.map_cons, List.append_cons]
    refine ih (h.write hx (u x)) fun y hy => ?_
    obtain ⟨q, hy⟩ := hxs y (List.mem_cons_of_mem x hy)
    exact ⟨q, hy.append _⟩

/-! ## Runs of operations -/

/-- Gauges are registered, and nothing else is done. -/
theorem mem_gaugeActions {gauges : List (Metadata × PlatformFigure)}
    (hact : act ∈ gaugeActions r gauges d) :
    ∃ figure metadata, act = .register r (.gauge (.platform figure)) metadata [] := by
  induction gauges generalizing d with
  | nil => exact absurd hact List.not_mem_nil
  | cons gauge gauges ih =>
    unfold gaugeActions at hact
    obtain rfl | hact := List.mem_cons.mp hact
    · exact ⟨_, _, rfl⟩
    · split at hact
      · exact absurd hact List.not_mem_nil
      · exact ih hact

/-- Getting the registry of a scope opens the scope, marks a registry and registers gauges. -/
theorem mem_openingActions {scope : String} {act : Action} (hact : act ∈ openingActions scope d) :
    act = .openScope scope ∨ (∃ r, act = .markPlatform r) ∨
      ∃ r req metadata, act = .register r req metadata [] := by
  unfold openingActions at hact
  obtain rfl | hact := List.mem_cons.mp hact
  · exact .inl rfl
  refine .inr ?_
  split at hact
  · unfold platformActions at hact
    split at hact
    · exact absurd hact List.not_mem_nil
    split at hact
    · exact absurd hact List.not_mem_nil
    · obtain rfl | hact := List.mem_cons.mp hact
      · exact .inl ⟨_, rfl⟩
      · obtain ⟨figure, metadata, rfl⟩ := mem_gaugeActions hact
        exact .inr ⟨_, _, _, rfl⟩
  · exact absurd hact List.not_mem_nil

theorem registers_openingActions (scope : String) (d : Directory) :
    ∀ act ∈ openingActions scope d, act.Registers := by
  intro act hact
  obtain rfl | ⟨r, rfl⟩ | ⟨r, req, metadata, rfl⟩ := mem_openingActions hact <;> trivial

theorem quiet_openingActions (scope : String) (d : Directory) :
    ∀ act ∈ openingActions scope d, act.Quiet :=
  fun act hact => (registers_openingActions scope d act hact).quiet

theorem registers_annotationActions (member : Member) (x : MetricAnnotation) (d : Directory) :
    ∀ act ∈ annotationActions member x d, act.Registers := by
  unfold annotationActions
  refine List.forall_mem_append.mpr ⟨registers_openingActions x.scope d, ?_⟩
  split
  · exact List.forall_mem_nil _
  · refine List.forall_mem_cons.mpr ⟨trivial, ?_⟩
    split
    · exact List.forall_mem_nil _
    · exact List.forall_mem_singleton.mpr trivial

theorem registers_memberActions (member : Member) (annotations : List MetricAnnotation)
    (d : Directory) : ∀ act ∈ memberActions member annotations d, act.Registers := by
  induction annotations generalizing d with
  | nil => exact List.forall_mem_nil _
  | cons x annotations ih =>
    unfold memberActions
    refine List.forall_mem_append.mpr ⟨registers_annotationActions member x d, ?_⟩
    split
    · exact List.forall_mem_nil _
    · exact ih _

theorem quiet_memberActions (member : Member) (annotations : List MetricAnnotation)
    (d : Directory) :
    ∀ act ∈ memberActions member annotations d, act.Quiet :=
  fun act hact => (registers_memberActions member annotations d act hact).quiet

theorem quiet_removeMatching (r : RegistryRef) (p : MetricId → Adapter → Bool) (d : Directory) :
    ∀ act ∈ (Operation.removeMatching r p).actions d, act.Quiet := by
  unfold Operation.actions
  split
  · exact List.forall_mem_nil _
  · exact List.forall_mem_map.mpr fun _ _ => trivial

theorem quiet_dropAll (d : Directory) : ∀ act ∈ Operation.dropAll.actions d, act.Quiet :=
  List.forall_mem_map.mpr fun _ _ => trivial

/-- What an interception resolves once the scope is open is held by then. -/
theorem held_of_resolveMapped {scope : String} {kind : AnnotationKind} {member : Member}
    {adapters : List Adapter}
    (hok : ((reached settings platform acts).getOrCreate scope).2.resolveMapped
      ((reached settings platform acts).getOrCreate scope).1 kind member = .ok adapters) :
    ∀ a ∈ adapters, ∃ r,
      Held settings platform
        (acts ++ openingActions scope (reached settings platform acts)) r a := by
  intro a ha
  obtain ⟨g, hr, -⟩ := hasRegistry_getOrCreate (coherent_reached settings platform acts) scope
  obtain ⟨id, hget, -⟩ := resolveMapped_stored hr hok a ha
  have hreached : reached settings platform
      (acts ++ openingActions scope (reached settings platform acts)) = _ := reached_append ..
  rw [applyAll_openingActions] at hreached
  rw [← hreached] at hr
  exact ⟨_, held_of_stores ⟨g, id, hr, hget⟩⟩

end Directory

mutual

/-- Whatever the caller writes through in an operation that follows a history was registered by
then. -/
def Operation.Authentic (settings : RegistrySettings) (platform : PlatformReadings) :
    Operation → List Action → Prop
  | .increment a _, acts | .update a _, acts | .updateDuration a _, acts =>
    ∃ r, Directory.Held settings platform acts r a
  | .intercept .counted scope member _ work _, acts =>
    let d := Directory.reached settings platform acts
    match (d.getOrCreate scope).2.resolveMapped (d.getOrCreate scope).1 .counted member with
    | .error _ => True
    | .ok counters =>
      Operation.AuthenticAll settings platform work
        (acts ++ (Directory.openingActions scope d ++ counters.map fun a =>
          .write a (.increment 1)))
  | .intercept .timed scope member _ work _, acts =>
    let d := Directory.reached settings platform acts
    match (d.getOrCreate scope).2.resolveMapped (d.getOrCreate scope).1 .timed member with
    | .error _ => True
    | .ok _ =>
      Operation.AuthenticAll settings platform work (acts ++ Directory.openingActions scope d)
  | _, _ => True

/-- So in every one of the operations. -/
def Operation.AuthenticAll (settings : RegistrySettings) (platform : PlatformReadings) :
    List Operation → List Action → Prop
  | [], _ => True
  | op :: ops, acts =>
    op.Authentic settings platform acts ∧
      Operation.AuthenticAll settings platform ops
        (acts ++ op.actions (Directory.reached settings platform acts))

end

namespace Directory

variable {settings : RegistrySettings} {platform : PlatformReadings}

mutual

/-- **An interception writes to metrics that are held**, so only the caller's own handles matter. -/
theorem authentic_actions : (op : Operation) → {acts : List Action} →
    op.Authentic settings platform acts → Authentic settings platform acts →
    Authentic settings platform (acts ++ op.actions (reached settings platform acts))
  | .openScope scope, _, _, h => h.quiet (quiet_openingActions scope _)
  | .dropScope _, _, _, h => h.quiet (List.forall_mem_singleton.mpr trivial)
  | .dropAll, _, _, h => h.quiet (quiet_dropAll _)
  | .register .., _, _, h => h.quiet (List.forall_mem_singleton.mpr trivial)
  | .remove .., _, _, h => h.quiet (List.forall_mem_singleton.mpr trivial)
  | .removeMatching r p, _, _, h => h.quiet (quiet_removeMatching r p _)
  | .mapMember .., _, _, h => h.quiet (List.forall_mem_singleton.mpr trivial)
  | .registerMember member annotations, _, _, h =>
    h.quiet (quiet_memberActions member annotations _)
  | .intercept .counted scope member _ work _, acts, hop, h => by
    have hopened := h.quiet (quiet_openingActions scope (reached settings platform acts))
    unfold Operation.Authentic at hop
    unfold Operation.actions
    simp only at hop ⊢
    cases hmapped : ((reached settings platform acts).getOrCreate scope).2.resolveMapped
        ((reached settings platform acts).getOrCreate scope).1 .counted member with
    | error e => exact hopened
    | ok counters =>
      have hcounted := hopened.writes (fun a => a) (held_of_resolveMapped hmapped)
        fun _ => .increment 1
      rw [hmapped] at hop
      simp only at hop ⊢
      rw [List.append_assoc] at hcounted
      rw [← List.append_assoc, ← reached_append]
      exact authentic_actionsAll work hop hcounted
  | .intercept .timed scope member elapsed work _, acts, hop, h => by
    have hopened := h.quiet (quiet_openingActions scope (reached settings platform acts))
    unfold Operation.Authentic at hop
    unfold Operation.actions
    simp only at hop ⊢
    cases hmapped : ((reached settings platform acts).getOrCreate scope).2.resolveMapped
        ((reached settings platform acts).getOrCreate scope).1 .timed member with
    | error e => exact hopened
    | ok timers =>
      rw [hmapped] at hop
      simp only at hop ⊢
      have hworked := authentic_actionsAll work hop hopened
      rw [reached_append] at hworked
      rw [← List.append_assoc, ← List.append_assoc]
      refine hworked.writes (fun a => a) (fun a ha => ?_) fun a =>
        .record (saturate (elapsed a).nanos)
      obtain ⟨r, ha⟩ := held_of_resolveMapped hmapped a ha
      exact ⟨r, ha.append _⟩
  | .increment _ n, _, ⟨_, ha⟩, h => h.write ha (.increment n)
  | .update _ (.ofNat raw), _, ⟨_, ha⟩, h => h.write ha (.record raw)
  | .update _ (.negSucc _), _, _, h => h.quiet (List.forall_mem_nil _)
  | .updateDuration _ elapsed, _, ⟨_, ha⟩, h => h.write ha (.record (saturate elapsed.nanos))
  | .sample samples, _, _, h => h.sample samples

theorem authentic_actionsAll : (ops : List Operation) → {acts : List Action} →
    Operation.AuthenticAll settings platform ops acts → Authentic settings platform acts →
    Authentic settings platform
      (acts ++ Operation.actionsAll ops (reached settings platform acts))
  | [], _, _, h => h.quiet (List.forall_mem_nil _)
  | op :: ops, acts, hops, h => by
    unfold Operation.AuthenticAll at hops
    unfold Operation.actionsAll
    have hop := authentic_actions op hops.1 h
    have hrest := authentic_actionsAll ops hops.2 hop
    rw [reached_append, ← apply_eq_applyAll] at hrest
    rw [← List.append_assoc]
    exact hrest

end

/-- **A run has an authentic history** when the caller writes through metrics registered by then. -/
theorem authentic_history {ops : List Operation}
    (h : Operation.AuthenticAll settings platform ops []) :
    Authentic settings platform (history settings platform ops) :=
  authentic_actionsAll ops h authentic_nil

end Directory

end Telemetry
