import Telemetry.Proofs.History.Courses
import Telemetry.Proofs.Interception.Opening

/-!
# Directories whose members were registered

Whatever is done, the registry of the base scope has bound the platform metrics
(`platformBound_afterRun`), so getting the registry of a scope that exists changes nothing
(`PlatformBound.getOrCreate_of_exists`). Operations that declare lead to a `Prepared` directory
(`prepared_afterRun`): there every mapped id is in normal form besides, so it is looked up as it is,
and different ones are those of different metrics.
-/

namespace Telemetry

namespace Directory

variable {d d' : Directory} {r q : RegistryRef} {g g' : Registry} {id : MetricId} {act : Action}
  {acts : List Action} {kind : AnnotationKind} {member : Member} {scope : String}

/-! ## The platform metrics are bound -/

/-- No action takes the platform metrics' mark back. -/
theorem platformBound_registryAfter (hg : g.platformBound = true) (act : Action) :
    (d.registryAfter q g act).platformBound = true := by
  obtain ⟨-, hsame⟩ | hdrop | hmark | ⟨kind, member, id, rfl, hmap⟩ := marks_registryAfter d q g act
  · rw [hsame, hg]
  · rw [hdrop]
    exact hg
  · rw [hmark]
  · rw [hmap]
    exact hg

/-- The base scope has bound the platform metrics, if it exists. -/
def PlatformBound (d : Directory) : Prop :=
  ∀ r g, d.registry? r = some g → g.scope = baseScope → g.dropped = false → g.platformBound = true

namespace PlatformBound

/-- **A scope that exists** has its registry, and nothing else is done. -/
theorem getOrCreate_of_exists (hb : d.PlatformBound) (h : d.Coherent)
    (hs : d.lookup? scope = some r) :
    d.getOrCreate scope = (r, d) := by
  obtain ⟨g, hr, hscope, hdrop⟩ := (h.current scope r).mp hs
  unfold getOrCreate
  rw [openScope_of_exists h.toAligned hs]
  refine Prod.ext rfl ?_
  simp only
  split
  · rename_i hbase
    unfold bindPlatform
    rw [hr]
    simp only
    rw [if_pos (hb r g hr (hscope.trans hbase) hdrop)]
  · rfl

/-- An action that opens no scope. -/
theorem action (hb : d.PlatformBound) (h : d.Coherent) (hact : ∀ scope, act ≠ .openScope scope) :
    (act.apply d).PlatformBound := by
  have he := effect h act
  intro q g' hq hbase hdrop
  cases hr : d.registry? q with
  | none =>
    obtain ⟨scope, hopen, -⟩ := he.registry_new hr hq
    exact absurd hopen (hact scope)
  | some g =>
    rw [he.registry hr] at hq
    cases hq
    rw [(same_registryAfter d q g act).1] at hbase
    refine platformBound_registryAfter (hb q g hr hbase ?_) act
    cases hg : g.dropped with
    | false => rfl
    | true => exact nomatch (dropped_registryAfter hg act).symm.trans hdrop

theorem actions (hb : d.PlatformBound) (h : d.Coherent)
    (hacts : ∀ act ∈ acts, ∀ scope, act ≠ .openScope scope) :
    (Action.applyAll acts d).PlatformBound := by
  induction acts generalizing d with
  | nil => exact hb
  | cons act acts ih =>
    obtain ⟨hact, hacts⟩ := List.forall_mem_cons.mp hacts
    exact ih (hb.action h hact) (h.action act) hacts

theorem getOrCreate (hb : d.PlatformBound) (h : d.Coherent) (scope : String) :
    (d.getOrCreate scope).2.PlatformBound := by
  cases hs : d.lookup? scope with
  | some r =>
    rw [hb.getOrCreate_of_exists h hs]
    exact hb
  | none =>
    rw [getOrCreate_of_new h hs]
    simp only
    split
    · -- the mark is set before the first gauge, so an opened base scope is never without it
      rename_i hbase
      have hfound : d.foundBase.PlatformBound := by
        intro q g hq hscope hdrop
        obtain ⟨-, rfl⟩ | hold := registry_of_foundBase hq
        · rfl
        · exact hb q g hold hscope hdrop
      rw [← applyAll_gaugeActions]
      refine hfound.actions (coherent_foundBase h (hbase ▸ hs)) fun act hact scope => ?_
      obtain ⟨figure, metadata, rfl⟩ := mem_gaugeActions hact
      exact nofun
    · rename_i hbase
      intro q g hq hscope hdrop
      obtain ⟨-, rfl⟩ | hold := registry_of_found hq
      · exact absurd hscope hbase
      · exact hb q g hold hscope hdrop

/-- **No operation takes that back.** -/
theorem applyAll (hb : d.PlatformBound) (h : d.Coherent) (ops : List Operation) :
    (Operation.applyAll ops d).PlatformBound := by
  have hcourse : Course False d (Operation.actionsAll ops d) := course_actionsAll ops False.elim h
  rw [applyAll_eq_applyAll]
  refine hcourse.keeps (fun hb h scope => hb.getOrCreate h scope) (fun hb h hact => ?_) hb h
  refine hb.action h ?_
  rintro scope rfl
  exact hact

end PlatformBound

variable (settings : RegistrySettings) (platform : PlatformReadings)

/-- **After every run** the base scope has bound the platform metrics, if it exists. -/
theorem platformBound_afterRun (ops : List Operation) :
    (afterRun settings platform ops).PlatformBound := by
  have hnew : (new settings platform).PlatformBound := by
    intro r g hr
    cases hr
  exact hnew.applyAll (coherent_new settings platform) ops

/-! ## Prepared directories -/

/-- What holds of members' metrics before every interception. -/
structure Prepared (d : Directory) : Prop where
  normal : ∀ r g, d.registry? r = some g → ∀ kind member, ∀ id ∈ mappedIds g kind member,
    d.settings.Normal id
  bound : ∀ r g, d.registry? r = some g → g.scope = baseScope → g.dropped = false →
    g.platformBound = true

/-- **What is mapped after an action** was mapped before it or is what the action maps. -/
theorem Effect.mappedIds_before (he : Effect d act d') (hr' : d'.registry? r = some g')
    (hid : id ∈ mappedIds g' kind member) :
    (∃ g, d.registry? r = some g ∧ id ∈ mappedIds g kind member) ∨
      act = .mapMember r kind member id := by
  cases hr : d.registry? r with
  | none =>
    obtain ⟨scope, -, -, rfl⟩ := he.registry_new hr hr'
    rw [mappedIds_of_empty (g := Registry.new scope r) rfl] at hid
    exact absurd hid List.not_mem_nil
  | some g =>
    cases hr'.symm.trans (he.registry hr)
    exact (mem_mappedIds_registryAfter hid).imp_left fun hid => ⟨g, rfl, hid⟩

theorem normal_of_hasMetric (h : d.Coherent) (hm : d.HasMetric r kind id) :
    d.settings.Normal id := by
  obtain ⟨a, ⟨g, id, hr, ha⟩, rfl, -⟩ := hm
  obtain ⟨_, _, hb⟩ := h.backed r g id a hr ha
  exact hb.stored ▸ hb.normal

/-- Where only registered metrics are mapped, what is mapped is normal. -/
theorem normal_applyAll (h : d.Coherent) (hacts : Action.Along Action.MapsMetrics acts d)
    (hn : ∀ r g, d.registry? r = some g → ∀ kind member, ∀ id ∈ mappedIds g kind member,
      d.settings.Normal id) :
    ∀ r g, registry? (Action.applyAll acts d) r = some g → ∀ kind member,
      ∀ id ∈ mappedIds g kind member, (Action.applyAll acts d).settings.Normal id := by
  induction acts generalizing d with
  | nil => exact hn
  | cons act acts ih =>
    refine ih (h.action act) hacts.2 fun r g hr kind member id hid => ?_
    rw [(effect h act).settings]
    obtain ⟨g₀, hr₀, hid⟩ | hact := (effect h act).mappedIds_before hr hid
    · exact hn r g₀ hr₀ kind member id hid
    · exact normal_of_hasMetric h (hacts.1 r kind member id hact)

/-- **Operations that declare lead to prepared directories.** -/
theorem prepared_afterRun {ops : List Operation} (hops : Operation.DeclaresAll ops) :
    (afterRun settings platform ops).Prepared where
  normal := by
    have hnew := coherent_new settings platform
    rw [afterRun_eq_reached]
    exact normal_applyAll hnew (course_actionsAll ops (fun _ => hops) hnew).sound nofun
  bound := platformBound_afterRun settings platform ops

theorem Prepared.getOrCreate_of_exists (hp : d.Prepared) (h : d.Coherent)
    (hs : d.lookup? scope = some r) : d.getOrCreate scope = (r, d) :=
  PlatformBound.getOrCreate_of_exists hp.bound h hs

end Directory

end Telemetry
