import Telemetry.Proofs.History.Accounts
import Telemetry.Proofs.Isolation.Steps

/-!
# Sessions have histories

Whatever a client does in a session comes down to actions, and what it holds was a registry's: a
session `Follows` a history when its directory is the one that the history reaches and all that it
holds, under the names that are asked for, comes from registries that are asked for.

* `follows_step`: a step that keeps to some names and scopes goes on with the history and leaves
  what these names hold with the same registries;
* `follows_run`: so every run of a session has an authentic history.
-/

namespace Telemetry

/-! ## Names -/

/-- Some of a client's names, and some scopes. -/
structure Names where
  registry : String → Prop
  metric : String → Prop
  cell : String → Prop
  scope : String → Prop

/-- All names and all scopes. -/
def Names.all : Names := ⟨fun _ => True, fun _ => True, fun _ => True, fun _ => True⟩

section

variable (N : Names)

def Target.Within : Target → Prop
  | .held handle => N.registry handle
  | .scope u => N.scope u

def Wanted.Within : Wanted → Prop
  | .gauge _ cell => ∀ c ∈ cell, N.cell c
  | .counter | .histogram | .timer => True

def RegistryStep.Within : RegistryStep → Prop
  | .inspect hold => ∀ name ∈ hold, N.registry name
  | .register wanted _ _ hold => wanted.Within N ∧ ∀ name ∈ hold, N.metric name
  | .get _ _ _ hold => ∀ name ∈ hold, N.metric name
  | .list | .metadata _ | .remove _ _ | .removeByName _ | .removeMatching _ _ | .exportText _
  | .resolveTags _ _ | .mapped _ | .crowd _ _ _ => True

def MetricStep.Within : MetricStep → Prop
  | .setCell cell _ => N.cell cell
  | .same _ | .increment _ | .update _ _ | .time _ _ | .context _ | .expire _ | .read | .count =>
    True

/-- The step changes only scopes of these, through these names. -/
def Step.Within : Step → Prop
  | .dropScope u | .intercept _ u _ _ _ => N.scope u
  | .registerMember _ annotations => ∀ a ∈ annotations, N.scope a.scope
  | .wellKnown => ∀ u ∈ [applicationScope, baseScope, vendorScope], N.scope u
  | .dropAll => ∀ u, N.scope u
  | .onRegistry target step => target.Within N ∧ step.Within N
  | .onMetric handle step => N.metric handle ∧ step.Within N
  | .scopeExists _ | .scopes | .lookup _ | .exportAll | .exportText _ | .scrape _ _ _ => True

end

theorem Step.within_all (step : Step) : step.Within .all := by
  have htarget : ∀ target : Target, target.Within .all := fun target => by
    cases target <;> trivial
  have hregistry : ∀ step : RegistryStep, step.Within .all := by
    intro step
    cases step with
    | register wanted metadata tags hold =>
      refine ⟨?_, fun _ _ => trivial⟩
      cases wanted with
      | gauge value cell => exact fun _ _ => trivial
      | _ => trivial
    | inspect => exact fun _ _ => trivial
    | get => exact fun _ _ => trivial
    | _ => trivial
  have hmetric : ∀ step : MetricStep, step.Within .all := fun step => by
    cases step <;> trivial
  cases step with
  | registerMember => exact fun _ _ => trivial
  | wellKnown => exact fun _ _ => trivial
  | dropAll => exact fun _ => trivial
  | onRegistry target step => exact ⟨htarget target, hregistry step⟩
  | onMetric handle step => exact ⟨trivial, hmetric step⟩
  | _ => trivial

namespace Directory

variable {d d' : Directory} {act : Action} {a : Adapter} {settings : RegistrySettings}
  {platform : PlatformReadings}

/-! ## Samples -/

theorem samples_write {m : MeterRef} (ha : a.Sole m) (u : Update) :
    (d.modifyStore (a.write u)).store.samples = d.store.samples := by
  show (a.write u d.store).samples = _
  rw [ha.write]
  rfl

end Directory

open Directory

namespace Session

/-! ## Following a history -/

/-- The session came about by the history. What it holds under the names of `N` was made by
registries that satisfy `P`, or is one. -/
structure Follows (settings : RegistrySettings) (platform : PlatformReadings) (N : Names)
    (P : String → RegistryRef → Prop) (acts : List Action) (s : Session) : Prop where
  directory : s.directory = reached settings platform acts
  authentic : Authentic settings platform acts
  figures : s.directory.store.samples.platform = platform
  registry : ∀ name r, N.registry name → s.registries.get? name = some r →
    ∃ g, s.directory.registry? r = some g ∧ P g.scope r
  metric : ∀ name a, N.metric name → s.metrics.get? name = some a →
    ∃ r g, Held settings platform acts r a ∧ s.directory.registry? r = some g ∧ P g.scope r
  cell : ∀ name n, N.cell name → s.cells.get? name = some n → n < s.cellCount

/-- The session follows a history that goes on from this one. -/
def Continues (settings : RegistrySettings) (platform : PlatformReadings) (N : Names)
    (P : String → RegistryRef → Prop) (acts : List Action) (s : Session) : Prop :=
  ∃ later, Follows settings platform N P (acts ++ later) s

section

variable {settings : RegistrySettings} {platform : PlatformReadings} {N : Names}
  {P : String → RegistryRef → Prop} {acts later : List Action} {s s₁ : Session} {r : RegistryRef}
  {g : Registry} {a : Adapter}

theorem Follows.coherent (h : Follows settings platform N P acts s) : s.directory.Coherent :=
  h.directory ▸ coherent_reached settings platform acts

theorem Follows.continues (h : Follows settings platform N P acts s) :
    Continues settings platform N P acts s :=
  ⟨[], by rwa [List.append_nil]⟩

theorem Follows.onward (h : Follows settings platform N P (acts ++ later) s) :
    Continues settings platform N P acts s := ⟨later, h⟩

theorem Continues.onward (h : Continues settings platform N P (acts ++ later) s) :
    Continues settings platform N P acts s := by
  obtain ⟨last, h⟩ := h
  rw [List.append_assoc] at h
  exact ⟨later ++ last, h⟩

/-- What is held stays what it is while a history goes on. -/
theorem Follows.carry (h : Follows settings platform N P acts s)
    (hd : s₁.directory = reached settings platform (acts ++ later))
    (hauth : Authentic settings platform (acts ++ later))
    (hplatform : s₁.directory.store.samples.platform = platform)
    (hcount : s.cellCount ≤ s₁.cellCount)
    (hregistries : ∀ name, N.registry name → s₁.registries.get? name = s.registries.get? name)
    (hmetrics : ∀ name, N.metric name → s₁.metrics.get? name = s.metrics.get? name)
    (hcells : ∀ name, N.cell name → s₁.cells.get? name = s.cells.get? name) :
    Follows settings platform N P (acts ++ later) s₁ := by
  have hkept : ∀ r g, s.directory.registry? r = some g → P g.scope r →
      ∃ g', s₁.directory.registry? r = some g' ∧ P g'.scope r := by
    intro r g hr hP
    obtain ⟨g', hr', hscope, -⟩ := h.coherent.registry_kept hr later
    rw [h.directory, ← reached_append, ← hd] at hr'
    exact ⟨g', hr', hscope ▸ hP⟩
  exact {
    directory := hd
    authentic := hauth
    figures := hplatform
    registry := by
      intro name r hN hr
      rw [hregistries name hN] at hr
      obtain ⟨g, hg, hP⟩ := h.registry name r hN hr
      exact hkept r g hg hP
    metric := by
      intro name a hN ha
      rw [hmetrics name hN] at ha
      obtain ⟨r, g, hheld, hg, hP⟩ := h.metric name a hN ha
      obtain ⟨g', hg', hP'⟩ := hkept r g hg hP
      exact ⟨r, g', hheld.append later, hg', hP'⟩
    cell := by
      intro name n hN hn
      rw [hcells name hN] at hn
      exact Nat.lt_of_lt_of_le (h.cell name n hN hn) hcount }

/-- Going on with actions that neither write nor sample. -/
theorem Follows.quiet (h : Follows settings platform N P acts s) (hlater : ∀ act ∈ later, act.Quiet)
    {d : Directory} (hd : Action.applyAll later s.directory = d) :
    Follows settings platform N P (acts ++ later) { s with directory := d } := by
  have hsamples : d.store.samples = s.directory.store.samples :=
    hd ▸ h.coherent.samples_kept hlater
  refine h.carry ?_ (h.authentic.quiet hlater) ?_ ?_ (fun _ _ => rfl) (fun _ _ => rfl) fun _ _ =>
    rfl
  · rw [reached_append, ← h.directory, hd]
  · exact (congrArg Samples.platform hsamples).trans h.figures
  · exact Nat.le_of_eq (congrArg (fun x : Samples => x.cells.length) hsamples).symm

theorem Follows.write (h : Follows settings platform N P acts s)
    (ha : Held settings platform acts r a) (u : Update) :
    Follows settings platform N P (acts ++ [.write a u]) (s.modifyStore (a.write u)) := by
  obtain ⟨-, m, meter, hsole, -, -⟩ := held_meter ha
  have hsamples := samples_write (d := s.directory) hsole u
  refine h.carry ?_ (h.authentic.write ha u) ?_ ?_ (fun _ _ => rfl) (fun _ _ => rfl) fun _ _ => rfl
  · rw [reached_snoc, ← h.directory]
    rfl
  · exact (congrArg Samples.platform hsamples).trans h.figures
  · exact Nat.le_of_eq (congrArg (fun x : Samples => x.cells.length) hsamples).symm

/-- Writing one thing after the other. -/
theorem Follows.foldl {α : Type} (h : Follows settings platform N P acts s)
    {f : MeterStore → α → MeterStore} {xs : List α}
    (hf : ∀ later s, Follows settings platform N P (acts ++ later) s → ∀ x ∈ xs,
      Continues settings platform N P (acts ++ later) (s.modifyStore fun store => f store x)) :
    Continues settings platform N P acts (s.modifyStore fun store => xs.foldl f store) := by
  induction xs generalizing acts s with
  | nil => exact h.continues
  | cons x xs ih =>
    obtain ⟨later, hfirst⟩ := hf [] s (by rwa [List.append_nil]) x List.mem_cons_self
    rw [List.append_nil] at hfirst
    refine (ih hfirst fun last s' hs' y hy => ?_).onward
    rw [List.append_assoc] at hs' ⊢
    exact hf _ s' hs' y (List.mem_cons_of_mem x hy)

theorem Follows.updateDuration (h : Follows settings platform N P acts s)
    (ha : Held settings platform acts r a) (d : Duration) :
    Continues settings platform N P acts (s.modifyStore (a.updateDuration d)) := by
  have hwritten := h.write ha (.record (saturate d.nanos))
  exact hwritten.onward

theorem Follows.update (h : Follows settings platform N P acts s)
    (ha : Held settings platform acts r a) (value : Int) :
    Continues settings platform N P acts (s.modifyStore (a.update value)) := by
  cases value with
  | ofNat raw => exact (h.write ha (.record raw)).onward
  | negSucc n => exact h.continues

theorem Follows.sample (h : Follows settings platform N P acts s) (samples : Samples)
    (hplatform : samples.platform = platform) (hcount : s.cellCount ≤ samples.cells.length) :
    Follows settings platform N P (acts ++ [.sample samples])
      (s.modifyStore fun store => { store with samples }) := by
  refine h.carry ?_ (h.authentic.sample samples) hplatform hcount (fun _ _ => rfl) (fun _ _ => rfl)
    fun _ _ => rfl
  rw [reached_snoc, ← h.directory]
  rfl

/-! ## Holding -/

theorem Follows.holdRegistry (h : Follows settings platform N P acts s) (hold : Option String)
    (hr : s.directory.registry? r = some g) (hP : P g.scope r) :
    Follows settings platform N P acts (s.holdRegistry hold r) := by
  cases hold with
  | none => exact h
  | some name =>
    exact { h with
      registry := by
        intro q r' hN hr'
        have hr' := (SortedMap.get?_insert ..).symm.trans hr'
        split at hr'
        · cases hr'
          exact ⟨g, hr, hP⟩
        · exact h.registry q r' hN hr' }

theorem Follows.holdMetric (h : Follows settings platform N P acts s) (hold : Option String)
    (ha : Held settings platform acts r a) (hr : s.directory.registry? r = some g)
    (hP : P g.scope r) :
    Follows settings platform N P acts (s.holdMetric hold a) := by
  cases hold with
  | none => exact h
  | some name =>
    exact { h with
      metric := by
        intro q a' hN ha'
        have ha' := (SortedMap.get?_insert ..).symm.trans ha'
        split at ha'
        · cases ha'
          exact ⟨r, g, ha, hr, hP⟩
        · exact h.metric q a' hN ha' }

theorem Follows.newCell (h : Follows settings platform N P acts s) (value : Real64)
    (name : Option String) : Continues settings platform N P acts (s.newCell value name).2 := by
  have hcount : s.cellCount < (s.directory.store.samples.newCell value).2.cells.length := by
    show s.cellCount < (s.directory.store.samples.cells ++ [value]).length
    rw [List.length_append]
    exact Nat.lt_succ_self _
  have hmade := h.sample (s.directory.store.samples.newCell value).2 h.figures
    (Nat.le_of_lt hcount)
  cases name with
  | none => exact hmade.onward
  | some name =>
    refine Follows.onward { hmade with cell := ?_ }
    intro c n hN hn
    have hn := (SortedMap.get?_insert ..).symm.trans hn
    split at hn
    · cases hn
      exact hcount
    · exact hmade.cell c n hN hn

/-! ## Steps on a registry -/

theorem Follows.getOrCreate (h : Follows settings platform N P acts s) (scope : String) :
    Follows settings platform N P (acts ++ openingActions scope s.directory)
      { s with directory := (s.directory.getOrCreate scope).2 } :=
  h.quiet (quiet_openingActions scope s.directory) (applyAll_openingActions scope s.directory)

/-- A registration, and what it is answered with. -/
theorem Follows.request (h : Follows settings platform N P acts s) (r : RegistryRef)
    (req : MetricRequest) (metadata : Metadata) (tags : List Tag) :
    Follows settings platform N P (acts ++ [.register r req metadata tags])
        { s with directory := (s.directory.request r metadata tags req).2 } ∧
      ∀ a, (s.directory.request r metadata tags req).1 = .ok a →
        Held settings platform (acts ++ [.register r req metadata tags]) r a := by
  refine ⟨h.quiet (Action.quiet_single (.register r req metadata tags) trivial) rfl, fun a hok =>
    held_of_stores ?_⟩
  rw [reached_snoc, ← h.directory]
  exact stores_of_request h.coherent hok

theorem Follows.prepare (h : Follows settings platform N P acts s) (wanted : Wanted) :
    Continues settings platform N P acts (s.prepare wanted) := by
  cases wanted with
  | gauge value cell => exact h.newCell value cell
  | _ => exact h.continues

theorem directory_kept (h : Follows settings platform N P acts s)
    (h₁ : Follows settings platform N P (acts ++ later) s₁) (hr : s.directory.registry? r = some g)
    (hP : P g.scope r) : ∃ g', s₁.directory.registry? r = some g' ∧ P g'.scope r := by
  obtain ⟨g', hr', hscope, -⟩ := h.coherent.registry_kept hr later
  rw [h.directory, ← reached_append, ← h₁.directory] at hr'
  exact ⟨g', hr', hscope ▸ hP⟩

/-- Registering what is wanted and holding it. -/
theorem Follows.register (h : Follows settings platform N P acts s)
    (hr : s.directory.registry? r = some g) (hP : P g.scope r) (metadata : Metadata)
    (tags : List Tag) (wanted : Wanted) :
    Continues settings platform N P acts (s.register r metadata tags wanted).2 ∧
      ∀ a hold, (s.register r metadata tags wanted).1 = .ok a →
        Continues settings platform N P acts
          ((s.register r metadata tags wanted).2.holdMetric hold a) := by
  obtain ⟨later, hprepared⟩ := h.prepare wanted
  obtain ⟨g', hr', hP'⟩ := directory_kept h hprepared hr hP
  obtain ⟨hmade, hheld⟩ := hprepared.request r (wanted.request s.cellCount) metadata tags
  obtain ⟨g'', hr'', hP''⟩ := directory_kept hprepared hmade hr' hP'
  rw [register_eq]
  exact ⟨hmade.onward.onward, fun a hold hok =>
    (hmade.holdMetric hold (hheld a hok) hr'' hP'').onward.onward⟩

/-- A crowd registers the counter and increments it. -/
theorem Follows.crowdRun (h : Follows settings platform N P acts s) (r : RegistryRef)
    (name : String) (times clients : Nat) : Continues settings platform N P acts
      { s with directory := (Session.crowdRun r name times clients s.directory).2 } := by
  induction clients generalizing acts s with
  | zero => exact h.continues
  | succ n ih =>
    have hmember : Continues settings platform N P acts
        { s with directory := (crowdMember r name times s.directory).2 } := by
      obtain ⟨hmade, hheld⟩ := h.request r .counter (.ofName name) []
      have heq : s.directory.counter r (.ofName name) [] =
          s.directory.request r (.ofName name) [] .counter := rfl
      unfold crowdMember
      rw [heq]
      generalize s.directory.request r (.ofName name) [] .counter = made at hmade hheld
      obtain ⟨answer, d⟩ := made
      cases answer with
      | error e => exact hmade.onward
      | ok a => exact (hmade.write (hheld a rfl) (.increment (.ofNat times))).onward.onward
    obtain ⟨later, hmember⟩ := hmember
    exact (ih hmember).onward

/-- Steps on a registry that is asked for. -/
theorem Follows.onRegistry (h : Follows settings platform N P acts s)
    (hr : s.directory.registry? r = some g) (hP : P g.scope r) (step : RegistryStep) :
    Continues settings platform N P acts (s.onRegistry r g step).2 := by
  cases step with
  | inspect hold => exact (h.holdRegistry hold hr hP).continues
  | register wanted metadata tags hold =>
    simp only [Session.onRegistry, withTags]
    cases checkTags tags with
    | error e => exact h.continues
    | ok tags =>
      obtain ⟨hmade, hheld⟩ := h.register hr hP metadata tags wanted
      simp only
      generalize s.register r metadata tags wanted = made at hmade hheld
      obtain ⟨answer, s₁⟩ := made
      cases answer with
      | error e => exact hmade
      | ok a => exact hheld a hold rfl
  | get name tags kind hold =>
    simp only [Session.onRegistry, withTags]
    cases checkTags tags with
    | error e => exact h.continues
    | ok tags =>
      have hfound : ∀ a, s.directory.metric? r (.of name tags) = some a →
          Continues settings platform N P acts (s.holdMetric hold a) := by
        intro a ha
        have hstores : (reached settings platform acts).Stores r a :=
          h.directory ▸ stores_of_metric? ha
        exact (h.holdMetric hold (held_of_stores hstores) hr hP).continues
      simp only
      cases kind with
      | none =>
        simp only
        split
        · rename_i a ha
          exact hfound a ha
        · exact h.continues
      | some kind =>
        simp only
        split
        · rename_i a ha
          exact hfound a (Option.filter_eq_some_iff.mp ha).1
        · exact h.continues
  | remove name tags =>
    simp only [Session.onRegistry, withTags]
    cases checkTags tags with
    | error e => exact h.continues
    | ok tags =>
      exact (h.quiet (Action.quiet_single (.remove r (.of name tags)) trivial) rfl).onward
  | removeByName name =>
    exact (h.quiet (quiet_removeMatching r _ s.directory) (apply_eq_applyAll _ _).symm).onward
  | removeMatching start kind =>
    exact (h.quiet (quiet_removeMatching r _ s.directory) (apply_eq_applyAll _ _).symm).onward
  | exportText name =>
    simp only [Session.onRegistry, ofText]
    split <;> exact h.continues
  | resolveTags name tags =>
    simp only [Session.onRegistry, withTags]
    cases checkTags tags <;> exact h.continues
  | crowd name clients times => exact h.crowdRun r name times clients
  | list => exact h.continues
  | metadata name => exact h.continues
  | mapped member => exact h.continues

/-! ## Steps on a metric -/

/-- Steps on a metric that is held. -/
theorem Follows.onMetric (h : Follows settings platform N P acts s)
    (ha : Held settings platform acts r a) (step : MetricStep) :
    Continues settings platform N P acts (s.onMetric a step).2 := by
  cases step with
  | increment n =>
    simp only [Session.onMetric]
    split
    · exact (h.write ha (.increment n)).onward
    · exact h.continues
  | update values durations =>
    simp only [Session.onMetric]
    split
    · exact h.foldl fun later s hs value _ => hs.update (ha.append later) value
    · exact h.foldl fun later s hs d _ => hs.updateDuration (ha.append later) d
    · exact h.continues
  | time fails elapsed =>
    simp only [Session.onMetric]
    split
    · exact h.updateDuration ha elapsed
    · exact h.continues
  | context elapsed | expire elapsed =>
    simp only [Session.onMetric]
    split
    · exact h.updateDuration ha elapsed
    · exact h.continues
  | setCell cell value =>
    simp only [Session.onMetric]
    split
    · split
      · rename_i n hn
        exact (h.sample (s.directory.store.samples.setCell n value) h.figures
          (Nat.le_of_eq (List.length_set ..).symm)).onward
      · exact h.continues
    · exact h.continues
  | read => exact h.continues
  | count => exact h.continues
  | same other => exact h.continues

/-! ## Steps -/

theorem Follows.resolve (h : Follows settings platform N P acts s) {target : Target}
    (hat : target.Within N) (hopen : ∀ u, N.scope u → P u (s.directory.getOrCreate u).1) :
    ∃ later, Follows settings platform N P (acts ++ later) (s.resolve target).2 ∧
      ∀ r, (s.resolve target).1 = some r →
        ∃ g, registry? (s.resolve target).2.directory r = some g ∧ P g.scope r := by
  cases target with
  | held handle => exact ⟨[], by rwa [List.append_nil], fun r hr => h.registry handle r hat hr⟩
  | scope u =>
    refine ⟨_, h.getOrCreate u, fun r hr => ?_⟩
    cases hr
    obtain ⟨g, hg, rfl⟩ := hasRegistry_getOrCreate h.coherent u
    exact ⟨g, hg, hopen g.scope hat⟩

/-- An interception writes to what is mapped to the member. -/
theorem Follows.intercept (h : Follows settings platform N P acts s) (kind : AnnotationKind)
    (scope : String) (member : Member) (fails : Bool) (elapsed : Duration) :
    Continues settings platform N P acts
      (s.step (.intercept kind scope member fails elapsed)).2 := by
  have hopened := h.getOrCreate scope
  have hheld := @held_of_resolveMapped settings platform acts scope
  rw [← h.directory] at hheld
  simp only [Session.step, ofInterception_snd]
  cases kind with
  | counted =>
    rw [invokeCounted_eq]
    cases hmapped : (s.directory.getOrCreate scope).2.resolveMapped
        (s.directory.getOrCreate scope).1 .counted member with
    | error e => exact hopened.onward
    | ok counters =>
      refine (hopened.foldl (f := fun store (a : Adapter) => a.increment 1 store)
        fun later s' hs a ha => ?_).onward
      obtain ⟨r, hr⟩ := hheld hmapped a ha
      exact (hs.write (hr.append later) (.increment 1)).onward
  | timed =>
    rw [invokeTimed_eq]
    cases hmapped : (s.directory.getOrCreate scope).2.resolveMapped
        (s.directory.getOrCreate scope).1 .timed member with
    | error e => exact hopened.onward
    | ok timers =>
      refine (hopened.foldl (f := fun store (a : Adapter) => a.updateDuration elapsed store)
        fun later s' hs a ha => ?_).onward
      obtain ⟨r, hr⟩ := hheld hmapped a ha
      exact hs.updateDuration (hr.append later) elapsed

/-- **A step goes on with the history.** -/
theorem follows_step (h : Follows settings platform N P acts s) {step : Step} (hat : step.Within N)
    (hopen : ∀ u, N.scope u → P u (s.directory.getOrCreate u).1) :
    Continues settings platform N P acts (s.step step).2 := by
  cases step with
  | dropScope scope =>
    exact (h.quiet (Action.quiet_single (.dropScope scope) trivial) rfl).onward
  | dropAll =>
    exact (h.quiet (quiet_dropAll s.directory) (apply_eq_applyAll .dropAll s.directory).symm).onward
  | wellKnown =>
    obtain ⟨later, happlication⟩ := (h.getOrCreate applicationScope).continues
    exact ((happlication.getOrCreate baseScope).getOrCreate vendorScope).onward.onward.onward.onward
  | lookup scope =>
    simp only [Session.step]
    split <;> exact h.continues
  | exportAll =>
    simp only [Session.step]
    split <;> exact h.continues
  | exportText request =>
    simp only [Session.step, ofText]
    split <;> exact h.continues
  | registerMember member annotations =>
    have hmade := h.quiet (quiet_memberActions member annotations s.directory)
      (applyAll_memberActions member annotations s.directory)
    simp only [Session.step]
    generalize Directory.registerMember member annotations s.directory = made at hmade
    obtain ⟨answer, d⟩ := made
    cases answer <;> exact hmade.onward
  | intercept kind scope member fails elapsed => exact h.intercept kind scope member fails elapsed
  | onRegistry target step =>
    obtain ⟨later, hresolved, hr⟩ := h.resolve hat.1 hopen
    simp only [Session.step]
    generalize s.resolve target = resolved at hresolved hr
    obtain ⟨r, s₁⟩ := resolved
    cases r with
    | none => exact hresolved.onward
    | some r =>
      obtain ⟨g, hg, hP⟩ := hr r rfl
      simp only at hg ⊢
      rw [hg]
      exact (hresolved.onRegistry hg hP step).onward
  | onMetric handle step =>
    simp only [Session.step]
    split
    · exact h.continues
    · rename_i a ha
      obtain ⟨r, -, hheld, -⟩ := h.metric handle a hat.1 ha
      exact h.onMetric hheld step
  | scopeExists scope => exact h.continues
  | scopes => exact h.continues
  | scrape endpoint request headers => exact h.continues

/-! ## Runs -/

/-- A new session holds nothing. -/
theorem follows_new (settings : RegistrySettings) (platform : PlatformReadings) (N : Names)
    (P : String → RegistryRef → Prop) :
    Follows settings platform N P [] (new (.new settings platform)) where
  directory := rfl
  authentic := authentic_nil
  figures := rfl
  registry := nofun
  metric := nofun
  cell := nofun

/-- **Every run of a session has an authentic history**, and whatever the session holds then was
held in it. -/
theorem follows_run (steps : List Step)
    (h : Follows settings platform .all (fun _ _ => True) acts s) :
    Continues settings platform .all (fun _ _ => True) acts (run steps s).2 := by
  induction steps generalizing acts s with
  | nil => exact h.continues
  | cons step steps ih =>
    obtain ⟨later, hstep⟩ := follows_step h step.within_all fun _ _ => trivial
    exact (ih hstep).onward

end

end Session

end Telemetry
