import Telemetry.Proofs.Isolation.Sessions

/-!
# Steps addressed to one scope

`Step.At o t` says that a step is addressed to scope `t`: it names this scope and no other, or a
registry, metric or cell that belongs to it. A step changes only what belongs to the scope that it
is addressed to (`Session.frame_step`).
-/

namespace Telemetry

section

variable (o : Ownership) (t : String)

def Target.At : Target → Prop
  | .held handle => o.registry handle = t
  | .scope u => u = t

def Wanted.At : Wanted → Prop
  | .gauge _ cell => ∀ c ∈ cell, o.cell c = t
  | .counter | .histogram | .timer => True

/-- What is held under a name, and a cell that is named, belong to the scope. -/
def RegistryStep.At : RegistryStep → Prop
  | .inspect hold => ∀ name ∈ hold, o.registry name = t
  | .register wanted _ _ hold => wanted.At o t ∧ ∀ name ∈ hold, o.metric name = t
  | .get _ _ _ hold => ∀ name ∈ hold, o.metric name = t
  | .list | .metadata _ | .remove _ _ | .removeByName _ | .removeMatching _ _ | .exportText _
  | .resolveTags _ _ | .mapped _ | .crowd _ _ _ => True

def MetricStep.At : MetricStep → Prop
  | .setCell cell _ => o.cell cell = t
  | .same other => o.metric other = t
  | .increment _ | .update _ _ | .time _ _ | .context _ | .expire _ | .read | .count => True

/-- The step is addressed to scope `t`. Steps that read or change all scopes are addressed to
none. -/
def Step.At : Step → Prop
  | .scopeExists u | .dropScope u | .lookup u => u = t
  | .exportText request => request.At t
  | .registerMember _ annotations => ∀ a ∈ annotations, a.scope = t
  | .intercept _ u _ _ _ => u = t
  | .scrape _ request _ => request.param? "scope" = some t
  | .onRegistry target step => target.At o t ∧ step.At o t
  | .onMetric handle step => o.metric handle = t ∧ step.At o t
  | .scopes | .dropAll | .wellKnown | .exportAll => False

end

/-! ## Writing -/

namespace Directory

variable {d : Directory} {u : String}

theorem changes_update {a : Adapter} (ha : d.Owns u a) (value : Int) :
    Changes u d (d.modifyStore (a.update value)) := by
  cases value with
  | ofNat raw => exact changes_record ha raw
  | negSucc n => exact .refl d

/-- A member of a crowd changes the scope of its registry. -/
theorem changes_crowdMember (h : d.Coherent) {r : RegistryRef} (hr : d.HasRegistry r u)
    (name : String) (times : Nat) : Changes u d (Session.crowdMember r name times d).2 := by
  have hc : Changes u d (d.counter r (.ofName name) []).2 :=
    changes_request h hr (.ofName name) [] .counter
  have howns : ∀ a, (d.counter r (.ofName name) []).1 = .ok a →
      (d.counter r (.ofName name) []).2.Owns u a := fun a hok =>
    owns_request (q := .counter) h hr hok
  unfold Session.crowdMember
  generalize d.counter r (.ofName name) [] = p at hc howns
  obtain ⟨answer, d'⟩ := p
  cases answer with
  | error e => exact hc
  | ok a => exact hc.trans (changes_increment (howns a rfl) _)

theorem changes_crowdRun (h : d.Coherent) {r : RegistryRef} (hr : d.HasRegistry r u) (name : String)
    (times clients : Nat) : Changes u d (Session.crowdRun r name times clients d).2 := by
  induction clients generalizing d with
  | zero => exact .refl d
  | succ n ih =>
    have hc := changes_crowdMember h hr name times
    exact hc.trans (ih (hc.coherent h) (hr.changes h hc))

end Directory

namespace Session

variable {o : Ownership} {t u : String} {s : Session} {r : RegistryRef}

/-! ## Registering -/

/-- The session with the cell that a gauge is to sample. -/
def prepare (s : Session) : Wanted → Session
  | .gauge value cell => (s.newCell value cell).2
  | .counter | .histogram | .timer => s

end Session

/-- What is requested of the registry, `n` being the cell of a gauge. -/
def Wanted.request (n : Nat) : Wanted → MetricRequest
  | .counter => .counter
  | .histogram => .histogram
  | .timer => .timer
  | .gauge _ _ => .gauge (.cell n)

namespace Session

variable {o : Ownership} {u : String} {s : Session} {r : RegistryRef}

theorem register_eq (s : Session) (r : RegistryRef) (metadata : Metadata) (tags : List Tag)
    (wanted : Wanted) :
    s.register r metadata tags wanted =
      let made := (s.prepare wanted).directory.request r metadata tags (wanted.request s.cellCount)
      (made.1, { s.prepare wanted with directory := made.2 }) := by
  cases wanted <;> rfl

theorem frame_prepare (h : s.directory.Coherent) {wanted : Wanted} (hat : wanted.At o u) :
    Frame o u s (s.prepare wanted) := by
  cases wanted with
  | gauge value cell => exact frame_newCell h value hat
  | _ => exact .refl o u h

theorem hasRegistry_prepare (hr : s.directory.HasRegistry r u) (wanted : Wanted) :
    (s.prepare wanted).directory.HasRegistry r u := by
  cases wanted with
  | gauge value cell => cases cell <;> exact hr
  | _ => exact hr

theorem frame_register (h : s.directory.Coherent) (hr : s.directory.HasRegistry r u)
    (metadata : Metadata) (tags : List Tag) {wanted : Wanted} (hat : wanted.At o u) :
    Frame o u s (s.register r metadata tags wanted).2 := by
  have hf := frame_prepare (o := o) h hat
  rw [register_eq]
  exact hf.trans (frame_directory hf.coherent
    (Directory.changes_request hf.coherent (hasRegistry_prepare hr wanted) metadata tags _))

/-! ## Frames of steps -/

theorem frame_onRegistry (h : s.directory.Coherent) (hr : s.directory.HasRegistry r u)
    (g : Registry) {step : RegistryStep} (hat : step.At o u) :
    Frame o u s (s.onRegistry r g step).2 := by
  cases step with
  | inspect hold => exact frame_holdRegistry h hat r
  | register wanted metadata tags hold =>
    simp only [onRegistry, withTags]
    cases checkTags tags with
    | error e => exact .refl o u h
    | ok tags =>
      have hf := frame_register h hr metadata tags hat.1
      simp only
      generalize s.register r metadata tags wanted = p at hf
      obtain ⟨answer, s₁⟩ := p
      cases answer with
      | error e => exact hf
      | ok a => exact hf.trans (frame_holdMetric hf.coherent hat.2 a)
  | get name tags kind hold =>
    simp only [onRegistry, withTags]
    cases checkTags tags with
    | error e => exact .refl o u h
    | ok tags =>
      simp only
      split
      · exact frame_holdMetric h hat _
      · exact .refl o u h
  | remove name tags =>
    simp only [onRegistry, withTags]
    cases checkTags tags with
    | error e => exact .refl o u h
    | ok tags => exact frame_directory h (Directory.changes_remove h hr _)
  | removeByName name => exact frame_directory h (Directory.changes_removeMatching h hr _)
  | removeMatching start kind => exact frame_directory h (Directory.changes_removeMatching h hr _)
  | exportText name =>
    simp only [onRegistry, ofText]
    split <;> exact .refl o u h
  | resolveTags name tags =>
    simp only [onRegistry, withTags]
    cases checkTags tags <;> exact .refl o u h
  | crowd name clients times =>
    exact frame_directory h (Directory.changes_crowdRun h hr name times clients)
  | list => exact .refl o u h
  | metadata name => exact .refl o u h
  | mapped member => exact .refl o u h

theorem frame_onMetric (h : s.directory.Coherent) {a : Adapter} (ha : s.directory.Owns u a)
    {step : MetricStep} (hat : step.At o u) : Frame o u s (s.onMetric a step).2 := by
  cases step with
  | increment n =>
    simp only [onMetric]
    split
    · exact frame_directory h (Directory.changes_increment ha n)
    · exact .refl o u h
  | update values durations =>
    simp only [onMetric]
    split
    · exact frame_directory h (Directory.changes_foldl h (fun _ => a) (fun _ _ => ha)
        fun _ value ha => Directory.changes_update ha value)
    · exact frame_directory h (Directory.changes_foldl h (fun _ => a) (fun _ _ => ha)
        fun _ _ ha => Directory.changes_record ha _)
    · exact .refl o u h
  | time fails elapsed =>
    simp only [onMetric]
    split
    · exact frame_directory h (Directory.changes_record ha _)
    · exact .refl o u h
  | context elapsed | expire elapsed =>
    simp only [onMetric]
    split
    · exact frame_directory h (Directory.changes_record ha _)
    · exact .refl o u h
  | setCell cell value =>
    simp only [onMetric]
    split
    · split
      · rename_i n hn
        exact frame_setCell h hat hn value
      · exact .refl o u h
    · exact .refl o u h
  | read => exact .refl o u h
  | count => exact .refl o u h
  | same other => exact .refl o u h

theorem frame_resolve (h : Holds o u s) {target : Target} (hat : target.At o u) :
    Frame o u s (s.resolve target).2 ∧
      ∀ r, (s.resolve target).1 = some r → (s.resolve target).2.directory.HasRegistry r u := by
  cases target with
  | held handle => exact ⟨.refl o u h.coherent, fun r hr => h.registry handle r hat hr⟩
  | scope scope =>
    cases hat
    refine ⟨frame_directory h.coherent (Directory.changes_getOrCreate h.coherent u), fun r hr => ?_⟩
    cases hr
    exact Directory.hasRegistry_getOrCreate h.coherent u

/-- **A step changes the scope that it is addressed to** and nothing else. -/
theorem frame_step (h : Holds o u s) {step : Step} (hat : step.At o u) :
    Frame o u s (s.step step).2 := by
  have hd := h.coherent
  cases step with
  | scopeExists scope => exact .refl o u hd
  | dropScope scope =>
    cases hat
    exact frame_directory hd (Directory.changes_dropScope hd u)
  | lookup scope =>
    simp only [Session.step]
    split <;> exact .refl o u hd
  | exportText request =>
    simp only [Session.step, ofText]
    split <;> exact .refl o u hd
  | registerMember member annotations =>
    have hc := Directory.changes_registerMember hd member hat
    simp only [Session.step]
    split
    · rename_i heq
      rw [heq] at hc
      exact frame_directory hd hc
    · rename_i heq
      rw [heq] at hc
      exact frame_directory hd hc
  | intercept kind scope member fails elapsed =>
    cases hat
    simp only [Session.step, ofInterception_snd]
    cases kind with
    | counted =>
      exact frame_directory hd (Directory.changes_invokeCounted hd u member fun d => .refl d)
    | timed =>
      exact frame_directory hd (Directory.changes_invokeTimed hd u member _ fun d => .refl d)
  | scrape endpoint request headers => exact .refl o u hd
  | onRegistry target step =>
    obtain ⟨hf, hr⟩ := frame_resolve h hat.1
    simp only [Session.step]
    generalize s.resolve target = p at hf hr
    obtain ⟨r, s₁⟩ := p
    cases r with
    | none => exact hf
    | some r =>
      simp only
      split
      · exact hf
      · exact hf.trans (frame_onRegistry hf.coherent (hr r rfl) _ hat.2)
  | onMetric handle step =>
    simp only [Session.step]
    split
    · exact .refl o u hd
    · rename_i a ha
      exact frame_onMetric hd (h.metric handle a hat.1 ha) hat.2
  | scopes => cases hat
  | dropAll => cases hat
  | wellKnown => cases hat
  | exportAll => cases hat

end Session

end Telemetry
