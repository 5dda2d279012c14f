import Telemetry.Proofs.Directory.Runs
import Telemetry.Proofs.Isolation.Steps

/-!
# Scopes do not interfere

**Noninterference** (`Session.noninterference`): in a run of steps that are each addressed to one
scope, leaving out all steps of one scope changes no answer to the others (specification, 10.2).

Two runs are followed side by side, the whole one and the one that is left. A step of the scope that
is left out happens in the whole run alone, and frames it as far as the other scopes are concerned
(`Session.frame_step`). Any other step happens in both runs: it has the same answer, leaves its own
scope the same (`Session.Twins.step`) and frames the remaining ones. The runs number what they make
differently, so `Twins` are kept for each scope under a pairing of its own.
-/

namespace Telemetry

variable {ρ : Pairing} {o : Ownership} {t : String}

namespace Directory

variable {d d' : Directory} {r r' : RegistryRef}

theorem Twins.update (h : Twins t ρ d d') {a a' : Adapter} (ha : a.Match ρ a') (value : Int) :
    Twins t ρ (d.modifyStore (a.update value)) (d'.modifyStore (a'.update value)) := by
  cases value with
  | ofNat raw => exact h.record ha raw
  | negSucc n => exact h

theorem Twins.crowdMember (h : Twins t ρ d d') (hr : ρ.rel .registry r r') (name : String)
    (times : Nat) :
    Agree t ρ (fun _ => Eq) (Session.crowdMember r name times d)
      (Session.crowdMember r' name times d') := by
  have hagree : Agree t ρ (fun ρ => SameOutcome (Adapter.Match ρ)) (d.counter r (.ofName name) [])
      (d'.counter r' (.ofName name) []) := h.request hr (.ofName name) [] .counter
  unfold Session.crowdMember
  generalize d.counter r (.ofName name) [] = p, d'.counter r' (.ofName name) [] = p' at hagree
  obtain ⟨answer, d₁⟩ := p
  obtain ⟨answer', d₁'⟩ := p'
  obtain ⟨ρ₁, hext, hanswer, h₁⟩ := hagree
  cases hanswer with
  | error e => exact ⟨ρ₁, hext, rfl, h₁⟩
  | ok ha => exact ⟨ρ₁, hext, rfl, h₁.increment ha _⟩

theorem Twins.crowdRun (h : Twins t ρ d d') (hr : ρ.rel .registry r r') (name : String)
    (times clients : Nat) :
    Agree t ρ (fun _ => Eq) (Session.crowdRun r name times clients d)
      (Session.crowdRun r' name times clients d') := by
  induction clients generalizing ρ d d' with
  | zero => exact ⟨ρ, .refl ρ, rfl, h⟩
  | succ n ih =>
    obtain ⟨ρ₁, hext, hok, h₁⟩ := h.crowdMember hr name times
    obtain ⟨ρ₂, hext₂, hfailed, h₂⟩ := ih h₁ (hext.le _ _ _ hr)
    unfold Session.crowdRun
    simp only [hok, hfailed]
    exact ⟨ρ₂, hext.trans hext₂, rfl, h₂⟩

end Directory

namespace Session

variable {s s' : Session} {r r' : RegistryRef} {g g' : Registry}

/-- The same answer, in sessions in which the scope is the same still. -/
def Agree (o : Ownership) (t : String) (p p' : Answer × Session) : Prop :=
  p.1 = p'.1 ∧ ∃ ρ, Twins o t ρ p.2 p'.2

/-- An operation on the directories, inside the scope on both sides. -/
theorem Twins.operation {α β : Type} {R : Pairing → α → β → Prop} {p : α × Directory}
    {p' : β × Directory} (h : Twins o t ρ s s') (ha : Directory.Agree t ρ R p p')
    (hc : Directory.Changes t s.directory p.2) (hc' : Directory.Changes t s'.directory p'.2) :
    ∃ ρ', ρ.Extends ρ' ∧ R ρ' p.1 p'.1 ∧
      Twins o t ρ' { s with directory := p.2 } { s' with directory := p'.2 } := by
  obtain ⟨ρ', hext, hp, hd⟩ := ha
  exact ⟨ρ', hext, hp, h.withDirectory hext hc hc' hd⟩

/-- Writing to meters of the scope on both sides. -/
theorem Twins.write {f f' : MeterStore → MeterStore} (h : Twins o t ρ s s')
    (hd : Directory.Twins t ρ (s.directory.modifyStore f) (s'.directory.modifyStore f'))
    (hc : Directory.Changes t s.directory (s.directory.modifyStore f))
    (hc' : Directory.Changes t s'.directory (s'.directory.modifyStore f')) :
    Twins o t ρ (s.modifyStore f) (s'.modifyStore f') :=
  h.withDirectory (.refl ρ) hc hc' hd

/-- Writing one value after the other to the meters of two adapters of the scope. -/
theorem Twins.writeEach {α : Type} {f f' : MeterStore → α → MeterStore} {a a' : Adapter}
    (h : Twins o t ρ s s') (xs : List α)
    (hf : ∀ d d' x, Directory.Twins t ρ d d' →
      Directory.Twins t ρ (d.modifyStore fun s => f s x) (d'.modifyStore fun s => f' s x))
    (hc : ∀ d x, d.Owns t a → Directory.Changes t d (d.modifyStore fun s => f s x))
    (hc' : ∀ d x, d.Owns t a' → Directory.Changes t d (d.modifyStore fun s => f' s x))
    (howns : s.directory.Owns t a) (howns' : s'.directory.Owns t a') :
    Twins o t ρ (s.modifyStore fun store => xs.foldl f store)
      (s'.modifyStore fun store => xs.foldl f' store) := by
  have hsame : List.Forall₂ Eq xs xs := List.forall₂_same.mpr fun _ _ => rfl
  exact h.write (h.directory.foldl hsame fun d d' x _ hx hd => hx ▸ hf d d' x hd)
    (Directory.changes_foldl h.directory.left (fun _ => a) (fun _ _ => howns) hc)
    (Directory.changes_foldl h.directory.right (fun _ => a') (fun _ _ => howns') hc')

/-! ## Steps on a registry -/

theorem Twins.register (h : Twins o t ρ s s') (hr : ρ.rel .registry r r') (metadata : Metadata)
    (tags : List Tag) {wanted : Wanted} (hat : wanted.At o t) :
    ∃ ρ', SameOutcome (Adapter.Match ρ') (s.register r metadata tags wanted).1
        (s'.register r' metadata tags wanted).1 ∧
      Twins o t ρ' (s.register r metadata tags wanted).2
        (s'.register r' metadata tags wanted).2 := by
  obtain ⟨ρ₁, hr₁, hq, h₁⟩ : ∃ ρ₁ : Pairing, ρ₁.rel .registry r r' ∧
      (wanted.request s.cellCount).Match ρ₁ (wanted.request s'.cellCount) ∧
      Twins o t ρ₁ (s.prepare wanted) (s'.prepare wanted) := by
    cases wanted with
    | gauge value cell =>
      obtain ⟨ρ₁, hle, hn, h₁⟩ := h.newCell value hat
      exact ⟨ρ₁, hle _ _ _ hr, .gauge (.cell hn), h₁⟩
    | counter => exact ⟨ρ, hr, .counter, h⟩
    | histogram => exact ⟨ρ, hr, .histogram, h⟩
    | timer => exact ⟨ρ, hr, .timer, h⟩
  obtain ⟨hg, hg'⟩ := h₁.directory.hasRegistry hr₁
  rw [register_eq, register_eq]
  obtain ⟨ρ₂, -, hanswer, h₂⟩ := h₁.operation (h₁.directory.request hr₁ metadata tags hq)
    (Directory.changes_request h₁.directory.left hg metadata tags _)
    (Directory.changes_request h₁.directory.right hg' metadata tags _)
  exact ⟨ρ₂, hanswer, h₂⟩

/-- A lookup of a metric has the same answer on both sides, and holds the metric that it finds. -/
theorem Twins.found (h : Twins o t ρ s s') (hold : Option String) {f f' : Option Adapter} :
    Option.Rel (Adapter.Match ρ) f f' → Agree o t
      (match f with
        | some a => (.summary (summarize s.directory a), s.holdMetric hold a)
        | none => (.none, s))
      (match f' with
        | some a => (.summary (summarize s'.directory a), s'.holdMetric hold a)
        | none => (.none, s')) := by
  intro hrel
  cases hrel with
  | none => exact ⟨rfl, ρ, h⟩
  | some ha =>
    exact ⟨congrArg Answer.summary (h.directory.summarize ha), ρ, h.holdMetric hold ha⟩

theorem Twins.onRegistry (h : Twins o t ρ s s') (hr : ρ.rel .registry r r') (hm : g.Match ρ g')
    {step : RegistryStep} (hat : step.At o t) :
    Agree o t (s.onRegistry r g step) (s'.onRegistry r' g' step) := by
  have hd := h.directory
  obtain ⟨hg, hg'⟩ := hd.hasRegistry hr
  cases step with
  | inspect hold =>
    refine ⟨?_, ρ, h.holdRegistry hold hr⟩
    simp only [Session.onRegistry, hm.scope, hm.metrics.size, hd.meterCount hr, hm.metrics.isEmpty,
      hm.dropped]
  | register wanted metadata tags hold =>
    simp only [Session.onRegistry, withTags]
    cases checkTags tags with
    | error e => exact ⟨rfl, ρ, h⟩
    | ok tags =>
      obtain ⟨ρ₁, hanswer, h₁⟩ := h.register hr metadata tags hat.1
      simp only
      generalize s.register r metadata tags wanted = p, s'.register r' metadata tags wanted = p'
        at hanswer h₁
      obtain ⟨answer, s₁⟩ := p
      obtain ⟨answer', s₁'⟩ := p'
      cases hanswer with
      | error e => exact ⟨rfl, ρ₁, h₁⟩
      | ok ha =>
        exact ⟨congrArg Answer.summary (h₁.directory.summarize ha), ρ₁, h₁.holdMetric hold ha⟩
  | get name tags kind hold =>
    simp only [Session.onRegistry, withTags]
    cases checkTags tags with
    | error e => exact ⟨rfl, ρ, h⟩
    | ok tags =>
      cases kind with
      | none => exact h.found hold (hd.metric? hr _)
      | some kind => exact h.found hold (hd.metricOfKind? hr kind _)
  | list => exact ⟨congrArg Answer.listing (hd.listing hr hm), ρ, h⟩
  | metadata name =>
    refine ⟨?_, ρ, h⟩
    simp only [Session.onRegistry, Registry.metadata?, Registry.kindOf?, hm.names]
  | remove name tags =>
    simp only [Session.onRegistry, withTags]
    cases checkTags tags with
    | error e => exact ⟨rfl, ρ, h⟩
    | ok tags =>
      obtain ⟨ρ₁, -, heq, h₁⟩ := h.operation (hd.remove hr (MetricId.of name tags))
        (Directory.changes_remove hd.left hg _) (Directory.changes_remove hd.right hg' _)
      exact ⟨congrArg Answer.flag heq, ρ₁, h₁⟩
  | removeByName name =>
    obtain ⟨ρ₁, -, heq, h₁⟩ := h.operation (hd.removeByName hr name)
      (Directory.changes_removeMatching hd.left hg _)
      (Directory.changes_removeMatching hd.right hg' _)
    exact ⟨congrArg Answer.flag heq, ρ₁, h₁⟩
  | removeMatching start kind =>
    obtain ⟨ρ₁, -, heq, h₁⟩ := h.operation
      (hd.removeMatching hr (p := fun id a =>
        (Text.after? start.toList id.name.toList).isSome && kind.all fun kind => a.kind = kind)
        fun id a a' ha => by simp only [ha.kind])
      (Directory.changes_removeMatching hd.left hg _)
      (Directory.changes_removeMatching hd.right hg' _)
    exact ⟨congrArg Answer.number heq, ρ₁, h₁⟩
  | exportText name =>
    simp only [Session.onRegistry, ofText, hd.exportRegistry hr]
    split <;> exact ⟨rfl, ρ, h⟩
  | resolveTags name tags =>
    simp only [Session.onRegistry, withTags]
    cases checkTags tags with
    | error e => exact ⟨rfl, ρ, h⟩
    | ok tags =>
      refine ⟨?_, ρ, h⟩
      simp only [hd.settings, Registry.withScopeTag_congr hm.scope]
  | mapped member =>
    refine ⟨?_, ρ, h⟩
    simp only [Session.onRegistry, hm.mappings]
  | crowd name clients times =>
    obtain ⟨ρ₁, hext, hfailed, h₁⟩ := h.operation (hd.crowdRun hr name times clients)
      (Directory.changes_crowdRun hd.left hg name times clients)
      (Directory.changes_crowdRun hd.right hg' name times clients)
    have hr₁ := hext.le _ _ _ hr
    refine ⟨?_, ρ₁, h₁⟩
    simp only [Session.onRegistry, hfailed]
    congr 1
    · obtain ⟨hn, hn'⟩ | ⟨a, a', ha, ha', hmatch⟩ :=
        both_of_rel (h₁.directory.metricOfKind? hr₁ .counter ⟨name, ∅⟩)
      · simp only [hn, hn']
        rfl
      · simp only [ha, ha', Option.map_some, h₁.directory.counterValue hmatch]
    · exact h₁.directory.meterCount hr₁

/-! ## Steps on a metric -/

theorem Twins.onMetric (h : Twins o t ρ s s') {a a' : Adapter} (ha : a.Match ρ a')
    {step : MetricStep} (hat : step.At o t) :
    Agree o t (s.onMetric a step) (s'.onMetric a' step) := by
  have hd := h.directory
  obtain ⟨howns, howns'⟩ := owns_of_match hd.toAlike ha
  have hrecord : ∀ raw,
      Twins o t ρ (s.modifyStore (a.record raw)) (s'.modifyStore (a'.record raw)) := fun raw =>
    h.write (hd.record ha raw) (Directory.changes_record howns raw)
      (Directory.changes_record howns' raw)
  cases step with
  | increment n =>
    have h₁ : Twins o t ρ (s.modifyStore (a.increment n)) (s'.modifyStore (a'.increment n)) :=
      h.write (hd.increment ha n) (Directory.changes_increment howns n)
        (Directory.changes_increment howns' n)
    simp only [Session.onMetric, ha.kind]
    split
    · exact ⟨congrArg (fun n : UInt64 => Answer.number n.toNat) (h₁.directory.counterValue ha), ρ,
        h₁⟩
    · exact ⟨rfl, ρ, h⟩
  | update values durations =>
    simp only [Session.onMetric, ha.kind]
    split
    · have h₁ := h.writeEach values (fun _ _ value h => h.update ha value)
        (fun _ value h => Directory.changes_update h value)
        (fun _ value h => Directory.changes_update h value) howns howns'
      exact ⟨congrArg₂ Answer.updated (h₁.directory.recorded ha) (h₁.directory.total ha), ρ, h₁⟩
    · have h₁ := h.writeEach durations (fun _ _ d h => h.record ha (saturate d.nanos))
        (fun _ d h => Directory.changes_record h (saturate d.nanos))
        (fun _ d h => Directory.changes_record h (saturate d.nanos)) howns howns'
      exact ⟨congrArg₂ Answer.elapsed (h₁.directory.recorded ha) (h₁.directory.total ha), ρ, h₁⟩
    · exact ⟨rfl, ρ, h⟩
  | time fails elapsed =>
    simp only [Session.onMetric, ha.kind]
    split
    · have h₁ := hrecord (saturate elapsed.nanos)
      exact ⟨congrArg (Answer.timed _) (h₁.directory.recorded ha), ρ, h₁⟩
    · exact ⟨rfl, ρ, h⟩
  | context elapsed | expire elapsed =>
    simp only [Session.onMetric, ha.kind]
    split
    · have h₁ := hrecord (saturate elapsed.nanos)
      exact ⟨congrArg₂ Answer.stopped (hd.recorded ha) (h₁.directory.recorded ha), ρ, h₁⟩
    · exact ⟨rfl, ρ, h⟩
  | read => exact ⟨congrArg Answer.reading (hd.reading ha), ρ, h⟩
  | count => exact ⟨congrArg Answer.summary (hd.summarize ha), ρ, h⟩
  | setCell cell value =>
    simp only [Session.onMetric, ha.kind]
    split
    · obtain ⟨hn, hn'⟩ | ⟨n, n', hn, hn', hcell⟩ := both_of_rel (h.cells cell hat)
      · simp only [hn, hn']
        exact ⟨congrArg Answer.value (hd.gaugeValue ha), ρ, h⟩
      · have h₁ := h.setCell hcell value
        simp only [hn, hn']
        exact ⟨congrArg Answer.value (h₁.directory.gaugeValue ha), ρ, h₁⟩
    · exact ⟨rfl, ρ, h⟩
  | same other =>
    refine ⟨congrArg Answer.flag ?_, ρ, h⟩
    obtain ⟨hn, hn'⟩ | ⟨b, b', hb, hb', hmatch⟩ := both_of_rel (h.metrics other hat)
    · rw [hn, hn']
      rfl
    · rw [hb, hb', Option.any_some, Option.any_some, Bool.eq_iff_iff, beq_iff_eq, beq_iff_eq]
      exact Pairing.eq_iff hmatch.serial ha.serial

/-! ## Steps -/

theorem Twins.resolve (h : Twins o t ρ s s') {target : Target} (hat : target.At o t) :
    ∃ ρ', Option.Rel (ρ'.rel .registry) (s.resolve target).1 (s'.resolve target).1 ∧
      Twins o t ρ' (s.resolve target).2 (s'.resolve target).2 := by
  cases target with
  | held handle => exact ⟨ρ, h.registries handle hat, h⟩
  | scope scope =>
    cases hat
    obtain ⟨ρ₁, -, hr, h₁⟩ := h.operation h.directory.getOrCreate
      (Directory.changes_getOrCreate h.directory.left t)
      (Directory.changes_getOrCreate h.directory.right t)
    exact ⟨ρ₁, .some hr, h₁⟩

/-- Work that is intercepted alike on both sides is answered alike. -/
theorem Twins.intercepted (h : Twins o t ρ s s') {p p' : Ending (Outcome Unit) × Directory}
    (hagree : Directory.Agree t ρ (fun _ => Eq) p p')
    (hc : Directory.Changes t s.directory p.2) (hc' : Directory.Changes t s'.directory p'.2) :
    Agree o t (s.ofInterception p) (s'.ofInterception p') := by
  obtain ⟨ρ₁, -, hanswer, h₁⟩ := h.operation hagree hc hc'
  obtain ⟨answer, d₁⟩ := p
  obtain ⟨answer', d₁'⟩ := p'
  cases hanswer
  match answer with
  | .returned (.error e) => exact ⟨rfl, ρ₁, h₁⟩
  | .returned (.ok ()) => exact ⟨rfl, ρ₁, h₁⟩
  | .unwound => exact ⟨rfl, ρ₁, h₁⟩

/-- **A step of the scope** has the same answer on both sides. -/
theorem Twins.step (h : Twins o t ρ s s') {step : Step} (hat : step.At o t) :
    Agree o t (s.step step) (s'.step step) := by
  have hd := h.directory
  cases step with
  | scopeExists scope =>
    cases hat
    exact ⟨congrArg Answer.flag hd.scopeExists, ρ, h⟩
  | dropScope scope =>
    cases hat
    obtain ⟨ρ₁, -, heq, h₁⟩ := h.operation hd.dropScope (Directory.changes_dropScope hd.left t)
      (Directory.changes_dropScope hd.right t)
    exact ⟨congrArg Answer.flag heq, ρ₁, h₁⟩
  | lookup scope =>
    cases hat
    simp only [Session.step, Directory.lookup?]
    obtain ⟨hn, hn'⟩ | ⟨r, r', hs, hs', hr⟩ := both_of_rel hd.current
    · simp only [hn, hn']
      exact ⟨rfl, ρ, h⟩
    · obtain ⟨g, g', hg, hg', -, -, hm⟩ := hd.registries hr
      simp only [hs, hs', Option.bind_some, hg, hg', hm.scope, hm.metrics.size]
      exact ⟨rfl, ρ, h⟩
  | exportText request =>
    simp only [Session.step, ofText, hd.exportText hat]
    split <;> exact ⟨rfl, ρ, h⟩
  | registerMember member annotations =>
    obtain ⟨ρ₁, -, hanswer, h₁⟩ := h.operation (hd.registerMember member hat)
      (Directory.changes_registerMember hd.left member hat)
      (Directory.changes_registerMember hd.right member hat)
    simp only [Session.step]
    generalize Directory.registerMember member annotations s.directory = p,
      Directory.registerMember member annotations s'.directory = p' at hanswer h₁
    obtain ⟨answer, d₁⟩ := p
    obtain ⟨answer', d₁'⟩ := p'
    cases hanswer with
    | error e => exact ⟨rfl, ρ₁, h₁⟩
    | ok hids => exact ⟨congrArg Answer.ids hids, ρ₁, h₁⟩
  | intercept kind scope member fails elapsed =>
    cases hat
    cases kind with
    | counted =>
      have hc : ∀ d : Directory, d.Coherent →
          Directory.Changes t d (d.invokeCounted t member (idle fails)).2 :=
        fun d h => Directory.changes_invokeCounted h t member fun d => .refl d
      exact h.intercepted (hd.invokeCounted member _) (hc _ hd.left) (hc _ hd.right)
    | timed =>
      have hc : ∀ d : Directory, d.Coherent → Directory.Changes t d
          (d.invokeTimed t member (fun _ => elapsed) (idle fails)).2 :=
        fun d h => Directory.changes_invokeTimed h t member _ fun d => .refl d
      exact h.intercepted (hd.invokeTimed member elapsed _) (hc _ hd.left) (hc _ hd.right)
  | scrape endpoint request headers =>
    refine ⟨?_, ρ, h⟩
    simp only [Session.step, hd.scrape endpoint hat]
  | onRegistry target step =>
    obtain ⟨ρ₁, hrel, h₁⟩ := h.resolve hat.1
    simp only [Session.step]
    generalize s.resolve target = p, s'.resolve target = p' at hrel h₁
    obtain ⟨r, s₁⟩ := p
    obtain ⟨r', s₁'⟩ := p'
    cases hrel with
    | none => exact ⟨rfl, ρ₁, h₁⟩
    | some hr =>
      obtain ⟨g, g', hg, hg', -, -, hm⟩ := h₁.directory.registries hr
      simp only at h₁ hg hg' ⊢
      rw [hg, hg']
      exact h₁.onRegistry hr hm hat.2
  | onMetric handle step =>
    simp only [Session.step]
    obtain ⟨hn, hn'⟩ | ⟨a, a', ha, ha', hmatch⟩ := both_of_rel (h.metrics handle hat.1)
    · simp only [hn, hn']
      exact ⟨rfl, ρ, h⟩
    · simp only [ha, ha']
      exact h.onMetric hmatch hat.2
  | scopes => cases hat
  | dropAll => cases hat
  | wellKnown => cases hat
  | exportAll => cases hat

/-! ## Runs -/

/-- The steps of a run, each with the scope that it is addressed to and its answer. -/
def trace (steps : List (String × Step)) (s : Session) : List ((String × Step) × Answer) :=
  steps.zip (run (steps.map Prod.snd) s).1

theorem trace_cons (p : String × Step) (steps : List (String × Step)) (s : Session) :
    trace (p :: steps) s = (p, (s.step p.2).1) :: trace steps (s.step p.2).2 := rfl

/-- Two sessions that are the same in every scope but `u` answer the steps of the others alike,
whether the steps of `u` are carried out or not. -/
theorem trace_without {u : String} {steps : List (String × Step)} (hat : ∀ p ∈ steps, p.2.At o p.1)
    (hself : ∃ ρ, Twins o u ρ s s) (hothers : ∀ t, t ≠ u → ∃ ρ, Twins o t ρ s s')
    (hright : s'.directory.Coherent) :
    (trace steps s).filter (fun p => p.1.1 ≠ u) = trace (steps.filter fun p => p.1 ≠ u) s' := by
  induction steps generalizing s s' with
  | nil => rfl
  | cons p steps ih =>
    obtain ⟨t, step⟩ := p
    have hstep : step.At o t := hat (t, step) List.mem_cons_self
    have hrest : ∀ p ∈ steps, p.2.At o p.1 := fun p hp => hat p (List.mem_cons_of_mem _ hp)
    obtain ⟨ρ, hself⟩ := hself
    rw [trace_cons]
    by_cases ht : t = u
    · subst ht
      have hf := frame_step hself.left hstep
      rw [List.filter_cons_of_neg (by simp), List.filter_cons_of_neg (by simp)]
      refine ih hrest (hself.step hstep).2 (fun t' ht' => ?_) hright
      obtain ⟨ρ', h⟩ := hothers t' ht'
      exact ⟨ρ', h.frame hf (.refl o t hright) ht'.symm⟩
    · obtain ⟨ρ₁, h₁⟩ := hothers t ht
      obtain ⟨hanswer, hsame⟩ := h₁.step hstep
      have hf := frame_step h₁.left hstep
      have hf' := frame_step h₁.right hstep
      rw [List.filter_cons_of_pos (by simpa using ht), List.filter_cons_of_pos (by simpa using ht),
        trace_cons, hanswer]
      refine congrArg _ (ih hrest ⟨ρ, hself.frame hf hf ht⟩ (fun t' ht' => ?_) hf'.coherent)
      by_cases htt : t' = t
      · exact htt ▸ hsame
      · obtain ⟨ρ', h⟩ := hothers t' ht'
        exact ⟨ρ', h.frame hf hf' fun he => htt he.symm⟩

/-- **Noninterference.** In a run of steps that are each addressed to one scope, leaving out the
steps of one scope changes no answer to the other steps. -/
theorem noninterference (o : Ownership) (settings : RegistrySettings) (platform : PlatformReadings)
    (steps : List (String × Step)) (hat : ∀ p ∈ steps, p.2.At o p.1) (u : String) :
    (trace steps (new (.new settings platform))).filter (fun p => p.1.1 ≠ u) =
      trace (steps.filter fun p => p.1 ≠ u) (new (.new settings platform)) := by
  have hcoherent := Directory.coherent_new settings platform
  have htwins : ∀ t,
      Twins o t .empty (new (.new settings platform)) (new (.new settings platform)) :=
    fun t => .new o t ⟨Directory.alike_new settings platform t, hcoherent, hcoherent⟩
  exact trace_without hat ⟨_, htwins u⟩ (fun t _ => ⟨_, htwins t⟩) hcoherent

/-- Two scopes with a counter of one name each; the one made first is dropped. -/
def sharedName : List (String × Step) :=
  [("a", .onRegistry (.scope "a") (.register .counter (.ofName "n") [] (some "x"))),
   ("b", .onRegistry (.scope "b") (.register .counter (.ofName "n") [] (some "y"))),
   ("a", .onMetric "x" (.increment 2)),
   ("b", .onMetric "y" (.increment 3)),
   ("a", .dropScope "a"),
   ("b", .onMetric "y" .read)]

/-- The names of `sharedName`: `x` is for scope `a`. -/
def sharedNameOwners : Ownership :=
  ⟨fun _ => "b", fun name => if name = "x" then "a" else "b", fun _ => "b"⟩

/-- The counter of the second scope reads its own count, with and without the first scope. -/
theorem noninterference_sharedName :
    let s := new (.new ⟨∅, none, {}, true⟩ default)
    (∀ p ∈ sharedName, p.2.At sharedNameOwners p.1) ∧
      (trace sharedName s).filter (fun p => p.1.1 ≠ "a") =
        trace (sharedName.filter fun p => p.1 ≠ "a") s ∧
      ((trace sharedName s).getLast?.map Prod.snd) =
        some (.reading (.counter ⟨"n", ∅⟩ 3)) := by
  intro s
  have hat : ∀ p ∈ sharedName, p.2.At sharedNameOwners p.1 := by
    simp [sharedName, sharedNameOwners, Step.At, Target.At, RegistryStep.At, Wanted.At,
      MetricStep.At]
  exact ⟨hat, noninterference sharedNameOwners ⟨∅, none, {}, true⟩ default sharedName hat "a",
    by decide +kernel⟩

end Session

end Telemetry
