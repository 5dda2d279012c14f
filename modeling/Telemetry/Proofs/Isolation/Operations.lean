import Telemetry.Proofs.Isolation.Readings

/-!
# The same operation on both sides

Every operation on the scope that two directories share has the same outcome in both, and leaves
them twins (`Agree`). The outcome is decided by the scope alone: by the registry's verdict, by what
it stores and by which registry is current.
-/

namespace Telemetry

variable {ρ ρ' : Pairing}

/-- The same error, or results that correspond. -/
inductive SameOutcome {α β : Type} (R : α → β → Prop) : Outcome α → Outcome β → Prop
  | error (e : MetricsError) : SameOutcome R (.error e) (.error e)
  | ok {a : α} {b : β} (h : R a b) : SameOutcome R (.ok a) (.ok b)

inductive MetricRequest.Match (ρ : Pairing) : MetricRequest → MetricRequest → Prop
  | counter : Match ρ .counter .counter
  | gauge {s s' : Sampler} (h : s.Match ρ s') : Match ρ (.gauge s) (.gauge s')
  | histogram : Match ρ .histogram .histogram
  | timer : Match ρ .timer .timer

inductive Verdict.Match (ρ : Pairing) : Verdict → Verdict → Prop
  | refuse (e : MetricsError) : Match ρ (.refuse e) (.refuse e)
  | reuse {a a' : Adapter} (h : a.Match ρ a') : Match ρ (.reuse a) (.reuse a')
  | enroll (id : MetricId) {v v' : MeterValue} (h : v.Match ρ v') :
    Match ρ (.enroll id v) (.enroll id v')

theorem MetricRequest.Match.kind {q q' : MetricRequest} (h : q.Match ρ q') : q.kind = q'.kind := by
  cases h <;> rfl

/-- What is made for requests that correspond. -/
theorem MetricRequest.Match.initial {q q' : MetricRequest} (h : q.Match ρ q')
    (settings : RegistrySettings) (name : String) :
    (∃ fault, (q.spec settings name).initial = .error fault ∧
        (q'.spec settings name).initial = .error fault) ∨
      ∃ v v', (q.spec settings name).initial = .ok v ∧ (q'.spec settings name).initial = .ok v' ∧
        v.Match ρ v' := by
  cases h with
  | counter => exact .inr ⟨_, _, rfl, rfl, .counter 0⟩
  | gauge h => exact .inr ⟨_, _, rfl, rfl, .gauge h⟩
  | histogram =>
    simp only [spec, MeterSpec.initial]
    cases Distribution.create (settings.distribution.histogram name) (.ofNat _ 1) with
    | error fault => exact .inl ⟨fault, rfl, rfl⟩
    | ok values => exact .inr ⟨_, _, rfl, rfl, .histogram values⟩
  | timer =>
    simp only [spec, MeterSpec.initial]
    cases Distribution.create (settings.distribution.timer name) Meter.nanosScale with
    | error fault => exact .inl ⟨fault, rfl, rfl⟩
    | ok durations => exact .inr ⟨_, _, rfl, rfl, .timer durations⟩

/-- **Registries that correspond** judge a request the same. -/
theorem Registry.Match.verdict {g g' : Registry} (h : g.Match ρ g') (settings : RegistrySettings)
    (metadata : Metadata) (tags : List Tag) {q q' : MetricRequest} (hq : q.Match ρ q') :
    (g.verdict settings metadata tags q).Match ρ (g'.verdict settings metadata tags q') := by
  unfold Registry.verdict
  rw [metricId_congr h.scope, h.names, h.dropped, h.scope, hq.kind]
  split
  · exact .refuse _
  split
  · exact .refuse _
  rename_i id _
  have hrel := h.metrics.get? id
  generalize g.metrics.get? id = o, g'.metrics.get? id = o' at hrel
  cases hrel with
  | some ha =>
    simp only [ha.kind]
    split
    · exact .reuse ha
    · exact .refuse _
  | none =>
    simp only
    split
    · exact .refuse _
    split
    · exact .refuse _
    obtain ⟨fault, hv, hv'⟩ | ⟨v, v', hv, hv', hmatch⟩ := hq.initial settings metadata.name
    · rw [hv, hv']
      exact .refuse _
    · rw [hv, hv']
      exact .enroll id hmatch

namespace Directory

variable {t : String} {d d' : Directory} {r r' : RegistryRef} {α β : Type}

/-- Results that correspond, in directories that are twins still. -/
def Agree (t : String) (ρ : Pairing) (R : Pairing → α → β → Prop) (p : α × Directory)
    (p' : β × Directory) : Prop :=
  ∃ ρ', ρ.Extends ρ' ∧ R ρ' p.1 p'.1 ∧ Twins t ρ' p.2 p'.2

/-! ## Registration -/

theorem Twins.request (h : Twins t ρ d d') (hr : ρ.rel .registry r r') (metadata : Metadata)
    (tags : List Tag) {q q' : MetricRequest} (hq : q.Match ρ q') :
    Agree t ρ (fun ρ => SameOutcome (Adapter.Match ρ)) (d.request r metadata tags q)
      (d'.request r' metadata tags q') := by
  obtain ⟨g, g', hg, hg', hscope, hscope', hm⟩ := h.registries hr
  have hleft := (changes_request h.left ⟨g, hg, hscope⟩ metadata tags q).coherent h.left
  have hright := (changes_request h.right ⟨g', hg', hscope'⟩ metadata tags q').coherent h.right
  have hverdict := hm.verdict d.settings metadata tags hq
  have heffective : g'.effective metadata = g.effective metadata := by
    unfold Registry.effective
    rw [hm.names]
  rw [request_eq h.left hg] at hleft ⊢
  rw [request_eq h.right hg', heffective, ← h.settings] at hright ⊢
  generalize hv : g.verdict d.settings metadata tags q = v at hverdict hleft ⊢
  generalize hv' : g'.verdict d.settings metadata tags q' = v' at hverdict hright ⊢
  have halike := h.toAlike.describe hr (g.effective metadata) q.kind
  cases hverdict with
  | refuse e => exact ⟨ρ, .refl ρ, .error e, h⟩
  | reuse ha =>
    simp only [settle, ← hq.kind] at hleft hright ⊢
    exact ⟨ρ, .refl ρ, .ok ha, halike, hleft, hright⟩
  | enroll id hvalue =>
    have hdrop : g.dropped = false := (Registry.verdict_enroll hv).2.2.2.1
    have hdrop' : g'.dropped = false := (Registry.verdict_enroll hv').2.2.2.1
    have haligned := h.left.toAligned.congr
      (sameLayout_describe d r (g.effective metadata) q.kind)
    have haligned' := h.right.toAligned.congr
      (sameLayout_describe d' r' (g.effective metadata) q.kind)
    have hr₁ : registry? (d.describe r (g.effective metadata) q.kind) r = some _ :=
      modify_of_registry _ hg
    have hr₁' : registry? (d'.describe r' (g.effective metadata) q.kind) r' = some _ :=
      modify_of_registry _ hg'
    rw [if_pos rfl] at hr₁ hr₁'
    have hn := haligned.mem_attached hr₁ hdrop
    have hn' := haligned'.mem_attached hr₁' hdrop'
    have hform : q.form.kind = q'.form.kind := by
      rw [MetricRequest.kind_form, MetricRequest.kind_form, hq.kind]
    have hmid : g'.meterId id = g.meterId id := Registry.meterId_congr hm.scope.symm id
    simp only [settle, ← hq.kind, hmid] at hleft hright ⊢
    refine ⟨_, Pairing.extends_next halike.below (by simp [enrolled]),
      .ok (halike.nextAdapter haligned haligned' hn hn' id hform _), ?_, hleft, hright⟩
    exact halike.enroll hr haligned haligned' hn hn' id hform ⟨rfl, rfl, hvalue⟩
      ((Registry.scope_meterId g id).trans (congrArg some hscope))

/-! ## Removal -/

theorem Twins.remove (h : Twins t ρ d d') (hr : ρ.rel .registry r r') (id : MetricId) :
    Agree t ρ (fun _ => Eq) (d.remove r id) (d'.remove r' id) := by
  obtain ⟨g, g', hg, hg', hscope, hscope', hm⟩ := h.registries hr
  have hleft := (changes_remove h.left ⟨g, hg, hscope⟩ id).coherent h.left
  have hright := (changes_remove h.right ⟨g', hg', hscope'⟩ id).coherent h.right
  have hsome := isSome_of_rel (hm.metrics.get? (g.normalize d.settings id))
  rw [remove_eq h.left hg] at hleft ⊢
  rw [remove_eq h.right hg', ← h.settings, ← Registry.normalize_congr hm.scope, ← hsome,
    Registry.meterId_congr hm.scope.symm] at hright ⊢
  split at hleft
  · rename_i hthere
    simp only [hthere, if_true] at hright ⊢
    exact ⟨ρ, .refl ρ, rfl, h.toAlike.discard hr _ _, hleft, hright⟩
  · rename_i hgone
    simp only [hgone]
    exact ⟨ρ, .refl ρ, rfl, h⟩

theorem Twins.removeEach (h : Twins t ρ d d') (hr : ρ.rel .registry r r') (ids : List MetricId) :
    Agree t ρ (fun _ => Eq) (Directory.removeEach r ids d) (Directory.removeEach r' ids d') := by
  induction ids generalizing ρ d d' with
  | nil => exact ⟨ρ, .refl ρ, rfl, h⟩
  | cons id ids ih =>
    obtain ⟨ρ₁, hext, hremoved, h₁⟩ := h.remove hr id
    obtain ⟨ρ₂, hext₂, hn, h₂⟩ := ih h₁ (hext.le _ _ _ hr)
    unfold Directory.removeEach
    simp only [hremoved, hn]
    exact ⟨ρ₂, hext.trans hext₂, rfl, h₂⟩

theorem Twins.removeMatching (h : Twins t ρ d d') (hr : ρ.rel .registry r r')
    {p : MetricId → Adapter → Bool} (hp : ∀ id a a', Adapter.Match ρ a a' → p id a = p id a') :
    Agree t ρ (fun _ => Eq) (d.removeMatching r p) (d'.removeMatching r' p) := by
  obtain ⟨g, g', hg, hg', -, -, hm⟩ := h.registries hr
  unfold Directory.removeMatching
  rw [hg, hg']
  simp only
  rw [(hm.metrics.filter hp).keys]
  exact h.removeEach hr _

theorem Twins.removeByName (h : Twins t ρ d d') (hr : ρ.rel .registry r r') (name : String) :
    Agree t ρ (fun _ => Eq) (d.removeByName r name) (d'.removeByName r' name) := by
  obtain ⟨ρ₁, hext, hn, h₁⟩ := h.removeMatching hr
    (p := fun id _ => id.name == name) fun _ _ _ _ => rfl
  unfold Directory.removeByName
  simp only [hn]
  exact ⟨ρ₁, hext, rfl, h₁⟩

/-! ## Scopes -/

theorem Twins.openScope (h : Twins t ρ d d') :
    Agree t ρ (fun ρ => ρ.rel .registry) (d.openScope t) (d'.openScope t) := by
  have hleft := (changes_openScope h.left t).coherent h.left
  have hright := (changes_openScope h.right t).coherent h.right
  rw [openScope_eq h.left.toAligned] at hleft ⊢
  rw [openScope_eq h.right.toAligned] at hright ⊢
  obtain ⟨hs, hs'⟩ | ⟨r, r', hs, hs', hr⟩ := both_of_rel h.current
  · simp only [hs] at hleft ⊢
    simp only [hs'] at hright ⊢
    have hrel : (ρ.next founded h.below).rel .registry d.registries.length d'.registries.length :=
      Pairing.rel_next h.below rfl
    exact ⟨_, Pairing.extends_next h.below (by simp [founded]), hrel,
      h.toAlike.found h.left.toAligned h.right.toAligned, hleft, hright⟩
  · simp only [hs, hs']
    exact ⟨ρ, .refl ρ, hr, h⟩

theorem Twins.registerGauges (h : Twins t ρ d d') (hr : ρ.rel .registry r r')
    (gauges : List (Metadata × PlatformFigure)) :
    ∃ ρ', ρ.Extends ρ' ∧
      Twins t ρ' (Directory.registerGauges r gauges d) (Directory.registerGauges r' gauges d') := by
  induction gauges generalizing ρ d d' with
  | nil => exact ⟨ρ, .refl ρ, h⟩
  | cons gauge gauges ih =>
    obtain ⟨metadata, figure⟩ := gauge
    have hagree : Agree t ρ (fun ρ => SameOutcome (Adapter.Match ρ))
        (d.gauge r metadata [] (.platform figure)) (d'.gauge r' metadata [] (.platform figure)) :=
      h.request hr metadata [] (.gauge (.platform figure))
    unfold Directory.registerGauges
    generalize d.gauge r metadata [] (.platform figure) = p,
      d'.gauge r' metadata [] (.platform figure) = p' at hagree
    obtain ⟨answer, d₁⟩ := p
    obtain ⟨answer', d₁'⟩ := p'
    obtain ⟨ρ₁, hext, hanswer, h₁⟩ := hagree
    cases hanswer with
    | error e => exact ⟨ρ₁, hext, h₁⟩
    | ok ha =>
      obtain ⟨ρ₂, hext₂, h₂⟩ := ih h₁ (hext.le _ _ _ hr)
      exact ⟨ρ₂, hext.trans hext₂, h₂⟩

theorem Twins.bindPlatform (h : Twins t ρ d d') (hr : ρ.rel .registry r r') :
    ∃ ρ', ρ.Extends ρ' ∧ Twins t ρ' (d.bindPlatform r) (d'.bindPlatform r') := by
  obtain ⟨g, g', hg, hg', -, -, hm⟩ := h.registries hr
  unfold Directory.bindPlatform
  rw [hg, hg']
  simp only [hm.platformBound]
  split
  · exact ⟨ρ, .refl ρ, h⟩
  · have hmarked : Twins t ρ (d.modifyRegistry r fun g => { g with platformBound := true })
        (d'.modifyRegistry r' fun g => { g with platformBound := true }) :=
      ⟨h.toAlike.mark hr fun _ _ hm => ⟨rfl, { hm with platformBound := rfl }⟩,
        h.left.mark _ fun _ => rfl, h.right.mark _ fun _ => rfl⟩
    exact hmarked.registerGauges hr _

theorem Twins.getOrCreate (h : Twins t ρ d d') :
    Agree t ρ (fun ρ => ρ.rel .registry) (d.getOrCreate t) (d'.getOrCreate t) := by
  obtain ⟨ρ₁, hext, hr, h₁⟩ := h.openScope
  unfold Directory.getOrCreate
  simp only
  split
  · obtain ⟨ρ₂, hext₂, h₂⟩ := h₁.bindPlatform hr
    exact ⟨ρ₂, hext.trans hext₂, hext₂.le _ _ _ hr, h₂⟩
  · exact ⟨ρ₁, hext, hr, h₁⟩

theorem Twins.dropScope (h : Twins t ρ d d') :
    Agree t ρ (fun _ => Eq) (d.dropScope t) (d'.dropScope t) := by
  have hleft := (changes_dropScope h.left t).coherent h.left
  have hright := (changes_dropScope h.right t).coherent h.right
  rw [dropScope_eq h.left] at hleft ⊢
  rw [dropScope_eq h.right] at hright ⊢
  obtain ⟨hs, hs'⟩ | ⟨r, r', hs, hs', hr⟩ := both_of_rel h.current
  · simp only [hs, hs']
    exact ⟨ρ, .refl ρ, rfl, h⟩
  · simp only [hs] at hleft ⊢
    simp only [hs'] at hright ⊢
    exact ⟨ρ, .refl ρ, rfl, h.toAlike.dissolve hr, hleft, hright⟩

/-! ## Members -/

theorem Twins.registerAnnotation (h : Twins t ρ d d') (member : Member) {a : MetricAnnotation}
    (hscope : a.scope = t) :
    Agree t ρ (fun _ => SameOutcome Eq) (d.registerAnnotation member a)
      (d'.registerAnnotation member a) := by
  subst hscope
  obtain ⟨ρ₁, hext, hr, h₁⟩ := h.getOrCreate
  rw [registerAnnotation_eq, registerAnnotation_eq]
  generalize d.getOrCreate a.scope = p, d'.getOrCreate a.scope = p' at hr h₁
  obtain ⟨r, d₁⟩ := p
  obtain ⟨r', d₁'⟩ := p'
  cases a.parseTags with
  | error e => exact ⟨ρ₁, hext, .error e, h₁⟩
  | ok tags =>
    have hq : a.kind.request.Match ρ₁ a.kind.request := by
      cases a.kind with
      | counted => exact .counter
      | timed => exact .timer
    obtain ⟨ρ₂, hext₂, hanswer, h₂⟩ := h₁.request hr (a.metadata member) tags hq
    have hr₂ := hext₂.le _ _ _ hr
    simp only
    generalize d₁.request r (a.metadata member) tags a.kind.request = p,
      d₁'.request r' (a.metadata member) tags a.kind.request = p' at hanswer h₂
    obtain ⟨answer, d₂⟩ := p
    obtain ⟨answer', d₂'⟩ := p'
    cases hanswer with
    | error e => exact ⟨ρ₂, hext.trans hext₂, .error e, h₂⟩
    | ok ha =>
      simp only [ha.id]
      refine ⟨ρ₂, hext.trans hext₂, .ok rfl, h₂.toAlike.mark hr₂ ?_, h₂.left.mark _ fun _ => rfl,
        h₂.right.mark _ fun _ => rfl⟩
      intro g g' hm
      refine ⟨rfl, { hm with mappings := ?_ }⟩
      unfold mapMember
      simp only [hm.mappings]

theorem Twins.registerMember (h : Twins t ρ d d') (member : Member)
    {annotations : List MetricAnnotation} (hscope : ∀ a ∈ annotations, a.scope = t) :
    Agree t ρ (fun _ => SameOutcome Eq) (Directory.registerMember member annotations d)
      (Directory.registerMember member annotations d') := by
  induction annotations generalizing ρ d d' with
  | nil => exact ⟨ρ, .refl ρ, .ok rfl, h⟩
  | cons a annotations ih =>
    obtain ⟨ρ₁, hext, hanswer, h₁⟩ := h.registerAnnotation member (hscope a List.mem_cons_self)
    unfold Directory.registerMember
    generalize d.registerAnnotation member a = p, d'.registerAnnotation member a = p' at hanswer h₁
    obtain ⟨answer, d₁⟩ := p
    obtain ⟨answer', d₁'⟩ := p'
    cases hanswer with
    | error e => exact ⟨ρ₁, hext, .error e, h₁⟩
    | @ok id _ hid =>
      subst hid
      obtain ⟨ρ₂, hext₂, hrest, h₂⟩ := ih h₁ fun b hb => hscope b (List.mem_cons_of_mem a hb)
      simp only
      generalize Directory.registerMember member annotations d₁ = p,
        Directory.registerMember member annotations d₁' = p' at hrest h₂
      obtain ⟨answer, d₂⟩ := p
      obtain ⟨answer', d₂'⟩ := p'
      cases hrest with
      | error e => exact ⟨ρ₂, hext.trans hext₂, .error e, h₂⟩
      | ok hids =>
        subst hids
        exact ⟨ρ₂, hext.trans hext₂, .ok rfl, h₂⟩

theorem mapM_sameOutcome {γ : Type} {R : α → β → Prop} {f : γ → Outcome α} {f' : γ → Outcome β}
    (hf : ∀ c, SameOutcome R (f c) (f' c)) (cs : List γ) :
    SameOutcome (List.Forall₂ R) (cs.mapM f) (cs.mapM f') := by
  induction cs with
  | nil => exact .ok .nil
  | cons c cs ih =>
    rw [List.mapM_cons, List.mapM_cons]
    have hc := hf c
    generalize f c = o, f' c = o' at hc
    cases hc with
    | error e => exact .error e
    | ok hab =>
      generalize cs.mapM f = os, cs.mapM f' = os' at ih
      cases ih with
      | error e => exact .error e
      | ok hrest => exact .ok (.cons hab hrest)

/-- What is resolved for a member corresponds, in order. -/
theorem Twins.resolveMapped (h : Twins t ρ d d') (hr : ρ.rel .registry r r') (kind : AnnotationKind)
    (member : Member) :
    SameOutcome (List.Forall₂ (Adapter.Match ρ)) (d.resolveMapped r kind member)
      (d'.resolveMapped r' kind member) := by
  obtain ⟨g, g', hg, hg', -, -, hm⟩ := h.registries hr
  unfold Directory.resolveMapped mappedIds
  rw [hg, hg', Option.map_some, Option.map_some, hm.mappings]
  split
  · exact .error _
  · refine mapM_sameOutcome (fun id => ?_) _
    have hrel := h.metricOfKind? hr kind.metric id
    generalize d.metricOfKind? r kind.metric id = o, d'.metricOfKind? r' kind.metric id = o' at hrel
    cases hrel with
    | none => exact .error _
    | some ha => exact .ok ha

/-! ## Writing -/

theorem Twins.increment (h : Twins t ρ d d') {a a' : Adapter} (ha : a.Match ρ a') (n : UInt64) :
    Twins t ρ (d.modifyStore (a.increment n)) (d'.modifyStore (a'.increment n)) := by
  obtain ⟨m, m', hm, hm', hr⟩ := ha.meter
  refine ⟨?_, h.left.rewrite (a.rewritten_increment n _),
    h.right.rewrite (a'.rewritten_increment n _)⟩
  rw [funext (hm.increment n), funext (hm'.increment n)]
  exact h.toAlike.modifyMeter hr fun x x' hx => ⟨(Meter.increment_same n x).1, hx.increment n⟩

theorem Twins.record (h : Twins t ρ d d') {a a' : Adapter} (ha : a.Match ρ a') (raw : Nat) :
    Twins t ρ (d.modifyStore (a.record raw)) (d'.modifyStore (a'.record raw)) := by
  obtain ⟨m, m', hm, hm', hr⟩ := ha.meter
  refine ⟨?_, h.left.rewrite (a.rewritten_record raw _),
    h.right.rewrite (a'.rewritten_record raw _)⟩
  rw [funext (hm.record raw), funext (hm'.record raw)]
  exact h.toAlike.modifyMeter hr fun x x' hx => ⟨(Meter.record_same raw x).1, hx.record raw⟩

/-- Writing through adapters that correspond, one after the other. -/
theorem Twins.foldl {γ γ' : Type} {R : γ → γ' → Prop} {f : MeterStore → γ → MeterStore}
    {f' : MeterStore → γ' → MeterStore} {xs : List γ} {xs' : List γ'} (h : Twins t ρ d d')
    (hxs : List.Forall₂ R xs xs')
    (hf : ∀ d d' x x', R x x' → Twins t ρ d d' →
      Twins t ρ (d.modifyStore fun s => f s x) (d'.modifyStore fun s => f' s x')) :
    Twins t ρ (d.modifyStore fun s => xs.foldl f s) (d'.modifyStore fun s => xs'.foldl f' s) := by
  induction hxs generalizing d d' with
  | nil => exact h
  | cons hx _ ih => exact ih (hf _ _ _ _ hx h)

/-! ## Interception -/

/-- Work that changes nothing is intercepted alike, however it ends. -/
theorem Twins.invokeCounted (h : Twins t ρ d d') (member : Member) (ending : Ending β) :
    Agree t ρ (fun _ => Eq) (d.invokeCounted t member fun d => (ending, d))
      (d'.invokeCounted t member fun d => (ending, d)) := by
  obtain ⟨ρ₁, hext, hr, h₁⟩ := h.getOrCreate
  rw [invokeCounted_eq, invokeCounted_eq]
  generalize d.getOrCreate t = p, d'.getOrCreate t = p' at hr h₁
  obtain ⟨r, d₁⟩ := p
  obtain ⟨r', d₁'⟩ := p'
  have hmapped := h₁.resolveMapped hr .counted member
  simp only at hmapped ⊢
  generalize d₁.resolveMapped r .counted member = o,
    d₁'.resolveMapped r' .counted member = o' at hmapped
  cases hmapped with
  | error e => exact ⟨ρ₁, hext, rfl, h₁⟩
  | ok hcounters =>
    exact ⟨ρ₁, hext, rfl, h₁.foldl hcounters fun _ _ _ _ ha h => h.increment ha 1⟩

theorem Twins.invokeTimed (h : Twins t ρ d d') (member : Member) (elapsed : Duration)
    (ending : Ending β) :
    Agree t ρ (fun _ => Eq) (d.invokeTimed t member (fun _ => elapsed) fun d => (ending, d))
      (d'.invokeTimed t member (fun _ => elapsed) fun d => (ending, d)) := by
  obtain ⟨ρ₁, hext, hr, h₁⟩ := h.getOrCreate
  rw [invokeTimed_eq, invokeTimed_eq]
  generalize d.getOrCreate t = p, d'.getOrCreate t = p' at hr h₁
  obtain ⟨r, d₁⟩ := p
  obtain ⟨r', d₁'⟩ := p'
  have hmapped := h₁.resolveMapped hr .timed member
  simp only at hmapped ⊢
  generalize d₁.resolveMapped r .timed member = o,
    d₁'.resolveMapped r' .timed member = o' at hmapped
  cases hmapped with
  | error e => exact ⟨ρ₁, hext, rfl, h₁⟩
  | ok htimers =>
    exact ⟨ρ₁, hext, rfl, h₁.foldl htimers fun _ _ _ _ ha h => h.record ha _⟩

end Directory

end Telemetry
