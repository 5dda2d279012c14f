import Telemetry.Proofs.History.Dropped
import Telemetry.Proofs.History.Sessions

/-!
# Steps aside

Of two sessions in which a scope is the same, the left one goes on with steps that are none of the
scope's: `Aside` says that the scope is the same in both still, and that its names stand for what
they stood for.

* `Session.Twins.step_aside`: steps that keep to other names and other scopes are such steps. A name
  may stand for a dropped registry of the scope itself, and for a metric that one had, as long as
  the metric's meter is not paired.
* `Session.Twins.restrict`: only meters that the scope's registries and names reach have to be
  paired.
-/

namespace Telemetry

variable {ρ : Pairing} {o o' : Ownership} {t u : String}

/-! ## Names of one scope and of the others -/

namespace Ownership

variable (o : Ownership) (t : String)

/-- The scope and the names that are for it. -/
def own : Names :=
  ⟨fun n => o.registry n = t, fun n => o.metric n = t, fun n => o.cell n = t, fun u => u = t⟩

/-- The other scopes and the other names. -/
def others : Names :=
  ⟨fun n => o.registry n ≠ t, fun n => o.metric n ≠ t, fun n => o.cell n ≠ t, fun u => u ≠ t⟩

/-- The names of the others given to scope `u`, whatever they are for. -/
def toward (u : String) : Ownership where
  registry n := if o.registry n = t then t else u
  metric n := if o.metric n = t then t else u
  cell n := if o.cell n = t then t else u

end Ownership

theorem RegistryStep.Within.at_toward {step : RegistryStep} (h : step.Within (o.others t))
    (u : String) :
    step.At (o.toward t u) u := by
  cases step with
  | inspect hold => exact fun name hname => if_neg (h name hname)
  | register wanted metadata tags hold =>
    refine ⟨?_, fun name hname => if_neg (h.2 name hname)⟩
    cases wanted with
    | gauge value cell => exact fun c hc => if_neg (h.1 c hc)
    | _ => trivial
  | get name tags kind hold => exact fun name hname => if_neg (h name hname)
  | _ => trivial

/-- A step of the scope keeps to the scope and its names. -/
theorem Step.within_own {step : Step} (h : step.At o t) : step.Within (o.own t) := by
  cases step with
  | onRegistry target step =>
    refine ⟨?_, ?_⟩
    · cases target <;> exact h.1
    · cases step with
      | inspect hold => exact h.2
      | register wanted metadata tags hold =>
        refine ⟨?_, h.2.2⟩
        cases wanted with
        | gauge value cell => exact h.2.1
        | _ => trivial
      | get name tags kind hold => exact h.2
      | _ => trivial
  | onMetric handle step =>
    refine ⟨h.1, ?_⟩
    cases step with
    | setCell cell value => exact h.2
    | _ => trivial
  | registerMember member annotations => exact h
  | dropScope scope => exact h
  | intercept kind scope member fails elapsed => exact h
  | dropAll => exact h.elim
  | wellKnown => exact h.elim
  | _ => trivial

/-! ## Fewer meters paired -/

/-- The pairs, of meters only those that satisfy `p`. -/
def Pairing.restrict (ρ : Pairing) (p : MeterRef → Prop) : Pairing where
  rel k m n := ρ.rel k m n ∧ (k = .meter → p m)
  unique k := ⟨fun _ _ _ h h' => (ρ.unique k).1 h.1 h'.1, fun _ _ _ h h' => (ρ.unique k).2 h.1 h'.1⟩

/-- Values that correspond, compared anew under the keys that they have. -/
theorem SortedMap.Match.imp_get? {κ α β : Type} [Ord κ] [Std.TransOrd κ] [Std.LawfulEqOrd κ]
    {R S : α → β → Prop} {m : SortedMap κ α} {m' : SortedMap κ β} (h : m.Match R m')
    (hRS : ∀ k a b, m.get? k = some a → R a b → S a b) : m.Match S m' := by
  have hboth := (List.forall₂_and_left m.entries m'.entries).mpr
    ⟨fun e he => SortedMap.get?_eq_some_iff.mpr he, h⟩
  exact List.Forall₂.imp (fun e e' ⟨hget, hkey, hR⟩ => ⟨hkey, hRS e.1 e.2 e'.2 hget hR⟩) hboth

section

variable {p : MeterRef → Prop}

theorem Meter.Match.restrict {m m' : Meter} (h : m.Match ρ m') : m.Match (ρ.restrict p) m' := by
  obtain ⟨id, metadata, value⟩ := m
  obtain ⟨id', metadata', value'⟩ := m'
  refine ⟨h.id, h.metadata, ?_⟩
  cases h.value with
  | counter count => exact .counter count
  | gauge hs =>
    cases hs with
    | cell hn => exact .gauge (.cell ⟨hn, nofun⟩)
    | platform figure => exact .gauge (.platform figure)
  | histogram values => exact .histogram values
  | timer durations => exact .timer durations

theorem Adapter.Match.restrict {a a' : Adapter} (h : a.Match ρ a') (hp : ∀ m, a.Sole m → p m) :
    a.Match (ρ.restrict p) a' := by
  obtain ⟨m, m', hm, hm', hr⟩ := h.meter
  exact ⟨h.id, h.kind, ⟨h.serial, nofun⟩, m, m', hm, hm', hr, fun _ => hp m hm⟩

namespace Directory

variable {d d' : Directory}

/-- Only the meters of stored metrics have to be paired. -/
theorem Alike.restrict (h : Alike t ρ d d') (hleft : d.Coherent)
    (hstored : ∀ r a m, d.HasRegistry r t → d.Stores r a → a.Sole m → p m) :
    Alike t (ρ.restrict p) d d' where
  settings := h.settings
  platform := h.platform
  below := fun k m n hr => h.below k m n hr.1
  current := rel_imp h.current fun _ _ hr => ⟨hr, nofun⟩
  registry := by
    rintro r r' ⟨hr, -⟩
    obtain ⟨g, g', hg, hg', hscope, hm⟩ := h.registry r r' hr
    refine ⟨g, g', hg, hg', hscope, { hm with metrics := ?_ }⟩
    exact hm.metrics.imp_get? fun id a a' hget ha =>
      ha.restrict fun m => hstored r a m ⟨g, hg, hscope⟩ ⟨g, id, hg, hget⟩
  store := by
    rintro r r' ⟨hr, -⟩
    obtain ⟨c, c', hc, hc', hm⟩ := h.store r r' hr
    refine ⟨c, c', hc, hc', hm.imp_get? fun mid m m' hget hmeter => ⟨hmeter, fun _ => ?_⟩⟩
    obtain ⟨a, ha, hsole⟩ := hleft.stored_of_find? ((MeterStore.find?_eq hc).trans hget)
    exact hstored r a m (h.hasRegistry hr).1 ha hsole
  meter := fun m m' hm => (h.meter m m' hm.1).imp fun _ _ hx => ⟨hx.1, hx.2.restrict⟩
  cell := fun n n' hn => h.cell n n' hn.1

/-- A meter that is not paired is written to. -/
theorem Alike.modify_unpaired (h : Alike t ρ d d') {m : MeterRef} (hm : ∀ m', ¬ ρ.rel .meter m m')
    (f : Meter → Meter) : Alike t ρ (d.modifyStore fun s => s.modifyMeter m f) d' :=
  { h with
    below := by
      rw [taken_modifyMeter]
      exact h.below
    meter := by
      intro q q' hq
      show Both _ ((d.store.modifyMeter m f).meter? q) _
      rw [MeterStore.meter?_modifyMeter, if_neg]
      · exact h.meter q q' hq
      · rintro rfl
        exact hm q' hq }

end Directory

namespace Session

variable {s s' : Session}

/-- **Only meters that the scope reaches have to be paired**: those of metrics that its registries
store or that its names stand for. -/
theorem Twins.restrict (h : Twins o t ρ s s')
    (hstored : ∀ r a m, s.directory.HasRegistry r t → s.directory.Stores r a → a.Sole m → p m)
    (hheld : ∀ name a m, o.metric name = t → s.metrics.get? name = some a → a.Sole m → p m) :
    Twins o t (ρ.restrict p) s s' where
  directory := ⟨h.directory.restrict h.directory.left hstored, h.directory.left, h.directory.right⟩
  registries := fun name ho => rel_imp (h.registries name ho) fun _ _ hr => ⟨hr, nofun⟩
  metrics := by
    intro name ho
    obtain ⟨hn, hn'⟩ | ⟨a, a', ha, ha', hmatch⟩ := both_of_rel (h.metrics name ho)
    · rw [hn, hn']
      exact .none
    · rw [ha, ha']
      exact .some (hmatch.restrict fun m => hheld name a m ho ha)
  cells := fun c ho => rel_imp (h.cells c ho) fun _ _ hn => ⟨hn, nofun⟩
  foreign := fun c n ho hget =>
    ⟨(h.foreign c n ho hget).1, fun n' hr => (h.foreign c n ho hget).2 n' hr.1⟩
  foreign' := fun c n' ho hget =>
    ⟨(h.foreign' c n' ho hget).1, fun n hr => (h.foreign' c n' ho hget).2 n hr.1⟩

end Session

end

/-! ## Going on alone -/

/-- The names stand for the same, and no cell is lost. -/
structure Names.Keeps (N : Names) (s s₁ : Session) : Prop where
  cellCount : s.cellCount ≤ s₁.cellCount
  registries : ∀ n, N.registry n → s₁.registries.get? n = s.registries.get? n
  metrics : ∀ n, N.metric n → s₁.metrics.get? n = s.metrics.get? n
  cells : ∀ n, N.cell n → s₁.cells.get? n = s.cells.get? n

theorem Names.Keeps.refl (N : Names) (s : Session) : N.Keeps s s :=
  ⟨Nat.le_refl _, fun _ _ => rfl, fun _ _ => rfl, fun _ _ => rfl⟩

theorem Names.Keeps.trans {N : Names} {s s₁ s₂ : Session} (h : N.Keeps s s₁) (h' : N.Keeps s₁ s₂) :
    N.Keeps s s₂ where
  cellCount := Nat.le_trans h.cellCount h'.cellCount
  registries := fun n hn => (h'.registries n hn).trans (h.registries n hn)
  metrics := fun n hn => (h'.metrics n hn).trans (h.metrics n hn)
  cells := fun n hn => (h'.cells n hn).trans (h.cells n hn)

namespace Session

variable {s s' s₁ s₂ : Session} {d : Directory} {r : RegistryRef} {g : Registry} {a : Adapter}
  {m : MeterRef} {N : Names}

theorem exists_other_scope (t : String) : ∃ u : String, u ≠ t := by
  by_cases ht : t = ""
  · rw [ht]
    exact ⟨applicationScope, by decide⟩
  · exact ⟨"", fun h => ht h.symm⟩

theorem Frame.keeps (hf : Frame o u s s₁) (hregistry : ∀ n, N.registry n → o.registry n ≠ u)
    (hmetric : ∀ n, N.metric n → o.metric n ≠ u) (hcell : ∀ n, N.cell n → o.cell n ≠ u) :
    N.Keeps s s₁ where
  cellCount := hf.cellCount
  registries := fun n hn => hf.registries n (hregistry n hn)
  metrics := fun n hn => hf.metrics n (hmetric n hn)
  cells := fun n hn => hf.cells n (hcell n hn)

/-- The left session has gone on from `s` to `s₁`: scope `t` is the same as in the right one
still. -/
structure Aside (o : Ownership) (t : String) (ρ : Pairing) (s' s s₁ : Session) : Prop where
  twins : Twins o t ρ s₁ s'
  keeps : (o.own t).Keeps s s₁

theorem Aside.refl (h : Twins o t ρ s s') : Aside o t ρ s' s s := ⟨h, .refl _ s⟩

theorem Aside.trans (h : Aside o t ρ s' s s₁) (h' : Aside o t ρ s' s₁ s₂) : Aside o t ρ s' s s₂ :=
  ⟨h'.twins, h.keeps.trans h'.keeps⟩

/-- Which of the other scopes a name is for does not matter. -/
theorem Twins.reassign (h : Twins o t ρ s s')
    (hregistry : ∀ n, o'.registry n = t → o.registry n = t)
    (hmetric : ∀ n, o'.metric n = t → o.metric n = t) (hcell : ∀ n, o'.cell n = t ↔ o.cell n = t) :
    Twins o' t ρ s s' where
  directory := h.directory
  registries := fun n hn => h.registries n (hregistry n hn)
  metrics := fun n hn => h.metrics n (hmetric n hn)
  cells := fun n hn => h.cells n ((hcell n).mp hn)
  foreign := fun c n hc => h.foreign c n fun ho => hc ((hcell c).mpr ho)
  foreign' := fun c n hc => h.foreign' c n fun ho => hc ((hcell c).mpr ho)

/-- Changes inside another scope, through any of the others' names. -/
theorem Twins.aside_of_frame (h : Twins o t ρ s s') (hf : Frame (o.toward t u) u s s₁)
    (hne : u ≠ t) :
    Aside o t ρ s' s s₁ := by
  have htoward : ∀ v : String, (if v = t then t else u) = t ↔ v = t := by
    intro v
    split
    · rename_i hv
      exact iff_of_true rfl hv
    · rename_i hv
      exact iff_of_false hne hv
  have hown : ∀ v : String, v = t → (if v = t then t else u) ≠ u := by
    intro v hv
    rw [if_pos hv]
    exact hne.symm
  have hmoved : Twins (o.toward t u) t ρ s s' :=
    h.reassign (fun n => (htoward _).mp) (fun n => (htoward _).mp) fun n => htoward _
  exact {
    twins := (hmoved.frame hf (.refl _ u h.directory.right) hne).reassign
      (fun n => (htoward _).mpr) (fun n => (htoward _).mpr) fun n => (htoward _).symm
    keeps := hf.keeps (fun n => hown _) (fun n => hown _) fun n => hown _ }

theorem Twins.aside_of_changes (h : Twins o t ρ s s') (hc : Directory.Changes u s.directory d)
    (hne : u ≠ t) : Aside o t ρ s' s { s with directory := d } :=
  h.aside_of_frame (frame_directory h.directory.left hc) hne

/-! ## Writing to meters that are not paired -/

theorem Twins.write_aside (h : Twins o t ρ s s') (ha : a.Sole m) (hm : ∀ m', ¬ ρ.rel .meter m m')
    (u : Update) : Aside o t ρ s' s (s.modifyStore (a.write u)) := by
  have hwritten : (s.directory.modifyStore (a.write u)).Coherent := by
    cases u with
    | increment n => exact h.directory.left.rewrite (a.rewritten_increment n _)
    | record raw => exact h.directory.left.rewrite (a.rewritten_record raw _)
  rw [funext (ha.write u)] at hwritten ⊢
  exact {
    twins := { h with
      directory := ⟨h.directory.toAlike.modify_unpaired hm _, hwritten, h.directory.right⟩ }
    keeps := ⟨Nat.le_refl _, fun _ _ => rfl, fun _ _ => rfl, fun _ _ => rfl⟩ }

/-- Writing one thing after the other. -/
theorem Twins.foldl_aside {α : Type} {f : MeterStore → α → MeterStore} (h : Twins o t ρ s s')
    (xs : List α) (hf : ∀ s x, Twins o t ρ s s' →
      Aside o t ρ s' s (s.modifyStore fun store => f store x)) :
    Aside o t ρ s' s (s.modifyStore fun store => xs.foldl f store) := by
  induction xs generalizing s with
  | nil => exact .refl h
  | cons x xs ih =>
    have hfirst := hf s x h
    exact hfirst.trans (ih hfirst.twins)

/-- Steps on a metric whose meter is not paired. -/
theorem Twins.onMetric_aside (h : Twins o t ρ s s') (ha : a.Sole m) (hm : ∀ m', ¬ ρ.rel .meter m m')
    {step : MetricStep} (hat : step.Within (o.others t)) :
    Aside o t ρ s' s (s.onMetric a step).2 := by
  have hrecord : ∀ s raw, Twins o t ρ s s' → Aside o t ρ s' s (s.modifyStore (a.record raw)) :=
    fun s raw h => h.write_aside ha hm (.record raw)
  cases step with
  | increment n =>
    simp only [Session.onMetric]
    split
    · exact h.write_aside ha hm (.increment n)
    · exact .refl h
  | update values durations =>
    simp only [Session.onMetric]
    split
    · refine h.foldl_aside values fun s value h => ?_
      cases value with
      | ofNat raw => exact hrecord s raw h
      | negSucc n => exact .refl h
    · exact h.foldl_aside durations fun s d h => hrecord s (saturate d.nanos) h
    · exact .refl h
  | time fails elapsed =>
    simp only [Session.onMetric]
    split
    · exact hrecord s _ h
    · exact .refl h
  | context elapsed | expire elapsed =>
    simp only [Session.onMetric]
    split
    · exact hrecord s _ h
    · exact .refl h
  | setCell cell value =>
    simp only [Session.onMetric]
    split
    · split
      · rename_i n hn
        obtain ⟨u, hne⟩ := exists_other_scope t
        have hcell : (o.toward t u).cell cell = u := if_neg hat
        exact h.aside_of_frame (frame_setCell h.directory.left hcell hn value) hne
      · exact .refl h
    · exact .refl h
  | read => exact .refl h
  | count => exact .refl h
  | same other => exact .refl h

/-! ## Steps on a registry -/

theorem crowdRun_dropped {d : Directory} (h : d.Coherent) (hr : d.registry? r = some g)
    (hdrop : g.dropped = true) (name : String) (times clients : Nat) :
    (crowdRun r name times clients d).2 = d := by
  induction clients with
  | zero => rfl
  | succ n ih =>
    obtain ⟨e, hrequest, -⟩ := h.refused_dropped hr hdrop (.ofName name) [] .counter
    have hmember : crowdMember r name times d = (false, d) := by
      unfold crowdMember
      rw [show d.counter r (.ofName name) [] = _ from hrequest]
    unfold crowdRun
    rw [hmember]
    exact ih

/-- A step on a dropped registry changes no scope, whichever the registry is of. -/
theorem frame_onRegistry_dropped (h : s.directory.Coherent) (hr : s.directory.registry? r = some g)
    (hdrop : g.dropped = true) {step : RegistryStep} (hat : step.At o u) :
    Frame o u s (s.onRegistry r g step).2 := by
  cases step with
  | inspect hold => exact frame_holdRegistry h hat r
  | register wanted metadata tags hold =>
    simp only [onRegistry, withTags]
    cases checkTags tags with
    | error e => exact .refl o u h
    | ok tags =>
      have hf := frame_prepare (o := o) h hat.1
      have hr' : Directory.registry? (s.prepare wanted).directory r = some g := by
        cases wanted with
        | gauge value cell => cases cell <;> exact hr
        | _ => exact hr
      obtain ⟨e, hrequest, -⟩ := hf.coherent.refused_dropped hr' hdrop metadata tags
        (wanted.request s.cellCount)
      simp only [register_eq, hrequest]
      exact hf
  | get name tags kind hold =>
    simp only [onRegistry, withTags]
    cases checkTags tags with
    | error e => exact .refl o u h
    | ok tags =>
      simp only
      split
      · exact frame_holdMetric h hat _
      · exact .refl o u h
  | remove name tags =>
    simp only [onRegistry, withTags]
    cases checkTags tags with
    | error e => exact .refl o u h
    | ok tags =>
      simp only [h.remove_dropped hr hdrop]
      exact .refl o u h
  | removeByName name =>
    simp only [onRegistry, Directory.removeByName, h.removeMatching_dropped hr hdrop]
    exact .refl o u h
  | removeMatching start kind =>
    simp only [onRegistry, h.removeMatching_dropped hr hdrop]
    exact .refl o u h
  | exportText name =>
    simp only [onRegistry, ofText]
    split <;> exact .refl o u h
  | resolveTags name tags =>
    simp only [onRegistry, withTags]
    cases checkTags tags <;> exact .refl o u h
  | crowd name clients times =>
    simp only [onRegistry, crowdRun_dropped h hr hdrop]
    exact .refl o u h
  | list => exact .refl o u h
  | metadata name => exact .refl o u h
  | mapped member => exact .refl o u h

/-- Steps on a registry of another scope, or on a dropped one. -/
theorem Twins.onRegistry_aside (h : Twins o t ρ s s') (hr : s.directory.registry? r = some g)
    (hg : g.scope ≠ t ∨ g.dropped = true) {step : RegistryStep} (hat : step.Within (o.others t)) :
    Aside o t ρ s' s (s.onRegistry r g step).2 := by
  obtain hne | hdrop := hg
  · exact h.aside_of_frame
      (frame_onRegistry h.directory.left ⟨g, hr, rfl⟩ g (hat.at_toward g.scope)) hne
  · obtain ⟨u, hne⟩ := exists_other_scope t
    exact h.aside_of_frame
      (frame_onRegistry_dropped h.directory.left hr hdrop (hat.at_toward u)) hne

/-! ## Steps -/

theorem Twins.registerMember_aside (h : Twins o t ρ s s') (member : Member)
    {annotations : List MetricAnnotation} (hscope : ∀ a ∈ annotations, a.scope ≠ t) :
    Aside o t ρ s' s
      { s with directory := (Directory.registerMember member annotations s.directory).2 } := by
  induction annotations generalizing s with
  | nil => exact .refl h
  | cons a annotations ih =>
    have hfirst := h.aside_of_changes
      (Directory.changes_registerAnnotation h.directory.left member a) (hscope a List.mem_cons_self)
    unfold Directory.registerMember
    generalize s.directory.registerAnnotation member a = made at hfirst
    obtain ⟨answer, d⟩ := made
    cases answer with
    | error e => exact hfirst
    | ok id =>
      have hrest := ih hfirst.twins fun b hb => hscope b (List.mem_cons_of_mem a hb)
      simp only at hfirst hrest ⊢
      generalize Directory.registerMember member annotations d = made at hrest
      obtain ⟨answer, d'⟩ := made
      cases answer <;> exact hfirst.trans hrest

/-- **A step that keeps to other names and other scopes leaves the scope the same as on the
right.** -/
theorem Twins.step_aside (h : Twins o t ρ s s') {step : Step} (hat : step.Within (o.others t))
    (hregistries : ∀ name r, o.registry name ≠ t → s.registries.get? name = some r →
      ∃ g, s.directory.registry? r = some g ∧ (g.scope ≠ t ∨ g.dropped = true))
    (hmetrics : ∀ name a, o.metric name ≠ t → s.metrics.get? name = some a →
      ∃ m, a.Sole m ∧ ∀ m', ¬ ρ.rel .meter m m') : Aside o t ρ s' s (s.step step).2 := by
  have hd := h.directory.left
  cases step with
  | dropScope scope => exact h.aside_of_changes (Directory.changes_dropScope hd scope) hat
  | dropAll => exact absurd rfl (hat t)
  | wellKnown =>
    have hopen : ∀ s u, Twins o t ρ s s' → u ∈ [applicationScope, baseScope, vendorScope] →
        Aside o t ρ s' s { s with directory := (s.directory.getOrCreate u).2 } := fun s u h hu =>
      h.aside_of_changes (Directory.changes_getOrCreate h.directory.left u) (hat u hu)
    have happlication := hopen s applicationScope h (by simp)
    have hbase := hopen _ baseScope happlication.twins (by simp)
    exact (happlication.trans hbase).trans (hopen _ vendorScope hbase.twins (by simp))
  | lookup scope =>
    simp only [Session.step]
    split <;> exact .refl h
  | exportAll =>
    simp only [Session.step]
    split <;> exact .refl h
  | exportText request =>
    simp only [Session.step, ofText]
    split <;> exact .refl h
  | registerMember member annotations =>
    have hmade := h.registerMember_aside member hat
    simp only [Session.step]
    generalize Directory.registerMember member annotations s.directory = made at hmade
    obtain ⟨answer, d⟩ := made
    cases answer <;> exact hmade
  | intercept kind scope member fails elapsed =>
    have hcounted : Directory.Changes scope s.directory
        (s.directory.invokeCounted scope member (idle fails)).2 :=
      Directory.changes_invokeCounted hd scope member fun d => .refl d
    have htimed : Directory.Changes scope s.directory
        (s.directory.invokeTimed scope member (fun _ => elapsed) (idle fails)).2 :=
      Directory.changes_invokeTimed hd scope member _ fun d => .refl d
    simp only [Session.step, ofInterception_snd]
    cases kind with
    | counted => exact h.aside_of_changes hcounted hat
    | timed => exact h.aside_of_changes htimed hat
  | onRegistry target step =>
    cases target with
    | held handle =>
      cases hname : s.registries.get? handle with
      | none =>
        simp only [Session.step, resolve, hname]
        exact .refl h
      | some r =>
        obtain ⟨g, hr, hg⟩ := hregistries handle r hat.1 hname
        simp only [Session.step, resolve, hname, hr]
        exact h.onRegistry_aside hr hg hat.2
    | scope u =>
      have hopened := frame_directory (o := o.toward t u) hd (Directory.changes_getOrCreate hd u)
      obtain ⟨g, hr, hscope⟩ := Directory.hasRegistry_getOrCreate hd u
      simp only [Session.step, resolve, hr]
      exact h.aside_of_frame (hopened.trans
        (frame_onRegistry hopened.coherent ⟨g, hr, hscope⟩ g (hat.2.at_toward u))) hat.1
  | onMetric handle step =>
    simp only [Session.step]
    split
    · exact .refl h
    · rename_i a ha
      obtain ⟨m, hsole, hm⟩ := hmetrics handle a hat.1 ha
      exact h.onMetric_aside hsole hm hat.2
  | scopeExists scope => exact .refl h
  | scopes => exact .refl h
  | scrape endpoint request headers => exact .refl h

end Session

end Telemetry
