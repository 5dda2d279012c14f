import Telemetry.Proofs.Directory.Exports
import Telemetry.Proofs.History.Updates

/-!
# What handles read

`accounted`: at every point of an authentic history a counter reads the sum of what was added
through its handles, and a histogram or a timer reads what was recorded through them. A metric that
was removed, or whose scope was dropped, reads on what it read; it is never answered again, and what
is written through it reaches no export and no other metric. A registration after that is answered
with another metric, which begins at zero.
-/

namespace Telemetry

/-- What is read through the metric is the same over both stores. -/
def Adapter.ReadsSame (a : Adapter) (s s' : MeterStore) : Prop :=
  a.counterValue s' = a.counterValue s ∧ a.distribution? s' = a.distribution? s

theorem Adapter.Sole.readsSame {a : Adapter} {m : MeterRef} {s s' : MeterStore}
    {meter meter' : Meter} (ha : a.Sole m) (hm : s.meter? m = some meter)
    (hm' : s'.meter? m = some meter') (hvalue : meter'.value = meter.value) : a.ReadsSame s s' := by
  unfold ReadsSame counterValue distribution? readable?
  simp only [ha.1, hm, hm', Option.map_some, Option.bind_some, Meter.count,
    Meter.distribution?, hvalue, and_self]

namespace Directory

variable {d : Directory} {r q : RegistryRef} {g : Registry} {id : MetricId} {a b : Adapter}
  {act : Action} {metadata : Metadata} {tags : List Tag} {req : MetricRequest}
  {settings : RegistrySettings} {platform : PlatformReadings} {acts : List Action}

/-! ## Writing through old handles -/

/-- Writing through a metric changes what no other one reads. -/
theorem readsSame_of_write (ha : Held settings platform acts r a)
    (hb : Held settings platform acts q b) (hne : b.serial ≠ a.serial) (u : Update) :
    b.ReadsSame (reached settings platform acts).store
      ((reached settings platform acts).modifyStore (a.write u)).store := by
  obtain ⟨-, m, meter, hsole, hm, -⟩ := held_meter hb
  obtain ⟨-, k, -, hk, -, -⟩ := held_meter ha
  have hkept : ((reached settings platform acts).modifyStore (a.write u)).store.meter? m =
      some meter := by
    rw [meter_write hk, if_neg, hm]
    rintro rfl
    obtain ⟨-, rfl⟩ := held_inj hb ha (.inr (hsole.1.trans hk.1.symm))
    exact hne rfl
  exact hsole.readsSame hm hkept rfl

/-- **What is written through a metric that its registry lost** shows in no export. -/
theorem shown_of_write (ha : Held settings platform acts r a)
    (hlost : ¬ (reached settings platform acts).Stores r a) (u : Update) :
    SameShown (reached settings platform acts)
      ((reached settings platform acts).modifyStore (a.write u)) := by
  obtain ⟨-, m, -, hsole, -, -⟩ := held_meter ha
  have hstore : a.write u (reached settings platform acts).store = _ := hsole.write u _
  exact {
    settings := rfl
    scopes := rfl
    store := fun _ => rfl
    scope := fun n => by
      show (a.write u _).scope? n = _
      rw [hstore]
      rfl
    samples := by
      show (a.write u _).samples = _
      rw [hstore]
      rfl
    listed := fun n mid k hk => by
      rw [meter_write hsole, if_neg]
      rintro rfl
      exact unlisted_of_retired ha hlost hsole n mid hk }

/-! ## Registrations and removals -/

/-- What a registration is answered with is the registry's from then on, under the id of the name
and tags. -/
theorem stored_of_request (h : d.Coherent) (hr : d.registry? r = some g)
    (hok : (d.request r metadata tags req).1 = .ok a) :
    ∃ id g', g.metricId d.settings metadata.name tags = .ok id ∧
      registry? (d.request r metadata tags req).2 r = some g' ∧ g'.scope = g.scope ∧
      g'.metrics.get? id = some a := by
  obtain ⟨g', hr', hv⟩ := request_ok h hok
  rw [hr] at hr'
  cases hr'
  have hafter := (effect h (.register r req metadata tags)).registry hr
  simp only [registryAfter, if_true] at hafter
  obtain hv | ⟨id, value, hv, rfl⟩ := hv
  · obtain ⟨-, id, hid, ha, -⟩ := Registry.verdict_reuse hv
    rw [hv] at hafter
    exact ⟨id, _, hid, hafter, rfl, ha⟩
  · obtain ⟨-, hid, -⟩ := Registry.verdict_enroll hv
    rw [hv] at hafter
    exact ⟨id, _, hid, hafter, rfl, (SortedMap.get?_insert ..).trans (if_pos rfl)⟩

theorem stores_of_request (h : d.Coherent) (hok : (d.request r metadata tags req).1 = .ok a) :
    (d.request r metadata tags req).2.Stores r a := by
  obtain ⟨g, hr, -⟩ := request_ok h hok
  obtain ⟨id, g', -, hr', -, ha⟩ := stored_of_request h hr hok
  exact ⟨g', id, hr', ha⟩

/-- **A registration is answered** with the metric that is found under its name and tags, or else
with one that comes in. -/
theorem found_or_enrolls (h : d.Coherent) (hok : (d.request r metadata tags req).1 = .ok a) :
    d.metric? r (.of metadata.name tags) = some a ∨
      d.metric? r (.of metadata.name tags) = none ∧
        d.Enrolls (.register r req metadata tags) r a := by
  obtain ⟨g, hr, hv⟩ := request_ok h hok
  unfold metric?
  rw [hr, Option.bind_some]
  obtain hv | ⟨id, value, hv, rfl⟩ := hv
  · obtain ⟨-, id, hid, ha, -⟩ := Registry.verdict_reuse hv
    rw [Registry.normalize_of_metricId hid]
    exact .inl ha
  · obtain ⟨-, hid, hnew, -⟩ := Registry.verdict_enroll hv
    rw [Registry.normalize_of_metricId hid]
    exact .inr ⟨hnew, g, req, metadata, tags, id, value, rfl, hr, hv, rfl⟩

theorem stores_of_metric? (ha : d.metric? r id = some a) : d.Stores r a := by
  obtain ⟨g, hr, hget⟩ := Option.bind_eq_some_iff.mp ha
  exact ⟨g, _, hr, hget⟩

/-- A metric is lost by a removal when its id is what is looked up. -/
theorem stores_remove_iff (h : d.Coherent) (hr : d.registry? r = some g)
    (ha : g.metrics.get? a.id = some a) :
    (d.remove r id).2.Stores r a ↔ g.normalize d.settings id ≠ a.id := by
  rw [show (d.remove r id).2 = Action.apply (.remove r id) d from rfl,
    (h.action (.remove r id)).stored_id ((effect h (.remove r id)).registry hr),
    get?_registryAfter_remove]
  split
  · rename_i heq
    exact ⟨nofun, fun hne => absurd heq.symm hne⟩
  · rename_i hne
    exact ⟨fun _ heq => hne heq.symm, fun _ => ha⟩

/-- A metric that is removed is found no more, by whatever id it was removed. -/
theorem lost_of_remove (h : d.Coherent) (ha : d.metric? r id = some a) :
    ¬ (d.remove r id).2.Stores r a ∧ (d.remove r id).2.metric? r id = none := by
  obtain ⟨g, hr, hget⟩ := Option.bind_eq_some_iff.mp ha
  obtain ⟨_, _, hb⟩ := h.backed r g _ a hr hget
  constructor
  · rw [stores_remove_iff h hr (by rwa [hb.stored]), hb.stored]
    exact fun hne => hne rfl
  · have he := effect h (.remove r id)
    show (Action.apply (.remove r id) d).metric? r id = none
    unfold metric?
    rw [he.registry hr, Option.bind_some, he.settings,
      Registry.normalize_congr (same_registryAfter ..).1, get?_registryAfter_remove, if_pos rfl]

/-- Dropping a scope loses every metric of its registry. -/
theorem lost_of_dropScope (h : d.Coherent) {scope : String} (hs : d.lookup? scope = some r) :
    ¬ (d.dropScope scope).2.Stores r a := by
  obtain ⟨g, hr, -, -⟩ := (h.current scope r).mp hs
  rintro ⟨g', id, hr', hget⟩
  have hafter := (effect h (.dropScope scope)).registry hr
  simp only [registryAfter, show d.scopes.get? scope = some r from hs, if_true] at hafter
  cases hafter.symm.trans hr'
  cases hget

/-! ## Accounts -/

/-- What a caller reads through the metrics of a history that leads to `d`. -/
structure Accounted (settings : RegistrySettings) (platform : PlatformReadings) (acts : List Action)
    (d : Directory) : Prop where
  /-- A counter reads the sum of what was added to it, modulo the word. -/
  counter : ∀ r a, Held settings platform acts r a → a.kind = .counter →
    (a.counterValue d.store).toNat = a.added acts % 2 ^ 64
  /-- A histogram or a timer reads the distribution of what was recorded in it. -/
  distribution : ∀ r a, Held settings platform acts r a → a.kind = .histogram ∨ a.kind = .timer →
    (∃ empty, settings.emptyDistribution a.kind a.id.name = .ok empty ∧
      a.distribution? d.store = some ((a.recordings acts).foldl Distribution.record empty)) ∧
      a.recorded d.store = (a.recordings acts).length ∧
      a.total d.store = saturate (a.recordings acts).sum
  /-- No action changes what a metric reads but writing through it: not a removal, nor a drop. -/
  kept : ∀ act r a, Authentic settings platform (acts ++ [act]) → Held settings platform acts r a →
    act.written a = none → a.ReadsSame d.store (act.apply d).store
  /-- A removal loses the metric, and a drop every metric of the scope. -/
  removed : ∀ r id a, d.metric? r id = some a →
    ¬ (d.remove r id).2.Stores r a ∧ (d.remove r id).2.metric? r id = none
  dropped : ∀ scope r a, d.lookup? scope = some r → ¬ (d.dropScope scope).2.Stores r a
  /-- A metric that was lost is no registry's ever again. -/
  lost : ∀ r a, Held settings platform acts r a → ¬ d.Stores r a → ∀ acts' q b,
    (Action.applyAll acts' d).Stores q b → b.serial ≠ a.serial
  /-- A registration is answered with the registry's metric of the identity or, if there is none,
  with one that was not there before and that begins at zero. -/
  answered : ∀ r req metadata tags b, (d.request r metadata tags req).1 = .ok b →
    (d.request r metadata tags req).2.Stores r b ∧
      (d.metric? r (.of metadata.name tags) = some b ∨
        d.metric? r (.of metadata.name tags) = none ∧
          (∀ q a, Held settings platform acts q a → a.serial ≠ b.serial) ∧
          (b.kind = .counter → b.counterValue (d.request r metadata tags req).2.store = 0) ∧
          (b.kind = .histogram ∨ b.kind = .timer →
            b.recorded (d.request r metadata tags req).2.store = 0 ∧
              b.total (d.request r metadata tags req).2.store = 0))
  /-- What is written through a metric that was lost reaches no export and no other metric. -/
  harmless : ∀ r a u, Held settings platform acts r a → ¬ d.Stores r a →
    SameExports d (d.modifyStore (a.write u)) ∧
      ∀ q b, Held settings platform acts q b → b.serial ≠ a.serial →
        b.ReadsSame d.store (d.modifyStore (a.write u)).store

/-- **No update is lost, duplicated or misdirected.** -/
theorem accounted (settings : RegistrySettings) (platform : PlatformReadings) (acts : List Action)
    (hauth : Authentic settings platform acts) :
    Accounted settings platform acts (reached settings platform acts) := by
  have h := coherent_reached settings platform acts
  exact {
    counter := fun r a ha hkind => (accrued_of_held hauth ha).counterValue hkind
    distribution := by
      intro r a ha hkind
      have haccrued := accrued_of_held hauth ha
      obtain ⟨empty, hempty, hread⟩ := haccrued.distribution hkind
      rw [settings_reached] at hempty
      exact ⟨⟨empty, hempty, hread⟩, haccrued.recorded hkind⟩
    kept := by
      intro act r a hauth' ha hquiet
      obtain ⟨-, m, meter, hsole, hm, -⟩ := held_meter ha
      obtain ⟨meter', hm', hvalue⟩ := hauth'.unwritten ha hquiet hsole hm
      rw [reached_snoc] at hm'
      exact hsole.readsSame hm hm' hvalue
    removed := fun r id a ha => lost_of_remove h ha
    dropped := fun scope r a hs => lost_of_dropScope h hs
    lost := by
      intro r a ha hlost acts' q b hb heq
      rw [← reached_append] at hb
      obtain ⟨-, rfl⟩ := held_inj (held_of_stores hb) (ha.append acts') (.inl heq)
      exact retired_forever ha hlost acts' hb
    answered := by
      intro r req metadata tags b hok
      refine ⟨stores_of_request h hok, (found_or_enrolls h hok).imp_right ?_⟩
      rintro ⟨hnone, hnew⟩
      have haccrued := hnew.accrued
      rw [reached_snoc] at haccrued
      refine ⟨hnone, fun q a ha => (hnew.new ha).1.symm, fun hkind => ?_, fun hkind => ?_⟩
      · exact UInt64.toNat_inj.mp (haccrued.counterValue hkind)
      · exact haccrued.recorded hkind
    harmless := by
      intro r a u ha hlost
      exact ⟨(shown_of_write ha hlost u).exports, fun q b hb hne =>
        readsSame_of_write ha hb hne u⟩ }

/-- The counter `n` of scope `s` that comes in as number `k`. -/
def nthCounter (k : Nat) : Adapter :=
  ⟨k, ⟨"n", ∅⟩, .counter, ⟨k, ⟨"n", SortedMap.insert ∅ scopeKey "s"⟩, .counter, [some k]⟩, some k⟩

/-- A counter is removed and registered again, and written to through both handles. -/
def registeredAgain : List Action :=
  [.openScope "s", .register 0 .counter (.ofName "n") [], .write (nthCounter 0) (.increment 2),
    .remove 0 ⟨"n", ∅⟩, .register 0 .counter (.ofName "n") [],
    .write (nthCounter 0) (.increment 5), .write (nthCounter 1) (.increment 1)]

/-- The old counter reads what was added through its own handle, and the new one starts at zero. -/
theorem accounted_registeredAgain :
    let settings : RegistrySettings := ⟨∅, none, {}, true⟩
    let d := reached settings default registeredAgain
    Authentic settings default registeredAgain ∧ Accounted settings default registeredAgain d ∧
      ((nthCounter 0).counterValue d.store).toNat = 7 ∧
      ((nthCounter 1).counterValue d.store).toNat = 1 := by
  intro settings d
  have hheld : ∀ acts k, (reached settings default acts).metric? 0 ⟨"n", ∅⟩ = some (nthCounter k) →
      Held settings default acts 0 (nthCounter k) :=
    fun _ _ hfound => held_of_stores (stores_of_metric? hfound)
  have hold := hheld (registeredAgain.take 2) 0 (by decide +kernel)
  have hnew := hheld (registeredAgain.take 5) 1 (by decide +kernel)
  have hfirst : Authentic settings default (registeredAgain.take 3) :=
    (authentic_nil.quiet (by simp [Action.Quiet])).write hold (.increment 2)
  have hquiet : ∀ act ∈ [Action.remove 0 ⟨"n", ∅⟩, .register 0 .counter (.ofName "n") []],
      act.Quiet := by simp [Action.Quiet]
  have hremoved : Authentic settings default (registeredAgain.take 5) := hfirst.quiet hquiet
  have hauth : Authentic settings default registeredAgain :=
    (hremoved.write (hold.append _) (.increment 5)).write
      (hnew.append [.write (nthCounter 0) (.increment 5)]) (.increment 1)
  have haccounted := accounted settings default registeredAgain hauth
  exact ⟨hauth, haccounted, haccounted.counter 0 _ (hold.append _) rfl,
    haccounted.counter 0 _ (hnew.append _) rfl⟩

end Directory

end Telemetry
