import Telemetry.Proofs.History.Authentic
import Telemetry.Proofs.Outcomes

/-!
# What a metric holds

In an authentic history a metric's value is what was written through the metric, in order, over the
value that it began with (`accrued_of_held`): other metrics, further registrations, removals and
drops do not count. So a counter reads the sum of what was added to it (`Accrued.counterValue`), and
a histogram or a timer reads the distribution of what was recorded in it (`Accrued.distribution`).
-/

namespace Telemetry

/-- What is added to a count. -/
def Update.amount? : Update → Option UInt64
  | .increment n => some n
  | .record _ => none

/-- What is recorded in a distribution. -/
def Update.raw? : Update → Option Nat
  | .increment _ => none
  | .record raw => some raw

/-- What an action writes through a metric. -/
def Action.written (a : Adapter) : Action → Option Update
  | .write b u => if b.serial = a.serial then some u else none
  | _ => none

namespace Adapter

/-- What a history writes through a metric, in order. -/
def updates (a : Adapter) (acts : List Action) : List Update := acts.filterMap (Action.written a)

/-- The sum of what a history adds to a counter. -/
def added (a : Adapter) (acts : List Action) : Nat :=
  (((a.updates acts).filterMap Update.amount?).map UInt64.toNat).sum

/-- What a history records in a histogram or a timer, in order. -/
def recordings (a : Adapter) (acts : List Action) : List Nat :=
  (a.updates acts).filterMap Update.raw?

theorem updates_snoc (a : Adapter) (acts : List Action) (act : Action) :
    a.updates (acts ++ [act]) = a.updates acts ++ (act.written a).toList := by
  unfold updates
  rw [List.filterMap_append]
  cases h : act.written a <;> simp [h]

end Adapter

/-- The empty distribution of a name, as the settings lay it out for a kind. -/
def RegistrySettings.emptyDistribution (s : RegistrySettings) (kind : MetricKind) (name : String) :
    Except LayoutFault Distribution :=
  match kind with
  | .timer => Distribution.create (s.distribution.timer name) Meter.nanosScale
  | _ => Distribution.create (s.distribution.histogram name) (.ofNat _ 1)

/-! ## Values -/

namespace MeterValue

/-- A value after updates. -/
def updateAll (us : List Update) (value : MeterValue) : MeterValue :=
  us.foldl (fun (v : MeterValue) u => v.update u) value

/-- A count after updates: what they add counts, modulo the word. -/
theorem updateAll_counter (us : List Update) (count : UInt64) :
    ∃ count' : UInt64, updateAll us (.counter count) = .counter count' ∧
      count'.toNat =
        (count.toNat + ((us.filterMap Update.amount?).map UInt64.toNat).sum) % 2 ^ 64 := by
  induction us generalizing count with
  | nil => exact ⟨count, rfl, (Nat.mod_eq_of_lt count.toNat_lt).symm⟩
  | cons u us ih =>
    cases u with
    | record raw => exact ih count
    | increment n =>
      obtain ⟨count', heq, hcount⟩ := ih (count + n)
      refine ⟨count', heq, hcount.trans ?_⟩
      rw [UInt64.toNat_add, Nat.mod_add_mod]
      simp [Update.amount?, Nat.add_assoc]

theorem updateAll_histogram (us : List Update) (values : Distribution) :
    updateAll us (.histogram values) =
      .histogram ((us.filterMap Update.raw?).foldl Distribution.record values) := by
  induction us generalizing values with
  | nil => rfl
  | cons u us ih =>
    cases u with
    | increment n => exact ih values
    | record raw => exact ih (values.record raw)

theorem updateAll_timer (us : List Update) (durations : Distribution) :
    updateAll us (.timer durations) =
      .timer ((us.filterMap Update.raw?).foldl Distribution.record durations) := by
  induction us generalizing durations with
  | nil => rfl
  | cons u us ih =>
    cases u with
    | increment n => exact ih durations
    | record raw => exact ih (durations.record raw)

end MeterValue

/-- Recording counts every value, and adds it to the sum while that fits a word. -/
theorem Distribution.foldl_record {values : Distribution} (h : values.total ≤ wordMax)
    (raws : List Nat) :
    (raws.foldl Distribution.record values).count = values.count + raws.length ∧
      (raws.foldl Distribution.record values).total = saturate (values.total + raws.sum) := by
  induction raws generalizing values with
  | nil => exact ⟨rfl, (Nat.min_eq_left h).symm⟩
  | cons raw raws ih =>
    have hbound : (values.record raw).total ≤ wordMax := Nat.min_le_right ..
    obtain ⟨hcount, htotal⟩ := ih hbound
    refine ⟨?_, htotal.trans ?_⟩
    · rw [List.foldl_cons, hcount, List.length_cons]
      show values.count + 1 + raws.length = _
      omega
    · show saturate (saturate (values.total + raw) + raws.sum) = _
      rw [List.sum_cons]
      unfold saturate
      omega

theorem RegistrySettings.emptyDistribution_ok {s : RegistrySettings} {kind : MetricKind}
    {name : String} {empty : Distribution} (h : s.emptyDistribution kind name = .ok empty) :
    empty.count = 0 ∧ empty.total = 0 := by
  have hcreate : ∀ {spec scale}, Distribution.create spec scale = .ok empty →
      empty.count = 0 ∧ empty.total = 0 := by
    intro spec scale hok
    obtain ⟨layout, -, rfl⟩ := ok_of_map_ok hok
    exact ⟨rfl, rfl⟩
  unfold emptyDistribution at h
  split at h <;> exact hcreate h

namespace Directory

variable {r r' : RegistryRef} {a b : Adapter} {act : Action} {m : MeterRef} {meter : Meter}
  {settings : RegistrySettings} {platform : PlatformReadings} {acts : List Action}

/-! ## What is written through a metric -/

/-- Nothing was written through a metric that is not held yet. -/
theorem Authentic.updates_eq_nil (h : Authentic settings platform acts)
    (hnew : ∀ r b, Held settings platform acts r b → b.serial ≠ a.serial) :
    a.updates acts = [] := by
  refine List.filterMap_eq_nil_iff.mpr fun act hact => ?_
  cases act with
  | write b u =>
    obtain ⟨before, after, rfl⟩ := List.append_of_mem hact
    obtain ⟨r, hb⟩ := h before b u after rfl
    exact if_neg (hnew r b (hb.append _))
  | _ => rfl

theorem Enrolls.written {d : Directory} (h : d.Enrolls act r a) : act.written b = none := by
  obtain ⟨g, req, metadata, tags, id, value, rfl, -⟩ := h
  rfl

/-! ## The value of a metric -/

/-- An action that writes nothing through a metric leaves its value. -/
theorem Authentic.unwritten (h : Authentic settings platform (acts ++ [act]))
    (ha : Held settings platform acts r a) (hquiet : act.written a = none) (hsole : a.Sole m)
    (hm : (reached settings platform acts).store.meter? m = some meter) :
    ∃ meter', (reached settings platform (acts ++ [act])).store.meter? m = some meter' ∧
      meter'.value = meter.value := by
  rw [reached_snoc]
  by_cases hact : ∃ b u, act = .write b u
  · obtain ⟨b, u, rfl⟩ := hact
    obtain ⟨q, hb⟩ := (authentic_snoc.mp h).2 b u rfl
    obtain ⟨-, k, -, hk, -, -⟩ := held_meter hb
    have hne : m ≠ k := by
      rintro rfl
      obtain ⟨-, rfl⟩ := held_inj hb ha (.inr (hk.1.trans hsole.1.symm))
      cases hquiet.symm.trans (if_pos rfl)
    refine ⟨meter, (meter_write hk u m).trans ?_, rfl⟩
    rw [if_neg hne, hm]
  · exact (effect (coherent_reached ..) act).meter hm fun b u hw => hact ⟨b, u, hw⟩

/-- An action that writes through a metric. -/
theorem meter_written (hsole : a.Sole m) {u : Update}
    (hm : (reached settings platform acts).store.meter? m = some meter) :
    (reached settings platform (acts ++ [.write a u])).store.meter? m = some (meter.update u) := by
  rw [reached_snoc]
  refine (meter_write hsole u m).trans ?_
  rw [if_pos rfl, hm, Option.map_some]

/-- What an action writes through a metric is written through this very metric. -/
theorem Authentic.written_eq (h : Authentic settings platform (acts ++ [act]))
    (ha : Held settings platform acts r a) {u : Update} (hwritten : act.written a = some u) :
    act = .write a u := by
  cases act with
  | write b u' =>
    obtain ⟨q, hb⟩ := (authentic_snoc.mp h).2 b u' rfl
    simp only [Action.written] at hwritten
    split at hwritten
    · rename_i hserial
      obtain ⟨-, rfl⟩ := held_inj hb ha (.inl hserial)
      cases hwritten
      rfl
    · cases hwritten
  | _ => cases hwritten

/-- The metric's own meter holds what the updates make of the value that it began with. -/
def Accrued (d : Directory) (a : Adapter) (us : List Update) : Prop :=
  ∃ m meter q value, a.Sole m ∧ d.store.meter? m = some meter ∧ MetricRequest.kind q = a.kind ∧
    (q.spec d.settings a.id.name).initial = .ok value ∧ meter.value = MeterValue.updateAll us value

/-- A metric that comes in begins with the initial value of its kind. -/
theorem Enrolls.accrued (hnew : (reached settings platform acts).Enrolls act r a) :
    (reached settings platform (acts ++ [act])).Accrued a [] := by
  obtain ⟨g, req, metadata, tags, id, value, rfl, hr, hv, rfl⟩ := hnew
  have he := effect (coherent_reached settings platform acts) (.register r req metadata tags)
  obtain ⟨-, hid, -, -, -, hinit⟩ := Registry.verdict_enroll hv
  have hname : id.name = metadata.name := (Registry.metricId_ok hid).1
  have hstored := he.registry hr
  simp only [registryAfter, if_true, hv] at hstored
  obtain ⟨-, m, -, hsole, -, -⟩ := ((coherent_reached ..).action _).sole
    ⟨_, id, hstored, (SortedMap.get?_insert ..).trans (if_pos rfl)⟩
  rw [reached_snoc]
  refine ⟨m, ⟨g.meterId id, g.effective metadata, value⟩, req, value, hsole, ?_,
    (kind_newcomer id).symm, ?_, rfl⟩
  · rw [Option.some.inj (hsole.1.symm.trans (meter_newcomer id))]
    exact meter_enrolled (coherent_reached ..) hr hv
  · rw [he.settings]
    exact hname ▸ hinit

/-- What an action writes through a metric is added to what the metric holds. -/
theorem Authentic.accrued_snoc (h : Authentic settings platform (acts ++ [act]))
    (ha : Held settings platform acts r a) {us : List Update}
    (hold : (reached settings platform acts).Accrued a us) :
    (reached settings platform (acts ++ [act])).Accrued a (us ++ (act.written a).toList) := by
  obtain ⟨m, meter, q, value, hsole, hm, hkind, hinit, hvalue⟩ := hold
  rw [settings_reached] at hinit
  unfold Accrued
  rw [settings_reached]
  cases hwritten : act.written a with
  | none =>
    obtain ⟨meter', hm', hsame⟩ := h.unwritten ha hwritten hsole hm
    refine ⟨m, meter', q, value, hsole, hm', hkind, hinit, ?_⟩
    rw [hsame, hvalue, Option.toList_none, List.append_nil]
  | some u =>
    obtain rfl := h.written_eq ha hwritten
    refine ⟨m, _, q, value, hsole, meter_written hsole hm, hkind, hinit, ?_⟩
    unfold MeterValue.updateAll
    rw [Option.toList_some, List.foldl_append]
    exact congrArg (MeterValue.update u) hvalue

/-- **What a metric holds** is what was written through it, over the value that it began with. -/
theorem accrued_of_held (h : Authentic settings platform acts)
    (ha : Held settings platform acts r a) :
    (reached settings platform acts).Accrued a (a.updates acts) := by
  induction acts using List.reverseRecOn with
  | nil => exact absurd ha not_held_nil
  | append_singleton acts act ih =>
    have hbefore := (authentic_snoc.mp h).1
    rw [Adapter.updates_snoc]
    obtain hold | hnew := held_snoc ha
    · exact h.accrued_snoc hold (ih hbefore hold)
    · rw [hbefore.updates_eq_nil fun q b hb => (hnew.new hb).1.symm, hnew.written]
      exact hnew.accrued

namespace Accrued

variable {d : Directory} {us : List Update}

/-- A counter reads the sum of what was added to it, modulo the word. -/
theorem counterValue (h : d.Accrued a us) (hkind : a.kind = .counter) :
    (a.counterValue d.store).toNat =
      ((us.filterMap Update.amount?).map UInt64.toNat).sum % 2 ^ 64 := by
  obtain ⟨m, meter, q, value, hsole, hm, hq, hinit, hvalue⟩ := h
  rw [hkind] at hq
  cases q <;> cases hq
  cases hinit
  obtain ⟨count, hupdated, hcount⟩ := MeterValue.updateAll_counter us 0
  unfold Adapter.counterValue Adapter.readable?
  simp only [hsole.1, hm, Option.map_some, Option.getD_some, Meter.count, hvalue, hupdated]
  simpa using hcount

/-- A histogram or a timer reads the distribution of what was recorded in it. -/
theorem distribution (h : d.Accrued a us) (hkind : a.kind = .histogram ∨ a.kind = .timer) :
    ∃ empty, d.settings.emptyDistribution a.kind a.id.name = .ok empty ∧
      a.distribution? d.store =
      some ((us.filterMap Update.raw?).foldl Distribution.record empty) := by
  obtain ⟨m, meter, q, value, hsole, hm, hq, hinit, hvalue⟩ := h
  unfold Adapter.distribution? Adapter.readable?
  simp only [hsole.1, hm, Option.bind_some, Meter.distribution?, hvalue]
  obtain hk | hk := hkind
  · rw [hk] at hq
    cases q <;> cases hq
    obtain ⟨empty, hempty, rfl⟩ := ok_of_map_ok hinit
    rw [MeterValue.updateAll_histogram, hk]
    exact ⟨empty, hempty, rfl⟩
  · rw [hk] at hq
    cases q <;> cases hq
    obtain ⟨empty, hempty, rfl⟩ := ok_of_map_ok hinit
    rw [MeterValue.updateAll_timer, hk]
    exact ⟨empty, hempty, rfl⟩

/-- It counts what was recorded, and sums it while the sum fits a word. -/
theorem recorded (h : d.Accrued a us) (hkind : a.kind = .histogram ∨ a.kind = .timer) :
    a.recorded d.store = (us.filterMap Update.raw?).length ∧
      a.total d.store = saturate (us.filterMap Update.raw?).sum := by
  obtain ⟨empty, hempty, hdistribution⟩ := h.distribution hkind
  obtain ⟨hcount, htotal⟩ := RegistrySettings.emptyDistribution_ok hempty
  have hbound : empty.total ≤ wordMax := htotal ▸ Nat.zero_le _
  obtain ⟨hrecorded, hsum⟩ := Distribution.foldl_record hbound (us.filterMap Update.raw?)
  unfold Adapter.recorded Adapter.total
  rw [hdistribution, Option.map_some, Option.map_some, Option.getD_some,
    Option.getD_some, hrecorded, hsum, hcount, htotal, Nat.zero_add, Nat.zero_add]
  exact ⟨rfl, rfl⟩

end Accrued

end Directory

end Telemetry
