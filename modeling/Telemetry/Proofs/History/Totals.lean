import Mathlib.Algebra.BigOperators.Ring.Finset
import Mathlib.Data.List.Perm.Basic
import Telemetry.Proofs.History.Accounts

/-!
# Recorded totals

A histogram or a timer keeps the `Totals` of its raw words beside the slots: how many there were,
their sum and the greatest. The sum stops at the largest word each time that one is added, and still
it is the exact sum, capped once (`Distribution.totals_of_create`). Nothing of a layout is in it,
nor the order of the words.

`Operation.given` lists what operations give to one metric, through the caller's own handles and
through interceptions. `totals_exact`: after every authentic run the metric holds the totals of what
it was given.
-/

namespace Telemetry

/-! ## Totals of raw words -/

/-- What a distribution keeps of its raw words beside the slots. -/
structure Totals where
  count : Nat
  total : Nat
  greatest : Nat
deriving DecidableEq

/-- The totals of raw words: the sum is capped once, and the greatest of none is zero. -/
def Totals.of (raws : List Nat) : Totals := ⟨raws.length, saturate raws.sum, raws.foldr max 0⟩

/-- Their order does not matter. -/
theorem Totals.of_perm {raws raws' : List Nat} (h : raws.Perm raws') : of raws = of raws' := by
  unfold of
  rw [h.length_eq, h.sum_nat, h.foldr_eq 0]

namespace Distribution

variable {dist : Distribution} {spec : DistributionSpec} {scale : Real64}

def totals (dist : Distribution) : Totals := ⟨dist.count, dist.total, dist.greatest⟩

theorem sum_snapshot (dist : Distribution) :
    dist.snapshot.sum = (Binary.ofNat _ dist.total).div dist.scale := by
  simp only [snapshot, expose]

theorem max_snapshot (dist : Distribution) :
    dist.snapshot.max = (Binary.ofNat _ dist.greatest).div dist.scale := by
  simp only [snapshot, expose]

theorem scale_foldl_record (raws : List Nat) (dist : Distribution) :
    (raws.foldl record dist).scale = dist.scale := by
  induction raws generalizing dist with
  | nil => rfl
  | cons raw raws ih => exact ih (dist.record raw)

theorem scale_foldl_of_create (h : create spec scale = .ok dist) (raws : List Nat) :
    (raws.foldl record dist).scale = scale := by
  obtain ⟨layout, -, rfl⟩ := ok_of_map_ok h
  exact scale_foldl_record ..

theorem greatest_foldl_record (raws : List Nat) (dist : Distribution) :
    (raws.foldl record dist).greatest = max dist.greatest (raws.foldr max 0) := by
  induction raws generalizing dist with
  | nil => exact (Nat.max_zero _).symm
  | cons raw raws ih => exact (ih (dist.record raw)).trans (Nat.max_assoc ..)

/-- **Capping at every step is capping once**, whatever the bounds and the precision. -/
theorem totals_of_create (h : create spec scale = .ok dist) (raws : List Nat) :
    (raws.foldl record dist).totals = .of raws := by
  obtain ⟨layout, -, rfl⟩ := ok_of_map_ok h
  have hempty : (⟨spec, scale, .empty layout, 0, 0, 0⟩ : Distribution).total ≤ wordMax :=
    Nat.zero_le _
  obtain ⟨hcount, htotal⟩ := foldl_record hempty raws
  unfold totals Totals.of
  rw [hcount, htotal, greatest_foldl_record, Nat.zero_add, Nat.zero_add, Nat.zero_max]

end Distribution

/-- How many raw words of a kind make one of the unit that it exposes. -/
def MetricKind.scale : MetricKind → Real64
  | .timer => Meter.nanosScale
  | _ => .ofNat _ 1

theorem RegistrySettings.emptyDistribution_eq (s : RegistrySettings) (kind : MetricKind)
    (name : String) :
    ∃ spec, s.emptyDistribution kind name = Distribution.create spec kind.scale := by
  cases kind <;> exact ⟨_, rfl⟩

/-- The metric holds these totals, and they are what is read through it. -/
structure Adapter.Shows (a : Adapter) (s : MeterStore) (totals : Totals) : Prop where
  held : ∃ dist, a.distribution? s = some dist ∧ dist.totals = totals
  recorded : a.recorded s = totals.count
  total : a.total s = totals.total
  sum : (a.snapshot s).sum = (Binary.ofNat _ totals.total).div a.kind.scale
  max : (a.snapshot s).max = (Binary.ofNat _ totals.greatest).div a.kind.scale

theorem Directory.Accrued.shows {d : Directory} {a : Adapter} {us : List Update}
    (h : d.Accrued a us) (hkind : a.kind = .histogram ∨ a.kind = .timer) :
    a.Shows d.store (.of (us.filterMap Update.raw?)) := by
  obtain ⟨hrecorded, htotal⟩ := h.recorded hkind
  obtain ⟨empty, hempty, hread⟩ := h.distribution hkind
  obtain ⟨spec, hcreate⟩ := d.settings.emptyDistribution_eq a.kind a.id.name
  rw [hcreate] at hempty
  have htotals := Distribution.totals_of_create hempty (us.filterMap Update.raw?)
  have hscale := Distribution.scale_foldl_of_create hempty (us.filterMap Update.raw?)
  have hsnapshot : a.snapshot d.store =
      ((us.filterMap Update.raw?).foldl Distribution.record empty).snapshot := by
    unfold Adapter.snapshot
    rw [hread, Option.map_some, Option.getD_some]
  exact {
    held := ⟨_, hread, htotals⟩
    recorded := hrecorded
    total := htotal
    sum := by rw [hsnapshot, Distribution.sum_snapshot, hscale, ← htotals, Distribution.totals]
    max := by rw [hsnapshot, Distribution.max_snapshot, hscale, ← htotals, Distribution.totals] }

/-! ## What operations give to a metric -/

/-- What is given to a histogram or a timer. -/
inductive Given where
  | number (value : Int)
  | duration (elapsed : Duration)
deriving DecidableEq

/-- The raw word that is recorded for it: none for a negative number. -/
def Given.raw? : Given → Option Nat
  | .number (.ofNat raw) => some raw
  | .number (.negSucc _) => none
  | .duration elapsed => some (saturate elapsed.nanos)

mutual

/-- What an operation gives to a metric, in order. -/
def Operation.given (a : Adapter) : Operation → Directory → List Given
  | .update b value, _ => if b.serial = a.serial then [.number value] else []
  | .updateDuration b elapsed, _ => if b.serial = a.serial then [.duration elapsed] else []
  | .intercept .counted scope member _ work _, d =>
    match (d.getOrCreate scope).2.resolveMapped (d.getOrCreate scope).1 .counted member with
    | .error _ => []
    | .ok counters => Operation.givenAll a work
        ((d.getOrCreate scope).2.modifyStore fun s => counters.foldl (fun s b => b.increment 1 s) s)
  | .intercept .timed scope member elapsed work _, d =>
    match (d.getOrCreate scope).2.resolveMapped (d.getOrCreate scope).1 .timed member with
    | .error _ => []
    | .ok timers => Operation.givenAll a work (d.getOrCreate scope).2 ++
        (timers.filter (·.serial = a.serial)).map fun b => .duration (elapsed b)
  | _, _ => []

/-- What operations give to a metric in turn. -/
def Operation.givenAll (a : Adapter) : List Operation → Directory → List Given
  | [], _ => []
  | op :: ops, d => op.given a d ++ Operation.givenAll a ops (op.apply d)

end

namespace Adapter

variable {a : Adapter} {acts acts' : List Action}

theorem recordings_append (a : Adapter) (acts acts' : List Action) :
    a.recordings (acts ++ acts') = a.recordings acts ++ a.recordings acts' := by
  unfold recordings updates
  rw [List.filterMap_append, List.filterMap_append]

theorem recordings_quiet (hacts : ∀ act ∈ acts, act.Quiet) : a.recordings acts = [] := by
  have hnone : a.updates acts = [] := by
    refine List.filterMap_eq_nil_iff.mpr fun act hact => ?_
    cases act with
    | write b u => exact (hacts _ hact).elim
    | _ => rfl
  unfold recordings
  rw [hnone]
  rfl

theorem recordings_write (a b : Adapter) (u : Update) :
    a.recordings [.write b u] = if b.serial = a.serial then u.raw?.toList else [] := by
  by_cases hb : b.serial = a.serial
  · cases u <;> simp [recordings, updates, Action.written, Update.raw?, hb]
  · simp [recordings, updates, Action.written, hb]

/-- What is written through several metrics comes to this one where it is among them. -/
theorem recordings_map_write (a : Adapter) (u : Adapter → Update) (adapters : List Adapter) :
    a.recordings (adapters.map fun b => .write b (u b)) =
      (adapters.filter (·.serial = a.serial)).filterMap fun b => (u b).raw? := by
  induction adapters with
  | nil => rfl
  | cons b adapters ih =>
    rw [List.map_cons, ← List.singleton_append, recordings_append, ih, recordings_write]
    by_cases hb : b.serial = a.serial
    · rw [if_pos hb, List.filter_cons_of_pos (by simpa using hb), List.filterMap_cons]
      cases (u b).raw? <;> rfl
    · rw [if_neg hb, List.filter_cons_of_neg (by simpa using hb), List.nil_append]

end Adapter

namespace Directory

variable {settings : RegistrySettings} {platform : PlatformReadings} {ops : List Operation}
  {r : RegistryRef} {a : Adapter}

mutual

/-- **What an operation records** in a metric is what it gives to it, negative numbers left out. -/
theorem recordings_actions (a : Adapter) : (op : Operation) → (d : Directory) →
    a.recordings (op.actions d) = (op.given a d).filterMap Given.raw?
  | .openScope scope, d => Adapter.recordings_quiet (quiet_openingActions scope d)
  | .dropScope _, _ => rfl
  | .dropAll, d => Adapter.recordings_quiet (quiet_dropAll d)
  | .register .., _ => rfl
  | .remove .., _ => rfl
  | .removeMatching r p, d => Adapter.recordings_quiet (quiet_removeMatching r p d)
  | .mapMember .., _ => rfl
  | .registerMember member annotations, d =>
    Adapter.recordings_quiet (quiet_memberActions member annotations d)
  | .intercept .counted scope member _ work _, d => by
    have hopening := Adapter.recordings_quiet (a := a) (quiet_openingActions scope d)
    unfold Operation.actions Operation.given
    simp only
    cases (d.getOrCreate scope).2.resolveMapped (d.getOrCreate scope).1 .counted member with
    | error e => exact hopening
    | ok counters =>
      have hcounted : a.recordings (counters.map fun b => .write b (.increment 1)) = [] :=
        (a.recordings_map_write (fun _ => .increment 1) counters).trans
          (List.filterMap_eq_nil_iff.mpr fun _ _ => rfl)
      have hwritten := Action.applyAll_map_write (fun b => b) (fun _ => .increment 1) counters
        (d.getOrCreate scope).2
      simp only [Adapter.recordings_append, Action.applyAll_append,
        applyAll_openingActions, hopening, hcounted, hwritten, List.nil_append]
      exact recordings_actionsAll a work _
  | .intercept .timed scope member elapsed work _, d => by
    have hopening := Adapter.recordings_quiet (a := a) (quiet_openingActions scope d)
    unfold Operation.actions Operation.given
    simp only
    cases (d.getOrCreate scope).2.resolveMapped (d.getOrCreate scope).1 .timed member with
    | error e => exact hopening
    | ok timers =>
      have htimed := a.recordings_map_write (fun b => .record (saturate (elapsed b).nanos)) timers
      have hwork := recordings_actionsAll a work (d.getOrCreate scope).2
      simp only [Adapter.recordings_append, applyAll_openingActions, hopening, hwork, htimed,
        List.nil_append, List.filterMap_append, List.filterMap_map]
      rfl
  | .increment b n, _ => by
    refine (a.recordings_write b (.increment n)).trans ?_
    split <;> rfl
  | .update b (.ofNat raw), _ => by
    unfold Operation.given
    refine (a.recordings_write b (.record raw)).trans ?_
    split <;> rfl
  | .update b (.negSucc _), _ => by
    unfold Operation.given
    split <;> rfl
  | .updateDuration b elapsed, _ => by
    unfold Operation.given
    refine (a.recordings_write b (.record (saturate elapsed.nanos))).trans ?_
    split <;> rfl
  | .sample _, _ => rfl

theorem recordings_actionsAll (a : Adapter) : (ops : List Operation) → (d : Directory) →
    a.recordings (Operation.actionsAll ops d) = (Operation.givenAll a ops d).filterMap Given.raw?
  | [], _ => rfl
  | op :: ops, d => by
    unfold Operation.actionsAll Operation.givenAll
    rw [Adapter.recordings_append, List.filterMap_append, recordings_actions a op d,
      recordings_actionsAll a ops _]

end

/-- **A metric shows what was given to it.** -/
theorem shows_afterRun (hauth : Operation.AuthenticAll settings platform ops [])
    (ha : Held settings platform (history settings platform ops) r a)
    (hkind : a.kind = .histogram ∨ a.kind = .timer) :
    a.Shows (afterRun settings platform ops).store
      (.of ((Operation.givenAll a ops (new settings platform)).filterMap Given.raw?)) := by
  have hshows := (accrued_of_held (authentic_history hauth) ha).shows hkind
  rw [afterRun_eq_reached, ← recordings_actionsAll]
  exact hshows

end Directory

/-! ## Exact totals -/

/-- The totals of the numbers from zero on. -/
structure Totals.OfNumbers (totals : Totals) (values : List Int) : Prop where
  count : totals.count = (values.filter (0 ≤ ·)).length
  total : (totals.total : Int) = min (values.filter (0 ≤ ·)).sum (2 ^ 64 - 1)
  greatest : (totals.greatest : Int) = (values.filter (0 ≤ ·)).foldr max 0

/-- The totals of durations in nanoseconds, each capped. -/
structure Totals.OfDurations (totals : Totals) (elapsed : List Duration) : Prop where
  count : totals.count = elapsed.length
  total : totals.total = min (elapsed.map fun e => min e.nanos (2 ^ 64 - 1)).sum (2 ^ 64 - 1)
  greatest : totals.greatest = (elapsed.map fun e => min e.nanos (2 ^ 64 - 1)).foldr max 0

/-- What is recorded for numbers are the ones from zero on. -/
theorem Given.raws_number (values : List Int) :
    ((values.map number).filterMap raw?).map Int.ofNat = values.filter (0 ≤ ·) := by
  induction values with
  | nil => rfl
  | cons value values ih =>
    rw [List.map_cons, List.filterMap_cons]
    cases value with
    | ofNat raw =>
      rw [List.filter_cons_of_pos (by simp), ← ih]
      rfl
    | negSucc n =>
      rw [List.filter_cons_of_neg (by simp)]
      exact ih

/-- What is recorded for durations are their nanoseconds, capped. -/
theorem Given.raws_duration (elapsed : List Duration) :
    (elapsed.map duration).filterMap raw? = elapsed.map fun e => min e.nanos (2 ^ 64 - 1) := by
  induction elapsed with
  | nil => rfl
  | cons e elapsed ih => exact congrArg (List.cons _) ih

theorem foldr_max_map_ofNat (raws : List Nat) :
    (raws.map Int.ofNat).foldr max 0 = (raws.foldr max 0 : Nat) := by
  induction raws with
  | nil => rfl
  | cons raw raws ih =>
    rw [List.map_cons, List.foldr_cons, List.foldr_cons, ih]
    show max (raw : Int) _ = _
    omega

theorem Totals.of_numbers (values : List Int) :
    (of ((values.map Given.number).filterMap Given.raw?)).OfNumbers values := by
  have hraws := Given.raws_number values
  generalize (values.map Given.number).filterMap Given.raw? = raws at hraws
  constructor
  · rw [← hraws, List.length_map]
    rfl
  · have hsum : ((raws.sum : Nat) : Int) = (raws.map Int.ofNat).sum := Nat.cast_list_sum raws
    rw [← hraws, ← hsum]
    have hword : wordMax = 2 ^ 64 - 1 := rfl
    show ((min raws.sum wordMax : Nat) : Int) = _
    omega
  · rw [← hraws, foldr_max_map_ofNat]
    rfl

theorem Totals.of_durations (elapsed : List Duration) :
    (of ((elapsed.map Given.duration).filterMap Given.raw?)).OfDurations elapsed := by
  rw [Given.raws_duration]
  exact ⟨List.length_map .., rfl, rfl⟩

namespace Directory

/-- What is read through the histograms and timers of a run. -/
structure ExactTotals (settings : RegistrySettings) (platform : PlatformReadings)
    (ops : List Operation) : Prop where
  /-- A histogram that numbers were given to shows the totals of those from zero on. -/
  histogram : ∀ r a, Held settings platform (history settings platform ops) r a →
    a.kind = .histogram → ∀ values : List Int,
      Operation.givenAll a ops (new settings platform) = values.map .number →
        ∃ totals, totals.OfNumbers values ∧ a.Shows (afterRun settings platform ops).store totals
  /-- A timer that durations were given to shows the totals of their nanoseconds. -/
  timer : ∀ r a, Held settings platform (history settings platform ops) r a → a.kind = .timer →
    ∀ elapsed : List Duration,
      Operation.givenAll a ops (new settings platform) = elapsed.map .duration →
        ∃ totals, totals.OfDurations elapsed ∧ a.Shows (afterRun settings platform ops).store totals
  /-- A negative number changes nothing, wherever it is given. -/
  negative : ∀ a value d, value < 0 → (Operation.update a value).apply d = d
  /-- A metric of another run, under other settings, that is given as much in any order shows the
  same totals. -/
  unordered : ∀ settings' platform' ops', Operation.AuthenticAll settings' platform' ops' [] →
    ∀ r a, Held settings platform (history settings platform ops) r a →
      a.kind = .histogram ∨ a.kind = .timer →
    ∀ r' a', Held settings' platform' (history settings' platform' ops') r' a' →
      a'.kind = .histogram ∨ a'.kind = .timer →
    (Operation.givenAll a ops (new settings platform)).Perm
      (Operation.givenAll a' ops' (new settings' platform')) →
    ∃ totals, a.Shows (afterRun settings platform ops).store totals ∧
      a'.Shows (afterRun settings' platform' ops').store totals

/-- **Recorded totals are exact.** -/
theorem totals_exact (settings : RegistrySettings) (platform : PlatformReadings)
    (ops : List Operation) (hauth : Operation.AuthenticAll settings platform ops []) :
    ExactTotals settings platform ops where
  histogram := by
    intro r a ha hkind values hgiven
    have hshows := shows_afterRun hauth ha (.inl hkind)
    rw [hgiven] at hshows
    exact ⟨_, Totals.of_numbers values, hshows⟩
  timer := by
    intro r a ha hkind elapsed hgiven
    have hshows := shows_afterRun hauth ha (.inr hkind)
    rw [hgiven] at hshows
    exact ⟨_, Totals.of_durations elapsed, hshows⟩
  negative := by
    intro a value d hneg
    cases value with
    | ofNat raw => exact absurd hneg (Int.not_lt.mpr (Int.natCast_nonneg raw))
    | negSucc n => rfl
  unordered := by
    intro settings' platform' ops' hauth' r a ha hkind r' a' ha' hkind' hgiven
    have hshows := shows_afterRun hauth' ha' hkind'
    rw [← Totals.of_perm (hgiven.filterMap Given.raw?)] at hshows
    exact ⟨_, shows_afterRun hauth ha hkind, hshows⟩

/-- The histogram `h` of scope `s`, the first metric of all. -/
def onlyHistogram : Adapter :=
  ⟨0, ⟨"h", ∅⟩, .histogram, ⟨0, ⟨"h", SortedMap.insert ∅ scopeKey "s"⟩, .histogram, [some 0]⟩,
  some 0⟩

/-- The sum passes the largest word, after the scope was dropped and past a negative number. -/
def cappedRun : List Operation :=
  [.openScope "s", .register 0 .histogram (.ofName "h") [], .update onlyHistogram (2 ^ 63 - 1),
    .dropScope "s", .update onlyHistogram (-5), .update onlyHistogram (2 ^ 63 - 1),
    .update onlyHistogram 7]

theorem totals_exact_capped :
    let settings : RegistrySettings := ⟨∅, none, {}, true⟩
    let s := (afterRun settings default cappedRun).store
    Operation.AuthenticAll settings default cappedRun [] ∧ ExactTotals settings default cappedRun ∧
      onlyHistogram.recorded s = 3 ∧ onlyHistogram.total s = 2 ^ 64 - 1 ∧
      ∃ dist, onlyHistogram.distribution? s = some dist ∧ dist.greatest = 2 ^ 63 - 1 := by
  intro settings s
  have hfound : (reached settings default (history settings default (cappedRun.take 2))).metric? 0
      ⟨"h", ∅⟩ = some onlyHistogram := by decide +kernel
  have hheld := held_of_stores (stores_of_metric? hfound)
  have hdropped := hheld.append [.write onlyHistogram (.record (2 ^ 63 - 1)), .dropScope "s"]
  have hcapped := hdropped.append [.write onlyHistogram (.record (2 ^ 63 - 1))]
  have hauth : Operation.AuthenticAll settings default cappedRun [] :=
    ⟨trivial, trivial, ⟨0, hheld⟩, trivial, ⟨0, hdropped⟩, ⟨0, hdropped⟩, ⟨0, hcapped⟩, trivial⟩
  have hexact := totals_exact settings default cappedRun hauth
  obtain ⟨totals, ⟨hcount, htotal, hgreatest⟩, hshows⟩ := hexact.histogram 0 onlyHistogram
    (hcapped.append [.write onlyHistogram (.record 7)]) rfl
    [2 ^ 63 - 1, -5, 2 ^ 63 - 1, 7] (by decide +kernel)
  obtain ⟨dist, hdist, rfl⟩ := hshows.held
  refine ⟨hauth, hexact, hshows.recorded.trans (hcount.trans (by decide)),
    hshows.total.trans ?_, dist, hdist, ?_⟩
  · exact Int.natCast_inj.mp (htotal.trans (by decide))
  · exact Int.natCast_inj.mp (hgreatest.trans (by decide))

end Directory

end Telemetry
