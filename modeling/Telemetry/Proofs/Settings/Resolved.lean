import Telemetry.Proofs.Settings.Entries
import Telemetry.Proofs.Settings.Properties
import Telemetry.Proofs.Settings.Series

/-!
# What a name's settings are like

Of whatever configuration is accepted, the settings that it resolves to for a name are in order and
in range (`settings_in_range`): the percentiles ascend from zero to one, the buckets ascend from
zero on, and default buckets are the 1-2-5 series up to the first number that reaches the maximum. A
value is found for a name only if it was read from an entry (`read_of_find?`), so it is as its
reader leaves it.
-/

namespace Telemetry

open DistributionSettings

/-- Percentiles ascend within `[0, 1]`, buckets from zero on. -/
structure DistributionSpec.InRange (spec : DistributionSpec) : Prop where
  percentiles : Ascending spec.percentiles
  percentilesLeOne : ∀ x ∈ spec.percentiles, x.le (decimal 1 0) = true
  buckets : Ascending spec.buckets

/-- The series up to its first number at or above a maximum; all before that one are below it. -/
def SeriesUpTo (max : Real64) (buckets : List Real64) : Prop :=
  ∃ n < 930, buckets = (List.range (n + 1)).map seriesBound ∧ max.le (seriesBound n) = true ∧
    ∀ i < n, (seriesBound i).lt max = true

variable {c : Config} {s : DistributionSettings} {name : String}

/-- What is found was read. -/
theorem read_of_find? {p : Property} {v : p.Value} (h : ofConfig c = .ok s)
    (hfind : (s.list p).find? name = some v) : ∃ values, p.read values = .ok v := by
  have hparse := (ofConfig_eq_ok.mp h).2.2 p
  obtain ⟨e, he, rfl⟩ := PropertyList.mem_of_find? hfind
  cases htext : c.property p with
  | none =>
    rw [htext] at hparse
    rw [← Except.ok.inj hparse] at he
    exact absurd he List.not_mem_nil
  | some text =>
    rw [htext] at hparse
    obtain ⟨entry, -, hentry⟩ := mem_of_mapM (PropertyList.parse_eq_ok.mp hparse) he
    obtain ⟨-, values, -, -, -, hread, -⟩ := PropertyList.readEntry_eq_ok.mp hentry
    exact ⟨_, hread⟩

instance (l : List Real64) : Decidable (Ascends l) :=
  inferInstanceAs (Decidable (List.Pairwise _ l))

theorem ascending_nil : Ascending [] := ⟨List.Pairwise.nil, fun _ hx => absurd hx List.not_mem_nil⟩

/-- The defaults are in range themselves. -/
theorem defaults_inRange : Ascends defaultPercentiles ∧
    (∀ x ∈ defaultPercentiles, x.NotBelow ∧ x.le (decimal 1 0) = true) ∧
    Ascends defaultTimerBuckets ∧ ∀ x ∈ defaultTimerBuckets, x.NotBelow := by
  decide +kernel

theorem percentilesFor_inRange (h : ofConfig c = .ok s) (name : String) :
    Ascending (s.percentilesFor name) ∧ ∀ x ∈ s.percentilesFor name, x.le (decimal 1 0) = true := by
  unfold percentilesFor
  cases hfind : s.percentiles.find? name with
  | none =>
    obtain ⟨hascends, hrange, -⟩ := defaults_inRange
    exact ⟨⟨hascends, fun x hx => (hrange x hx).1⟩, fun x hx => (hrange x hx).2⟩
  | some v =>
    obtain ⟨values, hread⟩ := read_of_find? (p := .percentiles) h hfind
    exact readPercentiles_ok hread

/-- The maximum that default buckets reach is on the line. -/
theorem place?_maximum (h : ofConfig c = .ok s) (name : String) :
    ((s.histogramMax.find? name).getD defaultHistogramMax).place? ≠ none := by
  cases hfind : s.histogramMax.find? name with
  | none =>
    rw [Option.getD_none, defaultHistogramMax]
    exact (notBelow_decimal 10000 0).place?
  | some v =>
    obtain ⟨values, hread⟩ := read_of_find? (p := .histogramMax) h hfind
    exact (notBelow_of_readNumber hread).place?

theorem ascending_histogram (h : ofConfig c = .ok s) (name : String) :
    Ascending (s.histogram name).buckets := by
  show Ascending ((s.histogramBuckets.find? name).getD _)
  cases hfind : s.histogramBuckets.find? name with
  | none =>
    show Ascending (if s.bucketsEnabled name then _ else [])
    split
    · exact ascending_defaultHistogramBuckets (place?_maximum h name)
    · exact ascending_nil
  | some v =>
    obtain ⟨values, hread⟩ := read_of_find? (p := .histogramBuckets) h hfind
    exact readNumbers_ok hread

theorem ascending_timer (h : ofConfig c = .ok s) (name : String) :
    Ascending (s.timer name).buckets := by
  show Ascending ((s.timerBuckets.find? name).getD _)
  cases hfind : s.timerBuckets.find? name with
  | none =>
    show Ascending (if s.bucketsEnabled name then _ else [])
    split
    · exact ⟨defaults_inRange.2.2.1, defaults_inRange.2.2.2⟩
    · exact ascending_nil
  | some v =>
    obtain ⟨values, hread⟩ := read_of_find? (p := .timerBuckets) h hfind
    exact readDurations_ok hread

/-- **Settings are in order and in range**, those of a histogram and those of a timer; where default
buckets count for a histogram, they are the series up to its maximum. -/
theorem settings_in_range (h : ofConfig c = .ok s) (name : String) :
    (s.histogram name).InRange ∧ (s.timer name).InRange ∧
      (s.histogramBuckets.find? name = none → s.bucketsEnabled name = true →
        SeriesUpTo ((s.histogram name).maxValue.getD defaultHistogramMax)
          (s.histogram name).buckets) := by
  obtain ⟨hpercentiles, hone⟩ := percentilesFor_inRange h name
  refine ⟨⟨hpercentiles, hone, ascending_histogram h name⟩,
    ⟨hpercentiles, hone, ascending_timer h name⟩, fun hnone henabled => ?_⟩
  have hbuckets : (s.histogram name).buckets =
      defaultHistogramBuckets ((s.histogramMax.find? name).getD defaultHistogramMax) := by
    unfold histogram
    simp only [hnone, henabled, if_true, Option.getD_none]
  rw [hbuckets]
  exact defaultHistogramBuckets_eq (place?_maximum h name)

/-- Repeats, zeros of both signs and two spellings of one number in one list, the default buckets in
use for another name. -/
theorem settings_in_range_requests : ∃ s, ofConfig {
      percentiles := some "*=0.5", histogramBuckets := some "jobs=5, 1,1.0,-0,0"
      timerBuckets := some "*=1s,1000ms"
      defaultBuckets := some "http.*=true", histogramMax := some "http.*=7e307" } = .ok s ∧
    (s.histogram "jobs").InRange ∧ (s.timer "jobs").InRange ∧
    (s.histogram "http.requests").InRange ∧
      SeriesUpTo ((s.histogram "http.requests").maxValue.getD defaultHistogramMax)
        (s.histogram "http.requests").buckets := by
  generalize hc : ({
    percentiles := some "*=0.5", histogramBuckets := some "jobs=5, 1,1.0,-0,0"
    timerBuckets := some "*=1s,1000ms"
    defaultBuckets := some "http.*=true", histogramMax := some "http.*=7e307" } : Config) = c
  have hread : ((ofConfig c).toOption.map fun s =>
      ((s.histogramBuckets.find? "http.requests").isNone, s.bucketsEnabled "http.requests")) =
        some (true, true) := by
    rw [← hc]
    decide +kernel
  cases h : ofConfig c with
  | error e =>
    rw [h] at hread
    cases hread
  | ok s =>
    rw [h] at hread
    obtain ⟨hnone, henabled⟩ := Prod.mk.inj (Option.some.inj hread)
    obtain ⟨hjobs, hjobsTimer, -⟩ := settings_in_range h "jobs"
    obtain ⟨hrequests, -, hdefault⟩ := settings_in_range h "http.requests"
    exact ⟨s, rfl, hjobs, hjobsTimer, hrequests,
      hdefault (Option.isNone_iff_eq_none.mp hnone) henabled⟩

end Telemetry
