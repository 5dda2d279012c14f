import Telemetry.Distribution.Spec
import Telemetry.Proofs.Outcomes

/-!
# Settings by property

The eight properties of a configuration are read alike: each has its own kind of value
(`Property.Value`) and its own way to read one (`Property.read`). A configuration is accepted when
its precision is and every property's text is (`ofConfig_eq_ok`), and the settings hold what each
text parses to.
-/

namespace Telemetry

/-- What an entry of a property gives to the names it is for. -/
def Property.Value : Property → Type
  | .percentiles | .histogramBuckets | .timerBuckets => List Real64
  | .defaultBuckets => Bool
  | .histogramMin | .histogramMax | .timerMin | .timerMax => Real64

/-- Read the values of an entry. -/
def Property.read : (p : Property) → List Char → Except EntryFault p.Value
  | .percentiles => readPercentiles
  | .histogramBuckets => readNumbers
  | .timerBuckets => readDurations
  | .defaultBuckets => readBoolean
  | .histogramMin | .histogramMax => readNumber
  | .timerMin | .timerMax => readSeconds

/-- Read the text of a property. -/
def Property.parse (p : Property) (text : Option String) : Outcome (PropertyList p.Value) :=
  PropertyList.parse p p.read text

/-- What the text of a property resolves to for a name: the value of the last entry that covers it,
if any. -/
def Property.resolve (p : Property) (text : Option String) (name : String) :
    Outcome (Option p.Value) :=
  (p.parse text).map fun l => l.find? name

/-- The list that was read for a property. -/
def DistributionSettings.list (s : DistributionSettings) : (p : Property) → PropertyList p.Value
  | .percentiles => s.percentiles
  | .histogramBuckets => s.histogramBuckets
  | .timerBuckets => s.timerBuckets
  | .defaultBuckets => s.defaultBuckets
  | .histogramMin => s.histogramMin
  | .histogramMax => s.histogramMax
  | .timerMin => s.timerMin
  | .timerMax => s.timerMax

/-- The configuration with another text for one property. -/
def Config.withProperty (c : Config) (p : Property) (text : Option String) : Config :=
  match p with
  | .percentiles => { c with percentiles := text }
  | .histogramBuckets => { c with histogramBuckets := text }
  | .timerBuckets => { c with timerBuckets := text }
  | .defaultBuckets => { c with defaultBuckets := text }
  | .histogramMin => { c with histogramMin := text }
  | .histogramMax => { c with histogramMax := text }
  | .timerMin => { c with timerMin := text }
  | .timerMax => { c with timerMax := text }

namespace Config

variable (c : Config) (p : Property) (text : Option String)

@[simp] theorem withProperty_precision : (c.withProperty p text).precision = c.precision := by
  cases p <;> rfl

@[simp] theorem withProperty_self : (c.withProperty p text).property p = text := by
  cases p <;> rfl

variable {p} in
theorem withProperty_of_ne {q : Property} (h : q ≠ p) :
    (c.withProperty p text).property q = c.property q := by
  cases p <;> cases q <;> first | rfl | exact absurd rfl h

end Config

namespace DistributionSettings

variable {c : Config} {s : DistributionSettings} {e : MetricsError}

/-- **A configuration is accepted when its precision and every text are**, and each list is what its
text parses to. -/
theorem ofConfig_eq_ok :
    ofConfig c = .ok s ↔ c.precision ≤ maxPrecision ∧ s.precision = c.precision ∧
    ∀ p : Property, p.parse (c.property p) = .ok (s.list p) := by
  unfold ofConfig
  split
  · rename_i hprecision
    refine ⟨nofun, fun ⟨hle, _⟩ => absurd hle ?_⟩
    exact Nat.not_le.mpr hprecision
  · rename_i hprecision
    simp only [bind_eq_ok]
    constructor
    · rintro ⟨_, h₁, _, h₂, _, h₃, _, h₄, _, h₅, _, h₆, _, h₇, _, h₈, h⟩
      cases h
      refine ⟨Nat.not_lt.mp hprecision, rfl, fun p => ?_⟩
      cases p <;> assumption
    · rintro ⟨-, hs, h⟩
      refine ⟨_, h .percentiles, _, h .histogramBuckets, _, h .timerBuckets, _, h .defaultBuckets,
        _, h .histogramMin, _, h .histogramMax, _, h .timerMin, _, h .timerMax, ?_⟩
      rw [← hs]
      rfl

/-- An error is one of the precision or of a property's text. -/
theorem error_of_ofConfig (hprecision : c.precision ≤ maxPrecision) (h : ofConfig c = .error e) :
    ∃ p : Property, p.parse (c.property p) = .error e := by
  unfold ofConfig at h
  rw [if_neg (Nat.not_lt.mpr hprecision)] at h
  simp only [bind_eq_error] at h
  rcases h with h
    | ⟨_, -, h | ⟨_, -, h | ⟨_, -, h | ⟨_, -, h | ⟨_, -, h | ⟨_, -, h | ⟨_, -, h | ⟨_, -, h⟩⟩⟩⟩⟩⟩⟩⟩
  · exact ⟨.percentiles, h⟩
  · exact ⟨.histogramBuckets, h⟩
  · exact ⟨.timerBuckets, h⟩
  · exact ⟨.defaultBuckets, h⟩
  · exact ⟨.histogramMin, h⟩
  · exact ⟨.histogramMax, h⟩
  · exact ⟨.timerMin, h⟩
  · exact ⟨.timerMax, h⟩
  · cases h

theorem ofConfig_accepts : (∃ s, ofConfig c = .ok s) ↔
    c.precision ≤ maxPrecision ∧ ∀ p : Property, ∃ l, p.parse (c.property p) = .ok l := by
  constructor
  · rintro ⟨s, h⟩
    obtain ⟨hprecision, -, hlists⟩ := ofConfig_eq_ok.mp h
    exact ⟨hprecision, fun p => ⟨s.list p, hlists p⟩⟩
  · rintro ⟨hprecision, hlists⟩
    cases h : ofConfig c with
    | ok s => exact ⟨s, rfl⟩
    | error e =>
      obtain ⟨p, hp⟩ := error_of_ofConfig hprecision h
      obtain ⟨l, hl⟩ := hlists p
      rw [hl] at hp
      cases hp

/-! ## Another text for one property -/

theorem ofConfig_withProperty_accepts {p : Property} {text : Option String} :
    (∃ s, ofConfig (c.withProperty p text) = .ok s) ↔ c.precision ≤ maxPrecision ∧
      (∃ l, p.parse text = .ok l) ∧ ∀ q : Property, q ≠ p →
      ∃ l, q.parse (c.property q) = .ok l := by
  rw [ofConfig_accepts, Config.withProperty_precision]
  refine and_congr_right fun _ => ⟨fun h => ⟨?_, fun q hq => ?_⟩, fun ⟨hp, h⟩ q => ?_⟩
  · have hp := h p
    rwa [Config.withProperty_self] at hp
  · have hq' := h q
    rwa [Config.withProperty_of_ne c text hq] at hq'
  · by_cases hq : q = p
    · subst hq
      rwa [Config.withProperty_self]
    · rw [Config.withProperty_of_ne c text hq]
      exact h q hq

/-- Lists are found in the settings under their property. -/
theorem list_of_withProperty {p : Property} {text : Option String}
    (h : ofConfig (c.withProperty p text) = .ok s) :
    s.precision = c.precision ∧ p.parse text = .ok (s.list p) ∧
      ∀ q, q ≠ p → q.parse (c.property q) = .ok (s.list q) := by
  obtain ⟨-, hprecision, hlists⟩ := ofConfig_eq_ok.mp h
  refine ⟨by rw [hprecision, Config.withProperty_precision], ?_, fun q hq => ?_⟩
  · have hp := hlists p
    rwa [Config.withProperty_self] at hp
  · have hq' := hlists q
    rwa [Config.withProperty_of_ne c text hq] at hq'

/-- With the rest accepted, the configuration is refused as the text of the property is. -/
theorem ofConfig_withProperty_error {p : Property} {text : Option String}
    (hrest : ofConfig (c.withProperty p none) = .ok s) :
    ofConfig (c.withProperty p text) = .error e ↔ p.parse text = .error e := by
  have hprecision : c.precision ≤ maxPrecision := (ofConfig_withProperty_accepts.mp ⟨s, hrest⟩).1
  obtain ⟨-, -, hothers⟩ := list_of_withProperty hrest
  have hfault : ∀ {e'}, ofConfig (c.withProperty p text) = .error e' →
      p.parse text = .error e' := by
    intro e' h
    obtain ⟨q, hq⟩ := error_of_ofConfig (by simpa using hprecision) h
    by_cases hqp : q = p
    · subst hqp
      rwa [Config.withProperty_self] at hq
    · rw [Config.withProperty_of_ne c text hqp, hothers q hqp] at hq
      cases hq
  refine ⟨hfault, fun h => ?_⟩
  cases hall : ofConfig (c.withProperty p text) with
  | error e' => rw [Except.error.inj ((hfault hall).symm.trans h)]
  | ok s' =>
    have hp := (list_of_withProperty hall).2.1
    rw [h] at hp
    cases hp

end DistributionSettings

end Telemetry
