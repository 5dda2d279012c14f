import Mathlib.Data.Nat.Log
import Telemetry.Proofs.Directory.Refusals
import Telemetry.Proofs.Distribution.Counts
import Telemetry.Proofs.History.Updates
import Telemetry.Proofs.Settings.Properties

/-!
# When a distribution can be created

The counts of a distribution are laid out from its least value on, with as many bits as its digits
take. With at most five digits that fails when the least value is above half of the words, and when
its logarithm and the bits exceed 63, and for no other reason; the maximum does not count, and no
bound is passed on the way (`creation`). The logarithm is the one in double precision: it is above
the whole one for some values just below a power of two, so there a layout that would fit is refused
(`refused_below_limit`).

Of a histogram or a timer the settings alone say whether its distribution can be created, so all
first registrations of a name are refused for it or none is (`creationAnswer`).
**`creation_limits`** puts both together.
-/

namespace Telemetry

/-- The bits for `n` are those of the least power of two from `n` on. -/
theorem Layout.bitsFor_eq_clog {n : Nat} (hn : 2 ≤ n) : Layout.bitsFor n = Nat.clog 2 n := by
  refine Nat.le_antisymm ?_
    ((Nat.clog_le_iff_le_pow (by decide)).mpr (le_two_pow_bitsFor (by omega)))
  have hlog : 2 ^ (n - 1).log2 < n :=
    Nat.lt_of_le_of_lt (Nat.log2_self_le (by omega)) (by omega)
  exact (Nat.lt_clog_iff_pow_lt (by decide)).mpr hlog

/-- How often the width doubles is bounded by the words' length. -/
theorem Layout.doublings_le (high fuel limit : Nat) : doublings high fuel limit ≤ fuel + 1 := by
  induction fuel generalizing limit with
  | zero => exact Nat.le_refl 1
  | succ fuel ih =>
    unfold doublings
    have := ih (2 * limit)
    split
    · split <;> omega
    · omega

/-- A word is not rounded above the next power of two. -/
theorem Binary.roundWord_ofNat_le {n : Nat} (h : n ≠ 0) (hn : n ≤ wordMax) :
    (ofNat .binary64 n).roundWord ≤ 2 ^ (n.log2 + 1) := by
  have hlog : n.log2 < 64 := (Nat.log2_lt h).mpr (Nat.lt_of_le_of_lt hn (by decide))
  generalize hf : Format.binary64 = f
  have hwide : n.log2 + 1 + f.fraction < f.width := by
    subst hf
    show n.log2 + 1 + 1074 < 2098
    omega
  have hpower : 2 ^ f.spacing (2 ^ (n.log2 + 1 + f.fraction)) ∣ 2 ^ (n.log2 + 1 + f.fraction) := by
    refine Nat.pow_dvd_pow 2 ?_
    have := f.spacing_le_log2 (2 ^ (n.log2 + 1 + f.fraction))
    rwa [Nat.log2_two_pow] at this
  have hround : f.round (n * 2 ^ f.fraction) 1 ≤ 2 ^ (n.log2 + 1) * 2 ^ f.fraction := by
    rw [← Nat.pow_add]
    refine Format.round_le Nat.one_pos hpower ?_
    rw [Nat.mul_one, Nat.pow_add]
    exact Nat.mul_le_mul_right _ (Nat.le_of_lt Nat.lt_log2_self)
  have hfinite : f.round (n * 2 ^ f.fraction) 1 < 2 ^ f.width := by
    refine Nat.lt_of_le_of_lt hround ?_
    rw [← Nat.pow_add]
    exact Nat.pow_lt_pow_right (by decide) hwide
  unfold ofNat ofRatio
  rw [dif_pos hfinite]
  refine Nat.le_trans (Nat.min_le_left _ _) ?_
  rw [← Nat.lt_succ_iff, Nat.div_lt_iff_lt_mul (Nat.two_pow_pos _), Nat.pow_succ' (n := f.fraction)]
  have hpos : 0 < 2 ^ f.fraction := Nat.two_pow_pos _
  have hexpand : (2 ^ (n.log2 + 1) + 1) * (2 * 2 ^ f.fraction) =
      2 * (2 ^ (n.log2 + 1) * 2 ^ f.fraction) + 2 * 2 ^ f.fraction := by
    rw [Nat.add_mul, Nat.one_mul, Nat.mul_left_comm]
  rw [Nat.succ_eq_add_one, hexpand]
  show 2 * f.round (n * 2 ^ f.fraction) 1 + 2 ^ f.fraction < _
  omega

/-- The logarithm in double precision is at most one above the whole one. -/
theorem wholeLog2_le {n : Nat} (h : n ≠ 0) (hn : n ≤ wordMax) : wholeLog2 n ≤ n.log2 + 1 := by
  have hle := Binary.roundWord_ofNat_le h hn
  have hpos : (Binary.ofNat .binary64 n).roundWord ≠ 0 :=
    Nat.ne_of_gt (Nat.lt_of_lt_of_le (Nat.two_pow_pos _) (Binary.two_pow_log2_le_roundWord h hn))
  unfold wholeLog2
  simp only
  generalize (Binary.ofNat .binary64 n).roundWord = x at hle hpos
  split
  · rename_i hclose
    -- a power of two itself is not close below the next one
    have hlt : x < 2 ^ (n.log2 + 1) := by
      refine Nat.lt_of_le_of_ne hle ?_
      rintro rfl
      have hp : 0 < 2 ^ (n.log2 + 1) := Nat.two_pow_pos _
      have hgap : 2 ^ (n.log2 + 1 + 1) - 2 ^ (n.log2 + 1) = 2 ^ (n.log2 + 1) := by
        rw [Nat.pow_succ' (n := n.log2 + 1)]
        omega
      rw [Nat.log2_two_pow, hgap, Nat.pow_succ' (n := n.log2 + 1),
        show 2 ^ Format.binary64.digits = 2 ^ 53 from rfl] at hclose
      omega
    exact (Nat.log2_lt hpos).mpr hlt
  · have hlog : x.log2 < n.log2 + 2 :=
      (Nat.log2_lt hpos).mpr
        (Nat.lt_of_le_of_lt hle (Nat.pow_lt_pow_right (by decide) (Nat.lt_succ_self _)))
    omega

namespace Distribution

variable {spec : DistributionSpec} {scale : Real64} {fault : LayoutFault}

/-! ## One distribution -/

theorem lowOf_pos (spec : DistributionSpec) (scale : Real64) : 1 ≤ lowOf spec scale :=
  Nat.le_max_left 1 _

theorem lowOf_le (spec : DistributionSpec) (scale : Real64) : lowOf spec scale ≤ wordMax := by
  unfold lowOf
  refine Nat.max_le.mpr ⟨by decide, ?_⟩
  cases spec.minValue with
  | none => exact (by decide : 1 ≤ wordMax)
  | some v =>
    rw [Option.map_some, Option.getD_some]
    exact Binary.toWord_le _

theorem create_eq_error : create spec scale = .error fault ↔
    Layout.of (lowOf spec scale) (highOf spec scale) spec.precision = .error fault := by
  unfold create
  exact map_eq_error

/-- The bits that the digits take. -/
def digitBits (spec : DistributionSpec) : Nat := Nat.clog 2 (2 * 10 ^ spec.precision)

/-- What decides whether a distribution can be created, and that nothing else does. -/
structure Creation (spec : DistributionSpec) (scale : Real64) : Prop where
  created : (∃ d, create spec scale = .ok d) ↔
    lowOf spec scale ≤ 2 ^ 63 - 1 ∧ wholeLog2 (lowOf spec scale) + digitBits spec ≤ 63
  lowExceedsMax : create spec scale = .error .lowExceedsMax ↔ 2 ^ 63 - 1 < lowOf spec scale
  digitsBeyondLow : create spec scale = .error .digitsBeyondLow ↔
    lowOf spec scale ≤ 2 ^ 63 - 1 ∧ 63 < wholeLog2 (lowOf spec scale) + digitBits spec
  digitsExceedMax : create spec scale ≠ .error .digitsExceedMax
  /-- The maximum does not count. -/
  maximum : ∀ max : Option Real64, (create { spec with maxValue := max } scale).map (fun _ => ()) =
    (create spec scale).map fun _ => ()
  /-- The whole logarithm says the same, but where the sum is 63 and the double is above it, -/
  whole : ((∃ d, create spec scale = .ok d) ↔
      lowOf spec scale ≤ 2 ^ 63 - 1 ∧ (lowOf spec scale).log2 + digitBits spec ≤ 63) ↔
    ¬ ((lowOf spec scale).log2 + digitBits spec = 63 ∧
      wholeLog2 (lowOf spec scale) ≠ (lowOf spec scale).log2)
  /-- which it is for large values only. -/
  small : lowOf spec scale < 2 ^ 48 → wholeLog2 (lowOf spec scale) = (lowOf spec scale).log2
  /-- The bounds are words, the least one is not zero, the greatest one not below twice the least
  one. -/
  bounds : 1 ≤ lowOf spec scale ∧ highOf spec scale ≤ wordMax ∧
    (lowOf spec scale ≤ 2 ^ 63 - 1 → 2 * lowOf spec scale ≤ highOf spec scale)
  /-- The narrowest slots are within a word, and the slots are few. -/
  slots : ∀ d, create spec scale = .ok d →
    d.slots.layout.unitBits + d.slots.layout.subBits ≤ 63 ∧ d.slots.layout.slots ≤ 66 * 2 ^ 17

theorem bitsFor_digits (spec : DistributionSpec) :
    Layout.bitsFor (2 * 10 ^ spec.precision) = digitBits spec := by
  have hten : 1 ≤ 10 ^ spec.precision := Nat.one_le_pow _ _ (by decide)
  exact Layout.bitsFor_eq_clog (by omega)

/-- With at most five digits a layout meets two limits, whatever the greatest value is. -/
theorem layout_eq (hdigits : spec.precision ≤ 5) (scale : Real64) (high : Nat) :
    Layout.of (lowOf spec scale) high spec.precision =
      if 2 ^ 63 - 1 < lowOf spec scale then .error .lowExceedsMax
      else if 63 < wholeLog2 (lowOf spec scale) + digitBits spec then .error .digitsBeyondLow
      else .ok ⟨high, wholeLog2 (lowOf spec scale), digitBits spec,
        (Layout.doublings high 64 (2 ^ (digitBits spec + wholeLog2 (lowOf spec scale))) + 1) *
          2 ^ (digitBits spec - 1)⟩ := by
  have hhalf : wordMax / 2 = 2 ^ 63 - 1 := by decide
  unfold Layout.of
  simp only [bitsFor_digits, hhalf, if_neg (Nat.not_lt.mpr hdigits)]

/-- All that the creation of a distribution can come to. -/
theorem create_cases (hdigits : spec.precision ≤ 5) (scale : Real64) :
    (2 ^ 63 - 1 < lowOf spec scale ∧ create spec scale = .error .lowExceedsMax) ∨
      (lowOf spec scale ≤ 2 ^ 63 - 1 ∧ 63 < wholeLog2 (lowOf spec scale) + digitBits spec ∧
        create spec scale = .error .digitsBeyondLow) ∨
      (lowOf spec scale ≤ 2 ^ 63 - 1 ∧ wholeLog2 (lowOf spec scale) + digitBits spec ≤ 63 ∧
        ∃ d, create spec scale = .ok d) := by
  unfold create
  rw [layout_eq hdigits]
  split
  · exact .inl ⟨‹_›, rfl⟩
  · split
    · exact .inr (.inl ⟨Nat.not_lt.mp ‹_›, ‹_›, rfl⟩)
    · exact .inr (.inr ⟨Nat.not_lt.mp ‹_›, Nat.not_lt.mp ‹_›, _, rfl⟩)

theorem created_iff (hdigits : spec.precision ≤ 5) : (∃ d, create spec scale = .ok d) ↔
    lowOf spec scale ≤ 2 ^ 63 - 1 ∧ wholeLog2 (lowOf spec scale) + digitBits spec ≤ 63 := by
  rcases create_cases hdigits scale with ⟨hlow, herror⟩ | ⟨hlow, hsum, herror⟩ | ⟨hlow, hsum, hok⟩
  · refine ⟨fun ⟨d, hd⟩ => ?_, fun h => absurd h.1 (by omega)⟩
    rw [herror] at hd
    cases hd
  · refine ⟨fun ⟨d, hd⟩ => ?_, fun h => absurd h.2 (by omega)⟩
    rw [herror] at hd
    cases hd
  · exact ⟨fun _ => ⟨hlow, hsum⟩, fun _ => hok⟩

/-- Where the two logarithms differ, that counts only at the limit. -/
theorem created_iff_whole (hdigits : spec.precision ≤ 5) : ((∃ d, create spec scale = .ok d) ↔
      lowOf spec scale ≤ 2 ^ 63 - 1 ∧ (lowOf spec scale).log2 + digitBits spec ≤ 63) ↔
    ¬ ((lowOf spec scale).log2 + digitBits spec = 63 ∧
      wholeLog2 (lowOf spec scale) ≠ (lowOf spec scale).log2) := by
  have hlow := Nat.ne_of_gt (lowOf_pos spec scale)
  have hbelow := log2_le_wholeLog2 hlow (lowOf_le spec scale)
  have habove := wholeLog2_le hlow (lowOf_le spec scale)
  have hbits : 1 ≤ digitBits spec := bitsFor_digits spec ▸ Nat.succ_le_succ (Nat.zero_le _)
  have hlarge : 2 ^ 63 - 1 < lowOf spec scale → 63 ≤ (lowOf spec scale).log2 := fun h =>
    (Nat.le_log2 hlow).mpr (by omega)
  rw [created_iff hdigits]
  omega

theorem slots_of_create (hdigits : spec.precision ≤ 5) {d : Distribution}
    (hd : create spec scale = .ok d) :
    d.slots.layout.unitBits + d.slots.layout.subBits ≤ 63 ∧ d.slots.layout.slots ≤ 66 * 2 ^ 17 := by
  obtain ⟨l, hl, rfl⟩ := create_ok hd
  obtain ⟨-, -, -, hunit, hsub, hbits, hslots⟩ := Layout.of_ok hl
  refine ⟨hbits, ?_⟩
  have hsub' : l.subBits ≤ 18 := by
    rw [hsub, bitsFor_digits]
    refine Nat.clog_le_of_le_pow
      (Nat.le_trans (Nat.mul_le_mul_left 2 ?_) (by decide : 2 * 10 ^ 5 ≤ 2 ^ 18))
    exact Nat.pow_le_pow_right (by decide) hdigits
  have hdepth : l.depth ≤ 65 := Layout.doublings_le _ _ _
  show l.slots ≤ 66 * 2 ^ 17
  rw [hslots]
  exact Nat.mul_le_mul (by omega) (Nat.pow_le_pow_right (by decide) (by omega))

/-- **What decides whether a distribution can be created.** -/
theorem creation (hdigits : spec.precision ≤ 5) (scale : Real64) : Creation spec scale := by
  have hword : wordMax = 2 ^ 64 - 1 := rfl
  refine
    { created := created_iff hdigits
      lowExceedsMax := ?lowExceedsMax
      digitsBeyondLow := ?digitsBeyondLow
      digitsExceedMax := ?digitsExceedMax
      maximum := ?maximum
      whole := created_iff_whole hdigits
      small := wholeLog2_of_lt
      bounds := ⟨lowOf_pos spec scale, highOf_le _ _, fun h => two_mul_lowOf_le_highOf (by omega)⟩
      slots := fun _ hd => slots_of_create hdigits hd }
  case lowExceedsMax =>
    rcases create_cases hdigits scale with ⟨hlow, herror⟩ | ⟨hlow, -, herror⟩ | ⟨hlow, -, d, hd⟩
    · exact ⟨fun _ => hlow, fun _ => herror⟩
    · exact ⟨fun h => (by rw [herror] at h; cases h), fun h => absurd h (by omega)⟩
    · exact ⟨fun h => (by rw [hd] at h; cases h), fun h => absurd h (by omega)⟩
  case digitsBeyondLow =>
    rcases create_cases hdigits scale with ⟨hlow, herror⟩ | ⟨hlow, hsum, herror⟩
      | ⟨hlow, hsum, d, hd⟩
    · exact ⟨fun h => (by rw [herror] at h; cases h), fun h => absurd h.1 (by omega)⟩
    · exact ⟨fun _ => ⟨hlow, hsum⟩, fun _ => herror⟩
    · exact ⟨fun h => (by rw [hd] at h; cases h), fun h => absurd h.2 (by omega)⟩
  case digitsExceedMax =>
    intro h
    rcases create_cases hdigits scale with ⟨-, herror⟩ | ⟨-, -, herror⟩ | ⟨-, -, d, hd⟩
    · rw [herror] at h
      cases h
    · rw [herror] at h
      cases h
    · rw [hd] at h
      cases h
  case maximum =>
    intro max
    have hsame : lowOf { spec with maxValue := max } scale = lowOf spec scale := rfl
    unfold create
    rw [hsame, layout_eq hdigits, layout_eq hdigits]
    split
    · rfl
    · split <;> rfl

end Distribution

/-! ## First registrations -/

/-- Nothing stands against the registration of a new metric but its distribution. -/
structure FirstRegistration (settings : RegistrySettings) (g : Registry) (metadata : Metadata)
    (tags : List Tag) (q : MetricRequest) : Prop where
  named : metadata.name ≠ ""
  scope : ∀ value, givenScope? tags = some value → value = g.scope
  current : g.dropped = false
  kind : ∀ id a, g.metrics.get? id = some a → id.name = metadata.name → a.kind = q.kind
  new : ∃ id, g.metricId settings metadata.name tags = .ok id ∧ g.metrics.get? id = none

/-- A histogram's or a timer's distribution is the one that the settings have for its kind and
name. -/
theorem MetricRequest.initial_eq_error {q : MetricRequest}
    (hq : q.kind = .histogram ∨ q.kind = .timer) {settings : RegistrySettings} {name : String}
    {fault : LayoutFault} :
    (q.spec settings name).initial = .error fault ↔
      settings.emptyDistribution q.kind name = .error fault := by
  cases q with
  | counter => exact absurd hq (by decide)
  | gauge sampler => exact absurd hq nofun
  | histogram => exact map_eq_error
  | timer => exact map_eq_error

namespace Directory

/-- What the registration of a histogram or a timer makes of its distribution. -/
structure CreationAnswer (settings : RegistrySettings) (g : Registry) (metadata : Metadata)
    (tags : List Tag) (q : MetricRequest) (answer : Outcome Adapter) : Prop where
  /-- It is refused for it when it is the first one and the settings have none for the kind and the
  name, -/
  refused : ∀ name fault, answer = .error (.distribution name fault) ↔ name = metadata.name ∧
    FirstRegistration settings g metadata tags q ∧
    settings.emptyDistribution q.kind name = .error fault
  /-- and when the settings have one, a first registration succeeds. -/
  accepted : FirstRegistration settings g metadata tags q →
    ((∃ a, answer = .ok a) ↔ ∃ d, settings.emptyDistribution q.kind metadata.name = .ok d)

/-- **The settings alone say whether a distribution can be created**, after every run. -/
theorem creationAnswer (settings : RegistrySettings) (platform : PlatformReadings)
    (ops : List Operation) (r : RegistryRef) (g : Registry)
    (hr : registry? (afterRun settings platform ops) r = some g) (metadata : Metadata)
    (tags : List Tag) (q : MetricRequest) (hq : q.kind = .histogram ∨ q.kind = .timer) :
    CreationAnswer settings g metadata tags q
      (request (afterRun settings platform ops) r metadata tags q).1 := by
  have h : (afterRun settings platform ops).Coherent := coherent_afterRun settings platform ops
  have hsettings : (afterRun settings platform ops).settings = settings := by
    rw [afterRun_eq_reached]
    exact settings_reached _
  have hiff : ∀ e, (request (afterRun settings platform ops) r metadata tags q).1 = .error e ↔
      Refusal settings g metadata tags q e := fun e => by
    rw [request_error_iff h hr, hsettings]
  constructor
  · intro name fault
    rw [hiff]
    constructor
    · intro hrefusal
      cases hrefusal with
      | distribution hname htag hdrop hkind hid hnew hfault =>
        exact ⟨rfl, ⟨hname, htag, hdrop, hkind, _, hid, hnew⟩,
          (MetricRequest.initial_eq_error hq).mp hfault⟩
    · rintro ⟨rfl, hfirst, hfault⟩
      obtain ⟨id, hid, hnew⟩ := hfirst.new
      exact .distribution hfirst.named hfirst.scope hfirst.current hfirst.kind hid hnew
        ((MetricRequest.initial_eq_error hq).mpr hfault)
  · intro hfirst
    constructor
    · rintro ⟨a, ha⟩
      cases hempty : settings.emptyDistribution q.kind metadata.name with
      | ok d => exact ⟨d, rfl⟩
      | error fault =>
        obtain ⟨id, hid, hnew⟩ := hfirst.new
        have herror :=
          (hiff _).mpr
            (.distribution hfirst.named hfirst.scope hfirst.current hfirst.kind hid hnew
            ((MetricRequest.initial_eq_error hq).mpr hempty))
        rw [ha] at herror
        cases herror
    · rintro ⟨d, hd⟩
      cases hanswer : (request (afterRun settings platform ops) r metadata tags q).1 with
      | ok a => exact ⟨a, rfl⟩
      | error e =>
        cases (hiff e).mp hanswer with
        | emptyName hname => exact absurd hname hfirst.named
        | reservedTag _ htag hvalue => exact absurd (hfirst.scope _ htag) hvalue
        | scopeDropped _ _ hdrop =>
          rw [hfirst.current] at hdrop
          cases hdrop
        | kindConflict _ _ _ ha hid hkind => exact absurd (hfirst.kind _ _ ha hid) hkind
        | distribution _ _ _ _ _ _ hfault =>
          rw [(MetricRequest.initial_eq_error hq).mp hfault] at hd
          cases hd

end Directory

theorem RegistrySettings.distribution_of_ofConfig {c : Config} {settings : RegistrySettings}
    (h : RegistrySettings.ofConfig c = .ok settings) :
    DistributionSettings.ofConfig c = .ok settings.distribution := by
  unfold RegistrySettings.ofConfig at h
  simp only at h
  split at h
  all_goals
    obtain ⟨tags, -, h⟩ := bind_eq_ok.mp h
    obtain ⟨distribution, hdistribution, h⟩ := bind_eq_ok.mp h
    rw [hdistribution, ← Except.ok.inj h]

/-- **The limits of creation.** With at most five digits a distribution can be created or not as
`Creation` says. An accepted configuration has at most five for every name; and after every run
under it, for each kind and name that has distributions, either every first registration is refused
for its distribution or none is, whatever the registry, the metadata and the tags. -/
theorem creation_limits (spec : DistributionSpec) (scale : Real64)
    (hdigits : spec.precision ≤ 5) (c : Config) (settings : RegistrySettings)
    (hsettings : RegistrySettings.ofConfig c = .ok settings) :
    Distribution.Creation spec scale ∧
      (∀ name, (settings.distribution.histogram name).precision ≤ 5 ∧
        (settings.distribution.timer name).precision ≤ 5) ∧
      ∀ (platform : PlatformReadings) (ops : List Operation) (r : RegistryRef) (g : Registry),
        Directory.registry? (Directory.afterRun settings platform ops) r = some g →
        ∀ (metadata : Metadata) (tags : List Tag) (q : MetricRequest),
          q.kind = .histogram ∨ q.kind = .timer →
          Directory.CreationAnswer settings g metadata tags q
            (Directory.request (Directory.afterRun settings platform ops) r metadata tags q).1 := by
  refine ⟨Distribution.creation hdigits scale, fun name => ?_,
    fun platform ops r g hr metadata tags q hq =>
      Directory.creationAnswer settings platform ops r g hr metadata tags q hq⟩
  obtain ⟨hconfigured, hprecision, -⟩ :=
    DistributionSettings.ofConfig_eq_ok.mp (RegistrySettings.distribution_of_ofConfig hsettings)
  have hsame : settings.distribution.precision ≤ 5 := hprecision ▸ hconfigured
  exact ⟨hsame, hsame⟩

/-- A histogram whose least value is configured above the words cannot be registered, a timer of the
name can. -/
theorem creation_limits_large :
    let settings : RegistrySettings :=
      ⟨∅, none, { histogramMin := [(.exactly "large".toList, decimal 1 19)] }, true⟩
    let spec := settings.distribution.histogram "large"
    let d := Directory.afterRun settings default [.openScope "s"]
    RegistrySettings.ofConfig { histogramMin := some "large=1e19" } = .ok settings ∧
      spec.precision ≤ 5 ∧ Distribution.create spec (.ofNat _ 1) = .error .lowExceedsMax ∧
      (d.request 0 ⟨"large", none, none⟩ [] .histogram).1 =
      .error (.distribution "large" .lowExceedsMax) ∧
      ∃ a, (d.request 0 ⟨"large", none, none⟩ [] .timer).1 = .ok a := by
  intro settings spec d
  have hsettings :
      RegistrySettings.ofConfig { histogramMin := some "large=1e19" } = .ok settings := by
    have hread :
        (RegistrySettings.ofConfig { histogramMin := some "large=1e19" }).toOption =
        some settings := by
      decide +kernel
    cases h : RegistrySettings.ofConfig { histogramMin := some "large=1e19" } with
    | error e =>
      rw [h] at hread
      cases hread
    | ok settings' =>
      rw [h] at hread
      exact congrArg Except.ok (Option.some.inj hread)
  have hdigits : spec.precision ≤ 5 := by decide
  obtain ⟨hcreation, -, hlimits⟩ := creation_limits spec (.ofNat _ 1) hdigits _ settings hsettings
  have hlarge : Distribution.create spec (.ofNat _ 1) = .error .lowExceedsMax :=
    hcreation.lowExceedsMax.mpr (by decide +kernel)
  obtain ⟨g, hr, hcurrent, hmetrics⟩ : ∃ g, d.registry? 0 = some g ∧ g.dropped = false ∧
    g.metrics = ∅ := ⟨_, rfl, rfl, rfl⟩
  have hfirst : ∀ q, FirstRegistration settings g ⟨"large", none, none⟩ [] q := fun q =>
    { named := by decide
      scope := nofun
      current := hcurrent
      kind := fun id a ha => by rw [hmetrics] at ha; cases ha
      new := ⟨_, rfl, by rw [hmetrics]; rfl⟩ }
  have hanswer := hlimits default [.openScope "s"] 0 g hr ⟨"large", none, none⟩ []
  refine ⟨hsettings, hdigits, hlarge,
    ((hanswer .histogram (.inl rfl)).refused _ _).mpr ⟨rfl, hfirst _, hlarge⟩,
    ((hanswer .timer (.inr rfl)).accepted (hfirst _)).mpr ?_⟩
  obtain ⟨empty, hempty, -⟩ : ∃ empty,
      Distribution.create (settings.distribution.timer "large") Meter.nanosScale = .ok empty ∧
        empty.count = 0 := Distribution.exists_of_create (by decide +kernel)
  exact ⟨empty, hempty⟩

namespace Distribution

/-- From just below `2 ^ 53` on, with three digits. -/
def belowLimit : DistributionSpec :=
  ⟨defaultPercentiles, [], some (decimal 9007199254740991 0), none, 3⟩

/-- The whole logarithm and the bits of the digits make 63, and the distribution is refused. -/
theorem refused_below_limit :
    belowLimit.precision ≤ 5 ∧ lowOf belowLimit (.ofNat _ 1) = 2 ^ 53 - 1 ∧
    create belowLimit (.ofNat _ 1) = .error .digitsBeyondLow ∧
    ¬ ((∃ d, create belowLimit (.ofNat _ 1) = .ok d) ↔
      lowOf belowLimit (.ofNat _ 1) ≤ 2 ^ 63 - 1 ∧
      (lowOf belowLimit (.ofNat _ 1)).log2 + Nat.clog 2 (2 * 10 ^ belowLimit.precision)
        ≤ 63) := by
  have hlow : lowOf belowLimit (.ofNat _ 1) = 2 ^ 53 - 1 := by decide +kernel
  have hrefused : create belowLimit (.ofNat _ 1) = .error .digitsBeyondLow := by
    rw [create_eq_error]
    decide +kernel
  refine ⟨by decide, hlow, hrefused, fun h => ?_⟩
  obtain ⟨d, hd⟩ := h.mpr (by rw [hlow]; decide +kernel)
  rw [hrefused] at hd
  cases hd

end Distribution

end Telemetry
