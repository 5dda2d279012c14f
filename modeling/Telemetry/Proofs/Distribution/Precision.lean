import Mathlib.Algebra.Order.Ring.Rat
import Mathlib.Data.Rat.Cast.Order
import Mathlib.Tactic.Linarith
import Telemetry.Proofs.Distribution.Counts

/-!
# How precisely a distribution without a maximum reports

A distribution without a configured maximum is laid out for values up to twice its least one, and
its slots stay as they are: a value past their reach is counted as that highest value.

* `keepsPrecision_reported`: words within reach keep their precision, as many as a double can count.
* `not_keepsPrecision_reported`: words past the reach do not, when one digit or more is to be kept.
* **`precision_kept_iff`**: all recorded values keep their precision at all published quantiles
  exactly when nothing is published or no digit is to be kept.
-/

namespace Telemetry

namespace Distribution

variable {d : Distribution} {spec : DistributionSpec} {scale : Real64}

/-! ## Precision -/

/-- `r` is within the precision of `x`: at most the width of the narrowest slots away, or at most
the configured decimal part of `x`. -/
def KeepsPrecision (spec : DistributionSpec) (scale : Real64) (r x : Nat) : Prop :=
  |(r : ℚ) - x| ≤ max ((2 : ℚ) ^ (lowOf spec scale).log2) ((x : ℚ) / 10 ^ spec.precision)

variable {r x : Nat}

theorem keepsPrecision_iff :
    KeepsPrecision spec scale r x ↔
      (r ≤ x + 2 ^ (lowOf spec scale).log2 ∧ x ≤ r + 2 ^ (lowOf spec scale).log2) ∨
      (r * 10 ^ spec.precision ≤ x * 10 ^ spec.precision + x ∧
        x * 10 ^ spec.precision ≤ r * 10 ^ spec.precision + x) := by
  have hten : (0 : ℚ) < 10 ^ spec.precision := by positivity
  unfold KeepsPrecision
  rw [le_max_iff]
  refine or_congr ?_ ?_
  · rw [abs_sub_le_iff, sub_le_iff_le_add', sub_le_iff_le_add']
    refine and_congr ?_ ?_ <;> norm_cast
  · rw [abs_sub_le_iff, le_div_iff₀ hten, le_div_iff₀ hten, sub_mul, sub_mul, sub_le_iff_le_add',
      sub_le_iff_le_add']
    refine and_congr ?_ ?_ <;> norm_cast

/-- Without a digit to be kept, whatever is at most twice a word is near enough to it. -/
theorem keepsPrecision_of_le (hdigits : spec.precision = 0) (hr : r ≤ x + x) :
    KeepsPrecision spec scale r x := by
  rw [keepsPrecision_iff, hdigits]
  exact .inr ⟨by simpa using hr, by simp⟩

/-- Without a maximum the layout is for up to twice the least value. -/
theorem built_of_no_maximum (hmax : spec.maxValue = none) (h : create spec scale = .ok d) :
    d.slots.layout.Built (lowOf spec scale) (2 * lowOf spec scale) spec.precision := by
  have hbuilt := built_of_create h
  have hhigh : highOf spec scale = saturate (2 * lowOf spec scale) := by
    unfold highOf
    rw [hmax]
  rwa [hhigh, show saturate (2 * lowOf spec scale) = 2 * lowOf spec scale from
    Nat.min_eq_left hbuilt.two_mul_low_le] at hbuilt

section Built

open SlotCounts (valueOf)

variable {l : Layout} {high : Nat} (h : l.Built (lowOf spec scale) high spec.precision)
include h

/-- What stands for the slot of a word is at most the slot's width away. -/
theorem valueOf_slotOf_near (hx : x ≤ wordMax) (q : Real64) :
    x ≤ valueOf l q (l.slotOf x) + l.widthAt x ∧ valueOf l q (l.slotOf x) ≤ x + l.widthAt x := by
  unfold valueOf
  split
  · exact ⟨Nat.le_of_lt (Layout.lt_lowestOf_slotOf h.sub_pos x),
      Nat.le_add_right_of_le (Layout.lowestOf_slotOf_le h.sub_pos x)⟩
  · exact Layout.highestOf_slotOf_near h.sub_pos hx

/-- At quantile zero nothing above the words of a slot stands for it. -/
theorem valueOf_zero_le {q : Real64} (hq : q.same (.zero false) = true) (x : Nat) :
    valueOf l q (l.slotOf x) ≤ x := by
  unfold valueOf
  rw [if_pos hq]
  exact Layout.lowestOf_slotOf_le h.sub_pos x

/-- A word keeps its precision in its own slot. -/
theorem keepsPrecision_slotOf (hlog : wholeLog2 (lowOf spec scale) = (lowOf spec scale).log2)
    (hx : x ≤ wordMax) (q : Real64) : KeepsPrecision spec scale (valueOf l q (l.slotOf x)) x := by
  obtain ⟨hle, hge⟩ := valueOf_slotOf_near h hx q
  rw [keepsPrecision_iff]
  by_cases hk : l.doublingsAt x = 0
  · rw [Layout.widthAt_of_narrow hk, h.unit, hlog] at hle hge
    exact .inl ⟨hge, hle⟩
  · have hwidth := Layout.mul_widthAt_le h.sub_pos h.digits_le hk
    have hle' := Nat.mul_le_mul_right (10 ^ spec.precision) hle
    have hge' := Nat.mul_le_mul_right (10 ^ spec.precision) hge
    rw [Nat.add_mul] at hle' hge'
    exact .inr ⟨by omega, by omega⟩

/-- Where the least value is rounded up to a power of two, the slot of zero is too wide. -/
theorem not_keepsPrecision_zero {q : Real64}
    (hlog : wholeLog2 (lowOf spec scale) ≠ (lowOf spec scale).log2)
    (hzero : q.same (.zero false) = false) :
    ¬ KeepsPrecision spec scale (valueOf l q (l.slotOf 0)) 0 := by
  have hk : l.doublingsAt 0 = 0 := Layout.doublingsAt_of_lt h.sub_pos (Nat.two_pow_pos _)
  have hbits := h.bits
  have hsub := h.sub_pos
  obtain ⟨hunit, hlow⟩ := h.log2_lt_unitBits hlog
  have hpow : 2 ^ ((lowOf spec scale).log2 + 1) ≤ 2 ^ l.unitBits :=
    Nat.pow_le_pow_right (by decide) hunit
  have htwo : 2 ^ 1 ≤ 2 ^ (lowOf spec scale).log2 :=
    Nat.pow_le_pow_right (by decide) (Nat.pos_of_ne_zero hlow)
  have hword : 2 ^ l.unitBits ≤ wordMax :=
    Nat.le_trans (Nat.pow_le_pow_right (by decide) (show l.unitBits ≤ 62 by omega)) (by decide)
  have hvalue : valueOf l q (l.slotOf 0) = 2 ^ l.unitBits - 1 := by
    unfold valueOf
    rw [if_neg (by simp [hzero]), Layout.highestOf_slotOf h.sub_pos,
      Layout.lowestOf_slotOf h.sub_pos, Layout.widthAt_of_narrow hk, Nat.zero_div,
      Nat.zero_mul, Nat.zero_add]
    unfold saturate
    rw [Nat.min_eq_left hword]
  have hten : 0 < 10 ^ spec.precision := Nat.pow_pos (by decide)
  rw [Nat.pow_succ] at hpow
  rw [keepsPrecision_iff, hvalue]
  rintro (⟨hnear, -⟩ | ⟨hnear, -⟩)
  · omega
  · rw [Nat.zero_mul, Nat.zero_add, Nat.le_zero, Nat.mul_eq_zero] at hnear
    omega

end Built

section NoMaximum

open SlotCounts (valueOf)

variable {l : Layout} (h : l.Built (lowOf spec scale) (2 * lowOf spec scale) spec.precision)
include h

/-- What stands for values past the reach is small. -/
theorem valueOf_high_le (hdigits : 1 ≤ spec.precision) (q : Real64) :
    valueOf l q (l.slotOf l.high) ≤ 5 * 2 ^ l.unitBits := by
  have hlow : lowOf spec scale < 2 ^ ((lowOf spec scale).log2 + 1) := Nat.lt_log2_self
  have hpow : 2 ^ ((lowOf spec scale).log2 + 1) ≤ 2 ^ (l.unitBits + 1) :=
    Nat.pow_le_pow_right (by decide) (Nat.succ_le_succ h.log2_le)
  rw [Nat.pow_succ] at hlow hpow
  have hhigh : l.high < 4 * 2 ^ l.unitBits := by
    rw [h.high]
    rw [Nat.pow_succ] at hpow
    omega
  have hreach := h.high_lt
  rw [h.reach_eq hdigits] at hreach
  have hk : l.doublingsAt l.high = 0 := Layout.doublingsAt_of_lt h.sub_pos hreach
  have hword : l.high ≤ wordMax := by
    have hbits : 2 ^ (l.subBits + l.unitBits) ≤ 2 ^ 63 := Nat.pow_le_pow_right (by decide) h.bits
    have : wordMax = 2 ^ 64 - 1 := rfl
    omega
  obtain ⟨-, hnear⟩ := valueOf_slotOf_near h hword q
  rw [Layout.widthAt_of_narrow hk] at hnear
  omega

/-- A value past the reach is far from whatever is small. -/
theorem not_keepsPrecision_of_reach_le (hdigits : 1 ≤ spec.precision) (hx : l.reach ≤ x)
    (hr : r ≤ 5 * 2 ^ l.unitBits) : ¬ KeepsPrecision spec scale r x := by
  have hten : 10 ≤ 10 ^ spec.precision := Nat.le_pow hdigits
  have hunit : 2 ^ (lowOf spec scale).log2 ≤ 2 ^ l.unitBits :=
    Nat.pow_le_pow_right (by decide) h.log2_le
  have hreach : 20 * 2 ^ l.unitBits ≤ x := by
    rw [h.reach_eq hdigits, Nat.pow_add] at hx
    refine Nat.le_trans (Nat.mul_le_mul_right _ ?_) hx
    exact Nat.le_trans (by omega) h.digits_le
  have hpos : 0 < 2 ^ l.unitBits := Nat.two_pow_pos _
  rw [keepsPrecision_iff]
  rintro (⟨-, hnear⟩ | ⟨-, hnear⟩)
  · omega
  · -- a tenth of the value does not cover the distance
    obtain ⟨gap, rfl⟩ := Nat.exists_eq_add_of_le (show r ≤ x by omega)
    have hgap : 15 * 2 ^ l.unitBits ≤ gap := by omega
    have hmul : gap * 10 ≤ gap * 10 ^ spec.precision := Nat.mul_le_mul_left _ hten
    rw [Nat.add_mul] at hnear
    omega

/-- Without a digit to be kept every word is near enough to what stands for it. -/
theorem keepsPrecision_of_no_digits (hdigits : spec.precision = 0) {q : Real64}
    (hq : wholeLog2 (lowOf spec scale) = (lowOf spec scale).log2 ∨ q.same (.zero false) = true)
    (hx : x ≤ wordMax) (counts : SortedMap Nat Nat) :
    KeepsPrecision spec scale (valueOf l q ((⟨l, counts⟩ : SlotCounts).target x)) x := by
  have hlowest : ∀ y, y ≤ x → q.same (.zero false) = true →
      KeepsPrecision spec scale (valueOf l q (l.slotOf y)) x := by
    intro y hy hzero
    refine keepsPrecision_of_le hdigits (Nat.le_add_right_of_le ?_)
    exact Nat.le_trans (valueOf_zero_le h hzero y) hy
  unfold SlotCounts.target
  simp only
  split
  · obtain hlog | hzero := hq
    · exact keepsPrecision_slotOf h hlog hx q
    · exact hlowest x (Nat.le_refl x) hzero
  · rename_i hslot
    have hreach : l.reach ≤ x := Nat.le_of_not_lt fun hlt => hslot ((h.slots x).mpr hlt)
    have hhigh : l.high ≤ x := Nat.le_of_lt (Nat.lt_of_lt_of_le h.high_lt hreach)
    obtain hlog | hzero := hq
    · refine keepsPrecision_of_le hdigits
        (Nat.le_trans (valueOf_slotOf_near h (Nat.le_trans hhigh hx) q).2 ?_)
      have hwidth : l.widthAt l.high ≤ l.high := by
        by_cases hk : l.doublingsAt l.high = 0
        · rw [Layout.widthAt_of_narrow hk, h.unit, hlog, h.high]
          exact Nat.le_trans (Nat.log2_self_le h.low_pos) (by omega)
        · have := Layout.mul_widthAt_le h.sub_pos h.digits_le hk
          rwa [hdigits, Nat.pow_zero, Nat.mul_one] at this
      omega
    · exact hlowest l.high hhigh hzero

end NoMaximum

/-- Words within reach keep their precision, as many of them as a double can count. -/
theorem keepsPrecision_reported (hmax : spec.maxValue = none) (hd : create spec scale = .ok d)
    (hlog : wholeLog2 (lowOf spec scale) = (lowOf spec scale).log2) {xs : List UInt64}
    (hxs : xs ≠ []) (hlength : xs.length ≤ 2 ^ 53)
    (hreach : ∀ x ∈ xs, x.toNat < d.slots.layout.reach) (q : Real64) :
    ∃ x ∈ xs, KeepsPrecision spec scale ((d.recordAll xs).reported q) x.toNat := by
  have h := built_of_no_maximum hmax hd
  have hrank := SlotCounts.rank_le (List.length_pos_iff.mpr hxs) hlength q
  obtain ⟨x, hx, heq⟩ := reported_mem hd hrank
  refine ⟨x, hx, ?_⟩
  rw [heq, SlotCounts.target_of_lt_reach h (hreach x hx)]
  exact keepsPrecision_slotOf h hlog (toNat_le_wordMax x) q

/-- Words past the reach do not, none of them, where a digit is to be kept. -/
theorem not_keepsPrecision_reported (hmax : spec.maxValue = none) (hd : create spec scale = .ok d)
    (hdigits : 1 ≤ spec.precision) {xs : List UInt64}
    (hreach : ∀ x ∈ xs, d.slots.layout.reach ≤ x.toNat) (q : Real64) :
    ∀ x ∈ xs, ¬ KeepsPrecision spec scale ((d.recordAll xs).reported q) x.toNat := by
  have h := built_of_no_maximum hmax hd
  intro x hx
  refine not_keepsPrecision_of_reach_le h hdigits (hreach x hx) ?_
  by_cases hrank : SlotCounts.rank xs.length q ≤ xs.length
  · obtain ⟨y, hy, heq⟩ := reported_mem hd hrank
    rw [heq, SlotCounts.target_of_reach_le h (hreach y hy)]
    exact valueOf_high_le h hdigits q
  · rw [reported_of_lt_rank hd (Nat.lt_of_not_le hrank)]
    exact Nat.zero_le _

/-- Without a digit to be kept every published quantile is near enough to a recorded word, if the
slot of zero is not too wide for it. -/
theorem keepsPrecision_reported_of_no_digits (hmax : spec.maxValue = none)
    (hd : create spec scale = .ok d) (hdigits : spec.precision = 0) {xs : List UInt64}
    (hxs : xs ≠ []) {q : Real64}
    (hq : wholeLog2 (lowOf spec scale) = (lowOf spec scale).log2 ∨ q.same (.zero false) = true) :
    ∃ x ∈ xs, KeepsPrecision spec scale ((d.recordAll xs).reported q) x.toNat := by
  have h := built_of_no_maximum hmax hd
  by_cases hrank : SlotCounts.rank xs.length q ≤ xs.length
  · obtain ⟨x, hx, heq⟩ := reported_mem hd hrank
    refine ⟨x, hx, ?_⟩
    rw [heq]
    exact keepsPrecision_of_no_digits h hdigits hq (toNat_le_wordMax x) _
  · obtain ⟨x, hx⟩ := List.exists_mem_of_ne_nil xs hxs
    refine ⟨x, hx, ?_⟩
    rw [reported_of_lt_rank hd (Nat.lt_of_not_le hrank)]
    exact keepsPrecision_of_le hdigits (Nat.zero_le _)

/-- **When recorded words keep their precision.** Whatever is recorded, every published quantile is
within the configured precision of some recorded word exactly when none is published or no digit is
to be kept (and the least value is not rounded up to a power of two, or only the least word is
published). Where digits are to be kept, words within the initial reach keep them, and words past it
lose them. -/
theorem precision_kept_iff (hmax : spec.maxValue = none) (hd : create spec scale = .ok d) :
    ((∀ xs : List UInt64, xs ≠ [] → ∀ q ∈ spec.percentiles,
        ∃ x ∈ xs, KeepsPrecision spec scale ((d.recordAll xs).reported q) x.toNat) ↔
      spec.percentiles = [] ∨ spec.precision = 0 ∧
        (wholeLog2 (lowOf spec scale) = (lowOf spec scale).log2 ∨
          ∀ q ∈ spec.percentiles, q.same (.zero false) = true)) ∧
    (wholeLog2 (lowOf spec scale) = (lowOf spec scale).log2 →
      ∀ xs : List UInt64, xs ≠ [] → xs.length ≤ 2 ^ 53 →
        (∀ x ∈ xs, x.toNat < d.slots.layout.reach) → ∀ q,
          ∃ x ∈ xs, KeepsPrecision spec scale ((d.recordAll xs).reported q) x.toNat) ∧
    (1 ≤ spec.precision → ∀ xs : List UInt64, xs ≠ [] →
      (∀ x ∈ xs, d.slots.layout.reach ≤ x.toNat) → ∀ q,
        ∀ x ∈ xs, ¬ KeepsPrecision spec scale ((d.recordAll xs).reported q) x.toNat) := by
  have h := built_of_no_maximum hmax hd
  refine ⟨⟨fun hkept => ?_, ?_⟩,
    fun hlog xs hxs hlength hreach q => keepsPrecision_reported hmax hd hlog hxs hlength hreach q,
    fun hdigits xs _ hreach q => not_keepsPrecision_reported hmax hd hdigits hreach q⟩
  · by_cases hnone : spec.percentiles = []
    · exact .inl hnone
    · have hdigits : spec.precision = 0 := by
        refine Nat.eq_zero_of_not_pos fun hdigits => ?_
        obtain ⟨q, hq⟩ := List.exists_mem_of_ne_nil _ hnone
        -- the largest word is past every reach
        have hreach : ∀ x ∈ [UInt64.ofNat wordMax], d.slots.layout.reach ≤ x.toNat := by
          intro x hx
          rw [List.mem_singleton.mp hx, h.reach_eq hdigits]
          exact Nat.le_trans (Nat.pow_le_pow_right (by decide) h.bits) (by decide)
        obtain ⟨x, hx, hkeep⟩ := hkept _ (List.cons_ne_nil _ _) q hq
        exact not_keepsPrecision_reported hmax hd hdigits hreach q x hx hkeep
      refine .inr ⟨hdigits, ?_⟩
      by_cases hlog : wholeLog2 (lowOf spec scale) = (lowOf spec scale).log2
      · exact .inl hlog
      · refine .inr fun q hq => ?_
        cases hzero : q.same (.zero false) with
        | true => rfl
        | false =>
          obtain ⟨x, hx, hkeep⟩ := hkept [0] (List.cons_ne_nil _ _) q hq
          rw [List.mem_singleton.mp hx] at hkeep
          rw [reported_singleton hd,
            SlotCounts.target_of_lt_reach h
            (show (0 : UInt64).toNat < _ from Nat.two_pow_pos _)] at hkeep
          exact absurd hkeep (not_keepsPrecision_zero h hlog hzero)
  · rintro (hnone | ⟨hdigits, hcase⟩) xs hxs q hq
    · rw [hnone] at hq
      exact absurd hq List.not_mem_nil
    · exact keepsPrecision_reported_of_no_digits hmax hd hdigits hxs
        (hcase.imp_right fun hz => hz q hq)

/-- Plain values with three digits, the settings of a histogram that nothing is configured for. -/
def threeDigits : DistributionSpec := ⟨defaultPercentiles, [], none, none, 3⟩

theorem create_threeDigits : ∃ d, create threeDigits (.ofNat _ 1) = .ok d ∧
    (d.recordAll [4099]).reported (decimal 5 (-1)) = 2 :=
  exists_of_create (by decide +kernel)

/-- With three digits not every word keeps its precision. -/
theorem precision_not_kept_three_digits : ∃ d, create threeDigits (.ofNat _ 1) = .ok d ∧
    ¬ ∀ xs : List UInt64, xs ≠ [] → ∀ q ∈ threeDigits.percentiles,
      ∃ x ∈ xs, KeepsPrecision threeDigits (.ofNat _ 1) ((d.recordAll xs).reported q) x.toNat := by
  obtain ⟨d, hd, -⟩ := create_threeDigits
  refine ⟨d, hd, fun hkept => ?_⟩
  obtain hnone | ⟨hdigits, -⟩ := (precision_kept_iff rfl hd).1.mp hkept
  · exact absurd hnone (List.cons_ne_nil _ _)
  · exact absurd hdigits (by decide)

/-- The word 4099 is reported as 2 at the median, where three digits are to be kept. -/
theorem median_of_4099 : ∃ d, create threeDigits (.ofNat _ 1) = .ok d ∧
    decimal 5 (-1) ∈ threeDigits.percentiles ∧
    ¬ ∃ x ∈ [(4099 : UInt64)], KeepsPrecision threeDigits (.ofNat _ 1)
      ((d.recordAll [4099]).reported (decimal 5 (-1))) x.toNat := by
  obtain ⟨d, hd, hvalue⟩ := create_threeDigits
  refine ⟨d, hd, List.mem_cons_self, ?_⟩
  rintro ⟨x, hx, hkeep⟩
  have hlow : (lowOf threeDigits (.ofNat _ 1)).log2 = 0 := by decide +kernel
  rw [hvalue, List.mem_singleton.mp hx, keepsPrecision_iff, hlow,
    show threeDigits.precision = 3 from rfl, show (4099 : UInt64).toNat = 4099 from rfl] at hkeep
  omega

end Distribution

end Telemetry
