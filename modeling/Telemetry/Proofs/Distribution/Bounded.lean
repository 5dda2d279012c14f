import Telemetry.Proofs.Distribution.Precision

/-!
# How precisely a distribution reports within its bounds

Whatever maximum is configured, the layout reaches past the greatest word that is laid out for it
(`highOf`), so every word up to that one is counted in its own slot, and every word above it in a
slot that ends no earlier.

* **`bounded_precision_iff`**: words up to the greatest one keep their precision at all published
  quantiles that are reached, unless the least value is rounded up to a power of two. Words above it
  are counted, and not in the buckets that end below it.
* `wide_slots`: a least value of `2 ^ 50 - 1` makes the slots twice as wide as its own power of two.
-/

namespace Telemetry

namespace Distribution

variable {d : Distribution} {spec : DistributionSpec} {scale : Real64}

/-- None of the words is above the greatest one that is laid out. -/
def Bounded (spec : DistributionSpec) (scale : Real64) (xs : List UInt64) : Prop :=
  ∀ x ∈ xs, x.toNat ≤ highOf spec scale

/-! ## Words within the bounds -/

/-- What is reported of words within the bounds stands for the own slot of one of them. -/
theorem reported_bounded (hd : create spec scale = .ok d) {xs : List UInt64}
    (hxs : Bounded spec scale xs) {q : Real64} (hrank : SlotCounts.rank xs.length q ≤ xs.length) :
    ∃ x ∈ xs, (d.recordAll xs).reported q =
      SlotCounts.valueOf d.slots.layout q (d.slots.layout.slotOf x.toNat) := by
  obtain ⟨x, hx, heq⟩ := reported_mem hd hrank
  rw [SlotCounts.target_of_le_top (built_of_create hd) (hxs x hx)] at heq
  exact ⟨x, hx, heq⟩

/-- Where the least value is rounded up to a power of two, the narrowest slot starts too far below
the words before its own power of two. -/
theorem not_keepsPrecision_lowest (hd : create spec scale = .ok d) (hdigits : 1 ≤ spec.precision)
    (hlog : wholeLog2 (lowOf spec scale) ≠ (lowOf spec scale).log2) {q : Real64}
    (hq : q.same (.zero false) = true) {x : Nat} (hx : x + 1 = 2 ^ ((lowOf spec scale).log2 + 1)) :
    ¬ KeepsPrecision spec scale
      (SlotCounts.valueOf d.slots.layout q (d.slots.layout.slotOf x)) x := by
  have h := built_of_create hd
  obtain ⟨hunit, hlow⟩ := h.log2_lt_unitBits hlog
  have hpow : 2 ^ ((lowOf spec scale).log2 + 1) ≤ 2 ^ d.slots.layout.unitBits :=
    Nat.pow_le_pow_right (by decide) hunit
  have htwo : 2 ^ 1 ≤ 2 ^ (lowOf spec scale).log2 :=
    Nat.pow_le_pow_right (by decide) (Nat.pos_of_ne_zero hlow)
  have hlowest : d.slots.layout.lowestOf (d.slots.layout.slotOf x) = 0 := by
    have hwidth : 2 ^ d.slots.layout.unitBits ≤ d.slots.layout.widthAt x :=
      Nat.pow_le_pow_right (by decide) (Nat.le_add_left _ _)
    rw [Layout.lowestOf_slotOf h.sub_pos, Nat.div_eq_of_lt (by omega), Nat.zero_mul]
  have hten : 10 ≤ 10 ^ spec.precision := Nat.le_pow hdigits
  have hmul : x * 10 ≤ x * 10 ^ spec.precision := Nat.mul_le_mul_left x hten
  unfold SlotCounts.valueOf
  rw [Nat.pow_succ] at hx
  rw [if_pos hq, hlowest, keepsPrecision_iff]
  rintro (⟨-, hnear⟩ | ⟨-, hnear⟩)
  · omega
  · rw [Nat.zero_mul, Nat.zero_add] at hnear
    omega

/-- Words within the bounds keep their precision at the quantiles that are reached. -/
theorem keepsPrecision_bounded (hd : create spec scale = .ok d) {xs : List UInt64}
    (hxs : Bounded spec scale xs) {q : Real64} (hrank : SlotCounts.rank xs.length q ≤ xs.length)
    (hq : wholeLog2 (lowOf spec scale) = (lowOf spec scale).log2 ∨
      spec.precision = 0 ∧ q.same (.zero false) = true) :
    ∃ x ∈ xs, KeepsPrecision spec scale ((d.recordAll xs).reported q) x.toNat := by
  obtain ⟨x, hx, heq⟩ := reported_bounded hd hxs hrank
  refine ⟨x, hx, ?_⟩
  rw [heq]
  obtain hlog | ⟨hdigits, hzero⟩ := hq
  · exact keepsPrecision_slotOf (built_of_create hd) hlog (toNat_le_wordMax x) q
  · refine keepsPrecision_of_le hdigits (Nat.le_add_right_of_le ?_)
    exact valueOf_zero_le (built_of_create hd) hzero x.toNat

/-- Where the least value is rounded up to a power of two, some word within the bounds loses its
precision at every quantile, except at zero where no digit is to be kept. -/
theorem exists_not_keepsPrecision (hd : create spec scale = .ok d)
    (hlog : wholeLog2 (lowOf spec scale) ≠ (lowOf spec scale).log2) {q : Real64}
    (hq : ¬ (spec.precision = 0 ∧ q.same (.zero false) = true)) :
    ∃ x : UInt64, Bounded spec scale [x] ∧
      ¬ KeepsPrecision spec scale ((d.recordAll [x]).reported q) x.toNat := by
  have h := built_of_create hd
  -- the word, and that it is counted in a slot of its own
  have halone : ∀ n : Nat, n ≤ highOf spec scale →
      ¬ KeepsPrecision spec scale
        (SlotCounts.valueOf d.slots.layout q (d.slots.layout.slotOf n)) n →
      ∃ x : UInt64, Bounded spec scale [x] ∧
        ¬ KeepsPrecision spec scale ((d.recordAll [x]).reported q) x.toNat := by
    intro n hn hfar
    have hword : n < 2 ^ 64 := Nat.lt_succ_of_le (Nat.le_trans hn (highOf_le spec scale))
    have hn' : (UInt64.ofNat n).toNat = n := UInt64.toNat_ofNat_of_lt' hword
    refine ⟨UInt64.ofNat n, fun y hy => ?_, ?_⟩
    · rw [List.mem_singleton.mp hy, hn']
      exact hn
    · rw [reported_singleton hd, hn', SlotCounts.target_of_le_top h hn]
      exact hfar
  cases hzero : q.same (.zero false) with
  | false => exact halone 0 (Nat.zero_le _) (not_keepsPrecision_zero h hlog hzero)
  | true =>
    have hdigits : 1 ≤ spec.precision := Nat.pos_of_ne_zero fun h0 => hq ⟨h0, hzero⟩
    have hpos : 0 < 2 ^ ((lowOf spec scale).log2 + 1) := Nat.two_pow_pos _
    refine halone (2 ^ ((lowOf spec scale).log2 + 1) - 1) ?_
      (not_keepsPrecision_lowest hd hdigits hlog hzero (Nat.sub_add_cancel hpos))
    have hself := Nat.log2_self_le h.low_pos
    have htwice := two_mul_lowOf_le_highOf h.two_mul_low_le
    rw [Nat.pow_succ]
    omega

/-! ## Words above the bounds -/

/-- A word above the greatest one that is laid out is counted in a slot that ends no earlier. -/
theorem highOf_le_highestOf_target (hd : create spec scale = .ok d) {x : Nat} (hx : x ≤ wordMax)
    (habove : highOf spec scale < x) :
    highOf spec scale ≤ d.slots.layout.highestOf (d.slots.target x) := by
  have h := built_of_create hd
  have hword : highOf spec scale < wordMax := Nat.lt_of_lt_of_le habove hx
  by_cases hreach : x < d.slots.layout.reach
  · rw [SlotCounts.target_of_lt_reach h hreach]
    exact Layout.le_highestOf_slotOf h.sub_pos (Nat.le_of_lt habove) hword
  · rw [SlotCounts.target_of_reach_le h (Nat.le_of_not_lt hreach)]
    exact Layout.le_highestOf_slotOf h.sub_pos (Nat.le_of_eq h.high.symm) hword

/-- What a bucket that ends below the greatest word counts, it counts of the words up to that
one. -/
theorem counted_bounded (hd : create spec scale = .ok d) (xs : List UInt64) {b : Real64}
    (hb : (b.mul scale).roundWord < highOf spec scale) :
    (d.recordAll xs).counted b =
      (d.recordAll (xs.filter fun x => x.toNat ≤ highOf spec scale)).counted b := by
  unfold counted rawBound
  rw [scale_of_create hd, scale_of_create hd, upTo_of_create hd, upTo_of_create hd,
    List.countP_filter]
  refine List.countP_congr fun x _ => ?_
  simp only [decide_eq_true_eq, Bool.and_eq_true]
  constructor
  · intro hle
    refine ⟨hle, Nat.le_of_not_lt fun habove => ?_⟩
    have hslot := highOf_le_highestOf_target hd (toNat_le_wordMax x) habove
    omega
  · exact And.left

/-- **Reports within the bounds.** Words up to the greatest one that is laid out keep their
precision at every published quantile that is reached exactly when nothing is published, the least
value is not rounded up to a power of two, or only the least word is published and no digit is to be
kept. A least value below `2 ^ 48` is not rounded up. Every quantile is reached by as many words as
a double can count; one that is not reached is reported as zero. Every word is counted once, and
once in the total while that fits a word; the words above the greatest one are in no bucket that
ends below it. -/
theorem bounded_precision_iff (hd : create spec scale = .ok d) :
    ((∀ xs : List UInt64, xs ≠ [] → Bounded spec scale xs → ∀ q ∈ spec.percentiles,
        SlotCounts.rank xs.length q ≤ xs.length →
          ∃ x ∈ xs, KeepsPrecision spec scale ((d.recordAll xs).reported q) x.toNat) ↔
      spec.percentiles = [] ∨ wholeLog2 (lowOf spec scale) = (lowOf spec scale).log2 ∨
        spec.precision = 0 ∧ ∀ q ∈ spec.percentiles, q.same (.zero false) = true) ∧
    (lowOf spec scale < 2 ^ 48 → wholeLog2 (lowOf spec scale) = (lowOf spec scale).log2) ∧
    (∀ xs : List UInt64, xs ≠ [] → xs.length ≤ 2 ^ 53 → ∀ q,
      SlotCounts.rank xs.length q ≤ xs.length) ∧
    (∀ xs : List UInt64, ∀ q, xs.length < SlotCounts.rank xs.length q →
      (d.recordAll xs).reported q = 0) ∧
    ∀ xs : List UInt64,
      (d.recordAll xs).count = xs.length ∧
      (d.recordAll xs).total = saturate (xs.map UInt64.toNat).sum ∧
      ∀ bucket ∈ (d.recordAll xs).snapshot.buckets,
        (bucket.bound.mul scale).roundWord < highOf spec scale →
          bucket ∈ (d.recordAll
            (xs.filter fun x => x.toNat ≤ highOf spec scale)).snapshot.buckets := by
  refine ⟨⟨fun hkept => ?_, ?_⟩, wholeLog2_of_lt,
    fun xs hxs hlength q => SlotCounts.rank_le (List.length_pos_iff.mpr hxs) hlength q,
    fun xs q hrank => reported_of_lt_rank hd hrank,
    fun xs => ⟨(sum_of_create hd xs).2, ?_, ?_⟩⟩
  · by_cases hlog : wholeLog2 (lowOf spec scale) = (lowOf spec scale).log2
    · exact .inr (.inl hlog)
    · have hall : ∀ q ∈ spec.percentiles, spec.precision = 0 ∧ q.same (.zero false) = true := by
        intro q hq
        by_contra hcase
        obtain ⟨x, hx, hfar⟩ := exists_not_keepsPrecision hd hlog hcase
        have hrank : SlotCounts.rank [x].length q ≤ [x].length :=
          SlotCounts.rank_le Nat.one_pos Nat.one_le_two_pow q
        obtain ⟨y, hy, hkeep⟩ := hkept [x] (List.cons_ne_nil _ _) hx q hq hrank
        rw [List.mem_singleton.mp hy] at hkeep
        exact hfar hkeep
      by_cases hnone : spec.percentiles = []
      · exact .inl hnone
      · obtain ⟨q, hq⟩ := List.exists_mem_of_ne_nil _ hnone
        exact .inr (.inr ⟨(hall q hq).1, fun q hq => (hall q hq).2⟩)
  · rintro (hnone | hlog | ⟨hdigits, hzero⟩) xs - hbounded q hq hrank
    · rw [hnone] at hq
      exact absurd hq List.not_mem_nil
    · exact keepsPrecision_bounded hd hbounded hrank (.inl hlog)
    · exact keepsPrecision_bounded hd hbounded hrank (.inr ⟨hdigits, hzero q hq⟩)
  · obtain ⟨l, -, rfl⟩ := create_ok hd
    rw [total_recordAll (Nat.zero_le _)]
    exact congrArg saturate (Nat.zero_add _)
  · intro bucket hbucket hbound
    rw [buckets_snapshot, spec_of_create hd] at hbucket ⊢
    obtain ⟨b, hb, rfl⟩ := List.mem_map.mp hbucket
    rw [counted_bounded hd xs hbound]
    exact List.mem_map_of_mem hb

/-- Plain values up to a thousand with three digits. -/
def upToThousand : DistributionSpec :=
  ⟨defaultPercentiles, [], none, some (decimal 1000 0), 3⟩

/-- Up to a thousand every word keeps its three digits. -/
theorem kept_up_to_thousand : ∃ d, create upToThousand (.ofNat _ 1) = .ok d ∧
    ∀ xs : List UInt64, xs ≠ [] → Bounded upToThousand (.ofNat _ 1) xs →
      ∀ q ∈ upToThousand.percentiles, SlotCounts.rank xs.length q ≤ xs.length →
        ∃ x ∈ xs,
          KeepsPrecision upToThousand (.ofNat _ 1) ((d.recordAll xs).reported q) x.toNat := by
  obtain ⟨d, hd, -⟩ : ∃ d, create upToThousand (.ofNat _ 1) = .ok d ∧ d.count = 0 :=
    exists_of_create (by decide +kernel)
  obtain ⟨hkept, hlog, -⟩ := bounded_precision_iff hd
  exact ⟨d, hd, hkept.mpr (.inr (.inl (hlog (by decide +kernel))))⟩

/-- Plain values from just below `2 ^ 50` to twice that, with two digits. -/
def belowPower : DistributionSpec :=
  ⟨[decimal 5 (-1)], [], some (decimal 1125899906842623 0), some (decimal 2251799813685246 0), 2⟩

/-- A zero is reported as `2 ^ 50 - 1`, where `2 ^ 49` is to be told apart from it. -/
theorem wide_slots : ∃ d, create belowPower (.ofNat _ 1) = .ok d ∧
    Bounded belowPower (.ofNat _ 1) [0] ∧ decimal 5 (-1) ∈ belowPower.percentiles ∧
    (d.recordAll [0]).reported (decimal 5 (-1)) = 1125899906842623 ∧
    ¬ ∃ x ∈ [(0 : UInt64)], KeepsPrecision belowPower (.ofNat _ 1)
      ((d.recordAll [0]).reported (decimal 5 (-1))) x.toNat := by
  obtain ⟨d, hd, hreported⟩ : ∃ d, create belowPower (.ofNat _ 1) = .ok d ∧
      (d.recordAll [0]).reported (decimal 5 (-1)) = 1125899906842623 :=
    exists_of_create (by decide +kernel)
  have hlow : (lowOf belowPower (.ofNat _ 1)).log2 = 49 := by decide +kernel
  refine ⟨d, hd, fun x hx => ?_, List.mem_cons_self, hreported, ?_⟩
  · rw [List.mem_singleton.mp hx]
    exact Nat.zero_le _
  · rintro ⟨x, hx, hkeep⟩
    rw [hreported, List.mem_singleton.mp hx, keepsPrecision_iff, hlow,
      show belowPower.precision = 2 from rfl, show (0 : UInt64).toNat = 0 from rfl] at hkeep
    omega

end Distribution

end Telemetry
