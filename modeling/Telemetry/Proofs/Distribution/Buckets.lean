import Mathlib.Algebra.Order.Field.Rat
import Mathlib.Data.Rat.Cast.Order
import Mathlib.Tactic.FieldSimp
import Mathlib.Tactic.IntervalCases
import Mathlib.Tactic.Linarith
import Telemetry.Proofs.Distribution.Counts

/-!
# What buckets count

A plain histogram that tells single units apart counts each word below `2 * 10 ^ precision` in a
slot of its own (`highestOf_target`), whatever its greatest value. A bound is rounded to a word
first, a half up, so a bucket counts the words up to half a unit past its bound
(`counted_eq_countP`).

* **`buckets_exact_iff`**: each bucket of a snapshot counts the words up to half a unit past its
  bound. So all of them count the words at or below their bounds, whatever is recorded, exactly when
  no whole number in the range lies above a bound and at most half a unit past it.
* `three_counted_below`: a bound of two and a half counts a three.
-/

namespace Telemetry

namespace Binary

variable {f : Format}

/-- The rational number that a finite number is. -/
def toRat? : Binary f → Option ℚ
  | finite negative m => some ((if negative then -(m.quanta : ℚ) else m.quanta) / 2 ^ f.fraction)
  | _ => none

/-- Rounding to a word keeps what is at most half a unit above the number. -/
theorem le_roundWord_iff {b : Binary f} {r : ℚ} (hb : b.toRat? = some r) (hr : 0 ≤ r) {x : Nat}
    (hx : x ≤ wordMax) : x ≤ b.roundWord ↔ (x : ℚ) ≤ r + 1 / 2 := by
  have hpow : (0 : ℚ) < 2 ^ f.fraction := by positivity
  cases b with
  | nan => cases hb
  | infinite sign => cases hb
  | finite sign m =>
    obtain rfl := Option.some.inj hb
    cases sign with
    | true =>
      -- the only such number that is not below zero is the negative zero
      have hm : (m.quanta : ℚ) ≤ 0 := by
        have := (le_div_iff₀ hpow).mp hr
        simpa using this
      have hzero : m.quanta = 0 := by exact_mod_cast le_antisymm hm (Nat.cast_nonneg _)
      show x ≤ 0 ↔ _
      simp only [hzero, if_true, Nat.cast_zero, neg_zero, zero_div, zero_add]
      constructor
      · intro h
        rw [Nat.le_zero.mp h]
        norm_num
      · intro h
        refine Nat.le_of_lt_succ ?_
        have : (x : ℚ) < 1 := lt_of_le_of_lt h (by norm_num)
        exact_mod_cast this
    | false =>
      show x ≤ saturate ((2 * m.quanta + 2 ^ f.fraction) / 2 ^ (f.fraction + 1)) ↔ _
      unfold saturate
      rw [Nat.le_min, and_iff_left hx, Nat.le_div_iff_mul_le (Nat.two_pow_pos _)]
      have hsum : (m.quanta : ℚ) / 2 ^ f.fraction + 1 / 2 =
          (2 * m.quanta + 2 ^ f.fraction) / 2 ^ (f.fraction + 1) := by
        rw [pow_succ]
        field_simp
      simp only [Bool.false_eq_true, if_false]
      rw [hsum, le_div_iff₀ (by positivity)]
      norm_cast

/-- What is below two has no word above one. -/
theorem floorWord_le_one (hw : f.digits + f.fraction < f.width) (htwo : 2 ≤ 2 ^ f.digits)
    {b : Binary f} (hb : b.lt (ofNat f 2) = true) : b.floorWord ≤ 1 := by
  obtain ⟨two, heq, hquanta⟩ := ofNat_exact hw htwo
  rw [heq] at hb
  rcases b with _ | ⟨_ | _⟩ | ⟨_ | _, m⟩
  · exact Nat.zero_le _
  · have hfits := two.fits.1
    simp only [lt, place?, Bool.false_eq_true, if_false, decide_eq_true_eq, Int.ofNat_lt] at hb
    omega
  · exact Nat.zero_le _
  · simp only [lt, place?, Bool.false_eq_true, if_false, decide_eq_true_eq, Int.ofNat_lt] at hb
    rw [hquanta] at hb
    refine Nat.le_trans (Nat.min_le_left _ _) (Nat.le_of_lt_succ ?_)
    exact (Nat.div_lt_iff_lt_mul (Nat.two_pow_pos _)).mpr hb
  · exact Nat.zero_le _

end Binary

namespace Distribution

variable {spec : DistributionSpec} {d : Distribution}

/-- The scale of values that are exposed as they are recorded. -/
def plain : Real64 := .ofNat _ 1

/-! ## Single units -/

theorem mul_plain (b : Real64) : b.mul plain = b := Binary.mul_ofNat_one (by decide) b

theorem lowOf_plain (hmin : ∀ v, spec.minValue = some v → v.lt (.ofNat _ 2) = true) :
    lowOf spec plain = 1 := by
  unfold lowOf
  cases hv : spec.minValue with
  | none => rfl
  | some v =>
    have hword := Binary.floorWord_le_one (by decide) (by decide) (hmin v hv)
    simp only [Option.map_some, Option.getD_some, mul_plain]
    omega

/-- A plain histogram with at most five digits can always be laid out. -/
theorem create_plain (hdigits : spec.precision ≤ 5)
    (hmin : ∀ v, spec.minValue = some v → v.lt (.ofNat _ 2) = true) :
    ∃ d, create spec plain = .ok d ∧ d.slots.layout.Built 1 (highOf spec plain) spec.precision ∧
      d.slots.layout.unitBits = 0 := by
  have hunit : wholeLog2 1 = 0 := by decide +kernel
  have hsub : Layout.bitsFor (2 * 10 ^ spec.precision) ≤ 63 := by
    interval_cases spec.precision <;> decide
  obtain ⟨l, hl⟩ : ∃ l, Layout.of 1 (highOf spec plain) spec.precision = .ok l := by
    unfold Layout.of
    simp only [hunit]
    rw [if_neg (by decide), if_neg (by omega), if_neg (by omega)]
    exact ⟨_, rfl⟩
  have hbuilt := Layout.built_of_ok Nat.one_ne_zero (highOf_le _ _) hl
  refine ⟨⟨spec, plain, .empty l, 0, 0, 0⟩, ?_, hbuilt, hbuilt.unit.trans hunit⟩
  unfold create
  rw [lowOf_plain hmin, hl]
  rfl

/-- A word that single units are kept for has a slot of its own. -/
theorem highestOf_target {c : SlotCounts} {top digits : Nat} (h : c.layout.Built 1 top digits)
    (hunit : c.layout.unitBits = 0) {x : Nat} (hx : x < 2 * 10 ^ digits) :
    c.layout.highestOf (c.target x) = x := by
  have hnarrow : x < 2 ^ c.layout.subBits := Nat.lt_of_lt_of_le hx h.digits_le
  rw [← Nat.add_zero c.layout.subBits, ← hunit] at hnarrow
  have hreach : x < c.layout.reach := Nat.lt_of_lt_of_le hnarrow (Layout.narrow_le_reach _)
  have hk := Layout.doublingsAt_of_lt h.sub_pos hnarrow
  have hword : x + 1 ≤ wordMax := by
    have hbits : 2 ^ (c.layout.subBits + c.layout.unitBits) ≤ 2 ^ 63 :=
      Nat.pow_le_pow_right (by decide) h.bits
    have : wordMax = 2 ^ 64 - 1 := rfl
    omega
  rw [SlotCounts.target_of_lt_reach h hreach, Layout.highestOf_slotOf h.sub_pos,
    Layout.lowestOf_slotOf h.sub_pos, Layout.widthAt_of_narrow hk, hunit, Nat.pow_zero,
    Nat.div_one, Nat.mul_one]
  have hsaturate : saturate (x + 1) = x + 1 := Nat.min_eq_left hword
  rw [hsaturate, Nat.add_sub_cancel]

/-! ## Counts up to a bound -/

/-- Every word of the list is one that single units are kept for. -/
def SingleUnits (spec : DistributionSpec) (xs : List UInt64) : Prop :=
  ∀ x ∈ xs, x.toNat < 2 * 10 ^ spec.precision

/-- How many words are at most `r`. -/
def countUpTo (r : ℚ) (xs : List UInt64) : Nat := xs.countP fun x => decide ((x.toNat : ℚ) ≤ r)

theorem counted_eq_countP (hd : create spec plain = .ok d)
    (h : d.slots.layout.Built 1 (highOf spec plain) spec.precision)
    (hunit : d.slots.layout.unitBits = 0) {b : Real64} {r : ℚ} (hb : b.toRat? = some r) (hr : 0 ≤ r)
    {xs : List UInt64} (hxs : SingleUnits spec xs) :
    (d.recordAll xs).counted b = countUpTo (r + 1 / 2) xs := by
  unfold counted rawBound countUpTo
  rw [scale_of_create hd, upTo_of_create hd, mul_plain]
  refine List.countP_congr fun x hx => ?_
  rw [decide_eq_true_eq, decide_eq_true_eq, highestOf_target h hunit (hxs x hx)]
  exact Binary.le_roundWord_iff hb hr (toNat_le_wordMax x)

/-- Two bounds count the same words of any list in the range exactly when no number of the range
tells them apart. -/
theorem countUpTo_eq_iff (hdigits : spec.precision ≤ 5) {r s : ℚ} (hrs : r ≤ s) :
    (∀ xs, SingleUnits spec xs → countUpTo s xs = countUpTo r xs) ↔
      ∀ n : ℕ, n < 2 * 10 ^ spec.precision → (n : ℚ) ≤ s → (n : ℚ) ≤ r := by
  constructor
  · intro hsame n hn hns
    have hword : n < 2 ^ 64 := by
      have hten : 10 ^ spec.precision ≤ 10 ^ 5 := Nat.pow_le_pow_right (by decide) hdigits
      omega
    have hn' : (UInt64.ofNat n).toNat = n := UInt64.toNat_ofNat_of_lt' hword
    have hcount := hsame [UInt64.ofNat n] fun x hx => by
      rw [List.mem_singleton.mp hx, hn']
      exact hn
    by_contra hnr
    simp [countUpTo, hn', hns, hnr] at hcount
  · intro hapart xs hxs
    refine List.countP_congr fun x hx => ?_
    rw [decide_eq_true_eq, decide_eq_true_eq]
    exact ⟨hapart _ (hxs x hx), fun h => le_trans h hrs⟩

/-- **What buckets count.** The settings of a plain histogram that tells single units apart can be
laid out. Of words in the range, each bucket of a snapshot counts those up to half a unit past its
bound; it counts those at or below its bound, whatever is recorded, exactly when no number in the
range lies between. -/
theorem buckets_exact_iff (hdigits : spec.precision ≤ 5)
    (hmin : ∀ v, spec.minValue = some v → v.lt (.ofNat _ 2) = true) :
    ∃ d, create spec plain = .ok d ∧
      (∀ xs, (d.recordAll xs).snapshot.buckets.map (·.bound) = spec.buckets) ∧
      (∀ xs, SingleUnits spec xs → ∀ bucket ∈ (d.recordAll xs).snapshot.buckets,
        ∀ r, bucket.bound.toRat? = some r → 0 ≤ r → bucket.count = countUpTo (r + 1 / 2) xs) ∧
      ((∀ xs, SingleUnits spec xs → ∀ bucket ∈ (d.recordAll xs).snapshot.buckets,
          ∀ r, bucket.bound.toRat? = some r → 0 ≤ r → bucket.count = countUpTo r xs) ↔
        ∀ b ∈ spec.buckets, ∀ r, b.toRat? = some r → 0 ≤ r →
          ∀ n : ℕ, n < 2 * 10 ^ spec.precision → (n : ℚ) ≤ r + 1 / 2 → (n : ℚ) ≤ r) := by
  obtain ⟨d, hd, hbuilt, hunit⟩ := create_plain hdigits hmin
  have hbuckets : ∀ xs, (d.recordAll xs).snapshot.buckets =
      spec.buckets.map fun b => ⟨b, (d.recordAll xs).counted b⟩ := by
    intro xs
    rw [buckets_snapshot, spec_of_create hd]
  have hcounts : ∀ xs, SingleUnits spec xs → ∀ bucket ∈ (d.recordAll xs).snapshot.buckets,
      ∀ r, bucket.bound.toRat? = some r → 0 ≤ r → bucket.count = countUpTo (r + 1 / 2) xs := by
    intro xs hxs bucket hbucket r hb hr
    rw [hbuckets] at hbucket
    obtain ⟨b, -, rfl⟩ := List.mem_map.mp hbucket
    exact counted_eq_countP hd hbuilt hunit hb hr hxs
  refine ⟨d, hd, fun xs => ?_, hcounts, fun hexact b hb r hr hpos => ?_,
    fun hapart xs hxs bucket hbucket r hr hpos => ?_⟩
  · rw [hbuckets, List.map_map]
    exact List.map_id _
  · refine (countUpTo_eq_iff hdigits (by linarith)).mp fun xs hxs => ?_
    have hmem : ⟨b, (d.recordAll xs).counted b⟩ ∈ (d.recordAll xs).snapshot.buckets := by
      rw [hbuckets]
      exact List.mem_map_of_mem hb
    rw [← hcounts xs hxs _ hmem r hr hpos]
    exact hexact xs hxs _ hmem r hr hpos
  · rw [hcounts xs hxs bucket hbucket r hr hpos]
    rw [hbuckets] at hbucket
    obtain ⟨b, hb, rfl⟩ := List.mem_map.mp hbucket
    exact (countUpTo_eq_iff hdigits (by linarith)).mpr (hapart b hb r hr hpos) xs hxs

/-- A histogram with a bucket up to two and a half. -/
def halfway : DistributionSpec := ⟨[], [decimal 25 (-1)], none, none, 3⟩

theorem toRat?_halfway : (decimal 25 (-1)).toRat? = some (5 / 2) := by
  decide +kernel

/-- A bound of two and a half is told apart from three by no histogram. -/
theorem not_exact_halfway : ∃ d, create halfway plain = .ok d ∧
    ¬ ∀ xs, SingleUnits halfway xs → ∀ bucket ∈ (d.recordAll xs).snapshot.buckets,
      ∀ r, bucket.bound.toRat? = some r → 0 ≤ r → bucket.count = countUpTo r xs := by
  obtain ⟨d, hd, -, -, hiff⟩ := buckets_exact_iff (show halfway.precision ≤ 5 by decide)
    fun v hv => by cases hv
  refine ⟨d, hd, fun hexact => ?_⟩
  have hthree := hiff.mp hexact _ List.mem_cons_self _ toRat?_halfway (by norm_num) 3 (by decide)
    (by norm_num)
  norm_num at hthree

/-- The word three is counted up to two and a half. -/
theorem three_counted_below : ∃ d, create halfway plain = .ok d ∧
    ⟨decimal 25 (-1), 1⟩ ∈ (d.recordAll [3]).snapshot.buckets ∧
    (decimal 25 (-1)).toRat? = some (5 / 2) ∧ countUpTo (5 / 2) [3] = 0 := by
  obtain ⟨d, hd, hbuckets⟩ : ∃ d, create halfway plain = .ok d ∧
      (d.recordAll [3]).snapshot.buckets = [⟨decimal 25 (-1), 1⟩] :=
    exists_of_create (by decide +kernel)
  refine ⟨d, hd, ?_, toRat?_halfway, by decide +kernel⟩
  rw [hbuckets]
  exact List.mem_cons_self

end Distribution

end Telemetry
