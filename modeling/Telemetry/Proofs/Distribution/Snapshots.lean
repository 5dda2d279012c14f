import Telemetry.Proofs.Distribution.Buckets
import Telemetry.Store.Meter

/-!
# The shape of snapshots

The buckets of ascending bounds count more and more of the recorded words, never more than all of
them. The values at ascending quantiles ascend as well, as far as their ranks are reached: the rank
of a larger quantile is reached at no earlier slot (`SlotCounts.slotAtRank_mono`), and what stands
for a slot is no less than what stands for a slot before it (`valueOf_mono`). Only quantile zero is
read at the start of its slot, so a quantile below zero may not stand before it.

* **`snapshot_wellShaped`**: all of this of every snapshot, whose order of recording does not
  matter.
* `percentiles_descend`: a quantile below zero before zero, and words past what a double can count.
-/

namespace Telemetry

namespace Distribution

variable {d : Distribution} {spec : DistributionSpec} {scale : Real64}

/-! ## Values -/

/-- Both scales that are used are finite and above zero. -/
theorem positive_of_scale (h : scale = plain ∨ scale = Meter.nanosScale) : scale.Positive := by
  have hplain : plain.Positive := Binary.ofNat_positive (by decide) (by decide) (by decide)
  have hnanos : Meter.nanosScale.Positive :=
    Binary.ofNat_positive (by decide) (by decide) (by decide)
  rcases h with heq | heq
  · exact heq.symm ▸ hplain
  · exact heq.symm ▸ hnanos

/-- A larger raw word is exposed as a number that is no smaller. -/
theorem expose_mono (h : d.scale.Positive) {raw raw' : Nat} (hle : raw ≤ raw') :
    (d.expose raw).le (d.expose raw') = true :=
  Binary.div_le_div h (Binary.unsigned_ofNat raw) (Binary.unsigned_ofNat raw')
    (Binary.ofNat_le_ofNat hle)

theorem expose_zero (h : d.scale.Positive) : d.expose 0 = .zero false := Binary.ofNat_zero_div h

/-- What stands for a slot is no less than what stands for a slot before it. -/
theorem valueOf_mono {l : Layout} {low top digits : Nat} (h : l.Built low top digits) {p q : Real64}
    (hzero : q.same (.zero false) = true → p.same (.zero false) = true) {slot v : Nat}
    (hv : v ≤ wordMax) (hslot : slot ≤ l.slotOf v) :
    SlotCounts.valueOf l p slot ≤ SlotCounts.valueOf l q (l.slotOf v) := by
  have hlowest := Layout.lowestOf_mono h.sub_pos hslot
  unfold SlotCounts.valueOf
  by_cases hq : q.same (.zero false) = true
  · rw [if_pos hq, if_pos (hzero hq)]
    exact hlowest
  · rw [if_neg hq]
    by_cases hp : p.same (.zero false) = true
    · rw [if_pos hp]
      exact Nat.le_trans hlowest (Layout.lowestOf_le_highestOf h.sub_pos h.bits hv)
    · rw [if_neg hp]
      exact Layout.highestOf_mono h.sub_pos hslot

/-- Every word is counted in the slot of some word. -/
theorem exists_target (h : create spec scale = .ok d) {x : Nat} (hx : x ≤ wordMax) :
    ∃ v ≤ wordMax, d.slots.target x = d.slots.layout.slotOf v := by
  have hbuilt := built_of_create h
  by_cases hreach : x < d.slots.layout.reach
  · exact ⟨x, hx, SlotCounts.target_of_lt_reach hbuilt hreach⟩
  · refine ⟨d.slots.layout.high, ?_, SlotCounts.target_of_reach_le hbuilt (Nat.le_of_not_lt hreach)⟩
    rw [hbuilt.high]
    exact highOf_le spec scale

/-- **Ascending quantiles** are reported ascending, if a rank is reached where a smaller one is. -/
theorem reported_mono (h : create spec scale = .ok d) {xs : List UInt64} {p q : Real64}
    (hle : p.le q = true) (hzero : q.same (.zero false) = true → p.same (.zero false) = true)
    (hrank : SlotCounts.rank xs.length p ≤ xs.length → SlotCounts.rank xs.length q ≤ xs.length) :
    (d.recordAll xs).reported p ≤ (d.recordAll xs).reported q := by
  by_cases hp : SlotCounts.rank xs.length p ≤ xs.length
  · obtain ⟨slot, hslot, hvalue⟩ := reported_of_rank_le h hp
    obtain ⟨slot', hslot', hvalue'⟩ := reported_of_rank_le h (hrank hp)
    have hslots := SlotCounts.slotAtRank_mono (d.recordAll xs).slots.counts.ascending
      (SlotCounts.rank_mono xs.length hle) hslot hslot'
    obtain ⟨n, hn⟩ := SlotCounts.slotAtRank_mem hslot'
    obtain ⟨x, -, heq⟩ := mem_of_create h hn
    obtain ⟨v, hv, htarget⟩ := exists_target h (toNat_le_wordMax x)
    rw [heq, htarget] at hslots hvalue'
    rw [hvalue, hvalue']
    exact valueOf_mono (built_of_create h) hzero hv hslots
  · rw [reported_of_lt_rank h (Nat.lt_of_not_le hp)]
    exact Nat.zero_le _

/-! ## Snapshots -/

/-- The values at the quantiles of a snapshot are in ascending order. -/
def Ascending (s : Snapshot) : Prop := s.percentiles.Pairwise fun v w => v.value.le w.value = true

instance (s : Snapshot) : Decidable (Ascending s) :=
  inferInstanceAs (Decidable (s.percentiles.Pairwise _))

/-- A snapshot publishes what is reported, also where nothing is recorded. -/
theorem percentiles_of_create (h : create spec scale = .ok d) (hscale : scale.Positive)
    (xs : List UInt64) :
    (d.recordAll xs).snapshot.percentiles =
      spec.percentiles.map fun q => ⟨q, (d.recordAll xs).expose ((d.recordAll xs).reported q)⟩ := by
  rw [← spec_of_create h xs]
  by_cases hcount : (d.recordAll xs).count = 0
  · have hxs : xs.length = 0 := (sum_of_create h xs).2.symm.trans hcount
    have hzero : ∀ q, (d.recordAll xs).expose ((d.recordAll xs).reported q) = .zero false := by
      intro q
      have hrank : xs.length < SlotCounts.rank xs.length q := hxs ▸ SlotCounts.rank_pos _ q
      rw [reported_of_lt_rank h hrank]
      exact expose_zero ((scale_of_create h xs).symm ▸ hscale)
    unfold snapshot
    simp only [if_pos hcount, hzero]
  · exact percentiles_snapshot _ hcount

/-- The counts of ascending bounds are cumulative, up to all that is recorded. -/
theorem buckets_cumulative (h : create spec scale = .ok d) (hscale : scale.Positive)
    (hbuckets : spec.buckets.Pairwise fun a b => a.le b = true) (xs : List UInt64) :
    ((d.recordAll xs).snapshot.buckets.map (·.count) ++ [(d.recordAll xs).snapshot.count]).Pairwise
      (· ≤ ·) := by
  have hcounts : (d.recordAll xs).snapshot.buckets.map (·.count) =
      spec.buckets.map (d.recordAll xs).counted := by
    rw [buckets_snapshot, spec_of_create h, List.map_map]
    rfl
  rw [hcounts, List.pairwise_append, List.pairwise_map]
  refine ⟨hbuckets.imp fun {a b} hab => ?_, List.pairwise_singleton _ _, ?_⟩
  · refine SlotCounts.upTo_mono _ ?_
    unfold rawBound
    rw [scale_of_create h]
    exact Binary.roundWord_mul_mono hscale.unsigned hab
  · intro n hn total htotal
    obtain ⟨b, -, rfl⟩ := List.mem_map.mp hn
    obtain ⟨hsum, hcount⟩ := sum_of_create h xs
    rw [List.mem_singleton.mp htotal]
    show (d.recordAll xs).counted b ≤ (d.recordAll xs).count
    rw [hcount, ← hsum]
    exact SlotCounts.countWhere_le _ _

/-- **The shape of a snapshot** with ascending quantiles, none below zero before zero, and ascending
bounds. The counts of its buckets are cumulative, up to all that is recorded. Its values at the
quantiles that are reached ascend; those at the others are zero, and as long as a double can count
the words all of them ascend. Without words they are zero. The order of the words does not
matter. -/
theorem snapshot_wellShaped (h : create spec scale = .ok d)
    (hscale : scale = plain ∨ scale = Meter.nanosScale)
    (hpercentiles : spec.percentiles.Pairwise fun p q => p.le q = true)
    (hzeros : spec.percentiles.Pairwise fun p q =>
      q.same (.zero false) = true → p.same (.zero false) = true)
    (hbuckets : spec.buckets.Pairwise fun a b => a.le b = true) (xs : List UInt64) :
    ((d.recordAll xs).snapshot.buckets.map (·.count) ++ [(d.recordAll xs).snapshot.count]).Pairwise
      (· ≤ ·) ∧
    ((d.recordAll xs).snapshot.percentiles.filter fun v =>
      SlotCounts.rank xs.length v.percentile ≤ xs.length).Pairwise
        (fun v w => v.value.le w.value = true) ∧
    (∀ v ∈ (d.recordAll xs).snapshot.percentiles,
      xs.length < SlotCounts.rank xs.length v.percentile → v.value = .zero false) ∧
    (xs.length ≤ 2 ^ 53 → Ascending (d.recordAll xs).snapshot) ∧
    (xs = [] → ∀ v ∈ (d.recordAll xs).snapshot.percentiles, v.value = .zero false) ∧
    ∀ ys : List UInt64, xs.Perm ys → (d.recordAll ys).snapshot = (d.recordAll xs).snapshot := by
  have hpos := positive_of_scale hscale
  have hd : (d.recordAll xs).scale.Positive := (scale_of_create h xs).symm ▸ hpos
  have hlist := hpercentiles.and hzeros
  have hunreached : ∀ v ∈ (d.recordAll xs).snapshot.percentiles,
      xs.length < SlotCounts.rank xs.length v.percentile → v.value = .zero false := by
    intro v hv hrank
    rw [percentiles_of_create h hpos] at hv
    obtain ⟨q, -, rfl⟩ := List.mem_map.mp hv
    dsimp only at hrank ⊢
    rw [reported_of_lt_rank h hrank, expose_zero hd]
  refine ⟨buckets_cumulative h hpos hbuckets xs, ?_, hunreached, fun hlength => ?_, ?_, ?_⟩
  · simp only [percentiles_of_create h hpos, List.pairwise_filter, List.pairwise_map,
      decide_eq_true_eq]
    refine hlist.imp fun hpq _ hq => expose_mono hd ?_
    exact reported_mono h hpq.1 hpq.2 fun _ => hq
  · simp only [Ascending, percentiles_of_create h hpos, List.pairwise_map]
    refine hlist.imp fun {p q} hpq => expose_mono hd (reported_mono h hpq.1 hpq.2 fun hp => ?_)
    have hpos : 0 < xs.length := Nat.lt_of_lt_of_le (SlotCounts.rank_pos _ p) hp
    exact SlotCounts.rank_le hpos hlength q
  · rintro rfl v hv
    exact hunreached v hv (SlotCounts.rank_pos _ _)
  · intro ys hperm
    rw [recordAll_perm hperm]

/-- The default quantiles, with buckets up to one, five and ten. -/
def defaultQuantiles : DistributionSpec :=
  ⟨defaultPercentiles, [decimal 1 0, decimal 5 0, decimal 10 0], none, none, 3⟩

/-- Snapshots of the default quantiles are well shaped. -/
theorem defaultQuantiles_wellShaped : ∃ d, create defaultQuantiles plain = .ok d ∧
    ∀ xs : List UInt64,
      ((d.recordAll xs).snapshot.buckets.map (·.count) ++
        [(d.recordAll xs).snapshot.count]).Pairwise (· ≤ ·) ∧
      (xs.length ≤ 2 ^ 53 → Ascending (d.recordAll xs).snapshot) := by
  obtain ⟨d, hd, -⟩ : ∃ d, create defaultQuantiles plain = .ok d ∧ d.count = 0 :=
    exists_of_create (by decide +kernel)
  refine ⟨d, hd, fun xs => ?_⟩
  obtain ⟨hcumulative, -, -, hascending, -⟩ := snapshot_wellShaped hd (.inl rfl)
    (by decide +kernel) (by decide +kernel) (by decide +kernel) xs
  exact ⟨hcumulative, hascending⟩

/-! ## Snapshots that are not well shaped -/

/-- A quantile below zero before zero, in slots of a thousand words. -/
def belowZero : DistributionSpec :=
  ⟨[(decimal 1 0).neg, decimal 0 0], [], some (decimal 1024 0), none, 3⟩

/-- Below zero the end of the first slot is read, and at zero its start. -/
theorem descends_below_zero : ∃ d, create belowZero plain = .ok d ∧
    ¬ Ascending (d.recordAll [5]).snapshot := by
  obtain ⟨d, hd, hdescends⟩ : ∃ d, create belowZero plain = .ok d ∧
      decide (Ascending (d.recordAll [5]).snapshot) = false :=
    exists_of_create (by decide +kernel)
  exact ⟨d, hd, of_decide_eq_false hdescends⟩

/-- The median and the greatest word. -/
def medianAndGreatest : DistributionSpec := ⟨[decimal 5 (-1), decimal 1 0], [], none, none, 3⟩

/-- More words than a double can count. -/
def uncountable : List UInt64 := .replicate (2 ^ 53 + 3) 5

/-- The median of so many words is reached, their greatest is not. -/
theorem reported_uncountable {d : Distribution} (hd : create medianAndGreatest plain = .ok d) :
    (d.recordAll uncountable).reported (decimal 5 (-1)) =
      SlotCounts.valueOf d.slots.layout (decimal 5 (-1)) (d.slots.target 5) ∧
    (d.recordAll uncountable).reported (decimal 1 0) = 0 := by
  have hlength : uncountable.length = 2 ^ 53 + 3 := List.length_replicate
  constructor
  · have hrank : SlotCounts.rank uncountable.length (decimal 5 (-1)) ≤ uncountable.length := by
      rw [hlength]
      decide +kernel
    obtain ⟨x, hx, heq⟩ := reported_mem hd hrank
    rw [List.eq_of_mem_replicate hx] at heq
    exact heq
  · refine reported_of_lt_rank hd ?_
    rw [hlength]
    decide +kernel

theorem descends_uncountable : ∃ d, create medianAndGreatest plain = .ok d ∧
    ¬ Ascending (d.recordAll uncountable).snapshot := by
  obtain ⟨d, hd, hvalue⟩ : ∃ d, create medianAndGreatest plain = .ok d ∧
      (d.expose (SlotCounts.valueOf d.slots.layout (decimal 5 (-1)) (d.slots.target 5))).le
        (d.expose 0) = false :=
    exists_of_create (by decide +kernel)
  refine ⟨d, hd, fun hascending => ?_⟩
  obtain ⟨hmedian, hgreatest⟩ := reported_uncountable hd
  have hexpose : ∀ raw, (d.recordAll uncountable).expose raw = d.expose raw := by
    intro raw
    unfold expose
    rw [scale_recordAll]
  unfold Ascending at hascending
  rw [percentiles_of_create hd (positive_of_scale (.inl rfl)), List.pairwise_map] at hascending
  have hle := (List.pairwise_cons.mp hascending).1 (decimal 1 0) List.mem_cons_self
  simp only [hmedian, hgreatest, hexpose, hvalue, Bool.false_eq_true] at hle

/-- Ascending quantiles are not always published in ascending order: not below zero before zero, and
not of more words than a double can count. -/
theorem percentiles_descend :
    (belowZero.percentiles.Pairwise (fun p q => p.le q = true) ∧
      ∃ d, create belowZero plain = .ok d ∧ ¬ Ascending (d.recordAll [5]).snapshot) ∧
    medianAndGreatest.percentiles.Pairwise (fun p q => p.le q = true) ∧
      ∃ d, create medianAndGreatest plain = .ok d ∧
        ¬ Ascending (d.recordAll uncountable).snapshot :=
  ⟨⟨by decide +kernel, descends_below_zero⟩, by decide +kernel, descends_uncountable⟩

end Distribution

end Telemetry
