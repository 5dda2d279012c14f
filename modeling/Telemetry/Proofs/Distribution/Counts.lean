import Telemetry.Distribution.Basic
import Telemetry.Proofs.Distribution.Slots
import Telemetry.Proofs.Rounding.Order
import Telemetry.Proofs.SortedMap

/-!
# What the slots of recorded words say

Recording words in turn (`recordAll`) adds one to the slot of each, so the slots up to a bound count
the words whose slots end there (`upTo_recordAll`), and the order of the words does not matter
(`recordAll_perm`).

What is read at a quantile is the value of the slot at which its `rank` is reached. A rank is never
past the number of words for as many of them as a double can count (`rank_le`); past it zero is read
(`reported_of_lt_rank`). Up to it something recorded stands behind what is read (`reported_mem`).
-/

namespace Telemetry

theorem toNat_le_wordMax (x : UInt64) : x.toNat ≤ wordMax := Nat.le_of_lt_succ x.toNat_lt

namespace SlotCounts

variable {c : SlotCounts}

/-! ## Targets -/

section Targets

variable {low top digits x : Nat} (h : c.layout.Built low top digits)
include h

/-- Words within reach are counted in their own slots. -/
theorem target_of_lt_reach (hx : x < c.layout.reach) : c.target x = c.layout.slotOf x := by
  unfold target
  simp only
  rw [if_pos ((h.slots x).mpr hx)]

/-- Words past the reach are counted as the highest value. -/
theorem target_of_reach_le (hx : c.layout.reach ≤ x) :
    c.target x = c.layout.slotOf c.layout.high := by
  unfold target
  simp only
  rw [if_neg fun hslot => Nat.not_lt_of_le hx ((h.slots x).mp hslot)]

/-- Words up to the highest value are counted in their own slots. -/
theorem target_of_le_top (hx : x ≤ top) : c.target x = c.layout.slotOf x :=
  target_of_lt_reach h (Nat.lt_of_le_of_lt (h.high ▸ hx) h.high_lt)

end Targets

/-! ## Ranks -/

/-- The slots of the counts are reached in turn. -/
theorem slotAtRank_mem {rank slot : Nat} {entries : List (Nat × Nat)} {before : Nat}
    (h : slotAtRank rank entries before = some slot) : ∃ n, (slot, n) ∈ entries := by
  induction entries generalizing before with
  | nil => cases h
  | cons e entries ih =>
    obtain ⟨s, n⟩ := e
    unfold slotAtRank at h
    split at h
    · cases h
      exact ⟨n, List.mem_cons_self⟩
    · obtain ⟨n', hn'⟩ := ih h
      exact ⟨n', List.mem_cons_of_mem _ hn'⟩

/-- A rank is reached up to the number of values. -/
theorem slotAtRank_eq_none_iff {rank : Nat} {entries : List (Nat × Nat)} {before : Nat}
    (hbefore : before < rank) :
    slotAtRank rank entries before = none ↔ before + (entries.map Prod.snd).sum < rank := by
  induction entries generalizing before with
  | nil => simpa [slotAtRank] using hbefore
  | cons e entries ih =>
    obtain ⟨s, n⟩ := e
    unfold slotAtRank
    rw [List.map_cons, List.sum_cons]
    split
    · simp only [reduceCtorEq, false_iff]
      omega
    · rw [ih (by omega)]
      omega

/-- A larger rank is reached at a slot that does not lie before. -/
theorem slotAtRank_mono {r r' slot slot' : Nat} {entries : List (Nat × Nat)} {before : Nat}
    (hasc : entries.Pairwise fun a b => compare a.1 b.1 = .lt) (hr : r ≤ r')
    (h : slotAtRank r entries before = some slot) (h' : slotAtRank r' entries before = some slot') :
    slot ≤ slot' := by
  induction entries generalizing before with
  | nil => cases h
  | cons e entries ih =>
    obtain ⟨s, n⟩ := e
    obtain ⟨hfirst, hrest⟩ := List.pairwise_cons.mp hasc
    unfold slotAtRank at h h'
    by_cases hreached : r ≤ before + n
    · rw [if_pos hreached] at h
      cases h
      by_cases hreached' : r' ≤ before + n
      · rw [if_pos hreached'] at h'
        cases h'
        exact Nat.le_refl _
      · rw [if_neg hreached'] at h'
        obtain ⟨n', hn'⟩ := slotAtRank_mem h'
        exact Nat.le_of_lt (Nat.compare_eq_lt.mp (hfirst _ hn'))
    · rw [if_neg hreached] at h
      rw [if_neg (by omega)] at h'
      exact ih hrest h h'

/-- A quantile above one is taken as one. -/
def clampQuantile (q : Real64) : Real64 :=
  let one := Binary.ofNat .binary64 1
  if one.lt q then one else q

theorem lt_clampQuantile (q : Real64) :
    (Binary.ofNat .binary64 1).lt (clampQuantile q) = false := by
  unfold clampQuantile
  simp only
  split
  · unfold Binary.lt
    cases (Binary.ofNat .binary64 1).place? with
    | none => rfl
    | some x => exact decide_eq_false (Int.lt_irrefl x)
  · rename_i h
    simpa using h

/-- No quantile is taken to zero or away from it. -/
theorem same_zero_clampQuantile (q : Real64) :
    (clampQuantile q).same (.zero false) = q.same (.zero false) := by
  unfold clampQuantile
  simp only
  split
  · rename_i h
    have hone : (Binary.ofNat .binary64 1).same (.zero false) = false := by decide +kernel
    obtain ⟨m, hm, -⟩ :=
      Binary.ofNat_exact (f := .binary64) (by decide) (Nat.one_le_two_pow (n := 53))
    rw [hone]
    rw [hm] at h
    unfold Binary.lt at h
    unfold Binary.same
    cases hq : q.place? with
    | none => rfl
    | some y =>
      rw [hq] at h
      have hlt : (m.quanta : Int) < y := of_decide_eq_true h
      have hpos : (0 : Int) ≤ m.quanta := Int.natCast_nonneg _
      have hy : y ≠ 0 := by omega
      exact (decide_eq_false hy).symm
  · rfl

theorem clampQuantile_mono {p q : Real64} (h : p.le q = true) :
    (clampQuantile p).le (clampQuantile q) = true := by
  obtain ⟨m, hm, -⟩ :=
    Binary.ofNat_exact (f := .binary64) (by decide) (Nat.one_le_two_pow (n := 53))
  obtain ⟨x, y, hx, hy, hxy⟩ := Binary.le_iff.mp h
  have hplace : (Binary.ofNat .binary64 1).place? = some (m.quanta : Int) := by rw [hm]; rfl
  have hlt : ∀ {r : Real64} {z : Int}, r.place? = some z →
      ((Binary.ofNat .binary64 1).lt r = true ↔ (m.quanta : Int) < z) := by
    intro r z hz
    unfold Binary.lt
    rw [hplace, hz]
    exact decide_eq_true_iff
  unfold clampQuantile
  simp only [hlt hx, hlt hy]
  split_ifs with hp hq hq
  · exact Binary.le_iff.mpr ⟨_, _, hplace, hplace, Int.le_refl _⟩
  · omega
  · exact Binary.le_iff.mpr ⟨_, _, hx, hplace, by omega⟩
  · exact h

/-- How many of `total` values have to be passed to reach a quantile. -/
def rank (total : Nat) (q : Real64) : Nat :=
  max 1 ((clampQuantile q).mul (Binary.ofNat _ total)).ceilWord

theorem rank_pos (total : Nat) (q : Real64) : 0 < rank total q :=
  Nat.lt_of_lt_of_le Nat.one_pos (Nat.le_max_left 1 _)

/-- As many values as a double can count have every rank among them. -/
theorem rank_le {total : Nat} (hpos : 0 < total) (hle : total ≤ 2 ^ 53) (q : Real64) :
    rank total q ≤ total := by
  have hceil := Binary.ceilWord_mul_le (f := .binary64) (by decide) hle (lt_clampQuantile q)
  unfold rank
  omega

theorem rank_mono (total : Nat) {p q : Real64} (h : p.le q = true) :
    rank total p ≤ rank total q := by
  have hceil := Binary.ceilWord_mul_mono (Binary.unsigned_ofNat total) (clampQuantile_mono h)
  unfold rank
  omega

/-- The value that stands for a slot at a quantile. -/
def valueOf (l : Layout) (q : Real64) (slot : Nat) : Nat :=
  if q.same (.zero false) then l.lowestOf slot else l.highestOf slot

theorem atQuantile_eq (c : SlotCounts) (total : Nat) (q : Real64) :
    c.atQuantile total q =
      match slotAtRank (rank total q) c.counts.entries 0 with
      | none => 0
      | some slot => valueOf c.layout q slot := by
  show (match slotAtRank (rank total q) c.counts.entries 0 with
    | none => 0
    | some slot => valueOf c.layout (clampQuantile q) slot) = _
  unfold valueOf
  rw [same_zero_clampQuantile]

theorem slotAtRank_eq_none (c : SlotCounts) (q : Real64) :
    slotAtRank (rank c.counts.values.sum q) c.counts.entries 0 = none ↔
      c.counts.values.sum < rank c.counts.values.sum q := by
  rw [slotAtRank_eq_none_iff (rank_pos _ q), Nat.zero_add]
  rfl

/-! ## Slots up to a bound -/

theorem countWhere_eq_sum (p : Nat → Bool) (m : SortedMap Nat Nat) :
    countWhere p m.entries = (m.filter fun slot _ => p slot).values.sum := by
  show _ = ((m.entries.filter fun e => p e.1).map Prod.snd).sum
  induction m.entries with
  | nil => rfl
  | cons e entries ih =>
    obtain ⟨slot, n⟩ := e
    by_cases h : p slot = true <;> simp [countWhere, h, ih]

/-- Each value adds one to the slots that are counted with its own. -/
theorem countWhere_record (c : SlotCounts) (p : Nat → Bool) (v : Nat) :
    countWhere p (c.record v).counts.entries =
      countWhere p c.counts.entries + if p (c.target v) then 1 else 0 := by
  rw [countWhere_eq_sum, countWhere_eq_sum]
  show ((c.counts.insert (c.target v) ((c.counts.get? (c.target v)).getD 0 + 1)).filter
    fun slot _ => p slot).values.sum = _
  generalize c.target v = slot
  by_cases h : p slot = true
  · rw [SortedMap.filter_insert_pos h, if_pos h]
    have hsum := SortedMap.sum_values_insert (c.counts.filter fun slot _ => p slot) slot
      ((c.counts.get? slot).getD 0 + 1)
    rw [SortedMap.get?_filter] at hsum
    cases hget : c.counts.get? slot with
    | none =>
      rw [hget] at hsum
      simp only [Option.filter_none, Option.getD_none] at hsum ⊢
      omega
    | some n =>
      rw [hget] at hsum
      simp only [Option.filter_some, h, if_true, Option.getD_some] at hsum ⊢
      omega
  · rw [SortedMap.filter_insert_neg h, if_neg h, Nat.add_zero]

theorem upTo_record (c : SlotCounts) (v bound : Nat) :
    (c.record v).upTo bound =
      c.upTo bound + if c.layout.highestOf (c.target v) ≤ bound then 1 else 0 := by
  have hrecord := c.countWhere_record (fun slot => c.layout.highestOf slot ≤ bound) v
  simp only [decide_eq_true_eq] at hrecord
  exact hrecord

theorem countWhere_le (p : Nat → Bool) (entries : List (Nat × Nat)) :
    countWhere p entries ≤ (entries.map Prod.snd).sum := by
  induction entries with
  | nil => exact Nat.le_refl _
  | cons e entries ih =>
    obtain ⟨slot, n⟩ := e
    unfold countWhere
    rw [List.map_cons, List.sum_cons]
    split
    · exact Nat.add_le_add_left ih n
    · exact Nat.le_trans ih (Nat.le_add_left _ n)

theorem countWhere_mono {p p' : Nat → Bool} (h : ∀ slot, p slot = true → p' slot = true)
    (entries : List (Nat × Nat)) : countWhere p entries ≤ countWhere p' entries := by
  induction entries with
  | nil => exact Nat.le_refl _
  | cons e entries ih =>
    obtain ⟨slot, n⟩ := e
    unfold countWhere
    by_cases hp : p slot = true
    · rw [if_pos hp, if_pos (h slot hp)]
      exact Nat.add_le_add_left ih n
    · rw [if_neg hp]
      split
      · exact Nat.le_trans ih (Nat.le_add_left _ n)
      · exact ih

theorem upTo_mono (c : SlotCounts) {bound bound' : Nat} (h : bound ≤ bound') :
    c.upTo bound ≤ c.upTo bound' := by
  refine countWhere_mono (fun slot hslot => ?_) _
  rw [decide_eq_true_eq] at hslot ⊢
  exact Nat.le_trans hslot h

/-- The order of two values does not matter. -/
theorem record_comm (c : SlotCounts) (v w : Nat) :
    (c.record v).record w = (c.record w).record v := by
  show SlotCounts.mk c.layout (((c.record v).counts.insert (c.target w)
      (((c.record v).counts.get? (c.target w)).getD 0 + 1))) =
    ⟨c.layout, (c.record w).counts.insert (c.target v)
      (((c.record w).counts.get? (c.target v)).getD 0 + 1)⟩
  have hget : ∀ v slot, (c.record v).counts.get? slot =
      if slot = c.target v then some ((c.counts.get? (c.target v)).getD 0 + 1)
      else c.counts.get? slot :=
    fun v slot => SortedMap.get?_insert _ _ _ _
  congr 1
  refine SortedMap.ext_get? fun slot => ?_
  rw [SortedMap.get?_insert, SortedMap.get?_insert, hget, hget, hget, hget]
  by_cases heq : c.target v = c.target w
  · simp [heq]
  · split_ifs <;> simp_all

end SlotCounts

namespace Distribution

/-- Record words in turn. -/
def recordAll (d : Distribution) (xs : List UInt64) : Distribution :=
  xs.foldl (fun d x => d.record x.toNat) d

/-- The raw word that is read at a quantile. -/
def reported (d : Distribution) (q : Real64) : Nat := d.slots.atQuantile d.count q

/-- A snapshot publishes what is reported, in the exposed unit. -/
theorem percentiles_snapshot (d : Distribution) (h : d.count ≠ 0) :
    d.snapshot.percentiles = d.spec.percentiles.map fun q => ⟨q, d.expose (d.reported q)⟩ := by
  unfold snapshot reported
  simp only [if_neg h]

/-- A bound in raw units. -/
def rawBound (d : Distribution) (bound : Real64) : Nat := (bound.mul d.scale).roundWord

/-- How many recorded words are counted up to a bound. -/
def counted (d : Distribution) (bound : Real64) : Nat := d.slots.upTo (d.rawBound bound)

/-- A snapshot publishes what is counted. -/
theorem buckets_snapshot (d : Distribution) :
    d.snapshot.buckets = d.spec.buckets.map fun b => ⟨b, d.counted b⟩ := rfl

variable {d : Distribution} {spec : DistributionSpec} {scale : Real64}

/-! ## What is counted -/

theorem layout_recordAll (d : Distribution) (xs : List UInt64) :
    (d.recordAll xs).slots.layout = d.slots.layout := by
  induction xs generalizing d with
  | nil => rfl
  | cons x xs ih => exact ih (d.record x.toNat)

theorem scale_recordAll (d : Distribution) (xs : List UInt64) :
    (d.recordAll xs).scale = d.scale := by
  induction xs generalizing d with
  | nil => rfl
  | cons x xs ih => exact ih (d.record x.toNat)

theorem spec_recordAll (d : Distribution) (xs : List UInt64) : (d.recordAll xs).spec = d.spec := by
  induction xs generalizing d with
  | nil => rfl
  | cons x xs ih => exact ih (d.record x.toNat)

theorem count_recordAll (d : Distribution) (xs : List UInt64) :
    (d.recordAll xs).count = d.count + xs.length := by
  induction xs generalizing d with
  | nil => rfl
  | cons x xs ih =>
    show ((d.record x.toNat).recordAll xs).count = _
    rw [ih]
    show d.count + 1 + xs.length = d.count + (xs.length + 1)
    omega

/-- The total is the sum of the words while that fits a word. -/
theorem total_recordAll (h : d.total ≤ wordMax) (xs : List UInt64) :
    (d.recordAll xs).total = saturate (d.total + (xs.map UInt64.toNat).sum) := by
  induction xs generalizing d with
  | nil => exact (Nat.min_eq_left h).symm
  | cons x xs ih =>
    refine (ih (d := d.record x.toNat) (Nat.min_le_right _ _)).trans ?_
    show saturate (saturate (d.total + x.toNat) + _) = _
    rw [List.map_cons, List.sum_cons]
    unfold saturate
    omega

theorem sum_recordAll (d : Distribution) (xs : List UInt64) :
    (d.recordAll xs).slots.counts.values.sum = d.slots.counts.values.sum + xs.length := by
  induction xs generalizing d with
  | nil => rfl
  | cons x xs ih =>
    have hsum := SortedMap.sum_values_insert d.slots.counts (d.slots.target x.toNat)
      ((d.slots.counts.get? (d.slots.target x.toNat)).getD 0 + 1)
    show ((d.record x.toNat).recordAll xs).slots.counts.values.sum = _
    rw [ih]
    show (d.slots.counts.insert _ _).values.sum + xs.length = _ + (xs.length + 1)
    omega

/-- The slots up to a bound count the words whose slots end there. -/
theorem upTo_recordAll (d : Distribution) (xs : List UInt64) (bound : Nat) :
    (d.recordAll xs).slots.upTo bound = d.slots.upTo bound +
      xs.countP fun x => d.slots.layout.highestOf (d.slots.target x.toNat) ≤ bound := by
  induction xs generalizing d with
  | nil => rfl
  | cons x xs ih =>
    show ((d.record x.toNat).recordAll xs).slots.upTo bound = _
    rw [ih, List.countP_cons]
    show (d.slots.record x.toNat).upTo bound +
      xs.countP (fun y => d.slots.layout.highestOf (d.slots.target y.toNat) ≤ bound) = _
    rw [SlotCounts.upTo_record]
    simp only [decide_eq_true_eq]
    omega

/-- A slot with a count is one at which some recorded value is counted. -/
theorem mem_recordAll {xs : List UInt64} {slot n : Nat}
    (h : (slot, n) ∈ (d.recordAll xs).slots.counts.entries) :
    (∃ x ∈ xs, slot = d.slots.target x.toNat) ∨ ∃ n', (slot, n') ∈ d.slots.counts.entries := by
  induction xs generalizing d with
  | nil => exact .inr ⟨n, h⟩
  | cons x xs ih =>
    obtain ⟨y, hy, rfl⟩ | ⟨n', hn'⟩ := ih (d := d.record x.toNat) h
    · exact .inl ⟨y, List.mem_cons_of_mem x hy, rfl⟩
    · obtain heq | ⟨hold, -⟩ := SortedMap.mem_entries_insert.mp hn'
      · exact .inl ⟨x, List.mem_cons_self, congrArg Prod.fst heq⟩
      · exact .inr ⟨n', hold⟩

theorem record_comm (d : Distribution) (x y : Nat) :
    (d.record x).record y = (d.record y).record x := by
  unfold record
  simp only [SlotCounts.record_comm d.slots x y, Distribution.mk.injEq, true_and]
  unfold saturate
  omega

/-- **The order of the recorded words** does not matter. -/
theorem recordAll_perm {xs ys : List UInt64} (h : xs.Perm ys) (d : Distribution) :
    d.recordAll xs = d.recordAll ys :=
  h.foldl_eq' (fun x _ y _ d => record_comm d x.toNat y.toNat) d

/-! ## New distributions -/

theorem create_ok (h : create spec scale = .ok d) :
    ∃ l, Layout.of (lowOf spec scale) (highOf spec scale) spec.precision = .ok l ∧
      d = ⟨spec, scale, .empty l, 0, 0, 0⟩ := by
  unfold create at h
  cases hl : Layout.of (lowOf spec scale) (highOf spec scale) spec.precision with
  | error e =>
    rw [hl] at h
    cases h
  | ok l =>
    rw [hl] at h
    exact ⟨l, rfl, (Except.ok.inj h).symm⟩

/-- What is computed of a distribution once it is created is a fact about the one that is
created. -/
theorem exists_of_create {α : Type} {compute : Distribution → α} {a : α}
    (h : (create spec scale).toOption.map compute = some a) :
    ∃ d, create spec scale = .ok d ∧ compute d = a := by
  cases hd : create spec scale with
  | error e =>
    rw [hd] at h
    cases h
  | ok d =>
    rw [hd] at h
    exact ⟨d, rfl, Option.some.inj h⟩

/-- The greatest value that is laid out is at least twice the least one, where that is a word. -/
theorem two_mul_lowOf_le_highOf (h : 2 * lowOf spec scale ≤ wordMax) :
    2 * lowOf spec scale ≤ highOf spec scale := by
  have hsaturate : saturate (2 * lowOf spec scale) = 2 * lowOf spec scale := Nat.min_eq_left h
  unfold highOf
  simp only [hsaturate]
  split
  · exact Nat.le_max_right _ _
  · exact Nat.le_refl _

theorem highOf_le (spec : DistributionSpec) (scale : Real64) : highOf spec scale ≤ wordMax := by
  have hsaturated : saturate (2 * lowOf spec scale) ≤ wordMax := Nat.min_le_right _ _
  unfold highOf
  simp only
  split
  · exact Nat.max_le.mpr ⟨Binary.toWord_le _, hsaturated⟩
  · exact hsaturated

theorem built_of_create (h : create spec scale = .ok d) :
    d.slots.layout.Built (lowOf spec scale) (highOf spec scale) spec.precision := by
  obtain ⟨l, hl, rfl⟩ := create_ok h
  have hlow : lowOf spec scale ≠ 0 :=
    Nat.ne_of_gt (Nat.lt_of_lt_of_le Nat.one_pos (Nat.le_max_left 1 _))
  exact Layout.built_of_ok hlow (highOf_le spec scale) hl

theorem spec_of_create (h : create spec scale = .ok d) (xs : List UInt64) :
    (d.recordAll xs).spec = spec := by
  obtain ⟨l, -, rfl⟩ := create_ok h
  exact spec_recordAll _ xs

theorem scale_of_create (h : create spec scale = .ok d) (xs : List UInt64) :
    (d.recordAll xs).scale = scale := by
  obtain ⟨l, -, rfl⟩ := create_ok h
  exact scale_recordAll _ xs

/-- The slots of a new distribution up to a bound count the words whose slots end there. -/
theorem upTo_of_create (h : create spec scale = .ok d) (xs : List UInt64) (bound : Nat) :
    (d.recordAll xs).slots.upTo bound =
      xs.countP fun x => d.slots.layout.highestOf (d.slots.target x.toNat) ≤ bound := by
  rw [upTo_recordAll]
  obtain ⟨l, -, rfl⟩ := create_ok h
  exact Nat.zero_add _

/-- The counts of a new distribution are those of what is recorded. -/
theorem sum_of_create (h : create spec scale = .ok d) (xs : List UInt64) :
    (d.recordAll xs).slots.counts.values.sum = xs.length ∧ (d.recordAll xs).count = xs.length := by
  obtain ⟨l, -, rfl⟩ := create_ok h
  rw [sum_recordAll, count_recordAll]
  exact ⟨Nat.zero_add _, Nat.zero_add _⟩

theorem mem_of_create (h : create spec scale = .ok d) {xs : List UInt64} {slot n : Nat}
    (hmem : (slot, n) ∈ (d.recordAll xs).slots.counts.entries) :
    ∃ x ∈ xs, slot = d.slots.target x.toNat := by
  obtain hx | ⟨n', hn'⟩ := mem_recordAll hmem
  · exact hx
  · obtain ⟨l, -, rfl⟩ := create_ok h
    exact absurd hn' List.not_mem_nil

/-! ## What is reported -/

/-- Past the number of recorded words nothing is reached, and zero is read. -/
theorem reported_of_lt_rank (h : create spec scale = .ok d) {xs : List UInt64} {q : Real64}
    (hrank : xs.length < SlotCounts.rank xs.length q) : (d.recordAll xs).reported q = 0 := by
  obtain ⟨hsum, hcount⟩ := sum_of_create h xs
  have hnone := (d.recordAll xs).slots.slotAtRank_eq_none q
  rw [hsum] at hnone
  unfold reported
  rw [SlotCounts.atQuantile_eq, hcount, hnone.mpr hrank]

/-- What is read at a quantile whose rank is reached stands for the slot that reaches it. -/
theorem reported_of_rank_le (h : create spec scale = .ok d) {xs : List UInt64} {q : Real64}
    (hrank : SlotCounts.rank xs.length q ≤ xs.length) :
    ∃ slot, SlotCounts.slotAtRank (SlotCounts.rank xs.length q)
        (d.recordAll xs).slots.counts.entries 0 = some slot ∧
      (d.recordAll xs).reported q = SlotCounts.valueOf d.slots.layout q slot := by
  obtain ⟨hsum, hcount⟩ := sum_of_create h xs
  have hnone := (d.recordAll xs).slots.slotAtRank_eq_none q
  rw [hsum] at hnone
  unfold reported
  rw [SlotCounts.atQuantile_eq, hcount, layout_recordAll]
  cases hslot : SlotCounts.slotAtRank (SlotCounts.rank xs.length q)
      (d.recordAll xs).slots.counts.entries 0 with
  | none => exact absurd (hnone.mp hslot) (Nat.not_lt_of_le hrank)
  | some slot => exact ⟨slot, rfl, rfl⟩

/-- **What is reported** of recorded words stands for one of them. -/
theorem reported_mem (h : create spec scale = .ok d) {xs : List UInt64} {q : Real64}
    (hrank : SlotCounts.rank xs.length q ≤ xs.length) :
    ∃ x ∈ xs, (d.recordAll xs).reported q =
      SlotCounts.valueOf d.slots.layout q (d.slots.target x.toNat) := by
  obtain ⟨slot, hslot, hvalue⟩ := reported_of_rank_le h hrank
  obtain ⟨n, hn⟩ := SlotCounts.slotAtRank_mem hslot
  obtain ⟨x, hx, rfl⟩ := mem_of_create h hn
  exact ⟨x, hx, hvalue⟩

/-- What is reported of one word stands for it. -/
theorem reported_singleton (h : create spec scale = .ok d) (x : UInt64) (q : Real64) :
    (d.recordAll [x]).reported q =
    SlotCounts.valueOf d.slots.layout q (d.slots.target x.toNat) := by
  obtain ⟨y, hy, heq⟩ := reported_mem h
    (SlotCounts.rank_le (show 0 < [x].length from Nat.one_pos) Nat.one_le_two_pow q)
  rw [List.mem_singleton.mp hy] at heq
  exact heq

end Distribution

end Telemetry
