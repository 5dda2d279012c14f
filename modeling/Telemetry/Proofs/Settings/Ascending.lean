import Telemetry.Distribution.Spec
import Telemetry.Proofs.Outcomes
import Telemetry.Proofs.Rounding.Order

/-!
# Lists that ascend

Numbers that are read from a text are put in order and lose their repeats: whatever the numbers are,
as long as none is a NaN, the list then ascends strictly (`ascends_sortDistinct`). The order is by
`sortKey`, which tells the zeros apart, the repeats are told by `same`, which does not. What the
readers of the properties accept is never below zero (`notBelow_of_readNumber`, `notBelow_seconds`),
so no NaN, and a percentile is not above one (`readPercentiles_ok`).
-/

namespace Telemetry

/-- Zero, of either sign, or above it. -/
def Binary.NotBelow {f : Format} (a : Binary f) : Prop := (zero false).le a = true

instance {f : Format} (a : Binary f) : Decidable a.NotBelow :=
  inferInstanceAs (Decidable (_ = true))

/-- Each number is below the ones after it. -/
def Ascends (l : List Real64) : Prop := l.Pairwise fun a b => a.lt b = true

/-- A list of numbers from zero on, ascending. -/
structure Ascending (l : List Real64) : Prop where
  ascends : Ascends l
  notBelow : ∀ x ∈ l, x.NotBelow

namespace Binary

variable {f : Format} {a b c : Binary f}

/-! ## Less -/

theorem lt_iff : a.lt b = true ↔ ∃ x y, a.place? = some x ∧ b.place? = some y ∧ x < y := by
  unfold lt
  cases a.place? <;> cases b.place? <;> simp

theorem lt_of_lt_of_le (hab : a.lt b = true) (hbc : b.le c = true) : a.lt c = true := by
  obtain ⟨x, y, hx, hy, hxy⟩ := lt_iff.mp hab
  obtain ⟨y', z, hy', hz, hyz⟩ := le_iff.mp hbc
  obtain rfl : y = y' := Option.some.inj (hy.symm.trans hy')
  exact lt_iff.mpr ⟨x, z, hx, hz, Int.lt_of_lt_of_le hxy hyz⟩

theorem lt_of_le_of_not_same (hle : a.le b = true) (hne : ¬ a.same b = true) : a.lt b = true := by
  obtain ⟨x, y, hx, hy, hxy⟩ := le_iff.mp hle
  refine lt_iff.mpr ⟨x, y, hx, hy, Int.lt_iff_le_and_ne.mpr ⟨hxy, fun heq => hne ?_⟩⟩
  simp [same, hx, hy, heq]

/-- Of two numbers that are on the line, one is below the other or the other is not above it. -/
theorem lt_of_not_le (ha : a.place? ≠ none) (hb : b.place? ≠ none) (h : ¬ b.le a = true) :
    a.lt b = true := by
  obtain ⟨x, hx⟩ := Option.ne_none_iff_exists'.mp ha
  obtain ⟨y, hy⟩ := Option.ne_none_iff_exists'.mp hb
  refine lt_iff.mpr ⟨x, y, hx, hy, Int.not_le.mp fun hle => h ?_⟩
  exact le_iff.mpr ⟨y, x, hy, hx, hle⟩

theorem le_of_lt (h : a.lt b = true) : a.le b = true := by
  obtain ⟨x, y, hx, hy, hxy⟩ := lt_iff.mp h
  exact le_iff.mpr ⟨x, y, hx, hy, Int.le_of_lt hxy⟩

/-! ## The key of the order -/

/-- A number with a minus sign has its place just above its key, any other one at its key. -/
theorem place?_cases (ha : a.place? ≠ none) : ∃ x, a.place? = some x ∧
    (0 ≤ x ∧ a.sortKey = x ∨ x ≤ 0 ∧ a.sortKey = x - 1) := by
  rcases a with _ | ⟨_ | _⟩ | ⟨_ | _, m⟩
  · exact absurd rfl ha
  · exact ⟨_, rfl, .inl ⟨Int.natCast_nonneg _, rfl⟩⟩
  · exact ⟨_, rfl, .inr ⟨Int.neg_nonpos_of_nonneg (Int.natCast_nonneg _), rfl⟩⟩
  · exact ⟨_, rfl, .inl ⟨Int.natCast_nonneg _, rfl⟩⟩
  · exact ⟨_, rfl, .inr ⟨Int.neg_nonpos_of_nonneg (Int.natCast_nonneg _), rfl⟩⟩

/-- The key orders as numbers are ordered. -/
theorem le_of_sortKey_le (ha : a.place? ≠ none) (hb : b.place? ≠ none) (h : a.sortKey ≤ b.sortKey) :
    a.le b = true := by
  obtain ⟨x, hx, hkey⟩ := place?_cases ha
  obtain ⟨y, hy, hkey'⟩ := place?_cases hb
  exact le_iff.mpr ⟨x, y, hx, hy, by omega⟩

/-! ## Not below zero -/

theorem NotBelow.place? (h : a.NotBelow) : a.place? ≠ none := by
  obtain ⟨_, y, -, hy, -⟩ := le_iff.mp h
  rw [hy]
  exact nofun

theorem Unsigned.notBelow (h : a.Unsigned) : a.NotBelow := by
  cases h with
  | infinite => exact le_iff.mpr ⟨0, _, rfl, rfl, Int.natCast_nonneg _⟩
  | finite m => exact le_iff.mpr ⟨0, _, rfl, rfl, Int.natCast_nonneg _⟩

theorem unsigned_add (ha : a.Unsigned) (hb : b.Unsigned) : (a.add b).Unsigned := by
  cases ha with
  | infinite => cases hb <;> exact .infinite
  | finite m =>
    cases hb with
    | infinite => exact .infinite
    | finite n =>
      have hsum : ¬ ((m.quanta : Int) + n.quanta < 0) := by omega
      unfold add
      simp only [Bool.false_eq_true, if_false, Bool.and_self, hsum, decide_false]
      split
      · exact .finite _
      · exact unsigned_ofRatio _ _

theorem unsigned_div (ha : a.Unsigned) (hb : b.Positive) : (a.div b).Unsigned := by
  obtain ⟨n, hn⟩ := hb
  cases ha with
  | infinite => exact .infinite
  | finite m =>
    have hdiv : (finite false m).div (finite false n) =
        ofRatio false (m.quanta * 2 ^ f.fraction) n.quanta := if_neg hn
    rw [hdiv]
    exact unsigned_ofRatio _ _

end Binary

/-! ## Order and repeats -/

theorem mem_of_mem_dropRepeatsOf {a x : Real64} {l : List Real64} (h : x ∈ dropRepeatsOf a l) :
    x ∈ l := by
  induction l generalizing a with
  | nil => exact h
  | cons b r ih =>
    unfold dropRepeatsOf at h
    split at h
    · exact List.mem_cons_of_mem b (ih h)
    · rcases List.mem_cons.mp h with rfl | h
      · exact List.mem_cons_self
      · exact List.mem_cons_of_mem b (ih h)

/-- In a list in order the repeats stand together. -/
theorem ascends_dropRepeatsOf {a : Real64} {l : List Real64}
    (h : (a :: l).Pairwise fun x y => x.le y = true) : Ascends (a :: dropRepeatsOf a l) := by
  induction l generalizing a with
  | nil => exact List.pairwise_singleton _ _
  | cons b r ih =>
    obtain ⟨ha, hbr⟩ := List.pairwise_cons.mp h
    unfold dropRepeatsOf
    split
    · refine ih (List.pairwise_cons.mpr ⟨fun x hx => ha x (List.mem_cons_of_mem b hx), ?_⟩)
      exact (List.pairwise_cons.mp hbr).2
    · rename_i hne
      have hlt : a.lt b = true := Binary.lt_of_le_of_not_same (ha b List.mem_cons_self) hne
      refine List.pairwise_cons.mpr ⟨fun x hx => ?_, ih hbr⟩
      rcases List.mem_cons.mp hx with rfl | hx
      · exact hlt
      · exact Binary.lt_of_lt_of_le hlt
          ((List.pairwise_cons.mp hbr).1 x (mem_of_mem_dropRepeatsOf hx))

theorem ascends_dropRepeats {l : List Real64} (h : l.Pairwise fun x y => x.le y = true) :
    Ascends (dropRepeats l) := by
  cases l with
  | nil => exact List.Pairwise.nil
  | cons a l => exact ascends_dropRepeatsOf h

theorem mem_of_mem_sortDistinct {x : Real64} {l : List Real64} (h : x ∈ sortDistinct l) :
    x ∈ l := by
  unfold sortDistinct at h
  refine List.mem_mergeSort.mp (?_ : x ∈ l.mergeSort fun a b => decide (a.sortKey ≤ b.sortKey))
  generalize l.mergeSort (fun a b => decide (Binary.sortKey a ≤ Binary.sortKey b)) = sorted at h ⊢
  cases sorted with
  | nil => exact h
  | cons a r =>
    rcases List.mem_cons.mp h with rfl | h
    · exact List.mem_cons_self
    · exact List.mem_cons_of_mem a (mem_of_mem_dropRepeatsOf h)

/-- **Numbers in order without repeats ascend.** -/
theorem ascends_sortDistinct {l : List Real64} (h : ∀ x ∈ l, x.place? ≠ none) :
    Ascends (sortDistinct l) := by
  have hkeys : (l.mergeSort fun a b => decide (a.sortKey ≤ b.sortKey)).Pairwise
      fun a b => decide (a.sortKey ≤ b.sortKey) = true :=
    List.pairwise_mergeSort (fun a b c => by simpa using Int.le_trans)
      (fun a b => by simpa using Int.le_total _ _) l
  refine ascends_dropRepeats (hkeys.imp_of_mem fun {a b} ha hb hab => ?_)
  exact Binary.le_of_sortKey_le (h a (List.mem_mergeSort.mp ha)) (h b (List.mem_mergeSort.mp hb))
    (of_decide_eq_true hab)

/-! ## What is read -/

theorem notBelow_of_readNumber {cs : List Char} {x : Real64} (h : readNumber cs = .ok x) :
    x.NotBelow := by
  unfold readNumber Amount.read at h
  split at h
  · rename_i y hy
    cases h
    split at hy
    · cases hy
    · rename_i z hz
      split at hy
      · rename_i hbounds
        cases hy
        rw [Bool.and_eq_true, Bool.not_eq_true'] at hbounds
        refine Decidable.byContradiction fun hnot => ?_
        have hplace : x.place? ≠ none := by
          cases x with
          | finite sign m => exact nofun
          | _ => exact absurd hbounds.1 Bool.false_ne_true
        have hzero : (Binary.zero false : Real64).place? ≠ none := Option.some_ne_none 0
        rw [Binary.lt_of_not_le hplace hzero hnot] at hbounds
        exact absurd hbounds.2 (by decide)
      · cases hy
  · cases h
  · cases h

theorem notBelow_seconds (d : Duration) : d.seconds.NotBelow := by
  have hbits : Format.binary64.digits + Format.binary64.fraction < Format.binary64.width := by
    decide
  have hpositive : (Binary.ofNat .binary64 Duration.nanosPerSecond).Positive :=
    Binary.ofNat_positive hbits (by decide) (by decide)
  exact (Binary.unsigned_add (Binary.unsigned_ofNat _)
    (Binary.unsigned_div (Binary.unsigned_ofNat _) hpositive)).notBelow

theorem notBelow_decimal (significand : Nat) (exponent : Int) :
    (decimal significand exponent).NotBelow := by
  refine Binary.Unsigned.notBelow ?_
  unfold decimal Binary.ofDecimal
  simp only
  split
  · exact .finite _
  split
  · exact .infinite
  split
  · exact .finite _
  split
  · exact Binary.unsigned_ofRatio _ _
  · exact Binary.unsigned_ofRatio _ _

theorem notBelow_of_readSeconds {cs : List Char} {x : Real64} (h : readSeconds cs = .ok x) :
    x.NotBelow := by
  unfold readSeconds at h
  split at h
  · exact Except.ok.inj h ▸ notBelow_seconds _
  · cases h

/-- What a reader of single values reads never below zero makes a list that ascends. -/
theorem ascending_of_mapM {read : List Char → Except EntryFault Real64}
    (hread : ∀ cs x, read cs = .ok x → x.NotBelow) {texts : List (List Char)} {l : List Real64}
    (h : (texts.mapM read).map sortDistinct = .ok l) : Ascending l := by
  obtain ⟨values, hvalues, rfl⟩ := ok_of_map_ok h
  have hmem : ∀ x ∈ values, x.NotBelow := fun x hx => by
    obtain ⟨cs, -, hcs⟩ := mem_of_mapM hvalues hx
    exact hread cs x hcs
  exact ⟨ascends_sortDistinct fun x hx => (hmem x hx).place?,
    fun x hx => hmem x (mem_of_mem_sortDistinct hx)⟩

theorem readNumbers_ok {cs : List Char} {l : List Real64} (h : readNumbers cs = .ok l) :
    Ascending l :=
  ascending_of_mapM (fun _ _ => notBelow_of_readNumber) h

theorem readDurations_ok {cs : List Char} {l : List Real64} (h : readDurations cs = .ok l) :
    Ascending l :=
  ascending_of_mapM (fun _ _ => notBelow_of_readSeconds) h

theorem readPercentiles_ok {cs : List Char} {l : List Real64} (h : readPercentiles cs = .ok l) :
    Ascending l ∧ ∀ x ∈ l, x.le (decimal 1 0) = true := by
  unfold readPercentiles at h
  obtain ⟨values, hvalues, h⟩ := bind_eq_ok.mp h
  have hascending := readNumbers_ok hvalues
  split at h
  · cases h
  · rename_i hnone
    cases h
    refine ⟨hascending, fun x hx => Decidable.byContradiction fun hnot => ?_⟩
    exact List.find?_eq_none.mp hnone x hx
      (Binary.lt_of_not_le (notBelow_decimal 1 0).place? (hascending.notBelow x hx).place? hnot)

end Telemetry
