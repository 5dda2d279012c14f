import Mathlib.Tactic.SplitIfs
import Telemetry.Proofs.Rounding

/-!
# Rounding keeps the order

A larger fraction is not rounded below a smaller one (`round_mono`): where both have the same
spacing the nearest whole numbers keep the order, and otherwise a power of two lies between them
that neither passes. Hence multiplication by a number with a plus sign keeps the order of the words
that are made of the products (`toWord_mul_mono`), and division by a positive number that of the
quotients (`div_le_div`).
-/

namespace Telemetry

theorem nearestEven_mono {num num' : Nat} (den : Nat) (h : num ≤ num') :
    nearestEven num den ≤ nearestEven num' den := by
  have hq : num / den ≤ num' / den := Nat.div_le_div_right h
  by_cases heq : num / den = num' / den
  · have hr : num % den ≤ num' % den := by
      have h1 := Nat.div_add_mod num den
      have h2 := Nat.div_add_mod num' den
      rw [heq] at h1
      omega
    unfold nearestEven
    rw [heq]
    simp only
    split_ifs <;> omega
  · have h1 := nearestEven_le num den
    have h2 := le_nearestEven num' den
    omega

/-- **Rounding keeps the order.** -/
theorem Format.round_mono {f : Format} {num num' den : Nat} (hden : 0 < den) (h : num ≤ num') :
    f.round num den ≤ f.round num' den := by
  have hq : num / den ≤ num' / den := Nat.div_le_div_right h
  by_cases hs : f.spacing (num / den) = f.spacing (num' / den)
  · unfold round
    rw [hs]
    exact Nat.mul_le_mul_right _ (nearestEven_mono _ h)
  · -- the leading power of two of the larger one lies between them
    have hlog : (num / den).log2 < (num' / den).log2 := by
      refine Nat.lt_of_not_le fun hle => hs ?_
      exact Nat.le_antisymm (spacing_mono hq) (by unfold spacing; omega)
    have hn : num' / den ≠ 0 := by
      intro h0
      rw [h0, Nat.log2_zero] at hlog
      omega
    have hbelow : num / den < 2 ^ (num' / den).log2 :=
      Nat.lt_of_lt_of_le Nat.lt_log2_self (Nat.pow_le_pow_right (by decide) hlog)
    have hpower : 2 ^ f.spacing (2 ^ (num' / den).log2) ∣ 2 ^ (num' / den).log2 := by
      refine Nat.pow_dvd_pow 2 ?_
      have := f.spacing_le_log2 (2 ^ (num' / den).log2)
      rwa [Nat.log2_two_pow] at this
    calc f.round num den ≤ 2 ^ (num' / den).log2 :=
          round_le hden hpower (Nat.le_of_lt ((Nat.div_lt_iff_lt_mul hden).mp hbelow))
      _ ≤ f.round num' den := two_pow_log2_le_round hn

theorem saturate_mono {m n : Nat} (h : m ≤ n) : saturate m ≤ saturate n := by
  unfold saturate
  omega

namespace Binary

variable {f : Format} {a b c : Binary f}

/-! ## Order -/

theorem le_iff : a.le b = true ↔ ∃ x y, a.place? = some x ∧ b.place? = some y ∧ x ≤ y := by
  unfold le
  cases a.place? <;> cases b.place? <;> simp

theorem le_trans (hab : a.le b = true) (hbc : b.le c = true) : a.le c = true := by
  obtain ⟨x, y, hx, hy, hxy⟩ := le_iff.mp hab
  obtain ⟨y', z, hy', hz, hyz⟩ := le_iff.mp hbc
  obtain rfl : y = y' := Option.some.inj (hy.symm.trans hy')
  exact le_iff.mpr ⟨x, z, hx, hz, Int.le_trans hxy hyz⟩

/-- A number with a plus sign. -/
inductive Unsigned : Binary f → Prop
  | infinite : Unsigned (infinite false)
  | finite (m : Magnitude f) : Unsigned (finite false m)

/-- A finite number above zero. -/
inductive Positive : Binary f → Prop
  | finite (m : Magnitude f) (h : m.quanta ≠ 0) : Positive (finite false m)

theorem Positive.unsigned (h : a.Positive) : a.Unsigned := by
  cases h with
  | finite m hm => exact .finite m

/-- A number that is not above zero has a minus sign or is zero. -/
theorem cases_of_le_zero (h : a.le (zero false) = true) :
    a = infinite true ∨ (∃ m, a = finite true m) ∨ ∃ m, a = finite false m ∧ m.quanta = 0 := by
  have hpow : (0 : Nat) < 2 ^ f.width := Nat.two_pow_pos _
  obtain ⟨x, y, hx, hy, hle⟩ := le_iff.mp h
  obtain rfl : y = 0 := (Option.some.inj hy).symm
  rcases a with _ | ⟨_ | _⟩ | ⟨_ | _, m⟩
  · cases hx
  · simp only [place?, Bool.false_eq_true, if_false, Option.some.injEq] at hx
    omega
  · exact .inl rfl
  · simp only [place?, Bool.false_eq_true, if_false, Option.some.injEq] at hx
    exact .inr (.inr ⟨m, rfl, by omega⟩)
  · exact .inr (.inl ⟨m, rfl⟩)

theorem unsigned_of_not_le_zero (ha : a.place? ≠ none) (h : a.le (zero false) ≠ true) :
    a.Unsigned := by
  have hpow : (0 : Nat) < 2 ^ f.width := Nat.two_pow_pos _
  rcases a with _ | ⟨_ | _⟩ | ⟨_ | _, m⟩
  · exact absurd rfl ha
  · exact .infinite
  · refine absurd (le_iff.mpr ⟨_, 0, rfl, rfl, ?_⟩) h
    simp only [if_true]
    omega
  · exact .finite m
  · refine absurd (le_iff.mpr ⟨_, 0, rfl, rfl, ?_⟩) h
    simp only [if_true]
    omega

theorem finite_le_finite {m n : Magnitude f} :
    (finite false m).le (finite false n) = true ↔ m.quanta ≤ n.quanta := by
  unfold le place?
  simp

theorem not_infinite_le_finite {m : Magnitude f} : (infinite false).le (finite false m) ≠ true := by
  intro h
  obtain ⟨x, y, hx, hy, hle⟩ := le_iff.mp h
  cases hx
  cases hy
  exact absurd (Int.ofNat_le.mp hle) (Nat.not_le_of_lt m.fits.1)

theorem unsigned_ofRatio (num den : Nat) : (ofRatio false num den : Binary f).Unsigned := by
  unfold ofRatio
  split
  · exact .finite _
  · exact .infinite

theorem le_infinite (ha : a.Unsigned) : a.le (infinite false) = true := by
  cases ha with
  | infinite => exact le_iff.mpr ⟨_, _, rfl, rfl, Int.le_refl _⟩
  | finite m => exact le_iff.mpr ⟨_, _, rfl, rfl, Int.ofNat_le.mpr (Nat.le_of_lt m.fits.1)⟩

theorem ofRatio_le_ofRatio {num num' den : Nat} (hden : 0 < den) (h : num ≤ num') :
    (ofRatio false num den : Binary f).le (ofRatio false num' den) = true := by
  have hround := Format.round_mono (f := f) hden h
  by_cases hw : f.round num' den < 2 ^ f.width
  · unfold ofRatio
    rw [dif_pos hw, dif_pos (Nat.lt_of_le_of_lt hround hw)]
    exact finite_le_finite.mpr hround
  · have hinf : (ofRatio false num' den : Binary f) = infinite false := dif_neg hw
    rw [hinf]
    exact le_infinite (unsigned_ofRatio _ _)

theorem unsigned_ofNat (n : Nat) : (ofNat f n).Unsigned := unsigned_ofRatio _ _

theorem ofNat_le_ofNat {m n : Nat} (h : m ≤ n) : (ofNat f m).le (ofNat f n) = true :=
  ofRatio_le_ofRatio Nat.one_pos (Nat.mul_le_mul_right _ h)

/-- Small whole numbers above zero are converted exactly. -/
theorem ofNat_positive (hw : f.digits + f.fraction < f.width) {n : Nat} (hpos : n ≠ 0)
    (hn : n ≤ 2 ^ f.digits) : (ofNat f n).Positive := by
  obtain ⟨m, heq, hq⟩ := ofNat_exact hw hn
  have hm : m.quanta ≠ 0 := hq ▸ Nat.mul_ne_zero hpos (Nat.ne_of_gt (Nat.two_pow_pos _))
  rw [heq]
  exact .finite m hm

theorem ofRatio_zero (den : Nat) : (ofRatio false 0 den : Binary f) = zero false := by
  have hround : f.round 0 den = 0 := by
    unfold Format.round nearestEven
    simp
  have hpow : f.round 0 den < 2 ^ f.width := hround.symm ▸ Nat.two_pow_pos _
  unfold ofRatio zero
  rw [dif_pos hpow]
  simp only [hround]

/-- **Division by a positive number** keeps the order. -/
theorem div_le_div {s : Binary f} (hs : s.Positive) (ha : a.Unsigned) (hb : b.Unsigned)
    (h : a.le b = true) : (a.div s).le (b.div s) = true := by
  obtain ⟨s, hs⟩ := hs
  have hdiv : ∀ m : Magnitude f, (finite false m).div (finite false s) =
      ofRatio false (m.quanta * 2 ^ f.fraction) s.quanta := fun m => if_neg hs
  cases hb with
  | infinite =>
    cases ha with
    | infinite => exact h
    | finite m =>
      rw [hdiv]
      exact le_infinite (unsigned_ofRatio _ _)
  | finite n =>
    cases ha with
    | infinite => exact absurd h not_infinite_le_finite
    | finite m =>
      rw [hdiv, hdiv]
      exact ofRatio_le_ofRatio (Nat.pos_of_ne_zero hs)
        (Nat.mul_le_mul_right _ (finite_le_finite.mp h))

theorem ofNat_zero_div {s : Binary f} (hs : s.Positive) : (ofNat f 0).div s = zero false := by
  obtain ⟨s, hs⟩ := hs
  have hzero : ofNat f 0 = zero false := by
    unfold ofNat
    rw [Nat.zero_mul]
    exact ofRatio_zero 1
  have hdiv : (zero false : Binary f).div (finite false s) =
      ofRatio false (0 * 2 ^ f.fraction) s.quanta := if_neg hs
  rw [hzero, hdiv, Nat.zero_mul]
  exact ofRatio_zero _

/-! ## Words of products -/

section Words

variable {part : Nat → Nat} {s : Binary f}

theorem toWord_le (a : Binary f) : a.toWord part ≤ wordMax := by
  unfold toWord
  split
  · exact Nat.zero_le _
  · exact Nat.zero_le _
  · exact Nat.le_refl _
  · exact Nat.zero_le _
  · exact Nat.min_le_right _ _

theorem toWord_ofRatio_true (num den : Nat) :
    (ofRatio true num den : Binary f).toWord part = 0 := by
  unfold ofRatio
  split <;> rfl

theorem toWord_ofRatio_zero (hzero : part 0 = 0) (den : Nat) :
    (ofRatio false 0 den : Binary f).toWord part = 0 := by
  rw [ofRatio_zero]
  show saturate (part 0) = 0
  rw [hzero]
  rfl

theorem toWord_ofRatio_mono (hpart : ∀ m n, m ≤ n → part m ≤ part n) {num num' den : Nat}
    (hden : 0 < den) (h : num ≤ num') :
    (ofRatio false num den : Binary f).toWord part ≤
    (ofRatio false num' den : Binary f).toWord part := by
  have hround := Format.round_mono (f := f) hden h
  by_cases hw : f.round num' den < 2 ^ f.width
  · unfold ofRatio
    rw [dif_pos hw, dif_pos (Nat.lt_of_le_of_lt hround hw)]
    exact saturate_mono (hpart _ _ hround)
  · have hinf : (ofRatio false num' den : Binary f) = infinite false := dif_neg hw
    rw [hinf]
    exact toWord_le _

/-- A product with a number that is not above zero makes no word but zero. -/
theorem toWord_mul_of_le_zero (hzero : part 0 = 0) (hs : s.Unsigned)
    (ha : a.le (zero false) = true) :
    (a.mul s).toWord part = 0 := by
  cases hs with
  | infinite =>
    rcases cases_of_le_zero ha with rfl | ⟨m, rfl⟩ | ⟨m, rfl, hm⟩
    · rfl
    · unfold mul
      simp only
      split <;> rfl
    · unfold mul
      simp only
      rw [if_pos hm]
      rfl
  | finite k =>
    rcases cases_of_le_zero ha with rfl | ⟨m, rfl⟩ | ⟨m, rfl, hm⟩
    · unfold mul
      simp only
      split <;> rfl
    · exact toWord_ofRatio_true _ _
    · show (ofRatio false (m.quanta * k.quanta) (2 ^ f.fraction) : Binary f).toWord part = 0
      rw [hm, Nat.zero_mul]
      exact toWord_ofRatio_zero hzero _

/-- A product with an infinity makes the largest word, or zero where the other factor is zero. -/
theorem toWord_mul_le_infinite (hzero : part 0 = 0) (ha : a.Unsigned) (hs : s.Unsigned) :
    (a.mul s).toWord part ≤ ((infinite false).mul s).toWord part := by
  cases hs with
  | infinite => exact toWord_le _
  | finite k =>
    by_cases hk : k.quanta = 0
    · cases ha with
      | infinite => exact Nat.le_refl _
      | finite m =>
        show (ofRatio false (m.quanta * k.quanta) (2 ^ f.fraction) : Binary f).toWord part ≤ _
        rw [hk, Nat.mul_zero, toWord_ofRatio_zero hzero]
        exact Nat.zero_le _
    · have hinf : (infinite false).mul (finite false k) = infinite false := if_neg hk
      rw [hinf]
      exact toWord_le _

/-- **Words of products** keep the order of the numbers that are multiplied. -/
theorem toWord_mul_mono (hpart : ∀ m n, m ≤ n → part m ≤ part n) (hzero : part 0 = 0)
    (hs : s.Unsigned) (h : a.le b = true) : (a.mul s).toWord part ≤ (b.mul s).toWord part := by
  by_cases hza : a.le (zero false) = true
  · rw [toWord_mul_of_le_zero hzero hs hza]
    exact Nat.zero_le _
  obtain ⟨x, y, hx, hy, -⟩ := le_iff.mp h
  have ha : a.Unsigned := unsigned_of_not_le_zero (by simp [hx]) hza
  have hb : b.Unsigned := unsigned_of_not_le_zero (by simp [hy]) fun hzb => hza (le_trans h hzb)
  cases hb with
  | infinite => exact toWord_mul_le_infinite hzero ha hs
  | finite n =>
    cases ha with
    | infinite => exact absurd h not_infinite_le_finite
    | finite m =>
      have hmn := finite_le_finite.mp h
      cases hs with
      | infinite =>
        have hm : m.quanta ≠ 0 := by
          intro hm
          refine hza (le_iff.mpr ⟨_, _, rfl, rfl, ?_⟩)
          simp [hm]
        have hmul : ∀ k : Magnitude f, k.quanta ≠ 0 →
            (finite false k).mul (infinite false) = infinite false := fun k hk => if_neg hk
        have hn : n.quanta ≠ 0 := by omega
        exact Nat.le_of_eq (by rw [hmul m hm, hmul n hn])
      | finite k => exact toWord_ofRatio_mono hpart (Nat.two_pow_pos _) (Nat.mul_le_mul_right _ hmn)

theorem roundWord_mul_mono (hs : s.Unsigned) (h : a.le b = true) :
    (a.mul s).roundWord ≤ (b.mul s).roundWord := by
  refine toWord_mul_mono (fun m n hmn => Nat.div_le_div_right (by omega)) ?_ hs h
  rw [Nat.mul_zero, Nat.zero_add, Nat.div_eq_of_lt]
  exact Nat.pow_lt_pow_right (by decide) (Nat.lt_succ_self _)

theorem ceilWord_mul_mono (hs : s.Unsigned) (h : a.le b = true) :
    (a.mul s).ceilWord ≤ (b.mul s).ceilWord := by
  refine toWord_mul_mono (fun m n hmn => Nat.div_le_div_right (by omega)) ?_ hs h
  rw [Nat.zero_add, Nat.div_eq_of_lt]
  exact Nat.sub_lt (Nat.two_pow_pos _) Nat.one_pos

end Words

/-! ## Exact products -/

/-- One leaves every number as it is. -/
theorem mul_ofNat_one (hw : f.digits + f.fraction < f.width) (a : Binary f) :
    a.mul (ofNat f 1) = a := by
  obtain ⟨one, hone, hq⟩ := ofNat_exact hw (Nat.one_le_two_pow (n := f.digits))
  rw [Nat.one_mul] at hq
  have hpos : one.quanta ≠ 0 := hq ▸ Nat.ne_of_gt (Nat.two_pow_pos _)
  rw [hone]
  cases a with
  | nan => rfl
  | infinite sign =>
    unfold mul
    simp only
    rw [if_neg hpos, Bool.xor_false]
  | finite sign m =>
    have hround : f.round (m.quanta * one.quanta) (2 ^ f.fraction) = m.quanta := by
      rw [hq]
      exact Format.round_mul (Nat.two_pow_pos _) m.fits.2
    show ofRatio (sign ^^ false) (m.quanta * one.quanta) (2 ^ f.fraction) = finite sign m
    have hlt : f.round (m.quanta * one.quanta) (2 ^ f.fraction) < 2 ^ f.width :=
      hround.symm ▸ m.fits.1
    unfold ofRatio
    rw [dif_pos hlt, Bool.xor_false]
    congr 1
    cases m
    congr 1

end Binary

end Telemetry
