import Mathlib.Algebra.GroupWithZero.Nat
import Telemetry.Binary.Logarithm

/-!
# Bounds on rounded results

Rounding passes a number of the format neither upwards nor downwards (`round_le`, `le_round`), so
such a number is not changed by it (`round_mul`), and it does not fall below the leading power of
two (`two_pow_log2_le_round`). Hence a share of at most one of a count is at most the count
(`ceilWord_mul_le`), and the logarithm in double precision is at least the whole one
(`log2_le_wholeLog2`), of small numbers just that (`wholeLog2_of_lt`).
-/

namespace Telemetry

theorem le_nearestEven (num den : Nat) : num / den ≤ nearestEven num den := by
  simp only [nearestEven]
  split
  · exact Nat.le_refl _
  · split
    · exact Nat.le_succ _
    · split
      · exact Nat.le_refl _
      · exact Nat.le_succ _

/-- A fraction is not rounded past a whole number. -/
theorem nearestEven_le_of_le {num den m : Nat} (hden : 0 < den) (h : num ≤ m * den) :
    nearestEven num den ≤ m := by
  have hq : num / den ≤ m := by
    rw [Nat.div_le_iff_le_mul_add_pred hden, Nat.mul_comm]
    omega
  rcases Nat.lt_or_eq_of_le hq with hlt | heq
  · exact Nat.le_trans (nearestEven_le num den) hlt
  · -- the fraction is the whole number itself
    have hdiv := Nat.div_add_mod num den
    rw [heq, Nat.mul_comm] at hdiv
    have hrest : num % den = 0 := by omega
    simp only [nearestEven, hrest, Nat.mul_zero, if_pos hden]
    exact hq

namespace Format

variable {f : Format} {num den m : Nat}

theorem spacing_mono {n m : Nat} (h : n ≤ m) : f.spacing n ≤ f.spacing m := by
  have hlog : n.log2 ≤ m.log2 := by
    by_cases hn : n = 0
    · simp [hn]
    · have hm : m ≠ 0 := by omega
      exact (Nat.le_log2 hm).mpr (Nat.le_trans (Nat.log2_self_le hn) h)
  unfold spacing
  omega

/-- Rounding does not pass a number of the format. -/
theorem round_le (hden : 0 < den) (hm : 2 ^ f.spacing m ∣ m) (h : num ≤ m * den) :
    f.round num den ≤ m := by
  have hq : num / den ≤ m := Nat.div_le_of_le_mul (by rw [Nat.mul_comm]; exact h)
  obtain ⟨c, hc⟩ := Nat.dvd_trans (Nat.pow_dvd_pow 2 (spacing_mono hq)) hm
  show nearestEven num (den * 2 ^ f.spacing (num / den)) * 2 ^ f.spacing (num / den) ≤ m
  generalize f.spacing (num / den) = s at hc
  have hle : nearestEven num (den * 2 ^ s) ≤ c := by
    refine nearestEven_le_of_le (Nat.mul_pos hden (Nat.two_pow_pos s)) ?_
    rw [hc] at h
    calc num ≤ 2 ^ s * c * den := h
      _ = c * (den * 2 ^ s) := by rw [Nat.mul_comm (2 ^ s) c, Nat.mul_assoc, Nat.mul_comm (2 ^ s)]
  calc nearestEven num (den * 2 ^ s) * 2 ^ s ≤ c * 2 ^ s := Nat.mul_le_mul_right _ hle
    _ = m := by rw [hc, Nat.mul_comm]

/-- The spacing around a count is at most the count's leading power of two. -/
theorem spacing_le_log2 (f : Format) (n : Nat) : f.spacing n ≤ n.log2 := by
  have := f.digits_pos
  unfold spacing
  omega

/-- Rounding keeps the leading power of two. -/
theorem two_pow_log2_le_round (h : num / den ≠ 0) : 2 ^ (num / den).log2 ≤ f.round num den := by
  show _ ≤ nearestEven num (den * 2 ^ f.spacing (num / den)) * 2 ^ f.spacing (num / den)
  have hround := le_nearestEven num (den * 2 ^ f.spacing (num / den))
  rw [← Nat.div_div_eq_div_mul] at hround
  have hs := f.spacing_le_log2 (num / den)
  generalize num / den = n at h hs hround
  have hsplit : 2 ^ n.log2 = 2 ^ (n.log2 - f.spacing n) * 2 ^ f.spacing n := by
    rw [← Nat.pow_add, Nat.sub_add_cancel hs]
  have hq : 2 ^ (n.log2 - f.spacing n) ≤ n / 2 ^ f.spacing n := by
    rw [Nat.le_div_iff_mul_le (Nat.two_pow_pos _), ← hsplit]
    exact Nat.log2_self_le h
  rw [hsplit]
  exact Nat.mul_le_mul_right _ (Nat.le_trans hq hround)

/-- Rounding does not fall below a number of the format. -/
theorem le_round (hden : 0 < den) (hm : 2 ^ f.spacing m ∣ m) (h : m * den ≤ num) :
    m ≤ f.round num den := by
  by_cases hm0 : m = 0
  · rw [hm0]
    exact Nat.zero_le _
  have hq : m ≤ num / den := (Nat.le_div_iff_mul_le hden).mpr h
  have hn : num / den ≠ 0 := by omega
  have hlog : m.log2 ≤ (num / den).log2 :=
    (Nat.le_log2 hn).mpr (Nat.le_trans (Nat.log2_self_le hm0) hq)
  by_cases hs : f.spacing m = f.spacing (num / den)
  · rw [hs] at hm
    show m ≤ nearestEven num (den * 2 ^ f.spacing (num / den)) * 2 ^ f.spacing (num / den)
    generalize f.spacing (num / den) = s at hm
    obtain ⟨c, rfl⟩ := hm
    have hc : c ≤ num / (den * 2 ^ s) := by
      rw [Nat.le_div_iff_mul_le (Nat.mul_pos hden (Nat.two_pow_pos s))]
      calc c * (den * 2 ^ s) = 2 ^ s * c * den := by
            rw [Nat.mul_comm (2 ^ s) c, Nat.mul_assoc, Nat.mul_comm (2 ^ s)]
        _ ≤ num := h
    rw [Nat.mul_comm]
    exact Nat.mul_le_mul_right _ (Nat.le_trans hc (le_nearestEven _ _))
  · -- the number is below the leading power of two
    have hlt : m.log2 + 1 ≤ (num / den).log2 := by
      rcases Nat.lt_or_eq_of_le hlog with hlt | heq
      · exact hlt
      · unfold spacing at hs
        rw [heq] at hs
        exact absurd rfl hs
    calc m ≤ 2 ^ (m.log2 + 1) := Nat.le_of_lt Nat.lt_log2_self
      _ ≤ 2 ^ (num / den).log2 := Nat.pow_le_pow_right (by decide) hlt
      _ ≤ f.round num den := two_pow_log2_le_round hn

/-- A number of the format is not changed by rounding. -/
theorem round_mul (hden : 0 < den) (hm : 2 ^ f.spacing m ∣ m) : f.round (m * den) den = m :=
  Nat.le_antisymm (round_le hden hm (Nat.le_refl _)) (le_round hden hm (Nat.le_refl _))

end Format

theorem log2_mul_two_pow {n : Nat} (h : n ≠ 0) (k : Nat) : (n * 2 ^ k).log2 = n.log2 + k := by
  rw [Nat.log2_eq_iff (Nat.mul_ne_zero h (Nat.ne_of_gt (Nat.two_pow_pos _)))]
  have h1 := Nat.log2_self_le h
  have h2 : n < 2 ^ (n.log2 + 1) := Nat.lt_log2_self
  rw [Nat.pow_add, show n.log2 + k + 1 = (n.log2 + 1) + k by omega, Nat.pow_add]
  exact ⟨Nat.mul_le_mul_right _ h1, Nat.mul_lt_mul_of_pos_right h2 (Nat.two_pow_pos _)⟩

namespace Binary

variable {f : Format}

/-- A whole number that has no more bits than the format is one of its numbers. -/
theorem dvd_of_le {n : Nat} (hn : n ≤ 2 ^ f.digits) :
    2 ^ f.spacing (n * 2 ^ f.fraction) ∣ n * 2 ^ f.fraction := by
  by_cases h0 : n = 0
  · rw [h0, Nat.zero_mul]
    exact Nat.dvd_zero _
  · unfold Format.spacing
    rw [log2_mul_two_pow h0]
    rcases Nat.lt_or_eq_of_le hn with hlt | rfl
    · have hbits := (Nat.log2_lt h0).mpr hlt
      exact Nat.dvd_trans (Nat.pow_dvd_pow 2 (by omega)) (Nat.dvd_mul_left _ _)
    · rw [Nat.log2_two_pow, ← Nat.pow_add]
      exact Nat.pow_dvd_pow 2 (by have := f.digits_pos; omega)

/-- A whole number of the format is converted exactly. -/
theorem ofNat_of_dvd {n : Nat} (hdvd : 2 ^ f.spacing (n * 2 ^ f.fraction) ∣ n * 2 ^ f.fraction)
    (hlt : n * 2 ^ f.fraction < 2 ^ f.width) :
    ∃ m : Magnitude f, ofNat f n = .finite false m ∧ m.quanta = n * 2 ^ f.fraction := by
  have heq : f.round (n * 2 ^ f.fraction) 1 = n * 2 ^ f.fraction := by
    have := Format.round_mul Nat.one_pos hdvd
    rwa [Nat.mul_one] at this
  unfold ofNat ofRatio
  rw [dif_pos (heq.symm ▸ hlt)]
  exact ⟨_, rfl, heq⟩

theorem ofNat_exact (hw : f.digits + f.fraction < f.width) {n : Nat} (hn : n ≤ 2 ^ f.digits) :
    ∃ m : Magnitude f, ofNat f n = .finite false m ∧ m.quanta = n * 2 ^ f.fraction := by
  refine ofNat_of_dvd (dvd_of_le hn) ?_
  calc n * 2 ^ f.fraction ≤ 2 ^ f.digits * 2 ^ f.fraction := Nat.mul_le_mul_right _ hn
    _ = 2 ^ (f.digits + f.fraction) := (Nat.pow_add ..).symm
    _ < 2 ^ f.width := Nat.pow_lt_pow_right (by decide) hw

/-- The word of a whole number is the number, clamped. -/
theorem roundWord_of_quanta {m : Magnitude f} {n : Nat} (h : m.quanta = n * 2 ^ f.fraction) :
    (finite false m).roundWord = saturate n := by
  have hhalf : (2 * m.quanta + 2 ^ f.fraction) / 2 ^ (f.fraction + 1) = n := by
    rw [h, Nat.mul_left_comm, ← Nat.pow_succ', Nat.mul_comm, Nat.mul_add_div (Nat.two_pow_pos _),
      Nat.div_eq_of_lt (Nat.pow_lt_pow_right (by decide) (Nat.lt_succ_self _)), Nat.add_zero]
  exact congrArg saturate hhalf

theorem roundWord_ofNat (hw : f.digits + f.fraction < f.width) {n : Nat} (hn : n ≤ 2 ^ f.digits)
    (hword : n ≤ wordMax) : (ofNat f n).roundWord = n := by
  obtain ⟨m, heq, hquanta⟩ := ofNat_exact hw hn
  rw [heq, roundWord_of_quanta hquanta]
  exact Nat.min_eq_left hword

/-- A share of at most one of a count, raised to a whole number, is at most the count. -/
theorem ceilWord_mul_le (hw : f.digits + f.fraction < f.width) {n : Nat} (hn : n ≤ 2 ^ f.digits)
    {q : Binary f} (hq : (ofNat f 1).lt q = false) : (q.mul (ofNat f n)).ceilWord ≤ n := by
  obtain ⟨one, hone, hle⟩ := ofNat_exact hw (Nat.one_le_two_pow (n := f.digits))
  obtain ⟨c, hc, hcn⟩ := ofNat_exact hw hn
  rw [hone] at hq
  rw [hc]
  cases q with
  | nan => exact Nat.zero_le n
  | infinite negative =>
    cases negative with
    | true =>
      unfold mul
      simp only
      split <;> exact Nat.zero_le n
    | false =>
      have hlt : (finite false one).lt (infinite false) = true :=
        decide_eq_true (Int.ofNat_lt.mpr one.fits.1)
      rw [hlt] at hq
      cases hq
  | finite negative m =>
    cases negative with
    | true =>
      unfold mul ofRatio
      simp only
      split <;> exact Nat.zero_le n
    | false =>
      have hm : m.quanta ≤ 2 ^ f.fraction := by
        simp only [lt, place?, Bool.false_eq_true, if_false, decide_eq_false_iff_not,
          Int.ofNat_lt] at hq
        omega
      have hround : f.round (m.quanta * c.quanta) (2 ^ f.fraction) ≤ c.quanta := by
        refine Format.round_le (Nat.two_pow_pos _) c.fits.2 ?_
        rw [Nat.mul_comm]
        exact Nat.mul_le_mul_left _ hm
      show (ofRatio false (m.quanta * c.quanta) (2 ^ f.fraction)).ceilWord ≤ n
      unfold ofRatio
      rw [dif_pos (Nat.lt_of_le_of_lt hround c.fits.1)]
      refine Nat.le_trans (Nat.min_le_left _ _) ?_
      rw [Nat.div_le_iff_le_mul_add_pred (Nat.two_pow_pos _)]
      refine Nat.add_le_add_right ?_ _
      calc f.round (m.quanta * c.quanta) (2 ^ f.fraction) ≤ c.quanta := hround
        _ = n * 2 ^ f.fraction := hcn
        _ = 2 ^ f.fraction * n := Nat.mul_comm _ _

/-- A positive word is not rounded below its leading power of two. -/
theorem two_pow_log2_le_roundWord {n : Nat} (h : n ≠ 0) (hn : n ≤ wordMax) :
    2 ^ n.log2 ≤ (ofNat f n).roundWord := by
  have hword : 2 ^ n.log2 ≤ wordMax := Nat.le_trans (Nat.log2_self_le h) hn
  have hround : 2 ^ n.log2 * 2 ^ f.fraction ≤ f.round (n * 2 ^ f.fraction) 1 := by
    have hne : n * 2 ^ f.fraction / 1 ≠ 0 := by
      rw [Nat.div_one]
      exact Nat.mul_ne_zero h (Nat.ne_of_gt (Nat.two_pow_pos f.fraction))
    have := Format.two_pow_log2_le_round (f := f) hne
    rwa [Nat.div_one, log2_mul_two_pow h, Nat.pow_add] at this
  unfold ofNat ofRatio
  split
  · refine Nat.le_min.mpr ⟨?_, hword⟩
    rw [Nat.le_div_iff_mul_le (Nat.two_pow_pos _), Nat.pow_succ, ← Nat.mul_assoc, Nat.mul_comm _ 2]
    exact Nat.le_trans (Nat.mul_le_mul_left 2 hround) (Nat.le_add_right _ _)
  · exact hword

end Binary

/-- The logarithm in double precision is not below the whole one. -/
theorem log2_le_wholeLog2 {n : Nat} (h : n ≠ 0) (hn : n ≤ wordMax) : n.log2 ≤ wholeLog2 n := by
  have hword := Binary.two_pow_log2_le_roundWord (f := .binary64) h hn
  have hlog : n.log2 ≤ (Binary.ofNat .binary64 n).roundWord.log2 :=
    (Nat.le_log2 (Nat.ne_of_gt (Nat.lt_of_lt_of_le (Nat.two_pow_pos _) hword))).mpr hword
  unfold wholeLog2
  simp only
  split
  · exact Nat.le_succ_of_le hlog
  · exact hlog

/-- Numbers that are small against the spacing of the logarithms are not taken for a power of
two. -/
theorem wholeLog2_of_lt {n : Nat} (hn : n < 2 ^ 48) : wholeLog2 n = n.log2 := by
  have hround : (Binary.ofNat .binary64 n).roundWord = n :=
    Binary.roundWord_ofNat (by decide) (Nat.le_trans (Nat.le_of_lt hn) (by decide))
      (Nat.le_trans (Nat.le_of_lt hn) (by decide))
  have hlt : n < 2 ^ (n.log2 + 1) := Nat.lt_log2_self
  have htop : 2 ^ (n.log2 + 1) ≤ 2 ^ 48 := by
    refine Nat.pow_le_pow_right (by decide) ?_
    by_cases h0 : n = 0
    · rw [h0, Nat.log2_zero]
      decide
    · exact (Nat.log2_lt h0).mpr hn
  have hdigits : 2 ^ Format.binary64.digits = 2 ^ 53 := rfl
  unfold wholeLog2
  simp only [hround, hdigits]
  exact if_neg (by omega)

end Telemetry
