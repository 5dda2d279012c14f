import Telemetry.Duration
import Telemetry.Proofs.Rounding.Scale

/-!
# Whole numbers in a binary format

Whole numbers of few digits multiply as they do outside the format: the product of two that are
converted exactly is their product, converted (`mul_ofNat_ofNat`). A number whose digits fit the
format but for zeros at the end is converted exactly as well, so its word is the number itself,
clamped (`roundWord_ofNat_mul_two_pow`), and whatever exceeds all words is clamped, however it was
rounded (`roundWord_ofNat_of_wordMax_lt`). A decimal without point and exponent is converted as a
whole number is (`decimal_eq_ofNat`).
-/

namespace Telemetry

/-- Zeros at the end do not take digits of the format. -/
theorem Format.dvd_mul_two_pow {f : Format} {n : Nat} (h : 2 ^ f.spacing n ∣ n) (k : Nat) :
    2 ^ f.spacing (n * 2 ^ k) ∣ n * 2 ^ k := by
  induction k with
  | zero => rwa [Nat.pow_zero, Nat.mul_one]
  | succ k ih =>
    rw [Nat.pow_succ', Nat.mul_left_comm]
    exact dvd_two_mul ih

namespace Binary

variable {f : Format}

theorem ofRatio_mul_mul (negative : Bool) (num den : Nat) {k : Nat} (hk : 0 < k) :
    (ofRatio negative (num * k) (den * k) : Binary f) = ofRatio negative num den := by
  unfold ofRatio
  simp only [Format.round_mul_mul num den hk]

/-- **The product of whole numbers** is their product, converted. -/
theorem mul_ofNat_ofNat (hw : f.digits + f.fraction < f.width) {m n : Nat} (hm : m ≤ 2 ^ f.digits)
    (hn : n ≤ 2 ^ f.digits) : (ofNat f m).mul (ofNat f n) = ofNat f (m * n) := by
  obtain ⟨a, ha, hquantaA⟩ := ofNat_exact hw hm
  obtain ⟨b, hb, hquantaB⟩ := ofNat_exact hw hn
  rw [ha, hb]
  show ofRatio false (a.quanta * b.quanta) (2 ^ f.fraction) =
    ofRatio false (m * n * 2 ^ f.fraction) 1
  rw [← ofRatio_mul_mul false (m * n * 2 ^ f.fraction) 1 (Nat.two_pow_pos f.fraction), Nat.one_mul,
    hquantaA, hquantaB]
  congr 1
  ac_rfl

/-- **The word of a whole number** with zeros at the end is the number, clamped. -/
theorem roundWord_ofNat_mul_two_pow {n k : Nat} (hw : f.digits + k + f.fraction < f.width)
    (hn : n ≤ 2 ^ f.digits) : (ofNat f (n * 2 ^ k)).roundWord = saturate (n * 2 ^ k) := by
  have hdvd : 2 ^ f.spacing (n * 2 ^ k * 2 ^ f.fraction) ∣ n * 2 ^ k * 2 ^ f.fraction := by
    rw [Nat.mul_right_comm]
    exact Format.dvd_mul_two_pow (dvd_of_le hn) k
  have hlt : n * 2 ^ k * 2 ^ f.fraction < 2 ^ f.width := by
    calc n * 2 ^ k * 2 ^ f.fraction ≤ 2 ^ f.digits * 2 ^ k * 2 ^ f.fraction :=
          Nat.mul_le_mul_right _ (Nat.mul_le_mul_right _ hn)
      _ = 2 ^ (f.digits + k + f.fraction) := by rw [Nat.pow_add, Nat.pow_add]
      _ < 2 ^ f.width := Nat.pow_lt_pow_right (by decide) hw
  obtain ⟨m, heq, hquanta⟩ := ofNat_of_dvd hdvd hlt
  rw [heq, roundWord_of_quanta hquanta]

theorem roundWord_ofNat_mono {m n : Nat} (h : m ≤ n) :
    (ofNat f m).roundWord ≤ (ofNat f n).roundWord :=
  toWord_ofRatio_mono (fun a b hab => Nat.div_le_div_right (by omega)) Nat.one_pos
    (Nat.mul_le_mul_right _ h)

/-- What exceeds all words is clamped, whatever it was rounded to. -/
theorem roundWord_ofNat_of_wordMax_lt (hw : f.digits + 64 + f.fraction < f.width) {n : Nat}
    (hn : wordMax < n) :
    (ofNat f n).roundWord = wordMax := by
  refine Nat.le_antisymm (toWord_le _) ?_
  calc wordMax = saturate (1 * 2 ^ 64) := rfl
    _ = (ofNat f (1 * 2 ^ 64)).roundWord := (roundWord_ofNat_mul_two_pow hw Nat.one_le_two_pow).symm
    _ ≤ (ofNat f n).roundWord := roundWord_ofNat_mono hn

end Binary

/-! ## Double precision -/

theorem bits_fit :
    Format.binary64.digits + Format.binary64.fraction < Format.binary64.width := by decide

/-- A decimal without point and exponent is the whole number, converted. -/
theorem decimal_eq_ofNat {n : Nat} (hlength : (digitsOf n).length ≤ Format.binary64.width) :
    decimal n 0 = Binary.ofNat .binary64 n := by
  by_cases hn : n = 0
  · subst hn
    unfold Binary.ofNat
    rw [Nat.zero_mul, Binary.ofRatio_zero]
    rfl
  · have htop : ¬ ((0 : Int) + (digitsOf n).length > Format.binary64.width) := by omega
    have hbottom : ¬ ((0 : Int) + (digitsOf n).length < -(Format.binary64.fraction + 2 : Nat)) := by
      omega
    unfold decimal Binary.ofDecimal
    simp only [if_neg hn, if_neg htop, if_neg hbottom, if_neg (Int.lt_irrefl 0),
      Int.natAbs_zero, Nat.pow_zero, Nat.mul_one]
    rfl

end Telemetry
