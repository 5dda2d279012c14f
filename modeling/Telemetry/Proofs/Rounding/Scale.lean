import Telemetry.Proofs.Rounding.Order

/-!
# Rounding and scale

Rounding looks at a fraction only (`round_mul_mul`), and from the first power of two that has all
bits of the format on it doubles with its argument (`round_two_mul`) and loses a bounded share of it
(`le_round_mul`). So five and ten times a number of the format are not rounded to the same
(`round_five_lt`).
-/

namespace Telemetry

theorem nearestEven_mul_mul (num den : Nat) {k : Nat} (hk : 0 < k) :
    nearestEven (num * k) (den * k) = nearestEven num den := by
  have hless : ∀ a b : Nat, a * k < b * k ↔ a < b := fun a b => Nat.mul_lt_mul_right hk
  unfold nearestEven
  simp only [Nat.mul_div_mul_right _ _ hk, Nat.mul_mod_mul_right, ← Nat.mul_assoc, hless]

namespace Format

variable {f : Format} {n : Nat}

theorem round_mul_mul (num den : Nat) {k : Nat} (hk : 0 < k) :
    f.round (num * k) (den * k) = f.round num den := by
  unfold round
  simp only [Nat.mul_div_mul_right _ _ hk, Nat.mul_right_comm den k, nearestEven_mul_mul _ _ hk]

theorem spacing_two_mul_le (n : Nat) : f.spacing (2 * n) ≤ f.spacing n + 1 := by
  by_cases hn : n = 0
  · rw [hn]
    exact Nat.le_succ _
  · have hlog := log2_mul_two_pow hn 1
    rw [Nat.pow_one, Nat.mul_comm] at hlog
    unfold spacing
    omega

/-- Twice a number of the format is one. -/
theorem dvd_two_mul (h : 2 ^ f.spacing n ∣ n) : 2 ^ f.spacing (2 * n) ∣ 2 * n := by
  have hpow : 2 ^ f.spacing (2 * n) ∣ 2 ^ (f.spacing n + 1) :=
    Nat.pow_dvd_pow 2 (spacing_two_mul_le n)
  rw [Nat.pow_succ'] at hpow
  exact Nat.dvd_trans hpow (Nat.mul_dvd_mul_left 2 h)

theorem round_one (h : 2 ^ f.spacing n ∣ n) : f.round n 1 = n := by
  have hround := round_mul Nat.one_pos h
  rwa [Nat.mul_one] at hround

/-- **Rounding doubles** where the format's bits are all in use. -/
theorem round_two_mul (hn : 2 ^ (f.digits - 1) ≤ n) : f.round (2 * n) 1 = 2 * f.round n 1 := by
  have hpos : n ≠ 0 := Nat.ne_of_gt (Nat.lt_of_lt_of_le (Nat.two_pow_pos _) hn)
  have hlog := log2_mul_two_pow hpos 1
  rw [Nat.pow_one, Nat.mul_comm] at hlog
  have hbits : f.digits - 1 ≤ n.log2 := (Nat.le_log2 hpos).mpr hn
  have hdigits := f.digits_pos
  have hspacing : f.spacing (2 * n) = f.spacing n + 1 := by
    unfold spacing
    omega
  unfold round
  simp only [Nat.div_one, Nat.one_mul, hspacing, Nat.pow_succ]
  rw [Nat.mul_comm 2 n, nearestEven_mul_mul _ _ (by decide)]
  ac_rfl

/-- Where the format's bits are all in use, rounding loses at most one part in
`2 ^ (digits - 1)`. -/
theorem le_round_mul (hn : 2 ^ (f.digits - 1) ≤ n) :
    n * 2 ^ (f.digits - 1) ≤ f.round n 1 * 2 ^ (f.digits - 1) + n := by
  have hpos : n ≠ 0 := Nat.ne_of_gt (Nat.lt_of_lt_of_le (Nat.two_pow_pos _) hn)
  have hbits : f.digits - 1 ≤ n.log2 := (Nat.le_log2 hpos).mpr hn
  have hunit : 2 ^ f.spacing n * 2 ^ (f.digits - 1) ≤ n := by
    have hdigits := f.digits_pos
    rw [← Nat.pow_add]
    refine Nat.le_trans (Nat.pow_le_pow_right (by decide) ?_) (Nat.log2_self_le hpos)
    unfold spacing
    omega
  have hround : n ≤ f.round n 1 + 2 ^ f.spacing n := by
    have heq : f.round n 1 = nearestEven n (2 ^ f.spacing n) * 2 ^ f.spacing n := by
      unfold round
      simp only [Nat.one_mul, Nat.div_one]
    rw [heq]
    calc n ≤ n / 2 ^ f.spacing n * 2 ^ f.spacing n + 2 ^ f.spacing n :=
          Nat.le_of_lt (Nat.lt_div_mul_add (Nat.two_pow_pos _))
      _ ≤ nearestEven n (2 ^ f.spacing n) * 2 ^ f.spacing n + 2 ^ f.spacing n :=
          Nat.add_le_add_right (Nat.mul_le_mul_right _ (le_nearestEven _ _)) _
  calc n * 2 ^ (f.digits - 1) ≤ (f.round n 1 + 2 ^ f.spacing n) * 2 ^ (f.digits - 1) :=
        Nat.mul_le_mul_right _ hround
    _ = f.round n 1 * 2 ^ (f.digits - 1) + 2 ^ f.spacing n * 2 ^ (f.digits - 1) := Nat.add_mul ..
    _ ≤ f.round n 1 * 2 ^ (f.digits - 1) + n := Nat.add_le_add_left hunit _

/-- Rounded multiples of a number of the format: it and its double stay, and five times it is above
the double and below ten times it. -/
theorem round_five_lt (h : 2 ^ f.spacing n ∣ n) (hn : 2 ^ (f.digits - 1) ≤ n) :
    4 * n ≤ f.round (5 * n) 1 ∧ f.round (5 * n) 1 < f.round (10 * n) 1 := by
  have hpos : 0 < n := Nat.lt_of_lt_of_le (Nat.two_pow_pos _) hn
  have hfour : 2 ^ f.spacing (4 * n) ∣ 4 * n := by
    have h4 := dvd_two_mul (dvd_two_mul h)
    rwa [← Nat.mul_assoc] at h4
  have hle : 4 * n ≤ f.round (5 * n) 1 := le_round Nat.one_pos hfour (by omega)
  have hdouble : f.round (10 * n) 1 = 2 * f.round (5 * n) 1 := by
    rw [← round_two_mul (by omega), ← Nat.mul_assoc]
  exact ⟨hle, by omega⟩

end Format

namespace Binary

variable {f : Format}

theorem place?_ofRatio (num den : Nat) :
    (ofRatio false num den : Binary f).place? =
    some ((min (f.round num den) (2 ^ f.width) : Nat) : Int) := by
  unfold ofRatio
  split
  · rename_i h
    rw [Nat.min_eq_left (Nat.le_of_lt h)]
    rfl
  · rename_i h
    rw [Nat.min_eq_right (Nat.not_lt.mp h)]
    rfl

theorem mul_comm (a b : Binary f) : a.mul b = b.mul a := by
  cases a <;> cases b <;> simp [mul, Bool.xor_comm, Nat.mul_comm]

/-- The number that `q` quanta are rounded to, an infinity from the format's width on. -/
structure Rounded (x : Binary f) (q : Nat) : Prop where
  unsigned : x.Unsigned
  place : x.place? = some ((min q (2 ^ f.width) : Nat) : Int)

/-- **A product with a whole number** is the multiple, rounded. -/
theorem Rounded.mul (hw : f.digits + f.fraction < f.width) {k : Nat} (hk : k ≠ 0)
    (hle : k ≤ 2 ^ f.digits) {x : Binary f} {q : Nat} (hx : x.Rounded q) :
    ((ofNat f k).mul x).Rounded (f.round (k * q) 1) := by
  obtain ⟨m, hm, hquanta⟩ := ofNat_exact hw hle
  obtain ⟨hunsigned, hplace⟩ := hx
  rw [hm]
  cases hunsigned with
  | infinite =>
    have hq : 2 ^ f.width ≤ q := by
      have h : (2 ^ f.width : Nat) = min q (2 ^ f.width) := Int.ofNat.inj (Option.some.inj hplace)
      omega
    have hpower : 2 ^ f.spacing (2 ^ f.width) ∣ 2 ^ f.width := by
      refine Nat.pow_dvd_pow 2 ?_
      have := f.spacing_le_log2 (2 ^ f.width)
      rwa [Nat.log2_two_pow] at this
    have hround : 2 ^ f.width ≤ f.round (k * q) 1 := by
      refine Format.le_round Nat.one_pos hpower ?_
      rw [Nat.mul_one]
      exact Nat.le_trans hq (Nat.le_mul_of_pos_left q (Nat.pos_of_ne_zero hk))
    have hmul : (finite false m).mul (infinite false) = infinite false :=
      if_neg (hquanta ▸ Nat.mul_ne_zero hk (Nat.ne_of_gt (Nat.two_pow_pos _)))
    rw [hmul]
    refine ⟨.infinite, ?_⟩
    rw [Nat.min_eq_right hround]
    rfl
  | finite n =>
    have hq : n.quanta = q := by
      have h : n.quanta = min q (2 ^ f.width) := Int.ofNat.inj (Option.some.inj hplace)
      have := n.fits.1
      omega
    have hmul : (finite false m).mul (finite false n) =
        ofRatio false (k * q * 2 ^ f.fraction) (1 * 2 ^ f.fraction) := by
      show ofRatio false (m.quanta * n.quanta) (2 ^ f.fraction) = _
      rw [hquanta, hq, Nat.one_mul, Nat.mul_right_comm]
    rw [hmul]
    refine ⟨unsigned_ofRatio _ _, ?_⟩
    rw [place?_ofRatio, Format.round_mul_mul _ _ (Nat.two_pow_pos _)]

end Binary

end Telemetry
