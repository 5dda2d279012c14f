import Mathlib.Order.Monotone.Basic
import Mathlib.Tactic.Ring
import Telemetry.Proofs.Rounding.Whole
import Telemetry.Proofs.Settings.Ascending

/-!
# The 1-2-5 series

The default buckets of a histogram are the series 1, 2, 5, 10, … up to the first number that reaches
the maximum. A number of the series is a product in double precision (`seriesBound`); its quanta,
rounded without a bound on their width, increase strictly (`strictMono_seriesQuanta`), because a
multiple by five is rounded to less than the one by ten. The series reaches infinity
(`seriesBound_infinite`), so for every maximum it is cut where it first reaches it
(`defaultHistogramBuckets_eq`).
-/

namespace Telemetry

/-- The factors of a decade. -/
def seriesStep : Nat → Nat
  | 0 => 1
  | 1 => 2
  | _ => 5

/-- The power of ten of a decade, by repeated multiplication. -/
def magnitude : Nat → Real64
  | 0 => decimal 1 0
  | k + 1 => (magnitude k).mul (decimal 10 0)

/-- The numbers of the series. -/
def seriesBound (i : Nat) : Real64 := (decimal (seriesStep (i % 3)) 0).mul (magnitude (i / 3))

theorem decades_eq (n k : Nat) :
    decades n (magnitude k) = (List.range' (3 * k) (3 * n)).map seriesBound := by
  induction n generalizing k with
  | zero => rfl
  | succ n ih =>
    have hdecade : ∀ j, j < 3 →
        seriesBound (3 * k + j) = (decimal (seriesStep j) 0).mul (magnitude k) := by
      intro j hj
      unfold seriesBound
      rw [Nat.mul_add_mod, Nat.mod_eq_of_lt hj, Nat.mul_add_div (by decide),
        Nat.div_eq_of_lt hj, Nat.add_zero]
    have hrange : List.range' (3 * k) (3 * (n + 1)) =
        (3 * k + 0) :: (3 * k + 1) :: (3 * k + 2) :: List.range' (3 * (k + 1)) (3 * n) := rfl
    rw [hrange, List.map_cons, List.map_cons, List.map_cons, hdecade 0 (by decide),
      hdecade 1 (by decide), hdecade 2 (by decide), ← ih]
    rfl

/-! ## The series increases -/

section Quanta

variable (f : Format)

/-- The quanta of the powers of ten, rounded after every multiplication. -/
def decadeQuanta : Nat → Nat
  | 0 => 1 * 2 ^ f.fraction
  | k + 1 => f.round (10 * decadeQuanta k) 1

/-- The quanta of the series. -/
def seriesQuanta (i : Nat) : Nat := f.round (seriesStep (i % 3) * decadeQuanta f (i / 3)) 1

variable {f}

/-- A power of ten is a number of the format, and uses all its bits. -/
theorem decadeQuanta_fits (hf : f.digits - 1 ≤ f.fraction) (k : Nat) :
    2 ^ f.spacing (decadeQuanta f k) ∣ decadeQuanta f k ∧
    2 ^ (f.digits - 1) ≤ decadeQuanta f k := by
  induction k with
  | zero =>
    refine ⟨Binary.dvd_of_le Nat.one_le_two_pow, ?_⟩
    unfold decadeQuanta
    rw [Nat.one_mul]
    exact Nat.pow_le_pow_right (by decide) hf
  | succ k ih =>
    refine ⟨Format.dvd_round .., Nat.le_trans ih.2 ?_⟩
    exact Format.le_round Nat.one_pos ih.1 (by omega)

theorem seriesQuanta_decade (k : Nat) {j : Nat} (hj : j < 3) :
    seriesQuanta f (3 * k + j) = f.round (seriesStep j * decadeQuanta f k) 1 := by
  unfold seriesQuanta
  rw [Nat.mul_add_mod, Nat.mod_eq_of_lt hj, Nat.mul_add_div (by decide),
    Nat.div_eq_of_lt hj, Nat.add_zero]

/-- A power of ten and its double are not rounded. -/
theorem seriesQuanta_exact (hf : f.digits - 1 ≤ f.fraction) (k : Nat) :
    seriesQuanta f (3 * k) = decadeQuanta f k ∧
    seriesQuanta f (3 * k + 1) = 2 * decadeQuanta f k := by
  have hfits := (decadeQuanta_fits hf k).1
  refine ⟨(seriesQuanta_decade k (j := 0) (by decide)).trans ?_,
    (seriesQuanta_decade k (j := 1) (by decide)).trans
      (Format.round_one (Format.dvd_two_mul hfits))⟩
  rw [seriesStep, Nat.one_mul, Format.round_one hfits]

/-- **The series increases.** -/
theorem strictMono_seriesQuanta (hf : f.digits - 1 ≤ f.fraction) : StrictMono (seriesQuanta f) := by
  refine strictMono_nat_of_lt_succ fun i => ?_
  obtain ⟨k, j, hj, rfl⟩ : ∃ k j, j < 3 ∧ i = 3 * k + j := ⟨i / 3, i % 3, by omega, by omega⟩
  obtain ⟨hfits, hbits⟩ := decadeQuanta_fits hf k
  obtain ⟨hone, htwo⟩ := seriesQuanta_exact hf k
  have hfive : seriesQuanta f (3 * k + 2) = f.round (5 * decadeQuanta f k) 1 :=
    seriesQuanta_decade k (by decide)
  have hten : seriesQuanta f (3 * k + 2 + 1) = f.round (10 * decadeQuanta f k) 1 :=
    (seriesQuanta_exact hf (k + 1)).1
  obtain ⟨habove, hbelow⟩ := Format.round_five_lt hfits hbits
  have hpos : 0 < decadeQuanta f k := Nat.lt_of_lt_of_le (Nat.two_pow_pos _) hbits
  match j, hj with
  | 0, _ => rw [Nat.add_zero, hone, htwo]; omega
  | 1, _ => rw [htwo, hfive]; omega
  | 2, _ => rw [hfive, hten]; exact hbelow

/-- The powers of ten lose a bounded share at every step. -/
theorem decadeQuanta_growth (hf : f.digits - 1 ≤ f.fraction) (k : Nat) :
    10 ^ k * (2 ^ (f.digits - 1) - 1) ^ k * 2 ^ f.fraction ≤
      decadeQuanta f k * (2 ^ (f.digits - 1)) ^ k := by
  induction k with
  | zero =>
    unfold decadeQuanta
    simp
  | succ k ih =>
    have hbits := (decadeQuanta_fits hf k).2
    have hstep := Format.le_round_mul (f := f) (n := 10 * decadeQuanta f k) (by omega)
    generalize 2 ^ (f.digits - 1) = unit at ih hbits hstep ⊢
    have hshare : 10 * decadeQuanta f k * (unit - 1) ≤ decadeQuanta f (k + 1) * unit := by
      rw [Nat.mul_sub_one]
      exact Nat.sub_le_of_le_add hstep
    calc 10 ^ (k + 1) * (unit - 1) ^ (k + 1) * 2 ^ f.fraction
        = 10 * (unit - 1) * (10 ^ k * (unit - 1) ^ k * 2 ^ f.fraction) := by ring
      _ ≤ 10 * (unit - 1) * (decadeQuanta f k * unit ^ k) := Nat.mul_le_mul_left _ ih
      _ = 10 * decadeQuanta f k * (unit - 1) * unit ^ k := by ring
      _ ≤ decadeQuanta f (k + 1) * unit * unit ^ k := Nat.mul_le_mul_right _ hshare
      _ = decadeQuanta f (k + 1) * unit ^ (k + 1) := by ring

/-- So they reach the width of the format where the bound does. -/
theorem width_le_decadeQuanta (hf : f.digits - 1 ≤ f.fraction) {k : Nat}
    (h : 2 ^ f.width * (2 ^ (f.digits - 1)) ^ k ≤
      10 ^ k * (2 ^ (f.digits - 1) - 1) ^ k * 2 ^ f.fraction) :
    2 ^ f.width ≤ decadeQuanta f k :=
  Nat.le_of_mul_le_mul_right (Nat.le_trans h (decadeQuanta_growth hf k))
    (Nat.pow_pos (Nat.two_pow_pos _))

end Quanta

/-! ## The numbers of the series -/

/-- The quanta of a power of ten are those of the double. -/
theorem rounded_magnitude (k : Nat) : (magnitude k).Rounded (decadeQuanta .binary64 k) := by
  induction k with
  | zero =>
    obtain ⟨m, hm, hquanta⟩ := Binary.ofNat_exact bits_fit (n := 1) (by decide)
    have hmagnitude : magnitude 0 = .finite false m := (decimal_eq_ofNat (by decide)).trans hm
    rw [hmagnitude]
    refine ⟨.finite m, ?_⟩
    unfold decadeQuanta
    rw [← hquanta, Nat.min_eq_left (Nat.le_of_lt m.fits.1)]
    rfl
  | succ k ih =>
    have hten : decimal 10 0 = Binary.ofNat .binary64 10 := decimal_eq_ofNat (by decide)
    unfold magnitude decadeQuanta
    rw [hten, Binary.mul_comm]
    exact ih.mul bits_fit (by decide) (by decide)

theorem rounded_seriesBound (i : Nat) : (seriesBound i).Rounded (seriesQuanta .binary64 i) := by
  have hstep : ∀ j, decimal (seriesStep j) 0 = Binary.ofNat .binary64 (seriesStep j) ∧
      seriesStep j ≠ 0 ∧ seriesStep j ≤ 2 ^ Format.binary64.digits := by
    intro j
    unfold seriesStep
    split <;> exact ⟨decimal_eq_ofNat (by decide), by decide, by decide⟩
  obtain ⟨hdecimal, hpos, hle⟩ := hstep (i % 3)
  unfold seriesBound seriesQuanta
  rw [hdecimal]
  exact (rounded_magnitude _).mul bits_fit hpos hle

/-- An infinity is an upper bound of all numbers. -/
theorem Binary.le_infinite_of_place? {f : Format} {a : Binary f} (h : a.place? ≠ none) :
    a.le (infinite false) = true := by
  have hpow : (0 : Int) ≤ (2 ^ f.width : Nat) := Int.natCast_nonneg _
  rcases a with _ | ⟨_ | _⟩ | ⟨_ | _, m⟩
  · exact absurd rfl h
  · exact le_infinite .infinite
  · exact le_iff.mpr ⟨_, _, rfl, rfl, Int.le_trans (Int.neg_nonpos_of_nonneg hpow) hpow⟩
  · exact le_infinite (.finite m)
  · exact le_iff.mpr
      ⟨_, _, rfl, rfl, Int.le_trans (Int.neg_nonpos_of_nonneg (Int.natCast_nonneg _)) hpow⟩

/-- The series increases as long as it is finite. -/
theorem seriesBound_lt {i j : Nat} (hij : i < j) {max : Real64}
    (hmax : (seriesBound i).lt max = true) :
    (seriesBound i).lt (seriesBound j) = true := by
  obtain ⟨x, y, hx, hy, hxy⟩ := Binary.lt_iff.mp hmax
  have hplace : max.place? ≠ none := by rw [hy]; exact nofun
  obtain ⟨y', w, hy', hw, hle⟩ := Binary.le_iff.mp (Binary.le_infinite_of_place? hplace)
  obtain rfl : y = y' := Option.some.inj (hy.symm.trans hy')
  obtain rfl : ((2 ^ Format.binary64.width : Nat) : Int) = w := Option.some.inj hw
  obtain rfl := Option.some.inj (hx.symm.trans (rounded_seriesBound i).place)
  have hlt : seriesQuanta .binary64 i < seriesQuanta .binary64 j :=
    strictMono_seriesQuanta (by decide) hij
  refine Binary.lt_iff.mpr ⟨_, _, (rounded_seriesBound i).place, (rounded_seriesBound j).place, ?_⟩
  generalize 2 ^ Format.binary64.width = width at *
  omega

/-- **The series reaches infinity.** -/
theorem seriesBound_infinite :
    (seriesBound 927).place? = (Binary.infinite false : Real64).place? := by
  have hten : seriesQuanta .binary64 927 = decadeQuanta .binary64 309 :=
    (seriesQuanta_exact (by decide) 309).1
  have hquanta : 2 ^ Format.binary64.width ≤ seriesQuanta .binary64 927 :=
    hten ▸ width_le_decadeQuanta (by decide) (by decide +kernel)
  rw [(rounded_seriesBound 927).place, Nat.min_eq_right hquanta]
  rfl

/-! ## The cut at the maximum -/

theorem takeThrough_eq_take {p : Real64 → Bool} {l : List Real64} (h : ∃ x ∈ l, p x = true) :
    ∃ (n : Nat) (hn : n < l.length), takeThrough p l = l.take (n + 1) ∧ p l[n] = true ∧
      ∀ (i : Nat) (hi : i < l.length), i < n → ¬ p l[i] = true := by
  induction l with
  | nil =>
    obtain ⟨x, hx, -⟩ := h
    exact absurd hx List.not_mem_nil
  | cons x r ih =>
    unfold takeThrough
    by_cases hx : p x = true
    · rw [if_pos hx]
      exact ⟨0, Nat.zero_lt_succ _, rfl, hx, fun i _ hin => absurd hin (Nat.not_lt_zero i)⟩
    · rw [if_neg hx]
      obtain ⟨y, hy, hpy⟩ := h
      have hr : y ∈ r := (List.mem_cons.mp hy).resolve_left fun heq => hx (heq ▸ hpy)
      obtain ⟨n, hn, htake, hpn, hbefore⟩ := ih ⟨y, hr, hpy⟩
      refine ⟨n + 1, Nat.succ_lt_succ hn, by rw [htake, List.take_succ_cons], hpn,
        fun i hi hin => ?_⟩
      cases i with
      | zero => exact hx
      | succ i => exact hbefore i (Nat.lt_of_succ_lt_succ hi) (Nat.lt_of_succ_lt_succ hin)

/-- **The default buckets** are the series up to its first number that reaches the maximum. -/
theorem defaultHistogramBuckets_eq {max : Real64} (h : max.place? ≠ none) : ∃ n < 930,
    defaultHistogramBuckets max = (List.range (n + 1)).map seriesBound ∧
      max.le (seriesBound n) = true ∧ ∀ i < n, (seriesBound i).lt max = true := by
  have hdecades : decades 310 (decimal 1 0) = (List.range 930).map seriesBound := by
    rw [List.range_eq_range']
    exact decades_eq 310 0
  have hreached : ∃ x ∈ (List.range 930).map seriesBound, max.le x = true := by
    refine ⟨seriesBound 927, List.mem_map_of_mem (List.mem_range.mpr (by decide)), ?_⟩
    obtain ⟨x, y, hx, hy, hxy⟩ := Binary.le_iff.mp (Binary.le_infinite_of_place? h)
    exact Binary.le_iff.mpr ⟨x, y, hx, seriesBound_infinite.trans hy, hxy⟩
  obtain ⟨n, hn, htake, hpn, hbefore⟩ := takeThrough_eq_take hreached
  have hn' : n < 930 := by simpa using hn
  refine ⟨n, hn', ?_, by simpa using hpn, fun i hi => ?_⟩
  · unfold defaultHistogramBuckets
    rw [hdecades, htake, ← List.map_take, List.take_range, Nat.min_eq_left hn']
  · refine Binary.lt_of_not_le ?_ h (by simpa using hbefore i (Nat.lt_trans hi hn) hi)
    rw [(rounded_seriesBound i).place]
    exact nofun

theorem ascending_defaultHistogramBuckets {max : Real64} (h : max.place? ≠ none) :
    Ascending (defaultHistogramBuckets max) := by
  obtain ⟨n, -, heq, -, hbefore⟩ := defaultHistogramBuckets_eq h
  rw [heq]
  constructor
  · refine List.pairwise_map.mpr (List.pairwise_lt_range.imp_of_mem fun {i j} _ hj hij => ?_)
    have hj' := List.mem_range.mp hj
    exact seriesBound_lt hij (hbefore i (by omega))
  · intro x hx
    obtain ⟨i, -, rfl⟩ := List.mem_map.mp hx
    exact (rounded_seriesBound i).unsigned.notBelow

end Telemetry
