/-!
# Binary floating-point numbers

Every finite number of a binary format is a whole number of **quanta**, the format's least positive
number. A finite number is therefore a sign and a count of quanta, of which at most `digits` leading
bits are free (`Format.Fits`). Subnormal numbers need no case of their own: they are the counts
below `2 ^ digits`, which are all exact.

`Binary.ofRatio` rounds the fraction `num / den` of quanta to the nearest number of the format, a
tie to the even neighbour, and beyond the largest number to infinity. Every operation rounds through
it once. Both zeros are kept, and one value stands for every NaN.
-/

namespace Telemetry

/-- Powers are the core ones also where an algebraic structure offers others. -/
scoped instance (priority := 2000) corePow : Pow Nat Nat := instPowNat

/-- A binary format, its numbers counted in quanta of `2 ^ (-fraction)`. -/
structure Format where
  /-- Significant bits of a number. -/
  digits : Nat
  /-- The quantum is `2 ^ (-fraction)`. -/
  fraction : Nat
  /-- Every finite magnitude is below `2 ^ width` quanta. -/
  width : Nat
  digits_pos : 0 < digits

namespace Format

/-- Double precision. -/
def binary64 : Format := ⟨53, 1074, 2098, by decide⟩

/-- Single precision. -/
def binary32 : Format := ⟨24, 149, 277, by decide⟩

/-- Neighbouring numbers around `n` quanta lie `2 ^ spacing` apart. -/
def spacing (f : Format) (n : Nat) : Nat := n.log2 + 1 - f.digits

/-- `n` quanta are a number of the format. -/
def Fits (f : Format) (n : Nat) : Prop := n < 2 ^ f.width ∧ 2 ^ f.spacing n ∣ n

instance (f : Format) (n : Nat) : Decidable (f.Fits n) :=
  inferInstanceAs (Decidable (_ ∧ _))

end Format

/-- The integer nearest to `num / den`; of two equally near ones the even one. -/
def nearestEven (num den : Nat) : Nat :=
  let q := num / den
  let twice := 2 * (num % den)
  if twice < den then q else if den < twice then q + 1 else if q % 2 = 0 then q else q + 1

theorem nearestEven_le (num den : Nat) : nearestEven num den ≤ num / den + 1 := by
  simp only [nearestEven]
  split
  · omega
  · split
    · omega
    · split <;> omega

namespace Format

/-- `num / den` quanta rounded to `digits` significant bits. -/
def round (f : Format) (num den : Nat) : Nat :=
  let s := f.spacing (num / den)
  nearestEven num (den * 2 ^ s) * 2 ^ s

/-- The rounded count has no more significant bits than the format. -/
theorem dvd_round (f : Format) (num den : Nat) :
    2 ^ f.spacing (f.round num den) ∣ f.round num den := by
  have hle : nearestEven num (den * 2 ^ f.spacing (num / den)) ≤ 2 ^ f.digits := by
    have h1 := nearestEven_le num (den * 2 ^ f.spacing (num / den))
    have h2 : num / (den * 2 ^ f.spacing (num / den)) < 2 ^ f.digits := by
      rw [← Nat.div_div_eq_div_mul, Nat.div_lt_iff_lt_mul (Nat.two_pow_pos _), ← Nat.pow_add]
      refine Nat.lt_of_lt_of_le Nat.lt_log2_self (Nat.pow_le_pow_right (by decide) ?_)
      simp only [spacing]
      omega
    omega
  show 2 ^ f.spacing (_ * _) ∣ _ * _
  generalize nearestEven num (den * 2 ^ f.spacing (num / den)) = r at hle
  generalize f.spacing (num / den) = s
  rcases Nat.lt_or_eq_of_le hle with hr | rfl
  · refine Nat.dvd_trans (Nat.pow_dvd_pow 2 ?_) (Nat.dvd_mul_left _ _)
    by_cases h0 : r = 0
    · have := f.digits_pos
      simp only [h0, spacing, Nat.zero_mul, Nat.log2_zero]
      omega
    · have hne : r * 2 ^ s ≠ 0 := Nat.mul_ne_zero h0 (Nat.ne_of_gt (Nat.two_pow_pos _))
      have hlt : r * 2 ^ s < 2 ^ (f.digits + s) := by
        rw [Nat.pow_add]
        exact Nat.mul_lt_mul_of_pos_right hr (Nat.two_pow_pos _)
      have := (Nat.log2_lt hne).mpr hlt
      simp only [spacing]
      omega
  · rw [← Nat.pow_add]
    refine Nat.pow_dvd_pow 2 ?_
    have := f.digits_pos
    simp only [spacing, Nat.log2_two_pow]
    omega

end Format

/-- A finite magnitude: a count of quanta that fits the format. -/
structure Magnitude (f : Format) where
  quanta : Nat
  fits : f.Fits quanta
deriving DecidableEq

/-- A number of the format `f`. -/
inductive Binary (f : Format) where
  | nan
  | infinite (negative : Bool)
  | finite (negative : Bool) (magnitude : Magnitude f)
deriving DecidableEq

/-- A double precision number, as every measured value is. -/
abbrev Real64 := Binary .binary64

namespace Binary

variable {f : Format}

/-- `± num / den` quanta, rounded. -/
def ofRatio (negative : Bool) (num den : Nat) : Binary f :=
  if h : f.round num den < 2 ^ f.width then
    .finite negative ⟨f.round num den, h, f.dvd_round num den⟩
  else .infinite negative

/-- Zero with a sign. -/
def zero (negative : Bool) : Binary f :=
  .finite negative ⟨0, Nat.two_pow_pos _, Nat.dvd_zero _⟩

instance : Inhabited (Binary f) := ⟨zero false⟩

/-- The place of a number on the line, in quanta, an infinity just beyond every finite number. A
NaN has none. -/
def place? : Binary f → Option Int
  | nan => none
  | infinite negative => some (if negative then -(2 ^ f.width : Nat) else (2 ^ f.width : Nat))
  | finite negative m => some (if negative then -(m.quanta : Int) else m.quanta)

/-- `a < b`; false when either is NaN. -/
def lt (a b : Binary f) : Bool :=
  match a.place?, b.place? with
  | some x, some y => decide (x < y)
  | _, _ => false

/-- `a ≤ b`; false when either is NaN. -/
def le (a b : Binary f) : Bool :=
  match a.place?, b.place? with
  | some x, some y => decide (x ≤ y)
  | _, _ => false

/-- Numeric equality: the zeros are equal, a NaN differs from itself. -/
def same (a b : Binary f) : Bool :=
  match a.place?, b.place? with
  | some x, some y => decide (x = y)
  | _, _ => false

/-- A key that orders all numbers: the negative zero just below the positive one, NaN last. -/
def sortKey : Binary f → Int
  | nan => (2 ^ f.width : Nat) + 1
  | infinite negative => if negative then -(2 ^ f.width : Nat) - 1 else (2 ^ f.width : Nat)
  | finite negative m => if negative then -(m.quanta : Int) - 1 else m.quanta

def isNaN : Binary f → Bool
  | nan => true
  | _ => false

def isFinite : Binary f → Bool
  | finite _ _ => true
  | _ => false

def isInfinite : Binary f → Bool
  | infinite _ => true
  | _ => false

end Binary

end Telemetry
