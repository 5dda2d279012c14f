import Telemetry.Proofs.Rounding.Whole
import Telemetry.Proofs.Text.Parts

/-!
# Numerals

A numeral is a text of digits (`Numeral`), and the digits of a number are one of its numerals
(`numeral_digitsOf`). Read as a decimal it has no sign, no point and no exponent
(`Numeral.read?_eq`), so a numeral of a number that has no more bits than a double reads as that
number (`Numeral.ofText?_eq`).
-/

namespace Telemetry

/-- A numeral of `n`: digits, with or without zeros in front. -/
structure Numeral (n : Nat) (cs : List Char) : Prop where
  nonempty : cs ≠ []
  digits : cs.all Char.isDigit
  value : digitsValue cs = n

theorem numeral_digitsOf (n : Nat) : Numeral n (digitsOf n) where
  nonempty := Nat.toDigits_ne_nil
  digits := List.all_eq_true.mpr fun _ => Nat.isDigit_of_mem_toDigits (by decide) (by decide)
  value := Nat.ofDigitChars_eq_foldl.symm.trans Nat.ofDigitChars_ten_toDigits

theorem isBlank_of_isDigit {c : Char} (h : c.isDigit = true) : Text.isBlank c = false := by
  obtain ⟨hlow, hhigh⟩ := Char.isDigit_iff_toNat.mp h
  have hzero : '0'.toNat = 48 := rfl
  have hnine : '9'.toNat = 57 := rfl
  unfold Text.isBlank Text.blankRanges
  simp only [List.any_cons, List.any_nil, Bool.or_false, Bool.or_eq_false_iff,
    Bool.and_eq_false_iff, decide_eq_false_iff_not]
  omega

theorem toLower_of_isDigit {c : Char} (h : c.isDigit = true) : c.toLower = c := by
  have hhigh := (Char.isDigit_iff_toNat.mp h).2
  have hnine : '9'.toNat = 57 := rfl
  have hcapital : 'A'.val.toNat = 65 := rfl
  have hval : c.val.toNat = c.toNat := rfl
  unfold Char.toLower
  split
  · rename_i hupper
    have hlow := UInt32.le_iff_toNat_le.mp hupper.1
    omega
  · rfl

namespace Numeral

variable {n : Nat} {cs : List Char}

theorem isDigit (h : Numeral n cs) {c : Char} (hc : c ∈ cs) : c.isDigit = true :=
  List.all_eq_true.mp h.digits c hc

theorem trim_eq (h : Numeral n cs) : Text.trim cs = cs := by
  obtain ⟨r, htrim, -, hr⟩ :=
    Text.trim_append_end (fun c hc => isBlank_of_isDigit (h.isDigit hc)) []
  rw [List.nil_append, List.subset_nil.mp hr] at htrim
  exact htrim

/-- A digit is no sign, -/
theorem sign_eq (h : Numeral n cs) : Decimal.sign cs = (false, cs) := by
  have hne : ∀ c r, c.isDigit = false → cs ≠ c :: r := fun c r hc heq => by
    rw [h.isDigit (heq ▸ List.mem_cons_self)] at hc
    cases hc
  unfold Decimal.sign
  split
  · exact absurd rfl (hne '+' _ rfl)
  · exact absurd rfl (hne '-' _ rfl)
  · rfl

/-- and begins no word. -/
theorem map_toLower_ne (h : Numeral n cs) {word : List Char}
    (hword : word.head?.any Char.isDigit = false) :
    cs.map Char.toLower ≠ word := by
  obtain ⟨c, r, rfl⟩ := List.exists_cons_of_ne_nil h.nonempty
  have hc : c.isDigit = true := h.isDigit List.mem_cons_self
  rintro rfl
  rw [List.map_cons, toLower_of_isDigit hc, List.head?_cons, Option.any_some, hc] at hword
  cases hword

theorem digits_eq (h : Numeral n cs) : Decimal.digits cs = (cs, []) := by
  unfold Decimal.digits
  rw [List.takeWhile_eq_self_iff.mpr fun _ => h.isDigit,
    List.dropWhile_eq_nil_iff.mpr fun _ => h.isDigit]

theorem read?_eq (h : Numeral n cs) : Decimal.read? cs = some (.finite false n 0) := by
  unfold Decimal.read?
  rw [h.sign_eq]
  dsimp only
  rw [if_neg (h.map_toLower_ne (by decide)),
    if_neg (not_or.mpr ⟨h.map_toLower_ne (by decide), h.map_toLower_ne (by decide)⟩)]
  unfold Decimal.unsigned?
  rw [h.digits_eq]
  simp [Decimal.exponent?, h.nonempty, h.value]

/-- **A numeral reads as its number.** -/
theorem ofText?_eq (h : Numeral n cs) (hn : n ≤ 2 ^ 53) :
    Binary.ofText? .binary64 cs = some (Binary.ofNat .binary64 n) := by
  have hlength : (digitsOf n).length ≤ 16 :=
    (Nat.length_toDigits_le_iff (by decide) (by decide)).mpr (Nat.lt_of_le_of_lt hn (by decide))
  unfold Binary.ofText?
  rw [h.read?_eq, Option.map_some]
  exact congrArg some (decimal_eq_ofNat (Nat.le_trans hlength (by decide)))

end Numeral

end Telemetry
