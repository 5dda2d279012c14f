import Mathlib.Data.Finset.Max
import Telemetry.Proofs.Text.Numerals

/-!
# Durations in their units

A text says an amount in the longest unit that ends it (`Says`). Every text says one amount in one
unit (`exists_amount`, `Says.unique`), and it is read as a duration unless the amount is not a
number, is below zero, infinite or a NaN (`Says.read?_eq_none_iff`). A numeral with a unit is read
as all the nanoseconds, rounded once (`Writes.read?_eq`). Those of a number of hours end in thirteen
binary zeros, so hours are read exactly, up to the last word, in whatever unit they are written
(`WritesHours.read?_eq`).
-/

namespace Telemetry

namespace Duration

open Text

/-! ## The unit of a text -/

/-- The units with that of an amount alone, which counts milliseconds and has no symbol. -/
def allUnits : List (String × Nat) := units ++ [("", 1000000)]

/-- A text says an amount in a unit: blanks may stand around the two and between them, and no unit
with a longer symbol ends the text. So `1ms` says `1` in milliseconds, not `1m` in seconds. -/
structure Says (text amount : List Char) (unit : String × Nat) : Prop where
  known : unit ∈ allUnits
  spaced : ∃ before gap after : List Char, before.all isBlank ∧ gap.all isBlank ∧
    after.all isBlank ∧ text = before ++ amount ++ gap ++ unit.1.toList ++ after
  longest : ∀ other ∈ allUnits, other.1.toList <:+ trim text →
    other.1.toList.length ≤ unit.1.toList.length

variable {text amount amount' : List Char} {unit unit' : String × Nat}

theorem allUnits_plain (hunit : unit ∈ allUnits) {c : Char} (hc : c ∈ unit.1.toList) :
    isBlank c = false ∧ c.isDigit = false := by
  have hall : allUnits.all fun unit =>
      unit.1.toList.all fun c => !isBlank c && !c.isDigit := by decide
  have hplain := List.all_eq_true.mp (List.all_eq_true.mp hall unit hunit) c hc
  rwa [Bool.and_eq_true, Bool.not_eq_true', Bool.not_eq_true'] at hplain

/-- The unit is the end of the trimmed text, and before it there is the amount. -/
theorem trim_spaced (hunit : unit ∈ allUnits) {before gap after : List Char}
    (hbefore : before.all isBlank) (hgap : gap.all isBlank) (hafter : after.all isBlank)
    (amount : List Char) :
    ∃ r, trim (before ++ amount ++ gap ++ unit.1.toList ++ after) = r ++ unit.1.toList ∧
      trim r = trim amount ∧ r ⊆ amount ++ gap := by
  obtain ⟨r, htrim, hr, hsub⟩ :=
    trim_append_end (fun c hc => (allUnits_plain hunit hc).1) (amount ++ gap)
  refine ⟨r, ?_, hr.trans (trim_append_right hgap amount), hsub⟩
  have hpad := trim_pad hbefore hafter (amount ++ gap ++ unit.1.toList)
  rw [htrim] at hpad
  simpa only [List.append_assoc] using hpad

theorem Says.trim_eq (h : Says text amount unit) :
    ∃ r, trim text = r ++ unit.1.toList ∧ trim r = trim amount := by
  obtain ⟨before, gap, after, hbefore, hgap, hafter, rfl⟩ := h.spaced
  obtain ⟨r, htrim, hr, -⟩ := trim_spaced h.known hbefore hgap hafter amount
  exact ⟨r, htrim, hr⟩

/-- **Every text says an amount in a unit.** -/
theorem exists_amount (text : List Char) : ∃ amount unit, Says text amount unit := by
  let ends := (allUnits.filter fun unit => unit.1.toList <:+ trim text).toFinset
  have hends : ∀ {unit}, unit ∈ ends ↔ unit ∈ allUnits ∧ unit.1.toList <:+ trim text :=
    fun {unit} => by simp [ends]
  have hnonempty : ends.Nonempty := ⟨("", 1000000), hends.mpr ⟨by decide, List.nil_suffix⟩⟩
  obtain ⟨unit, hunit, hlongest⟩ :=
    ends.exists_max_image (fun unit => unit.1.toList.length) hnonempty
  obtain ⟨hknown, amount, hamount⟩ := hends.mp hunit
  obtain ⟨before, after, hbefore, hafter, htext⟩ := exists_pad text
  refine ⟨amount, unit, hknown, ⟨before, [], after, hbefore, rfl, hafter, ?_⟩,
    fun other hother hend => hlongest other (hends.mpr ⟨hother, hend⟩)⟩
  rw [htext, ← hamount]
  simp

/-- Another unit that ends the text is the end of the text's unit. -/
theorem Says.suffix_of_longest (h : Says text amount unit) {other : String × Nat}
    (hother : other ∈ allUnits) (hend : other.1.toList <:+ trim text) :
    other.1.toList <:+ unit.1.toList := by
  obtain ⟨r, htrim, -⟩ := h.trim_eq
  exact List.suffix_of_suffix_length_le hend ⟨r, htrim.symm⟩ (h.longest other hother hend)

/-- **It says one amount in one unit**, but for the blanks around the amount. -/
theorem Says.unique (h : Says text amount unit) (h' : Says text amount' unit') :
    unit = unit' ∧ trim amount = trim amount' := by
  obtain ⟨r, htrim, hr⟩ := h.trim_eq
  obtain ⟨r', htrim', hr'⟩ := h'.trim_eq
  have hsame : ∀ unit ∈ allUnits, ∀ unit' ∈ allUnits, unit.1.toList <:+ unit'.1.toList →
      unit'.1.toList <:+ unit.1.toList → unit = unit' := by decide
  obtain rfl := hsame unit h.known unit' h'.known (h'.suffix_of_longest h.known ⟨r, htrim.symm⟩)
    (h.suffix_of_longest h'.known ⟨r', htrim'.symm⟩)
  obtain rfl := List.append_cancel_right (htrim.symm.trans htrim')
  exact ⟨rfl, hr.symm.trans hr'⟩

/-- The first unit that ends the text is split off; the empty symbol ends every text. -/
theorem findSome?_allUnits (cs : List Char) :
    allUnits.findSome? (fun u => (before? u.1.toList cs).map fun r => (r, u.2)) =
    some (splitUnit cs) := by
  have hbare : before? "".toList cs = some cs := before?_eq_some_iff.mpr (List.append_nil cs).symm
  unfold allUnits splitUnit
  rw [List.findSome?_append, List.findSome?_singleton]
  dsimp only
  rw [hbare]
  cases units.findSome? fun u => (before? u.1.toList cs).map fun r => (r, u.2) <;> rfl

/-- No unit is the end of one that is tried after it, so the first one that ends a text is the
longest one. -/
theorem allUnits_ordered :
    allUnits.Pairwise fun earlier later => ¬ earlier.1.toList <:+ later.1.toList := by
  decide

theorem Says.splitUnit_eq (h : Says text amount unit) {r : List Char}
    (htrim : trim text = r ++ unit.1.toList) : splitUnit (trim text) = (r, unit.2) := by
  obtain ⟨earlier, later, hsplit⟩ := List.append_of_mem h.known
  have hself : before? unit.1.toList (trim text) = some r := before?_eq_some_iff.mpr htrim
  have hearlier : ∀ other ∈ earlier, before? other.1.toList (trim text) = none := by
    intro other hother
    have hmem : other ∈ allUnits := hsplit ▸ List.mem_append_left _ hother
    have hnot : ¬ other.1.toList <:+ unit.1.toList :=
      (List.pairwise_append.mp (hsplit ▸ allUnits_ordered)).2.2 other hother unit List.mem_cons_self
    refine Option.eq_none_iff_forall_ne_some.mpr fun x hx => hnot ?_
    exact h.suffix_of_longest hmem ⟨x, (before?_eq_some_iff.mp hx).symm⟩
  have hfirst :
      allUnits.findSome? (fun u => (before? u.1.toList (trim text)).map fun r => (r, u.2)) =
      some (r, unit.2) := by
    refine List.findSome?_eq_some_iff.mpr ⟨earlier, unit, later, hsplit, ?_, fun other hother => ?_⟩
    · rw [hself]
      rfl
    · rw [hearlier other hother]
      rfl
  exact Option.some.inj ((findSome?_allUnits _).symm.trans hfirst)

example :
    splitUnit "1ms".toList = (['1'], 1000000) ∧
    splitUnit "1m s".toList = ("1m ".toList, 1000000000) := by
  decide

/-! ## Amounts -/

/-- No duration has such an amount: it does not read as a number, or as one that is below zero,
infinite or a NaN. -/
inductive NoAmount (amount : List Char) : Prop where
  | unreadable : Binary.ofText? .binary64 (trim amount) = none → NoAmount amount
  | below {x : Real64} : Binary.ofText? .binary64 (trim amount) = some x →
      x.lt (.zero false) = true → NoAmount amount
  | infinite {x : Real64} : Binary.ofText? .binary64 (trim amount) = some x → x.isInfinite = true →
      NoAmount amount
  | nan {x : Real64} : Binary.ofText? .binary64 (trim amount) = some x → x.isNaN = true →
    NoAmount amount

theorem read_eq_number {x : Real64} : Amount.read amount = .number x ↔
    Binary.ofText? .binary64 (trim amount) = some x ∧ x.isFinite = true ∧
    x.lt (.zero false) = false := by
  unfold Amount.read
  cases Binary.ofText? .binary64 (trim amount) with
  | none => exact ⟨nofun, nofun⟩
  | some y =>
    dsimp only
    split
    · rename_i hy
      rw [Bool.and_eq_true, Bool.not_eq_true'] at hy
      exact ⟨fun h => by cases h; exact ⟨rfl, hy⟩, fun ⟨h, _⟩ => by cases h; rfl⟩
    · rename_i hy
      refine ⟨nofun, fun ⟨h, hfinite, hlt⟩ => absurd ?_ hy⟩
      cases h
      rw [hfinite, hlt]
      rfl

theorem noAmount_iff : NoAmount amount ↔ ∀ x, Amount.read amount ≠ .number x := by
  constructor
  · intro h y hy
    obtain ⟨hread, hfinite, hlt⟩ := read_eq_number.mp hy
    cases h with
    | unreadable h => cases h.symm.trans hread
    | below h hx =>
      cases h.symm.trans hread
      cases hx.symm.trans hlt
    | infinite h hx | nan h hx =>
      cases h.symm.trans hread
      cases y with
      | finite => cases hx
      | _ => cases hfinite
  · intro h
    cases hread : Binary.ofText? .binary64 (trim amount) with
    | none => exact .unreadable hread
    | some x =>
      cases x with
      | nan => exact .nan hread rfl
      | infinite negative => exact .infinite hread rfl
      | finite negative m =>
        refine .below hread (Bool.eq_true_of_not_eq_false fun hlt => ?_)
        exact h _ (read_eq_number.mpr ⟨hread, rfl, hlt⟩)

/-! ## Reading -/

theorem Says.split (h : Says text amount unit) :
    ∃ r, splitUnit (trim text) = (r, unit.2) ∧ Amount.read r = Amount.read amount := by
  obtain ⟨r, htrim, hr⟩ := h.trim_eq
  refine ⟨r, h.splitUnit_eq htrim, ?_⟩
  unfold Amount.read
  rw [hr]

theorem Says.read?_eq_some (h : Says text amount unit) {x : Real64}
    (hx : Amount.read amount = .number x) :
    read? text = some ⟨(x.mul (Binary.ofNat _ unit.2)).roundWord⟩ := by
  obtain ⟨r, hsplit, hread⟩ := h.split
  unfold read?
  simp only [hsplit, hread, hx]

/-- **A duration is refused for its amount only.** -/
theorem Says.read?_eq_none_iff (h : Says text amount unit) :
    read? text = none ↔ NoAmount amount := by
  obtain ⟨r, hsplit, hread⟩ := h.split
  unfold read?
  simp only [hsplit, hread, noAmount_iff]
  cases Amount.read amount <;> simp

theorem read?_trim (cs : List Char) : read? (trim cs) = read? cs := by
  unfold read?
  rw [trim_trim]

/-! ## Numerals -/

/-- A text writes a number of units: a numeral and the unit's symbol, with blanks around the two and
between them. -/
def Writes (count : Nat) (symbol : String) (text : List Char) : Prop :=
  ∃ digits before gap after : List Char, Numeral count digits ∧ before.all isBlank ∧
    gap.all isBlank ∧ after.all isBlank ∧ text = before ++ digits ++ gap ++ symbol.toList ++ after

variable {count : Nat}

/-- What ends a text and has none of the characters before its last part lies in that part. -/
theorem length_le_of_suffix {r s t : List Char} (hend : t <:+ r ++ s) (hapart : ∀ c ∈ t, c ∉ r) :
    t.length ≤ s.length := by
  refine Nat.le_of_not_lt fun hlonger => ?_
  obtain ⟨first, rfl⟩ : s <:+ t :=
    List.suffix_of_suffix_length_le (List.suffix_append r s) hend (Nat.le_of_lt hlonger)
  rw [List.suffix_append_inj_of_length_eq rfl] at hend
  cases first with
  | nil => exact Nat.lt_irrefl _ hlonger
  | cons c first => exact hapart c (by simp) (hend.1.subset List.mem_cons_self)

/-- Neither a numeral nor the blanks after it end in a unit. -/
theorem Writes.exists_numeral (h : Writes count unit.1 text) (hunit : unit ∈ allUnits) :
    ∃ digits, Numeral count digits ∧ Says text digits unit := by
  obtain ⟨digits, before, gap, after, hdigits, hbefore, hgap, hafter, rfl⟩ := h
  obtain ⟨r, htrim, -, hsub⟩ := trim_spaced hunit hbefore hgap hafter digits
  refine ⟨digits, hdigits, hunit, ⟨before, gap, after, hbefore, hgap, hafter, rfl⟩,
    fun other hother hend => ?_⟩
  rw [htrim] at hend
  refine length_le_of_suffix hend fun c hc hr => ?_
  obtain ⟨hblank, hdigit⟩ := allUnits_plain hother hc
  rcases List.mem_append.mp (hsub hr) with h | h
  · rw [hdigits.isDigit h] at hdigit
    cases hdigit
  · rw [List.all_eq_true.mp hgap c h] at hblank
    cases hblank

/-- A double counts so many units exactly. -/
theorem read_numeral {digits : List Char} (h : Numeral count digits) (hcount : count ≤ 2 ^ 53) :
    Amount.read digits = .number (Binary.ofNat .binary64 count) := by
  obtain ⟨m, hm, -⟩ := Binary.ofNat_exact bits_fit hcount
  refine read_eq_number.mpr ⟨?_, ?_, ?_⟩
  · rw [h.trim_eq]
    exact h.ofText?_eq hcount
  · rw [hm]
    rfl
  · rw [hm]
    exact decide_eq_false (Int.not_lt.mpr (Int.natCast_nonneg m.quanta))

/-- **A number of units** is read as all their nanoseconds, rounded once. -/
theorem Writes.read?_eq (h : Writes count unit.1 text) (hunit : unit ∈ allUnits)
    (hcount : count ≤ 2 ^ 53) :
    read? text = some ⟨(Binary.ofNat .binary64 (count * unit.2)).roundWord⟩ := by
  have hnanos : ∀ unit ∈ allUnits, unit.2 ≤ 2 ^ 53 := by decide
  obtain ⟨digits, hdigits, hsaid⟩ := h.exists_numeral hunit
  rw [hsaid.read?_eq_some (read_numeral hdigits hcount),
    Binary.mul_ofNat_ofNat bits_fit hcount (hnanos unit hunit)]

/-- A number of units is no blank text. -/
theorem Writes.isEmpty_trim {symbol : String} (h : Writes count symbol text) :
    (trim text).isEmpty = false := by
  obtain ⟨digits, before, gap, after, hdigits, -, -, -, rfl⟩ := h
  obtain ⟨c, hc⟩ := List.exists_mem_of_ne_nil digits hdigits.nonempty
  exact isEmpty_trim_of_mem (by simp [hc]) (isBlank_of_isDigit (hdigits.isDigit hc))

/-! ## Hours -/

/-- The symbols with how many of their units an hour has. -/
def perHour : List (String × Nat) :=
  [("h", 1), ("m", 60), ("s", 3600), ("ms", 3600000), ("", 3600000)]

/-- A text writes `n` hours in one of the units. -/
def WritesHours (n : Nat) (text : List Char) : Prop := ∃ u ∈ perHour, Writes (u.2 * n) u.1 text

/-- The plain spellings are among them. -/
theorem writesHours_digitsOf (n : Nat) {u : String × Nat} (hu : u ∈ perHour) :
    WritesHours n (digitsOf (u.2 * n) ++ u.1.toList) :=
  ⟨u, hu, digitsOf (u.2 * n), [], [], [], numeral_digitsOf _, rfl, rfl, rfl, by simp⟩

/-- The units of an hour, each as often as it goes into the hour. -/
theorem perHour_units : ∀ u ∈ perHour, u.2 ≤ 3600000 ∧
    ∃ unit ∈ allUnits, unit.1 = u.1 ∧ u.2 * unit.2 = 3600 * 10 ^ 9 := by
  decide

theorem WritesHours.writes {n : Nat} (hn : 3600000 * n < 2 ^ 53) (h : WritesHours n text) :
    ∃ unit ∈ allUnits, ∃ count ≤ 2 ^ 53, Writes count unit.1 text ∧
      count * unit.2 = n * 3600 * 10 ^ 9 := by
  obtain ⟨u, hu, hwrites⟩ := h
  obtain ⟨hle, unit, hunit, hsymbol, hnanos⟩ := perHour_units u hu
  have hcount : u.2 * n ≤ 2 ^ 53 := Nat.le_trans (Nat.mul_le_mul_right n hle) (Nat.le_of_lt hn)
  refine ⟨unit, hunit, u.2 * n, hcount, hsymbol ▸ hwrites, ?_⟩
  rw [Nat.mul_right_comm, hnanos, Nat.mul_comm, Nat.mul_assoc]

/-- The nanoseconds of hours end in thirteen binary zeros, and where they are no word they are
clamped. -/
theorem roundWord_hours (n : Nat) : (Binary.ofNat .binary64 (n * 3600 * 10 ^ 9)).roundWord =
    min (n * 3600 * 10 ^ 9) (2 ^ 64 - 1) := by
  have hmax : wordMax = 2 ^ 64 - 1 := rfl
  rw [← hmax]
  by_cases hn : n * 3600 * 10 ^ 9 ≤ wordMax
  · have hzeros : n * 3600 * 10 ^ 9 = n * 439453125 * 2 ^ 13 := by omega
    have hbits : n * 439453125 ≤ 2 ^ 53 := by
      refine Nat.le_of_mul_le_mul_right (?_ : n * 439453125 * 2 ^ 13 ≤ 2 ^ 53 * 2 ^ 13)
        (Nat.two_pow_pos 13)
      rw [← hzeros]
      exact Nat.le_trans hn (by decide)
    rw [hzeros]
    exact Binary.roundWord_ofNat_mul_two_pow (by decide) hbits
  · rw [Binary.roundWord_ofNat_of_wordMax_lt (by decide) (Nat.lt_of_not_le hn)]
    exact (Nat.min_eq_right (Nat.le_of_not_le hn)).symm

/-- **Hours are read exactly**, up to the last word, in whatever unit they are written. -/
theorem WritesHours.read?_eq {n : Nat} (hn : 3600000 * n < 2 ^ 53) (h : WritesHours n text) :
    read? text = some ⟨min (n * 3600 * 10 ^ 9) (2 ^ 64 - 1)⟩ := by
  obtain ⟨unit, hunit, count, hcount, hwrites, hspan⟩ := h.writes hn
  rw [hwrites.read?_eq hunit hcount, hspan, roundWord_hours]

end Duration

end Telemetry
