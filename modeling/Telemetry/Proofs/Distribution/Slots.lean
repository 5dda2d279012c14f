import Telemetry.Distribution.Layout
import Telemetry.Proofs.Rounding

/-!
# Slots and the values in them

The slot of a value is as wide as the doublings at the value say (`widthAt`), holds the value
(`lowestOf_slotOf_le`, `lt_lowestOf_slotOf`), and beyond the narrowest slots is narrow against the
value (`mul_widthAt_le`). A slot begins where the one before it ends (`lowestOf_succ`), so the first
and the last values of the slots are in the order of the slots. The slots of a layout reach up to
`Layout.reach` (`slotOf_lt_slots_iff`), which is beyond its highest value (`high_lt_of_doublings`).
`Built` is what is built for settings.
-/

namespace Telemetry

namespace Layout

/-- The width of the slot of a value. -/
def widthAt (l : Layout) (v : Nat) : Nat := 2 ^ (l.doublingsAt v + l.unitBits)

variable {l : Layout} {v : Nat}

theorem widthAt_pos (l : Layout) (v : Nat) : 0 < l.widthAt v := Nat.two_pow_pos _

/-- A value lies below the end of its doubling. -/
theorem lt_two_pow_doublingsAt (l : Layout) (v : Nat) :
    v < 2 ^ l.subBits * l.widthAt v := by
  unfold widthAt
  rw [← Nat.pow_add]
  refine Nat.lt_of_lt_of_le Nat.lt_log2_self (Nat.pow_le_pow_right (by decide) ?_)
  unfold doublingsAt
  omega

/-- A value where the width has doubled lies in the upper half of its doubling. -/
theorem two_pow_le_of_doublingsAt (hb : 1 ≤ l.subBits) (hk : l.doublingsAt v ≠ 0) :
    2 ^ (l.subBits - 1) * l.widthAt v ≤ v := by
  have hv : v ≠ 0 := by
    rintro rfl
    refine hk ?_
    unfold doublingsAt
    rw [Nat.log2_zero]
    omega
  refine Nat.le_trans (Nat.le_of_eq ?_) (Nat.log2_self_le hv)
  unfold widthAt
  rw [← Nat.pow_add]
  unfold doublingsAt at hk ⊢
  congr 1
  omega

theorem two_pow_subBits (hb : 1 ≤ l.subBits) : 2 ^ l.subBits = 2 * 2 ^ (l.subBits - 1) := by
  rw [← Nat.pow_succ']
  congr 1
  omega

theorem slotOf_eq (l : Layout) (v : Nat) :
    l.slotOf v = l.doublingsAt v * 2 ^ (l.subBits - 1) + v / l.widthAt v := by
  show (l.doublingsAt v + 1) * 2 ^ (l.subBits - 1) + v / l.widthAt v - 2 ^ (l.subBits - 1) = _
  rw [Nat.add_mul, Nat.one_mul, Nat.add_right_comm, Nat.add_sub_cancel]

/-- The place of a value among the narrowest slots, or in the upper half of them. -/
theorem position_slotOf (hb : 1 ≤ l.subBits) (v : Nat) :
    l.position (l.slotOf v) = (l.doublingsAt v, v / l.widthAt v) := by
  have hlt : v / l.widthAt v < 2 ^ l.subBits :=
    (Nat.div_lt_iff_lt_mul (l.widthAt_pos v)).mpr (l.lt_two_pow_doublingsAt v)
  unfold position
  rw [slotOf_eq]
  by_cases hk : l.doublingsAt v = 0
  · rw [hk, Nat.zero_mul, Nat.zero_add, if_pos hlt]
  · have hge : 2 ^ (l.subBits - 1) ≤ v / l.widthAt v :=
      (Nat.le_div_iff_mul_le (l.widthAt_pos v)).mpr (two_pow_le_of_doublingsAt hb hk)
    rw [two_pow_subBits hb] at hlt ⊢
    generalize hh : 2 ^ (l.subBits - 1) = half at hlt hge
    have hhalf : 0 < half := hh ▸ Nat.two_pow_pos _
    generalize v / l.widthAt v = place at hlt hge
    generalize l.doublingsAt v = k at hk
    -- the place is `half` and a rest below `half`
    obtain ⟨rest, rfl⟩ := Nat.exists_eq_add_of_le hge
    have hrest : rest < half := by omega
    have hbig : ¬ k * half + (half + rest) < 2 * half := by
      have : half ≤ k * half := Nat.le_mul_of_pos_left half (Nat.pos_of_ne_zero hk)
      omega
    have hsplit : k * half + (half + rest) = rest + half * (k + 1) := by
      rw [Nat.mul_add, Nat.mul_one, Nat.mul_comm half k]
      omega
    rw [if_neg hbig, hsplit, Nat.add_mul_div_left _ _ hhalf, Nat.add_mul_mod_self_left,
      Nat.div_eq_of_lt hrest, Nat.mod_eq_of_lt hrest]
    refine Prod.ext ?_ ?_
    · show 0 + (k + 1) - 1 = k
      omega
    · show rest + half = half + rest
      omega

/-! ## The values of a slot -/

theorem lowestOf_slotOf (hb : 1 ≤ l.subBits) (v : Nat) :
    l.lowestOf (l.slotOf v) = v / l.widthAt v * l.widthAt v := by
  unfold lowestOf
  rw [position_slotOf hb]
  rfl

theorem highestOf_slotOf (hb : 1 ≤ l.subBits) (v : Nat) :
    l.highestOf (l.slotOf v) = saturate (l.lowestOf (l.slotOf v) + l.widthAt v) - 1 := by
  unfold highestOf
  rw [position_slotOf hb]
  rfl

theorem lowestOf_slotOf_le (hb : 1 ≤ l.subBits) (v : Nat) : l.lowestOf (l.slotOf v) ≤ v := by
  rw [lowestOf_slotOf hb]
  exact Nat.div_mul_le_self v _

theorem lt_lowestOf_slotOf (hb : 1 ≤ l.subBits) (v : Nat) :
    v < l.lowestOf (l.slotOf v) + l.widthAt v := by
  rw [lowestOf_slotOf hb]
  exact Nat.lt_div_mul_add (l.widthAt_pos v)

/-- The greatest word of a slot is at or above every other word up to one of the slot's own. -/
theorem le_highestOf_slotOf (hb : 1 ≤ l.subBits) {u : Nat} (hu : u ≤ v) (hword : u < wordMax) :
    u ≤ l.highestOf (l.slotOf v) := by
  have hlt := lt_lowestOf_slotOf hb v
  rw [highestOf_slotOf hb]
  unfold saturate
  omega

/-- Every word of a slot is at most the slot's width away from its greatest. -/
theorem highestOf_slotOf_near (hb : 1 ≤ l.subBits) (hv : v ≤ wordMax) :
    v ≤ l.highestOf (l.slotOf v) + l.widthAt v ∧ l.highestOf (l.slotOf v) ≤ v + l.widthAt v := by
  have hle := lowestOf_slotOf_le hb v
  have hlt := lt_lowestOf_slotOf hb v
  have hpos := l.widthAt_pos v
  rw [highestOf_slotOf hb]
  unfold saturate
  rw [Nat.min_def]
  split <;> omega

/-- Where the width has doubled, it is a small part of the value. -/
theorem mul_widthAt_le (hb : 1 ≤ l.subBits) {digits : Nat} (hd : 2 * 10 ^ digits ≤ 2 ^ l.subBits)
    (hk : l.doublingsAt v ≠ 0) : l.widthAt v * 10 ^ digits ≤ v := by
  have hhalf : 10 ^ digits ≤ 2 ^ (l.subBits - 1) := by
    rw [two_pow_subBits hb] at hd
    omega
  calc l.widthAt v * 10 ^ digits ≤ l.widthAt v * 2 ^ (l.subBits - 1) := Nat.mul_le_mul_left _ hhalf
    _ = 2 ^ (l.subBits - 1) * l.widthAt v := Nat.mul_comm _ _
    _ ≤ v := two_pow_le_of_doublingsAt hb hk

/-- The width has not doubled at the values of the narrowest slots. -/
theorem doublingsAt_of_lt (hb : 1 ≤ l.subBits) (hv : v < 2 ^ (l.subBits + l.unitBits)) :
    l.doublingsAt v = 0 := by
  unfold doublingsAt
  by_cases h0 : v = 0
  · rw [h0, Nat.log2_zero]
    omega
  · have := (Nat.log2_lt h0).mpr hv
    omega

theorem widthAt_of_narrow (hk : l.doublingsAt v = 0) : l.widthAt v = 2 ^ l.unitBits := by
  unfold widthAt
  rw [hk, Nat.zero_add]

/-! ## The order of the slots -/

/-- A slot begins where the one before it ends. -/
theorem lowestOf_succ (hb : 1 ≤ l.subBits) (slot : Nat) :
    l.lowestOf (slot + 1) = l.lowestOf slot + 2 ^ ((l.position slot).1 + l.unitBits) := by
  unfold lowestOf position
  rw [two_pow_subBits hb]
  have hhalf : 0 < 2 ^ (l.subBits - 1) := Nat.two_pow_pos _
  generalize 2 ^ (l.subBits - 1) = half at hhalf
  have hnext : ∀ place k : Nat, (place + 1) * 2 ^ (k + l.unitBits) =
      place * 2 ^ (k + l.unitBits) + 2 ^ (k + l.unitBits) := fun place k => by
    rw [Nat.add_mul, Nat.one_mul]
  by_cases hnarrow : slot + 1 < 2 * half
  · rw [if_pos hnarrow, if_pos (by omega)]
    exact hnext slot 0
  · rw [if_neg hnarrow]
    by_cases hlast : slot < 2 * half
    · -- the last of the narrowest slots
      have hslot : slot + 1 = half * 2 := by omega
      rw [if_pos hlast, hslot, Nat.mul_div_cancel_left 2 hhalf, Nat.mul_mod_right]
      show (0 + half) * 2 ^ (1 + l.unitBits) = slot * 2 ^ (0 + l.unitBits) + 2 ^ (0 + l.unitBits)
      rw [← hnext slot 0, hslot, Nat.add_comm 1, Nat.pow_succ, Nat.zero_add, Nat.zero_add,
        Nat.mul_comm _ 2, Nat.mul_assoc]
    · rw [if_neg hlast]
      have hsplit := Nat.div_add_mod slot half
      have hrest : slot % half < half := Nat.mod_lt _ hhalf
      have hk : 2 ≤ slot / half := (Nat.le_div_iff_mul_le hhalf).mpr (by omega)
      generalize slot / half = k at hsplit hk
      generalize slot % half = rest at hsplit hrest
      by_cases hend : rest + 1 < half
      · have hslot : slot + 1 = rest + 1 + half * k := by omega
        rw [hslot, Nat.add_mul_div_left _ _ hhalf, Nat.add_mul_mod_self_left, Nat.div_eq_of_lt hend,
          Nat.mod_eq_of_lt hend, Nat.zero_add]
        show (rest + 1 + half) * 2 ^ (k - 1 + l.unitBits) = _
        rw [Nat.add_right_comm]
        exact hnext (rest + half) (k - 1)
      · -- the last slot before the width doubles
        have hslot : slot + 1 = half * (k + 1) := by
          rw [Nat.mul_add, Nat.mul_one]
          omega
        rw [hslot, Nat.mul_div_cancel_left _ hhalf, Nat.mul_mod_right]
        show (0 + half) * 2 ^ (k + 1 - 1 + l.unitBits) =
          (rest + half) * 2 ^ (k - 1 + l.unitBits) + 2 ^ (k - 1 + l.unitBits)
        rw [← hnext, show rest + half + 1 = half * 2 by omega,
          show k + 1 - 1 + l.unitBits = k - 1 + l.unitBits + 1 by omega, Nat.pow_succ, Nat.zero_add,
          Nat.mul_assoc, Nat.mul_comm 2]

theorem lowestOf_mono (hb : 1 ≤ l.subBits) {slot slot' : Nat} (h : slot ≤ slot') :
    l.lowestOf slot ≤ l.lowestOf slot' := by
  induction h with
  | refl => exact Nat.le_refl _
  | step h ih =>
    rw [lowestOf_succ hb]
    exact Nat.le_add_right_of_le ih

/-- A slot ends where the next one begins. -/
theorem highestOf_eq (hb : 1 ≤ l.subBits) (slot : Nat) :
    l.highestOf slot = saturate (l.lowestOf (slot + 1)) - 1 := by
  rw [lowestOf_succ hb]
  rfl

theorem highestOf_mono (hb : 1 ≤ l.subBits) {slot slot' : Nat} (h : slot ≤ slot') :
    l.highestOf slot ≤ l.highestOf slot' := by
  have hlow := lowestOf_mono hb (Nat.add_le_add_right h 1)
  rw [highestOf_eq hb, highestOf_eq hb]
  unfold saturate
  omega

/-- The slot of a word ends in a word. -/
theorem lowestOf_le_highestOf (hb : 1 ≤ l.subBits) (hbits : l.subBits + l.unitBits ≤ 63)
    (hv : v ≤ wordMax) : l.lowestOf (l.slotOf v) ≤ l.highestOf (l.slotOf v) := by
  have hle := lowestOf_slotOf_le hb v
  have hpos := l.widthAt_pos v
  -- the largest word is odd, and where it is counted the width has doubled
  have hlow : l.lowestOf (l.slotOf v) ≠ wordMax := by
    intro heq
    obtain rfl : v = wordMax := by omega
    have hwide : l.doublingsAt wordMax + l.unitBits =
        l.doublingsAt wordMax + l.unitBits - 1 + 1 := by
      have : wordMax.log2 = 63 := by decide
      unfold doublingsAt
      omega
    rw [lowestOf_slotOf hb] at heq
    unfold widthAt at heq
    rw [hwide, Nat.pow_succ, ← Nat.mul_assoc] at heq
    have hodd : wordMax % 2 = 1 := by decide
    omega
  rw [highestOf_slotOf hb]
  unfold saturate
  omega

/-! ## The reach of a layout -/

theorem le_two_pow_bitsFor {n : Nat} (hn : 1 ≤ n) : n ≤ 2 ^ bitsFor n := by
  have : n - 1 < 2 ^ bitsFor n := Nat.lt_log2_self
  omega

/-- The doublings cover the highest value. -/
theorem high_lt_of_doublings (high fuel e : Nat) (hhigh : high ≤ wordMax) (hfuel : 64 ≤ e + fuel) :
    1 ≤ doublings high fuel (2 ^ e) ∧ high < 2 ^ (e + doublings high fuel (2 ^ e) - 1) := by
  have hword : high < 2 ^ 64 := Nat.lt_of_le_of_lt hhigh (by decide)
  induction fuel generalizing e with
  | zero =>
    refine ⟨Nat.le_refl 1, Nat.lt_of_lt_of_le hword (Nat.pow_le_pow_right (by decide) ?_)⟩
    show 64 ≤ e + 1 - 1
    omega
  | succ fuel ih =>
    unfold doublings
    split
    · split
      · rename_i hlimit
        refine ⟨by decide, Nat.lt_of_lt_of_le hword (Nat.pow_le_pow_right (by decide) ?_)⟩
        have he : 63 ≤ e := by
          refine Nat.le_of_not_lt fun hlt => ?_
          have h62 : 2 ^ e ≤ 2 ^ 62 := Nat.pow_le_pow_right (by decide) (by omega)
          have : wordMax / 2 = 2 ^ 63 - 1 := by decide
          omega
        omega
      · obtain ⟨hpos, hlt⟩ := ih (e + 1) (by omega)
        rw [Nat.pow_succ'] at hpos hlt
        refine ⟨by omega, ?_⟩
        rwa [show e + (1 + doublings high fuel (2 * 2 ^ e)) - 1 =
          e + 1 + doublings high fuel (2 * 2 ^ e) - 1 by omega]
    · rename_i hlimit
      refine ⟨Nat.le_refl 1, ?_⟩
      rw [Nat.add_sub_cancel]
      omega

theorem one_le_doublings (high fuel limit : Nat) : 1 ≤ doublings high fuel limit := by
  cases fuel with
  | zero => exact Nat.le_refl 1
  | succ fuel =>
    unfold doublings
    split
    · split
      · decide
      · exact Nat.le_add_right 1 _
    · exact Nat.le_refl 1

/-- How many doublings the slots of a layout have. -/
def depth (l : Layout) : Nat := doublings l.high 64 (2 ^ (l.subBits + l.unitBits))

/-- The first value past the slots of a layout. -/
def reach (l : Layout) : Nat := 2 ^ (l.subBits + l.unitBits + l.depth - 1)

/-- What `Layout.of` builds. -/
theorem of_ok {low high digits : Nat} (h : Layout.of low high digits = .ok l) :
    low ≤ wordMax / 2 ∧ digits ≤ 5 ∧ l.high = high ∧ l.unitBits = wholeLog2 low ∧
      l.subBits = bitsFor (2 * 10 ^ digits) ∧ l.unitBits + l.subBits ≤ 63 ∧
      l.slots = (l.depth + 1) * 2 ^ (l.subBits - 1) := by
  unfold Layout.of at h
  split at h
  · cases h
  rename_i hlow
  split at h
  · cases h
  rename_i hdigits
  simp only at h
  split at h
  · cases h
  rename_i hbits
  obtain rfl := Except.ok.inj h
  simp only [depth]
  exact ⟨Nat.le_of_not_lt hlow, Nat.le_of_not_lt hdigits, trivial, trivial, trivial,
    Nat.le_of_not_lt hbits, trivial⟩

/-- A value has a slot of the layout unless it is past its reach. -/
theorem slotOf_lt_slots_iff (hb : 1 ≤ l.subBits) (hdepth : 1 ≤ l.depth)
    (hslots : l.slots = (l.depth + 1) * 2 ^ (l.subBits - 1)) :
    l.slotOf v < l.slots ↔ v < l.reach := by
  have hhalf : 0 < 2 ^ (l.subBits - 1) := Nat.two_pow_pos _
  have hlog : l.doublingsAt v = v.log2 + 1 - (l.subBits + l.unitBits) := rfl
  rw [hslots, slotOf_eq]
  unfold reach
  constructor
  · intro hslot
    refine Nat.lt_of_not_le fun hv => ?_
    have hv0 : v ≠ 0 := Nat.ne_of_gt (Nat.lt_of_lt_of_le (Nat.two_pow_pos _) hv)
    have hdeep := (Nat.le_log2 hv0).mpr hv
    have hk : l.doublingsAt v ≠ 0 := by omega
    have hge : 2 ^ (l.subBits - 1) ≤ v / l.widthAt v :=
      (Nat.le_div_iff_mul_le (l.widthAt_pos v)).mpr (two_pow_le_of_doublingsAt hb hk)
    have hmul : l.depth * 2 ^ (l.subBits - 1) ≤ l.doublingsAt v * 2 ^ (l.subBits - 1) :=
      Nat.mul_le_mul_right _ (by omega)
    rw [Nat.add_mul, Nat.one_mul] at hslot
    omega
  · intro hv
    have hlt : v / l.widthAt v < 2 ^ l.subBits :=
      (Nat.div_lt_iff_lt_mul (l.widthAt_pos v)).mpr (l.lt_two_pow_doublingsAt v)
    rw [two_pow_subBits hb] at hlt
    have hk : l.doublingsAt v + 1 ≤ l.depth := by
      by_cases hv0 : v = 0
      · rw [hlog, hv0, Nat.log2_zero]
        omega
      · have := (Nat.log2_lt hv0).mpr hv
        omega
    have hmul : (l.doublingsAt v + 1) * 2 ^ (l.subBits - 1) ≤ l.depth * 2 ^ (l.subBits - 1) :=
      Nat.mul_le_mul_right _ hk
    rw [Nat.add_mul, Nat.one_mul] at hmul ⊢
    omega

/-- The narrowest slots are within reach. -/
theorem narrow_le_reach (l : Layout) : 2 ^ (l.subBits + l.unitBits) ≤ l.reach := by
  have hdepth : 1 ≤ l.depth := one_le_doublings _ _ _
  unfold reach
  exact Nat.pow_le_pow_right (by decide) (by omega)

/-! ## Layouts that are built -/

/-- A layout as it is built for `digits` digits of the values from `low` to `top`. -/
structure Built (low top digits : Nat) (l : Layout) : Prop where
  low_pos : low ≠ 0
  high : l.high = top
  unit : l.unitBits = wholeLog2 low
  log2_le : low.log2 ≤ l.unitBits
  bits : l.subBits + l.unitBits ≤ 63
  sub_pos : 1 ≤ l.subBits
  digits_le : 2 * 10 ^ digits ≤ 2 ^ l.subBits
  slots : ∀ v, l.slotOf v < l.slots ↔ v < l.reach
  high_lt : l.high < l.reach

theorem built_of_ok {low high digits : Nat} (hlow : low ≠ 0) (hhigh : high ≤ wordMax)
    (h : Layout.of low high digits = .ok l) : l.Built low high digits := by
  obtain ⟨hmax, -, rfl, hunit, hsub, hbits, hslots⟩ := of_ok h
  have hten : 0 < 10 ^ digits := Nat.pow_pos (by decide)
  have hpos : 1 ≤ l.subBits := by
    rw [hsub]
    exact Nat.succ_le_succ (Nat.zero_le _)
  obtain ⟨hdepth, hlt⟩ := high_lt_of_doublings l.high 64 (l.subBits + l.unitBits) hhigh
    (Nat.le_add_left _ _)
  exact {
    low_pos := hlow
    high := rfl
    unit := hunit
    log2_le := hunit ▸ log2_le_wholeLog2 hlow (by omega)
    bits := Nat.add_comm _ _ ▸ hbits
    sub_pos := hpos
    digits_le := hsub ▸ le_two_pow_bitsFor (by omega)
    slots := fun _ => slotOf_lt_slots_iff hpos hdepth hslots
    high_lt := hlt }

namespace Built

variable {low top digits : Nat}

/-- Twice the least value of a layout is a word. -/
theorem two_mul_low_le (h : l.Built low top digits) : 2 * low ≤ wordMax := by
  have hlog : low.log2 + 1 ≤ 63 := by
    have hunit := h.log2_le
    have hbits := h.bits
    have hsub := h.sub_pos
    omega
  have hlow : low < 2 ^ 63 :=
    Nat.lt_of_lt_of_le Nat.lt_log2_self (Nat.pow_le_pow_right (by decide) hlog)
  have hword : wordMax = 2 ^ 64 - 1 := rfl
  omega

/-- Where the least value is rounded up to a power of two, the narrowest slots are wider than
one. -/
theorem log2_lt_unitBits (h : l.Built low top digits) (hlog : wholeLog2 low ≠ low.log2) :
    low.log2 < l.unitBits ∧ low.log2 ≠ 0 := by
  refine ⟨Nat.lt_of_le_of_ne h.log2_le fun heq => hlog (h.unit ▸ heq.symm), fun h0 => ?_⟩
  have hone : low = 1 := by
    have hpos := h.low_pos
    have hlt : low < 2 ^ (low.log2 + 1) := Nat.lt_log2_self
    rw [h0] at hlt
    omega
  rw [hone] at hlog
  exact hlog (by decide +kernel)

/-- With one digit or more, up to twice the least value the widths do not double within reach. -/
theorem reach_eq (h : l.Built low (2 * low) digits) (hdigits : 1 ≤ digits) :
    l.reach = 2 ^ (l.subBits + l.unitBits) := by
  have hten : 10 ≤ 10 ^ digits := Nat.le_pow hdigits
  have hsub : 4 < l.subBits := by
    refine (Nat.pow_lt_pow_iff_right (by decide : 1 < 2)).mp (Nat.lt_of_lt_of_le ?_ h.digits_le)
    omega
  have hlow : low < 2 ^ (low.log2 + 1) := Nat.lt_log2_self
  have hlimit : ¬ 2 ^ (l.subBits + l.unitBits) ≤ l.high := by
    have hunit := h.log2_le
    have hpow : 2 ^ (low.log2 + 1 + 1) ≤ 2 ^ (l.subBits + l.unitBits) :=
      Nat.pow_le_pow_right (by decide) (by omega)
    rw [Nat.pow_succ] at hpow
    rw [h.high]
    omega
  unfold reach depth
  rw [show doublings l.high 64 (2 ^ (l.subBits + l.unitBits)) = 1 from if_neg hlimit,
    Nat.add_sub_cancel]

end Built

end Layout

end Telemetry
