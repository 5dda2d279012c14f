import Mathlib.Data.List.Forall2
import Telemetry.Proofs.Store

/-!
# Numbers of two directories, paired

Registries, meters, cells and adapters are numbered in the order in which all scopes together made
them, so two runs that do the same in one scope number its things differently. A `Pairing` says
which number of the one run stands for which of the other, one to one. It grows as things are made:
`Pairing.next` pairs the next numbers of both runs.

Maps and optional values correspond when their keys are the same and their values correspond
(`SortedMap.Match`, `Both`, `Option.Rel`).
-/

namespace Telemetry

/-- What is known by number. -/
inductive Numbered where
  | registry
  | meter
  | cell
  | adapter
deriving DecidableEq

/-- Numbers of one directory and those of another that stand for them. -/
structure Pairing where
  rel : Numbered → Nat → Nat → Prop
  unique : ∀ k, Relator.BiUnique (rel k)

namespace Pairing

variable {ρ ρ' ρ'' : Pairing} {k : Numbered} {m m' n n' : Nat} {b b' c c' : Numbered → Nat}

/-- No numbers are paired. -/
def empty : Pairing where
  rel _ _ _ := False
  unique _ := ⟨fun _ _ _ h => h.elim, fun _ _ _ h => h.elim⟩

instance : LE Pairing := ⟨fun ρ ρ' => ∀ k m n, ρ.rel k m n → ρ'.rel k m n⟩

/-- More is paired, but no more cells. -/
structure Extends (ρ ρ' : Pairing) : Prop where
  le : ρ ≤ ρ'
  cells : ∀ m n, ρ'.rel .cell m n → ρ.rel .cell m n

theorem Extends.refl (ρ : Pairing) : Extends ρ ρ := ⟨fun _ _ _ h => h, fun _ _ h => h⟩

theorem Extends.trans (h : Extends ρ ρ') (h' : Extends ρ' ρ'') : Extends ρ ρ'' :=
  ⟨fun k m n hr => h'.le k m n (h.le k m n hr), fun m n hr => h.cells m n (h'.cells m n hr)⟩

theorem eq_iff (h : ρ.rel k m n) (h' : ρ.rel k m' n') : m = m' ↔ n = n' :=
  Relator.rel_eq (ρ.unique k) h h'

/-- The paired numbers are below bounds on either side. -/
def Below (ρ : Pairing) (b b' : Numbered → Nat) : Prop :=
  ∀ k m n, ρ.rel k m n → m < b k ∧ n < b' k

/-- The bounds themselves are paired too, for what satisfies `p`. -/
def next (ρ : Pairing) (p : Numbered → Prop) (h : ρ.Below b b') : Pairing where
  rel k m n := ρ.rel k m n ∨ p k ∧ m = b k ∧ n = b' k
  unique k := by
    constructor
    · rintro m m' n (hm | ⟨-, rfl, rfl⟩) (hm' | ⟨-, rfl, hn⟩)
      · exact (ρ.unique k).1 hm hm'
      · exact absurd hn (Nat.ne_of_lt (h k m n hm).2)
      · exact absurd rfl (Nat.ne_of_lt (h k m' _ hm').2)
      · rfl
    · rintro m n n' (hn | ⟨-, rfl, rfl⟩) (hn' | ⟨-, hm, rfl⟩)
      · exact (ρ.unique k).2 hn hn'
      · exact absurd hm (Nat.ne_of_lt (h k m n hn).1)
      · exact absurd rfl (Nat.ne_of_lt (h k _ n' hn').1)
      · rfl

variable {p : Numbered → Prop}

theorem le_next (h : ρ.Below b b') : ρ ≤ ρ.next p h := fun _ _ _ hr => .inl hr

theorem extends_next (h : ρ.Below b b') (hp : ¬ p .cell) : Extends ρ (ρ.next p h) :=
  ⟨le_next h, fun _ _ hr => hr.resolve_right fun hk => hp hk.1⟩

theorem rel_next (h : ρ.Below b b') (hk : p k) : (ρ.next p h).rel k (b k) (b' k) :=
  .inr ⟨hk, rfl, rfl⟩

theorem rel_of_next {h : ρ.Below b b'} (hk : ¬ p k) (hr : (ρ.next p h).rel k m n) : ρ.rel k m n :=
  hr.resolve_right fun hr => hk hr.1

theorem Below.mono (h : ρ.Below b b') (hc : ∀ k, b k ≤ c k) (hc' : ∀ k, b' k ≤ c' k) :
    ρ.Below c c' := fun k m n hr =>
  ⟨Nat.lt_of_lt_of_le (h k m n hr).1 (hc k), Nat.lt_of_lt_of_le (h k m n hr).2 (hc' k)⟩

theorem Below.next (h : ρ.Below b b') (hc : ∀ k, b k ≤ c k) (hc' : ∀ k, b' k ≤ c' k)
    (hp : ∀ k, p k → b k < c k ∧ b' k < c' k) : (ρ.next p h).Below c c' := by
  rintro k m n (hr | ⟨hk, rfl, rfl⟩)
  · exact h.mono hc hc' k m n hr
  · exact hp k hk

end Pairing

/-! ## Values on both sides -/

section

variable {α β γ δ : Type} {R : α → β → Prop} {S : γ → δ → Prop}

/-- There is a value on both sides, and they correspond. -/
def Both (R : α → β → Prop) (o : Option α) (o' : Option β) : Prop :=
  ∃ a b, o = some a ∧ o' = some b ∧ R a b

theorem Both.imp {R' : α → β → Prop} {o : Option α} {o' : Option β} (h : Both R o o')
    (hR : ∀ a b, R a b → R' a b) : Both R' o o' := by
  obtain ⟨a, b, ha, hb, hab⟩ := h
  exact ⟨a, b, ha, hb, hR a b hab⟩

/-- Changing the values of both sides where `p` and `q` say so. -/
theorem Both.modify {R' : α → β → Prop} {o : Option α} {o' : Option β} {p q : Prop} [Decidable p]
    [Decidable q] {f : α → α} {f' : β → β} (h : Both R o o') (hpq : p ↔ q)
    (hf : ∀ a b, R a b → R' (f a) (f' b)) (hR : ∀ a b, R a b → R' a b) :
    Both R' (if p then o.map f else o) (if q then o'.map f' else o') := by
  obtain ⟨a, b, rfl, rfl, hab⟩ := h
  by_cases hp : p
  · rw [if_pos hp, if_pos (hpq.mp hp)]
    exact ⟨f a, f' b, rfl, rfl, hf a b hab⟩
  · rw [if_neg hp, if_neg fun hq => hp (hpq.mpr hq)]
    exact ⟨a, b, rfl, rfl, hR a b hab⟩

/-- Optional values that correspond are both absent or both there. -/
theorem both_of_rel {o : Option α} {o' : Option β} (h : Option.Rel R o o') :
    o = none ∧ o' = none ∨ Both R o o' := by
  cases h with
  | none => exact .inl ⟨rfl, rfl⟩
  | some h => exact .inr ⟨_, _, rfl, rfl, h⟩

theorem rel_imp {R' : α → β → Prop} {o : Option α} {o' : Option β} (h : Option.Rel R o o')
    (hR : ∀ a b, R a b → R' a b) : Option.Rel R' o o' := by
  cases h with
  | none => exact .none
  | some h => exact .some (hR _ _ h)

/-- A value on the left has one on the right that corresponds. -/
theorem exists_of_rel_left {o : Option α} {o' : Option β} (h : Option.Rel R o o') {a : α}
    (ha : o = some a) : ∃ b, o' = some b ∧ R a b := by
  cases h with
  | none => cases ha
  | some h =>
    cases ha
    exact ⟨_, rfl, h⟩

theorem exists_of_rel_right {o : Option α} {o' : Option β} (h : Option.Rel R o o') {b : β}
    (hb : o' = some b) : ∃ a, o = some a ∧ R a b := by
  cases h with
  | none => cases hb
  | some h =>
    cases hb
    exact ⟨_, rfl, h⟩

theorem isSome_of_rel {o : Option α} {o' : Option β} (h : Option.Rel R o o') :
    o.isSome = o'.isSome := by
  cases h <;> rfl

end

/-! ## Lists and maps -/

section

variable {α β γ : Type} {R : α → β → Prop} {xs : List α} {ys : List β}

theorem filter_of_forall₂ (h : List.Forall₂ R xs ys) {p : α → Bool} {q : β → Bool}
    (hpq : ∀ a b, R a b → p a = q b) : List.Forall₂ R (xs.filter p) (ys.filter q) := by
  refine List.rel_filter (fun a b hab => ?_) h
  show p a = true ↔ q b = true
  rw [hpq a b hab]

theorem map_eq_of_forall₂ (h : List.Forall₂ R xs ys) {f : α → γ} {g : β → γ}
    (hfg : ∀ a b, R a b → f a = g b) : xs.map f = ys.map g := by
  induction h with
  | nil => rfl
  | cons hab _ ih => rw [List.map_cons, List.map_cons, hfg _ _ hab, ih]

end

namespace SortedMap

variable {κ α β : Type} [Ord κ] {R S : α → β → Prop} {m : SortedMap κ α} {m' : SortedMap κ β}

/-- The same keys, with values that correspond. -/
def Match (R : α → β → Prop) (m : SortedMap κ α) (m' : SortedMap κ β) : Prop :=
  List.Forall₂ (fun e e' => e.1 = e'.1 ∧ R e.2 e'.2) m.entries m'.entries

namespace Match

theorem empty : Match R (∅ : SortedMap κ α) (∅ : SortedMap κ β) := List.Forall₂.nil

theorem mono (h : Match R m m') (hRS : ∀ a b, R a b → S a b) : Match S m m' :=
  List.Forall₂.imp (fun _ _ he => ⟨he.1, hRS _ _ he.2⟩) h

theorem get? (h : Match R m m') (k : κ) : Option.Rel R (m.get? k) (m'.get? k) := by
  unfold SortedMap.get?
  unfold Match at h
  generalize m.entries = l, m'.entries = l' at h
  induction h with
  | nil => exact .none
  | @cons e e' l l' he _ ih =>
    rw [List.find?_cons, List.find?_cons, he.1]
    split
    · exact .some he.2
    · exact ih

theorem insert [Std.TransOrd κ] (h : Match R m m') (k : κ) {a : α} {b : β} (hab : R a b) :
    Match R (m.insert k a) (m'.insert k b) := by
  show List.Forall₂ _ (insertEntry k a m.entries) (insertEntry k b m'.entries)
  unfold Match at h
  generalize m.entries = l, m'.entries = l' at h
  induction h with
  | nil => exact .cons ⟨rfl, hab⟩ .nil
  | @cons e e' l l' he hrest ih =>
    unfold insertEntry
    rw [he.1]
    split
    · exact .cons ⟨rfl, hab⟩ (.cons he hrest)
    · exact .cons ⟨rfl, hab⟩ hrest
    · exact .cons he ih

theorem filter (h : Match R m m') {p : κ → α → Bool} {q : κ → β → Bool}
    (hpq : ∀ k a b, R a b → p k a = q k b) : Match R (m.filter p) (m'.filter q) :=
  filter_of_forall₂ h fun e e' he => by rw [he.1, hpq _ _ _ he.2]

theorem erase (h : Match R m m') (k : κ) : Match R (m.erase k) (m'.erase k) :=
  h.filter fun _ _ _ _ => rfl

theorem keys (h : Match R m m') : m.keys = m'.keys := map_eq_of_forall₂ h fun _ _ he => he.1

theorem values (h : Match R m m') : List.Forall₂ R m.values m'.values :=
  List.rel_map (fun _ _ he => he.2) h

theorem size (h : Match R m m') : m.size = m'.size := List.Forall₂.length_eq h

theorem isEmpty (h : Match R m m') : m.isEmpty = m'.isEmpty := by
  unfold SortedMap.isEmpty
  unfold Match at h
  generalize m.entries = l, m'.entries = l' at h
  cases h <;> rfl

end Match

end SortedMap

end Telemetry
