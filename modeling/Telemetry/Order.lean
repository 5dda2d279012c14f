
/-!
# Orders by a key

An order by a key (`compareOn f`) is lawful when the key tells elements apart, and so is the order
by one key and then by another when the two together do.
-/

namespace Telemetry

variable {α β γ : Type}

/-- Equal keys mean equal elements, so only equal elements compare equal. -/
theorem lawfulEqCmp_compareOn [Ord β] [Std.LawfulEqOrd β] {f : α → β}
    (h : ∀ a b, f a = f b → a = b) : Std.LawfulEqCmp (compareOn f) where
  compare_self := Std.ReflOrd.compare_self (α := β)
  eq_of_compare {a b} hab :=
    h a b (Std.LawfulEqOrd.eq_of_compare (α := β) (a := f a) (b := f b) hab)

theorem lawfulEqCmp_compareLex [Ord β] [Std.LawfulEqOrd β] [Ord γ] [Std.LawfulEqOrd γ] {f : α → β}
    {g : α → γ} (h : ∀ a b, f a = f b → g a = g b → a = b) :
    Std.LawfulEqCmp (compareLex (compareOn f) (compareOn g)) where
  compare_self {a} := by
    simp only [compareLex, compareOn, Ordering.then_eq_eq]
    exact ⟨Std.ReflOrd.compare_self, Std.ReflOrd.compare_self⟩
  eq_of_compare {a b} hab := by
    simp only [compareLex, compareOn, Ordering.then_eq_eq] at hab
    exact h a b (Std.LawfulEqOrd.eq_of_compare hab.1) (Std.LawfulEqOrd.eq_of_compare hab.2)

end Telemetry
