/-!
# Results that may be errors

A result is there, or it is not (`exists_of_isOk`). What a result that is there was made of: the
result a function was applied to (`ok_of_map_ok`), and the results of the elements of a list
(`mem_of_mapM`, `mapM_mem`), in whatever words their errors are told (`mapM_mapError_ok`). Of a list
put together from two, the first error is that of the first part, if it has one (`mapM_append_ok`,
`mapM_append_eq_error`).
-/

namespace Telemetry

section

variable {α β ε : Type} {f : α → Except ε β} {xs xs' : List α} {ys ys' : List β} {e : ε}

theorem exists_of_isOk {x : Except ε α} (h : x.isOk = true) : ∃ a, x = .ok a := by
  cases x with
  | error e => cases h
  | ok a => exact ⟨a, rfl⟩

theorem ok_of_map_ok {f : α → β} {x : Except ε α} {y : β} (h : x.map f = .ok y) :
    ∃ a, x = .ok a ∧ f a = y := by
  cases x with
  | error e => cases h
  | ok a => exact ⟨a, rfl, Except.ok.inj h⟩

theorem map_eq_error {f : α → β} {x : Except ε α} : x.map f = .error e ↔ x = .error e := by
  cases x with
  | error e' => exact ⟨fun h => congrArg Except.error (Except.error.inj h),
      fun h => congrArg Except.error (Except.error.inj h)⟩
  | ok a => exact ⟨nofun, nofun⟩

theorem bind_eq_ok {x : Except ε α} {y : β} : (x >>= f) = .ok y ↔ ∃ a, x = .ok a ∧ f a = .ok y := by
  cases x with
  | error e => exact ⟨nofun, fun ⟨_, h, _⟩ => nomatch h⟩
  | ok a => exact ⟨fun h => ⟨a, rfl, h⟩, fun ⟨_, h, hy⟩ => Except.ok.inj h ▸ hy⟩

theorem bind_eq_error {x : Except ε α} :
    (x >>= f) = .error e ↔ x = .error e ∨ ∃ a, x = .ok a ∧ f a = .error e := by
  cases x with
  | error e' => exact ⟨fun h => .inl (Except.error.inj h ▸ rfl), fun
    | .inl h => Except.error.inj h ▸ rfl
    | .inr ⟨_, h, _⟩ => nomatch h⟩
  | ok a => exact ⟨fun h => .inr ⟨a, rfl, h⟩, fun
    | .inl h => nomatch h
    | .inr ⟨_, h, he⟩ => Except.ok.inj h ▸ he⟩

theorem mapM_cons_ok {x : α} : (x :: xs).mapM f = .ok ys ↔
    ∃ y ys', f x = .ok y ∧ xs.mapM f = .ok ys' ∧ ys = y :: ys' := by
  rw [List.mapM_cons]
  constructor
  · intro h
    cases hx : f x with
    | error e => rw [hx] at h; cases h
    | ok y =>
      cases hxs : xs.mapM f with
      | error e => rw [hx, hxs] at h; cases h
      | ok ys' =>
        rw [hx, hxs] at h
        exact ⟨y, ys', rfl, rfl, (Except.ok.inj h).symm⟩
  · rintro ⟨y, ys', hy, hys, rfl⟩
    rw [hy, hys]
    rfl

theorem mem_of_mapM (h : xs.mapM f = .ok ys) {y : β} (hy : y ∈ ys) : ∃ x ∈ xs, f x = .ok y := by
  induction xs generalizing ys with
  | nil =>
    cases h
    exact absurd hy List.not_mem_nil
  | cons x xs ih =>
    obtain ⟨y', ys', hx, hxs, rfl⟩ := mapM_cons_ok.mp h
    obtain rfl | hy := List.mem_cons.mp hy
    · exact ⟨x, List.mem_cons_self, hx⟩
    · obtain ⟨x', hx', hy'⟩ := ih hxs hy
      exact ⟨x', List.mem_cons_of_mem x hx', hy'⟩

theorem mapM_mem (h : xs.mapM f = .ok ys) {x : α} (hx : x ∈ xs) : ∃ y ∈ ys, f x = .ok y := by
  induction xs generalizing ys with
  | nil => exact absurd hx List.not_mem_nil
  | cons x' xs ih =>
    obtain ⟨y, ys', hy, hxs, rfl⟩ := mapM_cons_ok.mp h
    obtain rfl | hx := List.mem_cons.mp hx
    · exact ⟨y, List.mem_cons_self, hy⟩
    · obtain ⟨y', hmem, hy'⟩ := ih hxs hx
      exact ⟨y', List.mem_cons_of_mem y hmem, hy'⟩

theorem mapM_ok {g : α → β} (h : ∀ x ∈ xs, f x = .ok (g x)) : xs.mapM f = .ok (xs.map g) := by
  induction xs with
  | nil => rfl
  | cons x xs ih =>
    exact mapM_cons_ok.mpr ⟨g x, xs.map g, h x List.mem_cons_self,
      ih fun y hy => h y (List.mem_cons_of_mem x hy), rfl⟩

/-- Errors told in other words leave the results as they are. -/
theorem mapM_mapError_ok {ε' : Type} {g : α → ε → ε'} :
    (xs.mapM fun x => (f x).mapError (g x)) = .ok ys ↔ xs.mapM f = .ok ys := by
  induction xs generalizing ys with
  | nil => exact ⟨fun h => by cases h; rfl, fun h => by cases h; rfl⟩
  | cons x xs ih =>
    have hx : ∀ y, (f x).mapError (g x) = .ok y ↔ f x = .ok y := fun y => by
      cases f x with
      | error e => exact ⟨nofun, nofun⟩
      | ok y' => exact ⟨fun h => by cases h; rfl, fun h => by cases h; rfl⟩
    rw [mapM_cons_ok, mapM_cons_ok]
    simp only [hx, ih]

/-! ## Lists in two parts -/

theorem mapM_append_ok : (xs ++ xs').mapM f = .ok ys ↔
    ∃ zs zs', xs.mapM f = .ok zs ∧ xs'.mapM f = .ok zs' ∧ ys = zs ++ zs' := by
  rw [List.mapM_append]
  constructor
  · intro h
    cases hxs : xs.mapM f with
    | error e => rw [hxs] at h; cases h
    | ok zs =>
      cases hxs' : xs'.mapM f with
      | error e => rw [hxs, hxs'] at h; cases h
      | ok zs' =>
        rw [hxs, hxs'] at h
        exact ⟨zs, zs', rfl, rfl, (Except.ok.inj h).symm⟩
  · rintro ⟨zs, zs', h, h', rfl⟩
    rw [h, h']
    rfl

/-- The first error is that of the first part, if that has one. -/
theorem mapM_append_eq_error : (xs ++ xs').mapM f = .error e ↔
    xs.mapM f = .error e ∨ (∃ ys, xs.mapM f = .ok ys) ∧ xs'.mapM f = .error e := by
  rw [List.mapM_append]
  cases xs.mapM f with
  | error e' =>
    refine ⟨.inl, ?_⟩
    rintro (h | ⟨⟨ys, h⟩, -⟩)
    · exact h
    · cases h
  | ok ys =>
    refine ⟨fun h => .inr ⟨⟨ys, rfl⟩, ?_⟩, ?_⟩
    · cases hxs' : xs'.mapM f with
      | error e' =>
        rw [hxs'] at h
        exact h
      | ok ys' => rw [hxs'] at h; cases h
    · rintro (h | ⟨-, h⟩)
      · cases h
      · rw [h]
        rfl

end

end Telemetry
