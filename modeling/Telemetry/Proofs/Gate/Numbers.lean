import Telemetry.Gate.Basic
import Telemetry.Proofs.SortedMap

/-!
# Gates are handed out once

A `VisibilityGate` that was made step by step is `Numbered`: every gate has a place among the
counts, and no two scopes share one (specification, 4.1). So the gate of a scope, made on first use,
is the same gate each time it is asked for (`gate?_scopeGate`, `gate?_of_scopeGate`), and two gates
of an issuer are one just when they are of one scope (`Numbered.same_iff`).

Opening a grant and closing it again leaves no trace, whatever the numbers are
(`release_openGrant`).
-/

namespace Telemetry

theorem ScopeGate.same_iff {gate other : ScopeGate} :
    gate.same other = true ↔ gate.issuer = other.issuer ∧ gate.number = other.number := by
  unfold same
  rw [Bool.and_eq_true, beq_iff_eq, beq_iff_eq]

namespace VisibilityGate

variable {v : VisibilityGate} {gate gate' : ScopeGate} {scope scope' : String}

/-- A gate on record knows its issuer, its scope and its number. -/
theorem gate?_eq_some_iff : v.gate? scope = some gate ↔
    gate.issuer = v.issuer ∧ gate.scope = scope ∧ v.numbers.get? scope = some gate.number := by
  unfold gate?
  rw [Option.map_eq_some_iff]
  constructor
  · rintro ⟨n, hn, rfl⟩
    exact ⟨rfl, rfl, hn⟩
  · obtain ⟨issuer, number, s⟩ := gate
    rintro ⟨rfl, rfl, hn⟩
    exact ⟨number, hn, rfl⟩

/-! ## Get or create -/

theorem scopeGate_of_some (h : v.gate? scope = some gate) : v.scopeGate scope = (gate, v) := by
  unfold scopeGate
  rw [h]

theorem scopeGate_of_none (h : v.gate? scope = none) : v.scopeGate scope =
    (⟨v.issuer, v.outstanding.length, scope⟩,
      { v with numbers := v.numbers.insert scope v.outstanding.length,
               outstanding := v.outstanding ++ [0] }) := by
  unfold scopeGate
  rw [h]

theorem issuer_scopeGate (v : VisibilityGate) (scope : String) :
    (v.scopeGate scope).2.issuer = v.issuer := by
  cases h : v.gate? scope with
  | some gate => rw [scopeGate_of_some h]
  | none => rw [scopeGate_of_none h]

/-- **The gate that is handed out** is on record from then on, -/
theorem gate?_scopeGate (v : VisibilityGate) (scope : String) :
    (v.scopeGate scope).2.gate? scope = some (v.scopeGate scope).1 := by
  cases h : v.gate? scope with
  | some gate => rwa [scopeGate_of_some h]
  | none =>
    rw [scopeGate_of_none h]
    exact gate?_eq_some_iff.mpr ⟨rfl, rfl, (SortedMap.get?_insert ..).trans (if_pos rfl)⟩

/-- and that of another scope stays as it was. -/
theorem gate?_scopeGate_of_ne (hne : scope' ≠ scope) :
    (v.scopeGate scope).2.gate? scope' = v.gate? scope' := by
  cases h : v.gate? scope with
  | some gate => rw [scopeGate_of_some h]
  | none =>
    rw [scopeGate_of_none h]
    unfold gate?
    simp only [SortedMap.get?_insert, if_neg hne]

/-- **A gate is made once**: no other one takes its place. -/
theorem gate?_of_scopeGate (h : v.gate? scope' = some gate) :
    (v.scopeGate scope).2.gate? scope' = some gate := by
  by_cases hs : scope' = scope
  · subst hs
    rwa [scopeGate_of_some h]
  · rwa [gate?_scopeGate_of_ne hs]

theorem scope_scopeGate (v : VisibilityGate) (scope : String) :
    (v.scopeGate scope).1.scope = scope :=
  (gate?_eq_some_iff.mp (gate?_scopeGate v scope)).2.1

theorem issuer_gate (v : VisibilityGate) (scope : String) :
    (v.scopeGate scope).1.issuer = v.issuer :=
  (gate?_eq_some_iff.mp (gate?_scopeGate v scope)).1.trans (issuer_scopeGate v scope)

/-- Asked for twice, it is the same gate. -/
theorem scopeGate_scopeGate (v : VisibilityGate) (scope : String) :
    (v.scopeGate scope).2.scopeGate scope = v.scopeGate scope :=
  scopeGate_of_some (gate?_scopeGate v scope)

/-! ## Numbers -/

/-- Gates have numbers of their own, which tell where they are counted. -/
structure Numbered (v : VisibilityGate) : Prop where
  lt : ∀ scope gate, v.gate? scope = some gate → gate.number < v.outstanding.length
  inj : ∀ scope scope' gate gate', v.gate? scope = some gate → v.gate? scope' = some gate' →
    gate.number = gate'.number → scope = scope'

theorem numbered_new (issuer : Nat) : (new issuer).Numbered :=
  ⟨fun _ _ h => (nomatch h), fun _ _ _ _ h => (nomatch h)⟩

/-- What is on record decides, whatever the counts say. -/
theorem Numbered.of_outstanding (h : v.Numbered) {outstanding : List Nat}
    (hlength : outstanding.length = v.outstanding.length) : Numbered { v with outstanding } :=
  ⟨fun scope gate hgate => Nat.lt_of_lt_of_eq (h.lt scope gate hgate) hlength.symm, h.inj⟩

theorem Numbered.openGrant (h : v.Numbered) (gate : ScopeGate) : (v.openGrant gate).2.Numbered :=
  h.of_outstanding (List.length_modify ..)

theorem Numbered.release (h : v.Numbered) (grant : WriteGrant) : (v.release grant).Numbered :=
  h.of_outstanding (List.length_modify ..)

/-- A new gate has a number that no other one has. -/
theorem Numbered.scopeGate (h : v.Numbered) (scope : String) : (v.scopeGate scope).2.Numbered := by
  cases hscope : v.gate? scope with
  | some gate => rwa [scopeGate_of_some hscope]
  | none =>
    -- a gate on record afterwards is the new one or one of those before
    have hcases : ∀ s gate, (v.scopeGate scope).2.gate? s = some gate →
        s = scope ∧ gate.number = v.outstanding.length ∨ s ≠ scope ∧ v.gate? s = some gate := by
      intro s gate hgate
      by_cases hs : s = scope
      · subst hs
        rw [gate?_scopeGate, scopeGate_of_none hscope] at hgate
        cases hgate
        exact .inl ⟨rfl, rfl⟩
      · rw [gate?_scopeGate_of_ne hs] at hgate
        exact .inr ⟨hs, hgate⟩
    have hlength : (v.scopeGate scope).2.outstanding.length = v.outstanding.length + 1 := by
      rw [scopeGate_of_none hscope]
      exact List.length_append
    constructor
    · intro s gate hgate
      rw [hlength]
      obtain ⟨-, hn⟩ | ⟨-, hgate⟩ := hcases s gate hgate
      · exact hn ▸ Nat.lt_succ_self _
      · exact Nat.lt_succ_of_lt (h.lt s gate hgate)
    · intro s s' gate gate' hgate hgate' hn
      obtain ⟨hs, hnew⟩ | ⟨-, hold⟩ := hcases s gate hgate <;>
        obtain ⟨hs', hnew'⟩ | ⟨-, hold'⟩ := hcases s' gate' hgate'
      · exact hs.trans hs'.symm
      · exact absurd (hn.symm.trans hnew) (Nat.ne_of_lt (h.lt s' gate' hold'))
      · exact absurd (hn.trans hnew') (Nat.ne_of_lt (h.lt s gate hold))
      · exact h.inj s s' gate gate' hold hold' hn

/-- **Gates of an issuer are one** just when they are of one scope. -/
theorem Numbered.same_iff (h : v.Numbered) (hgate : v.gate? scope = some gate)
    (hgate' : v.gate? scope' = some gate') : gate.same gate' = true ↔ scope = scope' := by
  rw [ScopeGate.same_iff]
  constructor
  · exact fun hsame => h.inj scope scope' gate gate' hgate hgate' hsame.2
  · rintro rfl
    cases hgate.symm.trans hgate'
    exact ⟨rfl, rfl⟩

/-! ## Grants -/

/-- **A grant that is closed again leaves no trace.** -/
theorem release_openGrant (v : VisibilityGate) (gate : ScopeGate) :
    (v.openGrant gate).2.release ⟨gate⟩ = v := by
  have hsame : (v.outstanding.modify gate.number (· + 1)).modify gate.number (· - 1) =
      v.outstanding := by
    refine List.ext_getElem? fun n => ?_
    simp only [List.getElem?_modify]
    cases v.outstanding[n]? with
    | none => rfl
    | some count => by_cases hn : gate.number = n <;> simp [hn]
  obtain ⟨issuer, numbers, outstanding⟩ := v
  exact congrArg (VisibilityGate.mk issuer numbers) hsame

end VisibilityGate

end Telemetry
