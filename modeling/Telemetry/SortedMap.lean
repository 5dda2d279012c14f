/-!
# Maps kept in key order

A `SortedMap κ α` is a list of entries with strictly ascending keys, so a key has one value and two
maps with the same entries are equal however they were built (`ext_get?`). The order is `compare`;
every listing (`keys`, `values`, `entries`) comes out in it.

Reading after a write is `get?_insert`, reading after a removal `get?_erase`.
-/

namespace Telemetry

/-- Entries with strictly ascending keys. -/
structure SortedMap (κ α : Type) [Ord κ] where
  entries : List (κ × α)
  ascending : entries.Pairwise fun a b => compare a.1 b.1 = .lt

namespace SortedMap

variable {κ α β : Type} [Ord κ]

theorem ext {a b : SortedMap κ α} (h : a.entries = b.entries) : a = b := by
  cases a; cases b; cases h; rfl

instance [DecidableEq κ] [DecidableEq α] : DecidableEq (SortedMap κ α) := fun a b =>
  if h : a.entries = b.entries then isTrue (ext h) else isFalse fun e => h (e ▸ rfl)

/-- The map without entries. -/
def empty : SortedMap κ α := ⟨[], .nil⟩

instance : EmptyCollection (SortedMap κ α) := ⟨empty⟩
instance : Inhabited (SortedMap κ α) := ⟨empty⟩

/-- The value of a key. -/
def get? (m : SortedMap κ α) (k : κ) : Option α :=
  (m.entries.find? fun e => compare e.1 k == .eq).map Prod.snd

/-- Whether the key has a value. -/
def contains (m : SortedMap κ α) (k : κ) : Bool := (m.get? k).isSome

def keys (m : SortedMap κ α) : List κ := m.entries.map Prod.fst

def values (m : SortedMap κ α) : List α := m.entries.map Prod.snd

def size (m : SortedMap κ α) : Nat := m.entries.length

def isEmpty (m : SortedMap κ α) : Bool := m.entries.isEmpty

/-- `k` bound to `v` in an ascending list: a new entry at its place, or the old one replaced. -/
def insertEntry (k : κ) (v : α) : List (κ × α) → List (κ × α)
  | [] => [(k, v)]
  | e :: rest =>
    match compare k e.1 with
    | .lt => (k, v) :: e :: rest
    | .eq => (k, v) :: rest
    | .gt => e :: insertEntry k v rest

theorem mem_insertEntry {k : κ} {v : α} {e : κ × α} {l : List (κ × α)}
    (h : e ∈ insertEntry k v l) : e = (k, v) ∨ e ∈ l := by
  induction l with
  | nil => simpa [insertEntry] using h
  | cons x rest ih =>
    simp only [insertEntry] at h
    split at h
    · simpa using h
    · rcases List.mem_cons.mp h with h | h
      · exact .inl h
      · exact .inr (List.mem_cons_of_mem _ h)
    · rcases List.mem_cons.mp h with h | h
      · exact .inr (h ▸ List.mem_cons_self)
      · exact (ih h).imp id (List.mem_cons_of_mem _)

theorem ascending_insertEntry [Std.TransOrd κ] {k : κ} {v : α} {l : List (κ × α)}
    (h : l.Pairwise fun a b => compare a.1 b.1 = .lt) :
    (insertEntry k v l).Pairwise fun a b => compare a.1 b.1 = .lt := by
  induction l with
  | nil => simp [insertEntry]
  | cons x rest ih =>
    obtain ⟨hx, hrest⟩ := List.pairwise_cons.mp h
    simp only [insertEntry]
    split
    · rename_i hk
      refine List.pairwise_cons.mpr ⟨fun e he => ?_, h⟩
      rcases List.mem_cons.mp he with rfl | he
      · exact hk
      · exact Std.TransCmp.lt_trans hk (hx e he)
    · rename_i hk
      exact List.pairwise_cons.mpr ⟨fun e he => Std.TransCmp.lt_of_eq_of_lt hk (hx e he), hrest⟩
    · rename_i hk
      refine List.pairwise_cons.mpr ⟨fun e he => ?_, ih hrest⟩
      rcases mem_insertEntry he with rfl | he
      · exact Std.OrientedCmp.lt_of_gt hk
      · exact hx e he

/-- Bind `k` to `v`; an older value of `k` is replaced. -/
def insert [Std.TransOrd κ] (m : SortedMap κ α) (k : κ) (v : α) : SortedMap κ α :=
  ⟨insertEntry k v m.entries, ascending_insertEntry m.ascending⟩

/-- The entries that satisfy `p`. -/
def filter (m : SortedMap κ α) (p : κ → α → Bool) : SortedMap κ α :=
  ⟨m.entries.filter fun e => p e.1 e.2, m.ascending.sublist List.filter_sublist⟩

/-- The map without `k`. -/
def erase (m : SortedMap κ α) (k : κ) : SortedMap κ α :=
  m.filter fun k' _ => compare k' k != .eq

/-- Change every value. -/
def map (f : α → β) (m : SortedMap κ α) : SortedMap κ β :=
  ⟨m.entries.map fun e => (e.1, f e.2), m.ascending.map _ fun _ _ h => h⟩

/-- Bind the pairs in turn: the last value of a key stays. -/
def ofList [Std.TransOrd κ] (l : List (κ × α)) : SortedMap κ α :=
  l.foldl (fun m e => m.insert e.1 e.2) ∅

/-- `m` with every entry of `above` on top. -/
def merge [Std.TransOrd κ] (m above : SortedMap κ α) : SortedMap κ α :=
  above.entries.foldl (fun m e => m.insert e.1 e.2) m

/-! ## Reading -/

theorem get?_empty (k : κ) : (∅ : SortedMap κ α).get? k = none := rfl

theorem get?_eq_some_iff [Std.TransOrd κ] [Std.LawfulEqOrd κ] {m : SortedMap κ α} {k : κ} {v : α} :
    m.get? k = some v ↔ (k, v) ∈ m.entries := by
  obtain ⟨l, hl⟩ := m
  simp only [get?]
  induction l with
  | nil => simp
  | cons x rest ih =>
    obtain ⟨k', v'⟩ := x
    obtain ⟨hx, hrest⟩ := List.pairwise_cons.mp hl
    by_cases hk : k' = k
    · subst hk
      simp only [List.find?_cons, Std.ReflCmp.compare_self, beq_self_eq_true, List.mem_cons,
        Prod.mk.injEq, true_and, Option.map_some, Option.some.injEq]
      constructor
      · exact fun h => .inl h.symm
      · rintro (h | h)
        · exact h.symm
        · have := hx _ h
          simp at this
    · have hne : (compare k' k == .eq) = false := by
        simpa using hk
      simp only [List.find?_cons, hne, List.mem_cons, Prod.mk.injEq]
      rw [ih hrest]
      constructor
      · exact .inr
      · rintro (⟨h, _⟩ | h)
        · exact absurd h.symm hk
        · exact h

/-- Two maps are equal when they read the same at every key. -/
theorem ext_get? [Std.TransOrd κ] [Std.LawfulEqOrd κ] {a b : SortedMap κ α}
    (h : ∀ k, a.get? k = b.get? k) : a = b := by
  have hmem : ∀ e, e ∈ a.entries ↔ e ∈ b.entries := fun ⟨k, v⟩ => by
    rw [← get?_eq_some_iff, ← get?_eq_some_iff, h]
  refine ext ?_
  have ha := a.ascending
  have hb := b.ascending
  generalize a.entries = la at hmem ha
  generalize b.entries = lb at hmem hb
  induction la generalizing lb with
  | nil => exact (List.eq_nil_iff_forall_not_mem.mpr fun e he => nomatch (hmem e).mpr he).symm
  | cons x rest ih =>
    cases lb with
    | nil => exact absurd ((hmem x).mp List.mem_cons_self) List.not_mem_nil
    | cons y rest' =>
      obtain ⟨hx, hrest⟩ := List.pairwise_cons.mp ha
      obtain ⟨hy, hrest'⟩ := List.pairwise_cons.mp hb
      have hxy : x = y := by
        rcases List.mem_cons.mp ((hmem x).mp List.mem_cons_self) with h | h
        · exact h
        · rcases List.mem_cons.mp ((hmem y).mpr List.mem_cons_self) with h' | h'
          · exact h'.symm
          · have h1 := hy _ h
            have h2 := hx _ h'
            exact absurd h1 (Std.OrientedCmp.not_lt_of_lt h2)
      subst hxy
      refine congrArg _ (ih hrest _ (fun e => ?_) hrest')
      constructor
      · intro he
        rcases List.mem_cons.mp ((hmem e).mp (List.mem_cons_of_mem _ he)) with rfl | h
        · have := hx _ he
          simp at this
        · exact h
      · intro he
        rcases List.mem_cons.mp ((hmem e).mpr (List.mem_cons_of_mem _ he)) with rfl | h
        · have := hy _ he
          simp at this
        · exact h

theorem mem_insertEntry_iff [Std.TransOrd κ] [Std.LawfulEqOrd κ] {k : κ} {v : α} {e : κ × α}
    {l : List (κ × α)} (hl : l.Pairwise fun a b => compare a.1 b.1 = .lt) :
    e ∈ insertEntry k v l ↔ e = (k, v) ∨ (e ∈ l ∧ e.1 ≠ k) := by
  induction l with
  | nil => simp [insertEntry]
  | cons x rest ih =>
    obtain ⟨hx, hrest⟩ := List.pairwise_cons.mp hl
    simp only [insertEntry]
    split
    · rename_i hk
      have hne : ∀ y ∈ x :: rest, y.1 ≠ k := fun y hy he => by
        rcases List.mem_cons.mp hy with rfl | hy
        · simp [he] at hk
        · have := Std.TransCmp.lt_trans hk (hx y hy)
          simp [he] at this
      rw [List.mem_cons]
      exact or_congr_right ⟨fun h => ⟨h, hne e h⟩, And.left⟩
    · rename_i hk
      have hk' : k = x.1 := by simpa using hk
      have hne : ∀ y ∈ rest, y.1 ≠ k := fun y hy he => by
        have := hx y hy
        simp [he, hk'] at this
      simp only [List.mem_cons]
      constructor
      · exact Or.imp id fun h => ⟨.inr h, hne e h⟩
      · rintro (h | ⟨rfl | h, hk''⟩)
        · exact .inl h
        · exact absurd hk'.symm hk''
        · exact .inr h
    · rename_i hk
      have hxk : x.1 ≠ k := fun he => by simp [he] at hk
      simp only [List.mem_cons, ih hrest]
      constructor
      · rintro (rfl | rfl | h)
        · exact .inr ⟨.inl rfl, hxk⟩
        · exact .inl rfl
        · exact .inr ⟨.inr h.1, h.2⟩
      · rintro (h | ⟨rfl | h, hk''⟩)
        · exact .inr (.inl h)
        · exact .inl rfl
        · exact .inr (.inr ⟨h, hk''⟩)

theorem mem_entries_insert [Std.TransOrd κ] [Std.LawfulEqOrd κ] {m : SortedMap κ α} {k : κ} {v : α}
    {e : κ × α} : e ∈ (m.insert k v).entries ↔ e = (k, v) ∨ (e ∈ m.entries ∧ e.1 ≠ k) :=
  mem_insertEntry_iff m.ascending

theorem mem_entries_erase [Std.TransOrd κ] [Std.LawfulEqOrd κ] {m : SortedMap κ α} {k : κ}
    {e : κ × α} : e ∈ (m.erase k).entries ↔ e ∈ m.entries ∧ e.1 ≠ k := by
  simp [erase, filter, List.mem_filter]

/-- **Reading after a write.** -/
theorem get?_insert [Std.TransOrd κ] [Std.LawfulEqOrd κ] [DecidableEq κ] (m : SortedMap κ α)
    (k : κ) (v : α) (q : κ) : (m.insert k v).get? q = if q = k then some v else m.get? q := by
  refine Option.ext fun w => ?_
  rw [get?_eq_some_iff, mem_entries_insert]
  split
  · rename_i h
    simp [h, eq_comm]
  · rename_i h
    rw [get?_eq_some_iff]
    simp [h]

/-- **Reading after a removal.** -/
theorem get?_erase [Std.TransOrd κ] [Std.LawfulEqOrd κ] [DecidableEq κ] (m : SortedMap κ α)
    (k q : κ) : (m.erase k).get? q = if q = k then none else m.get? q := by
  refine Option.ext fun w => ?_
  rw [get?_eq_some_iff, mem_entries_erase]
  split
  · rename_i h
    simp [h]
  · rename_i h
    rw [get?_eq_some_iff]
    simp [h]

end SortedMap

end Telemetry
