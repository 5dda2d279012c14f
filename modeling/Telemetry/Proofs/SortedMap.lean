import Mathlib.Algebra.GroupWithZero.Nat
import Mathlib.Data.List.Induction
import Telemetry.SortedMap

/-!
# Reading sorted maps

What each operation on a `SortedMap` leaves to be read, and when it changes nothing: binding a key
to the value it has (`insert_of_get?`) and erasing a key without a value (`erase_of_get?_none`). The
keys are listed once each (`nodup_keys`), so two maps with the same keys up to an injection have one
size (`size_eq_of_keys`), and the values are those without a key and the value of the key
(`values_perm`). A map made of a list has the last entry of each key (`get?_ofList`).
-/

namespace Telemetry

namespace SortedMap

variable {κ α β : Type} [Ord κ] [Std.TransOrd κ] [Std.LawfulEqOrd κ]

theorem get?_filter (m : SortedMap κ α) (p : κ → α → Bool) (k : κ) :
    (m.filter p).get? k = (m.get? k).filter (p k) := by
  refine Option.ext fun v => ?_
  rw [get?_eq_some_iff, Option.filter_eq_some_iff, get?_eq_some_iff]
  simp [filter]

theorem mem_keys {m : SortedMap κ α} {k : κ} : k ∈ m.keys ↔ ∃ v, m.get? k = some v := by
  simp only [keys, List.mem_map]
  constructor
  · rintro ⟨⟨k', v⟩, hmem, rfl⟩
    exact ⟨v, get?_eq_some_iff.mpr hmem⟩
  · rintro ⟨v, hv⟩
    exact ⟨(k, v), get?_eq_some_iff.mp hv, rfl⟩

theorem mem_values {m : SortedMap κ α} {v : α} : v ∈ m.values ↔ ∃ k, m.get? k = some v := by
  simp only [values, List.mem_map]
  constructor
  · rintro ⟨⟨k, w⟩, hmem, rfl⟩
    exact ⟨k, get?_eq_some_iff.mpr hmem⟩
  · rintro ⟨k, hk⟩
    exact ⟨(k, v), get?_eq_some_iff.mp hk, rfl⟩

omit [Std.TransOrd κ] [Std.LawfulEqOrd κ] in
theorem contains_iff {m : SortedMap κ α} {k : κ} :
    m.contains k = true ↔ ∃ v, m.get? k = some v := by
  unfold contains
  exact Option.isSome_iff_exists

omit [Std.TransOrd κ] in
theorem nodup_keys (m : SortedMap κ α) : m.keys.Nodup := by
  unfold keys
  refine List.pairwise_map.mpr (m.ascending.imp fun {a b} hab heq => ?_)
  rw [heq] at hab
  simp at hab

omit [Std.TransOrd κ] [Std.LawfulEqOrd κ] in
theorem length_keys (m : SortedMap κ α) : m.keys.length = m.size := by
  unfold keys size
  exact List.length_map _

omit [Std.TransOrd κ] in
/-- Maps whose keys correspond one to one have the same size. -/
theorem size_eq_of_keys {κ' : Type} [Ord κ'] [Std.LawfulEqOrd κ']
    {m : SortedMap κ α} {m' : SortedMap κ' β} {f : κ → κ'}
    (hf : ∀ a ∈ m.keys, ∀ b ∈ m.keys, f a = f b → a = b)
    (hk : ∀ k', k' ∈ m'.keys ↔ ∃ k ∈ m.keys, f k = k') : m.size = m'.size := by
  have hnd : (m.keys.map f).Nodup :=
    List.pairwise_map.mpr (m.nodup_keys.imp_of_mem fun ha hb hne heq => hne (hf _ ha _ hb heq))
  have hperm : (m.keys.map f).Perm m'.keys := by
    rw [List.perm_ext_iff_of_nodup hnd m'.nodup_keys]
    intro k'
    rw [List.mem_map, hk k']
  rw [← length_keys, ← length_keys, ← hperm.length_eq, List.length_map]

/-- Reading after every value was changed. -/
theorem get?_map (m : SortedMap κ α) (f : α → β) (k : κ) : (m.map f).get? k = (m.get? k).map f := by
  refine Option.ext fun v => ?_
  rw [get?_eq_some_iff, Option.map_eq_some_iff]
  simp only [get?_eq_some_iff, map, List.mem_map, Prod.mk.injEq]
  constructor
  · rintro ⟨⟨k', w⟩, hmem, rfl, rfl⟩
    exact ⟨w, hmem, rfl⟩
  · rintro ⟨w, hmem, rfl⟩
    exact ⟨(k, w), hmem, rfl, rfl⟩

omit [Std.TransOrd κ] [Std.LawfulEqOrd κ] in
theorem keys_map (m : SortedMap κ α) (f : α → β) : (m.map f).keys = m.keys :=
  List.map_map

omit [Std.TransOrd κ] [Std.LawfulEqOrd κ] in
theorem values_map (m : SortedMap κ α) (f : α → β) : (m.map f).values = m.values.map f := by
  unfold values map
  rw [List.map_map, List.map_map]
  rfl

omit [Std.LawfulEqOrd κ] in
/-- Keys from an earlier one on are not found behind it. -/
theorem find?_none_of_lt {k : κ} {l : List (κ × α)} (h : ∀ e ∈ l, compare k e.1 = .lt) :
    (l.find? fun e => compare e.1 k == .eq) = none := by
  refine List.find?_eq_none.mpr fun e he heq => ?_
  have hlt := h e he
  rw [Std.OrientedCmp.eq_symm (beq_iff_eq.mp heq)] at hlt
  cases hlt

variable [DecidableEq κ]

theorem insert_of_get? {m : SortedMap κ α} {k : κ} {v : α} (h : m.get? k = some v) :
    m.insert k v = m := by
  refine ext_get? fun q => ?_
  rw [get?_insert]
  split
  · rename_i hq
    rw [hq, h]
  · rfl

theorem erase_of_get?_none {m : SortedMap κ α} {k : κ} (h : m.get? k = none) : m.erase k = m := by
  refine ext_get? fun q => ?_
  rw [get?_erase]
  split
  · rename_i hq
    rw [hq, h]
  · rfl

theorem get?_erase_self (m : SortedMap κ α) (k : κ) : (m.erase k).get? k = none := by
  rw [get?_erase, if_pos rfl]

/-- Erasing a new key takes back its binding. -/
theorem erase_insert {m : SortedMap κ α} {k : κ} {v : α} (h : m.get? k = none) :
    (m.insert k v).erase k = m := by
  refine ext_get? fun q => ?_
  rw [get?_erase, get?_insert]
  split
  · rename_i hq
    rw [hq, h]
  · rfl

/-! The values of a map are those without a key, with the value of the key. -/

/-- Take out the value of a key. -/
theorem values_perm {m : SortedMap κ α} {k : κ} {v : α} (h : m.get? k = some v) :
    m.values.Perm (v :: (m.erase k).values) := by
  have hnodup (m : SortedMap κ α) : m.entries.Nodup :=
    (List.pairwise_map.mp m.nodup_keys).imp fun hne heq => hne (congrArg Prod.fst heq)
  have hentries : m.entries.Perm ((k, v) :: (m.erase k).entries) := by
    refine (List.perm_ext_iff_of_nodup (hnodup m) (List.nodup_cons.mpr ⟨?_, hnodup _⟩)).mpr fun e =>
      ?_
    · exact fun hmem => (mem_entries_erase.mp hmem).2 rfl
    · rw [List.mem_cons, mem_entries_erase]
      by_cases hk : e.1 = k
      · subst hk
        constructor
        · intro he
          rw [get?_eq_some_iff.mpr he] at h
          exact .inl (Prod.ext rfl (Option.some.inj h))
        · rintro (he | he)
          · exact he ▸ get?_eq_some_iff.mp h
          · exact he.1
      · refine ⟨fun he => .inr ⟨he, hk⟩, ?_⟩
        rintro (rfl | he)
        · exact absurd rfl hk
        · exact he.1
  exact hentries.map Prod.snd

theorem values_insert_perm (m : SortedMap κ α) (k : κ) (v : α) :
    (m.insert k v).values.Perm (v :: (m.erase k).values) := by
  have herase : (m.insert k v).erase k = m.erase k := by
    refine ext_get? fun q => ?_
    rw [get?_erase, get?_insert, get?_erase]
    split <;> rfl
  rw [← herase]
  exact values_perm ((get?_insert ..).trans (if_pos rfl))

/-- A write adds the difference to the sum of the values. -/
theorem sum_values_insert (m : SortedMap κ Nat) (k : κ) (v : Nat) :
    (m.insert k v).values.sum + (m.get? k).getD 0 = m.values.sum + v := by
  rw [(values_insert_perm m k v).sum_nat, List.sum_cons]
  cases hk : m.get? k with
  | none =>
    rw [erase_of_get?_none hk, Option.getD_none]
    omega
  | some w =>
    rw [(values_perm hk).sum_nat, List.sum_cons, Option.getD_some]
    omega

/-- What is laid on top counts, and below it what was there. -/
theorem get?_merge (m above : SortedMap κ α) (k : κ) :
    (m.merge above).get? k = (above.get? k).or (m.get? k) := by
  obtain ⟨l, hl⟩ := above
  show (l.foldl (fun m e => m.insert e.1 e.2) m).get? k =
    ((l.find? fun e => compare e.1 k == .eq).map Prod.snd).or (m.get? k)
  induction l generalizing m with
  | nil => rfl
  | cons e rest ih =>
    obtain ⟨he, hrest⟩ := List.pairwise_cons.mp hl
    rw [List.foldl_cons, ih _ hrest, get?_insert]
    by_cases hk : e.1 = k
    · subst hk
      rw [find?_none_of_lt he, List.find?_cons_of_pos (by simp), if_pos rfl]
      rfl
    · rw [List.find?_cons_of_neg (by simpa using hk), if_neg fun h => hk h.symm]

/-- Going through all entries for one key finds its value. -/
theorem flatMap_entries (m : SortedMap κ α) (k : κ) (f : α → List β) :
    (m.entries.flatMap fun e => if e.1 = k then f e.2 else []) = ((m.get? k).map f).getD [] := by
  obtain ⟨l, hl⟩ := m
  show (l.flatMap fun e => if e.1 = k then f e.2 else []) =
    (((l.find? fun e => compare e.1 k == .eq).map Prod.snd).map f).getD []
  induction l with
  | nil => rfl
  | cons e rest ih =>
    obtain ⟨he, hrest⟩ := List.pairwise_cons.mp hl
    rw [List.flatMap_cons, ih hrest]
    by_cases hk : e.1 = k
    · subst hk
      rw [find?_none_of_lt he, List.find?_cons_of_pos (by simp), if_pos rfl]
      exact List.append_nil _
    · rw [List.find?_cons_of_neg (by simpa using hk), if_neg hk, List.nil_append]

theorem mem_keys_ofList {l : List (κ × α)} {k : κ} :
    k ∈ (ofList l).keys ↔ ∃ v, (k, v) ∈ l := by
  suffices ∀ m : SortedMap κ α, k ∈ (l.foldl (fun m e => m.insert e.1 e.2) m).keys ↔
      k ∈ m.keys ∨ ∃ v, (k, v) ∈ l by
    refine (this ∅).trans (or_iff_right ?_)
    exact List.not_mem_nil
  induction l with
  | nil => simp
  | cons e rest ih =>
    intro m
    obtain ⟨k', v'⟩ := e
    rw [List.foldl_cons, ih]
    simp only [mem_keys, get?_insert, List.mem_cons, Prod.mk.injEq]
    by_cases hk : k = k' <;> simp [hk]

/-- The last of two bindings of a key counts. -/
theorem insert_insert (m : SortedMap κ α) (k : κ) (v w : α) :
    (m.insert k v).insert k w = m.insert k w := by
  refine ext_get? fun q => ?_
  rw [get?_insert, get?_insert, get?_insert]
  split <;> rfl

/-- A write to a key that is kept is a write to what is kept. -/
theorem filter_insert_pos {m : SortedMap κ α} {p : κ → Bool} {k : κ} {v : α} (h : p k = true) :
    (m.insert k v).filter (fun k _ => p k) = (m.filter fun k _ => p k).insert k v := by
  refine ext_get? fun q => ?_
  rw [get?_filter, get?_insert, get?_insert, get?_filter]
  split
  · rename_i hq
    rw [hq, Option.filter_some, if_pos h]
  · rfl

/-- A write to a key that is left out changes nothing that is kept. -/
theorem filter_insert_neg {m : SortedMap κ α} {p : κ → Bool} {k : κ} {v : α} (h : ¬ p k = true) :
    (m.insert k v).filter (fun k _ => p k) = m.filter fun k _ => p k := by
  refine ext_get? fun q => ?_
  rw [get?_filter, get?_insert, get?_filter]
  split
  · rename_i hq
    rw [hq, Option.filter_some, if_neg h]
    exact (Option.filter_eq_none_iff.mpr fun _ _ => h).symm
  · rfl

end SortedMap

/-! ## Maps of lists -/

/-- The value of the last entry of a key. -/
def lastOf? {κ α : Type} [DecidableEq κ] (entries : List (κ × α)) (k : κ) : Option α :=
  (entries.filter fun e => e.1 = k).getLast?.map (·.2)

section lastOf

variable {κ α β : Type} [DecidableEq κ] (entries entries' : List (κ × α)) (k : κ)

@[simp]
theorem lastOf?_nil : lastOf? ([] : List (κ × α)) k = none := rfl

theorem lastOf?_append :
    lastOf? (entries ++ entries') k = (lastOf? entries' k).or (lastOf? entries k) := by
  unfold lastOf?
  rw [List.filter_append, List.getLast?_append, Option.map_or]

theorem lastOf?_singleton (e : κ × α) : lastOf? [e] k = if e.1 = k then some e.2 else none := by
  unfold lastOf?
  by_cases he : e.1 = k <;> simp [he]

/-- Entries made from a list. -/
theorem lastOf?_map (l : List β) (key : β → κ) (value : β → α) :
    lastOf? (l.map fun b => (key b, value b)) k =
    ((l.filter fun b => key b = k).getLast?).map value := by
  unfold lastOf?
  rw [List.filter_map, List.getLast?_map, Option.map_map]
  rfl

theorem SortedMap.get?_ofList [Ord κ] [Std.TransOrd κ] [Std.LawfulEqOrd κ] :
    (SortedMap.ofList entries).get? k = lastOf? entries k := by
  induction entries using List.reverseRecOn with
  | nil => rfl
  | append_singleton entries e ih =>
    have hlast : SortedMap.ofList (entries ++ [e]) = (SortedMap.ofList entries).insert e.1 e.2 :=
      List.foldl_append
    rw [hlast, SortedMap.get?_insert, ih, lastOf?_append, lastOf?_singleton]
    by_cases he : e.1 = k
    · rw [if_pos he.symm, if_pos he, Option.some_or]
    · rw [if_neg fun hk => he hk.symm, if_neg he, Option.none_or]

end lastOf

end Telemetry
