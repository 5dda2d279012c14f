import Telemetry.Proofs.Exposition.Exposures

/-!
# Merging families

Families of one name are joined to one (`Family.join`): the first one heads it, and every one of its
kind adds its samples, in order. `mem_mergeFamilies` says that merging joins the families of each
name, and `mergeFamilies_ascending` that the names ascend. Families that were made from exposures in
parts join to those that all exposures make, as long as no two of them clash
(`Exposure.join_family?`).
-/

namespace Telemetry

namespace Family

/-- The family that families of one name are merged to. -/
def join : List Family → Option Family
  | [] => none
  | first :: rest =>
    some { first with
      samples := first.samples ++ (rest.filter fun f => f.kind = first.kind).flatMap (·.samples) }

variable {f first : Family} {fs : List Family} {key : String}

theorem join_eq_none : join fs = none ↔ fs = [] := by
  cases fs <;> simp [join]

theorem join_concat (h : join fs = some first) :
    join (fs ++ [f]) =
      some (if first.kind = f.kind then { first with samples := first.samples ++ f.samples }
        else first) := by
  cases fs with
  | nil => cases h
  | cons f₀ rest =>
    cases h
    unfold join
    simp only [List.cons_append, List.filter_append, List.flatMap_append, Option.some.injEq]
    split
    · rename_i hk
      rw [List.filter_cons_of_pos (by simpa using hk.symm), List.filter_nil,
        List.flatMap_singleton, List.append_assoc]
    · rename_i hk
      rw [List.filter_cons_of_neg (by simpa using fun h => hk h.symm), List.filter_nil,
        List.flatMap_nil, List.append_nil]

/-- The first of the families heads what they are merged to, and those of its kind add their
samples. -/
theorem join_eq_some (h : join fs = some f) :
    (∃ first rest, fs = first :: rest ∧ f.name = first.name ∧ f.kind = first.kind ∧
      f.help = first.help) ∧
      f.samples = (fs.filter fun f' => f'.kind = f.kind).flatMap (·.samples) := by
  cases fs with
  | nil => cases h
  | cons first rest =>
    cases h
    refine ⟨⟨first, rest, rfl, rfl, rfl, rfl⟩, ?_⟩
    rw [List.filter_cons_of_pos (by simp), List.flatMap_cons]

end Family

open Family

variable {f : Family} {fs : List Family} {lists : List (List Family)} {key : String}

/-- One step of merging. -/
def Families.absorb (merged : Families) (family : Family) : Families :=
  match merged.get? family.name with
  | none => merged.insert family.name family
  | some first =>
    if first.kind = family.kind then
      merged.insert family.name { first with samples := first.samples ++ family.samples }
    else merged

theorem mergeFamilies_eq (lists : List (List Family)) :
    mergeFamilies lists = (lists.flatten.foldl Families.absorb ∅).values := rfl

theorem Families.get?_absorb_of_ne {merged : Families} (h : f.name ≠ key) :
    (merged.absorb f).get? key = merged.get? key := by
  have hne : ¬ key = f.name := fun heq => h heq.symm
  unfold absorb
  split
  · rw [SortedMap.get?_insert, if_neg hne]
  · split
    · rw [SortedMap.get?_insert, if_neg hne]
    · rfl

theorem Families.get?_absorb_self (merged : Families) (f : Family) :
    (merged.absorb f).get? f.name = match merged.get? f.name with
      | none => some f
      | some first =>
        some (if first.kind = f.kind then { first with samples := first.samples ++ f.samples }
          else first) := by
  unfold absorb
  split
  · rw [SortedMap.get?_insert, if_pos rfl]
  · rename_i first hfirst
    split
    · rw [SortedMap.get?_insert, if_pos rfl]
    · exact hfirst

theorem Families.get?_foldl_absorb (fs : List Family) (key : String) :
    (fs.foldl Families.absorb ∅).get? key = join (fs.filter fun f => f.name = key) := by
  induction fs using List.reverseRecOn with
  | nil => rfl
  | append_singleton fs f ih =>
    rw [List.foldl_append, List.foldl_cons, List.foldl_nil, List.filter_append]
    by_cases hkey : f.name = key
    · subst hkey
      rw [get?_absorb_self, ih, List.filter_cons_of_pos (by simp), List.filter_nil]
      cases hjoin : join (fs.filter fun f' => f'.name = f.name) with
      | none =>
        rw [join_eq_none.mp hjoin]
        simp [join]
      | some first => rw [join_concat hjoin]
    · rw [get?_absorb_of_ne hkey, ih, List.filter_cons_of_neg (by simpa using hkey),
        List.filter_nil, List.append_nil]

theorem name_of_join_filter (h : join (fs.filter fun f => f.name = key) = some f) :
    f.name = key := by
  obtain ⟨⟨first, rest, hfs, hname, -⟩, -⟩ := join_eq_some h
  have hfirst : first ∈ fs.filter fun f => f.name = key := hfs ▸ List.mem_cons_self
  rw [hname]
  simpa using (List.mem_filter.mp hfirst).2

/-- **Merging joins the families of each name.** -/
theorem mem_mergeFamilies :
    f ∈ mergeFamilies lists ↔ join (lists.flatten.filter fun f' => f'.name = f.name) = some f := by
  rw [mergeFamilies_eq]
  simp only [SortedMap.mem_values, Families.get?_foldl_absorb]
  constructor
  · rintro ⟨key, hkey⟩
    rwa [name_of_join_filter hkey]
  · exact fun hf => ⟨f.name, hf⟩

/-- A merged family has the samples of the families of its name and kind. -/
theorem samples_of_mem_mergeFamilies (hf : f ∈ mergeFamilies lists) :
    (∃ f' ∈ lists.flatten, f'.name = f.name ∧ f'.kind = f.kind) ∧
      f.samples = (lists.flatten.filter fun f' => f'.name = f.name ∧ f'.kind = f.kind).flatMap
        (·.samples) := by
  obtain ⟨⟨first, rest, hfs, hname, hkind, -⟩, hsamples⟩ := join_eq_some (mem_mergeFamilies.mp hf)
  have hfirst : first ∈ lists.flatten.filter fun f' => f'.name = f.name := hfs ▸ List.mem_cons_self
  refine ⟨⟨first, (List.mem_filter.mp hfirst).1, hname.symm, hkind.symm⟩, ?_⟩
  rw [hsamples, List.filter_filter]
  simp only [Bool.decide_and, Bool.and_comm]

theorem mergeFamilies_ascending (lists : List (List Family)) :
    (mergeFamilies lists).Pairwise fun f f' => f.name < f'.name := by
  rw [mergeFamilies_eq]
  refine Families.names_ascending fun key f hf => ?_
  rw [Families.get?_foldl_absorb] at hf
  exact name_of_join_filter hf

/-- A name is merged when one of the families has it. -/
theorem exists_mem_mergeFamilies :
    (∃ f ∈ mergeFamilies lists, f.name = key) ↔ ∃ f ∈ lists.flatten, f.name = key := by
  constructor
  · rintro ⟨f, hf, rfl⟩
    obtain ⟨⟨f', hf', hname, -⟩, -⟩ := samples_of_mem_mergeFamilies hf
    exact ⟨f', hf', hname⟩
  · rintro ⟨f, hf, rfl⟩
    have hne : join (lists.flatten.filter fun f' => f'.name = f.name) ≠ none := by
      rw [ne_eq, join_eq_none]
      exact List.ne_nil_of_mem (List.mem_filter.mpr ⟨hf, by simp⟩)
    obtain ⟨merged, hmerged⟩ := Option.ne_none_iff_exists'.mp hne
    have hname := name_of_join_filter hmerged
    exact ⟨merged, mem_mergeFamilies.mpr (by rwa [hname]), hname⟩

namespace Exposure

variable {ess : List (List Exposure)}

theorem family?_append_none {es es' : List Exposure} (h : family? key es = none) :
    family? key (es ++ es') = family? key es' := by
  unfold family?
  rw [List.filter_append, filter_eq_nil h, List.nil_append]

theorem family?_append_some {es es' : List Exposure} (h : family? key es = some f) :
    family? key (es ++ es') =
      some { f with
        samples := f.samples ++ (es'.filter fun e => e.family = key).map (·.sample) } := by
  obtain ⟨first, hfirst, rfl⟩ := Option.map_eq_some_iff.mp h
  unfold family?
  rw [List.filter_append, List.head?_append, hfirst, List.map_append]
  rfl

/-- The samples of the families that parts make are those of the exposures. -/
theorem flatMap_samples (ess : List (List Exposure)) (key : String) :
    (ess.flatMap fun es => (family? key es).toList).flatMap (·.samples) =
      (ess.flatten.filter fun e => e.family = key).map (·.sample) := by
  induction ess with
  | nil => rfl
  | cons es ess ih =>
    rw [List.flatMap_cons, List.flatMap_append, ih, List.flatten_cons, List.filter_append,
      List.map_append, List.append_cancel_right_eq]
    cases hf : family? key es with
    | none =>
      rw [filter_eq_nil hf]
      rfl
    | some f =>
      rw [Option.toList_some, List.flatMap_singleton]
      exact (family?_eq_some hf).2.1

/-- **Families made in parts join to those that all exposures make**, where nothing clashes. -/
theorem join_family? (h : Apart ess.flatten) (key : String) :
    join (ess.flatMap fun es => (family? key es).toList) = family? key ess.flatten := by
  induction ess with
  | nil => rfl
  | cons es ess ih =>
    rw [List.flatten_cons] at h
    obtain ⟨-, hrest, hcross⟩ := List.pairwise_append.mp h
    rw [List.flatMap_cons, List.flatten_cons]
    cases hf : family? key es with
    | none =>
      rw [family?_append_none hf, ← ih hrest]
      rfl
    | some f =>
      rw [family?_append_some hf, ← flatMap_samples, Option.toList_some, List.singleton_append]
      have hkinds : ∀ f' ∈ ess.flatMap fun es => (family? key es).toList, f'.kind = f.kind := by
        intro f' hf'
        obtain ⟨es', hes', hf'⟩ := List.mem_flatMap.mp hf'
        obtain ⟨-, -, e, he, hname, hkind, -⟩ := family?_eq_some hf
        obtain ⟨-, -, e', he', hname', hkind', -⟩ := family?_eq_some (Option.mem_toList.mp hf')
        rw [hkind, hkind']
        by_contra hne
        exact hcross e he e' (List.mem_flatten_of_mem hes' he')
          ⟨hname.trans hname'.symm, .inl fun heq => hne heq.symm⟩
      unfold join
      simp only [List.filter_eq_self.mpr fun f' hf' => decide_eq_true (hkinds f' hf')]

end Exposure

end Telemetry
