import Telemetry.Exposition.Family
import Telemetry.Proofs.SortedMap

/-!
# Exposed names and labels

An exposed name matches `[a-zA-Z_:][a-zA-Z0-9_:]*` (`isExposedName`), whatever the name, the kind
and the unit that it is made from, as long as the name is not empty
(`isExposedName_expositionName`).

Tag keys are exposed as they are. So the labels of a meter are its tags over the common ones
(`mem_labelsOf`), in the order of their keys (`labelsOf_ascending`).
-/

namespace Telemetry

/-! ## Names -/

/-- The characters of an exposed name: one that may start it, and then ones that may follow. -/
def isExposedChars : List Char → Bool
  | [] => false
  | c :: r => isExposedStart c && r.all isExposedPart

/-- The text matches `[a-zA-Z_:][a-zA-Z0-9_:]*`. -/
def isExposedName (text : String) : Bool := isExposedChars text.toList

theorem isExposedPart_of_start {c : Char} (h : isExposedStart c = true) :
    isExposedPart c = true := by
  unfold isExposedStart at h
  unfold isExposedPart Char.isAlphanum
  simp only [Bool.or_eq_true] at h ⊢
  exact h.imp_left fun h => h.imp_left .inl

theorem isExposedStart_of_name {c : Char} (h : isNameStart c = true) : isExposedStart c = true := by
  unfold isExposedStart
  exact Bool.or_eq_true_iff.mpr (.inl h)

theorem isExposedPart_of_name {c : Char} (h : isNamePart c = true) : isExposedPart c = true := by
  unfold isExposedPart
  exact Bool.or_eq_true_iff.mpr (.inl h)

theorem isExposedChars_append {cs ds : List Char} (h : isExposedChars cs = true)
    (hds : ∀ d ∈ ds, isExposedPart d = true) : isExposedChars (cs ++ ds) = true := by
  cases cs with
  | nil => cases h
  | cons c r =>
    obtain ⟨hc, hr⟩ := Bool.and_eq_true_iff.mp h
    refine Bool.and_eq_true_iff.mpr ⟨hc, List.all_append.trans ?_⟩
    rw [hr, List.all_eq_true.mpr hds]
    rfl

/-- Whatever is not empty is made an exposed name. -/
theorem isExposedChars_sanitizeChars {cs : List Char} (h : cs ≠ []) :
    isExposedChars (sanitizeChars cs) = true := by
  cases cs with
  | nil => exact absurd rfl h
  | cons c r =>
    refine Bool.and_eq_true_iff.mpr ⟨?_, List.all_eq_true.mpr fun d hd => ?_⟩
    · split
      · assumption
      · rfl
    · obtain ⟨d, -, rfl⟩ := List.mem_map.mp hd
      split
      · assumption
      · rfl

theorem isExposedPart_of_mem_sanitizeChars {cs : List Char} {d : Char} (h : d ∈ sanitizeChars cs) :
    isExposedPart d = true := by
  cases cs with
  | nil => cases h
  | cons c r =>
    obtain ⟨hc, hr⟩ := Bool.and_eq_true_iff.mp (isExposedChars_sanitizeChars (List.cons_ne_nil c r))
    obtain rfl | hd := List.mem_cons.mp h
    · exact isExposedPart_of_start hc
    · exact List.all_eq_true.mp hr d hd

/-- What is one already stays as it is. -/
theorem sanitizeChars_of_exposed {cs : List Char} (h : isExposedChars cs = true) :
    sanitizeChars cs = cs := by
  cases cs with
  | nil => rfl
  | cons c r =>
    obtain ⟨hc, hr⟩ := Bool.and_eq_true_iff.mp h
    show (if isExposedStart c then c else '_') ::
      r.map (fun d => if isExposedPart d then d else '_') = c :: r
    rw [if_pos hc, List.map_congr_left fun d hd => if_pos (List.all_eq_true.mp hr d hd),
      List.map_id']

theorem isExposedChars_withEnding {cs ending : List Char} (h : isExposedChars cs = true)
    (hending : ∀ d ∈ ending, isExposedPart d = true) :
    isExposedChars (withEnding cs ending) = true := by
  unfold withEnding
  split
  · exact h
  · exact isExposedChars_append h hending

theorem isExposedPart_of_mem_exposedUnit {kind : MetricKind} {unit : Option String} {u : List Char}
    (h : exposedUnit kind unit = some u) : ∀ d ∈ u, isExposedPart d = true := by
  have hgiven : ∀ {given : Option String}, given.map (fun u => sanitizeChars u.toList) = some u →
      ∀ d ∈ u, isExposedPart d = true := by
    intro given hu
    obtain ⟨text, -, rfl⟩ := Option.map_eq_some_iff.mp hu
    exact fun d hd => isExposedPart_of_mem_sanitizeChars hd
  cases kind with
  | timer =>
    cases h
    exact List.all_eq_true.mp (by decide)
  | counter | gauge | histogram => exact hgiven h

/-- Adding a unit keeps characters that are exposed exposed. -/
theorem isExposedChars_withUnit {cs : List Char} (h : isExposedChars cs = true) (kind : MetricKind)
    (unit : Option String) :
    isExposedChars (match exposedUnit kind unit with
      | some u => withEnding cs ('_' :: u)
      | none => cs) = true := by
  split
  · rename_i u hu
    refine isExposedChars_withEnding h fun d hd => ?_
    obtain rfl | hd := List.mem_cons.mp hd
    · rfl
    · exact isExposedPart_of_mem_exposedUnit hu d hd
  · exact h

/-- **Exposed names are valid.** -/
theorem isExposedName_expositionName {name : String} (h : name ≠ "") (kind : MetricKind)
    (unit : Option String) : isExposedName (expositionName name kind unit) = true := by
  have hchars : isExposedChars (sanitizeChars name.toList) = true :=
    isExposedChars_sanitizeChars fun hnil => h (String.toList_eq_nil_iff.mp hnil)
  unfold isExposedName expositionName
  rw [String.toList_ofList]
  have hunit := isExposedChars_withUnit hchars kind unit
  split
  · exact isExposedChars_withEnding hunit (List.all_eq_true.mp (by decide))
  · exact hunit

theorem isExposedName_append {name ending : String} (h : isExposedName name = true)
    (hending : ∀ d ∈ ending.toList, isExposedPart d = true) :
    isExposedName (name ++ ending) = true := by
  unfold isExposedName
  rw [String.toList_append]
  exact isExposedChars_append h hending

theorem ne_empty_of_isExposedName {name : String} (h : isExposedName name = true) : name ≠ "" := by
  rintro rfl
  cases h

/-! ## Labels -/

/-- Tag keys are exposed as they are. -/
theorem sanitize_key (key : TagName) : sanitize key.text = key.text := by
  have hvalid := key.valid
  unfold isTagName at hvalid
  unfold sanitize
  rw [sanitizeChars_of_exposed, String.ofList_toList]
  split at hvalid
  · cases hvalid
  · rename_i c r htext
    obtain ⟨hc, hr⟩ := Bool.and_eq_true_iff.mp hvalid
    rw [htext]
    refine Bool.and_eq_true_iff.mpr ⟨isExposedStart_of_name hc, ?_⟩
    exact List.all_eq_true.mpr fun d hd => isExposedPart_of_name (List.all_eq_true.mp hr d hd)

theorem TagName.ext_text {a b : TagName} (h : a.text = b.text) : a = b := by
  cases a
  cases b
  cases h
  rfl

section

variable {commonTags tags : Tags} {key : TagName} {value : String}

theorem labelsOf_eq (commonTags tags : Tags) :
    labelsOf commonTags tags = (commonTags.merge tags).entries.map fun e => (e.1.text, e.2) :=
  List.map_congr_left fun e _ => by rw [sanitize_key]

/-- The labels are a meter's tags, and the common ones that it has no tag of the key for. -/
theorem mem_labelsOf : (key.text, value) ∈ labelsOf commonTags tags ↔
    ((tags.get? key).or (commonTags.get? key)) = some value := by
  rw [labelsOf_eq, ← SortedMap.get?_merge, SortedMap.get?_eq_some_iff, List.mem_map]
  constructor
  · rintro ⟨⟨k, v⟩, hmem, heq⟩
    obtain ⟨hk, rfl⟩ := Prod.mk.injEq .. ▸ heq
    exact TagName.ext_text hk ▸ hmem
  · exact fun hmem => ⟨_, hmem, rfl⟩

theorem isTagName_of_mem_labelsOf {l : String × String} (h : l ∈ labelsOf commonTags tags) :
    isTagName l.1 = true := by
  rw [labelsOf_eq] at h
  obtain ⟨e, -, rfl⟩ := List.mem_map.mp h
  exact e.1.valid

/-- The labels are in the order of their keys, each of which has one. -/
theorem labelsOf_ascending (commonTags tags : Tags) :
    (labelsOf commonTags tags).Pairwise fun a b => a.1 < b.1 := by
  rw [labelsOf_eq]
  exact (commonTags.merge tags).ascending.map _ fun a b hab => compareOfLessAndEq_eq_lt.mp hab

end

end Telemetry
