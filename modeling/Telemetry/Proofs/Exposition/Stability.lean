import Telemetry.Proofs.Exposition.Names

/-!
# Exposing an exposed name

An exposed name carries its unit and, for a counter, `_total`, and each is added only where the name
does not end in it already (specification, 4.7). So exposing a name once more should leave it as it
is, and mostly does. But the name of a counter ends in `_total` and no longer in its unit: where the
unit is not `total` and does not end in `_total` either, both are added again (`not_exposed_once`).

* `unit_stands_iff`: a name that ends in its unit still does so with `_total` exactly when the unit
  ends in `_total`;
* `exposed_again`: so exposing leaves an exposed name as it is exactly where the name ends in its
  unit (`UnitStands`), whatever the name, and makes it longer every time elsewhere.
-/

namespace Telemetry

variable {cs ending u : List Char} {kind : MetricKind} {unit : Option String}

/-! ## Endings -/

theorem withEnding_of_suffix (h : ending <:+ cs) : withEnding cs ending = cs :=
  if_pos (List.isSuffixOf_iff_suffix.mpr h)

theorem withEnding_of_not_suffix (h : ¬ ending <:+ cs) : withEnding cs ending = cs ++ ending :=
  if_neg fun hs => h (List.isSuffixOf_iff_suffix.mp hs)

theorem suffix_withEnding (cs ending : List Char) : ending <:+ withEnding cs ending := by
  by_cases h : ending <:+ cs
  · rwa [withEnding_of_suffix h]
  · rw [withEnding_of_not_suffix h]
    exact List.suffix_append cs ending

@[simp]
theorem withEnding_withEnding (cs ending : List Char) :
    withEnding (withEnding cs ending) ending = withEnding cs ending :=
  withEnding_of_suffix (suffix_withEnding cs ending)

/-- What stays as it is keeps doing so with an ending of exposed characters. -/
theorem sanitizeChars_withEnding (h : sanitizeChars cs = cs)
    (hending : isExposedChars ending = true) :
    sanitizeChars (withEnding cs ending) = withEnding cs ending := by
  cases cs with
  | nil =>
    unfold withEnding
    split
    · rfl
    · exact sanitizeChars_of_exposed hending
  | cons c r =>
    have hexposed := isExposedChars_sanitizeChars (List.cons_ne_nil c r)
    rw [h] at hexposed
    refine sanitizeChars_of_exposed (isExposedChars_withEnding hexposed fun d hd => ?_)
    exact isExposedPart_of_mem_sanitizeChars (by rwa [sanitizeChars_of_exposed hending])

/-- An ending of `_total` that begins with an underscore is all of it. -/
theorem eq_total_of_suffix (h : '_' :: u <:+ "_total".toList) : '_' :: u = "_total".toList := by
  have hlist : "_total".toList = ['_', 't', 'o', 't', 'a', 'l'] := by decide
  rw [hlist] at h ⊢
  simpa [List.suffix_cons_iff] using h

/-- **A name that ends in its unit still does so with `_total`** exactly when the unit does. -/
theorem unit_stands_iff (h : '_' :: u <:+ cs) :
    '_' :: u <:+ withEnding cs "_total".toList ↔ "_total".toList <:+ '_' :: u := by
  constructor
  · intro hunit
    obtain hshort | hlong := List.suffix_or_suffix_of_suffix hunit (suffix_withEnding cs _)
    · exact ⟨[], (eq_total_of_suffix hshort).symm⟩
    · exact hlong
  · intro htotal
    rwa [withEnding_of_suffix (htotal.trans h)]

/-! ## Exposing twice -/

/-- What exposing adds to characters that may stand in an exposed name. -/
def exposedChars (kind : MetricKind) (unit : Option String) (cs : List Char) : List Char :=
  let marked :=
    match exposedUnit kind unit with
    | some u => withEnding cs ('_' :: u)
    | none => cs
  if kind = .counter then withEnding marked "_total".toList else marked

theorem toList_expositionName (name : String) (kind : MetricKind) (unit : Option String) :
    (expositionName name kind unit).toList = exposedChars kind unit (sanitizeChars name.toList) :=
  String.toList_ofList

theorem isExposedChars_unit (h : exposedUnit kind unit = some u) :
    isExposedChars ('_' :: u) = true :=
  Bool.and_eq_true_iff.mpr ⟨rfl, List.all_eq_true.mpr (isExposedPart_of_mem_exposedUnit h)⟩

theorem sanitizeChars_sanitizeChars (cs : List Char) :
    sanitizeChars (sanitizeChars cs) = sanitizeChars cs := by
  cases cs with
  | nil => rfl
  | cons c r => exact sanitizeChars_of_exposed (isExposedChars_sanitizeChars (List.cons_ne_nil c r))

theorem sanitizeChars_exposedChars (kind : MetricKind) (unit : Option String)
    (h : sanitizeChars cs = cs) :
    sanitizeChars (exposedChars kind unit cs) = exposedChars kind unit cs := by
  have hmarked : ∀ marked, sanitizeChars marked = marked →
      sanitizeChars (if kind = .counter then withEnding marked "_total".toList else marked) =
        if kind = .counter then withEnding marked "_total".toList else marked := by
    intro marked h
    split
    · exact sanitizeChars_withEnding h (by decide)
    · exact h
  refine hmarked _ ?_
  split
  · rename_i u hu
    exact sanitizeChars_withEnding h (isExposedChars_unit hu)
  · exact h

/-- Exposing adds to an exposed name only what exposing adds to its characters. -/
theorem toList_exposed_again (name : String) (kind : MetricKind) (unit : Option String) :
    (expositionName (expositionName name kind unit) kind unit).toList =
      exposedChars kind unit (expositionName name kind unit).toList := by
  rw [toList_expositionName (expositionName name kind unit), toList_expositionName,
    sanitizeChars_exposedChars kind unit (sanitizeChars_sanitizeChars name.toList)]

/-- The name of the kind and the unit ends in the unit, where there is one: nothing but a counter's
`_total` follows it, which the unit may end in itself. -/
def UnitStands (kind : MetricKind) (unit : Option String) : Prop :=
  kind = .counter → ∀ u ∈ unit, "_total".toList <:+ '_' :: sanitizeChars u.toList

/-- **Where the name still ends in its unit** nothing is added to it again. -/
theorem exposedChars_again (h : UnitStands kind unit) (cs : List Char) :
    exposedChars kind unit (exposedChars kind unit cs) = exposedChars kind unit cs := by
  unfold exposedChars
  cases hu : exposedUnit kind unit with
  | none =>
    by_cases hk : kind = .counter
    · simp only [if_pos hk, withEnding_withEnding]
    · simp only [if_neg hk]
  | some u =>
    by_cases hk : kind = .counter
    · subst hk
      obtain ⟨text, htext, rfl⟩ := Option.map_eq_some_iff.mp hu
      have hunit := (unit_stands_iff (suffix_withEnding cs _)).mpr (h rfl text htext)
      simp only [if_true, withEnding_of_suffix hunit, withEnding_withEnding]
    · simp only [if_neg hk, withEnding_withEnding]

/-- **Where a counter's name does not end in its unit** any more, both the unit and `_total` are
added again. -/
theorem exposedChars_grows {text : String}
    (h : ¬ "_total".toList <:+ '_' :: sanitizeChars text.toList) (cs : List Char) :
    exposedChars .counter (some text) (exposedChars .counter (some text) cs) =
      exposedChars .counter (some text) cs ++ '_' :: sanitizeChars text.toList ++
      "_total".toList := by
  have hunit : ¬ '_' :: sanitizeChars text.toList <:+ exposedChars .counter (some text) cs :=
    fun hstands =>
    h ((unit_stands_iff (suffix_withEnding cs _)).mp hstands)
  have htotal : ¬ "_total".toList <:+
      exposedChars .counter (some text) cs ++ '_' :: sanitizeChars text.toList := by
    intro htotal
    obtain hshort | hlong := List.suffix_or_suffix_of_suffix htotal (List.suffix_append _ _)
    · exact h hshort
    · rw [eq_total_of_suffix hlong] at h
      exact h List.suffix_rfl
  show withEnding (withEnding (exposedChars .counter (some text) cs) _) _ = _
  rw [withEnding_of_not_suffix hunit, withEnding_of_not_suffix htotal]

/-- **Exposing an exposed name** leaves it as it is exactly where it ends in its unit, whatever the
name: for what is no counter, for what has no unit, and for counters whose unit is `total` or ends
in `_total`. The name of any other counter with a unit gets both endings again. -/
theorem exposed_again (name : String) (kind : MetricKind) (unit : Option String) :
    let exposed := expositionName name kind unit
    (expositionName exposed kind unit = exposed ↔ UnitStands kind unit) ∧
      (¬ UnitStands kind unit → ∃ u, kind = .counter ∧ unit = some u ∧
        expositionName exposed kind unit = exposed ++ "_" ++ sanitize u ++ "_total") := by
  intro exposed
  have hgrows : ¬ UnitStands kind unit → ∃ u, kind = .counter ∧ unit = some u ∧
      expositionName exposed kind unit = exposed ++ "_" ++ sanitize u ++ "_total" := by
    intro hnot
    obtain ⟨rfl, hunits⟩ := Classical.not_imp.mp hnot
    obtain ⟨u, hgiven⟩ := Classical.not_forall.mp hunits
    obtain ⟨rfl, hu⟩ := Classical.not_imp.mp hgiven
    refine ⟨u, rfl, rfl, String.toList_inj.mp ?_⟩
    rw [toList_exposed_again, toList_expositionName, exposedChars_grows hu]
    simp [exposed, toList_expositionName, sanitize]
  refine ⟨⟨fun heq => ?_, fun hstands => ?_⟩, hgrows⟩
  · refine Classical.byContradiction fun hnot => ?_
    obtain ⟨u, -, -, hlonger⟩ := hgrows hnot
    have hlength := congrArg String.length (heq.symm.trans hlonger)
    have htotal : "_total".length = 6 := by decide
    simp only [String.length_append, htotal] at hlength
    omega
  · refine String.toList_inj.mp ?_
    rw [toList_exposed_again, toList_expositionName, exposedChars_again hstands]

/-- The unit stays last in a counter of totals. -/
example : expositionName "n_total" .counter (some "total") = "n_total" := by decide

/-- Not every exposed name stays as it is: a counter's name that carries its unit and `_total` gets
both again. -/
theorem not_exposed_once :
    ¬ ∀ name kind unit,
      expositionName (expositionName name kind unit) kind unit = expositionName name kind unit := by
  intro hall
  have hbytes := hall "n" .counter (some "bytes")
  revert hbytes
  decide

end Telemetry
