import Mathlib.Data.List.Perm.Basic
import Telemetry.Scrape.MediaType

/-!
# What `Accept` values are answered with

`Offers entry w` reads one entry by the rules of the header: the media type first, then parameters,
of which the first `q=` says the weight (specification, 6.3). By those rules values can be served
when there are none, or when some entry offers a served type with a weight above zero
(`Acceptable`).

* `foldl_better`: the heaviest entry is above zero exactly when some entry is and the first one
  weighs something. A first weight that is NaN is never replaced, since nothing compares with it; a
  later one changes nothing.
* **`negotiated_iff`**: the answer is `text/plain` exactly when the values are acceptable and the
  first served weight is not NaN. So it depends on the order of the entries exactly when a NaN
  stands beside a weight above zero.
* `acceptable_not_negotiated`: a NaN before a plain `text/plain` hides it.
-/

namespace Telemetry

/-- Above zero, which a NaN is not. -/
def Weight.Positive (w : Weight) : Prop := (Binary.zero false).lt w = true

namespace AcceptEntry

/-! ## The rules of the header -/

/-- A parameter says the weight. -/
def SaysWeight (parameter : List Char) : Prop := "q=".toList <+: parameter

/-- The weight that an entry's parameters give it. -/
inductive Weighs : List (List Char) → Weight → Prop
  /-- No parameter says a weight, which is then one. -/
  | silent {ps : List (List Char)} (h : ∀ p ∈ ps, ¬ SaysWeight p) : Weighs ps (.ofNat _ 1)
  /-- The first one that does is a number. -/
  | number {before after : List (List Char)} {q : List Char} {w : Weight}
      (h : ∀ p ∈ before, ¬ SaysWeight p) (hw : Binary.ofText? .binary32 (Text.trim q) = some w) :
      Weighs (before ++ ("q=".toList ++ q) :: after) w
  /-- The first one that does is no number. -/
  | unreadable {before after : List (List Char)} {q : List Char}
      (h : ∀ p ∈ before, ¬ SaysWeight p) (hq : Binary.ofText? .binary32 (Text.trim q) = none) :
      Weighs (before ++ ("q=".toList ++ q) :: after) (.zero false)

/-- An entry names a media type that can be served, with a weight. -/
def Offers (entry : List Char) (w : Weight) : Prop :=
  ∃ mediaType parameters, (Text.splitOn ';' entry).map Text.trim = mediaType :: parameters ∧
    (mediaType = "text/plain".toList ∨ mediaType = "*/*".toList) ∧ Weighs parameters w

/-- The entries of all values, between commas. -/
def entryTexts (accept : List String) : List (List Char) :=
  accept.flatMap fun value => Text.splitOn ',' value.toList

/-- No value at all, or an entry that offers a weight above zero. -/
def Acceptable (accept : List String) : Prop :=
  accept = [] ∨ ∃ entry ∈ entryTexts accept, ∃ w, Offers entry w ∧ w.Positive

/-! ## Reading an entry -/

theorem not_saysWeight_iff {p : List Char} : Text.after? "q=".toList p = none ↔ ¬ SaysWeight p := by
  constructor
  · rintro h ⟨q, rfl⟩
    rw [Text.after?_eq_some_iff.mpr rfl] at h
    cases h
  · intro h
    cases hq : Text.after? "q=".toList p with
    | none => rfl
    | some q => exact absurd ⟨q, (Text.after?_eq_some_iff.mp hq).symm⟩ h

/-- The weight that is read from parameters. -/
def weightOf (parameters : List (List Char)) : Weight :=
  match parameters.findSome? (Text.after? "q=".toList) with
  | none => Binary.ofNat _ 1
  | some q => (Binary.ofText? .binary32 (Text.trim q)).getD (.zero false)

theorem findSome?_first {before after : List (List Char)} {q : List Char}
    (h : ∀ p ∈ before, ¬ SaysWeight p) :
    (before ++ ("q=".toList ++ q) :: after).findSome? (Text.after? "q=".toList) = some q := by
  have hbefore : before.findSome? (Text.after? "q=".toList) = none :=
    List.findSome?_eq_none_iff.mpr fun p hp => not_saysWeight_iff.mpr (h p hp)
  rw [List.findSome?_append, hbefore, Option.none_or, List.findSome?_cons,
    Text.after?_eq_some_iff.mpr rfl]

theorem weighs_iff {parameters : List (List Char)} {w : Weight} :
    Weighs parameters w ↔ weightOf parameters = w := by
  constructor
  · intro h
    unfold weightOf
    cases h with
    | silent h =>
      rw [List.findSome?_eq_none_iff.mpr fun p hp => not_saysWeight_iff.mpr (h p hp)]
    | number h hw =>
      rw [findSome?_first h]
      simp only [hw, Option.getD_some]
    | unreadable h hq =>
      rw [findSome?_first h]
      simp only [hq, Option.getD_none]
  · intro hw
    unfold weightOf at hw
    cases hfind : parameters.findSome? (Text.after? "q=".toList) with
    | none =>
      rw [hfind] at hw
      subst hw
      exact .silent fun p hp => not_saysWeight_iff.mp (List.findSome?_eq_none_iff.mp hfind p hp)
    | some q =>
      rw [hfind] at hw
      obtain ⟨before, p, after, rfl, hp, hbefore⟩ := List.findSome?_eq_some_iff.mp hfind
      have hsilent : ∀ p ∈ before, ¬ SaysWeight p :=
        fun p hp => not_saysWeight_iff.mp (hbefore p hp)
      obtain rfl := Text.after?_eq_some_iff.mp hp
      cases hq : Binary.ofText? .binary32 (Text.trim q) with
      | none =>
        simp only [hq, Option.getD_none] at hw
        exact hw ▸ .unreadable hsilent hq
      | some v =>
        simp only [hq, Option.getD_some] at hw
        exact .number hsilent (hw ▸ hq)

theorem isServed_iff {mediaType : List Char} {w : Weight} :
    isServed ⟨w, String.ofList mediaType⟩ = true ↔
      mediaType = "text/plain".toList ∨ mediaType = "*/*".toList := by
  unfold isServed
  simp only [Bool.or_eq_true, beq_iff_eq]
  refine or_congr ?_ ?_ <;>
    exact ⟨fun h => by rw [← h, String.toList_ofList], fun h => by rw [h, String.ofList_toList]⟩

/-- An entry is read as the rules say. -/
theorem offers_iff {entry : List Char} {w : Weight} :
    Offers entry w ↔ (read entry).isServed = true ∧ (read entry).weight = w := by
  obtain ⟨mediaType, parameters, heq⟩ :
      ∃ m ps, (Text.splitOn ';' entry).map Text.trim = m :: ps :=
    List.exists_cons_of_ne_nil (by simp [Text.splitOn_ne_nil])
  have hread : read entry = ⟨weightOf parameters, String.ofList mediaType⟩ := by
    unfold read
    rw [heq]
    rfl
  rw [hread, isServed_iff, ← weighs_iff]
  constructor
  · rintro ⟨m, ps, h, hserved, hw⟩
    rw [heq] at h
    cases h
    exact ⟨hserved, hw⟩
  · rintro ⟨hserved, hw⟩
    exact ⟨mediaType, parameters, heq, hserved, hw⟩

/-- The weights of the entries that can be served, in their order. -/
def weights (accept : List String) : List Weight :=
  (((entryTexts accept).map read).filter isServed).map (·.weight)

theorem mem_weights {accept : List String} {w : Weight} :
    w ∈ weights accept ↔ ∃ entry ∈ entryTexts accept, Offers entry w := by
  unfold weights
  simp only [List.mem_map, List.mem_filter, offers_iff]
  constructor
  · rintro ⟨e, ⟨⟨entry, hentry, rfl⟩, hserved⟩, rfl⟩
    exact ⟨entry, hentry, hserved, rfl⟩
  · rintro ⟨entry, hentry, hserved, rfl⟩
    exact ⟨read entry, ⟨⟨entry, hentry, rfl⟩, hserved⟩, rfl⟩

/-! ## The heaviest entry -/

/-- Beside a best entry that weighs something, the next one counts for its weight. -/
theorem weight_better {best : AcceptEntry} (next : AcceptEntry) (hbest : best.weight ≠ .nan) :
    (better best next).weight ≠ .nan ∧
      ((better best next).weight.Positive ↔ best.weight.Positive ∨ next.weight.Positive) := by
  obtain ⟨b, hb⟩ : ∃ b, best.weight.place? = some b := by
    cases hw : best.weight with
    | nan => exact absurd hw hbest
    | infinite s => exact ⟨_, rfl⟩
    | finite s m => exact ⟨_, rfl⟩
  have hzero : (Binary.zero false : Weight).place? = some 0 := rfl
  unfold better Weight.Positive Binary.lt Binary.same
  rw [hzero, hb]
  cases hn : next.weight.place? with
  | none => simp [hb, hbest]
  | some n =>
    have hnext : next.weight ≠ .nan := by
      intro h
      rw [h] at hn
      cases hn
    simp only [decide_eq_true_eq, Bool.and_eq_true]
    split_ifs with hlt heq
    · refine ⟨hnext, ?_⟩
      rw [hn, decide_eq_true_eq]
      omega
    · refine ⟨hnext, ?_⟩
      rw [hn, decide_eq_true_eq]
      omega
    · refine ⟨hbest, ?_⟩
      rw [hb, decide_eq_true_eq]
      omega

/-- Nothing is better than a NaN. -/
theorem better_nan {best : AcceptEntry} (hbest : best.weight = .nan) (next : AcceptEntry) :
    better best next = best := by
  unfold better Binary.lt Binary.same
  rw [hbest]
  cases next.weight.place? <;> simp [Binary.place?]

/-- **The heaviest entry** weighs above zero exactly when some entry does and the first weighs
something. -/
theorem foldl_better (first : AcceptEntry) (rest : List AcceptEntry) :
    (rest.foldl better first).weight.Positive ↔
      first.weight ≠ .nan ∧ ∃ e ∈ first :: rest, e.weight.Positive := by
  induction rest generalizing first with
  | nil =>
    rw [List.foldl_nil]
    simp only [List.mem_singleton, exists_eq_left]
    refine ⟨fun h => ⟨fun hnan => ?_, h⟩, And.right⟩
    rw [hnan] at h
    cases h
  | cons next rest ih =>
    rw [List.foldl_cons, ih]
    by_cases hfirst : first.weight = .nan
    · rw [better_nan hfirst]
      simp [hfirst]
    · obtain ⟨hnan, hpos⟩ := weight_better next hfirst
      simp only [hnan, hfirst, not_false_eq_true, true_and, ne_eq, List.mem_cons,
        exists_eq_or_imp, hpos, or_assoc]

/-! ## The answer -/

variable {accept : List String}

theorem entryTexts_eq_nil : entryTexts accept = [] ↔ accept = [] := by
  unfold entryTexts
  rw [List.flatMap_eq_nil_iff]
  cases accept with
  | nil => simp
  | cons value accept =>
    exact ⟨fun h => absurd (h value List.mem_cons_self) (Text.splitOn_ne_nil ',' _), nofun⟩

theorem acceptable_iff :
    Acceptable accept ↔ accept = [] ∨ ∃ w ∈ weights accept, w.Positive := by
  unfold Acceptable
  refine or_congr_right ⟨?_, ?_⟩
  · rintro ⟨entry, hentry, w, hoffers, hpos⟩
    exact ⟨w, mem_weights.mpr ⟨entry, hentry, hoffers⟩, hpos⟩
  · rintro ⟨w, hw, hpos⟩
    obtain ⟨entry, hentry, hoffers⟩ := mem_weights.mp hw
    exact ⟨entry, hentry, w, hoffers, hpos⟩

theorem bestMediaType_cases (accept : List String) :
    bestMediaType accept = some "text/plain" ∨ bestMediaType accept = none := by
  unfold bestMediaType
  split
  · exact .inl rfl
  · split
    · exact .inr rfl
    · split_ifs
      · exact .inl rfl
      · exact .inr rfl

theorem bestMediaType_eq_some_iff :
    bestMediaType accept = some "text/plain" ↔
      Acceptable accept ∧ (weights accept).head? ≠ some .nan := by
  rw [acceptable_iff, ← entryTexts_eq_nil]
  have hentries : accept.flatMap readAll = (entryTexts accept).map read := by
    unfold entryTexts readAll
    rw [List.map_flatMap]
  unfold bestMediaType weights
  rw [hentries]
  cases entryTexts accept with
  | nil => simp
  | cons entry entries =>
    simp only [List.map_cons, List.cons_ne_nil, false_or]
    cases (read entry :: entries.map read).filter isServed with
    | nil => simp
    | cons first rest =>
      have hfold := foldl_better first rest
      unfold Weight.Positive at hfold ⊢
      simp only [List.map_cons, List.head?_cons, ne_eq, Option.some.injEq,
        List.mem_cons, List.mem_map, exists_eq_or_imp, exists_exists_and_eq_and] at hfold ⊢
      split_ifs with h
      · simp only [true_iff]
        exact (hfold.mp h).symm
      · simp only [false_iff]
        exact fun hand => h (hfold.mpr hand.symm)

/-! ## The order of the entries -/

/-- Entries are the same each in a value of its own. -/
theorem entryTexts_alone {texts : List (List Char)} (h : ∀ t ∈ texts, ',' ∉ t) :
    entryTexts (texts.map String.ofList) = texts := by
  unfold entryTexts
  rw [List.flatMap_map]
  induction texts with
  | nil => rfl
  | cons t texts ih =>
    rw [List.flatMap_cons, String.toList_ofList, Text.splitOn_of_not_mem (h t List.mem_cons_self),
      ih fun t' ht' => h t' (List.mem_cons_of_mem t ht')]
    rfl

/-- Any weight on offer comes first in some order of the entries. -/
theorem exists_order {w : Weight} (hw : w ∈ weights accept) :
    ∃ accept', (entryTexts accept').Perm (entryTexts accept) ∧
      (weights accept').head? = some w := by
  obtain ⟨entry, hentry, hoffers⟩ := mem_weights.mp hw
  obtain ⟨hserved, hweight⟩ := offers_iff.mp hoffers
  have hperm := (List.perm_cons_erase hentry).symm
  have halone : ∀ t ∈ entry :: (entryTexts accept).erase entry, ',' ∉ t := by
    intro t ht
    obtain ⟨value, -, ht⟩ := List.mem_flatMap.mp (hperm.mem_iff.mp ht)
    exact Text.sep_not_mem_splitOn ht
  refine ⟨_, (entryTexts_alone halone).symm ▸ hperm, ?_⟩
  unfold weights
  rw [entryTexts_alone halone, List.map_cons, List.filter_cons_of_pos hserved, List.map_cons,
    List.head?_cons, hweight]

theorem weights_perm {accept' : List String} (h : (entryTexts accept').Perm (entryTexts accept)) :
    (weights accept').Perm (weights accept) :=
  ((h.map read).filter isServed).map _

theorem acceptable_perm {accept' : List String}
    (h : (entryTexts accept').Perm (entryTexts accept)) :
    Acceptable accept' ↔ Acceptable accept := by
  have hnil : accept' = [] ↔ accept = [] := by
    rw [← entryTexts_eq_nil, ← entryTexts_eq_nil]
    constructor
    · intro e
      rw [e] at h
      exact h.nil_eq.symm
    · intro e
      rw [e] at h
      exact h.eq_nil
  rw [acceptable_iff, acceptable_iff, hnil]
  refine or_congr_right (exists_congr fun w => and_congr_left fun _ => (weights_perm h).mem_iff)

/-- **What `Accept` values are answered with.** `text/plain` when they are acceptable and no NaN
comes first among the weights on offer, otherwise nothing; the order and the grouping of the entries
matter exactly when a NaN and a weight above zero are both on offer. -/
theorem negotiated_iff (accept : List String) :
    (bestMediaType accept = some "text/plain" ↔
      Acceptable accept ∧ (weights accept).head? ≠ some .nan) ∧
    (bestMediaType accept = some "text/plain" ∨ bestMediaType accept = none) ∧
    ((∀ accept', (entryTexts accept').Perm (entryTexts accept) →
        bestMediaType accept' = bestMediaType accept) ↔
      ¬ (.nan ∈ weights accept ∧ ∃ w ∈ weights accept, w.Positive)) := by
  refine ⟨bestMediaType_eq_some_iff, bestMediaType_cases accept, ?_, ?_⟩
  · rintro hsame ⟨hnan, w, hw, hpos⟩
    obtain ⟨nanFirst, hperm, hhead⟩ := exists_order hnan
    obtain ⟨weightFirst, hperm', hhead'⟩ := exists_order hw
    have hserved : bestMediaType weightFirst = some "text/plain" := by
      rw [bestMediaType_eq_some_iff, acceptable_perm hperm', hhead']
      refine ⟨acceptable_iff.mpr (.inr ⟨w, hw, hpos⟩), fun h => ?_⟩
      rw [Option.some.inj h] at hpos
      cases hpos
    rw [hsame _ hperm', ← hsame _ hperm, bestMediaType_eq_some_iff] at hserved
    exact hserved.2 hhead
  · intro hnone accept' hperm
    have hiff : bestMediaType accept' = some "text/plain" ↔
        bestMediaType accept = some "text/plain" := by
      rw [bestMediaType_eq_some_iff, bestMediaType_eq_some_iff, acceptable_perm hperm,
        acceptable_iff]
      refine and_congr_right fun hacceptable => ?_
      rcases hacceptable with rfl | hpos
      · rw [entryTexts_eq_nil.mp (show entryTexts accept' = [] from hperm.eq_nil)]
      · have hnan : .nan ∉ weights accept := fun h => hnone ⟨h, hpos⟩
        exact ⟨fun _ h => hnan (List.mem_of_head? h),
          fun _ h => hnan ((weights_perm hperm).mem_iff.mp (List.mem_of_head? h))⟩
    rcases bestMediaType_cases accept with h | h <;>
      rcases bestMediaType_cases accept' with h' | h' <;> simp_all

/-- A weight that is NaN hides the `text/plain` after it. -/
theorem acceptable_not_negotiated :
    Acceptable ["text/plain;q=nan, text/plain"] ∧
      bestMediaType ["text/plain;q=nan, text/plain"] = none := by
  have hpos : Weight.Positive (.ofNat _ 1) := show (Binary.zero false).lt _ = true by decide +kernel
  refine ⟨.inr ⟨" text/plain".toList, ?_, .ofNat _ 1, offers_iff.mpr ?_, hpos⟩, ?_⟩
  all_goals decide +kernel

end AcceptEntry

end Telemetry
