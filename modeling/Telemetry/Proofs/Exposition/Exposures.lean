import Mathlib.Data.List.Induction
import Mathlib.Data.List.Pairwise
import Mathlib.Data.List.Sort
import Mathlib.Data.List.TakeWhile
import Telemetry.Proofs.Directory.Exports
import Telemetry.Proofs.Exposition.Names

/-!
# What meters show, and what is kept of it

A meter shows a main sample, and a distribution its greatest value beside it. An `Exposure` is such
a sample with the family that it is for. Two exposures `Clash` when one export cannot hold both:
they are for one family, but of different kinds or with the same labels.

An export goes through the meters in the order of their ids and takes their exposures, up to the
first one of a meter that clashes with what was taken (`kept`).

* `holds_foldl`: the families of an export are those that the kept exposures make
  (`Exposure.family?`).
* `mem_kept_iff`: an exposure is kept unless it is `Outranked`: it clashes with a kept one of a
  meter with a smaller id. A greatest value is left out with the main exposure too.
* `kept_eq_flatMap`: where nothing clashes, everything is kept.
-/

namespace Telemetry

/-- The samples that a meter can show. -/
inductive Part where
  | main
  /-- The greatest value of a distribution. -/
  | greatest
deriving DecidableEq

/-- A sample that a meter shows, and the family that it is for. -/
structure Exposure where
  /-- The id of the meter. -/
  id : MetricId
  part : Part
  family : String
  help : String
  sample : Sample
deriving DecidableEq

namespace Exposure

def kind (e : Exposure) : FamilyKind := e.sample.value.kind

/-- The exposures of a meter with this id, kind, metadata and labels, and with these values. -/
def all (id : MetricId) (kind : MetricKind) (metadata : Metadata) (labels : List (String × String))
    (values : SampleValue × Option SampleValue) : List Exposure :=
  let name := expositionName id.name kind metadata.unit
  ⟨id, .main, name, metadata.help, ⟨labels, values.1⟩⟩ ::
    (values.2.map fun value =>
      ⟨id, .greatest, name ++ "_max", metadata.help, ⟨labels, value⟩⟩).toList

/-- One export cannot hold both. -/
def Clash (e e' : Exposure) : Prop :=
  e.family = e'.family ∧ (e.kind ≠ e'.kind ∨ e.sample.labels = e'.sample.labels)

instance (e e' : Exposure) : Decidable (e.Clash e') := inferInstanceAs (Decidable (_ ∧ _))

/-- It clashes with one of those. -/
def Blocked (taken : List Exposure) (e : Exposure) : Prop := ∃ e' ∈ taken, e'.Clash e

instance (taken : List Exposure) (e : Exposure) : Decidable (e.Blocked taken) :=
  inferInstanceAs (Decidable (∃ e' ∈ taken, e'.Clash e))

/-- It clashes with one of those, of a meter with a smaller id. -/
def Outranked (shown : List Exposure) (e : Exposure) : Prop :=
  ∃ e' ∈ shown, compare e'.id e.id = .lt ∧ e'.Clash e

/-- No two of them clash. -/
def Apart (es : List Exposure) : Prop := es.Pairwise fun e e' => ¬ e.Clash e'

/-- The family of a name that exposures make. It is headed as the first of them. -/
def family? (key : String) (es : List Exposure) : Option Family :=
  (es.filter fun e => e.family = key).head?.map fun first =>
    ⟨key, first.help, first.kind, (es.filter fun e => e.family = key).map (·.sample)⟩

variable {key : String} {es taken : List Exposure} {e e' : Exposure} {f : Family}

theorem Clash.refl (e : Exposure) : e.Clash e := ⟨rfl, .inr rfl⟩

theorem Clash.symm (h : e.Clash e') : e'.Clash e := ⟨h.1.symm, h.2.imp Ne.symm Eq.symm⟩

instance : Std.Symm fun e e' : Exposure => ¬ e.Clash e' := ⟨fun _ _ h h' => h h'.symm⟩

/-- An exposure clashes with itself alone. -/
theorem Apart.eq_of_clash (h : Apart es) (he : e ∈ es) (he' : e' ∈ es) (hc : e.Clash e') :
    e = e' := by
  by_contra hne
  exact h.forall he he' hne hc

theorem Apart.kind_eq (h : Apart es) (he : e ∈ es) (he' : e' ∈ es) (hf : e.family = e'.family) :
    e.kind = e'.kind := by
  by_contra hne
  obtain rfl := h.eq_of_clash he he' ⟨hf, .inl hne⟩
  exact hne rfl

theorem apart_append : Apart (es ++ [e]) ↔ Apart es ∧ ¬ e.Blocked es := by
  unfold Apart Blocked
  simp [List.pairwise_append]

theorem family?_eq_none : family? key es = none ↔ ∀ e ∈ es, e.family ≠ key := by
  unfold family?
  rw [Option.map_eq_none_iff, List.head?_eq_none_iff, List.filter_eq_nil_iff]
  simp

theorem filter_eq_nil (h : family? key es = none) : es.filter (fun e => e.family = key) = [] :=
  List.filter_eq_nil_iff.mpr fun e he => by simpa using family?_eq_none.mp h e he

/-- The family has a name that is exposed, and its samples are the exposed ones of the name. -/
theorem family?_eq_some (h : family? key es = some f) :
    f.name = key ∧ f.samples = (es.filter fun e => e.family = key).map (·.sample) ∧
      ∃ e ∈ es, e.family = key ∧ f.kind = e.kind ∧ f.help = e.help := by
  obtain ⟨first, hfirst, rfl⟩ := Option.map_eq_some_iff.mp h
  have hmem := List.mem_filter.mp (List.mem_of_head? hfirst)
  exact ⟨rfl, rfl, first, hmem.1, by simpa using hmem.2, rfl, rfl⟩

theorem exists_family? (he : e ∈ es) : ∃ f, family? e.family es = some f := by
  refine Option.ne_none_iff_exists'.mp fun hnone => ?_
  exact family?_eq_none.mp hnone e he rfl

theorem family?_append_of_ne (h : e.family ≠ key) : family? key (es ++ [e]) = family? key es := by
  unfold family?
  rw [List.filter_append, List.filter_cons_of_neg (by simpa using h), List.filter_nil,
    List.append_nil]

theorem filter_append_self (es : List Exposure) (e : Exposure) :
    (es ++ [e]).filter (fun e' => e'.family = e.family) =
      es.filter (fun e' => e'.family = e.family) ++ [e] := by
  rw [List.filter_append, List.filter_cons_of_pos (by simp), List.filter_nil]

theorem family?_append_new (h : family? e.family es = none) :
    family? e.family (es ++ [e]) = some ⟨e.family, e.help, e.kind, [e.sample]⟩ := by
  unfold family?
  rw [filter_append_self, filter_eq_nil h]
  rfl

theorem family?_append_old (h : family? e.family es = some f) :
    family? e.family (es ++ [e]) = some { f with samples := f.samples ++ [e.sample] } := by
  obtain ⟨first, hfirst, rfl⟩ := Option.map_eq_some_iff.mp h
  unfold family?
  rw [filter_append_self, List.head?_append, hfirst, List.map_append]
  rfl

end Exposure

/-! ## Families made from exposures -/

instance : Std.Irrefl fun f f' : Family => f.name < f'.name := ⟨fun f => String.lt_irrefl f.name⟩

instance : Std.Antisymm fun f f' : Family => f.name < f'.name :=
  ⟨fun _ _ h h' => absurd h' (String.lt_asymm h)⟩

namespace Families

open Exposure

variable {families : Families} {es : List Exposure} {e : Exposure} {key : String} {f : Family}

/-- The families are those that the exposures make, none of which clash. -/
structure Holds (families : Families) (es : List Exposure) : Prop where
  get? : ∀ key, families.get? key = family? key es
  apart : Apart es

theorem holds_nil : Holds ∅ [] := ⟨fun _ => rfl, .nil⟩

/-- **What clashes is left out and the rest is added.** -/
theorem Holds.push (h : families.Holds es) (e : Exposure) :
    e.Blocked es ∧ families.push e.family e.help e.sample = (false, families) ∨
      ¬ e.Blocked es ∧ ∃ families', families.push e.family e.help e.sample = (true, families') ∧
        families'.Holds (es ++ [e]) := by
  have hadd : ∀ f, family? e.family (es ++ [e]) = some f → ¬ e.Blocked es →
      Holds (families.insert e.family f) (es ++ [e]) := by
    refine fun f hf hnew => ⟨fun key => ?_, apart_append.mpr ⟨h.apart, hnew⟩⟩
    rw [SortedMap.get?_insert]
    split
    · rename_i hkey
      rw [hkey, hf]
    · rename_i hkey
      rw [h.get?, family?_append_of_ne fun heq => hkey heq.symm]
  unfold Families.push
  rw [h.get?]
  cases hf : family? e.family es with
  | none =>
    have hnew : ¬ e.Blocked es := fun ⟨e', he', hc⟩ => family?_eq_none.mp hf e' he' hc.1
    exact .inr ⟨hnew, _, rfl, hadd _ (family?_append_new hf) hnew⟩
  | some f =>
    obtain ⟨-, hsamples, first, hfirst, hname, hkind, -⟩ := family?_eq_some hf
    have hblocked : (f.kind ≠ e.sample.value.kind ∨
        (f.samples.any fun s => s.labels == e.sample.labels) = true) ↔ e.Blocked es := by
      rw [hkind, hsamples]
      simp only [List.any_map, List.any_eq_true, List.mem_filter, decide_eq_true_eq,
        Function.comp_apply, beq_iff_eq]
      constructor
      · rintro (hne | ⟨e', ⟨he', hf'⟩, hlabels⟩)
        · exact ⟨first, hfirst, hname, .inl hne⟩
        · exact ⟨e', he', hf', .inr hlabels⟩
      · rintro ⟨e', he', hf', hne | hlabels⟩
        · exact .inl fun heq =>
            hne ((h.apart.kind_eq he' hfirst (hf'.trans hname.symm)).trans heq)
        · exact .inr ⟨e', ⟨he', hf'⟩, hlabels⟩
    by_cases hb : e.Blocked es
    · exact .inl ⟨hb, if_pos (hblocked.mpr hb)⟩
    · exact .inr ⟨hb, _, if_neg (mt hblocked.mp hb), hadd _ (family?_append_old hf) hb⟩

/-- Families are listed under their names. -/
theorem Holds.mem_values (h : families.Holds es) :
    f ∈ families.values ↔ family? f.name es = some f := by
  rw [SortedMap.mem_values]
  constructor
  · rintro ⟨key, hkey⟩
    rw [h.get?] at hkey
    rwa [(family?_eq_some hkey).1]
  · exact fun hf => ⟨f.name, (h.get? f.name).trans hf⟩

/-- Families that stand under their names are listed in the order of the names. -/
theorem names_ascending (h : ∀ key f, families.get? key = some f → f.name = key) :
    families.values.Pairwise fun f f' => f.name < f'.name := by
  have hkey : ∀ entry ∈ families.entries, entry.2.name = entry.1 := fun entry hentry =>
    h entry.1 entry.2 (SortedMap.get?_eq_some_iff.mpr hentry)
  refine List.pairwise_map.mpr (families.ascending.imp_of_mem fun {a b} ha hb hab => ?_)
  rw [hkey a ha, hkey b hb]
  exact compareOfLessAndEq_eq_lt.mp hab

theorem Holds.names_ascending (h : families.Holds es) :
    families.values.Pairwise fun f f' => f.name < f'.name :=
  Families.names_ascending fun key _ hf => (family?_eq_some ((h.get? key).symm.trans hf)).1

end Families

/-! ## The exposures of meters -/

/-- What a meter shows, the main sample first. -/
def Meter.exposures (samples : Samples) (commonTags : Tags) (m : Meter) : List Exposure :=
  Exposure.all m.id m.kind m.metadata (labelsOf commonTags m.id.tags) (m.exposed samples)

/-- The exposures that an export keeps: those of meter after meter, up to the first one of the meter
that clashes with what was taken before. -/
def kept (samples : Samples) (commonTags : Tags) (ms : List Meter) : List Exposure :=
  ms.foldl (fun taken m =>
    taken ++ (m.exposures samples commonTags).takeWhile fun e => ¬ e.Blocked taken) []

namespace Exposure

variable {id : MetricId} {kind : MetricKind} {metadata : Metadata} {labels : List (String × String)}
  {values : SampleValue × Option SampleValue} {e : Exposure}

/-- The exposures of a meter have its id and its labels, and are for its family or the one beside
it. -/
theorem of_mem_all (h : e ∈ all id kind metadata labels values) :
    e.id = id ∧ e.sample.labels = labels ∧ (e.family = expositionName id.name kind metadata.unit ∨
      e.family = expositionName id.name kind metadata.unit ++ "_max") := by
  unfold all at h
  obtain rfl | h := List.mem_cons.mp h
  · exact ⟨rfl, rfl, .inl rfl⟩
  · obtain ⟨value, -, rfl⟩ := Option.map_eq_some_iff.mp (Option.mem_toList.mp h)
    exact ⟨rfl, rfl, .inr rfl⟩

theorem id_of_mem_all (h : e ∈ all id kind metadata labels values) : e.id = id :=
  (of_mem_all h).1

theorem labels_of_mem_all (h : e ∈ all id kind metadata labels values) : e.sample.labels = labels :=
  (of_mem_all h).2.1

theorem family_of_mem_all (h : e ∈ all id kind metadata labels values) :
    e.family = expositionName id.name kind metadata.unit ∨
      e.family = expositionName id.name kind metadata.unit ++ "_max" :=
  (of_mem_all h).2.2

/-- There is a main exposure, and perhaps a greatest value beside it. -/
theorem exists_all (id : MetricId) (kind : MetricKind) (metadata : Metadata)
    (labels : List (String × String)) (values : SampleValue × Option SampleValue) :
    ∃ (main : Exposure) (greatest : Option Exposure),
      all id kind metadata labels values = main :: greatest.toList ∧ main.part = .main ∧
        ∀ e ∈ greatest, e.part = .greatest := by
  refine ⟨_, _, rfl, rfl, fun e he => ?_⟩
  obtain ⟨value, -, rfl⟩ := Option.map_eq_some_iff.mp he
  rfl

theorem nodup_all (id : MetricId) (kind : MetricKind) (metadata : Metadata)
    (labels : List (String × String)) (values : SampleValue × Option SampleValue) :
    (all id kind metadata labels values).Nodup := by
  obtain ⟨main, greatest, heq, hmain, hgreatest⟩ := exists_all id kind metadata labels values
  rw [heq]
  refine List.nodup_cons.mpr ⟨fun hmem => ?_, greatest.toList_nodup⟩
  exact nomatch hmain.symm.trans (hgreatest main (Option.mem_toList.mp hmem))

end Exposure

namespace Families

open Exposure

variable {samples : Samples} {commonTags : Tags} {families : Families} {taken : List Exposure}
  {m : Meter} {ms pre post : List Meter} {e : Exposure}

theorem append_max_ne (name : String) : name ++ "_max" ≠ name := by
  intro h
  have := congrArg String.length h
  simp at this

theorem Holds.push_snd (h : families.Holds taken) (e : Exposure) :
    Holds (families.push e.family e.help e.sample).2
      (taken ++ [e].takeWhile fun e => ¬ e.Blocked taken) := by
  obtain ⟨hb, hpush⟩ | ⟨hb, families', hpush, hholds⟩ := h.push e
  · rwa [hpush, List.takeWhile_cons_of_neg (by simpa using hb), List.append_nil]
  · rwa [hpush, List.takeWhile_cons_of_pos (by simpa using hb), List.takeWhile_nil]

/-- An exposure for another family blocks nothing. -/
theorem takeWhile_concat_of_ne {main : Exposure} (h : main.family ≠ e.family) :
    [e].takeWhile (fun e => ¬ e.Blocked (taken ++ [main])) =
      [e].takeWhile fun e => ¬ e.Blocked taken := by
  suffices e.Blocked (taken ++ [main]) ↔ e.Blocked taken by
    simp only [List.takeWhile_cons, List.takeWhile_nil, this]
  unfold Blocked
  constructor
  · rintro ⟨e', he', hc⟩
    obtain he' | he' := List.mem_append.mp he'
    · exact ⟨e', he', hc⟩
    · obtain rfl := List.mem_singleton.mp he'
      exact absurd hc.1 h
  · exact fun ⟨e', he', hc⟩ => ⟨e', List.mem_append_left _ he', hc⟩

/-- **A meter adds its exposures up to the first one that clashes.** -/
theorem Holds.addMeter (h : families.Holds taken) (m : Meter) :
    Holds (families.addMeter samples commonTags m)
      (taken ++ (m.exposures samples commonTags).takeWhile fun e => ¬ e.Blocked taken) := by
  unfold Families.addMeter Meter.exposures Exposure.all
  obtain ⟨main, greatest⟩ := m.exposed samples
  generalize expositionName m.id.name m.kind m.metadata.unit = name
  generalize labelsOf commonTags m.id.tags = labels
  simp only
  obtain ⟨hb, hpush⟩ | ⟨hb, families', hpush, hholds⟩ :=
    h.push ⟨m.id, .main, name, m.metadata.help, ⟨labels, main⟩⟩
  · rw [hpush, List.takeWhile_cons_of_neg (by simpa using hb), List.append_nil]
    exact h
  · rw [hpush, List.takeWhile_cons_of_pos (by simpa using hb)]
    cases greatest with
    | none => exact hholds
    | some value =>
      have hnext := hholds.push_snd
        ⟨m.id, .greatest, name ++ "_max", m.metadata.help, ⟨labels, value⟩⟩
      rwa [takeWhile_concat_of_ne (append_max_ne name).symm, List.append_assoc] at hnext

/-- **The families of an export are made from the kept exposures.** -/
theorem holds_foldl (samples : Samples) (commonTags : Tags) (ms : List Meter) :
    Holds (ms.foldl (Families.addMeter samples commonTags) ∅) (kept samples commonTags ms) := by
  suffices ∀ families taken, Holds families taken →
      Holds (ms.foldl (Families.addMeter samples commonTags) families)
        (ms.foldl (fun taken m => taken ++
          (m.exposures samples commonTags).takeWhile fun e => ¬ e.Blocked taken) taken) from
    this ∅ [] holds_nil
  induction ms with
  | nil => exact fun _ _ h => h
  | cons m ms ih => exact fun _ _ h => ih _ _ (h.addMeter m)

end Families

/-! ## What is kept -/

section

open Exposure

variable {samples : Samples} {commonTags : Tags} {m : Meter} {ms : List Meter} {e : Exposure}

theorem kept_concat (samples : Samples) (commonTags : Tags) (ms : List Meter) (m : Meter) :
    kept samples commonTags (ms ++ [m]) = kept samples commonTags ms ++
      (m.exposures samples commonTags).takeWhile fun e =>
        ¬ e.Blocked (kept samples commonTags ms) := by
  unfold kept
  rw [List.foldl_append]
  rfl

theorem apart_kept (samples : Samples) (commonTags : Tags) (ms : List Meter) :
    Apart (kept samples commonTags ms) :=
  (Families.holds_foldl samples commonTags ms).apart

/-- What is kept is shown by a meter. -/
theorem exists_of_mem_kept (h : e ∈ kept samples commonTags ms) :
    ∃ m ∈ ms, e ∈ m.exposures samples commonTags := by
  induction ms using List.reverseRecOn with
  | nil => cases h
  | append_singleton ms m ih =>
    rw [kept_concat] at h
    obtain h | h := List.mem_append.mp h
    · obtain ⟨m', hm', he⟩ := ih h
      exact ⟨m', List.mem_append_left _ hm', he⟩
    · exact ⟨m, List.mem_append_right _ List.mem_cons_self, List.takeWhile_subset _ h⟩

/-- Meters of other ids do not add it. -/
theorem mem_kept_append {pre post : List Meter} (h : ∀ m ∈ post, e.id ≠ m.id) :
    e ∈ kept samples commonTags (pre ++ post) ↔ e ∈ kept samples commonTags pre := by
  induction post using List.reverseRecOn with
  | nil => rw [List.append_nil]
  | append_singleton post m ih =>
    rw [← List.append_assoc, kept_concat, List.mem_append,
      ih fun m' hm' => h m' (List.mem_append_left _ hm')]
    refine or_iff_left fun hlast => ?_
    exact h m (List.mem_append_right _ List.mem_cons_self)
      (id_of_mem_all (List.takeWhile_subset _ hlast))

/-- What is kept of the meters before an id is what is kept with smaller ids. -/
theorem mem_kept_before {pre post : List Meter} {id : MetricId}
    (hpre : ∀ m ∈ pre, compare m.id id = .lt) (hpost : ∀ m ∈ post, compare m.id id ≠ .lt) :
    e ∈ kept samples commonTags pre ↔
      e ∈ kept samples commonTags (pre ++ post) ∧ compare e.id id = .lt := by
  have happend : compare e.id id = .lt →
      (e ∈ kept samples commonTags (pre ++ post) ↔ e ∈ kept samples commonTags pre) :=
    fun hlt => mem_kept_append fun m hm heq => hpost m hm (heq ▸ hlt)
  constructor
  · intro he
    obtain ⟨m, hm, hshown⟩ := exists_of_mem_kept he
    have hlt : compare e.id id = .lt := by
      rw [id_of_mem_all hshown]
      exact hpre m hm
    exact ⟨(happend hlt).mpr he, hlt⟩
  · exact fun ⟨he, hlt⟩ => (happend hlt).mp he

/-- What is kept of the meters before one blocks an exposure of it that is outranked. -/
theorem blocked_before_iff {pre post : List Meter}
    (h : (pre ++ m :: post).Pairwise fun a b => compare a.id b.id = .lt)
    (he : e ∈ m.exposures samples commonTags) :
    e.Blocked (kept samples commonTags pre) ↔
      e.Outranked (kept samples commonTags (pre ++ m :: post)) := by
  obtain ⟨-, hpost, hcross⟩ := List.pairwise_append.mp h
  obtain ⟨hafter, -⟩ := List.pairwise_cons.mp hpost
  unfold Blocked Outranked
  simp only [← and_assoc, id_of_mem_all he]
  refine exists_congr fun e' => and_congr_left fun _ => mem_kept_before ?_ fun m' hm' => ?_
  · exact fun m' hm' => hcross m' hm' m List.mem_cons_self
  · obtain rfl | hm' := List.mem_cons.mp hm'
    · simp
    · exact Std.OrientedCmp.not_lt_of_lt (hafter m' hm')

/-- The exposures of a meter are kept where it stands, or not at all. -/
theorem mem_kept_middle {pre post : List Meter}
    (h : (pre ++ m :: post).Pairwise fun a b => compare a.id b.id = .lt)
    (he : e ∈ m.exposures samples commonTags) :
    e ∈ kept samples commonTags (pre ++ m :: post) ↔
      e ∈ (m.exposures samples commonTags).takeWhile fun e =>
        ¬ e.Blocked (kept samples commonTags pre) := by
  obtain ⟨-, hpost, hcross⟩ := List.pairwise_append.mp h
  obtain ⟨hafter, -⟩ := List.pairwise_cons.mp hpost
  have hid := id_of_mem_all he
  rw [List.append_cons, mem_kept_append, kept_concat, List.mem_append]
  · refine or_iff_right fun hearlier => ?_
    obtain ⟨m', hm', hshown⟩ := exists_of_mem_kept hearlier
    have hlt := hcross m' hm' m List.mem_cons_self
    rw [← id_of_mem_all hshown, hid] at hlt
    simp at hlt
  · intro m' hm' heq
    have hlt := hafter m' hm'
    rw [← heq, hid] at hlt
    simp at hlt

/-- **An exposure is kept unless it is outranked**, a greatest value together with the main
exposure. -/
theorem mem_kept_iff (h : ms.Pairwise fun a b => compare a.id b.id = .lt) (hm : m ∈ ms)
    {main : Exposure} {greatest : Option Exposure}
    (hexposures : m.exposures samples commonTags = main :: greatest.toList) :
    (main ∈ kept samples commonTags ms ↔ ¬ main.Outranked (kept samples commonTags ms)) ∧
      ∀ e ∈ greatest, e ≠ main → (e ∈ kept samples commonTags ms ↔
        ¬ main.Outranked (kept samples commonTags ms) ∧
          ¬ e.Outranked (kept samples commonTags ms)) := by
  obtain ⟨pre, post, rfl⟩ := List.append_of_mem hm
  have hmain : main ∈ m.exposures samples commonTags := hexposures ▸ List.mem_cons_self
  constructor
  · rw [mem_kept_middle h hmain, hexposures, ← blocked_before_iff h hmain, List.takeWhile_cons]
    split <;> simp_all
  · intro e he hne
    obtain rfl : greatest = some e := he
    have he : e ∈ m.exposures samples commonTags :=
      hexposures ▸ List.mem_cons_of_mem main (List.mem_singleton_self e)
    rw [mem_kept_middle h he, hexposures, ← blocked_before_iff h hmain, ← blocked_before_iff h he]
    simp only [Option.toList_some, List.takeWhile_cons, List.takeWhile_nil]
    split
    · split <;> simp_all
    · simp_all

/-- **Where nothing clashes, everything is kept.** -/
theorem kept_eq_flatMap (h : Apart (ms.flatMap fun m => m.exposures samples commonTags)) :
    kept samples commonTags ms = ms.flatMap fun m => m.exposures samples commonTags := by
  induction ms using List.reverseRecOn with
  | nil => rfl
  | append_singleton ms m ih =>
    rw [List.flatMap_append] at h ⊢
    obtain ⟨hms, -, hcross⟩ := List.pairwise_append.mp h
    rw [kept_concat, ih hms, List.flatMap_singleton, List.takeWhile_eq_self_iff.mpr]
    intro e he
    rw [decide_eq_true_eq]
    rintro ⟨e', he', hc⟩
    exact hcross e' he' e (by simpa using he) hc

end

end Telemetry
