import Telemetry.Proofs.Settings.Durations
import Telemetry.Proofs.Settings.Entries
import Telemetry.Proofs.Settings.Properties

/-!
# Durations in the settings of timers

The buckets and the bounds of timers are durations. Two texts of one duration are read as the same
seconds (`SameSpan.readSeconds_eq`), so lists of them as the same buckets (`read_of_sameDurations`),
and configurations that differ in nothing but how their durations are spelled have the same settings
or are both refused (`Config.Respelled.ofConfig_iff`). With how a single duration is read this is
**`durations_agree`**.
-/

namespace Telemetry

open Duration PropertyList DistributionSettings

/-! ## Two spellings -/

/-- Two texts of one duration: the same text, or numbers of units that have the same nanoseconds. -/
inductive SameSpan : List Char → List Char → Prop where
  | refl (text : List Char) : SameSpan text text
  | written {text text' : List Char} {unit unit' : String × Nat} {count count' : Nat} :
      unit ∈ allUnits → unit' ∈ allUnits → count ≤ 2 ^ 53 → count' ≤ 2 ^ 53 →
      Writes count unit.1 text → Writes count' unit'.1 text' → count * unit.2 = count' * unit'.2 →
      SameSpan text text'

/-- The units in which hours are written do not matter. -/
theorem Duration.WritesHours.sameSpan {n : Nat} (hn : 3600000 * n < 2 ^ 53) {text text' : List Char}
    (h : WritesHours n text) (h' : WritesHours n text') : SameSpan text text' := by
  obtain ⟨unit, hunit, count, hcount, hwrites, hspan⟩ := h.writes hn
  obtain ⟨unit', hunit', count', hcount', hwrites', hspan'⟩ := h'.writes hn
  exact .written hunit hunit' hcount hcount' hwrites hwrites' (hspan.trans hspan'.symm)

namespace SameSpan

variable {text text' : List Char}

theorem isEmpty_trim_eq (h : SameSpan text text') :
    (Text.trim text).isEmpty = (Text.trim text').isEmpty := by
  cases h with
  | refl => rfl
  | written _ _ _ _ hwrites hwrites' => rw [hwrites.isEmpty_trim, hwrites'.isEmpty_trim]

/-- **The seconds are the same**, and so is the fault where there are none. -/
theorem readSeconds_eq (h : SameSpan text text') :
    readSeconds (Text.trim text) = readSeconds (Text.trim text') := by
  cases h with
  | refl => rfl
  | written hunit hunit' hcount hcount' hwrites hwrites' hspan =>
    unfold readSeconds
    rw [read?_trim, read?_trim, hwrites.read?_eq hunit hcount,
      hwrites'.read?_eq hunit' hcount', hspan]

end SameSpan

/-! ## Settings -/

/-- Values of a property that say the same durations, one for one. -/
def Property.SameDurations : Property → List Char → List Char → Prop
  | .timerBuckets => fun values values' =>
    List.Forall₂ SameSpan (Text.splitOn ',' values) (Text.splitOn ',' values')
  | .timerMin | .timerMax => SameSpan
  | _ => Eq

/-- Entries for the same names that say the same durations. -/
inductive Property.SameEntry (p : Property) : List Char → List Char → Prop where
  | refl (entry : List Char) : p.SameEntry entry entry
  | values {own values values' : List Char} : '=' ∉ own → p.SameDurations values values' →
      p.SameEntry (own ++ '=' :: values) (own ++ '=' :: values')

/-- Texts of a property whose entries say the same durations, one for one. -/
def Property.SameText (p : Property) (text text' : String) : Prop :=
  List.Forall₂ p.SameEntry (Text.splitOn ';' text.toList) (Text.splitOn ';' text'.toList)

/-- Configurations of distributions that differ in nothing but how durations are spelled. -/
structure Config.Respelled (c c' : Config) : Prop where
  precision : c'.precision = c.precision
  texts : ∀ p : Property, Option.Rel p.SameText (c.property p) (c'.property p)

variable {p : Property} {c c' : Config} {s : DistributionSettings}

theorem read_of_sameDurations {values values' : List Char} (h : p.SameDurations values values') :
    p.read (Text.trim values) = p.read (Text.trim values') := by
  cases p with
  | timerBuckets =>
    have hvalues : (Text.parts ',' values).mapM readSeconds =
        (Text.parts ',' values').mapM readSeconds :=
      Text.mapM_parts_congr (fun _ _ hspan => ⟨hspan.isEmpty_trim_eq, hspan.readSeconds_eq⟩) h
    show readDurations _ = readDurations _
    unfold readDurations
    rw [splitValues_eq, splitValues_eq, Text.parts_trim (by decide),
      Text.parts_trim (by decide), hvalues]
  | timerMin | timerMax =>
    show readSeconds (Text.trim values) = readSeconds (Text.trim values')
    exact SameSpan.readSeconds_eq h
  | _ =>
    obtain rfl : values = values' := h
    rfl

theorem readEntry_of_sameEntry {entry entry' : List Char} (h : p.SameEntry entry entry') :
    (Text.trim entry).isEmpty = (Text.trim entry').isEmpty ∧
      readEntry p.read (Text.trim entry) = readEntry p.read (Text.trim entry') := by
  cases h with
  | refl => exact ⟨rfl, rfl⟩
  | values hown hvalues =>
    have hmem : ∀ own values : List Char, '=' ∈ own ++ '=' :: values := fun _ _ =>
      List.mem_append_right _ List.mem_cons_self
    refine ⟨?_, ?_⟩
    · rw [Text.isEmpty_trim_of_mem (hmem _ _) (by decide),
        Text.isEmpty_trim_of_mem (hmem _ _) (by decide)]
    · rw [readEntry_trim, readEntry_trim]
      exact readEntry_congr hown hown rfl (read_of_sameDurations hvalues)

theorem parse_of_sameText {text text' : Option String} (h : Option.Rel p.SameText text text')
    {l : PropertyList p.Value} : p.parse text = .ok l ↔ p.parse text' = .ok l := by
  cases h with
  | none => rfl
  | some h =>
    unfold Property.parse
    rw [parse_eq_ok, parse_eq_ok, entryTexts_eq, entryTexts_eq,
      Text.mapM_parts_congr (fun _ _ => readEntry_of_sameEntry) h]

/-- **Spelling does not change settings.** -/
theorem Config.Respelled.ofConfig_iff (h : c.Respelled c') :
    ofConfig c = .ok s ↔ ofConfig c' = .ok s := by
  rw [ofConfig_eq_ok, ofConfig_eq_ok, h.precision]
  exact and_congr_right fun _ => and_congr_right fun _ => forall_congr' fun p =>
    parse_of_sameText (h.texts p)

/-- **Durations agree, whatever their units.** Hours are read exactly, up to the last word; every
text says one amount in one unit, and is refused just when the amount is not a number, below zero,
infinite or a NaN; and no bucket and no bound of a timer depends on how its durations are
spelled. -/
theorem durations_agree :
    (∀ n, 3600000 * n < 2 ^ 53 → ∀ text, WritesHours n text →
      read? text = some ⟨min (n * 3600 * 10 ^ 9) (2 ^ 64 - 1)⟩) ∧
    (∀ text, ∃ amount unit, Says text amount unit ∧ ∀ amount' unit', Says text amount' unit' →
      unit' = unit ∧ Text.trim amount' = Text.trim amount) ∧
    (∀ text amount unit, Says text amount unit → (read? text = none ↔ NoAmount amount)) ∧
    ∀ c c' : Config, c.Respelled c' → ∀ s, ofConfig c = .ok s ↔ ofConfig c' = .ok s := by
  refine ⟨fun _ hn _ h => h.read?_eq hn, fun text => ?_, fun _ _ _ h => h.read?_eq_none_iff,
    fun _ _ h _ => h.ofConfig_iff⟩
  obtain ⟨amount, unit, h⟩ := exists_amount text
  exact ⟨amount, unit, h, fun _ _ h' => h'.unique h⟩

/-- An hour in minutes, more hours than a word has nanoseconds for, an amount that is no number, and
buckets with an hour in two spellings. -/
theorem durations_agree_hours :
    read? " 60 m".toList = some ⟨3600000000000⟩ ∧ read? "5124096h".toList = some ⟨2 ^ 64 - 1⟩ ∧
    read? "nan h".toList = none ∧
    ∀ s, ofConfig { timerBuckets := some "*=1h,5s" } = .ok s ↔
      ofConfig { timerBuckets := some "*=3600000 ,5s" } = .ok s := by
  obtain ⟨hhours, -, hrefused, hspelled⟩ := durations_agree
  have hminutes : WritesHours 1 " 60 m".toList :=
    ⟨("m", 60), by decide, "60".toList, " ".toList, " ".toList, [],
    ⟨by decide, by decide, by decide⟩, by decide, by decide, rfl, by decide⟩
  have hmany : WritesHours 5124096 "5124096h".toList :=
    ⟨("h", 1), by decide, "5124096".toList, [], [], [], ⟨by decide, by decide, by decide⟩, rfl, rfl,
    rfl, by decide⟩
  have hnan : Says "nan h".toList "nan".toList ("h", 3600000000000) :=
    ⟨by decide, ⟨[], " ".toList, [], rfl, by decide, rfl, by decide⟩, by decide⟩
  have hhour : WritesHours 1 "1h".toList := writesHours_digitsOf 1 (u := ("h", 1)) (by decide)
  have hmillis : WritesHours 1 "3600000 ".toList :=
    ⟨("", 3600000), by decide, "3600000".toList, [], " ".toList, [],
    ⟨by decide, by decide, by decide⟩, rfl, by decide, rfl, by decide⟩
  refine ⟨hhours 1 (by decide) _ hminutes, hhours 5124096 (by decide) _ hmany,
    (hrefused _ _ _ hnan).mpr (.nan (x := .nan) (by decide) rfl), hspelled _ _ ⟨rfl, fun p => ?_⟩⟩
  cases p with
  | timerBuckets =>
    have hvalues : Property.timerBuckets.SameDurations "1h,5s".toList "3600000 ,5s".toList :=
      .cons (hhour.sameSpan (by decide) hmillis) (.cons (.refl _) .nil)
    have hentry : Property.timerBuckets.SameEntry ("*".toList ++ '=' :: "1h,5s".toList)
        ("*".toList ++ '=' :: "3600000 ,5s".toList) := .values (by decide) hvalues
    exact .some (.cons hentry .nil)
  | _ => exact .none

end Telemetry
