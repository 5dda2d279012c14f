import Telemetry.Distribution.Spec
import Telemetry.Proofs.Outcomes
import Telemetry.Proofs.Text.Parts

/-!
# Entries of distribution properties

An entry is for a name when its own name is that name, or ends in `*` after a start of it
(`EntryFor`). The list that a text parses to has one element for every entry, in order, which covers
the names its entry is for (`readEntry_covers`), so what is found for a name is the value of the
last entry that is for it (`find?_of_decides`, `find?_of_not_named`), and of two texts with a
semicolon between them the second one goes first (`find?_append`).
-/

namespace Telemetry

theorem splitValues_eq (cs : List Char) : splitValues cs = Text.parts ',' cs := rfl

/-- The entry is for the name: its own name, without the blanks around it, is the name, or ends in
`*` after a start of the name. -/
def EntryFor (name : String) (entry : List Char) : Prop :=
  ∃ own values, entry = own ++ '=' :: values ∧ '=' ∉ own ∧
    (Text.trim own = name.toList ∨ ∃ start, Text.trim own = start ++ ['*'] ∧ start <+: name.toList)

theorem NamePattern.of_covers (cs : List Char) (name : String) : (NamePattern.of cs).covers name ↔
    cs = name.toList ∨ ∃ start, cs = start ++ ['*'] ∧ start <+: name.toList := by
  unfold NamePattern.of
  cases hcs : Text.before? ['*'] cs with
  | none =>
    have hstar : ∀ start, cs ≠ start ++ ['*'] := fun start h =>
      absurd (Text.before?_eq_some_iff.mpr h) (by rw [hcs]; exact nofun)
    simp [covers, hstar]
  | some start =>
    obtain rfl := Text.before?_eq_some_iff.mp hcs
    have hcovers : (NamePattern.startingWith start).covers name ↔ start <+: name.toList := by
      unfold covers
      rw [Option.isSome_iff_exists]
      exact exists_congr fun r => Text.after?_eq_some_iff.trans eq_comm
    rw [hcovers]
    constructor
    · intro h
      exact .inr ⟨start, rfl, h⟩
    · rintro (h | ⟨start', h, hpre⟩)
      · exact ⟨['*'], h⟩
      · rwa [List.append_cancel_right h]

theorem entryFor_iff (name : String) (entry : List Char) : EntryFor name entry ↔
    ((Text.cut? '=' entry).any fun cut => (NamePattern.of (Text.trim cut.1)).covers name) =
    true := by
  rw [Option.any_eq_true]
  constructor
  · rintro ⟨own, values, hentry, hown, hname⟩
    refine ⟨(own, values), Text.cut?_eq_some_iff.mpr ⟨hentry, hown⟩, ?_⟩
    exact (NamePattern.of_covers (Text.trim own) name).mpr hname
  · rintro ⟨⟨own, values⟩, hcut, hcovers⟩
    obtain ⟨hentry, hown⟩ := Text.cut?_eq_some_iff.mp hcut
    exact ⟨own, values, hentry, hown, (NamePattern.of_covers (Text.trim own) name).mp hcovers⟩

instance (name : String) (entry : List Char) : Decidable (EntryFor name entry) :=
  decidable_of_iff _ (entryFor_iff name entry).symm

namespace PropertyList

section

variable {α : Type} {read : List Char → Except EntryFault α} {l l' : PropertyList α} {name : String}
  {entry : List Char} {e : NamePattern × α}

/-! ## One entry -/

theorem readEntry_eq_ok : readEntry read entry = .ok e ↔
    ∃ own values, entry = own ++ '=' :: values ∧ '=' ∉ own ∧ Text.trim own ≠ [] ∧
      read (Text.trim values) = .ok e.2 ∧ e.1 = NamePattern.of (Text.trim own) := by
  unfold readEntry
  cases hcut : Text.cut? '=' entry with
  | none =>
    refine ⟨nofun, fun ⟨own, values, hentry, hown, _⟩ => ?_⟩
    rw [Text.cut?_eq_some_iff.mpr ⟨hentry, hown⟩] at hcut
    cases hcut
  | some cut =>
    obtain ⟨own, values⟩ := cut
    have hsame : ∀ {own' values'}, entry = own' ++ '=' :: values' → '=' ∉ own' →
        own' = own ∧ values' = values := by
      intro own' values' hentry hown
      rw [Text.cut?_eq_some_iff.mpr ⟨hentry, hown⟩] at hcut
      exact Prod.mk.inj (Option.some.inj hcut)
    obtain ⟨hentry, hown⟩ := Text.cut?_eq_some_iff.mp hcut
    dsimp only
    split
    · rename_i hnil
      refine ⟨nofun, fun ⟨own', values', hentry', hown', hne, _⟩ => ?_⟩
      obtain ⟨rfl, rfl⟩ := hsame hentry' hown'
      exact absurd (List.isEmpty_iff.mp hnil) hne
    · rename_i hne
      constructor
      · intro h
        obtain ⟨v, hv, rfl⟩ := ok_of_map_ok h
        exact ⟨own, values, hentry, hown, fun hnil => hne (List.isEmpty_iff.mpr hnil), hv, rfl⟩
      · rintro ⟨own', values', hentry', hown', -, hv, hpattern⟩
        obtain ⟨rfl, rfl⟩ := hsame hentry' hown'
        rw [hv, ← hpattern]
        rfl

/-- **An element of the list covers the names that its entry is for.** -/
theorem readEntry_covers (h : readEntry read entry = .ok e) :
    e.1.covers name ↔ EntryFor name entry := by
  obtain ⟨own, values, hentry, hown, -, -, hpattern⟩ := readEntry_eq_ok.mp h
  rw [hpattern, NamePattern.of_covers]
  constructor
  · intro hname
    exact ⟨own, values, hentry, hown, hname⟩
  · rintro ⟨own', values', hentry', hown', hname⟩
    have hcut := Text.cut?_eq_some_iff.mpr ⟨hentry, hown⟩
    rw [Text.cut?_eq_some_iff.mpr ⟨hentry', hown'⟩] at hcut
    obtain ⟨rfl, rfl⟩ := Prod.mk.inj (Option.some.inj hcut)
    exact hname

/-- An entry is read by its name, trimmed, and by what its values are read as. -/
theorem readEntry_congr {own own' values values' : List Char} (hown : '=' ∉ own)
    (hown' : '=' ∉ own') (hname : Text.trim own = Text.trim own')
    (hread : read (Text.trim values) = read (Text.trim values')) :
    readEntry read (own ++ '=' :: values) = readEntry read (own' ++ '=' :: values') := by
  unfold readEntry
  rw [Text.cut?_eq_some_iff.mpr ⟨rfl, hown⟩, Text.cut?_eq_some_iff.mpr ⟨rfl, hown'⟩]
  dsimp only
  rw [hname, hread]

/-- Blanks around the name of an entry and around its values do not count. -/
theorem readEntry_pad {w₁ w₂ w₃ w₄ own values : List Char} (h₁ : w₁.all Text.isBlank)
    (h₂ : w₂.all Text.isBlank) (h₃ : w₃.all Text.isBlank) (h₄ : w₄.all Text.isBlank)
    (hown : '=' ∉ own) :
    readEntry read (w₁ ++ own ++ w₂ ++ '=' :: (w₃ ++ values ++ w₄)) =
      readEntry read (own ++ '=' :: values) := by
  have hblank : ∀ {w : List Char}, w.all Text.isBlank → '=' ∉ w := Text.not_mem_of_blank (by decide)
  have hpad : '=' ∉ w₁ ++ own ++ w₂ := by
    rw [List.mem_append, List.mem_append]
    rintro ((h | h) | h)
    exacts [hblank h₁ h, hown h, hblank h₂ h]
  exact readEntry_congr hpad hown (Text.trim_pad h₁ h₂ own)
    (congrArg read (Text.trim_pad h₃ h₄ values))

/-- So an entry is read as it was before it was trimmed. -/
theorem readEntry_trim (entry : List Char) :
    readEntry read (Text.trim entry) = readEntry read entry := by
  obtain ⟨w, w', hw, hw', hentry⟩ := Text.exists_pad entry
  generalize Text.trim entry = cs at hentry ⊢
  subst hentry
  cases hcut : Text.cut? '=' cs with
  | none =>
    have hcs : '=' ∉ w ++ cs ++ w' := by
      have hblank : ∀ {w : List Char}, w.all Text.isBlank → '=' ∉ w :=
        Text.not_mem_of_blank (by decide)
      rw [List.mem_append, List.mem_append]
      rintro ((h | h) | h)
      exacts [hblank hw h, Text.cut?_eq_none_iff.mp hcut h, hblank hw' h]
    unfold readEntry
    rw [hcut, Text.cut?_eq_none_iff.mpr hcs]
  | some cut =>
    obtain ⟨rfl, hown⟩ := Text.cut?_eq_some_iff.mp hcut
    have hpad : readEntry read (w ++ cut.1 ++ [] ++ '=' :: ([] ++ cut.2 ++ w')) =
        readEntry read (cut.1 ++ '=' :: cut.2) := readEntry_pad hw rfl rfl hw' hown
    simp only [List.append_nil, List.nil_append] at hpad
    rw [← hpad]
    simp

/-! ## What is found -/

theorem find?_append (l l' : PropertyList α) (name : String) :
    find? (l ++ l') name = (find? l' name).or (find? l name) := by
  unfold find?
  rw [List.reverse_append, List.find?_append]
  cases l'.reverse.find? fun e => e.1.covers name <;> rfl

theorem find?_eq_none_iff : find? l name = none ↔ ∀ e ∈ l, ¬ e.1.covers name := by
  unfold find?
  rw [Option.map_eq_none_iff, List.find?_eq_none]
  exact forall_congr' fun e => imp_congr_left List.mem_reverse

/-- What is found is an element's value. -/
theorem mem_of_find? {v : α} (h : find? l name = some v) : ∃ e ∈ l, e.2 = v := by
  obtain ⟨e, he, rfl⟩ := Option.map_eq_some_iff.mp h
  exact ⟨e, List.mem_reverse.mp (List.mem_of_find?_eq_some he), rfl⟩

end

/-! ## Texts -/

section

variable {α : Type} {p : Property} {read : List Char → Except EntryFault α} {l : PropertyList α}
  {name : String} {text a b : String}

theorem entryTexts_eq (text : String) : entryTexts text = Text.parts ';' text.toList := rfl

theorem entryTexts_append (a b : String) :
    entryTexts (a ++ ";" ++ b) = entryTexts a ++ entryTexts b := by
  rw [entryTexts_eq, String.toList_append, String.toList_append, List.append_assoc]
  exact Text.parts_append ';' a.toList b.toList

/-- Some entry of the text is for the name. -/
def Named (text : String) (name : String) : Prop := ∃ entry ∈ entryTexts text, EntryFor name entry

instance (text name : String) : Decidable (Named text name) :=
  inferInstanceAs (Decidable (∃ entry ∈ entryTexts text, EntryFor name entry))

/-- The entry is the last one of the text that is for the name. -/
def Decides (text : String) (name : String) (entry : List Char) : Prop :=
  ∃ before after, entryTexts text = before ++ entry :: after ∧ EntryFor name entry ∧
    ∀ other ∈ after, ¬ EntryFor name other

/-- The elements of a parsed list are its entries, read. -/
theorem parse_eq_ok : parse p read (some text) = .ok l ↔
    (entryTexts text).mapM (readEntry read) = .ok l :=
  mapM_mapError_ok

theorem find?_of_not_named (h : parse p read (some text) = .ok l) (hname : ¬ Named text name) :
    find? l name = none := by
  refine find?_eq_none_iff.mpr fun e he hcovers => hname ?_
  obtain ⟨entry, hmem, hentry⟩ := mem_of_mapM (parse_eq_ok.mp h) he
  exact ⟨entry, hmem, (readEntry_covers hentry).mp hcovers⟩

theorem find?_of_named (h : parse p read (some text) = .ok l) (hname : Named text name) :
    ∃ v, find? l name = some v := by
  obtain ⟨entry, hmem, hfor⟩ := hname
  obtain ⟨e, he, hentry⟩ := mapM_mem (parse_eq_ok.mp h) hmem
  refine Option.ne_none_iff_exists'.mp fun hnone => ?_
  exact find?_eq_none_iff.mp hnone e he ((readEntry_covers hentry).mpr hfor)

/-- **The last entry that is for a name gives its value.** -/
theorem find?_of_decides {entry : List Char} (h : parse p read (some text) = .ok l)
    (hdecides : Decides text name entry) :
    ∃ own values v, entry = own ++ '=' :: values ∧ '=' ∉ own ∧ read (Text.trim values) = .ok v ∧
      find? l name = some v := by
  obtain ⟨before, after, hentries, hfor, hafter⟩ := hdecides
  have hl := parse_eq_ok.mp h
  rw [hentries] at hl
  obtain ⟨lb, rest, -, hrest, rfl⟩ := mapM_append_ok.mp hl
  obtain ⟨e, la, hentry, hla, rfl⟩ := mapM_cons_ok.mp hrest
  obtain ⟨own, values, hsplit, hown, -, hread, -⟩ := readEntry_eq_ok.mp hentry
  refine ⟨own, values, e.2, hsplit, hown, hread, ?_⟩
  have hnone : find? la name = none := find?_eq_none_iff.mpr fun other hother hcovers => by
    obtain ⟨text', hmem, htext'⟩ := mem_of_mapM hla hother
    exact hafter text' hmem ((readEntry_covers htext').mp hcovers)
  have hself : find? [e] name = some e.2 := by
    simp [find?, (readEntry_covers hentry).mpr hfor]
  rw [find?_append, ← List.singleton_append, find?_append, hnone, hself]
  rfl

end

end PropertyList

end Telemetry
