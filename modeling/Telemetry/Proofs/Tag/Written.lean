import Telemetry.Proofs.Directory.Refusals
import Telemetry.Proofs.Tag.Reader

/-!
# Writing global tags

`writeGlobalTags` writes tags as a text: `key=value` pairs between commas, with a backslash before
every comma and equals sign of a value (specification, 6.2). The letters of a written value are
those of the value, its separators `guarded` (`spell_guarded`), so the cuts fall between the pairs
and nowhere else (`pieces_write`) and the reading releases what was guarded.

* `parse_written`: what was written is read back, where the backslashes of the values stand in pairs
  before separators and at the end;
* `Paired` values are also all that is ever read: before a separator backslashes stand in pairs
  (`paired_of_parse`).
-/

namespace Telemetry

open Letter

/-- The value with a backslash before every separator. -/
def guardValue (value : List Char) : List Char :=
  value.flatMap fun c => if isSeparator c then ['\\', c] else [c]

/-- A tag as a pair of the text of global tags. -/
def Tag.written (t : Tag) : List Char := t.key.text.toList ++ '=' :: guardValue t.value.toList

/-- The text of global tags. -/
def writeGlobalTags (tags : List Tag) : String :=
  String.ofList (Text.join ',' (tags.map Tag.written))

/-- What comes next is a comma or an equals sign. -/
def SeparatorNext (next : Option Char) : Prop := next = some ',' ∨ next = some '='

/-- What comes next is a separator, or nothing does. -/
def BoundaryNext (next : Option Char) : Prop := next = none ∨ SeparatorNext next

instance : DecidablePred SeparatorNext := fun next =>
  inferInstanceAs (Decidable (next = some ',' ∨ next = some '='))

instance : DecidablePred BoundaryNext := fun next =>
  inferInstanceAs (Decidable (next = none ∨ SeparatorNext next))

theorem separatorNext_iff {c : Char} : SeparatorNext (some c) ↔ isSeparator c = true := by
  simp [SeparatorNext, isSeparator]

variable {t : Tag} {tags : List Tag} {value : List Char} {p : List Letter} {input : String}

namespace GlobalTags

/-! ## Letters of a written text -/

/-- The letters of a pair as it is written. -/
def written (t : Tag) : List Letter :=
  t.key.text.toList.map plain ++ plain '=' :: (letters t.value.toList).map guarded

theorem paired_letters (h : Paired BoundaryNext value) :
    (∀ c, isSeparator c = true → taken c ∉ letters value) ∧ plain '\\' ∉ letters value := by
  have htight := paired_iff.mp h
  exact ⟨fun c hc hmem => htight _ hmem (.inr (separatorNext_iff.mpr hc)),
    fun hmem => htight _ hmem ⟨rfl, .inl rfl⟩⟩

/-- **The letters of a guarded value** are those of the value, guarded. -/
theorem spell_guarded (h : Paired BoundaryNext value) :
    spell ((letters value).map guarded) = guardValue value := by
  obtain ⟨htaken, -⟩ := paired_letters h
  have hletter : ∀ l ∈ letters value, l.guarded.text = guardValue l.text := by
    intro l hl
    cases l with
    | plain c =>
      by_cases hc : isSeparator c <;> simp [guarded, text, guardValue, hc]
    | taken c =>
      have hc : ¬ isSeparator c = true := fun hc => htaken c hc hl
      have hbackslash : isSeparator '\\' = false := rfl
      simp [guarded, text, guardValue, hc, hbackslash]
  calc spell ((letters value).map guarded)
      = (letters value).flatMap fun l => l.guarded.text := List.flatMap_map ..
    _ = (letters value).flatMap fun l => guardValue l.text := List.flatMap_congr hletter
    _ = guardValue (spell (letters value)) := (List.flatMap_assoc ..).symm
    _ = guardValue value := by rw [spell_letters]

theorem spell_map_plain (cs : List Char) : spell (cs.map plain) = cs := by
  induction cs with
  | nil => rfl
  | cons c cs ih => exact congrArg (c :: ·) ih

theorem spell_written (h : Paired BoundaryNext t.value.toList) : spell (written t) = t.written := by
  unfold written
  rw [spell_append, spell_map_plain, spell_cons, spell_guarded h]
  rfl

/-- The characters of a key are letters, digits and underscores. -/
theorem isNamePart_of_key (name : TagName) : ∀ c ∈ name.text.toList, isNamePart c = true := by
  intro c hc
  have hvalid := name.valid
  unfold isTagName at hvalid
  split at hvalid
  · rename_i hnil
    rw [hnil] at hc
    exact absurd hc List.not_mem_nil
  · rename_i d r hcons
    rw [hcons] at hc
    obtain ⟨hstart, hrest⟩ := (Bool.and_eq_true ..).mp hvalid
    obtain rfl | hc := List.mem_cons.mp hc
    · unfold isNameStart at hstart
      unfold isNamePart Char.isAlphanum
      obtain hstart | hstart := (Bool.or_eq_true ..).mp hstart
      · rw [hstart]
        rfl
      · rw [hstart, Bool.or_true]
    · exact List.all_eq_true.mp hrest c hc

theorem key_ne_nil (name : TagName) : name.text.toList ≠ [] := by
  intro hnil
  have hvalid := name.valid
  unfold isTagName at hvalid
  rw [hnil] at hvalid
  cases hvalid

theorem not_mem_key (name : TagName) {c : Char} (hc : isNamePart c = false) :
    plain c ∉ name.text.toList.map plain := by
  intro hmem
  obtain ⟨d, hd, heq⟩ := List.mem_map.mp hmem
  cases heq
  rw [isNamePart_of_key name c hd] at hc
  cases hc

theorem not_mem_guarded {c : Char} (hc : isSeparator c = true) (ls : List Letter) :
    plain c ∉ ls.map guarded := by
  intro hmem
  obtain ⟨l, -, heq⟩ := List.mem_map.mp hmem
  exact guarded_ne_plain hc l heq

theorem comma_not_mem_written (t : Tag) : plain ',' ∉ written t := by
  unfold written
  intro hmem
  obtain hmem | hmem := List.mem_append.mp hmem
  · exact not_mem_key t.key rfl hmem
  · obtain heq | hmem := List.mem_cons.mp hmem
    · cases heq
    · exact not_mem_guarded rfl _ hmem

/-- No backslash is left over in a pair. -/
theorem backslash_not_mem_written (h : Paired BoundaryNext t.value.toList) :
    plain '\\' ∉ written t := by
  unfold written
  intro hmem
  obtain hmem | hmem := List.mem_append.mp hmem
  · exact not_mem_key t.key rfl hmem
  · obtain heq | hmem := List.mem_cons.mp hmem
    · cases heq
    · obtain ⟨l, hl, heq⟩ := List.mem_map.mp hmem
      exact (paired_letters h).2 (eq_backslash_of_guarded heq ▸ hl)

theorem join_spell (pieces : List (List Letter)) :
    Text.join ',' (pieces.map spell) = spell ([plain ','].intercalate pieces) := by
  match pieces with
  | [] => rfl
  | [p] => simp [Text.join, List.intercalate]
  | p :: q :: pieces =>
    have ih := join_spell (q :: pieces)
    rw [List.map_cons, List.map_cons, Text.join_cons _ _ (List.cons_ne_nil _ _),
      ← List.map_cons, ih, List.intercalate_cons_cons]
    simp [text]

theorem mem_intercalate {x : Letter} {pieces : List (List Letter)}
    (h : x ∈ [plain ','].intercalate pieces) : x = plain ',' ∨ ∃ p ∈ pieces, x ∈ p := by
  match pieces with
  | [] => exact absurd h List.not_mem_nil
  | [p] =>
    have h : x ∈ p := by simpa [List.intercalate] using h
    exact .inr ⟨p, List.mem_cons_self, h⟩
  | p :: q :: pieces =>
    rw [List.intercalate_cons_cons, List.append_assoc] at h
    obtain h | h := List.mem_append.mp h
    · exact .inr ⟨p, List.mem_cons_self, h⟩
    · obtain rfl | h := List.mem_cons.mp h
      · exact .inl rfl
      · obtain h | ⟨p', hp', h⟩ := mem_intercalate h
        · exact .inl h
        · exact .inr ⟨p', List.mem_cons_of_mem p hp', h⟩

/-- **The text is cut between the pairs that were written**, and nowhere else. -/
theorem pieces_write (hne : tags ≠ []) (h : ∀ t ∈ tags, Paired BoundaryNext t.value.toList) :
    pieces (writeGlobalTags tags) = tags.map written := by
  have htext : (writeGlobalTags tags).toList =
      spell ([plain ','].intercalate (tags.map written)) := by
    rw [writeGlobalTags, String.toList_ofList, ← join_spell, List.map_map]
    exact congrArg (Text.join ',') (List.map_congr_left fun t ht => (spell_written (h t ht)).symm)
  have hlexed : Lexed ([plain ','].intercalate (tags.map written)) := by
    refine lexed_of_not_mem fun hmem => ?_
    obtain heq | ⟨p, hp, hmem⟩ := mem_intercalate hmem
    · cases heq
    · obtain ⟨t, ht, rfl⟩ := List.mem_map.mp hp
      exact backslash_not_mem_written (h t ht) hmem
  rw [pieces, htext, letters_spell hlexed, List.splitOn_intercalate]
  · intro p hp
    obtain ⟨t, -, rfl⟩ := List.mem_map.mp hp
    exact comma_not_mem_written t
  · simpa using hne

/-- A written pair is read as its tag. -/
theorem readPiece?_written (h : Paired BoundaryNext t.value.toList) (hvalue : t.value ≠ "") :
    readPiece? none [] (written t) = some (t.key, t.value) := by
  have hsplit : (written t).splitOn (plain '=') =
      [t.key.text.toList.map plain, (letters t.value.toList).map guarded] := by
    have hwritten : written t = [plain '='].intercalate
        [t.key.text.toList.map plain, (letters t.value.toList).map guarded] := by
      simp [written, List.intercalate]
    rw [hwritten, List.splitOn_intercalate _ _ (List.cons_ne_nil _ _)]
    intro ls hls
    obtain rfl | hls := List.mem_cons.mp hls
    · exact not_mem_key t.key rfl
    · rw [List.mem_singleton.mp hls]
      exact not_mem_guarded rfl _
  have hkey : spell ((t.key.text.toList.map plain).map release) = t.key.text.toList := by
    rw [List.map_map]
    exact spell_map_plain _
  have hreleased : spell (((letters t.value.toList).map guarded).map release) = t.value.toList := by
    obtain ⟨htaken, -⟩ := paired_letters h
    rw [List.map_map, List.map_congr_left (g := id), List.map_id, spell_letters]
    exact fun l hl => release_guarded fun c hc e => htaken c hc (e ▸ hl)
  rw [readPiece?_eq, hsplit]
  simp only [List.nil_append]
  rw [hkey, hreleased, close?, Option.bind_some, if_neg, String.ofList_toList, String.ofList_toList]
  · unfold TagName.of?
    rw [dif_pos t.key.valid]
    rfl
  · simp [key_ne_nil t.key, hvalue]

theorem isBlank_of_isNamePart {c : Char} (h : isNamePart c = true) : Text.isBlank c = false := by
  have hrange : 48 ≤ c.toNat ∧ c.toNat ≤ 122 := by
    delta isNamePart Char.isAlphanum Char.isAlpha Char.isUpper Char.isLower Char.isDigit at h
    simp only [Bool.or_eq_true, Bool.and_eq_true, decide_eq_true_eq, beq_iff_eq, ge_iff_le,
      UInt32.le_iff_toNat_le] at h
    obtain ((h | h) | h) | rfl := h
    · exact ⟨Nat.le_trans (by decide) h.1, Nat.le_trans h.2 (by decide)⟩
    · exact ⟨Nat.le_trans (by decide) h.1, h.2⟩
    · exact ⟨h.1, Nat.le_trans h.2 (by decide)⟩
    · decide
  simp only [Text.isBlank, Text.blankRanges, List.any_cons, List.any_nil, Bool.or_false,
    Bool.or_eq_false_iff, Bool.and_eq_false_iff, decide_eq_false_iff_not]
  omega

theorem not_blank_write (hne : tags ≠ []) :
    (writeGlobalTags tags).toList.all Text.isBlank = false := by
  obtain ⟨t, tags, rfl⟩ := List.exists_cons_of_ne_nil hne
  -- the text begins with the first key
  obtain ⟨c, key, hkey⟩ := List.exists_cons_of_ne_nil (key_ne_nil t.key)
  have hname : isNamePart c = true := isNamePart_of_key t.key c (hkey ▸ List.mem_cons_self)
  have hfirst : c ∈ t.written := by
    unfold Tag.written
    rw [hkey]
    exact List.mem_append_left _ List.mem_cons_self
  refine List.all_eq_false.mpr ⟨c, ?_, by simp [isBlank_of_isNamePart hname]⟩
  rw [writeGlobalTags, String.toList_ofList, List.map_cons]
  cases tags with
  | nil => simpa [Text.join, List.intercalate] using hfirst
  | cons u tags =>
    rw [Text.join_cons _ _ (by simp)]
    exact List.mem_append_left _ hfirst

/-- The tags of written pairs are put in one after the other. -/
theorem foldlM_written (h : ∀ t ∈ tags, t.value ≠ "" ∧ Paired BoundaryNext t.value.toList)
    (read : Tags) :
    (tags.map written).foldlM addPiece? read =
      some ((tags.map fun t => (t.key, t.value)).foldl (fun m e => m.insert e.1 e.2) read) := by
  induction tags generalizing read with
  | nil => rfl
  | cons t tags ih =>
    obtain ⟨⟨hvalue, hpaired⟩, hrest⟩ := List.forall_mem_cons.mp h
    rw [List.map_cons, List.foldlM_cons, addPiece?, readPiece?_written hpaired hvalue]
    exact ih hrest _

/-- **What was written is read back.** -/
theorem parse_written (h : ∀ t ∈ tags, t.value ≠ "" ∧ Paired BoundaryNext t.value.toList) :
    parseGlobalTags (writeGlobalTags tags) = .ok (Tags.ofList tags) := by
  have hread : (parseGlobalTags (writeGlobalTags tags)).toOption = some (Tags.ofList tags) := by
    rw [toOption_parseGlobalTags]
    by_cases hne : tags = []
    · subst hne
      rfl
    · rw [not_blank_write hne, pieces_write hne fun t ht => (h t ht).2]
      exact foldlM_written h ∅
  cases hparse : parseGlobalTags (writeGlobalTags tags) with
  | ok read =>
    rw [hparse] at hread
    exact congrArg Except.ok (Option.some.inj hread)
  | error e =>
    rw [hparse] at hread
    cases hread

/-! ## Values that are read -/

theorem paired_of_readPiece (hlexed : Lexed p) (hcomma : plain ',' ∉ p) {e : TagName × String}
    (h : readPiece? none [] p = some e) : Paired SeparatorNext e.2.toList := by
  rw [readPiece?_eq] at h
  split at h
  · rename_i key value hsplit
    have hvalue : value ∈ p.splitOn (plain '=') := by
      rw [hsplit]
      exact List.mem_cons_of_mem _ List.mem_cons_self
    obtain ⟨hlexed, -⟩ := part_of_piece hlexed hcomma hvalue
    unfold close? at h
    rw [Option.bind_some] at h
    split at h
    · cases h
    · obtain ⟨name, -, rfl⟩ := Option.map_eq_some_iff.mp h
      rw [String.toList_ofList]
      refine paired_iff.mpr fun l hl hloose => ?_
      rw [letters_spell (hlexed.map fun l => eq_backslash_of_release)] at hl
      obtain ⟨l', -, rfl⟩ := List.mem_map.mp hl
      cases hl' : l'.release with
      | taken c =>
        rw [hl'] at hloose
        exact release_ne_taken (separatorNext_iff.mp hloose) l' hl'
      | plain c =>
        rw [hl'] at hloose
        obtain ⟨-, hnone | hnone⟩ := hloose <;> cases hnone
  · cases h

theorem paired_of_foldlM {ps : List (List Letter)} (hps : ∀ p ∈ ps, Lexed p ∧ plain ',' ∉ p)
    {before read : Tags} (hbefore : ∀ k v, before.get? k = some v → Paired SeparatorNext v.toList)
    (h : ps.foldlM addPiece? before = some read) :
    ∀ k v, read.get? k = some v → Paired SeparatorNext v.toList := by
  induction ps generalizing before with
  | nil =>
    cases h
    exact hbefore
  | cons p ps ih =>
    obtain ⟨⟨hlexed, hcomma⟩, hps⟩ := List.forall_mem_cons.mp hps
    rw [List.foldlM_cons, addPiece?] at h
    cases hp : readPiece? none [] p with
    | none =>
      rw [hp] at h
      cases h
    | some e =>
      rw [hp] at h
      refine ih hps (fun k v hv => ?_) h
      rw [SortedMap.get?_insert] at hv
      split at hv
      · cases hv
        exact paired_of_readPiece hlexed hcomma hp
      · exact hbefore k v hv

/-- **In a value that was read, backslashes stand in pairs before separators.** -/
theorem paired_of_parse {read : Tags} (h : parseGlobalTags input = .ok read)
    {k : TagName} {v : String} (hv : read.get? k = some v) : Paired SeparatorNext v.toList := by
  have hread : (parseGlobalTags input).toOption = some read := by rw [h]; rfl
  rw [toOption_parseGlobalTags] at hread
  split at hread
  · cases hread
    cases hv
  · have hnone : ∀ k v, (∅ : Tags).get? k = some v → Paired SeparatorNext v.toList := nofun
    exact paired_of_foldlM (fun p => lexed_of_piece) hnone hread k v hv

end GlobalTags

/-- **Escaped global tags are read back**, with the last value of a repeated key, and in every value
that is read the backslashes before separators stand in pairs. -/
theorem globalTags_roundTrip :
    (∀ tags : List Tag, (∀ t ∈ tags, t.value ≠ "" ∧ Paired BoundaryNext t.value.toList) →
      ∃ read, parseGlobalTags (writeGlobalTags tags) = .ok read ∧
        ∀ k, read.get? k = ((tags.filter fun t => t.key = k).getLast?).map (·.value)) ∧
    ∀ input read, parseGlobalTags input = .ok read →
      ∀ k v, read.get? k = some v → Paired SeparatorNext v.toList :=
  ⟨fun tags h => ⟨Tags.ofList tags, GlobalTags.parse_written h, Tags.get?_ofList tags⟩,
    fun _ _ h _ _ hv => GlobalTags.paired_of_parse h hv⟩

/-- A region that is given twice, and a path with separators after backslashes. -/
theorem globalTags_roundTrip_repeated :
    let region : TagName := ⟨"region", by decide⟩
    let tags : List Tag :=
      [⟨region, "us,east"⟩, ⟨⟨"path", by decide⟩, "a\\\\=b\\c,\\\\"⟩, ⟨region, "eu"⟩]
    writeGlobalTags tags = "region=us\\,east,path=a\\\\\\=b\\c\\,\\\\,region=eu" ∧
      (∀ t ∈ tags, t.value ≠ "" ∧ Paired BoundaryNext t.value.toList) ∧
      ∃ read, parseGlobalTags (writeGlobalTags tags) = .ok read ∧ read.get? region = some "eu" ∧
        Paired SeparatorNext "eu".toList := by
  intro region tags
  have htags : ∀ t ∈ tags, t.value ≠ "" ∧ Paired BoundaryNext t.value.toList := by decide
  obtain ⟨hwritten, hread⟩ := globalTags_roundTrip
  obtain ⟨read, hparse, hget⟩ := hwritten tags htags
  have hregion : read.get? region = some "eu" := (hget region).trans (by decide)
  exact ⟨by decide, htags, read, hparse, hregion, hread _ read hparse region _ hregion⟩

end Telemetry
