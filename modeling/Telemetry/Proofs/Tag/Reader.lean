import Telemetry.Proofs.Tag.Letters
import Telemetry.Proofs.Text.Parts

/-!
# Global tags in one pass

`GlobalTags.read?` reads a text of global tags from left to right, character by character, and keeps
no more than the tags of the pairs that ended, the key of the present pair and the characters read
since. What is cut and replaced in three passes is the same (`parseGlobalTags_one_pass`): both read
the pieces between the plain commas of the text's letters, one after the other (`read?_eq`,
`toOption_parseGlobalTags`).
-/

namespace Telemetry

open Letter

namespace GlobalTags

/-- End a pair with its value, once its key was read: neither may be empty, and the key is a
name. -/
def close? (key : Option (List Char)) (value : List Char) : Option (TagName × String) :=
  key.bind fun key =>
    if key.isEmpty || value.isEmpty then none
    else (TagName.of? (String.ofList key)).map fun name => (name, String.ofList value)

/-- Read from left to right: `tags` are those of the pairs that ended, `key` is the key of the
present pair once its equals sign was read, `part` is what was read since. -/
def readFrom? (tags : Tags) (key : Option (List Char)) (part : List Char) : List Char → Option Tags
  | '\\' :: c :: r => readFrom? tags key (part ++ if isSeparator c then [c] else ['\\', c]) r
  | c :: r =>
    if c = ',' then
      (close? key part).bind fun e => readFrom? (tags.insert e.1 e.2) none [] r
    else if c = '=' then
      if key.isSome then none else readFrom? tags (some part) [] r
    else readFrom? tags key (part ++ [c]) r
  | [] => (close? key part).map fun e => tags.insert e.1 e.2

/-- The tags that a text holds; a blank one holds none. -/
def read? (input : String) : Option Tags :=
  if input.toList.all Text.isBlank then some ∅ else readFrom? ∅ none [] input.toList

/-- Read one pair by its letters. -/
def readPiece? (key : Option (List Char)) (part : List Char) :
    List Letter → Option (TagName × String)
  | l :: ls =>
    if l = plain '=' then
      if key.isSome then none else readPiece? (some part) [] ls
    else readPiece? key (part ++ l.release.text) ls
  | [] => close? key part

/-- Put the tag of a piece over the others. -/
def addPiece? (tags : Tags) (p : List Letter) : Option Tags :=
  (readPiece? none [] p).map fun e => tags.insert e.1 e.2

/-- The pieces between the plain commas. -/
def pieces (input : String) : List (List Letter) := (letters input.toList).splitOn (plain ',')

variable {ls p : List Letter} {ps : List (List Letter)} {cs : List Char} {tags : Tags}
  {input : String}

/-! ## The reader goes from piece to piece -/

/-- What is left of the present piece is read first, then the others. -/
theorem readFrom?_eq (tags : Tags) (key : Option (List Char)) (part cs : List Char)
    (h : (letters cs).splitOn (plain ',') = p :: ps) :
    readFrom? tags key part cs =
      (readPiece? key part p).bind fun e => ps.foldlM addPiece? (tags.insert e.1 e.2) := by
  fun_induction readFrom? tags key part cs generalizing p ps with
  | case1 tags key part c r ih =>
    have hcomma : taken c ≠ plain ',' := nofun
    have hequals : taken c ≠ plain '=' := nofun
    obtain ⟨p', rfl, heq⟩ := splitOn_cons_inv hcomma h
    rw [ih heq, readPiece?, if_neg hequals, text_release_taken]
  | case2 tags key part r hlast ih =>
    rw [letters_cons (c := ',') nofun, splitOn_cons_self] at h
    obtain ⟨p', ps', heq⟩ := exists_splitOn (plain ',') (letters r)
    rw [heq] at h
    cases h
    rw [readPiece?]
    refine Option.bind_congr fun e _ => ?_
    rw [ih e heq, List.foldlM_cons]
    unfold addPiece?
    cases readPiece? none [] p' <;> rfl
  | case3 tags key part r hkey =>
    have hne : plain '=' ≠ plain ',' := by decide
    rw [letters_cons (c := '=') nofun] at h
    obtain ⟨p', rfl, -⟩ := splitOn_cons_inv hne h
    rw [readPiece?, if_pos rfl, if_pos hkey]
    rfl
  | case4 tags key part r hkey _ _ ih =>
    have hne : plain '=' ≠ plain ',' := by decide
    rw [letters_cons (c := '=') nofun] at h
    obtain ⟨p', rfl, heq⟩ := splitOn_cons_inv hne h
    rw [ih heq, readPiece?, if_pos rfl, if_neg hkey]
  | case5 tags key part c r hlast hcomma hequals ih =>
    have hne : plain c ≠ plain ',' := fun e => hcomma (Letter.plain.inj e)
    rw [letters.eq_2 _ _ hlast] at h
    obtain ⟨p', rfl, heq⟩ := splitOn_cons_inv hne h
    rw [ih heq, readPiece?, if_neg fun e => hequals (Letter.plain.inj e)]
    rfl
  | case6 tags key part =>
    cases h
    cases hclose : close? key part <;> simp [readPiece?, hclose]

/-- **The one-pass reader reads piece after piece.** -/
theorem read?_eq (input : String) : read? input =
    if input.toList.all Text.isBlank then some ∅ else (pieces input).foldlM addPiece? ∅ := by
  unfold read?
  split
  · rfl
  · obtain ⟨p, ps, heq⟩ := exists_splitOn (plain ',') (letters input.toList)
    rw [readFrom?_eq ∅ none [] _ heq, pieces, heq, List.foldlM_cons]
    unfold addPiece?
    cases readPiece? none [] p <;> rfl

/-! ## So do the three passes -/

/-- Once the key was read, the rest of a piece is its value. -/
theorem readPiece?_value (key part : List Char) (ls : List Letter) :
    readPiece? (some key) part ls =
      match ls.splitOn (plain '=') with
      | [value] => close? (some key) (part ++ spell (value.map release))
      | _ => none := by
  induction ls generalizing part with
  | nil =>
    rw [readPiece?, List.splitOn_nil]
    simp
  | cons l ls ih =>
    obtain ⟨q, qs, heq⟩ := exists_splitOn (plain '=') ls
    rw [readPiece?]
    by_cases hl : l = plain '='
    · rw [if_pos hl, hl, splitOn_cons_self, heq]
      rfl
    · rw [if_neg hl, ih, splitOn_cons_of_ne hl, heq]
      cases qs with
      | nil => simp
      | cons => rfl

/-- A piece is one key and one value around its only plain equals sign. -/
theorem readPiece?_eq (part : List Char) (ls : List Letter) :
    readPiece? none part ls =
      match ls.splitOn (plain '=') with
      | [key, value] => close? (some (part ++ spell (key.map release))) (spell (value.map release))
      | _ => none := by
  induction ls generalizing part with
  | nil => rfl
  | cons l ls ih =>
    obtain ⟨q, qs, heq⟩ := exists_splitOn (plain '=') ls
    rw [readPiece?]
    by_cases hl : l = plain '='
    · rw [if_pos hl, if_neg (by decide), readPiece?_value, hl, splitOn_cons_self, heq]
      cases qs with
      | nil => simp
      | cons => rfl
    · rw [if_neg hl, ih, splitOn_cons_of_ne hl, heq]
      cases qs with
      | nil => rfl
      | cons q' qs =>
        cases qs with
        | nil => simp
        | cons => rfl

/-- The parts of a piece have no plain separator, and their letters are those of their texts. -/
theorem part_of_piece (h : Lexed p) (hcomma : plain ',' ∉ p) (hls : ls ∈ p.splitOn (plain '=')) :
    Lexed ls ∧ ∀ c, isSeparator c = true → plain c ∉ ls := by
  obtain ⟨hequals, hsub⟩ := mem_splitOn hls
  have hlexed : Lexed ls := List.IsChain.infix h hsub
  refine ⟨hlexed, fun c hc hmem => ?_⟩
  unfold isSeparator at hc
  obtain hc | hc := (Bool.or_eq_true ..).mp hc
  · rw [beq_iff_eq.mp hc] at hmem
    exact hcomma (hsub.subset hmem)
  · rw [beq_iff_eq.mp hc] at hmem
    exact hequals hmem

theorem isEmpty_ofList (cs : List Char) : (String.ofList cs).isEmpty = cs.isEmpty := by
  rw [Bool.eq_iff_iff, String.isEmpty_iff, String.ofList_eq_empty_iff, List.isEmpty_iff]

/-- **Reading a pair is reading its piece.** -/
theorem toOption_readPair (h : Lexed p) (hcomma : plain ',' ∉ p) :
    (readPair (spell p)).toOption = readPiece? none [] p := by
  rw [readPiece?_eq]
  unfold readPair
  rw [splitEscaped_spell h]
  have hparts : ∀ ls ∈ p.splitOn (plain '='), unescape (spell ls) = spell (ls.map release) :=
    fun ls hls => unescape_spell (part_of_piece h hcomma hls).2
  split
  · rename_i hempty
    cases p with
    | nil => rfl
    | cons l ls => cases l <;> cases hempty
  · match hsplit : p.splitOn (plain '=') with
    | [] => rfl
    | [_] => rfl
    | _ :: _ :: _ :: _ => rfl
    | [key, value] =>
      rw [hsplit] at hparts
      simp only [List.map_cons, List.map_nil, List.nil_append]
      rw [hparts key (by simp), hparts value (by simp)]
      unfold close?
      simp only [Option.bind_some, isEmpty_ofList]
      split
      · rfl
      · cases TagName.of? (String.ofList (spell (key.map release))) <;> rfl

theorem lexed_of_piece (h : p ∈ pieces input) : Lexed p ∧ plain ',' ∉ p := by
  obtain ⟨hcomma, hsub⟩ := mem_splitOn h
  have hlexed : Lexed p := List.IsChain.infix (lexed_letters input.toList) hsub
  exact ⟨hlexed, hcomma⟩

end GlobalTags

/-- Results put together one by one are put together when all are there. -/
theorem foldlM_eq_mapM {α β γ ε : Type} {step : γ → α → Option γ} {f : α → Except ε β}
    {g : γ → β → γ} {xs : List α} (h : ∀ acc, ∀ x ∈ xs, step acc x = (f x).toOption.map (g acc))
    (acc : γ) :
    xs.foldlM step acc = (xs.mapM f).toOption.map (List.foldl g acc) := by
  induction xs generalizing acc with
  | nil => rfl
  | cons x xs ih =>
    rw [List.foldlM_cons, List.mapM_cons, h acc x List.mem_cons_self]
    cases f x with
    | error e => rfl
    | ok y =>
      refine (ih (fun acc x hx => h acc x (List.mem_cons_of_mem _ hx)) (g acc y)).trans ?_
      cases xs.mapM f <;> rfl

namespace GlobalTags

/-- **The three passes read piece after piece.** -/
theorem toOption_parseGlobalTags (input : String) : (parseGlobalTags input).toOption =
    if input.toList.all Text.isBlank then some ∅ else (pieces input).foldlM addPiece? ∅ := by
  unfold parseGlobalTags
  rw [Text.isEmpty_trim]
  split
  · rfl
  · have hcut : splitEscaped ',' input.toList = (pieces input).map spell := by
      have hspell : splitEscaped ',' (spell (letters input.toList)) = (pieces input).map spell :=
        splitEscaped_spell (lexed_letters input.toList)
      rwa [spell_letters] at hspell
    have hstep : ∀ tags, ∀ p ∈ pieces input, addPiece? tags p =
        ((readPair ∘ spell) p).toOption.map fun e => tags.insert e.1 e.2 := by
      intro tags p hp
      obtain ⟨hlexed, hcomma⟩ := lexed_of_piece hp
      rw [Function.comp_apply, toOption_readPair hlexed hcomma, addPiece?]
    rw [hcut, List.mapM_map, foldlM_eq_mapM hstep]
    cases (pieces input).mapM (readPair ∘ spell) <;> rfl

end GlobalTags

/-- A text that is refused is refused as malformed. -/
theorem malformed_of_error {input : String} {e : MetricsError}
    (h : parseGlobalTags input = .error e) :
    ∃ fault, e = .malformedGlobalTags input fault := by
  unfold parseGlobalTags at h
  split at h
  · cases h
  · split at h
    · cases h
    · cases h
      exact ⟨_, rfl⟩

/-- **Global tags are read in one pass**: every text gives the tags that the reader gives, and is
refused as malformed where the reader gives none. -/
theorem parseGlobalTags_one_pass (input : String) :
    match GlobalTags.read? input with
    | some tags => parseGlobalTags input = .ok tags
    | none => ∃ fault, parseGlobalTags input = .error (.malformedGlobalTags input fault) := by
  have hsame : GlobalTags.read? input = (parseGlobalTags input).toOption := by
    rw [GlobalTags.read?_eq, GlobalTags.toOption_parseGlobalTags]
  rw [hsame]
  cases h : parseGlobalTags input with
  | ok tags => rfl
  | error e =>
    obtain ⟨fault, rfl⟩ := malformed_of_error h
    exact ⟨fault, rfl⟩

end Telemetry
