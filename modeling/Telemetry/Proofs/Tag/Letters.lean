import Mathlib.Algebra.Group.Nat.Even
import Mathlib.Data.List.Chain
import Mathlib.Data.List.DropRight
import Telemetry.Tag.Global

/-!
# Letters of a text with escapes

A backslash takes the character after it, whatever it is, out of the cutting at separators.
`letters` reads a text so: a letter is a character that no backslash took, or one with the backslash
that took it. In letters the two cuts and the two replacements of global tags are plain list
operations:

* `splitEscaped_spell`: cutting a text at a separator is splitting its letters at the plain
  separator;
* `unescape_spell`: where no separator is plain, unescaping releases the separators that were taken;
* `paired_iff`: backslashes stand in pairs before certain characters exactly when none of these is
  taken.
-/

namespace Telemetry

/-- A comma or an equals sign. -/
def isSeparator (c : Char) : Bool := c == ',' || c == '='

/-- A character of a text, by whether a backslash took it. -/
inductive Letter where
  | plain (c : Char)
  | taken (c : Char)
deriving DecidableEq

namespace Letter

/-- The characters of the letter. -/
def text : Letter → List Char
  | plain c => [c]
  | taken c => ['\\', c]

/-- The letter without its backslash if it is a separator. -/
def release : Letter → Letter
  | taken c => if isSeparator c then plain c else taken c
  | plain c => plain c

/-- The letter with a backslash if it is a plain separator. -/
def guarded : Letter → Letter
  | plain c => if isSeparator c then taken c else plain c
  | taken c => taken c

/-- The letter without its backslash if it is `c`. -/
def releaseOf (c : Char) : Letter → Letter
  | taken d => if d = c then plain d else taken d
  | plain d => plain d

theorem release_eq (l : Letter) : (l.releaseOf ',').releaseOf '=' = l.release := by
  cases l with
  | plain d => rfl
  | taken d =>
    by_cases hcomma : d = ','
    · subst hcomma
      rfl
    · by_cases hequals : d = '='
      · subst hequals
        rfl
      · simp [releaseOf, release, isSeparator, hcomma, hequals]

theorem text_release_taken (c : Char) :
    (taken c).release.text = if isSeparator c then [c] else ['\\', c] := by
  by_cases hc : isSeparator c <;> simp [release, text, hc]

theorem release_guarded {l : Letter} (h : ∀ c, isSeparator c = true → l ≠ taken c) :
    l.guarded.release = l := by
  cases l with
  | plain c => by_cases hc : isSeparator c <;> simp [guarded, release, hc]
  | taken c =>
    have hc : isSeparator c = false := by
      cases hc : isSeparator c with
      | false => rfl
      | true => exact absurd rfl (h c hc)
    simp [guarded, release, hc]

theorem guarded_ne_plain {c : Char} (hc : isSeparator c = true) (l : Letter) :
    l.guarded ≠ plain c := by
  cases l with
  | plain d =>
    by_cases hd : isSeparator d
    · simp [guarded, hd]
    · rw [guarded, if_neg hd]
      rintro ⟨⟩
      exact hd hc
  | taken d => nofun

theorem release_ne_taken {c : Char} (hc : isSeparator c = true) (l : Letter) :
    l.release ≠ taken c := by
  cases l with
  | plain d => nofun
  | taken d =>
    by_cases hd : isSeparator d
    · simp [release, hd]
    · rw [release, if_neg hd]
      rintro ⟨⟩
      exact hd hc

theorem eq_backslash_of_release {l : Letter} (h : l.release = plain '\\') : l = plain '\\' := by
  cases l with
  | plain c => exact h
  | taken c =>
    by_cases hc : isSeparator c
    · rw [release, if_pos hc] at h
      cases h
      cases hc
    · rw [release, if_neg hc] at h
      cases h

theorem eq_backslash_of_guarded {l : Letter} (h : l.guarded = plain '\\') : l = plain '\\' := by
  cases l with
  | taken c => cases h
  | plain c =>
    by_cases hc : isSeparator c
    · rw [guarded, if_pos hc] at h
      cases h
    · rw [guarded, if_neg hc] at h
      exact h

theorem eq_plain_of_releaseOf {l : Letter} {c d : Char} (hd : d ≠ c) (h : l.releaseOf c = plain d) :
    l = plain d := by
  cases l with
  | plain e => exact h
  | taken e =>
    by_cases he : e = c
    · rw [releaseOf, if_pos he] at h
      cases h
      exact absurd he hd
    · rw [releaseOf, if_neg he] at h
      cases h

end Letter

open Letter

/-- The letters of a text. -/
def letters : List Char → List Letter
  | '\\' :: c :: r => taken c :: letters r
  | c :: r => plain c :: letters r
  | [] => []

/-- The text of letters. -/
def spell (ls : List Letter) : List Char := ls.flatMap text

/-- The list is one of letters of a text: a backslash that took nothing is the last of them. -/
def Lexed (ls : List Letter) : Prop := ls.IsChain fun l _ => l ≠ plain '\\'

variable {ls ls' : List Letter} {cs : List Char} {c sep : Char}

@[simp]
theorem spell_nil : spell [] = [] := rfl

@[simp]
theorem spell_cons (l : Letter) (ls : List Letter) : spell (l :: ls) = l.text ++ spell ls := rfl

@[simp]
theorem spell_append (ls ls' : List Letter) : spell (ls ++ ls') = spell ls ++ spell ls' :=
  List.flatMap_append

theorem letters_cons (h : c = '\\' → cs = []) : letters (c :: cs) = plain c :: letters cs := by
  rw [letters.eq_2]
  rintro d r hc hr
  rw [h hc] at hr
  cases hr

/-- **Nothing is lost by reading letters.** -/
theorem spell_letters (cs : List Char) : spell (letters cs) = cs := by
  fun_induction letters cs with
  | case1 c r ih => exact congrArg (['\\', c] ++ ·) ih
  | case2 c r _ ih => exact congrArg (c :: ·) ih
  | case3 => rfl

theorem Lexed.cons {l : Letter} (hl : l = plain '\\' → ls = []) (h : Lexed ls) :
    Lexed (l :: ls) := by
  cases ls with
  | nil => exact .singleton l
  | cons l' ls =>
    refine List.isChain_cons_cons.mpr ⟨fun e => ?_, h⟩
    cases hl e

theorem lexed_letters (cs : List Char) : Lexed (letters cs) := by
  fun_induction letters cs with
  | case1 c r ih => exact ih.cons nofun
  | case2 c r hlast ih =>
    refine ih.cons fun e => ?_
    cases e
    cases r with
    | nil => rfl
    | cons d r => exact absurd rfl (hlast d r rfl)
  | case3 => exact .nil

theorem lexed_of_not_mem (h : plain '\\' ∉ ls) : Lexed ls := by
  induction ls with
  | nil => exact .nil
  | cons l ls ih =>
    obtain ⟨hl, hls⟩ := not_or.mp (List.mem_cons.not.mp h)
    exact (ih hls).cons fun e => absurd e.symm hl

theorem Lexed.tail {l : Letter} (h : Lexed (l :: ls)) : Lexed ls := List.IsChain.tail h

theorem Lexed.eq_nil (h : Lexed (plain '\\' :: ls)) : ls = [] := by
  cases ls with
  | nil => rfl
  | cons l' ls => exact absurd rfl (List.isChain_cons_cons.mp h).1

/-- **Letters are read back from their text.** -/
theorem letters_spell (h : Lexed ls) : letters (spell ls) = ls := by
  induction ls with
  | nil => rfl
  | cons l ls ih =>
    cases l with
    | taken c => exact congrArg (taken c :: ·) (ih h.tail)
    | plain c =>
      refine (letters_cons fun hc => ?_).trans (congrArg (plain c :: ·) (ih h.tail))
      subst hc
      rw [h.eq_nil]
      rfl

theorem Lexed.map {f : Letter → Letter} (hf : ∀ l, f l = plain '\\' → l = plain '\\')
    (h : Lexed ls) :
    Lexed (ls.map f) :=
  (List.isChain_map f).mpr (h.imp fun l _ hl e => hl (hf l e))

/-! ## Cutting at a separator -/

theorem splitOn_cons_self (x : Letter) (ls : List Letter) :
    (x :: ls).splitOn x = [] :: ls.splitOn x := by
  unfold List.splitOn
  rw [List.splitOnP_cons_eq_if_modifyHead, if_pos (beq_self_eq_true x)]

theorem splitOn_cons_of_ne {x l : Letter} (h : l ≠ x) (ls : List Letter) :
    (l :: ls).splitOn x = (ls.splitOn x).modifyHead (l :: ·) := by
  unfold List.splitOn
  rw [List.splitOnP_cons_eq_if_modifyHead, if_neg (by simpa using h)]

/-- The first piece, and the others. -/
theorem exists_splitOn (x : Letter) (ls : List Letter) : ∃ p ps, ls.splitOn x = p :: ps :=
  List.exists_cons_of_ne_nil (List.splitOn_ne_nil x ls)

/-- A letter other than the separator is the first of its piece. -/
theorem splitOn_cons_inv {x l : Letter} {p : List Letter} {ps : List (List Letter)} (hl : l ≠ x)
    (h : (l :: ls).splitOn x = p :: ps) : ∃ p', p = l :: p' ∧ ls.splitOn x = p' :: ps := by
  obtain ⟨p', ps', heq⟩ := exists_splitOn x ls
  rw [splitOn_cons_of_ne hl, heq] at h
  cases h
  exact ⟨p', rfl, heq⟩

/-- The first piece begins the whole; no piece holds the separator, and every piece is a part of the
whole. -/
theorem splitOn_pieces {x : Letter} {p : List Letter} {ps : List (List Letter)}
    (h : ls.splitOn x = p :: ps) :
    p <+: ls ∧ ∀ q ∈ p :: ps, x ∉ q ∧ q <:+: ls := by
  induction ls generalizing p ps with
  | nil =>
    cases h
    exact ⟨List.prefix_rfl, List.forall_mem_singleton.mpr ⟨List.not_mem_nil, List.infix_rfl⟩⟩
  | cons l ls ih =>
    obtain ⟨p', ps', heq⟩ := exists_splitOn x ls
    obtain ⟨hpre, hall⟩ := ih heq
    have hlater : ∀ q ∈ p' :: ps', x ∉ q ∧ q <:+: l :: ls := fun q hq =>
      ⟨(hall q hq).1, (hall q hq).2.trans (List.suffix_cons l ls).isInfix⟩
    by_cases hl : l = x
    · rw [hl, splitOn_cons_self, heq] at h
      cases h
      exact ⟨List.nil_prefix, List.forall_mem_cons.mpr ⟨⟨List.not_mem_nil, List.nil_infix⟩, hlater⟩⟩
    · rw [splitOn_cons_of_ne hl, heq] at h
      cases h
      have hcons : (l :: p') <+: (l :: ls) := (List.prefix_cons_inj l).mpr hpre
      have hnot : x ∉ l :: p' :=
        List.not_mem_cons_of_ne_of_not_mem (Ne.symm hl) (hall p' List.mem_cons_self).1
      exact ⟨hcons, List.forall_mem_cons.mpr
        ⟨⟨hnot, hcons.isInfix⟩, fun q hq => hlater q (List.mem_cons_of_mem p' hq)⟩⟩

theorem mem_splitOn {x : Letter} {p : List Letter} (h : p ∈ ls.splitOn x) : x ∉ p ∧ p <:+: ls := by
  obtain ⟨p', ps, heq⟩ := exists_splitOn x ls
  rw [heq] at h
  exact (splitOn_pieces heq).2 p h

/-- **Cutting a text is splitting its letters.** -/
theorem splitEscaped_spell (h : Lexed ls) :
    splitEscaped sep (spell ls) = (ls.splitOn (plain sep)).map spell := by
  induction ls with
  | nil => rfl
  | cons l ls ih =>
    have ih := ih h.tail
    obtain ⟨p, ps, heq⟩ := exists_splitOn (plain sep) ls
    rw [heq] at ih
    cases l with
    | taken c =>
      have hne : taken c ≠ plain sep := nofun
      rw [splitOn_cons_of_ne hne, heq]
      show splitEscaped sep ('\\' :: c :: spell ls) = _
      rw [splitEscaped, ih]
      rfl
    | plain c =>
      show splitEscaped sep (c :: spell ls) = _
      have hlast : ∀ d r, c = '\\' → spell ls = d :: r → False := by
        rintro d r rfl hr
        rw [h.eq_nil] at hr
        cases hr
      rw [splitEscaped.eq_3 _ _ _ hlast]
      by_cases hc : c = sep
      · rw [if_pos hc, hc, splitOn_cons_self, heq, ih]
        rfl
      · rw [if_neg hc, splitOn_cons_of_ne (fun e => hc (Letter.plain.inj e)), heq, ih]
        rfl

/-! ## Replacing escapes -/

theorem dropEscapes_cons {r : List Char} {x : Char} (h : x = '\\' → r.head? ≠ some c) :
    Text.dropEscapes c (x :: r) = x :: Text.dropEscapes c r := by
  cases r with
  | nil =>
    rw [Text.dropEscapes.eq_2]
    rintro d r - ⟨⟩
  | cons d r =>
    by_cases hx : x = '\\'
    · subst hx
      rw [Text.dropEscapes, if_neg fun e => h rfl (congrArg some e)]
    · rw [Text.dropEscapes.eq_2]
      exact fun _ _ e _ => hx e

theorem head?_spell_ne (hc : c ≠ '\\') (h : plain c ∉ ls) : (spell ls).head? ≠ some c := by
  cases ls with
  | nil => nofun
  | cons l ls =>
    cases l with
    | plain d =>
      rintro ⟨⟩
      exact h List.mem_cons_self
    | taken d =>
      rintro ⟨⟩
      exact hc rfl

/-- One replacement, where the character is never plain. -/
theorem dropEscapes_spell (hc : c ≠ '\\') (h : plain c ∉ ls) :
    Text.dropEscapes c (spell ls) = spell (ls.map (releaseOf c)) := by
  induction ls with
  | nil => rfl
  | cons l ls ih =>
    have hls : plain c ∉ ls := fun hm => h (List.mem_cons_of_mem l hm)
    have ih := ih hls
    have hhead := head?_spell_ne hc hls
    cases l with
    | plain d => exact (dropEscapes_cons fun _ => hhead).trans (congrArg (d :: ·) ih)
    | taken d =>
      show Text.dropEscapes c ('\\' :: d :: spell ls) = (releaseOf c (taken d)).text ++ _
      rw [Text.dropEscapes]
      by_cases hd : d = c
      · rw [if_pos hd, releaseOf, if_pos hd, hd, ih]
        rfl
      · rw [if_neg hd, releaseOf, if_neg hd, dropEscapes_cons fun _ => hhead, ih]
        rfl

/-- **Unescaping releases the separators that were taken**, where no separator is plain. The second
replacement finds nothing that the first one made. -/
theorem unescape_spell (h : ∀ c, isSeparator c = true → plain c ∉ ls) :
    unescape (spell ls) = spell (ls.map release) := by
  have hequals : plain '=' ∉ ls.map (releaseOf ',') := by
    intro hm
    obtain ⟨l, hl, heq⟩ := List.mem_map.mp hm
    rw [eq_plain_of_releaseOf (by decide) heq] at hl
    exact h '=' rfl hl
  unfold unescape
  rw [dropEscapes_spell (by decide) (h ',' rfl),
    dropEscapes_spell (by decide) hequals, List.map_map]
  exact congrArg spell (List.map_congr_left fun l _ => release_eq l)

/-! ## Backslashes in pairs -/

/-- How many backslashes a text ends with. -/
def trailing (cs : List Char) : Nat := (cs.rtakeWhile (· == '\\')).length

/-- Wherever one of the `stops` comes next, which may be the end, the backslashes right before it,
as many as there are, are even in number. -/
def Paired (stops : Option Char → Prop) (cs : List Char) : Prop :=
  ∀ before after, cs = before ++ after → stops after.head? → Even (trailing before)

theorem trailing_backslash (cs : List Char) : trailing (cs ++ ['\\']) = trailing cs + 1 := by
  unfold trailing
  rw [List.rtakeWhile_concat_pos _ _ _ (by decide), List.length_append]
  rfl

theorem trailing_other (cs : List Char) (hc : c ≠ '\\') : trailing (cs ++ [c]) = 0 := by
  unfold trailing
  rw [List.rtakeWhile_concat_neg _ _ _ (by simpa using hc)]
  rfl

/-- A text that ends with an odd number of backslashes. -/
theorem exists_of_odd (h : ¬ Even (trailing cs)) :
    ∃ cs', cs = cs' ++ ['\\'] ∧ Even (trailing cs') := by
  obtain rfl | ⟨cs', c, rfl⟩ := List.eq_nil_or_concat' cs
  · exact absurd Even.zero h
  · by_cases hc : c = '\\'
    · subst hc
      refine ⟨cs', rfl, ?_⟩
      rw [trailing_backslash, Nat.even_add_one, not_not] at h
      exact h
    · rw [trailing_other cs' hc] at h
      exact absurd Even.zero h

/-- **After an even number of backslashes the letters begin anew.** -/
theorem letters_append (cs r : List Char) (h : Even (trailing cs)) :
    letters (cs ++ r) = letters cs ++ letters r := by
  obtain rfl | ⟨cs₁, c, rfl⟩ := List.eq_nil_or_concat' cs
  · rfl
  by_cases hodd : Even (trailing cs₁)
  · -- the last character is no backslash, and no backslash takes it
    have hc : c ≠ '\\' := by
      rintro rfl
      rw [trailing_backslash, Nat.even_add_one] at h
      exact h hodd
    have hone (r : List Char) : letters (cs₁ ++ c :: r) = letters cs₁ ++ plain c :: letters r := by
      rw [letters_append cs₁ (c :: r) hodd, letters_cons fun e => absurd e hc]
    rw [List.append_assoc, List.singleton_append, hone r, hone []]
    simp [letters]
  · -- the last character is taken by the backslash before it
    obtain ⟨cs₂, rfl, heven⟩ := exists_of_odd hodd
    have htwo (r : List Char) : letters (cs₂ ++ '\\' :: c :: r) =
        letters cs₂ ++ taken c :: letters r := by
      rw [letters_append cs₂ ('\\' :: c :: r) heven, letters]
    simp only [List.append_assoc, List.cons_append, List.nil_append, htwo]
    simp [letters]
termination_by cs.length

/-- Where a letter begins, the backslashes before it are even in number. -/
theorem even_trailing_spell (h : Lexed (ls ++ ls')) (hne : ls' ≠ []) :
    Even (trailing (spell ls)) := by
  induction ls using List.reverseRecOn generalizing ls' with
  | nil => exact Even.zero
  | append_singleton ls l ih =>
    rw [List.append_assoc] at h
    have hbefore := ih h (List.append_ne_nil_of_right_ne_nil [l] hne)
    rw [spell_append]
    cases l with
    | plain c =>
      have hc : c ≠ '\\' := by
        rintro rfl
        exact hne (Lexed.eq_nil h.right_of_append)
      show Even (trailing (spell ls ++ [c]))
      rw [trailing_other _ hc]
      exact Even.zero
    | taken c =>
      show Even (trailing (spell ls ++ (['\\'] ++ [c])))
      rw [← List.append_assoc]
      by_cases hc : c = '\\'
      · rw [hc, trailing_backslash, trailing_backslash]
        exact Nat.even_add_one.mpr (Nat.even_add_one.not.mpr (not_not.mpr hbefore))
      · rw [trailing_other _ hc]
        exact Even.zero

/-- A backslash took a stop, or took nothing at the end where that is a stop. -/
def Letter.Loose (stops : Option Char → Prop) : Letter → Prop
  | taken c => stops (some c)
  | plain c => c = '\\' ∧ stops none

instance {stops : Option Char → Prop} [DecidablePred stops] : DecidablePred (Loose stops)
  | taken c => inferInstanceAs (Decidable (stops (some c)))
  | plain c => inferInstanceAs (Decidable (c = '\\' ∧ stops none))

/-- **Backslashes stand in pairs before the stops** exactly when no letter is loose. -/
theorem paired_iff {stops : Option Char → Prop} :
    Paired stops cs ↔ ∀ l ∈ letters cs, ¬ l.Loose stops := by
  constructor
  · intro h l hmem hloose
    obtain ⟨ls, ls', heq⟩ := List.append_of_mem hmem
    have hlexed : Lexed (ls ++ l :: ls') := heq ▸ lexed_letters cs
    have heven := even_trailing_spell hlexed (List.cons_ne_nil _ _)
    have hcs := (spell_letters cs).symm
    rw [heq, spell_append] at hcs
    -- the backslash of the letter is one more than an even number of them
    have hodd (after : List Char) (hcs : cs = (spell ls ++ ['\\']) ++ after) :
        ¬ stops after.head? := by
      intro hstop
      have := h _ after hcs hstop
      rw [trailing_backslash, Nat.even_add_one] at this
      exact this heven
    cases l with
    | taken c => exact hodd (c :: spell ls') (by rw [List.append_assoc]; exact hcs) hloose
    | plain c =>
      obtain ⟨rfl, hstop⟩ := hloose
      rw [Lexed.eq_nil hlexed.right_of_append] at hcs
      exact hodd [] (by rw [List.append_nil]; exact hcs) hstop
  · intro htight before after hcs hstop
    by_contra hodd
    obtain ⟨cs', rfl, heven⟩ := exists_of_odd hodd
    rw [List.append_assoc] at hcs
    have hletters := letters_append cs' (['\\'] ++ after) heven
    rw [← hcs] at hletters
    cases after with
    | nil =>
      exact htight (plain '\\') (hletters ▸ List.mem_append_right _ List.mem_cons_self) ⟨rfl, hstop⟩
    | cons c r =>
      exact htight (taken c) (hletters ▸ List.mem_append_right _ List.mem_cons_self) hstop

instance {stops : Option Char → Prop} [DecidablePred stops] : Decidable (Paired stops cs) :=
  decidable_of_iff (∀ l ∈ letters cs, ¬ l.Loose stops) paired_iff.symm

end Telemetry
