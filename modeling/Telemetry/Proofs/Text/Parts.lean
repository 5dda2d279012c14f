import Mathlib.Data.List.Forall2
import Mathlib.Data.List.TakeWhile
import Telemetry.Text.Blank
import Telemetry.Text.Pieces

/-!
# Parts between separators

The parts of a text are the pieces between separators, trimmed, without the blank ones. Two texts
with a separator between them have the parts of the one and then those of the other
(`parts_append`), and blanks around pieces and blank pieces leave the parts as they are
(`Respaced.parts_eq`). What is read of the parts depends on how each piece is read
(`mapM_parts_congr`).
-/

namespace Telemetry.Text

variable {sep : Char} {cs w w' : List Char}

/-! ## Blanks around a text -/

theorem trim_append_left (h : w.all isBlank) (cs : List Char) : trim (w ++ cs) = trim cs := by
  unfold trim
  rw [List.dropWhile_append_of_pos (List.all_eq_true.mp h)]

theorem trim_append_right (h : w.all isBlank) (cs : List Char) : trim (cs ++ w) = trim cs := by
  have hw : ∀ c ∈ w.reverse, isBlank c :=
    fun c hc => List.all_eq_true.mp h c (List.mem_reverse.mp hc)
  unfold trim
  rw [List.dropWhile_append]
  split
  · rename_i hnil
    rw [List.isEmpty_iff.mp hnil, List.dropWhile_eq_nil_iff.mpr (List.all_eq_true.mp h)]
  · rw [List.reverse_append, List.dropWhile_append_of_pos hw]

theorem trim_pad (h : w.all isBlank) (h' : w'.all isBlank) (cs : List Char) :
    trim (w ++ cs ++ w') = trim cs := by
  rw [trim_append_right h', trim_append_left h]

theorem trim_of_blank (h : w.all isBlank) : trim w = [] := by
  have hnil := trim_append_left h []
  rwa [List.append_nil] at hnil

/-- A text is what trimming keeps of it, with blanks on both sides. -/
theorem exists_pad (cs : List Char) :
    ∃ w w' : List Char, w.all isBlank ∧ w'.all isBlank ∧ cs = w ++ trim cs ++ w' := by
  have hsides : ∀ l : List Char, (l.takeWhile isBlank).all isBlank := fun l =>
    List.all_eq_true.mpr fun c hc => List.mem_takeWhile_imp hc
  refine ⟨cs.takeWhile isBlank, ((cs.dropWhile isBlank).reverse.takeWhile isBlank).reverse,
    hsides cs, by rw [List.all_reverse]; exact hsides _, ?_⟩
  unfold trim
  rw [List.append_assoc, ← List.reverse_append, List.takeWhile_append_dropWhile,
    List.reverse_reverse, List.takeWhile_append_dropWhile]

theorem isEmpty_trim (cs : List Char) : (trim cs).isEmpty = cs.all isBlank := by
  unfold trim
  rw [Bool.eq_iff_iff, List.isEmpty_reverse, List.isEmpty_iff, List.dropWhile_eq_nil_iff,
    List.all_eq_true]
  constructor
  · intro h c hc
    by_cases hall : cs.dropWhile isBlank = []
    · exact List.dropWhile_eq_nil_iff.mp hall c hc
    · exact absurd (h _ (List.mem_reverse.mpr (List.head_mem hall)))
        (by rw [List.head_dropWhile_not isBlank hall]; exact Bool.false_ne_true)
  · intro h c hc
    exact h c ((List.dropWhile_sublist _).subset (List.mem_reverse.mp hc))

theorem isEmpty_trim_of_mem {c : Char} (hmem : c ∈ cs) (hc : isBlank c = false) :
    (trim cs).isEmpty = false := by
  rw [isEmpty_trim, List.all_eq_false]
  exact ⟨c, hmem, by rw [hc]; exact Bool.false_ne_true⟩

theorem trim_trim (cs : List Char) : trim (trim cs) = trim cs := by
  obtain ⟨w, w', hw, hw', hcs⟩ := exists_pad cs
  rw [← trim_pad hw hw' (trim cs), ← hcs]

/-- An end without blanks stays when the text is trimmed, and what is left before it is the text
before it, some of whose blanks are gone. -/
theorem trim_append_end {s : List Char} (hs : ∀ c ∈ s, isBlank c = false) (cs : List Char) :
    ∃ r, trim (cs ++ s) = r ++ s ∧ trim r = trim cs ∧ r ⊆ cs := by
  cases hlast : s.reverse with
  | nil =>
    obtain rfl := List.reverse_eq_nil_iff.mp hlast
    obtain ⟨w, w', -, -, hcs⟩ := exists_pad cs
    refine ⟨trim cs, by simp, trim_trim cs, fun c hc => ?_⟩
    rw [hcs]
    simp [hc]
  | cons c r =>
    have hc : isBlank c = false := hs c (List.mem_reverse.mp (hlast ▸ List.mem_cons_self))
    have hfront : (cs ++ s).dropWhile isBlank = cs.dropWhile isBlank ++ s := by
      rw [List.dropWhile_append]
      split
      · rename_i hnil
        rw [List.isEmpty_iff.mp hnil, List.nil_append, List.dropWhile_eq_self_iff]
        exact fun hpos => by rw [hs _ (List.getElem_mem hpos)]; exact Bool.false_ne_true
      · rfl
    refine ⟨cs.dropWhile isBlank, ?_, ?_, (List.dropWhile_sublist _).subset⟩
    · have hback : ¬ isBlank c = true := by rw [hc]; exact Bool.false_ne_true
      unfold trim
      rw [hfront, List.reverse_append, hlast, List.cons_append, List.dropWhile_cons_of_neg hback,
        ← List.cons_append, ← hlast, ← List.reverse_append, List.reverse_reverse]
    · have hblank : (cs.takeWhile isBlank).all isBlank :=
        List.all_eq_true.mpr fun c hc => List.mem_takeWhile_imp hc
      rw [← trim_append_left hblank, List.takeWhile_append_dropWhile]

theorem not_mem_of_blank (hsep : isBlank sep = false) (h : w.all isBlank) : sep ∉ w := fun hmem =>
  absurd (List.all_eq_true.mp h sep hmem) (by rw [hsep]; exact Bool.false_ne_true)

/-! ## The first cut -/

theorem cut?_eq_some_iff {a b : List Char} :
    cut? sep cs = some (a, b) ↔ cs = a ++ sep :: b ∧ sep ∉ a := by
  induction cs generalizing a with
  | nil => simp [cut?]
  | cons c r ih =>
    unfold cut?
    split
    · rename_i hc
      subst hc
      cases a with
      | nil => simp
      | cons d a =>
        simp only [Option.some.injEq, Prod.mk.injEq, reduceCtorEq, false_and, List.cons_append,
          List.cons.injEq, List.mem_cons, not_or, false_iff]
        rintro ⟨⟨rfl, -⟩, h, -⟩
        exact h rfl
    · rename_i hc
      cases a with
      | nil => simp [hc]
      | cons d a =>
        simp only [Option.map_eq_some_iff, Prod.exists, Prod.mk.injEq, List.cons.injEq,
          List.cons_append, List.mem_cons, not_or]
        constructor
        · rintro ⟨a', b', h, ⟨rfl, rfl⟩, rfl⟩
          obtain ⟨rfl, hmem⟩ := ih.mp h
          exact ⟨⟨rfl, rfl⟩, Ne.symm hc, hmem⟩
        · rintro ⟨⟨rfl, rfl⟩, -, hmem⟩
          exact ⟨a, b, ih.mpr ⟨rfl, hmem⟩, ⟨rfl, rfl⟩, rfl⟩

theorem cut?_eq_none_iff : cut? sep cs = none ↔ sep ∉ cs := by
  induction cs with
  | nil => simp [cut?]
  | cons c r ih =>
    unfold cut?
    split
    · rename_i hc
      simp [hc]
    · rename_i hc
      rw [Option.map_eq_none_iff, ih, List.mem_cons, not_or]
      exact ⟨fun h => ⟨Ne.symm hc, h⟩, fun h => h.2⟩

/-! ## Pieces -/

theorem splitOn_append (sep : Char) (cs ds : List Char) :
    splitOn sep (cs ++ sep :: ds) = splitOn sep cs ++ splitOn sep ds := by
  induction cs with
  | nil => simp [splitOn]
  | cons c r ih =>
    simp only [List.cons_append, splitOn]
    rw [ih]
    split
    · rfl
    · obtain ⟨p, ps, hps⟩ := List.exists_cons_of_ne_nil (splitOn_ne_nil sep r)
      rw [hps]
      rfl

/-- What comes before a text without the separator comes before its first piece. -/
theorem splitOn_append_left (h : sep ∉ w) {p : List Char} {ps : List (List Char)}
    (hcs : splitOn sep cs = p :: ps) : splitOn sep (w ++ cs) = (w ++ p) :: ps := by
  induction w with
  | nil => exact hcs
  | cons c w ih =>
    obtain ⟨hc, hw⟩ := not_or.mp (mt List.mem_cons.mpr h)
    rw [List.cons_append, splitOn, if_neg (Ne.symm hc), ih hw]
    rfl

/-- What comes after a text without the separator comes after its last piece. -/
theorem splitOn_append_right (h : sep ∉ w) (cs : List Char) :
    ∃ ps p, splitOn sep cs = ps ++ [p] ∧ splitOn sep (cs ++ w) = ps ++ [p ++ w] := by
  induction cs with
  | nil => exact ⟨[], [], rfl, splitOn_of_not_mem h⟩
  | cons c r ih =>
    obtain ⟨ps, p, hr, hrw⟩ := ih
    simp only [List.cons_append, splitOn, hr, hrw]
    split
    · exact ⟨[] :: ps, p, rfl, rfl⟩
    · cases ps with
      | nil => exact ⟨[], c :: p, rfl, rfl⟩
      | cons q ps => exact ⟨(c :: q) :: ps, p, rfl, rfl⟩

/-! ## Parts -/

/-- The pieces of a text that are not blank, trimmed. -/
def parts (sep : Char) (cs : List Char) : List (List Char) :=
  ((splitOn sep cs).map trim).filter fun part => !part.isEmpty

theorem parts_append (sep : Char) (cs ds : List Char) :
    parts sep (cs ++ sep :: ds) = parts sep cs ++ parts sep ds := by
  unfold parts
  rw [splitOn_append, List.map_append, List.filter_append]

/-- A blank text has no parts. -/
theorem parts_of_blank (hsep : isBlank sep = false) (h : w.all isBlank) : parts sep w = [] := by
  unfold parts
  rw [splitOn_of_not_mem (not_mem_of_blank hsep h)]
  simp [trim_of_blank h]

theorem map_trim_append_left (hsep : isBlank sep = false) (h : w.all isBlank) (cs : List Char) :
    (splitOn sep (w ++ cs)).map trim = (splitOn sep cs).map trim := by
  obtain ⟨p, ps, hps⟩ := List.exists_cons_of_ne_nil (splitOn_ne_nil sep cs)
  rw [splitOn_append_left (not_mem_of_blank hsep h) hps, hps, List.map_cons, List.map_cons,
    trim_append_left h]

theorem map_trim_append_right (hsep : isBlank sep = false) (h : w.all isBlank) (cs : List Char) :
    (splitOn sep (cs ++ w)).map trim = (splitOn sep cs).map trim := by
  obtain ⟨ps, p, hcs, hcsw⟩ := splitOn_append_right (not_mem_of_blank hsep h) cs
  rw [hcsw, hcs, List.map_append, List.map_append, List.map_singleton, List.map_singleton,
    trim_append_right h]

/-- **Blanks around a text do not count.** -/
theorem parts_pad (hsep : isBlank sep = false) (h : w.all isBlank) (h' : w'.all isBlank)
    (cs : List Char) : parts sep (w ++ cs ++ w') = parts sep cs := by
  unfold parts
  rw [map_trim_append_right hsep h', map_trim_append_left hsep h]

theorem parts_trim (hsep : isBlank sep = false) (cs : List Char) :
    parts sep (trim cs) = parts sep cs := by
  obtain ⟨w, w', hw, hw', hcs⟩ := exists_pad cs
  rw [← parts_pad hsep hw hw' (trim cs), ← hcs]

/-- Reading all parts of a text depends on how each piece is read. -/
theorem mapM_parts_congr {ε β : Type} {f : List Char → Except ε β}
    {R : List Char → List Char → Prop}
    (hR : ∀ p q, R p q → (trim p).isEmpty = (trim q).isEmpty ∧ f (trim p) = f (trim q))
    {ds : List Char} (h : List.Forall₂ R (splitOn sep cs) (splitOn sep ds)) :
    (parts sep cs).mapM f = (parts sep ds).mapM f := by
  unfold parts
  generalize splitOn sep cs = ps, splitOn sep ds = qs at h
  induction h with
  | nil => rfl
  | cons hpq _ ih =>
    obtain ⟨hempty, hf⟩ := hR _ _ hpq
    rw [List.map_cons, List.map_cons, List.filter_cons, List.filter_cons, hempty]
    split
    · rw [List.mapM_cons, List.mapM_cons, hf, ih]
    · exact ih

/-- Two texts that differ in blanks around their pieces and in blank pieces only. -/
inductive Respaced (sep : Char) : List Char → List Char → Prop where
  | refl (cs : List Char) : Respaced sep cs cs
  | symm {cs ds : List Char} : Respaced sep cs ds → Respaced sep ds cs
  | trans {cs ds es : List Char} : Respaced sep cs ds → Respaced sep ds es → Respaced sep cs es
  /-- Blanks around a text. -/
  | pad {w w' : List Char} : w.all isBlank → w'.all isBlank → (cs : List Char) →
      Respaced sep (w ++ cs ++ w') cs
  /-- A blank piece in front. -/
  | blankFirst {w : List Char} : w.all isBlank → (cs : List Char) → Respaced sep (w ++ sep :: cs) cs
  /-- A blank piece at the end. -/
  | blankLast {w : List Char} : w.all isBlank → (cs : List Char) → Respaced sep (cs ++ sep :: w) cs
  /-- What is done to texts can be done to them side by side. -/
  | join {cs cs' ds ds' : List Char} : Respaced sep cs cs' → Respaced sep ds ds' →
      Respaced sep (cs ++ sep :: ds) (cs' ++ sep :: ds')

/-- **Texts that differ in blanks only have the same parts.** -/
theorem Respaced.parts_eq (hsep : isBlank sep = false) {ds : List Char} (h : Respaced sep cs ds) :
    parts sep cs = parts sep ds := by
  induction h with
  | refl => rfl
  | symm _ ih => exact ih.symm
  | trans _ _ ih ih' => exact ih.trans ih'
  | pad hw hw' cs => exact parts_pad hsep hw hw' cs
  | blankFirst hw cs => rw [parts_append, parts_of_blank hsep hw, List.nil_append]
  | blankLast hw cs => rw [parts_append, parts_of_blank hsep hw, List.append_nil]
  | join _ _ ih ih' => rw [parts_append, parts_append, ih, ih']

/-- A text of blanks and separators has no parts. -/
theorem parts_of_all (hsep : isBlank sep = false) (h : ∀ c ∈ cs, c = sep ∨ isBlank c) :
    parts sep cs = [] := by
  induction cs with
  | nil => rfl
  | cons c r ih =>
    have hr : parts sep r = [] := ih fun d hd => h d (List.mem_cons_of_mem c hd)
    rcases h c List.mem_cons_self with rfl | hc
    · exact (parts_append c [] r).trans (by rw [hr]; rfl)
    · have hpad : parts sep ([c] ++ r ++ []) = parts sep r :=
        parts_pad hsep (by simpa using hc) rfl r
      rwa [List.append_nil, hr] at hpad

end Telemetry.Text
