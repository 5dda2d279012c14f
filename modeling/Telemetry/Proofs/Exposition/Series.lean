import Telemetry.Proofs.Exposition.WellFormed

/-!
# The series of an export

A sample is written in lines: one for its value, or one for each quantile or bucket and one for the
sum and the count each (`SeriesPart`). A line's name is that of the family with a suffix, and its
labels are those of the sample with the quantile or the bound. A scrape is valid when no two lines
have one name and the same labels, and no line has two labels of one name (`UniqueSeries`).

Families keep the labels of their samples apart, but not the lines of a distribution from those of
another family. `uniqueSeries_iff` says what is left to ask of an export (`Unambiguous`): that no
label is named as the quantile or the bound, that these have different texts, and that the lines of
a family named as the sums, the counts or the buckets of another one are not the same as these.

* `exported_iff`: so it is with every export, of a scope, of all scopes, and of the meters of a
  name.
* `ambiguous`: a histogram `h` and a gauge `h_sum` of one scope are exported with two lines `h_sum`.
-/

namespace Telemetry

/-! ## Lines -/

/-- What a line of a sample is for. -/
inductive SeriesPart where
  /-- The value of a counter or a gauge. -/
  | value
  | quantile (text : String)
  | bucket (bound : String)
  | sum
  | count
deriving DecidableEq

namespace SeriesPart

/-- What is added to the name of the family. -/
def suffix : SeriesPart → String
  | value => ""
  | quantile _ => ""
  | bucket _ => "_bucket"
  | sum => "_sum"
  | count => "_count"

/-- What is added to the labels of the sample. -/
def extra : SeriesPart → List (String × String)
  | quantile text => [("quantile", text)]
  | bucket bound => [("le", bound)]
  | _ => []

/-- The samples of the kind have such lines. -/
def Fits : FamilyKind → SeriesPart → Prop
  | .counter, part => part = value
  | .gauge, part => part = value
  | .summary, part => part = sum ∨ part = count ∨ ∃ text, part = quantile text
  | .histogram, part => part = sum ∨ part = count ∨ ∃ bound, part = bucket bound

end SeriesPart

/-- The lines of a value, with the numbers on them. -/
def SampleValue.figures : SampleValue → List (SeriesPart × Real64)
  | .counter x => [(.value, x)]
  | .gauge x => [(.value, x)]
  | .summary snapshot =>
    snapshot.percentiles.map (fun p => (.quantile p.percentile.text, p.value)) ++
      [(.sum, snapshot.sum), (.count, .ofNat _ snapshot.count)]
  | .histogram snapshot =>
    snapshot.buckets.map (fun b => (.bucket b.bound.text, .ofNat _ b.count)) ++
      (if snapshot.buckets.any fun b => b.bound = .infinite false then []
        else [(.bucket "+Inf", .ofNat _ snapshot.count)]) ++
      [(.sum, snapshot.sum), (.count, .ofNat _ snapshot.count)]

/-- What the lines of a value are for. -/
def SampleValue.parts (v : SampleValue) : List SeriesPart := v.figures.map Prod.fst

/-- A line, before it is written. -/
structure SeriesLine where
  name : String
  labels : List (String × String)
  value : Real64
deriving DecidableEq

namespace SeriesLine

def text (l : SeriesLine) : String := sampleLine l.name l.labels l.value

/-- The lines are of one series: they have one name and the same labels. -/
def Same (l l' : SeriesLine) : Prop := l.name = l'.name ∧ ∀ pair, pair ∈ l.labels ↔ pair ∈ l'.labels

theorem Same.symm {l l' : SeriesLine} (h : l.Same l') : l'.Same l :=
  ⟨h.1.symm, fun pair => (h.2 pair).symm⟩

instance : Std.Symm fun l l' : SeriesLine => ¬ l.Same l' := ⟨fun _ _ h h' => h h'.symm⟩

end SeriesLine

/-- The lines of a sample in a family of this name. -/
def Sample.series (name : String) (s : Sample) : List SeriesLine :=
  s.value.figures.map fun figure => ⟨name ++ figure.1.suffix, s.labels ++ figure.1.extra, figure.2⟩

def Family.series (f : Family) : List SeriesLine := f.samples.flatMap (Sample.series f.name)

/-- **The lines of a sample are those of its series.** -/
theorem Sample.lines_eq (name : String) (s : Sample) :
    s.lines name = (s.series name).map SeriesLine.text := by
  obtain ⟨labels, value⟩ := s
  unfold Sample.lines Sample.series SampleValue.figures totalLines
  cases value with
  | counter x | gauge x =>
    simp [SeriesLine.text, SeriesPart.suffix, SeriesPart.extra, String.append_empty]
  | summary snapshot =>
    simp [SeriesLine.text, SeriesPart.suffix, SeriesPart.extra, String.append_empty,
      Function.comp_def]
  | histogram snapshot =>
    simp only
    split <;>
      simp [SeriesLine.text, SeriesPart.suffix, SeriesPart.extra, Function.comp_def]

/-- The text of families: the head of each and its lines. -/
def writtenSeries (families : List Family) : String :=
  String.join (families.map fun f => f.header ++ String.join (f.series.map SeriesLine.text))

theorem encode_eq_written {families : List Family} (h : ∀ f ∈ families, f.WellFormed) :
    encode families = .ok (writtenSeries families) := by
  have hlines : ∀ name, Sample.lines name = fun s => (s.series name).map SeriesLine.text :=
    fun name => funext (Sample.lines_eq name)
  rw [encode_eq h]
  unfold writtenSeries Family.series
  simp only [hlines, List.map_flatMap]

/-! ## Unique series -/

/-- No two lines are of one series, and no line has two labels of one name. -/
structure UniqueSeries (families : List Family) : Prop where
  distinct : (families.flatMap Family.series).Pairwise fun l l' => ¬ l.Same l'
  keys : ∀ l ∈ families.flatMap Family.series, (l.labels.map Prod.fst).Nodup

/-- What families have to be like for their series to be unique. -/
structure Unambiguous (families : List Family) : Prop where
  /-- No label is named as the quantile or the bound beside it. -/
  free : ∀ f ∈ families, ∀ s ∈ f.samples, ∀ part ∈ s.value.parts, ∀ pair ∈ part.extra,
    pair.1 ∉ s.labels.map Prod.fst
  /-- The quantiles of a sample have different texts, and so have the bounds. -/
  parts : ∀ f ∈ families, ∀ s ∈ f.samples, s.value.parts.Nodup
  /-- A family that is named as the sums, the counts or the buckets of another one has other
  labels. -/
  derived : ∀ f ∈ families, ∀ f' ∈ families, ∀ s ∈ f.samples, ∀ s' ∈ f'.samples,
    ∀ part ∈ s.value.parts, ∀ part' ∈ s'.value.parts, part.suffix ≠ "" → part'.suffix = "" →
      f'.name = f.name ++ part.suffix →
        ¬ ∀ pair, pair ∈ s.labels ++ part.extra ↔ pair ∈ s'.labels ++ part'.extra

namespace SeriesPart

variable {kind : FamilyKind} {part part' : SeriesPart} {name name' : String}
  {labels labels' : List (String × String)}

theorem fits_of_mem {v : SampleValue} (h : part ∈ v.parts) : Fits v.kind part := by
  unfold SampleValue.parts SampleValue.figures at h
  cases v with
  | counter x | gauge x => exact List.mem_singleton.mp h
  | summary snapshot =>
    simp only [List.map_append, List.map_map, List.mem_append, List.mem_map, Function.comp_apply,
      List.map_cons, List.map_nil, List.mem_cons, List.not_mem_nil, or_false] at h
    obtain ⟨p, -, rfl⟩ | rfl | rfl := h
    · exact .inr (.inr ⟨_, rfl⟩)
    · exact .inl rfl
    · exact .inr (.inl rfl)
  | histogram snapshot =>
    simp only [List.map_append, List.map_map, List.mem_append, List.mem_map, Function.comp_apply,
      List.map_cons, List.map_nil, List.mem_cons, List.not_mem_nil, or_false] at h
    obtain (⟨b, -, rfl⟩ | ⟨b, hb, rfl⟩) | rfl | rfl := h
    · exact .inr (.inr ⟨_, rfl⟩)
    · split at hb
      · cases hb
      · obtain rfl := List.mem_singleton.mp hb
        exact .inr (.inr ⟨_, rfl⟩)
    · exact .inl rfl
    · exact .inr (.inl rfl)

/-- Lines of one kind with one suffix are the same, or differ in the text of one label. -/
theorem Fits.eq_or (h : Fits kind part) (h' : Fits kind part') (hs : part.suffix = part'.suffix) :
    part = part' ∨ ∃ key text text', text ≠ text' ∧ part.extra = [(key, text)] ∧
      part'.extra = [(key, text')] := by
  have htexts : ∀ (key text text' : String) (make : String → SeriesPart),
      (∀ text, (make text).extra = [(key, text)]) →
        make text = make text' ∨ ∃ key text₁ text₁', text₁ ≠ text₁' ∧
          (make text).extra = [(key, text₁)] ∧ (make text').extra = [(key, text₁')] := by
    intro key text text' make hmake
    by_cases heq : text = text'
    · exact .inl (congrArg make heq)
    · exact .inr ⟨key, text, text', heq, hmake text, hmake text'⟩
  cases kind with
  | counter | gauge => exact .inl (Eq.trans h (Eq.symm h'))
  | summary =>
    obtain rfl | rfl | ⟨text, rfl⟩ := h <;> obtain rfl | rfl | ⟨text', rfl⟩ := h' <;>
      first
      | exact .inl rfl
      | exact htexts "quantile" text text' .quantile fun _ => rfl
      | exact absurd hs (by simp [suffix])
  | histogram =>
    obtain rfl | rfl | ⟨bound, rfl⟩ := h <;> obtain rfl | rfl | ⟨bound', rfl⟩ := h' <;>
      first
      | exact .inl rfl
      | exact htexts "le" bound bound' .bucket fun _ => rfl
      | exact absurd hs (by simp [suffix])

/-- No suffix ends in another one, apart from the empty one. -/
theorem suffix_of_suffix (h : part.suffix.toList <:+ part'.suffix.toList) :
    part.suffix = "" ∨ part.suffix = part'.suffix := by
  cases part <;> cases part' <;> simp only [suffix] at h ⊢ <;> revert h <;> decide

/-- Of two different suffixes that make one name of two, the shorter one is empty. -/
theorem suffix_eq_empty (h : name ++ part.suffix = name' ++ part'.suffix)
    (hne : part.suffix ≠ part'.suffix)
    (hle : part.suffix.toList.length ≤ part'.suffix.toList.length) : part.suffix = "" := by
  have hlists := congrArg String.toList h
  rw [String.toList_append, String.toList_append] at hlists
  have hends : part.suffix.toList <:+ name'.toList ++ part'.suffix.toList :=
    hlists ▸ List.suffix_append _ _
  exact (suffix_of_suffix
    (List.suffix_of_suffix_length_le hends (List.suffix_append _ _) hle)).resolve_right hne

/-- Different names with suffixes are equal only where one has the empty suffix. -/
theorem suffix_of_append (h : name ++ part.suffix = name' ++ part'.suffix) (hne : name ≠ name') :
    part.suffix ≠ "" ∧ part'.suffix = "" ∧ name' = name ++ part.suffix ∨
      part'.suffix ≠ "" ∧ part.suffix = "" ∧ name = name' ++ part'.suffix := by
  have hdiffer : part.suffix ≠ part'.suffix := fun hs =>
    hne ((String.append_left_inj _).mp (hs ▸ h))
  obtain hle | hle := Nat.le_total part.suffix.toList.length part'.suffix.toList.length
  · have hempty := suffix_eq_empty h hdiffer hle
    rw [hempty, String.append_empty] at h
    exact .inr ⟨fun hempty' => hdiffer (hempty.trans hempty'.symm), hempty, h⟩
  · have hempty := suffix_eq_empty h.symm hdiffer.symm hle
    rw [hempty, String.append_empty] at h
    exact .inl ⟨fun hempty' => hdiffer (hempty'.trans hempty.symm), hempty, h.symm⟩

end SeriesPart

/-! ## When series are unique -/

instance irrefl_label : Std.Irrefl fun l l' : String × String => l.1 < l'.1 :=
  ⟨fun l => String.lt_irrefl l.1⟩

instance antisymm_label : Std.Antisymm fun l l' : String × String => l.1 < l'.1 :=
  ⟨fun _ _ h h' => absurd h' (String.lt_asymm h)⟩

section

variable {kind : FamilyKind} {part part' : SeriesPart} {labels labels' : List (String × String)}
  {families : List Family} {f : Family} {s : Sample} {l : SeriesLine}

/-- What a line adds to labels of one set does not hide a difference between them. -/
theorem subset_of_same (hfree : ∀ pair ∈ part.extra, pair.1 ∉ labels.map Prod.fst)
    (hkeys : part.extra.map Prod.fst = part'.extra.map Prod.fst)
    (hs : ∀ pair, pair ∈ labels ++ part.extra ↔ pair ∈ labels' ++ part'.extra)
    {pair : String × String} (hp : pair ∈ labels) : pair ∈ labels' := by
  obtain hp' | hp' := List.mem_append.mp ((hs pair).mp (List.mem_append_left _ hp))
  · exact hp'
  · have hkey : pair.1 ∈ part.extra.map Prod.fst := hkeys ▸ List.mem_map_of_mem hp'
    obtain ⟨added, hadded, heq⟩ := List.mem_map.mp hkey
    exact absurd (heq ▸ List.mem_map_of_mem hp) (hfree added hadded)

/-- **Lines of one family are of one series only if they are the same line.** -/
theorem eq_of_same (hlabels : labels.Pairwise fun l l' => l.1 < l'.1)
    (hlabels' : labels'.Pairwise fun l l' => l.1 < l'.1) (hp : part.Fits kind)
    (hp' : part'.Fits kind) (hfree : ∀ pair ∈ part.extra, pair.1 ∉ labels.map Prod.fst)
    (hfree' : ∀ pair ∈ part'.extra, pair.1 ∉ labels'.map Prod.fst)
    (hsuffix : part.suffix = part'.suffix)
    (hs : ∀ pair, pair ∈ labels ++ part.extra ↔ pair ∈ labels' ++ part'.extra) :
    labels = labels' ∧ part = part' := by
  have hkeys : part.extra.map Prod.fst = part'.extra.map Prod.fst := by
    obtain rfl | ⟨key, text, text', -, heq, heq'⟩ := hp.eq_or hp' hsuffix
    · rfl
    · rw [heq, heq']
      rfl
  refine ⟨hlabels.eq_of_mem_iff hlabels' fun pair => ⟨subset_of_same hfree hkeys hs,
    subset_of_same hfree' hkeys.symm fun pair => (hs pair).symm⟩, ?_⟩
  obtain heq | ⟨key, text, text', hne, heq, heq'⟩ := hp.eq_or hp' hsuffix
  · exact heq
  · rw [heq, heq'] at hs
    rw [heq'] at hfree'
    have hmem := (hs (key, text)).mp (List.mem_append_right _ List.mem_cons_self)
    obtain hmem | hmem := List.mem_append.mp hmem
    · exact absurd (List.mem_map_of_mem hmem) (hfree' (key, text') List.mem_cons_self)
    · exact absurd (Prod.mk.inj (List.mem_singleton.mp hmem)).2 hne

theorem figure_of_mem_parts {v : SampleValue} (h : part ∈ v.parts) :
    ∃ figure ∈ v.figures, figure.1 = part :=
  List.mem_map.mp h

/-- The families have no line of one series. -/
def SeriesApart (f f' : Family) : Prop := ∀ l ∈ f.series, ∀ l' ∈ f'.series, ¬ l.Same l'

instance : Std.Symm SeriesApart := ⟨fun _ _ h l hl l' hl' hs => h l' hl' l hl hs.symm⟩

theorem mem_family_series : l ∈ f.series ↔ ∃ s ∈ f.samples, ∃ figure ∈ s.value.figures,
    l = ⟨f.name ++ figure.1.suffix, s.labels ++ figure.1.extra, figure.2⟩ := by
  unfold Family.series Sample.series
  simp only [List.mem_flatMap, List.mem_map, eq_comm]

theorem UniqueSeries.unambiguous (h : UniqueSeries families) : Unambiguous families := by
  have hpairs := List.pairwise_flatMap.mp h.distinct
  exact {
    free := by
      intro f hf s hs part hpart pair hpair hmem
      obtain ⟨figure, hfigure, rfl⟩ := figure_of_mem_parts hpart
      have hnodup := h.keys _
        (List.mem_flatMap.mpr ⟨f, hf, mem_family_series.mpr ⟨s, hs, figure, hfigure, rfl⟩⟩)
      rw [List.map_append] at hnodup
      exact List.disjoint_of_nodup_append hnodup hmem (List.mem_map_of_mem hpair)
    parts := by
      intro f hf s hs
      have hlines := (List.pairwise_flatMap.mp (hpairs.1 f hf)).1 s hs
      refine List.pairwise_map.mpr ((List.pairwise_map.mp hlines).imp fun hdiffer heq => hdiffer ?_)
      rw [heq]
      exact ⟨rfl, fun _ => .rfl⟩
    derived := by
      intro f hf f' hf' s hs s' hs' part hpart part' hpart' hsuffix hsuffix' hname hsame
      obtain ⟨figure, hfigure, rfl⟩ := figure_of_mem_parts hpart
      obtain ⟨figure', hfigure', rfl⟩ := figure_of_mem_parts hpart'
      have happart : families.Pairwise SeriesApart := hpairs.2
      have hne : f ≠ f' := by
        rintro rfl
        exact hsuffix ((String.append_right_inj f.name).mp
          (hname.symm.trans String.append_empty.symm))
      refine happart.forall hf hf' hne _ (mem_family_series.mpr ⟨s, hs, figure, hfigure, rfl⟩) _
        (mem_family_series.mpr ⟨s', hs', figure', hfigure', rfl⟩) ⟨?_, hsame⟩
      rw [hsuffix', hname, String.append_empty] }

theorem Unambiguous.unique (h : Unambiguous families) (hw : ∀ f ∈ families, f.WellFormed)
    (hnames : families.Pairwise fun f f' => f.name < f'.name)
    (hlabels : ∀ f ∈ families, ∀ s ∈ f.samples, s.labels.Pairwise fun l l' => l.1 < l'.1) :
    UniqueSeries families := by
  have hmem : ∀ {s : Sample} {figure}, figure ∈ s.value.figures → figure.1 ∈ s.value.parts :=
    fun hfigure => List.mem_map_of_mem hfigure
  have hfits : ∀ {f s figure}, f ∈ families → s ∈ f.samples → figure ∈ s.value.figures →
      figure.1.Fits f.kind := by
    intro f s figure hf hs hfigure
    rw [← (hw f hf).kind s hs]
    exact SeriesPart.fits_of_mem (hmem hfigure)
  -- Lines of one family.
  have hsame : ∀ {f s s' figure figure'}, f ∈ families → s ∈ f.samples → s' ∈ f.samples →
      figure ∈ s.value.figures → figure' ∈ s'.value.figures →
      SeriesLine.Same ⟨f.name ++ figure.1.suffix, s.labels ++ figure.1.extra, figure.2⟩
        ⟨f.name ++ figure'.1.suffix, s'.labels ++ figure'.1.extra, figure'.2⟩ →
        s.labels = s'.labels ∧ figure.1 = figure'.1 := by
    intro f s s' figure figure' hf hs hs' hfigure hfigure' hline
    exact eq_of_same (hlabels f hf s hs) (hlabels f hf s' hs') (hfits hf hs hfigure)
      (hfits hf hs' hfigure') (h.free f hf s hs _ (hmem hfigure))
      (h.free f hf s' hs' _ (hmem hfigure')) ((String.append_right_inj _).mp hline.1) hline.2
  refine ⟨List.pairwise_flatMap.mpr
    ⟨fun f hf => List.pairwise_flatMap.mpr ⟨fun s hs => ?_, ?_⟩, ?_⟩, fun l hl => ?_⟩
  · refine List.pairwise_map.mpr (List.Pairwise.imp_of_mem ?_
      (List.pairwise_map.mp (h.parts f hf s hs)))
    intro figure figure' hfigure hfigure' hne hline
    exact hne (hsame hf hs hs hfigure hfigure' hline).2
  · refine (hw f hf).labels.imp_of_mem fun {s s'} hs hs' hne l hl l' hl' hline => ?_
    obtain ⟨figure, hfigure, rfl⟩ := List.mem_map.mp hl
    obtain ⟨figure', hfigure', rfl⟩ := List.mem_map.mp hl'
    exact hne (hsame hf hs hs' hfigure hfigure' hline).1
  · refine hnames.imp_of_mem fun {f f'} hf hf' hlt l hl l' hl' hline => ?_
    obtain ⟨s, hs, figure, hfigure, rfl⟩ := mem_family_series.mp hl
    obtain ⟨s', hs', figure', hfigure', rfl⟩ := mem_family_series.mp hl'
    have hne : f.name ≠ f'.name := String.ne_of_lt hlt
    obtain ⟨hsuffix, hsuffix', hname⟩ | ⟨hsuffix', hsuffix, hname⟩ :=
      SeriesPart.suffix_of_append hline.1 hne
    · exact h.derived f hf f' hf' s hs s' hs' _ (hmem hfigure) _
        (hmem hfigure') hsuffix hsuffix' hname hline.2
    · exact h.derived f' hf' f hf s' hs' s hs _ (hmem hfigure') _
        (hmem hfigure) hsuffix' hsuffix hname fun pair => (hline.2 pair).symm
  · obtain ⟨f, hf, hl⟩ := List.mem_flatMap.mp hl
    obtain ⟨s, hs, figure, hfigure, rfl⟩ := mem_family_series.mp hl
    have hkeys : (s.labels.map Prod.fst).Nodup :=
      List.pairwise_map.mpr ((hlabels f hf s hs).imp fun hlt => String.ne_of_lt hlt)
    show ((s.labels ++ figure.1.extra).map Prod.fst).Nodup
    rw [List.map_append, List.nodup_append]
    refine ⟨hkeys, ?_, ?_⟩
    · obtain ⟨part, value⟩ := figure
      cases part <;> simp [SeriesPart.extra]
    · intro key hkey key' hkey' heq
      obtain ⟨pair, hpair, rfl⟩ := List.mem_map.mp hkey'
      exact h.free f hf s hs _ (hmem hfigure) pair hpair (heq ▸ hkey)

end

/-- **Well-formed families have unique series just when they are unambiguous.** -/
theorem WellFormed.uniqueSeries_iff {globalTags : Tags} {owns : Registry → Adapter → Prop}
    {families : List Family} (h : WellFormed globalTags owns families) :
    UniqueSeries families ↔ Unambiguous families := by
  refine ⟨UniqueSeries.unambiguous, fun ha => ha.unique h.family h.ascending fun f hf s hs => ?_⟩
  obtain ⟨g, a, -, hlabels⟩ := h.labels f hf s hs
  exact hlabels.ascending

/-- The answer is the text of these families, whose series are unique just when nothing in them is
ambiguous. -/
structure Exported (answer : Outcome String) (families : List Family) : Prop where
  text : answer = .ok (writtenSeries families)
  unique : UniqueSeries families ↔ Unambiguous families

/-- The request for all scopes, with all meters or with those of one name. -/
def ExportRequest.merged : Option String → ExportRequest
  | none => .everything
  | some name => .acrossScopes name

namespace Directory

/-- **When exported series are unique**, of a scope and of all scopes, after any history. -/
theorem exported_iff (settings : RegistrySettings) (platform : PlatformReadings)
    (acts : List Action) (hexport : settings.requireExport = .ok ()) :
    (∀ r only, Exported (exportRegistry (reached settings platform acts) r only)
      (gather (reached settings platform acts) r only)) ∧
    ∀ only, Exported (exportText (reached settings platform acts) (.merged only))
      (gatherAll (reached settings platform acts) only) := by
  have h := coherent_reached settings platform acts
  have hn := named_reached settings platform acts
  constructor
  · intro r only
    have hwell := h.wellFormed_gather hn r only
    refine ⟨?_, hwell.uniqueSeries_iff⟩
    unfold exportRegistry
    rw [settings_reached, hexport, encode_eq_written hwell.family]
    rfl
  · intro only
    have hwell := h.wellFormed_gatherAll hn only
    refine ⟨?_, hwell.uniqueSeries_iff⟩
    unfold exportText
    rw [settings_reached, hexport]
    cases only with
    | none => exact encode_eq_written hwell.family
    | some name => exact encode_eq_written hwell.family

/-- A histogram and a gauge that is named as its sums. -/
def ambiguous : List Action :=
  [.openScope "s", .register 0 .histogram (.ofName "h") [],
    .register 0 (.gauge (.cell 0)) (.ofName "h_sum") []]

theorem exported_iff_ambiguous :
    RegistrySettings.requireExport ⟨∅, none, {}, true⟩ = .ok () ∧
      Exported (exportRegistry (reached ⟨∅, none, {}, true⟩ default ambiguous) 0 none)
        (gather (reached ⟨∅, none, {}, true⟩ default ambiguous) 0 none) := by
  have hexport : RegistrySettings.requireExport ⟨∅, none, {}, true⟩ = .ok () := rfl
  exact ⟨hexport, (exported_iff ⟨∅, none, {}, true⟩ default ambiguous hexport).1 0 none⟩

/-- A histogram with a tag that is named as its quantiles are. -/
def mislabelled : List Action :=
  [.openScope "s", .register 0 .histogram (.ofName "h") [⟨⟨"quantile", by decide⟩, "q"⟩]]

/-- **Exported series are not always unique**: of the first export two lines are `h_sum`, and in the
second one there is a line with two quantiles. -/
theorem not_uniqueSeries :
    ¬ UniqueSeries (gather (reached ⟨∅, none, {}, true⟩ default ambiguous) 0 none) ∧
      ¬ UniqueSeries (gather (reached ⟨∅, none, {}, true⟩ default mislabelled) 0 none) := by
  constructor
  · intro h
    have hpairs : (((gather (reached ⟨∅, none, {}, true⟩ default ambiguous) 0 none).flatMap
        Family.series).map fun l => (l.name, l.labels)).Pairwise
          fun p p' : String × List (String × String) =>
            ¬ (p.1 = p'.1 ∧ ∀ pair, pair ∈ p.2 ↔ pair ∈ p'.2) :=
      List.pairwise_map.mpr h.distinct
    have htwice : [("h_sum", [("scope", "s")]), ("h_sum", [("scope", "s")])].Sublist
        (((gather (reached ⟨∅, none, {}, true⟩ default ambiguous) 0 none).flatMap
          Family.series).map fun l => (l.name, l.labels)) := by
      decide +kernel
    simpa using hpairs.sublist htwice
  · intro h
    have hrepeated : ∃ l ∈ (gather (reached ⟨∅, none, {}, true⟩ default mislabelled) 0 none).flatMap
        Family.series, ¬ (l.labels.map Prod.fst).Nodup := by
      decide +kernel
    obtain ⟨l, hl, hkeys⟩ := hrepeated
    exact hkeys (h.keys l hl)

end Directory

end Telemetry
