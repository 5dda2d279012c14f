import Telemetry.Proofs.Settings.Entries
import Telemetry.Proofs.Settings.Properties

/-!
# Layers of settings

Texts of a property are put together with a semicolon between them, the later one over the earlier
one (specification, 6.2):

* the text together is accepted when both are, its fault is that of the first one that has any, and
  a name gets what the second text says if an entry of that one is for it, else what the first says
  (`Layered`);
* within one text the last entry for a name decides, and no values switch a list off (`LastWins`);
* blanks do not count, nor do blank entries and blank values (`BlanksIgnored`);
* the text of one property does not count for another, but that the default buckets are made from
  two properties of their own (`Unaffected`).

All of it holds for every property, text and name: **`lists_compose`**.
-/

namespace Telemetry

open PropertyList DistributionSettings

/-- The text is accepted. -/
def Property.Accepts (p : Property) (text : String) : Prop := ∃ l, p.parse (some text) = .ok l

section

variable {p : Property} {a b text name : String} {c : Config} {s s' : DistributionSettings}

/-! ## A text over another -/

/-- What two texts with a semicolon between them say. -/
structure Layered (p : Property) (a b : String) : Prop where
  accepted : p.Accepts (a ++ ";" ++ b) ↔ p.Accepts a ∧ p.Accepts b
  /-- The fault of the first text goes first, -/
  firstFault : ∀ e, p.parse (some a) = .error e → p.parse (some (a ++ ";" ++ b)) = .error e
  /-- then comes that of the second. -/
  secondFault : p.Accepts a → ∀ e, p.parse (some b) = .error e →
    p.parse (some (a ++ ";" ++ b)) = .error e
  /-- A name for which the second text has an entry gets what that text says, -/
  overridden : p.Accepts a → p.Accepts b → ∀ name, Named b name →
    p.resolve (some (a ++ ";" ++ b)) name = p.resolve (some b) name
  /-- any other what the first one says. -/
  inherited : p.Accepts a → p.Accepts b → ∀ name, ¬ Named b name →
    p.resolve (some (a ++ ";" ++ b)) name = p.resolve (some a) name
  /-- So it is in a configuration, whatever the other properties are, -/
  configured : ∀ c : Config, (∃ s, ofConfig (c.withProperty p (some (a ++ ";" ++ b))) = .ok s) ↔
    (∃ s, ofConfig (c.withProperty p (some a)) = .ok s) ∧
    ∃ s, ofConfig (c.withProperty p (some b)) = .ok s
  /-- the rest being accepted, it is refused as the texts are, one after the other, -/
  refused : ∀ (c : Config) s, ofConfig (c.withProperty p none) = .ok s → ∀ e,
    ofConfig (c.withProperty p (some (a ++ ";" ++ b))) = .error e ↔
      ofConfig (c.withProperty p (some a)) = .error e ∨
        (∃ sa, ofConfig (c.withProperty p (some a)) = .ok sa) ∧
        ofConfig (c.withProperty p (some b)) = .error e
  /-- and so it is in what the settings make of a histogram and of a timer. -/
  settings : ∀ (c : Config) s sa sb, ofConfig (c.withProperty p (some (a ++ ";" ++ b))) = .ok s →
    ofConfig (c.withProperty p (some a)) = .ok sa → ofConfig (c.withProperty p (some b)) = .ok sb →
    ∀ name, (Named b name → s.histogram name = sb.histogram name ∧ s.timer name = sb.timer name) ∧
      (¬ Named b name → s.histogram name = sa.histogram name ∧ s.timer name = sa.timer name)

theorem parse_append (p : Property) (a b : String) {l : PropertyList p.Value} :
    p.parse (some (a ++ ";" ++ b)) = .ok l ↔
      ∃ la lb, p.parse (some a) = .ok la ∧ p.parse (some b) = .ok lb ∧ l = la ++ lb := by
  unfold Property.parse parse
  dsimp only
  rw [entryTexts_append, mapM_append_ok]

theorem parse_append_error (p : Property) (a b : String) {e : MetricsError} :
    p.parse (some (a ++ ";" ++ b)) = .error e ↔
      p.parse (some a) = .error e ∨ p.Accepts a ∧ p.parse (some b) = .error e := by
  unfold Property.Accepts Property.parse parse
  dsimp only
  rw [entryTexts_append]
  exact mapM_append_eq_error

theorem resolve_of_parse {text : Option String} {l : PropertyList p.Value}
    (h : p.parse text = .ok l) :
    p.resolve text name = .ok (l.find? name) := by
  unfold Property.resolve
  rw [h]
  rfl

/-- A list put after another one decides for the names that its text has an entry for, -/
theorem find?_append_of_named {la lb : PropertyList p.Value} (hb : p.parse (some b) = .ok lb)
    (hname : Named b name) : (la ++ lb).find? name = lb.find? name := by
  obtain ⟨v, hv⟩ := find?_of_named hb hname
  rw [find?_append, hv]
  rfl

/-- and leaves the other names to the first one. -/
theorem find?_append_of_not_named {la lb : PropertyList p.Value} (hb : p.parse (some b) = .ok lb)
    (hname : ¬ Named b name) : (la ++ lb).find? name = la.find? name := by
  rw [find?_append, find?_of_not_named hb hname]
  rfl

/-- A name's settings are made from what its properties resolve to. -/
theorem specs_eq (hprecision : s'.precision = s.precision)
    (h : ∀ q : Property, (s'.list q).find? name = (s.list q).find? name) :
    s'.histogram name = s.histogram name ∧ s'.timer name = s.timer name := by
  have hpercentiles : s'.percentiles.find? name = s.percentiles.find? name := h .percentiles
  have hdefault : s'.defaultBuckets.find? name = s.defaultBuckets.find? name := h .defaultBuckets
  have hhistogram : s'.histogramBuckets.find? name = s.histogramBuckets.find? name :=
    h .histogramBuckets
  have hmin : s'.histogramMin.find? name = s.histogramMin.find? name := h .histogramMin
  have hmax : s'.histogramMax.find? name = s.histogramMax.find? name := h .histogramMax
  have htimer : s'.timerBuckets.find? name = s.timerBuckets.find? name := h .timerBuckets
  have htimerMin : s'.timerMin.find? name = s.timerMin.find? name := h .timerMin
  have htimerMax : s'.timerMax.find? name = s.timerMax.find? name := h .timerMax
  constructor
  · unfold histogram percentilesFor bucketsEnabled
    rw [hprecision, hpercentiles, hhistogram, hdefault, hmin, hmax]
  · unfold timer percentilesFor bucketsEnabled
    rw [hprecision, hpercentiles, htimer, hdefault, htimerMin, htimerMax]

/-- **The later text goes over the earlier one.** -/
theorem layered (p : Property) (a b : String) : Layered p a b := by
  have haccepted : p.Accepts (a ++ ";" ++ b) ↔ p.Accepts a ∧ p.Accepts b := by
    unfold Property.Accepts
    simp only [parse_append]
    constructor
    · rintro ⟨l, la, lb, ha, hb, rfl⟩
      exact ⟨⟨la, ha⟩, lb, hb⟩
    · rintro ⟨⟨la, ha⟩, lb, hb⟩
      exact ⟨la ++ lb, la, lb, ha, hb, rfl⟩
  refine
    { accepted := haccepted
      firstFault := fun e h => (parse_append_error p a b).mpr (.inl h)
      secondFault := fun ha e h => (parse_append_error p a b).mpr (.inr ⟨ha, h⟩)
      overridden := ?overridden
      inherited := ?inherited
      configured := ?configured
      refused := ?refused
      settings := ?settings }
  case overridden =>
    rintro ⟨la, ha⟩ ⟨lb, hb⟩ name hname
    rw [resolve_of_parse ((parse_append p a b).mpr ⟨la, lb, ha, hb, rfl⟩), resolve_of_parse hb,
      find?_append_of_named hb hname]
  case inherited =>
    rintro ⟨la, ha⟩ ⟨lb, hb⟩ name hname
    rw [resolve_of_parse ((parse_append p a b).mpr ⟨la, lb, ha, hb, rfl⟩), resolve_of_parse ha,
      find?_append_of_not_named hb hname]
  case configured =>
    intro c
    simp only [ofConfig_withProperty_accepts]
    constructor
    · rintro ⟨hprecision, htext, hothers⟩
      obtain ⟨ha, hb⟩ := haccepted.mp htext
      exact ⟨⟨hprecision, ha, hothers⟩, hprecision, hb, hothers⟩
    · rintro ⟨⟨hprecision, ha, hothers⟩, -, hb, -⟩
      exact ⟨hprecision, haccepted.mpr ⟨ha, hb⟩, hothers⟩
  case refused =>
    intro c s hrest e
    have hprecision := (ofConfig_withProperty_accepts.mp ⟨s, hrest⟩).1
    have hothers := (ofConfig_withProperty_accepts.mp ⟨s, hrest⟩).2.2
    rw [ofConfig_withProperty_error hrest, ofConfig_withProperty_error hrest,
      ofConfig_withProperty_error hrest, ofConfig_withProperty_accepts, parse_append_error]
    exact or_congr_right (and_congr_left fun _ =>
      ⟨fun ha => ⟨hprecision, ha, hothers⟩, fun ⟨_, ha, _⟩ => ha⟩)
  case settings =>
    intro c s sa sb hs ha hb name
    obtain ⟨hprecision, hp, hothers⟩ := list_of_withProperty hs
    obtain ⟨hprecisionA, hpA, hothersA⟩ := list_of_withProperty ha
    obtain ⟨hprecisionB, hpB, hothersB⟩ := list_of_withProperty hb
    obtain ⟨la, lb, hla, hlb, hl⟩ := (parse_append p a b).mp hp
    obtain rfl := Except.ok.inj (hla.symm.trans hpA)
    obtain rfl := Except.ok.inj (hlb.symm.trans hpB)
    refine ⟨fun hname => specs_eq (hprecision.trans hprecisionB.symm) fun q => ?_,
      fun hname => specs_eq (hprecision.trans hprecisionA.symm) fun q => ?_⟩
    · by_cases hq : q = p
      · subst hq
        rw [hl, find?_append_of_named hlb hname]
      · rw [Except.ok.inj ((hothers q hq).symm.trans (hothersB q hq))]
    · by_cases hq : q = p
      · subst hq
        rw [hl, find?_append_of_not_named hlb hname]
      · rw [Except.ok.inj ((hothers q hq).symm.trans (hothersA q hq))]

/-! ## The last entry decides -/

/-- The list of the property is empty for the name. -/
def SwitchedOff (s : DistributionSettings) (name : String) : Property → Prop
  | .percentiles => (s.histogram name).percentiles = [] ∧ (s.timer name).percentiles = []
  | .histogramBuckets => (s.histogram name).buckets = []
  | .timerBuckets => (s.timer name).buckets = []
  | _ => True

/-- What a text says of a name. -/
structure LastWins (p : Property) (text : String) : Prop where
  /-- The last entry for the name gives its value, -/
  decided : p.Accepts text → ∀ name entry, Decides text name entry →
    ∃ own values v, entry = own ++ '=' :: values ∧ '=' ∉ own ∧ p.read (Text.trim values) = .ok v ∧
      p.resolve (some text) name = .ok (some v)
  /-- and without one the text says nothing. -/
  undecided : p.Accepts text → ∀ name, ¬ Named text name → p.resolve (some text) name = .ok none
  /-- An entry without values switches the list off; no default takes its place. -/
  switchedOff : ∀ c s, ofConfig c = .ok s → c.property p = some text → ∀ name own values,
    Decides text name (own ++ '=' :: values) → '=' ∉ own →
    (∀ ch ∈ values, ch = ',' ∨ Text.isBlank ch) → SwitchedOff s name p

theorem sortDistinct_nil : sortDistinct [] = [] := by
  unfold sortDistinct
  rw [List.mergeSort_nil]
  rfl

/-- No values are read as the empty list. -/
theorem readNumbers_of_no_values {cs : List Char} (h : splitValues cs = []) :
    readNumbers cs = .ok [] := by
  unfold readNumbers
  rw [h]
  exact congrArg Except.ok sortDistinct_nil

theorem readPercentiles_of_no_values {cs : List Char} (h : splitValues cs = []) :
    readPercentiles cs = .ok [] := by
  unfold readPercentiles
  rw [readNumbers_of_no_values h]
  rfl

theorem readDurations_of_no_values {cs : List Char} (h : splitValues cs = []) :
    readDurations cs = .ok [] := by
  unfold readDurations
  rw [h]
  exact congrArg Except.ok sortDistinct_nil

/-- **The last entry for a name decides.** -/
theorem lastWins (p : Property) (text : String) : LastWins p text := by
  refine { decided := ?decided, undecided := ?undecided, switchedOff := ?switchedOff }
  case decided =>
    rintro ⟨l, hl⟩ name entry hentry
    obtain ⟨own, values, v, hsplit, hown, hv, hfind⟩ := find?_of_decides hl hentry
    exact ⟨own, values, v, hsplit, hown, hv, by rw [resolve_of_parse hl, hfind]⟩
  case undecided =>
    rintro ⟨l, hl⟩ name hname
    rw [resolve_of_parse hl, find?_of_not_named hl hname]
  case switchedOff =>
    intro c s hs htext name own values hdecides hown hvalues
    have hl := (ofConfig_eq_ok.mp hs).2.2 p
    rw [htext] at hl
    obtain ⟨own', values', v, hsplit, hown', hv, hfind⟩ := find?_of_decides hl hdecides
    obtain ⟨rfl, rfl⟩ : own = own' ∧ values = values' := by
      have hcut := Text.cut?_eq_some_iff.mpr ⟨hsplit, hown'⟩
      rw [Text.cut?_eq_some_iff.mpr ⟨rfl, hown⟩] at hcut
      exact Prod.mk.inj (Option.some.inj hcut)
    have hnone : splitValues (Text.trim values) = [] := by
      rw [splitValues_eq, Text.parts_trim (by decide), Text.parts_of_all (by decide) hvalues]
    cases p with
    | percentiles =>
      have hempty : s.percentiles.find? name = some [] :=
        hfind.trans
          (congrArg some (Except.ok.inj (hv.symm.trans (readPercentiles_of_no_values hnone))))
      have hfor : s.percentilesFor name = [] := by
        unfold percentilesFor
        rw [hempty]
        rfl
      exact ⟨hfor, hfor⟩
    | histogramBuckets =>
      have hempty : s.histogramBuckets.find? name = some [] :=
        hfind.trans (congrArg some (Except.ok.inj (hv.symm.trans (readNumbers_of_no_values hnone))))
      show (s.histogramBuckets.find? name).getD _ = []
      rw [hempty]
      rfl
    | timerBuckets =>
      have hempty : s.timerBuckets.find? name = some [] :=
        hfind.trans
          (congrArg some (Except.ok.inj (hv.symm.trans (readDurations_of_no_values hnone))))
      show (s.timerBuckets.find? name).getD _ = []
      rw [hempty]
      rfl
    | _ => trivial

/-! ## Blanks -/

/-- Values that differ in blanks only: around them, and in a list also around and between its
elements. -/
def Property.SameValues : Property → List Char → List Char → Prop
  | .percentiles | .histogramBuckets | .timerBuckets => Text.Respaced ','
  | _ => fun values values' => Text.trim values = Text.trim values'

/-- Two readings that agree up to the words in which an entry at fault is quoted. -/
inductive SameReading {α : Type} : Outcome α → Outcome α → Prop where
  | same (r : Outcome α) : SameReading r r
  | requoted (p : Property) (entry entry' : String) (fault : EntryFault) :
      SameReading (.error (.invalidDistribution p entry fault))
        (.error (.invalidDistribution p entry' fault))

/-- Reading all of a list depends on how each element is read. -/
theorem SameReading.mapM {α β : Type} {k : α → Outcome β} {x x' : α} (h : SameReading (k x) (k x'))
    (before after : List α) :
    SameReading ((before ++ x :: after).mapM k) ((before ++ x' :: after).mapM k) := by
  rw [List.mapM_append, List.mapM_append, List.mapM_cons, List.mapM_cons]
  generalize k x = r, k x' = r' at h
  cases before.mapM k with
  | error e => exact .same (.error e)
  | ok l =>
    cases h with
    | same => exact .same _
    | requoted p entry entry' fault => exact .requoted p entry entry' fault

structure BlanksIgnored (p : Property) : Prop where
  /-- Blanks around entries and blank entries change neither the list nor the error. -/
  entries : ∀ text text' : String, Text.Respaced ';' text.toList text'.toList →
    p.parse (some text) = p.parse (some text')
  /-- Blanks around the name of an entry and around its values change neither the list nor the
  fault. -/
  inside : ∀ a own own' values values' b : String,
    '=' ∉ own.toList → '=' ∉ own'.toList → ';' ∉ own.toList → ';' ∉ own'.toList →
    ';' ∉ values.toList → ';' ∉ values'.toList →
    Text.trim own.toList = Text.trim own'.toList → p.SameValues values.toList values'.toList →
    SameReading (p.parse (some (a ++ ";" ++ (own ++ "=" ++ values) ++ ";" ++ b)))
      (p.parse (some (a ++ ";" ++ (own' ++ "=" ++ values') ++ ";" ++ b)))

theorem read_of_sameValues {values values' : List Char} (h : p.SameValues values values') :
    p.read (Text.trim values) = p.read (Text.trim values') := by
  have hsplit : Text.Respaced ',' values values' →
      splitValues (Text.trim values) = splitValues (Text.trim values') := fun hspaced => by
    rw [splitValues_eq, splitValues_eq, Text.parts_trim (by decide), Text.parts_trim (by decide),
      hspaced.parts_eq (by decide)]
  cases p with
  | percentiles =>
    show readPercentiles _ = readPercentiles _
    unfold readPercentiles readNumbers
    rw [hsplit h]
  | histogramBuckets =>
    show readNumbers _ = readNumbers _
    unfold readNumbers
    rw [hsplit h]
  | timerBuckets =>
    show readDurations _ = readDurations _
    unfold readDurations
    rw [hsplit h]
  | _ => exact congrArg _ h

/-- An entry is a text's only one. -/
theorem entryTexts_of_entry {own values : String} (hown : ';' ∉ own.toList)
    (hvalues : ';' ∉ values.toList) :
    entryTexts (own ++ "=" ++ values) = [Text.trim (own.toList ++ '=' :: values.toList)] := by
  have hlist : (own ++ "=" ++ values).toList = own.toList ++ '=' :: values.toList := by
    rw [String.toList_append, String.toList_append, List.append_assoc]
    rfl
  have hsep : ';' ∉ own.toList ++ '=' :: values.toList := by
    rw [List.mem_append, List.mem_cons]
    rintro (h | h | h)
    exacts [hown h, absurd h (by decide), hvalues h]
  have hne : (Text.trim (own.toList ++ '=' :: values.toList)).isEmpty = false :=
    Text.isEmpty_trim_of_mem (List.mem_append_right _ List.mem_cons_self) (by decide)
  rw [entryTexts_eq, hlist, Text.parts, Text.splitOn_of_not_mem hsep, List.map_singleton,
    List.filter_cons_of_pos (by rw [hne]; rfl), List.filter_nil]

/-- **Blanks do not count.** -/
theorem blanksIgnored (p : Property) : BlanksIgnored p := by
  refine { entries := ?entries, inside := ?inside }
  case entries =>
    intro text text' h
    unfold Property.parse parse
    dsimp only
    rw [entryTexts_eq, entryTexts_eq, h.parts_eq (by decide)]
  case inside =>
    intro a own own' values values' b hown hown' hsep hsep' hvsep hvsep' htrim hsame
    have hread : readEntry p.read (own.toList ++ '=' :: values.toList) =
        readEntry p.read (own'.toList ++ '=' :: values'.toList) :=
      readEntry_congr hown hown' htrim (read_of_sameValues hsame)
    unfold Property.parse parse
    dsimp only
    rw [entryTexts_append, entryTexts_append, entryTexts_append, entryTexts_append,
      entryTexts_of_entry hsep hvsep, entryTexts_of_entry hsep' hvsep', List.append_assoc,
      List.append_assoc, List.singleton_append, List.singleton_append]
    refine SameReading.mapM ?_ _ _
    rw [readEntry_trim, readEntry_trim, hread]
    cases readEntry p.read (own'.toList ++ '=' :: values'.toList) with
    | error fault => exact .requoted p _ _ fault
    | ok e => exact .same (.ok e)

/-! ## One property and the others -/

/-- What is the same in the settings with another text for one property. -/
structure Unaffected (c : Config) (p : Property) (s s' : DistributionSettings) (name : String) :
    Prop where
  percentiles : p ≠ .percentiles →
    (s'.histogram name).percentiles = (s.histogram name).percentiles ∧
    (s'.timer name).percentiles = (s.timer name).percentiles
  histogramMin : p ≠ .histogramMin → (s'.histogram name).minValue = (s.histogram name).minValue
  histogramMax : p ≠ .histogramMax → (s'.histogram name).maxValue = (s.histogram name).maxValue
  timerMin : p ≠ .timerMin → (s'.timer name).minValue = (s.timer name).minValue
  timerMax : p ≠ .timerMax → (s'.timer name).maxValue = (s.timer name).maxValue
  /-- Two properties besides its own count for the default buckets of a histogram, -/
  histogramBuckets : p ≠ .histogramBuckets → p ≠ .defaultBuckets → p ≠ .histogramMax →
    (s'.histogram name).buckets = (s.histogram name).buckets
  /-- one for those of a timer, -/
  timerBuckets : p ≠ .timerBuckets → p ≠ .defaultBuckets →
    (s'.timer name).buckets = (s.timer name).buckets
  /-- and none where buckets are configured. -/
  explicitHistogram : p ≠ .histogramBuckets →
    (∃ text, c.histogramBuckets = some text ∧ Named text name) →
    (s'.histogram name).buckets = (s.histogram name).buckets
  explicitTimer : p ≠ .timerBuckets → (∃ text, c.timerBuckets = some text ∧ Named text name) →
    (s'.timer name).buckets = (s.timer name).buckets
  precision : (s'.histogram name).precision = (s.histogram name).precision ∧
    (s'.timer name).precision = (s.timer name).precision

/-- **A property is read for itself.** -/
theorem unaffected {text : Option String} (hs : ofConfig c = .ok s)
    (hs' : ofConfig (c.withProperty p text) = .ok s') (name : String) :
    Unaffected c p s s' name := by
  obtain ⟨-, hprecision, hlists⟩ := ofConfig_eq_ok.mp hs
  obtain ⟨hprecision', -, hothers⟩ := list_of_withProperty hs'
  have hsame : ∀ q : Property, p ≠ q → s'.list q = s.list q := fun q hq =>
    Except.ok.inj ((hothers q (Ne.symm hq)).symm.trans (hlists q))
  have hpercentiles : p ≠ .percentiles → s'.percentilesFor name = s.percentilesFor name :=
    fun hp => by
    unfold percentilesFor
    rw [show s'.percentiles = s.percentiles from hsame .percentiles hp]
  have henabled : p ≠ .defaultBuckets → s'.bucketsEnabled name = s.bucketsEnabled name :=
    fun hp => by
    unfold bucketsEnabled
    rw [show s'.defaultBuckets = s.defaultBuckets from hsame .defaultBuckets hp]
  refine
    { percentiles := fun hp => ⟨hpercentiles hp, hpercentiles hp⟩
      histogramMin := fun hp => congrArg (find? · name) (hsame .histogramMin hp)
      histogramMax := fun hp => congrArg (find? · name) (hsame .histogramMax hp)
      timerMin := fun hp => congrArg (find? · name) (hsame .timerMin hp)
      timerMax := fun hp => congrArg (find? · name) (hsame .timerMax hp)
      histogramBuckets := ?histogramBuckets
      timerBuckets := ?timerBuckets
      explicitHistogram := ?explicitHistogram
      explicitTimer := ?explicitTimer
      precision := ⟨hprecision'.trans hprecision.symm, hprecision'.trans hprecision.symm⟩ }
  case histogramBuckets =>
    intro hp hdefault hmax
    unfold histogram
    rw [show s'.histogramBuckets = s.histogramBuckets from hsame .histogramBuckets hp,
      show s'.histogramMax = s.histogramMax from hsame .histogramMax hmax, henabled hdefault]
  case timerBuckets =>
    intro hp hdefault
    unfold timer
    rw [show s'.timerBuckets = s.timerBuckets from hsame .timerBuckets hp, henabled hdefault]
  case explicitHistogram =>
    rintro hp ⟨t, ht, hname⟩
    have hl := hlists .histogramBuckets
    rw [show c.property .histogramBuckets = some t from ht] at hl
    obtain ⟨v, hv⟩ : ∃ v, s.histogramBuckets.find? name = some v := find?_of_named hl hname
    unfold histogram
    rw [show s'.histogramBuckets = s.histogramBuckets from hsame .histogramBuckets hp, hv]
    rfl
  case explicitTimer =>
    rintro hp ⟨t, ht, hname⟩
    have hl := hlists .timerBuckets
    rw [show c.property .timerBuckets = some t from ht] at hl
    obtain ⟨v, hv⟩ : ∃ v, s.timerBuckets.find? name = some v := find?_of_named hl hname
    unfold timer
    rw [show s'.timerBuckets = s.timerBuckets from hsame .timerBuckets hp, hv]
    rfl

end

/-- **Lists of settings compose**: over all properties, texts and names, later texts go over earlier
ones, the last entry for a name wins, blanks do not count, and a property is read for itself. -/
theorem lists_compose :
    (∀ (p : Property) (a b : String), Layered p a b) ∧
    (∀ (p : Property) (text : String), LastWins p text) ∧ (∀ p : Property, BlanksIgnored p) ∧
    ∀ (c : Config) (p : Property) (text : Option String) (s s' : DistributionSettings),
      ofConfig c = .ok s → ofConfig (c.withProperty p text) = .ok s' →
        ∀ name : String, Unaffected c p s s' name :=
  ⟨layered, lastWins, blanksIgnored, fun _ _ _ _ _ hs hs' name => unaffected hs hs' name⟩

/-- A text with a wildcard, put under one that has an entry for a single name and switches its list
off: that name gets what the later text says, a name of the wildcard what the earlier one says, and
what is configured of another property stays. -/
theorem lists_compose_overridden :
    let a := "http.*= 0.5;jobs=0.9"
    let b := "http.health= ,"
    let c : Config := { histogramMax := some "http.*=500" }
    let text := fun text : String => c.withProperty .percentiles (some text)
    ∃ s sa sb s₀, ofConfig (text (a ++ ";" ++ b)) = .ok s ∧ ofConfig (text a) = .ok sa ∧
      ofConfig (text b) = .ok sb ∧ ofConfig c = .ok s₀ ∧
      s.histogram "http.health" = sb.histogram "http.health" ∧
      s.histogram "http.requests" = sa.histogram "http.requests" ∧
      Unaffected c .percentiles s₀ s "http.health" := by
  intro a b c text
  obtain ⟨hlayered, -, -, hunaffected⟩ := lists_compose
  obtain ⟨s, hs⟩ := exists_of_isOk
    (show (ofConfig (text (a ++ ";" ++ b))).isOk = true by decide +kernel)
  obtain ⟨sa, ha⟩ := exists_of_isOk (show (ofConfig (text a)).isOk = true by decide +kernel)
  obtain ⟨sb, hb⟩ := exists_of_isOk (show (ofConfig (text b)).isOk = true by decide +kernel)
  obtain ⟨s₀, h₀⟩ := exists_of_isOk (show (ofConfig c).isOk = true by decide +kernel)
  have hnamed : Named b "http.health" := by decide +kernel
  have hother : ¬ Named b "http.requests" := by decide +kernel
  have hsettings := (hlayered .percentiles a b).settings c s sa sb hs ha hb
  refine ⟨s, sa, sb, s₀, hs, ha, hb, h₀, ?later, ?earlier, ?rest⟩
  case later => exact ((hsettings "http.health").1 hnamed).1
  case earlier => exact ((hsettings "http.requests").2 hother).1
  case rest => exact hunaffected c .percentiles _ s₀ s h₀ hs "http.health"

example : ((ofConfig { percentiles := some "http.*= 0.5;;http.health= ," }).map fun s =>
    ["http.requests", "http.health", "jobs"].map fun name =>
      (s.histogram name).percentiles).toOption =
        some [[decimal 5 (-1)], [], defaultPercentiles] := by decide +kernel

end Telemetry
