import Mathlib.Data.List.Nodup
import Telemetry.Proofs.Source.Layers

/-!
# The last writer of a setting wins

`Layer.given?` says what each kind of layer supplies for a setting: a file that does not exist
nothing, an argument that is not given nothing, the variables of an environment and the entries of a
file what the last one for the key says (`supplied?_eq_given`; specification, 6.2). A configuration
comes about exactly when every layer can be read and the last value that is supplied for each
setting is of the setting's type (`ofLayers_eq_ok`).

* `lastWriterWins_ofLayers`: so every field is the value of the last layer that gives its setting; a
  layer that gives nothing for a setting does not touch its field, a value that a later layer
  replaces has no effect, be it of a wrong type or not, and layers that give different settings can
  be put in any order.
-/

namespace Telemetry

/-! ## Settings and their keys -/

namespace Setting

/-- All settings. -/
def all : List Setting :=
  [.appName, .tags, .prometheusEnabled, .precision, .property .percentiles,
   .property .histogramBuckets, .property .timerBuckets, .property .defaultBuckets,
   .property .histogramMin, .property .histogramMax, .property .timerMin, .property .timerMax]

theorem mem_all (s : Setting) : s ∈ all := by
  cases s with
  | property p => cases p <;> decide
  | _ => decide

/-- Different settings have different keys. -/
theorem key_inj {s s' : Setting} : s.key = s'.key ↔ s = s' :=
  ⟨List.inj_on_of_nodup_map (by decide) (mem_all s) (mem_all s'), congrArg key⟩

end Setting

/-! ## What a layer gives -/

/-- What the command line gives for a setting. -/
def Arguments.given? (a : Arguments) : Setting → Option SourceValue
  | .appName => a.appName.map .text
  | .tags => a.tags.map .text
  | .prometheusEnabled => a.prometheusEnabled.map .boolean
  | .precision => a.precision.map fun n => .integer n
  | .property .percentiles => a.percentiles.map .text
  | .property .timerBuckets => a.timerBuckets.map .text
  | .property _ => none

/-- What a document has for a key, when it is a table. -/
def Document.given? (key : String) : Document → Option SourceValue
  | table entries => (lastOf? entries key).map toValue
  | _ => none

/-- What a layer gives for a setting. -/
def Layer.given? : Layer → Setting → Option SourceValue
  | file _ none, _ => none
  | file path (some content), s =>
    ((FileFormat.ofPath path).read? content).bind (Document.given? s.key)
  | environment word assignments, s =>
    lastOf? (assignments.filterMap (Environment.binding? word)) s.key
  | setting s' value, s => if s' = s then some value else none
  | arguments a, s => a.given? s

/-- Entries that may be left out. -/
theorem lastOf?_optional (o : Option (Setting × SourceValue))
    (os : List (Option (Setting × SourceValue))) (s : Setting) :
    lastOf? (((o :: os).filterMap id).map fun e => (e.1.key, e.2)) s.key =
      (lastOf? ((os.filterMap id).map fun e => (e.1.key, e.2)) s.key).or
        (o.bind fun e => if e.1 = s then some e.2 else none) := by
  cases o with
  | none => exact (Option.or_none).symm
  | some e =>
    show lastOf? ([(e.1.key, e.2)] ++ _) s.key = _
    rw [lastOf?_append, lastOf?_singleton]
    simp only [Setting.key_inj, Option.bind_some]

theorem Arguments.get?_table (a : Arguments) (s : Setting) : a.table.get? s.key = a.given? s := by
  unfold table
  rw [SortedMap.get?_ofList]
  simp only [lastOf?_optional, List.filterMap_nil, List.map_nil, lastOf?_nil, Option.bind_map]
  cases s with
  | property p => cases p <;> simp [given?, Function.comp_def, Option.map_eq_bind]
  | _ => simp [given?, Function.comp_def, Option.map_eq_bind, Option.bind_assoc]

theorem Document.get?_toTable? (document : Document) (key : String) :
    (document.toTable?.bind fun t => t.get? key) = document.given? key := by
  cases document with
  | table entries =>
    refine (SortedMap.get?_ofList ..).trans ((lastOf?_map ..).trans ?_)
    exact (Option.map_map toValue Prod.snd _).symm
  | _ => rfl

namespace Layer

variable {layers layers' : List Layer} {l l' : Layer} {s : Setting} {c : Config}

/-- **A layer supplies what its kind gives.** -/
theorem supplied?_eq_given (l : Layer) (s : Setting) : l.supplied? s = l.given? s := by
  cases l with
  | file path content =>
    cases content with
    | none => rfl
    | some content =>
      refine (Option.bind_assoc ..).trans ?_
      simp only [Document.get?_toTable?]
      rfl
  | environment word assignments => exact SortedMap.get?_ofList ..
  | setting s' value =>
    refine (SortedMap.get?_ofList ..).trans ((lastOf?_singleton ..).trans ?_)
    simp only [Setting.key_inj]
    rfl
  | arguments a => exact a.get?_table s

/-! ## The last of layers -/

/-- What a layer in the middle adds: its own values, where no later layer gives one. -/
theorem latest?_middle (before : List Layer) (l : Layer) (after : List Layer) (s : Setting) :
    latest? (before ++ l :: after) s =
    ((latest? after s).or (l.given? s)).or (latest? before s) := by
  rw [← List.singleton_append, latest?_append, latest?_append, latest?_singleton,
    supplied?_eq_given]

/-- Some layer gives the setting. -/
theorem isSome_latest? : (latest? layers s).isSome ↔ ∃ l ∈ layers, (l.given? s).isSome := by
  rw [← Option.ne_none_iff_isSome, Ne, latest?_eq_none, Classical.not_forall]
  simp only [Classical.not_imp, supplied?_eq_given, Option.ne_none_iff_isSome.symm]

/-- Where at most one of the layers gives a setting, their order does not matter for it. -/
theorem latest?_perm (hperm : layers.Perm layers')
    (halone : layers.Pairwise fun l l' => l.given? s = none ∨ l'.given? s = none) :
    latest? layers s = latest? layers' s := by
  unfold latest?
  have hgiven : (layers.filterMap (supplied? s)).Pairwise fun _ _ => False := by
    refine List.pairwise_filterMap.mpr (halone.imp fun {l l'} hl v hv v' hv' => ?_)
    rw [supplied?_eq_given] at hv hv'
    obtain hl | hl := hl
    · exact nomatch hl.symm.trans hv
    · exact nomatch hl.symm.trans hv'
  -- No two values are left, and one alone is the last in every order.
  have hperm' := hperm.filterMap (supplied? s)
  match layers.filterMap (supplied? s), hgiven, hperm' with
  | [], _, hperm' => rw [List.nil_perm.mp hperm']
  | [v], _, hperm' => rw [List.singleton_perm.mp hperm']
  | v :: v' :: _, hgiven, _ =>
    exact absurd ((List.pairwise_cons.mp hgiven).1 v' List.mem_cons_self) id

/-- Every layer can be read. -/
def Readable (layers : List Layer) : Prop := ∀ l ∈ layers, l.table?.isSome

theorem isSome_assemble? : (assemble? layers).isSome ↔ Readable layers := by
  induction layers using List.reverseRecOn with
  | nil => exact ⟨fun _ _ hl => absurd hl List.not_mem_nil, fun _ => rfl⟩
  | append_singleton layers l ih =>
    rw [assemble?_concat]
    unfold Readable at ih ⊢
    simp only [List.forall_mem_append, List.forall_mem_singleton, ← ih]
    cases assemble? layers <;> cases l.table? <;> simp

end Layer

/-! ## The configuration of layers -/

/-- What a source says for a field. -/
def FieldValue.source : FieldValue → SourceValue
  | text none => .nothing
  | text (some v) => .text v
  | flag b => .boolean b
  | number n => .integer n

/-- A field that reads a value has the value. -/
theorem Setting.source_of_read? {s : Setting} {v : SourceValue} {f : FieldValue}
    (h : s.read? (some v) = some f) : v = f.source := by
  cases s with
  | precision =>
    cases v with
    | integer n =>
      simp only [read?] at h
      split at h
      · rename_i hn
        cases h
        exact congrArg SourceValue.integer (Int.toNat_of_nonneg hn.1).symm
      · cases h
    | _ => cases h
  | _ => cases v <;> cases h <;> rfl

namespace Config

open Layer

variable {layers layers' : List Layer} {c c' : Config} {s : Setting}

/-- The field of a setting that nothing is supplied for is the default. -/
theorem read?_none (s : Setting) : s.read? none = some (field {} s) := by
  cases s with
  | property p => cases p <;> rfl
  | _ => rfl

/-- **Layers make a configuration** exactly when each can be read and the last value for each
setting is of the setting's type. -/
theorem ofLayers_eq_ok :
    ofLayers layers = .ok c ↔ Readable layers ∧
    ∀ s, s.read? (latest? layers s) = some (c.field s) := by
  rw [← isSome_assemble?]
  unfold ofLayers
  cases ht : assemble? layers with
  | none => exact ⟨nofun, fun h => nomatch h.1⟩
  | some t =>
    simp only [Option.bind_some, Option.isSome_some, true_and, ← get?_assemble ht,
      ← ofTable?_eq_some]
    cases ofTable? t <;> simp

/-- Layers that can be read alike and end in the same values make the same configuration, or
none. -/
theorem ofLayers_congr (hread : Readable layers ↔ Readable layers')
    (hlatest : ∀ s, latest? layers s = latest? layers' s) : ofLayers layers = ofLayers layers' := by
  have hiff (c : Config) : ofLayers layers = .ok c ↔ ofLayers layers' = .ok c := by
    rw [ofLayers_eq_ok, ofLayers_eq_ok, hread]
    simp only [hlatest]
  have herror (layers : List Layer) : (∃ c, ofLayers layers = .ok c) ∨
      ofLayers layers = .error .configuration := by
    unfold ofLayers
    split
    · exact .inl ⟨_, rfl⟩
    · exact .inr rfl
  obtain ⟨c, hc⟩ | he := herror layers
  · rw [hc, (hiff c).mp hc]
  · obtain ⟨c, hc⟩ | he' := herror layers'
    · rw [hc, (hiff c).mpr hc]
    · rw [he, he']

/-- A configuration by layers goes by the last layer that gives a setting. -/
structure LastWriterWins (config : List Layer → Outcome Config) : Prop where
  /-- Layers make a configuration just when each can be read and the last value given for each
  setting is of the setting's type. -/
  succeeds : ∀ layers c, config layers = .ok c ↔
    Readable layers ∧ ∀ s, s.read? (latest? layers s) = some (c.field s)
  /-- A field has the value of the last layer that gives one, -/
  last : ∀ before l after c s v, config (before ++ l :: after) = .ok c → l.given? s = some v →
    (∀ l' ∈ after, l'.given? s = none) → v = (c.field s).source
  /-- and is the default where none does. -/
  default : ∀ layers c s, config layers = .ok c → (∀ l ∈ layers, l.given? s = none) →
    c.field s = field {} s
  /-- A layer leaves the fields that it gives nothing for as they are without it. -/
  untouched : ∀ before l after c c' s, config (before ++ l :: after) = .ok c →
    config (before ++ after) = .ok c' → l.given? s = none → c.field s = c'.field s
  /-- A layer that can be read has no effect if later ones give all it gives, be it of a wrong type
  or not, -/
  overridden : ∀ before l after, l.table?.isSome →
    (∀ s, (l.given? s).isSome → ∃ l' ∈ after, (l'.given? s).isSome) →
      config (before ++ l :: after) = config (before ++ after)
  /-- and of what it gives the part that later ones give has none. -/
  partly : ∀ before l l' after, l.table?.isSome → l'.table?.isSome →
    (∀ s, l.given? s = l'.given? s ∨ ∃ l'' ∈ after, (l''.given? s).isSome) →
      config (before ++ l :: after) = config (before ++ l' :: after)
  /-- Layers that give different settings can be put in any order. -/
  commute : ∀ before ls ls' after, ls.Perm ls' →
    (ls.Pairwise fun l l' => ∀ s, l.given? s = none ∨ l'.given? s = none) →
      config (before ++ ls ++ after) = config (before ++ ls' ++ after)

/-- **The last writer of a setting wins.** -/
theorem lastWriterWins_ofLayers : LastWriterWins ofLayers where
  succeeds := fun _ _ => ofLayers_eq_ok
  last := by
    intro before l after c s v hc hgiven hafter
    have hlatest : latest? (before ++ l :: after) s = some v := by
      have hnone : latest? after s = none :=
        latest?_eq_none.mpr fun l' hl' => (supplied?_eq_given l' s).trans (hafter l' hl')
      rw [latest?_middle, hnone, hgiven]
      rfl
    exact Setting.source_of_read? (hlatest ▸ (ofLayers_eq_ok.mp hc).2 s)
  default := by
    intro layers c s hc hnone
    have hfield := (ofLayers_eq_ok.mp hc).2 s
    rw [latest?_eq_none.mpr fun l hl => (supplied?_eq_given l s).trans (hnone l hl),
      read?_none] at hfield
    exact (Option.some.inj hfield).symm
  untouched := by
    intro before l after c c' s hc hc' hnone
    have hfield := (ofLayers_eq_ok.mp hc).2 s
    rw [latest?_middle, hnone, Option.or_none, ← latest?_append,
      (ofLayers_eq_ok.mp hc').2 s] at hfield
    exact (Option.some.inj hfield).symm
  overridden := by
    intro before l after hread hlater
    refine ofLayers_congr ?_ fun s => ?_
    · unfold Readable
      simp only [List.forall_mem_append, List.forall_mem_cons, hread, true_and]
    · rw [latest?_middle, latest?_append]
      cases hgiven : l.given? s with
      | none => rw [Option.or_none]
      | some v =>
        obtain ⟨w, hw⟩ := Option.isSome_iff_exists.mp (isSome_latest?.mpr (hlater s (hgiven ▸ rfl)))
        rw [hw]
        rfl
  partly := by
    intro before l l' after hread hread' hsame
    refine ofLayers_congr ?_ fun s => ?_
    · unfold Readable
      simp only [List.forall_mem_append, List.forall_mem_cons, hread, hread']
    · rw [latest?_middle, latest?_middle]
      obtain hsame | hlater := hsame s
      · rw [hsame]
      · obtain ⟨w, hw⟩ := Option.isSome_iff_exists.mp (isSome_latest?.mpr hlater)
        rw [hw]
        rfl
  commute := by
    intro before ls ls' after hperm halone
    refine ofLayers_congr ?_ fun s => ?_
    · unfold Readable
      simp only [List.forall_mem_append, hperm.mem_iff]
    · simp only [latest?_append, latest?_perm hperm (halone.imp fun h => h s)]

/-- A precision of a wrong type in the environment refuses the layers, unless an argument gives
another one: then it has no effect. -/
theorem lastWriterWins_ofLayers_retyped :
    let wrong := Layer.environment "STRATA" [("STRATA_PERCENTILE_PRECISION", "high")]
    let named := Layer.setting .appName (.text "shop")
    let right := Layer.arguments { precision := some 2 }
    wrong.given? .precision = some (.text "high") ∧ (∀ c, ofLayers [named, wrong] ≠ .ok c) ∧
    ofLayers [named, wrong, right] = .ok { appName := "shop", precision := 2 } ∧
    ofLayers [named, wrong, right] = ofLayers [named, right] ∧
    SourceValue.integer 2 =
    (Config.field { appName := "shop", precision := 2 } .precision).source := by
  intro wrong named right
  have hexact := lastWriterWins_ofLayers
  have hgiven : wrong.given? .precision = some (.text "high") := by decide +kernel
  have hok : ofLayers [named, wrong, right] = .ok { appName := "shop", precision := 2 } := by
    decide +kernel
  refine ⟨hgiven, ?refused, hok, ?overridden, ?last⟩
  case refused =>
    intro c hc
    have hread := ((hexact.succeeds _ c).mp hc).2 .precision
    rw [show latest? [named, wrong] .precision = some (.text "high") by decide +kernel] at hread
    cases hread
  case overridden =>
    refine hexact.overridden [named] wrong [right] rfl fun s hs =>
      ⟨right, List.mem_singleton_self right, ?_⟩
    have hall : ∀ s ∈ Setting.all, (wrong.given? s).isSome → (right.given? s).isSome := by
      decide +kernel
    exact hall s (Setting.mem_all s) hs
  case last =>
    exact hexact.last [named, wrong] right [] _ .precision _ hok rfl nofun

end Config

end Telemetry
