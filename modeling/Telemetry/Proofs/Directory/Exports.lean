import Mathlib.Data.List.Basic
import Telemetry.Proofs.Store
import Telemetry.Scrape.Endpoint

/-!
# What exports are made from

Exports show the meters that scope stores list, and nothing else of a directory's meters.
Directories that agree on what is listed (`SameShown`) answer every export alike, be it asked of a
registry, of the exporter or of a scrape endpoint.

Each family has the name and the help of a meter that is listed (`MeterStore.shows_of_mem_gather`),
and each meter that is listed has a family (`MeterStore.exists_family`).
-/

namespace Telemetry

/-! ## Families -/

/-- The family is headed as the meters of a name are that have this metadata and kind: the unit is
in its name, and the help is theirs. -/
def Family.Shows (f : Family) (name : String) (e : NameEntry) : Prop :=
  f.help = e.metadata.help ∧
    (f.name = expositionName name e.kind e.metadata.unit ∨
      f.name = expositionName name e.kind e.metadata.unit ++ "_max")

/-- The name of the family of a meter. -/
def Meter.exposedName (m : Meter) : String := expositionName m.id.name m.kind m.metadata.unit

namespace Families

variable {families : Families} {name help key : String} {sample : Sample} {f : Family} {m : Meter}
  {meters : List Meter} {samples : Samples} {commonTags : Tags}

/-- The first sample of a family decides how it is headed. -/
theorem get?_push (h : (families.push name help sample).2.get? key = some f) :
    (∃ f₀, families.get? key = some f₀ ∧ f.name = f₀.name ∧ f.help = f₀.help) ∨
      key = name ∧ f.name = name ∧ f.help = help := by
  unfold push at h
  cases hf : families.get? name with
  | none =>
    rw [hf] at h
    simp only [SortedMap.get?_insert] at h
    split at h
    · rename_i hkey
      cases h
      exact .inr ⟨hkey, rfl, rfl⟩
    · exact .inl ⟨f, h, rfl, rfl⟩
  | some f₀ =>
    rw [hf] at h
    simp only at h
    split at h
    · exact .inl ⟨f, h, rfl, rfl⟩
    · simp only [SortedMap.get?_insert] at h
      split at h
      · rename_i hkey
        cases h
        exact .inl ⟨f₀, hkey ▸ hf, rfl, rfl⟩
      · exact .inl ⟨f, h, rfl, rfl⟩

theorem contains_push :
    (families.push name help sample).2.contains key = true ↔
      key = name ∨ families.contains key = true := by
  simp only [SortedMap.contains_iff]
  unfold push
  cases hf : families.get? name with
  | none =>
    simp only [SortedMap.get?_insert]
    by_cases hkey : key = name <;> simp [hkey]
  | some f₀ =>
    simp only
    split
    · constructor
      · exact .inr
      · rintro (rfl | hold)
        · exact ⟨f₀, hf⟩
        · exact hold
    · simp only [SortedMap.get?_insert]
      by_cases hkey : key = name <;> simp [hkey]

/-- Families stand under their names, and are headed as one of the meters. -/
def Show (families : Families) (meters : List Meter) : Prop :=
  ∀ key f, families.get? key = some f →
    f.name = key ∧ ∃ m ∈ meters, f.Shows m.id.name ⟨m.metadata, m.kind⟩

theorem Show.push (h : families.Show meters) (hm : m ∈ meters) (sample : Sample)
    (hname : name = m.exposedName ∨ name = m.exposedName ++ "_max") :
    Show (families.push name m.metadata.help sample).2 meters := by
  intro key f hf
  obtain ⟨f₀, hf₀, hn, hh⟩ | ⟨rfl, hn, hh⟩ := get?_push hf
  · obtain ⟨hkey, m', hm', hshows⟩ := h key f₀ hf₀
    refine ⟨hn.trans hkey, m', hm', ?_⟩
    unfold Family.Shows
    rwa [hn, hh]
  · refine ⟨hn, m, hm, hh, ?_⟩
    rw [hn]
    exact hname

/-- A meter adds its main sample, and after that one at most. -/
theorem addMeter_eq (samples : Samples) (commonTags : Tags) (families : Families) (m : Meter) :
    ∃ main, families.addMeter samples commonTags m =
        (families.push m.exposedName m.metadata.help main).2 ∨
      ∃ greatest, families.addMeter samples commonTags m =
        (push (families.push m.exposedName m.metadata.help main).2 (m.exposedName ++ "_max")
          m.metadata.help greatest).2 := by
  refine ⟨⟨labelsOf commonTags m.id.tags, (m.exposed samples).1⟩, ?_⟩
  unfold Families.addMeter Meter.exposedName
  obtain ⟨main, greatest⟩ := m.exposed samples
  simp only
  generalize families.push _ m.metadata.help _ = pushed
  obtain ⟨taken, families'⟩ := pushed
  cases taken with
  | false => exact .inl rfl
  | true =>
    cases greatest with
    | none => exact .inl rfl
    | some value => exact .inr ⟨⟨labelsOf commonTags m.id.tags, value⟩, rfl⟩

theorem Show.addMeter (h : families.Show meters) (hm : m ∈ meters) :
    Show (families.addMeter samples commonTags m) meters := by
  obtain ⟨main, heq | ⟨greatest, heq⟩⟩ := addMeter_eq samples commonTags families m
  · rw [heq]
    exact h.push hm main (.inl rfl)
  · rw [heq]
    exact (h.push hm main (.inl rfl)).push hm greatest (.inr rfl)

theorem contains_addMeter (h : key = m.exposedName ∨ families.contains key = true) :
    (families.addMeter samples commonTags m).contains key = true := by
  obtain ⟨main, heq | ⟨greatest, heq⟩⟩ := addMeter_eq samples commonTags families m
  · rw [heq]
    exact contains_push.mpr h
  · rw [heq]
    exact contains_push.mpr (.inr (contains_push.mpr h))

theorem show_foldl (meters : List Meter) :
    Show (meters.foldl (Families.addMeter samples commonTags) ∅) meters :=
  List.foldlRecOn (motive := fun families => Show families meters) meters _ nofun
    fun _ h _ hm => h.addMeter hm

theorem contains_foldl (hm : m ∈ meters) :
    (meters.foldl (Families.addMeter samples commonTags) ∅).contains m.exposedName = true := by
  suffices ∀ (ms : List Meter) (families : Families),
      m ∈ ms ∨ families.contains m.exposedName = true →
        (ms.foldl (Families.addMeter samples commonTags) families).contains
          m.exposedName = true from
    this meters ∅ (.inl hm)
  intro ms
  induction ms with
  | nil => exact fun _ h => h.resolve_left List.not_mem_nil
  | cons m' ms ih =>
    intro families h
    refine ih _ ?_
    obtain hms | hold := h
    · obtain rfl | hms := List.mem_cons.mp hms
      · exact .inr (contains_addMeter (.inl rfl))
      · exact .inl hms
    · exact .inr (contains_addMeter (.inr hold))

end Families

namespace MeterStore

variable {s : MeterStore} {n : ScopeRef} {only : Option String} {meter : Meter} {f : Family}

/-- The meters of an export are those that the scope store lists. -/
theorem mem_metersOf :
    meter ∈ s.metersOf n only ↔
      ∃ mid m, s.find? n mid = some m ∧ s.meter? m = some meter ∧
        ∀ name ∈ only, mid.name = name := by
  unfold metersOf
  cases hc : s.scope? n with
  | none => simp [find?, hc]
  | some c =>
    simp only [List.mem_filterMap, List.mem_filter, Prod.exists, find?_eq hc,
      SortedMap.get?_eq_some_iff]
    cases only <;> simp [and_assoc, and_comm, and_left_comm]

/-- **Every family is headed as a meter that is listed.** -/
theorem shows_of_mem_gather (hf : f ∈ s.gather n only) :
    ∃ meter ∈ s.metersOf n only, f.Shows meter.id.name ⟨meter.metadata, meter.kind⟩ := by
  unfold gather at hf
  split at hf
  · cases hf
  · obtain ⟨key, hkey⟩ := SortedMap.mem_values.mp hf
    exact (Families.show_foldl _ key f hkey).2

/-- **Every meter that is listed has a family.** -/
theorem exists_family (hm : meter ∈ s.metersOf n only) :
    ∃ f ∈ s.gather n only, f.name = meter.exposedName := by
  cases hc : s.scope? n with
  | none =>
    unfold metersOf at hm
    rw [hc] at hm
    cases hm
  | some c =>
    unfold gather
    rw [hc]
    obtain ⟨f, hf⟩ := SortedMap.contains_iff.mp (Families.contains_foldl hm)
    exact ⟨f, SortedMap.mem_values.mpr ⟨_, hf⟩, (Families.show_foldl _ _ f hf).1⟩

end MeterStore

/-- **Merging keeps the head of the first family** of a name. -/
theorem head_of_mem_merge {lists : List (List Family)} {f : Family} (hf : f ∈ mergeFamilies lists) :
    ∃ f₀ ∈ lists.flatten, f.name = f₀.name ∧ f.help = f₀.help := by
  obtain ⟨key, hkey⟩ := SortedMap.mem_values.mp hf
  refine List.foldlRecOn (motive := fun merged : Families => ∀ key f, merged.get? key = some f →
    ∃ f₀ ∈ lists.flatten, f.name = f₀.name ∧ f.help = f₀.help) lists.flatten _
    (fun _ _ h => nomatch (SortedMap.get?_empty _).symm.trans h) ?_ key f hkey
  intro merged h family hfamily key f hget
  have hinsert : ∀ f₁, (∃ f₀ ∈ lists.flatten, f₁.name = f₀.name ∧ f₁.help = f₀.help) →
      (merged.insert family.name f₁).get? key = some f →
        ∃ f₀ ∈ lists.flatten, f.name = f₀.name ∧ f.help = f₀.help := by
    intro f₁ hf₁ hget
    rw [SortedMap.get?_insert] at hget
    split at hget
    · cases hget
      exact hf₁
    · exact h key f hget
  split at hget
  · exact hinsert _ ⟨family, hfamily, rfl, rfl⟩ hget
  · rename_i first hfirst
    split at hget
    · exact hinsert { first with samples := first.samples ++ family.samples }
        (h _ first hfirst) hget
    · exact h key f hget

namespace Directory

/-- All that exports show is the same. -/
structure SameShown (d d' : Directory) : Prop where
  settings : d'.settings = d.settings
  scopes : d'.scopes = d.scopes
  store : ∀ r, (d'.registry? r).map (·.store) = (d.registry? r).map (·.store)
  scope : ∀ n, d'.store.scope? n = d.store.scope? n
  samples : d'.store.samples = d.store.samples
  listed : ∀ n id m, d.store.find? n id = some m → d'.store.meter? m = d.store.meter? m

namespace SameShown

variable {d d' : Directory} {r : RegistryRef} {name : Option String}

theorem metersOf (h : SameShown d d') (n : ScopeRef) (name : Option String) :
    d'.store.metersOf n name = d.store.metersOf n name := by
  unfold MeterStore.metersOf
  rw [h.scope]
  cases hc : d.store.scope? n with
  | none => rfl
  | some c =>
    refine List.filterMap_congr fun e he => ?_
    have hget : c.meters.get? e.1 = some e.2 :=
      SortedMap.get?_eq_some_iff.mpr (List.mem_filter.mp he).1
    exact h.listed n e.1 e.2 ((MeterStore.find?_eq hc).trans hget)

theorem gather (h : SameShown d d') (r : RegistryRef) (name : Option String) :
    d'.gather r name = d.gather r name := by
  have hstore : ∀ n, d'.store.gather n name = d.store.gather n name := by
    intro n
    unfold MeterStore.gather
    rw [h.scope, h.metersOf, h.samples]
  have hr := h.store r
  unfold Directory.gather
  cases hg : d.registry? r with
  | none =>
    rw [hg, Option.map_none, Option.map_eq_none_iff] at hr
    rw [hr]
  | some g =>
    rw [hg, Option.map_some, Option.map_eq_some_iff] at hr
    obtain ⟨g', hg', heq⟩ := hr
    rw [hg']
    simp only [heq, hstore]

theorem meterCount (h : SameShown d d') (r : RegistryRef) : d'.meterCount r = d.meterCount r := by
  have hcount : ∀ n, d'.store.meterCount n = d.store.meterCount n := by
    intro n
    unfold MeterStore.meterCount
    rw [h.scope]
  have hr := h.store r
  unfold Directory.meterCount
  cases hg : d.registry? r with
  | none =>
    rw [hg, Option.map_none, Option.map_eq_none_iff] at hr
    rw [hr]
    rfl
  | some g =>
    rw [hg, Option.map_some, Option.map_eq_some_iff] at hr
    obtain ⟨g', hg', heq⟩ := hr
    rw [hg', Option.map_some, Option.map_some, heq, hcount]

/-- A registry's own export. -/
theorem exportRegistry (h : SameShown d d') (r : RegistryRef) (name : Option String) :
    d'.exportRegistry r name = d.exportRegistry r name := by
  unfold Directory.exportRegistry
  rw [h.settings, h.gather]

theorem answerExport (h : SameShown d d') (request : ExportRequest) :
    d'.answerExport request = d.answerExport request := by
  have hall : ∀ name, d'.gatherAll name = d.gatherAll name := by
    intro name
    unfold Directory.gatherAll
    rw [h.scopes, funext fun r => h.gather r name]
  cases request with
  | everything => exact congrArg encode (hall none)
  | scope scope =>
    simp only [Directory.answerExport, lookup?, h.scopes]
    split
    · rfl
    · rw [h.meterCount, h.gather]
  | metric scope name =>
    simp only [Directory.answerExport, lookup?, h.scopes]
    split
    · rfl
    · rw [h.gather]
  | acrossScopes name => exact congrArg encode (hall (some name))

/-- The exporter's answer. -/
theorem exportText (h : SameShown d d') (request : ExportRequest) :
    d'.exportText request = d.exportText request := by
  unfold Directory.exportText
  rw [h.settings, h.answerExport]

/-- The answer of a scrape endpoint. -/
theorem scrape (h : SameShown d d') (e : ScrapeEndpoint) (request : ScrapeRequest) :
    e.answer d' request = e.answer d request := by
  have hparams : ∀ scope name, ScrapeEndpoint.answerParams d' scope name =
      ScrapeEndpoint.answerParams d scope name := by
    intro scope name
    unfold ScrapeEndpoint.answerParams scopeExists
    rw [h.scopes, h.answerExport]
  unfold ScrapeEndpoint.answer
  rw [h.settings]
  simp only [hparams]

end SameShown

/-- Whoever is asked for an export, the answer is the same. -/
structure SameExports (d d' : Directory) : Prop where
  text : ∀ request, d'.exportText request = d.exportText request
  registry : ∀ r name, d'.exportRegistry r name = d.exportRegistry r name
  scrape : ∀ (e : ScrapeEndpoint) request, e.answer d' request = e.answer d request

theorem SameShown.exports {d d' : Directory} (h : SameShown d d') : SameExports d d' :=
  ⟨h.exportText, h.exportRegistry, h.scrape⟩

end Directory

end Telemetry
