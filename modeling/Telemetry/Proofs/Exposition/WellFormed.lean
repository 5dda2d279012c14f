import Telemetry.Proofs.Exposition.Gathered
import Telemetry.Proofs.Exposition.Merging

/-!
# Exports are well formed

After every history the export of a scope, and the merged export of all of them, is `WellFormed`
(specification, 4.7):

* the families ascend by name, and each has a valid name and samples, all of its kind and with
  different labels (`Family.WellFormed`);
* the labels of a sample are those of a metric (`Sample.LabelledAs`): they ascend by key, the
  scope's label is the metric's own scope, and other keys have the metric's tag, or else the global
  one;
* they can be written (`encode_eq`), so that no export is refused for what it has to write.

`wellFormed_exports` says this of every registry, every name and every request.
-/

namespace Telemetry

/-- A family that can be written. -/
structure Family.WellFormed (f : Family) : Prop where
  name : isExposedName f.name = true
  samples : f.samples ≠ []
  kind : ∀ s ∈ f.samples, s.value.kind = f.kind
  labels : f.samples.Pairwise fun s s' => s.labels ≠ s'.labels

/-- The labels are those of a metric of a scope with these tags of its own, over the global ones. -/
structure Sample.LabelledAs (globalTags : Tags) (scope : String) (tags : Tags) (s : Sample) :
    Prop where
  ascending : s.labels.Pairwise fun l l' => l.1 < l'.1
  keys : ∀ l ∈ s.labels, isTagName l.1 = true
  /-- Whatever the global tags say. -/
  scope : ∀ value, (scopeKey.text, value) ∈ s.labels ↔ value = scope
  /-- The metric's own tag comes before the global one. -/
  value : ∀ key value, key ≠ scopeKey →
    ((key.text, value) ∈ s.labels ↔ (tags.get? key).or (globalTags.get? key) = some value)
  global : ∀ key ∈ globalTags.keys, ∃ value, (key.text, value) ∈ s.labels

/-- Families that can be written, of metrics as `owns` says. -/
structure WellFormed (globalTags : Tags) (owns : Registry → Adapter → Prop)
    (families : List Family) : Prop where
  ascending : families.Pairwise fun f f' => f.name < f'.name
  family : ∀ f ∈ families, f.WellFormed
  labels : ∀ f ∈ families, ∀ s ∈ f.samples,
    ∃ g a, owns g a ∧ s.LabelledAs globalTags g.scope a.id.tags

/-- What a request can be refused for: it is never for what there is to write. -/
inductive ExportRequest.Refusal : ExportRequest → MetricsError → Prop where
  /-- The active backend does not export. -/
  | backend (request : ExportRequest) (name : String) : Refusal request (.exportUnsupported name)
  | noScope (scope : String) : Refusal (.scope scope) (.scopeNotFound scope)
  | emptyScope (scope : String) : Refusal (.scope scope) (.scopeEmpty scope)
  | noScopeOfMetric (scope name : String) : Refusal (.metric scope name) (.scopeNotFound scope)
  | noMetric (scope name : String) : Refusal (.metric scope name) (.metricNotFound scope name)

/-! ## Writing -/

/-- What comes before the samples of a family. -/
def Family.header (f : Family) : String :=
  (if f.help = "" then "" else "# HELP " ++ f.name ++ " " ++ escape false f.help ++ "\n") ++
    ("# TYPE " ++ f.name ++ " " ++ f.kind.name ++ "\n")

theorem Family.WellFormed.text_eq {f : Family} (h : f.WellFormed) :
    f.text = .ok (f.header ++ String.join (f.samples.flatMap (Sample.lines f.name))) := by
  unfold Family.text
  rw [if_neg (by simpa using h.samples), if_neg (ne_empty_of_isExposedName h.name)]
  rfl

/-- **Well-formed families can be written.** -/
theorem encode_eq {families : List Family} (h : ∀ f ∈ families, f.WellFormed) :
    encode families = .ok (String.join (families.map fun f =>
      f.header ++ String.join (f.samples.flatMap (Sample.lines f.name)))) := by
  unfold encode
  rw [mapM_ok fun f hf => (h f hf).text_eq]

namespace Directory

variable {d : Directory} {r : RegistryRef} {g : Registry} {a : Adapter} {only : Option String}
  {f : Family} {s : Sample} {key : String}

/-! ## One scope -/

/-- The labels of a metric's samples. -/
theorem labelledAs (d : Directory) (g : Registry) (a : Adapter) {e : Exposure}
    (he : e ∈ d.exposures g a) :
    e.sample.LabelledAs d.settings.globalTags g.scope a.id.tags := by
  have hlabels : e.sample.labels = labelsOf d.settings.globalTags (g.meterId a.id).tags :=
    Exposure.labels_of_mem_all he
  have hget : ∀ key, (g.meterId a.id).tags.get? key =
      if key = scopeKey then some g.scope else a.id.tags.get? key := fun key =>
    SortedMap.get?_insert ..
  have hmem : ∀ key value, (key.text, value) ∈ e.sample.labels ↔
      (((g.meterId a.id).tags.get? key).or (d.settings.globalTags.get? key)) = some value := by
    intro key value
    rw [hlabels]
    exact mem_labelsOf
  exact {
    ascending := hlabels ▸ labelsOf_ascending ..
    keys := fun l hl => isTagName_of_mem_labelsOf (hlabels ▸ hl)
    scope := by
      intro value
      rw [hmem, hget, if_pos rfl, Option.some_or, Option.some.injEq, eq_comm]
    value := by
      intro key value hkey
      rw [hmem, hget, if_neg hkey]
    global := by
      intro key hkey
      obtain ⟨value, hvalue⟩ := SortedMap.mem_keys.mp hkey
      simp only [hmem, hvalue]
      cases (g.meterId a.id).tags.get? key with
      | none => exact ⟨value, rfl⟩
      | some own => exact ⟨own, rfl⟩ }

/-- **The samples of a scope are labelled as its metrics.** -/
theorem Coherent.labelled (h : d.Coherent) (hr : d.registry? r = some g) (hf : f ∈ d.gather r only)
    (hs : s ∈ f.samples) :
    ∃ a, g.metrics.get? a.id = some a ∧ (∀ name ∈ only, a.id.name = name) ∧
      s.LabelledAs d.settings.globalTags g.scope a.id.tags := by
  rw [(Exposure.family?_eq_some ((h.mem_gather hr).mp hf)).2.1] at hs
  obtain ⟨e, he, rfl⟩ := List.mem_map.mp hs
  obtain ⟨a, ha, honly, hexposed⟩ := h.exists_of_mem_shown hr (List.mem_filter.mp he).1
  exact ⟨a, ha, honly, d.labelledAs g a hexposed⟩

/-- **The families of a scope are well formed.** -/
theorem Coherent.wellFormed_family (h : d.Coherent) (hn : d.Named) (hr : d.registry? r = some g)
    (hf : f ∈ d.gather r only) : f.WellFormed := by
  have hapart := apart_shown d g only
  obtain ⟨-, hsamples, first, hfirst, hname, hkind, -⟩ :=
    Exposure.family?_eq_some ((h.mem_gather hr).mp hf)
  have hfamily : ∀ e ∈ (d.shown g only).filter (fun e => e.family = f.name), e.family = f.name :=
    fun e he => of_decide_eq_true (List.mem_filter.mp he).2
  exact {
    name := hname ▸ h.isExposedName_family hn hr hfirst
    samples := by
      rw [hsamples]
      exact List.ne_nil_of_mem
        (List.mem_map_of_mem (List.mem_filter.mpr ⟨hfirst, by simpa using hname⟩))
    kind := by
      intro s hs
      rw [hsamples] at hs
      obtain ⟨e, he, rfl⟩ := List.mem_map.mp hs
      rw [hkind]
      exact hapart.kind_eq (List.mem_filter.mp he).1 hfirst ((hfamily e he).trans hname.symm)
    labels := by
      rw [hsamples]
      refine List.pairwise_map.mpr ((hapart.filter _).imp_of_mem fun he he' hc heq => ?_)
      exact hc ⟨(hfamily _ he).trans (hfamily _ he').symm, .inr heq⟩ }

theorem gather_none (hr : d.registry? r = none) : d.gather r only = [] := by
  unfold gather
  rw [hr]

/-- **The export of a scope is well formed.** -/
theorem Coherent.wellFormed_gather (h : d.Coherent) (hn : d.Named) (r : RegistryRef)
    (only : Option String) :
    WellFormed d.settings.globalTags
      (fun g a => d.registry? r = some g ∧ g.metrics.get? a.id = some a ∧
        ∀ name ∈ only, a.id.name = name)
      (d.gather r only) := by
  cases hr : d.registry? r with
  | none =>
    rw [gather_none hr]
    exact ⟨.nil, nofun, nofun⟩
  | some g =>
    refine ⟨h.gather_ascending hr only, fun f hf => h.wellFormed_family hn hr hf,
      fun f hf s hs => ?_⟩
    obtain ⟨a, ha, honly, hlabels⟩ := h.labelled hr hf hs
    exact ⟨g, a, ⟨rfl, ha, honly⟩, hlabels⟩

/-! ## All scopes -/

/-- The families of every existing scope, one scope after the other. -/
def gatherEach (d : Directory) (only : Option String) : List (List Family) :=
  d.scopes.entries.map fun entry => d.gather entry.2 only

theorem gatherAll_eq (d : Directory) (only : Option String) :
    d.gatherAll only = mergeFamilies (d.gatherEach only) := by
  unfold gatherAll gatherEach SortedMap.values
  rw [List.map_map]
  rfl

/-- A family of the scopes is that of a scope. -/
theorem Coherent.mem_gatherEach (h : d.Coherent) :
    f ∈ (d.gatherEach only).flatten ↔ ∃ scope r g, d.lookup? scope = some r ∧
      d.registry? r = some g ∧ g.scope = scope ∧ f ∈ d.gather r only := by
  unfold gatherEach
  rw [← List.flatMap_def, List.mem_flatMap]
  constructor
  · rintro ⟨⟨scope, r⟩, hentry, hf⟩
    have hs : d.lookup? scope = some r := SortedMap.get?_eq_some_iff.mpr hentry
    obtain ⟨g, hr, hscope, -⟩ := (h.current scope r).mp hs
    exact ⟨scope, r, g, hs, hr, hscope, hf⟩
  · rintro ⟨scope, r, g, hs, -, -, hf⟩
    exact ⟨(scope, r), SortedMap.get?_eq_some_iff.mp hs, hf⟩

/-- Families of one name are of different scopes, which their labels tell. -/
theorem Coherent.labels_differ (h : d.Coherent) (only : Option String) :
    (d.gatherEach only).flatten.Pairwise fun f f' =>
      f.name = f'.name → ∀ s ∈ f.samples, ∀ s' ∈ f'.samples, s.labels ≠ s'.labels := by
  have hregistry : ∀ entry ∈ d.scopes.entries, ∃ g, d.registry? entry.2 = some g ∧
      g.scope = entry.1 := by
    intro entry hentry
    obtain ⟨g, hr, hscope, -⟩ :=
      (h.current entry.1 entry.2).mp (SortedMap.get?_eq_some_iff.mpr hentry)
    exact ⟨g, hr, hscope⟩
  refine List.pairwise_flatten.mpr ⟨?_, List.pairwise_map.mpr (d.scopes.ascending.imp_of_mem ?_)⟩
  · intro families hfamilies
    obtain ⟨entry, hentry, rfl⟩ := List.mem_map.mp hfamilies
    obtain ⟨g, hr, -⟩ := hregistry entry hentry
    exact (h.gather_ascending hr only).imp fun hlt heq => absurd heq (String.ne_of_lt hlt)
  · intro x y hx hy hxy f hf f' hf' _ s hs s' hs' heq
    obtain ⟨g, hr, hscope⟩ := hregistry x hx
    obtain ⟨g', hr', hscope'⟩ := hregistry y hy
    obtain ⟨a, -, -, hlabels⟩ := h.labelled hr hf hs
    obtain ⟨a', -, -, hlabels'⟩ := h.labelled hr' hf' hs'
    have hsame : g.scope = g'.scope := by
      rw [← hlabels'.scope, ← heq, hlabels.scope]
    rw [← hscope, ← hscope', hsame] at hxy
    simp at hxy

/-- **The merged export is well formed.** -/
theorem Coherent.wellFormed_gatherAll (h : d.Coherent) (hn : d.Named) (only : Option String) :
    WellFormed d.settings.globalTags
      (fun g a => ∃ scope r, d.lookup? scope = some r ∧ d.registry? r = some g ∧ g.scope = scope ∧
        g.metrics.get? a.id = some a ∧ ∀ name ∈ only, a.id.name = name)
      (d.gatherAll only) := by
  rw [gatherAll_eq]
  refine ⟨mergeFamilies_ascending _, fun f hf => ?_, fun f hf s hs => ?_⟩
  · obtain ⟨⟨f₀, hf₀, hname, hkind⟩, hsamples⟩ := samples_of_mem_mergeFamilies hf
    obtain ⟨_, r₀, g₀, -, hr₀, -, hgather₀⟩ := h.mem_gatherEach.mp hf₀
    have hwell := h.wellFormed_family hn hr₀ hgather₀
    have hpart : ∀ f' ∈ (d.gatherEach only).flatten.filter
        (fun f' => f'.name = f.name ∧ f'.kind = f.kind),
        f'.WellFormed ∧ f'.name = f.name ∧ f'.kind = f.kind := by
      intro f' hf'
      obtain ⟨hf', hsame⟩ := List.mem_filter.mp hf'
      obtain ⟨_, r', g', -, hr', -, hgather'⟩ := h.mem_gatherEach.mp hf'
      exact ⟨h.wellFormed_family hn hr' hgather', of_decide_eq_true hsame⟩
    exact {
      name := hname ▸ hwell.name
      samples := by
        obtain ⟨s, hs⟩ := List.exists_mem_of_ne_nil _ hwell.samples
        rw [hsamples]
        refine List.ne_nil_of_mem (List.mem_flatMap.mpr ⟨f₀, List.mem_filter.mpr ⟨hf₀, ?_⟩, hs⟩)
        exact decide_eq_true ⟨hname, hkind⟩
      kind := by
        intro s hs
        rw [hsamples] at hs
        obtain ⟨f', hf', hs⟩ := List.mem_flatMap.mp hs
        obtain ⟨hwell', -, hkind'⟩ := hpart f' hf'
        rw [hwell'.kind s hs, hkind']
      labels := by
        rw [hsamples]
        refine List.pairwise_flatMap.mpr ⟨fun f' hf' => (hpart f' hf').1.labels, ?_⟩
        refine ((h.labels_differ only).filter _).imp_of_mem fun hf₁ hf₂ hdiffer => ?_
        exact hdiffer ((hpart _ hf₁).2.1.trans (hpart _ hf₂).2.1.symm) }
  · rw [(samples_of_mem_mergeFamilies hf).2] at hs
    obtain ⟨f', hf', hs⟩ := List.mem_flatMap.mp hs
    obtain ⟨scope, r, g, hscope, hr, hg, hgather⟩ := h.mem_gatherEach.mp (List.mem_filter.mp hf').1
    obtain ⟨a, ha, honly, hlabels⟩ := h.labelled hr hgather hs
    exact ⟨g, a, ⟨scope, r, hscope, hr, hg, ha, honly⟩, hlabels⟩

/-! ## Answers -/

/-- Whatever is exported is well formed, and is written. -/
structure WellFormedExports (d : Directory) : Prop where
  scope : ∀ r only, WellFormed d.settings.globalTags
    (fun g a => d.registry? r = some g ∧ g.metrics.get? a.id = some a ∧
      ∀ name ∈ only, a.id.name = name)
    (d.gather r only)
  merged : ∀ only, WellFormed d.settings.globalTags
    (fun g a => ∃ scope r, d.lookup? scope = some r ∧ d.registry? r = some g ∧ g.scope = scope ∧
      g.metrics.get? a.id = some a ∧ ∀ name ∈ only, a.id.name = name)
    (d.gatherAll only)
  /-- A registry's export is a text, or refused for the backend. -/
  registry : ∀ r only error, d.exportRegistry r only = .error error →
    ∃ backend, error = .exportUnsupported backend
  /-- The exporter's answer is a text too, or refused for the backend, the scope or the metric. -/
  exporter : ∀ request error, d.exportText request = .error error → request.Refusal error

theorem requireExport_error {settings : RegistrySettings} {error : MetricsError}
    (h : settings.requireExport = .error error) :
    ∃ backend, error = .exportUnsupported backend := by
  unfold RegistrySettings.requireExport at h
  split at h
  · cases h
  · cases h
    exact ⟨_, rfl⟩

/-- What is refused after the check of the backend is refused by it or for the answer. -/
theorem bind_error {check : Outcome Unit} {answer : Outcome String} {error : MetricsError}
    (h : (check >>= fun _ => answer) = .error error) :
    check = .error error ∨ answer = .error error := by
  cases check with
  | error e =>
    cases h
    exact .inl rfl
  | ok _ => exact .inr h

theorem encode_ne_error {families : List Family} (h : ∀ f ∈ families, f.WellFormed)
    (error : MetricsError) : encode families ≠ .error error := by
  rw [encode_eq h]
  nofun

/-- The exporter writes what there is to write. -/
theorem Coherent.refusal (h : d.Coherent) (hn : d.Named) {request : ExportRequest}
    {error : MetricsError} (herror : d.answerExport request = .error error) :
    request.Refusal error := by
  have hgather : ∀ r only, encode (d.gather r only) ≠ .error error := fun r only =>
    encode_ne_error (h.wellFormed_gather hn r only).family error
  have hgatherAll : ∀ only, encode (d.gatherAll only) ≠ .error error := fun only =>
    encode_ne_error (h.wellFormed_gatherAll hn only).family error
  cases request with
  | everything => exact absurd herror (hgatherAll none)
  | acrossScopes name => exact absurd herror (hgatherAll (some name))
  | scope scope =>
    simp only [answerExport] at herror
    split at herror
    · cases herror
      exact .noScope scope
    · split at herror
      · cases herror
        exact .emptyScope scope
      · exact absurd herror (hgather _ _)
  | metric scope name =>
    simp only [answerExport] at herror
    split at herror
    · cases herror
      exact .noScopeOfMetric scope name
    · split at herror
      · cases herror
        exact .noMetric scope name
      · exact absurd herror (hgather _ _)

/-- **Exports are well formed** after every history, and never refused for what they have to
write. -/
theorem wellFormed_exports (settings : RegistrySettings) (platform : PlatformReadings)
    (acts : List Action) : WellFormedExports (reached settings platform acts) := by
  have h := coherent_reached settings platform acts
  have hn := named_reached settings platform acts
  refine ⟨h.wellFormed_gather hn, h.wellFormed_gatherAll hn, ?_, ?_⟩
  · intro r only error herror
    obtain hcheck | hencode := bind_error herror
    · exact requireExport_error hcheck
    · exact absurd hencode (encode_ne_error (h.wellFormed_gather hn r only).family error)
  · intro request error herror
    obtain hcheck | hanswer := bind_error herror
    · obtain ⟨backend, rfl⟩ := requireExport_error hcheck
      exact .backend request backend
    · exact h.refusal hn hanswer

end Directory

end Telemetry
