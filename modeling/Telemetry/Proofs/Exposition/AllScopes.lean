import Telemetry.Proofs.Exposition.WellFormed

/-!
# The export of all scopes

What the export of all scopes shows of one scope is what the scope's own export shows, family for
family and in its order, as long as the scope's family is of the merged one's kind; and it shows
nothing else (`Directory.AgreesWithScopes`; specification, 6.1). A merged family is headed as that
of the first scope that has the name.

* `agreesWithScopes`: this holds after every history, for all meters and for those of one name.
  Where scopes agree on the kinds of their families, the merged export is the disjoint union of
  theirs.
-/

namespace Telemetry

/-- The sample is labelled with the scope. -/
def Sample.inScope (scope : String) (s : Sample) : Bool :=
  decide ((scopeKey.text, scope) ∈ s.labels)

/-- The samples of families, each with the name of its family. -/
def namedSamples (families : List Family) : List (String × Sample) :=
  families.flatMap fun f => f.samples.map fun s => (f.name, s)

theorem mem_namedSamples {families : List Family} {key : String} {s : Sample} :
    (key, s) ∈ namedSamples families ↔ ∃ f ∈ families, f.name = key ∧ s ∈ f.samples := by
  unfold namedSamples
  simp only [List.mem_flatMap, List.mem_map, Prod.mk.injEq]
  constructor
  · rintro ⟨f, hf, s', hs, hname, rfl⟩
    exact ⟨f, hf, hname, hs⟩
  · rintro ⟨f, hf, hname, hs⟩
    exact ⟨f, hf, s, hs, hname, rfl⟩

/-- Families whose labels differ wherever their names do not have every sample once. -/
theorem nodup_namedSamples {families : List Family} (h : ∀ f ∈ families, f.WellFormed)
    (hd : families.Pairwise fun f f' =>
      f.name = f'.name → ∀ s ∈ f.samples, ∀ s' ∈ f'.samples, s.labels ≠ s'.labels) :
    (namedSamples families).Nodup := by
  refine List.pairwise_flatMap.mpr ⟨fun f hf => ?_, hd.imp fun {f f'} hdiffer p hp p' hp' heq => ?_⟩
  · refine List.pairwise_map.mpr ((h f hf).labels.imp fun hne heq => hne ?_)
    exact congrArg Sample.labels (Prod.mk.inj heq).2
  · obtain ⟨s, hs, rfl⟩ := List.mem_map.mp hp
    obtain ⟨s', hs', rfl⟩ := List.mem_map.mp hp'
    obtain ⟨hname, hsample⟩ := Prod.mk.inj heq
    exact hdiffer hname s hs s' hs' (congrArg Sample.labels hsample)

namespace Directory

variable {d : Directory} {r : RegistryRef} {g : Registry} {only : Option String} {f f' : Family}
  {s : Sample} {scope : String}

/-- Families of one name are of one kind, whichever scopes they are of. -/
def OneKind (d : Directory) (only : Option String) : Prop :=
  ∀ scope scope' r r', d.lookup? scope = some r → d.lookup? scope' = some r' →
    ∀ f ∈ d.gather r only, ∀ f' ∈ d.gather r' only, f.name = f'.name → f.kind = f'.kind

/-- The export of all scopes shows of each what its own export shows. -/
structure AgreesWithScopes (d : Directory) (only : Option String) : Prop where
  names : ∀ key, (∃ f ∈ d.gatherAll only, f.name = key) ↔
    ∃ scope r, d.lookup? scope = some r ∧ ∃ f ∈ d.gather r only, f.name = key
  /-- A family is headed as that of the first scope that has the name. -/
  head : ∀ f ∈ d.gatherAll only, ∃ scope r, d.lookup? scope = some r ∧
    (∃ f' ∈ d.gather r only, f'.name = f.name ∧ f'.kind = f.kind ∧ f'.help = f.help) ∧
    ∀ scope' r', scope' < scope → d.lookup? scope' = some r' →
      ∀ f' ∈ d.gather r' only, f'.name ≠ f.name
  /-- Of a scope whose family is of the kind, a family has the scope's samples, in their order, -/
  samples : ∀ f ∈ d.gatherAll only, ∀ scope r, d.lookup? scope = some r →
    ∀ f' ∈ d.gather r only, f'.name = f.name → f'.kind = f.kind →
      f.samples.filter (Sample.inScope scope) = f'.samples
  /-- and of any other scope none. -/
  no_samples : ∀ f ∈ d.gatherAll only, ∀ scope,
    (∀ r, d.lookup? scope = some r → ∀ f' ∈ d.gather r only, f'.name = f.name → f'.kind ≠ f.kind) →
      f.samples.filter (Sample.inScope scope) = []
  /-- Where the kinds agree, nothing is lost, and nothing is doubled. -/
  union : d.OneKind only →
    (namedSamples (d.gatherAll only)).Perm
      (d.scopes.values.flatMap fun r => namedSamples (d.gather r only)) ∧
    (namedSamples (d.gatherAll only)).Nodup

/-! ## Names and heads -/

theorem Coherent.names_gatherAll (h : d.Coherent) (only : Option String) (key : String) :
    (∃ f ∈ d.gatherAll only, f.name = key) ↔
      ∃ scope r, d.lookup? scope = some r ∧ ∃ f ∈ d.gather r only, f.name = key := by
  rw [gatherAll_eq, exists_mem_mergeFamilies]
  constructor
  · rintro ⟨f, hf, hname⟩
    obtain ⟨scope, r, g, hs, -, -, hgather⟩ := h.mem_gatherEach.mp hf
    exact ⟨scope, r, hs, f, hgather, hname⟩
  · rintro ⟨scope, r, hs, f, hf, hname⟩
    obtain ⟨g, hr, hscope, -⟩ := (h.current scope r).mp hs
    exact ⟨f, h.mem_gatherEach.mpr ⟨scope, r, g, hs, hr, hscope, hf⟩, hname⟩

/-- The first family of a name is of the first scope that has one. -/
theorem exists_first {entries : List (String × RegistryRef)} (families : RegistryRef → List Family)
    {key : String} {first : Family} {rest : List Family}
    (hentries : entries.Pairwise fun x y => compare x.1 y.1 = .lt)
    (h : (entries.flatMap fun entry => families entry.2).filter (fun f => f.name = key) =
      first :: rest) :
    ∃ entry ∈ entries, first ∈ families entry.2 ∧ ∀ before ∈ entries, before.1 < entry.1 →
      ∀ f ∈ families before.2, f.name ≠ key := by
  induction entries with
  | nil => cases h
  | cons entry entries ih =>
    obtain ⟨hentry, hentries⟩ := List.pairwise_cons.mp hentries
    rw [List.flatMap_cons, List.filter_append] at h
    cases hfound : (families entry.2).filter (fun f => f.name = key) with
    | nil =>
      rw [hfound, List.nil_append] at h
      obtain ⟨found, hfoundMem, hfirst, hbefore⟩ := ih hentries h
      refine ⟨found, List.mem_cons_of_mem _ hfoundMem, hfirst, fun before hmem hlt => ?_⟩
      obtain rfl | hmem := List.mem_cons.mp hmem
      · intro f hf
        simpa using List.filter_eq_nil_iff.mp hfound f hf
      · exact hbefore before hmem hlt
    | cons f fs =>
      rw [hfound] at h
      cases h
      have hmem : first ∈ (families entry.2).filter fun f => f.name = key :=
        hfound ▸ List.mem_cons_self
      refine ⟨entry, List.mem_cons_self, (List.mem_filter.mp hmem).1, fun before hmem hlt => ?_⟩
      obtain rfl | hmem := List.mem_cons.mp hmem
      · exact absurd hlt (String.lt_irrefl _)
      · exact absurd (compareOfLessAndEq_eq_lt.mp (hentry before hmem)) (String.lt_asymm hlt)

/-- **A merged family is headed as that of the first scope** that has the name. -/
theorem head_gatherAll (hf : f ∈ d.gatherAll only) :
    ∃ scope r, d.lookup? scope = some r ∧
      (∃ f' ∈ d.gather r only, f'.name = f.name ∧ f'.kind = f.kind ∧ f'.help = f.help) ∧
      ∀ scope' r', scope' < scope → d.lookup? scope' = some r' →
        ∀ f' ∈ d.gather r' only, f'.name ≠ f.name := by
  rw [gatherAll_eq] at hf
  obtain ⟨⟨first, rest, hfs, hname, hkind, hhelp⟩, -⟩ :=
    Family.join_eq_some (mem_mergeFamilies.mp hf)
  unfold gatherEach at hfs
  rw [← List.flatMap_def] at hfs
  obtain ⟨⟨scope, r⟩, hentry, hfirst, hbefore⟩ :=
    exists_first (fun r => d.gather r only) d.scopes.ascending hfs
  refine ⟨scope, r, SortedMap.get?_eq_some_iff.mpr hentry,
    ⟨first, hfirst, hname.symm, hkind.symm, hhelp.symm⟩, fun scope' r' hlt hs' => ?_⟩
  exact hbefore (scope', r') (SortedMap.get?_eq_some_iff.mp hs') hlt

/-! ## The samples of one scope -/

/-- A scope's samples are labelled with it, and with no other one. -/
theorem Coherent.inScope_iff (h : d.Coherent) (hr : d.registry? r = some g)
    (hf : f ∈ d.gather r only) (hs : s ∈ f.samples) : s.inScope scope = true ↔ scope = g.scope := by
  obtain ⟨a, -, -, hlabels⟩ := h.labelled hr hf hs
  unfold Sample.inScope
  rw [decide_eq_true_eq, hlabels.scope]

/-- **The samples of one scope** are those of its families of the merged one's name and kind. -/
theorem Coherent.filter_inScope (h : d.Coherent) (hf : f ∈ d.gatherAll only) (scope : String) :
    f.samples.filter (Sample.inScope scope) = ((d.lookup? scope).map fun r =>
      ((d.gather r only).filter fun f' => f'.name = f.name ∧ f'.kind = f.kind).flatMap
        (·.samples)).getD [] := by
  rw [gatherAll_eq] at hf
  obtain ⟨-, hsamples⟩ := samples_of_mem_mergeFamilies hf
  unfold gatherEach at hsamples
  rw [hsamples, ← List.flatMap_def, List.filter_flatMap (l := d.scopes.entries), List.flatMap_assoc,
    List.filter_flatMap]
  refine Eq.trans ?_ (SortedMap.flatMap_entries d.scopes scope _)
  refine List.flatMap_congr fun entry hentry => ?_
  have hs : d.lookup? entry.1 = some entry.2 := SortedMap.get?_eq_some_iff.mpr hentry
  obtain ⟨g, hr, hscope, -⟩ := (h.current entry.1 entry.2).mp hs
  have hlabelled : ∀ s ∈ ((d.gather entry.2 only).filter fun f' =>
      f'.name = f.name ∧ f'.kind = f.kind).flatMap (·.samples),
      s.inScope scope = true ↔ scope = entry.1 := by
    intro s hs
    obtain ⟨f', hf', hs⟩ := List.mem_flatMap.mp hs
    rw [h.inScope_iff hr (List.mem_filter.mp hf').1 hs, hscope]
  split
  · rename_i hentry
    exact List.filter_eq_self.mpr fun s hs => (hlabelled s hs).mpr hentry.symm
  · rename_i hne
    exact List.filter_eq_nil_iff.mpr fun s hs heq => hne ((hlabelled s hs).mp heq).symm

/-- A scope has one family of a name. -/
theorem Coherent.filter_eq_singleton (h : d.Coherent) (hr : d.registry? r = some g)
    (hf : f ∈ d.gather r only) :
    (d.gather r only).filter (fun f' => f'.name = f.name ∧ f'.kind = f.kind) = [f] := by
  have hname : (d.gather r only).filter (fun f' => f'.name = f.name) = [f] := by
    rw [h.filter_gather hr, (h.mem_gather hr).mp hf]
    rfl
  have hboth : (fun f' : Family => decide (f'.name = f.name ∧ f'.kind = f.kind)) =
      fun f' => decide (f'.kind = f.kind) && decide (f'.name = f.name) := by
    funext f'
    rw [Bool.decide_and, Bool.and_comm]
  rw [hboth, ← List.filter_filter, hname]
  simp

/-! ## The union of the scopes -/

theorem Coherent.union (h : d.Coherent) (hn : d.Named) (hk : d.OneKind only) :
    (namedSamples (d.gatherAll only)).Perm
        (d.scopes.values.flatMap fun r => namedSamples (d.gather r only)) ∧
      (namedSamples (d.gatherAll only)).Nodup := by
  have hmerged := h.wellFormed_gatherAll hn only
  have hnodup : (namedSamples (d.gatherAll only)).Nodup :=
    nodup_namedSamples hmerged.family
      (hmerged.ascending.imp fun hlt heq => absurd heq (String.ne_of_lt hlt))
  have heach : (d.scopes.values.flatMap fun r => namedSamples (d.gather r only)) =
      namedSamples (d.gatherEach only).flatten := by
    unfold namedSamples gatherEach SortedMap.values
    rw [← List.flatMap_def, List.flatMap_assoc, List.flatMap_map]
  have hnodup' : (namedSamples (d.gatherEach only).flatten).Nodup := by
    refine nodup_namedSamples (fun f hf => ?_) (h.labels_differ only)
    obtain ⟨_, r, g, -, hr, -, hgather⟩ := h.mem_gatherEach.mp hf
    exact h.wellFormed_family hn hr hgather
  refine ⟨?_, hnodup⟩
  rw [heach, List.perm_ext_iff_of_nodup hnodup hnodup']
  rintro ⟨key, s⟩
  rw [mem_namedSamples, mem_namedSamples, gatherAll_eq]
  constructor
  · rintro ⟨f, hf, rfl, hs⟩
    rw [(samples_of_mem_mergeFamilies hf).2] at hs
    obtain ⟨f', hf', hs⟩ := List.mem_flatMap.mp hs
    obtain ⟨hf', hsame⟩ := List.mem_filter.mp hf'
    exact ⟨f', hf', (of_decide_eq_true hsame).1, hs⟩
  · rintro ⟨f', hf', rfl, hs⟩
    obtain ⟨f, hf, hname⟩ := exists_mem_mergeFamilies.mpr ⟨f', hf', rfl⟩
    obtain ⟨⟨f₀, hf₀, hname₀, hkind₀⟩, hsamples⟩ := samples_of_mem_mergeFamilies hf
    obtain ⟨scope, r, _, hscope, -, -, hgather⟩ := h.mem_gatherEach.mp hf'
    obtain ⟨scope₀, r₀, _, hscope₀, -, -, hgather₀⟩ := h.mem_gatherEach.mp hf₀
    have hkind : f'.kind = f.kind :=
      (hk scope scope₀ r r₀ hscope hscope₀ f' hgather f₀ hgather₀
        (hname.symm.trans hname₀.symm)).trans hkind₀
    refine ⟨f, hf, hname, ?_⟩
    rw [hsamples]
    exact List.mem_flatMap.mpr
      ⟨f', List.mem_filter.mpr ⟨hf', decide_eq_true ⟨hname.symm, hkind⟩⟩, hs⟩

/-- **The export of all scopes agrees with theirs**, after every history. -/
theorem agreesWithScopes (settings : RegistrySettings) (platform : PlatformReadings)
    (acts : List Action) (only : Option String) :
    AgreesWithScopes (reached settings platform acts) only := by
  have h := coherent_reached settings platform acts
  exact {
    names := h.names_gatherAll only
    head := fun f hf => head_gatherAll hf
    samples := by
      intro f hf scope r hs f' hf' hname hkind
      obtain ⟨g, hr, -⟩ := (h.current scope r).mp hs
      rw [h.filter_inScope hf, hs, Option.map_some, Option.getD_some, ← hname, ← hkind,
        h.filter_eq_singleton hr hf', List.flatMap_singleton]
    no_samples := by
      intro f hf scope hnone
      rw [h.filter_inScope hf]
      cases hs : lookup? (reached settings platform acts) scope with
      | none => rfl
      | some r =>
        rw [Option.map_some, Option.getD_some, List.filter_eq_nil_iff.mpr, List.flatMap_nil]
        intro f' hf' hsame
        obtain ⟨hname, hkind⟩ := of_decide_eq_true hsame
        exact hnone r hs f' hf' hname hkind
    union := h.union (named_reached settings platform acts) }

end Directory

end Telemetry
