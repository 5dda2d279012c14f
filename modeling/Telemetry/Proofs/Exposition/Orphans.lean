import Telemetry.Proofs.Exposition.AllScopes
import Telemetry.Proofs.Exposition.Lossless

/-!
# Greatest values and the samples that they go with

A histogram or timer exposes its greatest value beside its main sample. In the export of its scope
the greatest value is never there alone (`Coherent.not_orphan`). The merge of all scopes takes
family after family, each as the first scope that has its name; so the main sample can be left out
there, for the kind of its family, while the greatest value stays (`Coherent.orphan_iff`).

* `orphans_exact`: this holds after every history, for all meters and for those of one name. Where
  the scopes agree on the kinds of their families, no greatest value is alone.
* `not_withoutOrphans`: a histogram whose name is that of another scope's gauge leaves its greatest
  value alone.
-/

namespace Telemetry

/-- A family of the exposure's name has its sample. -/
def Exposure.In (families : List Family) (e : Exposure) : Prop :=
  ∃ f ∈ families, f.name = e.family ∧ e.sample ∈ f.samples

instance (families : List Family) (e : Exposure) : Decidable (e.In families) :=
  inferInstanceAs (Decidable (∃ f ∈ families, _))

namespace Directory

variable {d : Directory} {r : RegistryRef} {g : Registry} {only : Option String} {f : Family}
  {e main greatest : Exposure} {families : List Family} {a : Adapter}

/-- The metric's exposure is in the families: the export of its scope shows it, and they have its
sample. -/
def Contributes (d : Directory) (g : Registry) (only : Option String) (families : List Family)
    (e : Exposure) : Prop :=
  e ∈ d.shown g only ∧ e.In families

/-- A metric's greatest value is in the families without its main sample. -/
structure Orphan (d : Directory) (g : Registry) (only : Option String) (families : List Family)
    (a : Adapter) (main greatest : Exposure) : Prop where
  metric : g.metrics.get? a.id = some a
  exposures : d.exposures g a = [main, greatest]
  present : d.Contributes g only families greatest
  alone : ¬ d.Contributes g only families main

/-- No greatest value is alone, neither in the export of its scope nor in that of all scopes. -/
def WithoutOrphans (d : Directory) (only : Option String) : Prop :=
  ∀ r g a main greatest, d.registry? r = some g →
    ¬ d.Orphan g only (d.gather r only) a main greatest ∧
      (d.lookup? g.scope = some r → ¬ d.Orphan g only (d.gatherAll only) a main greatest)

/-- The kind of the first family of a name, scope after scope. -/
def headKind? (d : Directory) (only : Option String) (key : String) : Option FamilyKind :=
  ((d.gatherEach only).flatten.find? fun f => f.name = key).map (·.kind)

/-- Where greatest values are alone. -/
structure OrphansExact (d : Directory) (only : Option String) : Prop where
  /-- In the export of a scope never, -/
  own : ∀ r g a main greatest, d.registry? r = some g →
    ¬ d.Orphan g only (d.gather r only) a main greatest
  /-- and in that of all scopes just when the first family of its name is of its kind, and that of
  the main sample's name is not of the main sample's. -/
  all : ∀ r g a main greatest, d.registry? r = some g → d.lookup? g.scope = some r →
    (d.Orphan g only (d.gatherAll only) a main greatest ↔
      g.metrics.get? a.id = some a ∧ d.exposures g a = [main, greatest] ∧
        greatest ∈ d.shown g only ∧ d.headKind? only greatest.family = some greatest.kind ∧
        d.headKind? only main.family ≠ some main.kind)
  /-- So never where the scopes agree on the kinds. -/
  oneKind : d.OneKind only → d.WithoutOrphans only

/-! ## The export of a scope -/

/-- Where a greatest value is shown, so is the main sample. -/
theorem Coherent.main_shown (h : d.Coherent) (hr : d.registry? r = some g)
    (ha : g.metrics.get? a.id = some a) (hexposures : d.exposures g a = [main, greatest])
    (hshown : greatest ∈ d.shown g only) : main ∈ d.shown g only := by
  obtain ⟨meter, hmeter, hgreatest⟩ := exists_of_mem_kept hshown
  obtain ⟨id, a', m, ha', hb, -⟩ := (h.mem_metersOf hr).mp hmeter
  obtain rfl : a = a' := by
    refine h.eq_of_exposure hr ha (hb.stored ▸ ha') ?_ (hb.exposures_eq ▸ hgreatest)
    rw [hexposures]
    exact List.mem_cons_of_mem main List.mem_cons_self
  have hall : meter.exposures d.store.samples d.settings.globalTags =
      main :: (some greatest).toList := hb.exposures_eq.symm.trans hexposures
  have hne : greatest ≠ main := by
    rintro rfl
    have hnodup : (d.exposures g a).Nodup := Exposure.nodup_all ..
    simp [hexposures] at hnodup
  obtain ⟨hmain, hwith⟩ := mem_kept_iff (h.metersOf_ascending hr only) hmeter hall
  exact hmain.mpr ((hwith greatest rfl hne).mp hshown).1

/-- What a scope shows is in its export. -/
theorem Coherent.in_gather (h : d.Coherent) (hr : d.registry? r = some g)
    (he : e ∈ d.shown g only) :
    ∃ f ∈ d.gather r only, f.name = e.family ∧ f.kind = e.kind ∧ e.sample ∈ f.samples := by
  obtain ⟨f, hf⟩ := Exposure.exists_family? he
  obtain ⟨hname, hsamples, first, hfirst, hfamily, hkind, -⟩ := Exposure.family?_eq_some hf
  refine ⟨f, (h.mem_gather hr).mpr (hname.symm ▸ hf), hname, ?_, ?_⟩
  · exact hkind.trans ((apart_shown d g only).kind_eq hfirst he hfamily)
  · rw [hsamples]
    exact List.mem_map_of_mem (List.mem_filter.mpr ⟨he, by simp⟩)

/-- **In the export of a scope no greatest value is alone.** -/
theorem Coherent.not_orphan (h : d.Coherent) (hr : d.registry? r = some g) :
    ¬ d.Orphan g only (d.gather r only) a main greatest := by
  intro ho
  have hmain := h.main_shown hr ho.metric ho.exposures ho.present.1
  obtain ⟨f, hf, hname, -, hs⟩ := h.in_gather hr hmain
  exact ho.alone ⟨hmain, f, hf, hname, hs⟩

/-! ## The export of all scopes -/

/-- A merged family is of the kind of the first one. -/
theorem headKind?_eq (hf : f ∈ d.gatherAll only) : d.headKind? only f.name = some f.kind := by
  rw [gatherAll_eq] at hf
  obtain ⟨⟨first, rest, hfs, -, hkind, -⟩, -⟩ := Family.join_eq_some (mem_mergeFamilies.mp hf)
  unfold headKind?
  rw [← List.head?_filter, hfs, hkind]
  rfl

/-- **What a scope shows is in the export of all scopes** just when the first family of its name is
of its kind. -/
theorem Coherent.in_gatherAll_iff (h : d.Coherent) (hs : d.lookup? g.scope = some r)
    (hr : d.registry? r = some g) (he : e ∈ d.shown g only) :
    e.In (d.gatherAll only) ↔ d.headKind? only e.family = some e.kind := by
  obtain ⟨own, hown, hname, hkind, hsample⟩ := h.in_gather hr he
  have hscope (f : Family) (hf : f ∈ d.gatherAll only) (hfname : f.name = e.family) :
      e.sample ∈ f.samples ↔ f.kind = e.kind := by
    have hin : e.sample.inScope g.scope = true := (h.inScope_iff hr hown hsample).mpr rfl
    have hfilter := h.filter_inScope hf g.scope
    rw [hs, Option.map_some, Option.getD_some] at hfilter
    have hmem : e.sample ∈ f.samples ↔ e.sample ∈ f.samples.filter (Sample.inScope g.scope) :=
      ⟨fun h => List.mem_filter.mpr ⟨h, hin⟩, fun h => (List.mem_filter.mp h).1⟩
    rw [hmem, hfilter]
    constructor
    · intro hs
      obtain ⟨f', hf', -⟩ := List.mem_flatMap.mp hs
      obtain ⟨hf', hsame⟩ := List.mem_filter.mp hf'
      obtain ⟨hname', hkind'⟩ := of_decide_eq_true hsame
      have heq : f' = own := by
        have hfound := (h.mem_gather hr).mp hf'
        rw [hname', hfname, ← hname, (h.mem_gather hr).mp hown] at hfound
        exact (Option.some.inj hfound).symm
      rw [← hkind', heq, hkind]
    · intro heq
      refine List.mem_flatMap.mpr ⟨own, List.mem_filter.mpr ⟨hown, decide_eq_true ?_⟩, hsample⟩
      exact ⟨hname.trans hfname.symm, hkind.trans heq.symm⟩
  constructor
  · rintro ⟨f, hf, hfname, hs⟩
    rw [← hfname, headKind?_eq hf, (hscope f hf hfname).mp hs]
  · intro hhead
    obtain ⟨f, hf, hfname⟩ :=
      (h.names_gatherAll only e.family).mpr ⟨g.scope, r, hs, own, hown, hname⟩
    rw [← hfname, headKind?_eq hf] at hhead
    exact ⟨f, hf, hfname, (hscope f hf hfname).mpr (Option.some.inj hhead)⟩

/-- **A greatest value is alone** just when its family is of its kind and that of the main sample is
not. -/
theorem Coherent.orphan_iff (h : d.Coherent) (hs : d.lookup? g.scope = some r)
    (hr : d.registry? r = some g) :
    d.Orphan g only (d.gatherAll only) a main greatest ↔
      g.metrics.get? a.id = some a ∧ d.exposures g a = [main, greatest] ∧
        greatest ∈ d.shown g only ∧ d.headKind? only greatest.family = some greatest.kind ∧
        d.headKind? only main.family ≠ some main.kind := by
  constructor
  · rintro ⟨ha, hexposures, ⟨hshown, hin⟩, halone⟩
    have hmain := h.main_shown hr ha hexposures hshown
    refine ⟨ha, hexposures, hshown, (h.in_gatherAll_iff hs hr hshown).mp hin, fun hhead => ?_⟩
    exact halone ⟨hmain, (h.in_gatherAll_iff hs hr hmain).mpr hhead⟩
  · rintro ⟨ha, hexposures, hshown, hhead, hmain⟩
    refine ⟨ha, hexposures, ⟨hshown, (h.in_gatherAll_iff hs hr hshown).mpr hhead⟩, fun hin => ?_⟩
    exact hmain ((h.in_gatherAll_iff hs hr hin.1).mp hin.2)

/-- Where the scopes agree on the kinds, the first family of a name is of the kind of every other
one. -/
theorem Coherent.headKind?_of_oneKind (h : d.Coherent) (hk : d.OneKind only)
    (hs : d.lookup? g.scope = some r) (hr : d.registry? r = some g) (he : e ∈ d.shown g only) :
    d.headKind? only e.family = some e.kind := by
  obtain ⟨own, hown, hname, hkind, -⟩ := h.in_gather hr he
  obtain ⟨f, hf, hfname⟩ := (h.names_gatherAll only e.family).mpr ⟨g.scope, r, hs, own, hown, hname⟩
  obtain ⟨scope', r', hs', ⟨f', hf', hname', hkind', -⟩, -⟩ := head_gatherAll hf
  rw [← hfname, headKind?_eq hf, ← hkind', ← hkind]
  exact congrArg some (hk scope' g.scope r' r hs' hs f' hf' own hown
    (hname'.trans (hfname.trans hname.symm)))

/-- **Greatest values are alone only where a merged family is of another kind**, after every
history. -/
theorem orphans_exact (settings : RegistrySettings) (platform : PlatformReadings)
    (acts : List Action) (only : Option String) :
    OrphansExact (reached settings platform acts) only := by
  have h := coherent_reached settings platform acts
  refine ⟨fun r g a main greatest hr => h.not_orphan hr,
    fun r g a main greatest hr hs => h.orphan_iff hs hr, fun hk r g a main greatest hr => ?_⟩
  refine ⟨h.not_orphan hr, fun hs ho => ?_⟩
  obtain ⟨ha, hexposures, hshown, -, hmain⟩ := (h.orphan_iff hs hr).mp ho
  exact hmain (h.headKind?_of_oneKind hk hs hr (h.main_shown hr ha hexposures hshown))

/-- A gauge and a histogram of one name, in two scopes. -/
def ofTwoKinds : List Action :=
  [.openScope "a", .register 0 (.gauge (.cell 0)) (.ofName "h") [],
    .openScope "b", .register 1 .histogram (.ofName "h") []]

/-- **Greatest values are not always with their main samples**: the gauge is of the first scope, so
the merged family of its name has no sample of the histogram, but that of the greatest value has. -/
theorem not_withoutOrphans :
    ¬ WithoutOrphans (reached ⟨∅, none, {}, true⟩ default ofTwoKinds) none := by
  intro h
  obtain ⟨g, hr, a, -, main, -, greatest, -, hs, ha, hexposures, hpresent, halone⟩ :
      ∃ g ∈ registry? (reached ⟨∅, none, {}, true⟩ default ofTwoKinds) 1,
        ∃ a ∈ g.metrics.get? ⟨"h", ∅⟩,
          ∃ main ∈ exposures (reached ⟨∅, none, {}, true⟩ default ofTwoKinds) g a,
            ∃ greatest ∈ exposures (reached ⟨∅, none, {}, true⟩ default ofTwoKinds) g a,
              lookup? (reached ⟨∅, none, {}, true⟩ default ofTwoKinds) g.scope = some 1 ∧
                g.metrics.get? a.id = some a ∧
                exposures (reached ⟨∅, none, {}, true⟩ default ofTwoKinds) g a = [main, greatest] ∧
                (greatest ∈ shown (reached ⟨∅, none, {}, true⟩ default ofTwoKinds) g none ∧
                  greatest.In (gatherAll (reached ⟨∅, none, {}, true⟩ default ofTwoKinds) none)) ∧
                ¬ main.In (gatherAll (reached ⟨∅, none, {}, true⟩ default ofTwoKinds) none) := by
    decide +kernel
  exact (h 1 g a main greatest hr).2 hs ⟨ha, hexposures, hpresent, fun hin => halone hin.2⟩

end Directory

end Telemetry
