import Telemetry.Proofs.Directory.Exports
import Telemetry.Proofs.History.Steps

/-!
# What a scope knows of a name

All metrics of a name share one kind and one metadata, which a scope keeps as long as it has a
metric of the name (specification, 3). `givenSince` collects from a history the metadata that
successful registrations gave for a name since the scope last had no metric of it.

* `metadata_bound`: a scope knows a name just when it has a metric of it; of each field it knows
  what was given last; its metrics, their meters and what is exported of them have this kind and
  this metadata.

Registrations lay metadata over what is known (`Metadata.refine`), so of what was given each field
is found by itself (`latest_snoc`); that the meters have it too is part of being coherent.
-/

namespace Telemetry

/-! ## What was given -/

/-- The metadata of a name to which this was given: of each field the last that was set. -/
def Metadata.latest (name : String) (given : List Metadata) : Metadata :=
  ⟨name, (given.filterMap (·.givenUnit)).getLast?, (given.filterMap (·.description)).getLast?⟩

theorem Metadata.latest_snoc (name : String) (given : List Metadata) (metadata : Metadata) :
    latest name (given ++ [metadata]) = (latest name given).refine metadata := by
  have hfield : ∀ field : Metadata → Option String,
      ((given ++ [metadata]).filterMap field).getLast? =
        (field metadata).or (given.filterMap field).getLast? := by
    intro field
    rw [List.filterMap_append, List.getLast?_append]
    cases hf : field metadata <;> simp [hf]
  unfold latest refine
  rw [hfield, hfield]
  cases metadata.givenUnit <;> cases metadata.description <;> rfl

theorem Metadata.latest_singleton (metadata : Metadata) :
    latest metadata.name [metadata] = metadata := by
  obtain ⟨name, unit, description⟩ := metadata
  cases unit <;> cases description <;> rfl

/-- The metadata that an action gives for a name in a scope: a registration gives its own, when it
succeeds. -/
def Action.given? (d : Directory) (scope name : String) : Action → Option Metadata
  | .register r q metadata tags =>
    if d.lookup? scope = some r ∧ metadata.name = name ∧ (d.request r metadata tags q).1.isOk then
      some metadata
    else none
  | _ => none

namespace Directory

/-- Whether a scope exists and has a metric of the name. -/
def hasNamed (d : Directory) (scope name : String) : Bool :=
  ((d.lookup? scope).bind d.registry?).any fun g => g.hasName name

/-- What has been given after an action, from what had been given before it: it is forgotten when
the scope has no metric of the name. -/
def givenAfter (d : Directory) (scope name : String) (given : List Metadata) (act : Action) :
    List Metadata :=
  if (act.apply d).hasNamed scope name then given ++ (act.given? d scope name).toList else []

/-- What has been given after actions that were carried out in turn from `d`. -/
def givenFrom (scope name : String) : List Action → Directory → List Metadata → List Metadata
  | [], _, given => given
  | act :: acts, d, given =>
    givenFrom scope name acts (act.apply d) (d.givenAfter scope name given act)

/-- The metadata that a history gave for a name in a scope since there last was no metric of the
name, in the order of the registrations. -/
def givenSince (settings : RegistrySettings) (platform : PlatformReadings) (scope name : String)
    (acts : List Action) : List Metadata :=
  givenFrom scope name acts (new settings platform) []

variable {d d' : Directory} {r : RegistryRef} {g : Registry} {scope name : String} {act : Action}
  {e : NameEntry} {settings : RegistrySettings} {platform : PlatformReadings} {acts : List Action}

theorem givenSince_snoc (acts : List Action) (act : Action) :
    givenSince settings platform scope name (acts ++ [act]) =
      (reached settings platform acts).givenAfter scope name
        (givenSince settings platform scope name acts) act := by
  suffices ∀ d given, givenFrom scope name (acts ++ [act]) d given =
      (Action.applyAll acts d).givenAfter scope name (givenFrom scope name acts d given) act from
    this _ _
  induction acts with
  | nil => exact fun _ _ => rfl
  | cons act' acts ih => exact fun d given => ih ..

theorem hasNamed_iff (hs : d.lookup? scope = some r) (hr : d.registry? r = some g) :
    d.hasNamed scope name = true ↔ ∃ id a, g.metrics.get? id = some a ∧ id.name = name := by
  unfold hasNamed
  rw [hs, Option.bind_some, hr, Option.any_some, Registry.hasName_iff]

/-- Nothing is given for a name that the scope has no metric of. -/
theorem givenSince_unnamed (h : (reached settings platform acts).hasNamed scope name = false) :
    givenSince settings platform scope name acts = [] := by
  induction acts using List.reverseRecOn with
  | nil => rfl
  | append_singleton acts act ih =>
    rw [reached_snoc] at h
    rw [givenSince_snoc]
    unfold givenAfter
    rw [h]
    rfl

/-! ## Names -/

/-- **A scope knows the names of its metrics** and no other ones. -/
theorem Coherent.known_iff (h : d.Coherent) (hr : d.registry? r = some g) :
    (g.names.get? name).isSome ↔ ∃ id a, g.metrics.get? id = some a ∧ id.name = name := by
  rw [Option.isSome_iff_exists]
  constructor
  · rintro ⟨e, he⟩
    exact h.names_used r g name e hr he
  · rintro ⟨id, a, ha, rfl⟩
    obtain ⟨m, meter, hb⟩ := h.backed r g id a hr ha
    exact ⟨_, hb.name⟩

/-- A registry that is a scope's after an action was so before, unless it is new. -/
theorem Effect.lookup_before (he : Effect d act d') (h : d.Coherent) (h' : d'.Coherent)
    (hs : d'.lookup? scope = some r) (hr : d.registry? r = some g) : d.lookup? scope = some r := by
  obtain ⟨hscope, hdrop⟩ := h'.of_lookup hs (he.registry hr)
  refine (h.current scope r).mpr ⟨g, hr, (same_registryAfter d r g act).1 ▸ hscope, ?_⟩
  cases hd : g.dropped with
  | false => rfl
  | true => exact nomatch (dropped_registryAfter hd act).symm.trans hdrop

/-- A registration that succeeds sets what is known of its name. -/
theorem names_register (h : d.Coherent) (hr : d.registry? r = some g) (req : MetricRequest)
    (metadata : Metadata) (tags : List Tag) :
    (d.registryAfter r g (.register r req metadata tags)).names =
      if (d.request r metadata tags req).1.isOk then
        g.names.insert metadata.name ⟨g.effective metadata, req.kind⟩
      else g.names := by
  have hname := effective_name h.toLinked hr metadata
  rw [request_eq h hr]
  simp only [registryAfter, if_true]
  cases g.verdict d.settings metadata tags req with
  | refuse err => rfl
  | reuse a => exact congrArg (g.names.insert · _) hname
  | enroll id value => exact congrArg (g.names.insert · _) hname

/-- **What a scope knows of a name after an action**: what it knew before, or what a registration
gave, laid over it. -/
theorem names_registryAfter (h : d.Coherent) (hs : d.lookup? scope = some r)
    (hr : d.registry? r = some g) (he : (d.registryAfter r g act).names.get? name = some e) :
    act.given? d scope name = none ∧ g.names.get? name = some e ∨
      ∃ metadata, act.given? d scope name = some metadata ∧ metadata.name = name ∧
        e.metadata = g.effective metadata := by
  cases act with
  | register q req metadata tags =>
    by_cases hq : r = q
    · subst hq
      rw [names_register h hr] at he
      by_cases hok : (d.request r metadata tags req).1.isOk
      · rw [if_pos hok, SortedMap.get?_insert] at he
        by_cases hname : name = metadata.name
        · subst hname
          rw [if_pos rfl] at he
          cases he
          exact .inr ⟨metadata, if_pos ⟨hs, rfl, hok⟩, rfl, rfl⟩
        · rw [if_neg hname] at he
          exact .inl ⟨if_neg fun hc => hname hc.2.1.symm, he⟩
      · rw [if_neg hok] at he
        exact .inl ⟨if_neg fun hc => hok hc.2.2, he⟩
    · simp only [registryAfter, if_neg hq] at he
      exact .inl ⟨if_neg fun hc => hq (Option.some.inj (hs.symm.trans hc.1)), he⟩
  | remove q id =>
    refine .inl ⟨rfl, ?_⟩
    simp only [registryAfter] at he
    split at he
    · rw [get?_names_forgetUnused] at he
      split at he
      · cases he
      · exact he
    · exact he
  | dropScope dropped =>
    refine .inl ⟨rfl, ?_⟩
    simp only [registryAfter] at he
    split at he
    · cases he
    · exact he
  | markPlatform | mapMember =>
    refine .inl ⟨rfl, ?_⟩
    simp only [registryAfter] at he
    split at he <;> exact he
  | openScope | write | sample => exact .inl ⟨rfl, he⟩

/-- **A scope knows of a name what was given last.** -/
theorem latest_of_known (hs : (reached settings platform acts).lookup? scope = some r)
    (hr : registry? (reached settings platform acts) r = some g)
    (he : g.names.get? name = some e) :
    e.metadata = .latest name (givenSince settings platform scope name acts) := by
  induction acts using List.reverseRecOn generalizing r g e with
  | nil => cases hr
  | append_singleton acts act ih =>
    have h := coherent_reached settings platform acts
    have h' := coherent_reached settings platform (acts ++ [act])
    have hnamed : ((act.apply (reached settings platform acts)).hasNamed scope name) = true := by
      rw [← reached_snoc]
      exact (hasNamed_iff hs hr).mpr (h'.names_used r g name e hr he)
    rw [givenSince_snoc, givenAfter, if_pos hnamed]
    rw [reached_snoc] at hs hr h'
    have heffect := effect h act
    cases hr₀ : registry? (reached settings platform acts) r with
    | none =>
      obtain ⟨opened, -, -, rfl⟩ := heffect.registry_new hr₀ hr
      cases he
    | some g₀ =>
      have hs₀ := heffect.lookup_before h h' hs hr₀
      rw [heffect.registry hr₀] at hr
      cases hr
      obtain ⟨hgiven, he⟩ | ⟨metadata, hgiven, rfl, heffective⟩ := names_registryAfter h hs₀ hr₀ he
      · rw [hgiven, Option.toList_none, List.append_nil]
        exact ih hs₀ hr₀ he
      · rw [hgiven, Option.toList_some, heffective]
        unfold Registry.effective
        cases hknown : g₀.names.get? metadata.name with
        | none =>
          have hunnamed :
              (reached settings platform acts).hasNamed scope metadata.name = false := by
            rw [← Bool.not_eq_true, hasNamed_iff hs₀ hr₀, ← h.known_iff hr₀, hknown]
            exact nofun
          rw [givenSince_unnamed hunnamed, List.nil_append, Metadata.latest_singleton]
        | some e₀ =>
          rw [Metadata.latest_snoc]
          exact congrArg (Metadata.refine · metadata) (ih hs₀ hr₀ hknown)

/-! ## Meters and exports -/

/-- A meter has the metadata and the kind that its registry knows of its name. -/
theorem Coherent.meter_known (h : d.Coherent) (hr : d.registry? r = some g) {mid : MetricId}
    {m : MeterRef} (hm : d.store.find? g.store mid = some m) :
    ∃ meter, d.store.meter? m = some meter ∧ meter.id.name = mid.name ∧
      g.names.get? mid.name = some ⟨meter.metadata, meter.kind⟩ := by
  have hm' := hm
  rw [h.store r g hr] at hm'
  obtain ⟨id, a, ha, rfl⟩ := h.meter_used r g mid m hr hm'
  obtain ⟨m', meter, hb⟩ := h.backed r g id a hr ha
  have hfound := hb.found
  rw [hm] at hfound
  cases hfound
  refine ⟨meter, hb.present, congrArg MetricId.name hb.meter_id, ?_⟩
  rw [hb.meter_kind]
  exact hb.name

/-- The families of a scope are headed as its names. -/
theorem Coherent.shows (h : d.Coherent) (hr : d.registry? r = some g) {only : Option String}
    {f : Family} (hf : f ∈ d.gather r only) :
    ∃ n e, (∀ name ∈ only, n = name) ∧ g.names.get? n = some e ∧ f.Shows n e := by
  unfold gather at hf
  rw [hr] at hf
  obtain ⟨meter, hmeter, hshows⟩ := MeterStore.shows_of_mem_gather hf
  obtain ⟨mid, m, hm, hpresent, honly⟩ := MeterStore.mem_metersOf.mp hmeter
  obtain ⟨meter', hpresent', hname, he⟩ := h.meter_known hr hm
  rw [hpresent] at hpresent'
  cases hpresent'
  rw [← hname] at he honly
  exact ⟨meter.id.name, _, honly, he, hshows⟩

/-- Every name that is known has a family. -/
theorem Coherent.exists_family (h : d.Coherent) (hr : d.registry? r = some g)
    (he : g.names.get? name = some e) :
    ∃ f ∈ d.gather r (some name), f.name = expositionName name e.kind e.metadata.unit := by
  obtain ⟨id, a, ha, rfl⟩ := h.names_used r g name e hr he
  obtain ⟨m, meter, hb⟩ := h.backed r g id a hr ha
  have hlisted : meter ∈ d.store.metersOf g.store (some id.name) :=
    MeterStore.mem_metersOf.mpr ⟨g.meterId id, m, hb.found, hb.present, fun name hname =>
      Option.some.inj hname⟩
  obtain ⟨f, hf, hname⟩ := MeterStore.exists_family hlisted
  refine ⟨f, ?_, ?_⟩
  · unfold gather
    rwa [hr]
  · have hentry := hb.name
    rw [he] at hentry
    cases hentry
    rw [hname]
    unfold Meter.exposedName
    rw [hb.meter_id, hb.meter_kind]
    rfl

/-- What registry `g` of an existing scope knows of a name, when `given` was given for it. -/
structure NameBound (d : Directory) (r : RegistryRef) (g : Registry) (name : String)
    (given : List Metadata) : Prop where
  /-- Metadata and kind are known just when a metric of the name is registered. -/
  known : (g.metadata? name).isSome ↔ ∃ id a, g.metrics.get? id = some a ∧ id.name = name
  bound : (g.kindOf? name).isSome ↔ ∃ id a, g.metrics.get? id = some a ∧ id.name = name
  /-- All metrics of the name have the kind. -/
  kind : ∀ id a, g.metrics.get? id = some a → id.name = name → g.kindOf? name = some a.kind
  /-- Of each field what was given last is known; what was left open overrides nothing. -/
  metadata : ∀ metadata, g.metadata? name = some metadata → metadata = .latest name given
  /-- Every meter of the name has the metadata, and the kind. -/
  meters : ∀ mid m, d.store.find? g.store mid = some m → mid.name = name →
    ∃ meter, d.store.meter? m = some meter ∧ g.metadata? name = some meter.metadata ∧
      g.kindOf? name = some meter.kind
  /-- The name's own export has its family, and no family that is not headed as the name is. -/
  exported : ∀ e, g.names.get? name = some e →
    (∃ f ∈ d.gather r (some name), f.name = expositionName name e.kind e.metadata.unit) ∧
      ∀ f ∈ d.gather r (some name), f.Shows name e
  /-- Every family of the scope is headed as one of the names that are known. -/
  together : ∀ f ∈ d.gather r none, ∃ n e, g.names.get? n = some e ∧ f.Shows n e
  /-- So is every merged family, as one that some scope knows. -/
  merged : ∀ only, ∀ f ∈ d.gatherAll only, ∃ s q k n e, d.lookup? s = some q ∧
    d.registry? q = some k ∧ k.names.get? n = some e ∧ f.Shows n e

/-- **A scope knows of a name what was given last**, as long as it has a metric of the name, and all
its metrics, meters and exports say the same of it. -/
theorem metadata_bound (settings : RegistrySettings) (platform : PlatformReadings)
    (acts : List Action) (scope name : String) {r : RegistryRef} {g : Registry}
    (hs : (reached settings platform acts).lookup? scope = some r)
    (hr : registry? (reached settings platform acts) r = some g) :
    NameBound (reached settings platform acts) r g name
      (givenSince settings platform scope name acts) := by
  have h := coherent_reached settings platform acts
  exact {
    known := by
      rw [← h.known_iff hr, Registry.metadata?, Option.isSome_map]
    bound := by
      rw [← h.known_iff hr, Registry.kindOf?, Option.isSome_map]
    kind := by
      rintro id a ha rfl
      obtain ⟨m, meter, hb⟩ := h.backed r g id a hr ha
      exact congrArg (Option.map NameEntry.kind) hb.name
    metadata := by
      intro metadata hknown
      obtain ⟨e, he, rfl⟩ := Option.map_eq_some_iff.mp hknown
      exact latest_of_known hs hr he
    meters := by
      rintro mid m hm rfl
      obtain ⟨meter, hpresent, -, he⟩ := h.meter_known hr hm
      exact ⟨meter, hpresent, congrArg (Option.map NameEntry.metadata) he,
        congrArg (Option.map NameEntry.kind) he⟩
    exported := by
      intro e he
      refine ⟨h.exists_family hr he, fun f hf => ?_⟩
      obtain ⟨n, e', honly, he', hshows⟩ := h.shows hr hf
      obtain rfl := honly name rfl
      rw [he] at he'
      cases he'
      exact hshows
    together := by
      intro f hf
      obtain ⟨n, e, -, he, hshows⟩ := h.shows hr hf
      exact ⟨n, e, he, hshows⟩
    merged := by
      intro only f hf
      obtain ⟨f₀, hf₀, hname, hhelp⟩ := head_of_mem_merge hf
      obtain ⟨families, hfamilies, hf₀⟩ := List.mem_flatten.mp hf₀
      obtain ⟨q, hq, rfl⟩ := List.mem_map.mp hfamilies
      obtain ⟨s, hs⟩ := SortedMap.mem_values.mp hq
      obtain ⟨k, hk, -⟩ := (h.current s q).mp hs
      obtain ⟨n, e, -, he, hshows⟩ := h.shows hk hf₀
      refine ⟨s, q, k, n, e, hs, hk, he, ?_⟩
      unfold Family.Shows
      rwa [hname, hhelp] }

/-- A counter whose unit and whose description were given by registrations of different identities,
the unit twice. -/
def givenApart : List Action :=
  [.openScope "s", .register 0 .counter ⟨"n", some "days", none⟩ [],
    .register 0 .counter ⟨"n", none, some "total"⟩ [⟨appKey, "shop"⟩],
    .register 0 .counter ⟨"n", some "bytes", none⟩ []]

/-- Both identities have both. -/
theorem metadata_bound_givenApart :
    let d := reached ⟨∅, none, {}, true⟩ default givenApart
    ∃ g, d.lookup? "s" = some 0 ∧ d.registry? 0 = some g ∧
      NameBound d 0 g "n" [⟨"n", some "days", none⟩, ⟨"n", none, some "total"⟩,
        ⟨"n", some "bytes", none⟩] ∧
      g.metrics.size = 2 ∧ g.metadata? "n" = some ⟨"n", some "bytes", some "total"⟩ := by
  intro d
  have hs : d.lookup? "s" = some 0 := by decide +kernel
  obtain ⟨g, hr⟩ : ∃ g, d.registry? 0 = some g := ⟨_, rfl⟩
  have hbound := metadata_bound ⟨∅, none, {}, true⟩ default givenApart "s" "n" hs hr
  have hgiven : givenSince ⟨∅, none, {}, true⟩ default "s" "n" givenApart =
      [⟨"n", some "days", none⟩, ⟨"n", none, some "total"⟩, ⟨"n", some "bytes", none⟩] := by
    decide +kernel
  rw [hgiven] at hbound
  have hread : (d.registry? 0).map (fun g => (g.metrics.size, g.metadata? "n")) =
      some (2, some ⟨"n", some "bytes", some "total"⟩) := by
    decide +kernel
  rw [hr, Option.map_some, Option.some.injEq, Prod.mk.injEq] at hread
  exact ⟨g, hs, hr, hbound, hread⟩

end Directory

end Telemetry
