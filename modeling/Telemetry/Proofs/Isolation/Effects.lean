import Telemetry.Proofs.Isolation.Twins

/-!
# The same effect on both sides

Each effect, made on paired registries of two directories that are alike, leaves them alike. What
comes in takes the next number on either side, so those two are paired from then on (`Alike.enroll`,
`Alike.found`).
-/

namespace Telemetry

namespace Directory

variable {ρ ρ' : Pairing} {t : String} {d d' : Directory} {r r' : RegistryRef}

/-! ## One registry changed -/

/-- Registries after paired ones were changed. -/
theorem Alike.modifyRegistry (h : Alike t ρ d d') (hr : ρ.rel .registry r r') (hle : ρ ≤ ρ')
    {f f' : Registry → Registry}
    (hf : ∀ g g', g.Match ρ g' → (f g).scope = g.scope ∧ (f g).Match ρ' (f' g'))
    {d₁ d₁' : Directory} (h₁ : d₁.registries = d.registries.modify r f)
    (h₁' : d₁'.registries = d'.registries.modify r' f') {q q' : RegistryRef}
    (hq : ρ.rel .registry q q') :
    Both (fun g g' => g.scope = t ∧ g.Match ρ' g') (d₁.registry? q) (d₁'.registry? q') := by
  have hone := registry?_modifyRegistry d r f q
  have hother := registry?_modifyRegistry d' r' f' q'
  unfold Directory.modifyRegistry registry? at hone hother
  unfold registry?
  rw [h₁, h₁', hone, hother]
  refine (h.registry q q' hq).modify (Pairing.eq_iff hq hr) ?_ ?_
  · rintro g g' ⟨hscope, hm⟩
    exact ⟨(hf g g' hm).1.trans hscope, (hf g g' hm).2⟩
  · rintro g g' ⟨hscope, hm⟩
    exact ⟨hscope, hm.mono hle⟩

/-- Scope stores after paired ones were changed. -/
theorem Alike.modifyScope (h : Alike t ρ d d') (hr : ρ.rel .registry r r') (hle : ρ ≤ ρ')
    {f f' : ScopeStore → ScopeStore}
    (hf : ∀ c c', c.meters.Match (ρ.rel .meter) c'.meters →
      (f c).meters.Match (ρ'.rel .meter) (f' c').meters)
    {s s' : MeterStore} (hs : s.scopes = d.store.scopes.modify r f)
    (hs' : s'.scopes = d'.store.scopes.modify r' f') {q q' : RegistryRef}
    (hq : ρ.rel .registry q q') :
    Both (fun c c' => c.meters.Match (ρ'.rel .meter) c'.meters) (s.scope? q) (s'.scope? q') := by
  have hone := MeterStore.scope?_modifyScope d.store r f q
  have hother := MeterStore.scope?_modifyScope d'.store r' f' q'
  unfold MeterStore.modifyScope MeterStore.scope? at hone hother
  unfold MeterStore.scope?
  rw [hs, hs', hone, hother]
  exact (h.store q q' hq).modify (Pairing.eq_iff hq hr) hf fun _ _ hm =>
    hm.mono fun _ _ => hle _ _ _

theorem taken_modifyRegistry (d : Directory) (r : RegistryRef) (f : Registry → Registry) :
    (d.modifyRegistry r f).taken = d.taken := by
  funext k
  cases k with
  | registry => exact List.length_modify ..
  | _ => rfl

/-- A change of paired registries alone, of mappings for example. -/
theorem Alike.mark (h : Alike t ρ d d') (hr : ρ.rel .registry r r') {f f' : Registry → Registry}
    (hf : ∀ g g', g.Match ρ g' → (f g).scope = g.scope ∧ (f g).Match ρ (f' g')) :
    Alike t ρ (d.modifyRegistry r f) (d'.modifyRegistry r' f') where
  settings := h.settings
  platform := h.platform
  below := by
    rw [taken_modifyRegistry, taken_modifyRegistry]
    exact h.below
  current := h.current
  registry := fun _ _ hq => h.modifyRegistry hr (fun _ _ _ hm => hm) hf rfl rfl hq
  store := h.store
  meter := h.meter
  cell := h.cell

/-! ## Describing -/

/-- Paired meters are meters of the same names. -/
theorem Alike.named_iff (h : Alike t ρ d d') (hr : ρ.rel .registry r r') {m m' : MeterRef}
    (hm : ρ.rel .meter m m') (name : String) :
    d.store.Named r name m ↔ d'.store.Named r' name m' := by
  obtain ⟨c, c', hc, hc', hmatch⟩ := h.store r r' hr
  unfold MeterStore.Named
  simp only [MeterStore.find?_eq hc, MeterStore.find?_eq hc']
  constructor
  · rintro ⟨id, hid, hname⟩
    obtain ⟨n, hn, hmn⟩ := exists_of_rel_left (hmatch.get? id) hid
    exact ⟨id, hn.trans (congrArg some ((ρ.unique .meter).2 hmn hm)), hname⟩
  · rintro ⟨id, hid, hname⟩
    obtain ⟨n, hn, hmn⟩ := exists_of_rel_right (hmatch.get? id) hid
    exact ⟨id, hn.trans (congrArg some ((ρ.unique .meter).1 hmn hm)), hname⟩

theorem taken_describe (d : Directory) (r : RegistryRef) (metadata : Metadata) (kind : MetricKind) :
    (d.describe r metadata kind).taken = d.taken := by
  have hrest := MeterStore.refreshMetadata_eq d.store r metadata
  funext k
  cases k with
  | registry => exact List.length_modify ..
  | meter => exact MeterStore.length_meters_refreshMetadata ..
  | cell =>
    show (d.store.refreshMetadata r metadata).samples.cells.length = _
    rw [hrest]
    rfl
  | adapter => rfl

theorem Alike.describe (h : Alike t ρ d d') (hr : ρ.rel .registry r r') (metadata : Metadata)
    (kind : MetricKind) :
    Alike t ρ (d.describe r metadata kind) (d'.describe r' metadata kind) := by
  classical
  have hrest := MeterStore.refreshMetadata_eq d.store r metadata
  have hrest' := MeterStore.refreshMetadata_eq d'.store r' metadata
  have hsamples : (d.describe r metadata kind).store.samples = d.store.samples := by
    show (d.store.refreshMetadata r metadata).samples = _
    rw [hrest]
  have hsamples' : (d'.describe r' metadata kind).store.samples = d'.store.samples := by
    show (d'.store.refreshMetadata r' metadata).samples = _
    rw [hrest']
  exact {
    settings := h.settings
    platform := by
      rw [hsamples, hsamples', h.platform]
    below := by
      rw [taken_describe, taken_describe]
      exact h.below
    current := h.current
    registry := by
      intro q q' hq
      refine h.modifyRegistry hr (fun _ _ _ hm => hm) ?_ rfl rfl hq
      exact fun g g' hm =>
        ⟨rfl, { hm with names := congrArg (·.insert metadata.name ⟨metadata, kind⟩) hm.names }⟩
    store := by
      intro q q' hq
      show Both _ ((d.store.refreshMetadata r metadata).scope? q)
        ((d'.store.refreshMetadata r' metadata).scope? q')
      rw [hrest, hrest']
      exact h.store q q' hq
    meter := by
      intro m m' hm
      show Both _ ((d.store.refreshMetadata r metadata).meter? m)
        ((d'.store.refreshMetadata r' metadata).meter? m')
      rw [MeterStore.meter?_refreshMetadata, MeterStore.meter?_refreshMetadata]
      refine (h.meter m m' hm).modify (h.named_iff hr hm metadata.name) ?_ fun _ _ hx => hx
      rintro x x' ⟨htag, hx⟩
      exact ⟨htag, hx.id, rfl, hx.value⟩
    cell := by
      rw [hsamples, hsamples']
      exact h.cell }

/-! ## Metrics coming in and going out -/

/-- The numbers that a metric takes when it comes in. -/
def enrolled (k : Numbered) : Prop := k = .meter ∨ k = .adapter

theorem taken_enroll (d : Directory) (r : RegistryRef) (id : MetricId) (form : AdapterForm)
    (meter : Meter) (k : Numbered) :
    d.taken k ≤ (d.enroll r id form meter).taken k ∧
      (enrolled k → d.taken k < (d.enroll r id form meter).taken k) := by
  have hmeters : (d.enroll r id form meter).taken .meter = d.taken .meter + 1 := List.length_append
  have hregistries : (d.enroll r id form meter).taken .registry = d.taken .registry :=
    List.length_modify ..
  cases k with
  | registry => exact ⟨Nat.le_of_eq hregistries.symm, by simp [enrolled]⟩
  | meter => exact ⟨by omega, fun _ => by omega⟩
  | cell => exact ⟨Nat.le_refl _, by simp [enrolled]⟩
  | adapter => exact ⟨Nat.le_succ _, fun _ => Nat.lt_succ_self _⟩

/-- The adapter of a metric that comes in has only the new meter. -/
theorem sole_nextAdapter (hn : r ∈ d.store.attached) (hnd : d.store.attached.Nodup) (id : MetricId)
    (form : AdapterForm) (meterId : MetricId) :
    (d.nextAdapter r id form meterId).Sole d.store.meters.length :=
  ⟨rfl, MeterStore.live_nextComposite hn hnd form.kind⟩

/-- The adapters of metrics that come in on both sides. -/
theorem Alike.nextAdapter (h : Alike t ρ d d') (ha : d.Aligned) (ha' : d'.Aligned)
    (hn : r ∈ d.store.attached) (hn' : r' ∈ d'.store.attached) (id : MetricId)
    {form form' : AdapterForm} (hform : form.kind = form'.kind) (mid : MetricId) :
    Adapter.Match (ρ.next enrolled h.below) (d.nextAdapter r id form mid)
      (d'.nextAdapter r' id form' mid) where
  id := rfl
  kind := hform
  serial := Pairing.rel_next h.below (.inr rfl)
  meter := ⟨_, _, sole_nextAdapter hn ha.attached_nodup ..,
    sole_nextAdapter hn' ha'.attached_nodup .., Pairing.rel_next h.below (.inl rfl)⟩

theorem Alike.enroll (h : Alike t ρ d d') (hr : ρ.rel .registry r r') (ha : d.Aligned)
    (ha' : d'.Aligned) (hn : r ∈ d.store.attached) (hn' : r' ∈ d'.store.attached) (id : MetricId)
    {form form' : AdapterForm} (hform : form.kind = form'.kind) {meter meter' : Meter}
    (hmeter : meter.Match ρ meter') (htag : meter.id.tags.get? scopeKey = some t) :
    Alike t (ρ.next enrolled h.below) (d.enroll r id form meter)
      (d'.enroll r' id form' meter') := by
  have hle : ρ ≤ ρ.next enrolled h.below := Pairing.le_next h.below
  have hnew : (ρ.next enrolled h.below).rel .meter d.store.meters.length d'.store.meters.length :=
    Pairing.rel_next h.below (.inl rfl)
  have hold : ∀ {k m m'}, ¬ enrolled k → (ρ.next enrolled h.below).rel k m m' → ρ.rel k m m' :=
    Pairing.rel_of_next
  have hregistry : ¬ enrolled .registry := by simp [enrolled]
  have hadapter := h.nextAdapter ha ha' hn hn' id hform meter.id
  exact {
    settings := h.settings
    platform := h.platform
    below := h.below.next (fun k => (taken_enroll d r id form meter k).1)
      (fun k => (taken_enroll d' r' id form' meter' k).1) fun k hk =>
        ⟨(taken_enroll d r id form meter k).2 hk, (taken_enroll d' r' id form' meter' k).2 hk⟩
    current := rel_imp h.current fun _ _ => hle _ _ _
    registry := by
      intro q q' hq
      refine h.modifyRegistry hr hle ?_ rfl rfl (hold hregistry hq)
      rw [← hmeter.id]
      exact fun g g' hm =>
        ⟨rfl, { hm.mono hle with metrics := (hm.mono hle).metrics.insert id hadapter }⟩
    store := by
      intro q q' hq
      refine h.modifyScope hr hle ?_ rfl rfl (hold hregistry hq)
      intro c c' hm
      simp only [← hmeter.id]
      exact (hm.mono fun _ _ => hle _ _ _).insert meter.id hnew
    meter := by
      intro m m' hm
      show Both _ ((d.store.enter r form.kind meter).meter? m)
        ((d'.store.enter r' form'.kind meter').meter? m')
      rw [MeterStore.meter?_enter, MeterStore.meter?_enter]
      obtain hm | ⟨-, hlast, hlast'⟩ := hm
      · have hlt : m < d.store.meters.length ∧ m' < d'.store.meters.length := h.below _ _ _ hm
        rw [if_neg (Nat.ne_of_lt hlt.1), if_neg (Nat.ne_of_lt hlt.2)]
        exact (h.meter m m' hm).imp fun _ _ hx => ⟨hx.1, hx.2.mono hle⟩
      · exact ⟨meter, meter', if_pos hlast, if_pos hlast', htag, hmeter.mono hle⟩
    cell := fun n n' hn => h.cell n n' (hold (by simp [enrolled]) hn) }

theorem hasName_congr {g g' : Registry} (h : g.Match ρ g') (name : String) :
    g.hasName name = g'.hasName name := by
  unfold Registry.hasName
  rw [h.metrics.keys]

theorem match_forgetUnused {g g' : Registry} (h : g.Match ρ g') (name : String) :
    (g.forgetUnused name).Match ρ (g'.forgetUnused name) := by
  unfold Registry.forgetUnused
  rw [hasName_congr h name]
  split
  · exact h
  · exact { h with names := congrArg (·.erase name) h.names }

theorem taken_discard (d : Directory) (r : RegistryRef) (id mid : MetricId) :
    (d.discard r id mid).taken = d.taken := by
  funext k
  cases k with
  | registry => exact List.length_modify ..
  | _ => rfl

theorem Alike.discard (h : Alike t ρ d d') (hr : ρ.rel .registry r r') (id mid : MetricId) :
    Alike t ρ (d.discard r id mid) (d'.discard r' id mid) where
  settings := h.settings
  platform := h.platform
  below := by
    rw [taken_discard, taken_discard]
    exact h.below
  current := h.current
  registry := by
    intro q q' hq
    refine h.modifyRegistry hr (fun _ _ _ hm => hm) ?_ rfl rfl hq
    intro g g' hm
    have herased : Registry.Match ρ { g with metrics := g.metrics.erase id }
        { g' with metrics := g'.metrics.erase id } := { hm with metrics := hm.metrics.erase id }
    exact ⟨(forgetUnused_same _ _).1, match_forgetUnused herased id.name⟩
  store := by
    intro q q' hq
    refine h.modifyScope hr (fun _ _ _ hm => hm) ?_ rfl rfl hq
    exact fun c c' hm => hm.erase mid
  meter := h.meter
  cell := h.cell

/-! ## Scopes -/

/-- The number that a scope takes when it is founded. -/
def founded (k : Numbered) : Prop := k = .registry

theorem taken_found (d : Directory) (scope : String) (k : Numbered) :
    d.taken k ≤ (d.found scope).taken k ∧
      (founded k → d.taken k < (d.found scope).taken k) := by
  have hregistries : (d.found scope).taken .registry = d.taken .registry + 1 := List.length_append
  cases k with
  | registry => exact ⟨by omega, fun _ => by omega⟩
  | meter => exact ⟨Nat.le_refl _, by simp [founded]⟩
  | cell => exact ⟨Nat.le_refl _, by simp [founded]⟩
  | adapter => exact ⟨Nat.le_refl _, by simp [founded]⟩

theorem Alike.found (h : Alike t ρ d d') (ha : d.Aligned) (ha' : d'.Aligned) :
    Alike t (ρ.next founded h.below) (d.found t) (d'.found t) := by
  have hle : ρ ≤ ρ.next founded h.below := Pairing.le_next h.below
  have hold : ∀ {k m m'}, ¬ founded k → (ρ.next founded h.below).rel k m m' → ρ.rel k m m' :=
    Pairing.rel_of_next
  exact {
    settings := h.settings
    platform := h.platform
    below := h.below.next (fun k => (taken_found d t k).1) (fun k => (taken_found d' t k).1)
      fun k hk => ⟨(taken_found d t k).2 hk, (taken_found d' t k).2 hk⟩
    current := by
      show Option.Rel _ ((d.scopes.insert t _).get? t) ((d'.scopes.insert t _).get? t)
      rw [SortedMap.get?_insert, SortedMap.get?_insert, if_pos rfl, if_pos rfl]
      exact .some (Pairing.rel_next h.below rfl)
    registry := by
      intro q q' hq
      rw [registry?_found, registry?_found]
      obtain hq | ⟨-, hlast, hlast'⟩ := hq
      · have hlt : q < d.registries.length ∧ q' < d'.registries.length := h.below _ _ _ hq
        rw [if_neg (Nat.ne_of_lt hlt.1), if_neg (Nat.ne_of_lt hlt.2)]
        exact (h.registry q q' hq).imp fun _ _ hg => ⟨hg.1, hg.2.mono hle⟩
      · exact ⟨_, _, if_pos hlast, if_pos hlast', rfl, rfl, .empty, rfl, rfl, rfl, rfl⟩
    store := by
      intro q q' hq
      rw [scope?_found, scope?_found, ha.stores, ha'.stores]
      obtain hq | ⟨-, hlast, hlast'⟩ := hq
      · have hlt : q < d.registries.length ∧ q' < d'.registries.length := h.below _ _ _ hq
        rw [if_neg (Nat.ne_of_lt hlt.1), if_neg (Nat.ne_of_lt hlt.2)]
        exact (h.store q q' hq).imp fun _ _ hm => hm.mono fun _ _ => hle _ _ _
      · exact ⟨_, _, if_pos hlast, if_pos hlast', .empty⟩
    meter := fun m m' hm => (h.meter m m' (hold (by simp [founded]) hm)).imp fun _ _ hx =>
      ⟨hx.1, hx.2.mono hle⟩
    cell := fun n n' hn => h.cell n n' (hold (by simp [founded]) hn) }

theorem Alike.dissolve (h : Alike t ρ d d') (hr : ρ.rel .registry r r') :
    Alike t ρ (d.dissolve r t) (d'.dissolve r' t) where
  settings := h.settings
  platform := h.platform
  below := by
    have htaken : ∀ (d : Directory) r, (d.dissolve r t).taken = d.taken :=
      fun d r => taken_modifyRegistry d r Registry.drop
    rw [htaken, htaken]
    exact h.below
  current := by
    show Option.Rel _ ((d.scopes.erase t).get? t) ((d'.scopes.erase t).get? t)
    rw [SortedMap.get?_erase_self, SortedMap.get?_erase_self]
    exact .none
  registry := by
    intro q q' hq
    refine h.modifyRegistry hr (fun _ _ _ hm => hm) ?_ rfl rfl hq
    exact fun g g' hm => ⟨rfl, hm.scope, .empty, rfl, rfl, hm.platformBound, rfl⟩
  store := by
    intro q q' hq
    refine h.modifyScope hr (fun _ _ _ hm => hm) ?_ rfl rfl hq
    exact fun _ _ _ => .empty
  meter := h.meter
  cell := h.cell

/-! ## Values -/

theorem taken_modifyMeter (d : Directory) (m : MeterRef) (f : Meter → Meter) :
    (d.modifyStore fun s => s.modifyMeter m f).taken = d.taken := by
  funext k
  cases k with
  | meter => exact List.length_modify ..
  | _ => rfl

/-- A paired meter is written to. -/
theorem Alike.modifyMeter (h : Alike t ρ d d') {m m' : MeterRef} (hm : ρ.rel .meter m m')
    {f : Meter → Meter} (hf : ∀ x x', x.Match ρ x' → (f x).id = x.id ∧ (f x).Match ρ (f x')) :
    Alike t ρ (d.modifyStore fun s => s.modifyMeter m f)
      (d'.modifyStore fun s => s.modifyMeter m' f)
    where
  settings := h.settings
  platform := h.platform
  below := by
    rw [taken_modifyMeter, taken_modifyMeter]
    exact h.below
  current := h.current
  registry := h.registry
  store := h.store
  meter := by
    intro q q' hq
    show Both _ ((d.store.modifyMeter m f).meter? q) ((d'.store.modifyMeter m' f).meter? q')
    rw [MeterStore.meter?_modifyMeter, MeterStore.meter?_modifyMeter]
    refine (h.meter q q' hq).modify (Pairing.eq_iff hq hm) ?_ fun _ _ hx => hx
    rintro x x' ⟨htag, hx⟩
    exact ⟨by rw [(hf x x' hx).1, htag], (hf x x' hx).2⟩
  cell := h.cell

end Directory

end Telemetry
