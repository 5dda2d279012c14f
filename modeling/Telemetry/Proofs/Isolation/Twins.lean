import Telemetry.Proofs.Directory.Operations
import Telemetry.Proofs.Isolation.Pairing

/-!
# Two directories that agree on one scope

`Alike t ρ d d'` says that the scope `t` is the same in both directories, up to the numbers that `ρ`
pairs: its current registry and those that were dropped, what they store, the meters behind it and
the cells that its gauges sample. Nothing is said of the other scopes. Coherent directories that are
alike are `Twins`.

Changes inside another scope, on either side, leave twins twins (`Twins.frame`).
-/

namespace Telemetry

variable {ρ ρ' : Pairing}

inductive Sampler.Match (ρ : Pairing) : Sampler → Sampler → Prop
  | cell {m n : Nat} (h : ρ.rel .cell m n) : Match ρ (.cell m) (.cell n)
  | platform (figure : PlatformFigure) : Match ρ (.platform figure) (.platform figure)

inductive MeterValue.Match (ρ : Pairing) : MeterValue → MeterValue → Prop
  | counter (count : UInt64) : Match ρ (.counter count) (.counter count)
  | gauge {s s' : Sampler} (h : s.Match ρ s') : Match ρ (.gauge s) (.gauge s')
  | histogram (values : Distribution) : Match ρ (.histogram values) (.histogram values)
  | timer (durations : Distribution) : Match ρ (.timer durations) (.timer durations)

structure Meter.Match (ρ : Pairing) (m m' : Meter) : Prop where
  id : m.id = m'.id
  metadata : m.metadata = m'.metadata
  value : m.value.Match ρ m'.value

structure Adapter.Match (ρ : Pairing) (a a' : Adapter) : Prop where
  id : a.id = a'.id
  kind : a.kind = a'.kind
  serial : ρ.rel .adapter a.serial a'.serial
  meter : ∃ m m', a.Sole m ∧ a'.Sole m' ∧ ρ.rel .meter m m'

structure Registry.Match (ρ : Pairing) (g g' : Registry) : Prop where
  scope : g.scope = g'.scope
  metrics : g.metrics.Match (Adapter.Match ρ) g'.metrics
  names : g.names = g'.names
  mappings : g.mappings = g'.mappings
  platformBound : g.platformBound = g'.platformBound
  dropped : g.dropped = g'.dropped

/-! ## More pairs -/

theorem Sampler.Match.mono {s s' : Sampler} (h : s.Match ρ s') (hle : ρ ≤ ρ') : s.Match ρ' s' := by
  cases h with
  | cell h => exact .cell (hle _ _ _ h)
  | platform figure => exact .platform figure

theorem MeterValue.Match.mono {v v' : MeterValue} (h : v.Match ρ v') (hle : ρ ≤ ρ') :
    v.Match ρ' v' := by
  cases h with
  | counter count => exact .counter count
  | gauge h => exact .gauge (h.mono hle)
  | histogram values => exact .histogram values
  | timer durations => exact .timer durations

theorem Meter.Match.mono {m m' : Meter} (h : m.Match ρ m') (hle : ρ ≤ ρ') : m.Match ρ' m' :=
  ⟨h.id, h.metadata, h.value.mono hle⟩

theorem Adapter.Match.mono {a a' : Adapter} (h : a.Match ρ a') (hle : ρ ≤ ρ') : a.Match ρ' a' := by
  obtain ⟨m, m', hm, hm', hr⟩ := h.meter
  exact ⟨h.id, h.kind, hle _ _ _ h.serial, m, m', hm, hm', hle _ _ _ hr⟩

theorem Registry.Match.mono {g g' : Registry} (h : g.Match ρ g') (hle : ρ ≤ ρ') : g.Match ρ' g' :=
  { h with metrics := h.metrics.mono fun _ _ ha => ha.mono hle }

namespace Directory

/-- How many numbers are taken. -/
def taken (d : Directory) : Numbered → Nat
  | .registry => d.registries.length
  | .meter => d.store.meters.length
  | .cell => d.store.samples.cells.length
  | .adapter => d.adapters

/-- Scope `t` is the same in both directories up to numbers. -/
structure Alike (t : String) (ρ : Pairing) (d d' : Directory) : Prop where
  settings : d.settings = d'.settings
  platform : d.store.samples.platform = d'.store.samples.platform
  below : ρ.Below d.taken d'.taken
  current : Option.Rel (ρ.rel .registry) (d.scopes.get? t) (d'.scopes.get? t)
  registry : ∀ r r', ρ.rel .registry r r' →
    Both (fun g g' => g.scope = t ∧ g.Match ρ g') (d.registry? r) (d'.registry? r')
  store : ∀ r r', ρ.rel .registry r r' →
    Both (fun c c' => c.meters.Match (ρ.rel .meter) c'.meters) (d.store.scope? r)
      (d'.store.scope? r')
  meter : ∀ m m', ρ.rel .meter m m' →
    Both (fun x x' => x.id.tags.get? scopeKey = some t ∧ x.Match ρ x') (d.store.meter? m)
      (d'.store.meter? m')
  cell : ∀ n n', ρ.rel .cell n n' →
    Both Eq d.store.samples.cells[n]? d'.store.samples.cells[n']?

/-- Coherent directories in which scope `t` is the same up to numbers. -/
structure Twins (t : String) (ρ : Pairing) (d d' : Directory) : Prop extends Alike t ρ d d' where
  left : d.Coherent
  right : d'.Coherent

variable {t u : String} {d d' d₁ d₁' : Directory} {r r' : RegistryRef}

/-- Paired registries, with what is known of them. -/
theorem Alike.registries (h : Alike t ρ d d') (hr : ρ.rel .registry r r') :
    ∃ g g', d.registry? r = some g ∧ d'.registry? r' = some g' ∧ g.scope = t ∧ g'.scope = t ∧
      g.Match ρ g' := by
  obtain ⟨g, g', hg, hg', hscope, hm⟩ := h.registry r r' hr
  exact ⟨g, g', hg, hg', hscope, hm.scope ▸ hscope, hm⟩

theorem Alike.hasRegistry (h : Alike t ρ d d') (hr : ρ.rel .registry r r') :
    d.HasRegistry r t ∧ d'.HasRegistry r' t := by
  obtain ⟨g, g', hg, hg', hscope, hscope', -⟩ := h.registries hr
  exact ⟨⟨g, hg, hscope⟩, g', hg', hscope'⟩

/-- Empty directories are alike. -/
theorem alike_new (settings : RegistrySettings) (platform : PlatformReadings) (t : String) :
    Alike t .empty (new settings platform) (new settings platform) where
  settings := rfl
  platform := rfl
  below := fun _ _ _ h => h.elim
  current := .none
  registry := fun _ _ h => h.elim
  store := fun _ _ h => h.elim
  meter := fun _ _ h => h.elim
  cell := fun _ _ h => h.elim

/-! ## Changes elsewhere -/

theorem length_le_of_kept {α : Type} {xs ys : List α} (h : ∀ (i : Nat) a, xs[i]? = some a → ∃ b,
    ys[i]? = some b) : xs.length ≤ ys.length := by
  by_contra hlt
  have hlt : ys.length < xs.length := Nat.lt_of_not_le hlt
  obtain ⟨b, hb⟩ := h ys.length _ (List.getElem?_eq_getElem hlt)
  rw [List.getElem?_eq_none (Nat.le_refl _)] at hb
  cases hb

theorem Frame.taken_le (hf : Frame u d d₁) (k : Numbered) : d.taken k ≤ d₁.taken k := by
  cases k with
  | registry =>
    refine length_le_of_kept fun q g hq => ?_
    obtain ⟨g', hq', -⟩ := hf.registry q g hq
    exact ⟨g', hq'⟩
  | meter =>
    refine length_le_of_kept fun m meter hm => ?_
    obtain ⟨meter', hm', -⟩ := hf.meter m meter hm
    exact ⟨meter', hm'⟩
  | cell =>
    show d.store.samples.cells.length ≤ d₁.store.samples.cells.length
    exact Nat.le_of_eq (by rw [hf.samples])
  | adapter => exact hf.adapters

/-- The current registry of another scope stays current. -/
theorem Frame.current (hf : Frame u d d₁) (h : d.Coherent) (h₁ : d₁.Coherent) (hne : u ≠ t) :
    d₁.scopes.get? t = d.scopes.get? t := by
  refine Option.ext fun r => ?_
  rw [h.current, h₁.current]
  constructor
  · rintro ⟨g, hr, rfl, hdrop⟩
    exact ⟨g, (hf.registry_others r g hne.symm).mp hr, rfl, hdrop⟩
  · rintro ⟨g, hr, rfl, hdrop⟩
    exact ⟨g, (hf.registry_others r g hne.symm).mpr hr, rfl, hdrop⟩

/-- **Changes inside another scope** on both sides. -/
theorem Twins.frame (h : Twins t ρ d d') (hf : Frame u d d₁) (hf' : Frame u d' d₁') (hne : u ≠ t)
    (h₁ : d₁.Coherent) (h₁' : d₁'.Coherent) : Twins t ρ d₁ d₁' where
  left := h₁
  right := h₁'
  settings := hf.settings.trans (h.settings.trans hf'.settings.symm)
  platform := by
    rw [hf.samples, hf'.samples, h.platform]
  below := h.below.mono hf.taken_le hf'.taken_le
  current := by
    rw [hf.current h.left h₁ hne, hf'.current h.right h₁' hne]
    exact h.current
  registry := by
    intro r r' hr
    obtain ⟨g, g', hg, hg', hscope, hscope', hm⟩ := h.registries hr
    exact ⟨g, g', (hf.registry_others r g (hscope ▸ hne.symm)).mpr hg,
      (hf'.registry_others r' g' (hscope' ▸ hne.symm)).mpr hg', hscope, hm⟩
  store := by
    intro r r' hr
    obtain ⟨g, g', hg, hg', hscope, hscope', -⟩ := h.registries hr
    rw [hf.scope_others r g hg (hscope ▸ hne.symm), hf'.scope_others r' g' hg' (hscope' ▸ hne.symm)]
    exact h.store r r' hr
  meter := by
    intro m m' hr
    obtain ⟨x, x', hx, hx', htag, hm⟩ := h.meter m m' hr
    have hother : x.id.tags.get? scopeKey ≠ some u := by
      rw [htag]
      exact fun he => hne (Option.some.inj he).symm
    exact ⟨x, x', hf.meter_others m x hx hother,
      hf'.meter_others m' x' hx' (hm.id ▸ hother), htag, hm⟩
  cell := by
    rw [hf.samples, hf'.samples]
    exact h.cell

end Directory

end Telemetry
