import Telemetry.Proofs.SortedMap
import Telemetry.Store.Adapter

/-!
# What the meter store does

Each operation of the `MeterStore`, by what can be read after it. A registration under a grant of
one attached scope store makes one meter there and one composite whose only live slot is that meter
(`register_new`); a removal takes both away and nothing else (`remove_eq`). Writing to meters leaves
everything but the meters as it was.
-/

namespace Telemetry

/-! ## Lists -/

theorem getElem?_append_one {α : Type} (xs : List α) (a : α) (i : Nat) :
    (xs ++ [a])[i]? = if i = xs.length then some a else xs[i]? := by
  rw [List.getElem?_append]
  by_cases hlt : i < xs.length
  · rw [if_pos hlt, if_neg (Nat.ne_of_lt hlt)]
  · rw [if_neg hlt]
    by_cases hi : i = xs.length
    · rw [if_pos hi, hi, Nat.sub_self]
      rfl
    · have hle : xs.length ≤ i := Nat.le_of_not_lt hlt
      rw [if_neg hi, List.getElem?_eq_none hle]
      exact List.getElem?_eq_none (Nat.sub_pos_of_lt (Nat.lt_of_le_of_ne hle (Ne.symm hi)))

/-- Changing elements by a change that has no effect twice. -/
theorem getElem?_foldl_modify {α : Type} {f : α → α} (hf : ∀ a, f (f a) = f a) (refs : List Nat)
    (xs : List α) (i : Nat) :
    (refs.foldl (fun xs j => xs.modify j f) xs)[i]? =
      if i ∈ refs then xs[i]?.map f else xs[i]? := by
  induction refs generalizing xs with
  | nil => simp
  | cons j refs ih =>
    rw [List.foldl_cons, ih, List.getElem?_modify]
    by_cases hj : j = i
    · subst hj
      cases xs[j]? <;> simp [hf]
    · have hij : i ≠ j := fun h => hj h.symm
      simp [hj, hij]

theorem length_foldl_modify {α : Type} (f : α → α) (refs : List Nat) (xs : List α) :
    (refs.foldl (fun xs j => xs.modify j f) xs).length = xs.length := by
  induction refs generalizing xs with
  | nil => rfl
  | cons j refs ih => rw [List.foldl_cons, ih, List.length_modify]

/-! ## Meters -/

/-- What a new meter holds, unless its distribution cannot be laid out. -/
def MeterSpec.initial : MeterSpec → Except LayoutFault MeterValue
  | .counter => .ok (.counter 0)
  | .gauge sampler => .ok (.gauge sampler)
  | .histogram d => (Distribution.create d (.ofNat _ 1)).map .histogram
  | .timer d => (Distribution.create d Meter.nanosScale).map .timer

theorem MeterSpec.kind_initial {spec : MeterSpec} {value : MeterValue}
    (h : spec.initial = .ok value) :
    value.kind = spec.kind := by
  cases spec with
  | counter => cases h; rfl
  | gauge sampler => cases h; rfl
  | histogram d =>
    simp only [initial] at h
    cases hd : Distribution.create d (.ofNat _ 1) with
    | error fault => rw [hd] at h; cases h
    | ok values => rw [hd] at h; cases h; rfl
  | timer d =>
    simp only [initial] at h
    cases hd : Distribution.create d Meter.nanosScale with
    | error fault => rw [hd] at h; cases h
    | ok values => rw [hd] at h; cases h; rfl

theorem MeterSpec.kind_form (spec : MeterSpec) : spec.form.kind = spec.kind := by
  cases spec <;> rfl

theorem Meter.create_eq (id : MetricId) (spec : MeterSpec) (metadata : Metadata) :
    create id spec metadata =
      match spec.initial with
      | .ok value => .ok ⟨id, metadata, value⟩
      | .error fault => .error (.distribution id.name fault) := by
  unfold create
  cases spec <;> rfl

theorem Meter.create_ok {id : MetricId} {spec : MeterSpec} {metadata : Metadata} {meter : Meter}
    (h : create id spec metadata = .ok meter) : meter.id = id := by
  rw [create_eq] at h
  split at h
  · cases h
    rfl
  · cases h

namespace MeterStore

variable {s : MeterStore} {n : ScopeRef} {id : MetricId} {spec : MeterSpec} {metadata : Metadata}
  {grant : WriteGrant}

theorem meter?_modifyMeter (s : MeterStore) (m : MeterRef) (f : Meter → Meter) (k : MeterRef) :
    (s.modifyMeter m f).meter? k = if k = m then (s.meter? k).map f else s.meter? k := by
  unfold modifyMeter meter?
  rw [List.getElem?_modify]
  by_cases h : m = k
  · subst h
    simp
  · have hk : k ≠ m := fun e => h e.symm
    simp [h, hk]

theorem scope?_modifyScope (s : MeterStore) (n : ScopeRef) (f : ScopeStore → ScopeStore)
    (k : ScopeRef) :
    (s.modifyScope n f).scope? k = if k = n then (s.scope? k).map f else s.scope? k := by
  unfold modifyScope scope?
  rw [List.getElem?_modify]
  by_cases h : n = k
  · subst h
    simp
  · have hk : k ≠ n := fun e => h e.symm
    simp [h, hk]

theorem find?_eq {c : ScopeStore} (h : s.scope? n = some c) : s.find? n id = c.meters.get? id := by
  unfold find?
  rw [h, Option.bind_some]

/-! ## Writing to meters -/

/-- Writing to meters leaves the rest of the store as it was. -/
theorem foldl_modifyMeter {α : Type} (ref : α → MeterRef) (f : Meter → Meter) (l : List α)
    (s : MeterStore) :
    l.foldl (fun s e => s.modifyMeter (ref e) f) s =
      { s with meters := (l.map ref).foldl (fun ms m => ms.modify m f) s.meters } := by
  induction l generalizing s with
  | nil => rfl
  | cons e l ih =>
    rw [List.foldl_cons, ih]
    rfl

/-- The meters whose metadata a refresh sets. -/
def Named (s : MeterStore) (n : ScopeRef) (name : String) (m : MeterRef) : Prop :=
  ∃ id, s.find? n id = some m ∧ id.name = name

theorem refreshMetadata_eq (s : MeterStore) (n : ScopeRef) (metadata : Metadata) :
    s.refreshMetadata n metadata = { s with meters := (s.refreshMetadata n metadata).meters } := by
  unfold refreshMetadata
  split
  · rfl
  · rw [foldl_modifyMeter Prod.snd]

theorem meter?_refreshMetadata (s : MeterStore) (n : ScopeRef) (metadata : Metadata) (m : MeterRef)
    [Decidable (s.Named n metadata.name m)] :
    (s.refreshMetadata n metadata).meter? m =
      if s.Named n metadata.name m then (s.meter? m).map fun meter => { meter with metadata }
      else s.meter? m := by
  cases hs : s.scope? n with
  | none =>
    have hn : ¬ s.Named n metadata.name m := by
      rintro ⟨id, hid, -⟩
      unfold find? at hid
      rw [hs] at hid
      cases hid
    unfold refreshMetadata
    rw [hs, if_neg hn]
  | some scope =>
    have hmem : m ∈ (scope.meters.entries.filter fun e => e.1.name = metadata.name).map Prod.snd ↔
        s.Named n metadata.name m := by
      simp only [List.mem_map, List.mem_filter, decide_eq_true_eq, Named, find?_eq hs,
        SortedMap.get?_eq_some_iff, Prod.exists]
      constructor
      · rintro ⟨id, m', ⟨hmem, hname⟩, rfl⟩
        exact ⟨id, hmem, hname⟩
      · rintro ⟨id, hmem, hname⟩
        exact ⟨id, m, ⟨hmem, hname⟩, rfl⟩
    unfold refreshMetadata
    rw [hs]
    simp only
    rw [foldl_modifyMeter Prod.snd]
    show (List.foldl _ s.meters _)[m]? = _
    rw [getElem?_foldl_modify (f := fun meter : Meter => { meter with metadata }) fun _ => rfl]
    simp only [hmem]
    rfl

theorem length_meters_refreshMetadata (s : MeterStore) (n : ScopeRef) (metadata : Metadata) :
    (s.refreshMetadata n metadata).meters.length = s.meters.length := by
  unfold refreshMetadata
  split
  · rfl
  · rw [foldl_modifyMeter Prod.snd]
    exact length_foldl_modify _ _ _

/-! ## Registration -/

/-- The scope store takes nothing under the grant. -/
def Denies (s : MeterStore) (grant : WriteGrant) (n : ScopeRef) : Prop :=
  ∀ c, s.scope? n = some c → grant.isFor c.gate = false

/-- The store with a new meter in a scope store, under the meter's own id. -/
def addMeter (s : MeterStore) (n : ScopeRef) (meter : Meter) : MeterStore :=
  { s with meters := s.meters ++ [meter] }.modifyScope n fun c =>
    { c with meters := c.meters.insert meter.id s.meters.length }

/-- The next composite, with the next meter in the slot of one scope store. -/
def nextComposite (s : MeterStore) (n : ScopeRef) (id : MetricId) (kind : MetricKind) : Composite :=
  ⟨s.serials, id, kind, s.attached.map fun k => if k = n then some s.meters.length else none⟩

/-- The store with a new meter in a scope store and the composite that shows it. -/
def enter (s : MeterStore) (n : ScopeRef) (kind : MetricKind) (meter : Meter) : MeterStore :=
  { s.addMeter n meter with
    composites := s.composites.insert meter.id (s.nextComposite n meter.id kind)
    serials := s.serials + 1 }

theorem registerIn_denied (h : s.Denies grant n) :
    s.registerIn n id spec metadata grant = (.ok none, s) := by
  unfold registerIn
  cases hs : s.scope? n with
  | none => rfl
  | some c => simp [h c hs]

theorem registerIn_new {c : ScopeStore} (hs : s.scope? n = some c)
    (hg : grant.isFor c.gate = true) (hnew : c.meters.get? id = none) :
    s.registerIn n id spec metadata grant =
      match Meter.create id spec metadata with
      | .error e => (.error e, s)
      | .ok meter => (.ok (some s.meters.length), s.addMeter n meter) := by
  unfold registerIn
  rw [hs]
  simp only [hg, hnew, Bool.not_true, Bool.false_eq_true, if_false, Option.bind_none]
  cases hc : Meter.create id spec metadata with
  | error e => rfl
  | ok meter =>
    simp only [addMeter, Meter.create_ok hc]

theorem denies_addMeter {k : ScopeRef} {meter : Meter} (h : s.Denies grant k) :
    (s.addMeter n meter).Denies grant k := by
  intro c hc
  unfold addMeter at hc
  rw [scope?_modifyScope] at hc
  split at hc
  · obtain ⟨c', hc', rfl⟩ := Option.map_eq_some_iff.mp hc
    exact h c' hc'
  · exact h c hc

theorem registerEach_denied {refs : List ScopeRef} (h : ∀ k ∈ refs, s.Denies grant k) :
    registerEach id spec metadata grant refs s = (.ok (refs.map fun _ => none), s) := by
  induction refs with
  | nil => rfl
  | cons k refs ih =>
    unfold registerEach
    rw [registerIn_denied (h k List.mem_cons_self)]
    simp only
    rw [ih fun j hj => h j (List.mem_cons_of_mem k hj)]
    rfl

/-- Registering under the gate of one of the scope stores makes a meter there, or is refused without
an effect. -/
theorem registerEach_new {refs : List ScopeRef} {c : ScopeStore} (hn : n ∈ refs) (hnd : refs.Nodup)
    (hs : s.scope? n = some c) (hg : grant.isFor c.gate = true) (hnew : c.meters.get? id = none)
    (hdeny : ∀ k ∈ refs, k ≠ n → s.Denies grant k) :
    registerEach id spec metadata grant refs s =
      match Meter.create id spec metadata with
      | .error e => (.error e, s)
      | .ok meter =>
        (.ok (refs.map fun k => if k = n then some s.meters.length else none),
          s.addMeter n meter) := by
  induction refs with
  | nil => exact absurd hn List.not_mem_nil
  | cons k refs ih =>
    obtain ⟨hk, hnd⟩ := List.nodup_cons.mp hnd
    unfold registerEach
    by_cases hkn : k = n
    · subst hkn
      rw [registerIn_new hs hg hnew]
      cases hc : Meter.create id spec metadata with
      | error e => rfl
      | ok meter =>
        have hne : ∀ j ∈ refs, j ≠ k := fun j hj e => hk (e ▸ hj)
        simp only
        rw [registerEach_denied fun j hj =>
          denies_addMeter (hdeny j (List.mem_cons_of_mem k hj) (hne j hj))]
        simp only [List.map_cons, if_true]
        rw [List.map_congr_left fun j hj => (if_neg (hne j hj)).symm]
    · rw [registerIn_denied (hdeny k List.mem_cons_self hkn)]
      simp only
      rw [ih ((List.mem_cons.mp hn).resolve_left fun e => hkn e.symm) hnd
        fun j hj => hdeny j (List.mem_cons_of_mem k hj)]
      cases Meter.create id spec metadata with
      | error e => rfl
      | ok meter => simp only [List.map_cons, if_neg hkn]

/-- **A first registration** under the gate of one attached scope store. -/
theorem register_new {c : ScopeStore} (hcomp : s.composites.get? id = none) (hn : n ∈ s.attached)
    (hnd : s.attached.Nodup) (hs : s.scope? n = some c) (hg : grant.isFor c.gate = true)
    (hnew : c.meters.get? id = none) (hdeny : ∀ k ∈ s.attached, k ≠ n → s.Denies grant k) :
    s.register id spec metadata grant =
      match Meter.create id spec metadata with
      | .error e => (.error e, s)
      | .ok meter => (.ok (s.nextComposite n id spec.kind), s.enter n spec.kind meter) := by
  unfold register
  rw [hcomp]
  simp only
  rw [registerEach_new hn hnd hs hg hnew hdeny]
  cases hc : Meter.create id spec metadata with
  | error e => rfl
  | ok meter =>
    simp only [enter, Meter.create_ok hc]
    rfl

theorem live_nextComposite (hn : n ∈ s.attached) (hnd : s.attached.Nodup) (kind : MetricKind) :
    (s.nextComposite n id kind).live = [s.meters.length] := by
  unfold nextComposite Composite.live
  simp only [List.filterMap_map]
  generalize s.attached = refs at hn hnd
  induction refs with
  | nil => exact absurd hn List.not_mem_nil
  | cons k refs ih =>
    obtain ⟨hk, hnd⟩ := List.nodup_cons.mp hnd
    by_cases hkn : k = n
    · subst hkn
      have hrest : refs.filterMap ((fun slot => slot) ∘ fun j => if j = k then some s.meters.length
          else none) = [] := by
        refine List.filterMap_eq_nil_iff.mpr fun j hj => ?_
        have : j ≠ k := fun e => hk (e ▸ hj)
        simp [this]
      rw [List.filterMap_cons, hrest]
      simp
    · rw [List.filterMap_cons, ih ((List.mem_cons.mp hn).resolve_left fun e => hkn e.symm) hnd]
      simp [hkn]

theorem meter?_enter (s : MeterStore) (n : ScopeRef) (kind : MetricKind) (meter : Meter)
    (m : MeterRef) :
    (s.enter n kind meter).meter? m = if m = s.meters.length then some meter else s.meter? m :=
  getElem?_append_one ..

theorem find?_enter {c : ScopeStore} (hs : s.scope? n = some c) (kind : MetricKind) (meter : Meter)
    (k : ScopeRef) (id : MetricId) :
    (s.enter n kind meter).find? k id =
      if k = n ∧ id = meter.id then some s.meters.length else s.find? k id := by
  have hscope : (s.enter n kind meter).scope? k = if k = n then (s.scope? k).map (fun c =>
      { c with meters := c.meters.insert meter.id s.meters.length }) else s.scope? k :=
    scope?_modifyScope _ n _ k
  unfold find?
  rw [hscope]
  by_cases hk : k = n
  · subst hk
    rw [if_pos rfl, hs]
    simp only [Option.map_some, Option.bind_some, SortedMap.get?_insert, true_and]
  · rw [if_neg hk, if_neg fun h => hk h.1]

/-! ## Removal -/

theorem foldl_modifyScope (f : ScopeStore → ScopeStore) (refs : List ScopeRef) (s : MeterStore) :
    refs.foldl (fun s n => s.modifyScope n f) s =
      { s with scopes := refs.foldl (fun cs n => cs.modify n f) s.scopes } := by
  induction refs generalizing s with
  | nil => rfl
  | cons n refs ih =>
    rw [List.foldl_cons, ih]
    rfl

/-- The store without the composite of an id and without its meter in one scope store. -/
def leave (s : MeterStore) (n : ScopeRef) (id : MetricId) : MeterStore :=
  { s with composites := s.composites.erase id }.modifyScope n fun c =>
    { c with meters := c.meters.erase id }

theorem find?_leave (s : MeterStore) (n : ScopeRef) (id : MetricId) (k : ScopeRef) (q : MetricId) :
    (s.leave n id).find? k q = if k = n ∧ q = id then none else s.find? k q := by
  have hscope : (s.leave n id).scope? k = if k = n then (s.scope? k).map (fun c =>
      { c with meters := c.meters.erase id }) else s.scope? k :=
    scope?_modifyScope _ n _ k
  unfold find?
  rw [hscope]
  by_cases hk : k = n
  · rw [if_pos hk]
    cases s.scope? k with
    | none => simp
    | some c => simp only [Option.map_some, Option.bind_some, SortedMap.get?_erase, hk, true_and]
  · rw [if_neg hk, if_neg fun h => hk h.1]

/-- **A removal** when only one attached scope store has the id. -/
theorem remove_eq (hn : n ∈ s.attached)
    (hothers : ∀ k ∈ s.attached, k ≠ n → s.find? k id = none) :
    s.remove id = (s.composites.contains id, s.leave n id) := by
  unfold remove leave modifyScope
  refine Prod.ext rfl ?_
  simp only
  rw [show (fun (s : MeterStore) n => { s with scopes := s.scopes.modify n fun c =>
      { c with meters := c.meters.erase id } }) = fun s n => s.modifyScope n fun c =>
      { c with meters := c.meters.erase id } from rfl, foldl_modifyScope]
  congr 1
  refine List.ext_getElem? fun k => ?_
  have hidem : ∀ c : ScopeStore,
      { { c with meters := c.meters.erase id } with meters := (c.meters.erase id).erase id } =
        { c with meters := c.meters.erase id } := fun c => by
    rw [SortedMap.erase_of_get?_none (SortedMap.get?_erase_self c.meters id)]
  rw [getElem?_foldl_modify hidem, List.getElem?_modify]
  by_cases hk : n = k
  · subst hk
    simp [hn]
  · have hkn : k ≠ n := fun e => hk e.symm
    simp only [if_neg hk, id_map']
    split
    · rename_i hmem
      have hnone := hothers k hmem hkn
      cases hc : s.scopes[k]? with
      | none => rfl
      | some c =>
        rw [find?_eq (c := c) hc] at hnone
        simp [SortedMap.erase_of_get?_none hnone]
    · rfl

end MeterStore

end Telemetry
