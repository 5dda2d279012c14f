import Telemetry.Proofs.Directory.Runs
import Telemetry.Proofs.Gate.Grants

/-!
# Registrations under a grant

A registration opens a grant of its registry's gate, registers a meter under it and releases it,
whether the meter was made or refused (specification, 4.1).

* `Directory.sameGrants_apply`: so no operation on a directory leaves a grant open or releases one
  of another holder, whatever grants are open and wherever the operation fails;
* `MeterStore.writes_register`: under a grant the meter store writes in the scope stores whose gate
  issued the grant, and in no other ones (`Writes`);
* `grants_accounted`: what is counted, for whom a grant is, and what is done under it, together.
-/

namespace Telemetry

/-! ## Scope stores -/

namespace MeterStore

variable {s s' s'' : MeterStore} {grant : WriteGrant} {id : MetricId} {spec : MeterSpec}
  {metadata : Metadata}

/-- Each scope store keeps its gate, and one whose gate did not issue the grant stays as it is. -/
def Confined (grant : WriteGrant) (s s' : MeterStore) : Prop :=
  ∀ n c, s.scope? n = some c → ∃ c', s'.scope? n = some c' ∧ c'.gate = c.gate ∧
    (grant.isFor c.gate = false → c' = c)

theorem Confined.of_scopes (h : s'.scopes = s.scopes) : Confined grant s s' := by
  intro n c hc
  refine ⟨c, ?_, rfl, fun _ => rfl⟩
  unfold scope? at hc ⊢
  rw [h, hc]

theorem scopes_refreshMetadata (s : MeterStore) (n : ScopeRef) (metadata : Metadata) :
    (s.refreshMetadata n metadata).scopes = s.scopes := by
  rw [refreshMetadata_eq]

theorem Confined.trans (h : Confined grant s s') (h' : Confined grant s' s'') :
    Confined grant s s'' := by
  intro n c hc
  obtain ⟨c', hc', hgate, hsame⟩ := h n c hc
  obtain ⟨c'', hc'', hgate', hsame'⟩ := h' n c' hc'
  refine ⟨c'', hc'', hgate'.trans hgate, fun hfor => ?_⟩
  rw [hsame' (hgate.symm ▸ hfor), hsame hfor]

/-- What is written under a grant: meters are added, and only scope stores of its gate have more of
them. -/
structure Writes (grant : WriteGrant) (s s' : MeterStore) : Prop where
  confined : Confined grant s s'
  meters : ∀ m meter, s.meter? m = some meter → s'.meter? m = some meter

theorem Writes.refl (grant : WriteGrant) (s : MeterStore) : Writes grant s s :=
  ⟨.of_scopes rfl, fun _ _ hm => hm⟩

theorem Writes.trans (h : Writes grant s s') (h' : Writes grant s' s'') : Writes grant s s'' :=
  ⟨h.confined.trans h'.confined, fun m meter hm => h'.meters m meter (h.meters m meter hm)⟩

/-- A new meter in a scope store whose gate issued the grant. -/
theorem writes_insert {n : ScopeRef} {c : ScopeStore} (hc : s.scope? n = some c)
    (hfor : grant.isFor c.gate = true) (id : MetricId) (meter : Meter) :
    Writes grant s ({ s with meters := s.meters ++ [meter] }.modifyScope n fun c =>
      { c with meters := c.meters.insert id s.meters.length }) where
  confined := by
    intro k c' hc'
    rw [scope?_modifyScope,
      show scope? { s with meters := s.meters ++ [meter] } k = some c' from hc']
    split
    · rename_i hk
      subst hk
      cases hc.symm.trans hc'
      exact ⟨_, rfl, rfl, fun hnot => absurd (hnot.symm.trans hfor) Bool.false_ne_true⟩
    · exact ⟨c', rfl, rfl, fun _ => rfl⟩
  meters := by
    intro m meter' hm
    exact (List.getElem?_append_left (List.getElem?_eq_some_iff.mp hm).1).trans hm

theorem writes_registerIn (n : ScopeRef) :
    Writes grant s (s.registerIn n id spec metadata grant).2 := by
  unfold registerIn
  cases hs : s.scope? n with
  | none => exact .refl grant s
  | some c =>
    simp only
    split
    · exact .refl grant s
    · rename_i hfor
      split
      · split <;> exact .refl grant s
      · split
        · exact .refl grant s
        · exact writes_insert hs (by simpa using hfor) id _

theorem writes_registerEach (refs : List ScopeRef) :
    Writes grant s (registerEach id spec metadata grant refs s).2 := by
  induction refs generalizing s with
  | nil => exact .refl grant s
  | cons n refs ih =>
    have hfirst : Writes grant s (s.registerIn n id spec metadata grant).2 := writes_registerIn n
    unfold registerEach
    split
    · rename_i heq
      rwa [heq] at hfirst
    · rename_i s' heq
      rw [heq] at hfirst
      have hrest : Writes grant s' (registerEach id spec metadata grant refs s').2 := ih
      split
      · rename_i heq'
        rw [heq'] at hrest
        exact hfirst.trans hrest
      · rename_i heq'
        rw [heq'] at hrest
        exact hfirst.trans hrest

/-- **A registration writes only where its grant is for the gate.** -/
theorem writes_register : Writes grant s (s.register id spec metadata grant).2 := by
  have heach : Writes grant s (registerEach id spec metadata grant s.attached s).2 :=
    writes_registerEach _
  unfold register
  split
  · split <;> exact .refl grant s
  · split
    · rename_i heq
      rwa [heq] at heach
    · rename_i heq
      rw [heq] at heach
      exact ⟨heach.confined, heach.meters⟩

end MeterStore

namespace Directory

variable {d d' d'' : Directory} {r : RegistryRef}

/-! ## Registrations -/

/-- A registration gets by on binding a name, registering a meter and changing the registry. -/
theorem register_induction {P : Directory → Prop} {metadata : Metadata} {tags : List Tag}
    {spec : MeterSpec} (hd : P d) (hbind : ∀ d, P d → P (d.bindMetadata r metadata spec.kind).2)
    (hmeter :
    ∀ g, d.registry? r = some g → ∀ d id effective, P d → P (d.registerMeter g id spec effective).2)
    (hmodify : ∀ d f, P d → P (d.modifyRegistry r f)) : P (d.register r metadata tags spec).2 := by
  have hbound := hbind d hd
  unfold register
  split
  · exact hd
  · rename_i g hr
    split
    · exact hd
    · split
      · exact hd
      · rename_i id _
        split
        · split
          · exact hd
          · split
            · rename_i heq
              rwa [heq] at hbound
            · rename_i heq
              rwa [heq] at hbound
        · split
          · exact hd
          · split
            · rename_i heq
              rwa [heq] at hbound
            · rename_i effective d' heq
              rw [heq] at hbound
              have hmade := hmeter g hr d' id effective hbound
              split
              · rename_i heq'
                rw [heq'] at hmade
                exact hmodify _ _ hmade
              · rename_i heq'
                rw [heq'] at hmade
                exact hmodify _ _ hmade

/-- Registering a meter opens a grant, writes under it and releases it, whatever comes of it. -/
theorem registerMeter_snd (d : Directory) (g : Registry) (id : MetricId) (spec : MeterSpec)
    (metadata : Metadata) :
    ∃ adapters, (d.registerMeter g id spec metadata).2 =
      { d with
        gates := (d.gates.scopeGate g.scope).2
        store := (d.store.register (g.meterId id) spec metadata ⟨(d.gates.scopeGate g.scope).1⟩).2
        adapters } := by
  unfold registerMeter
  have hgrant : ((d.gates.scopeGate g.scope).2.openGrant (d.gates.scopeGate g.scope).1).1 =
      ⟨(d.gates.scopeGate g.scope).1⟩ := rfl
  simp only [hgrant, VisibilityGate.release_openGrant]
  split <;> exact ⟨_, rfl⟩

/-! ## Grants -/

/-- No grant is left open and none is taken away: gates that were made stay, and each counts as
before. -/
structure SameGrants (d d' : Directory) : Prop where
  made : ∀ scope gate, d.gates.gate? scope = some gate → d'.gates.gate? scope = some gate
  counts : ∀ scope, d'.gates.count scope = d.gates.count scope

theorem SameGrants.refl (d : Directory) : SameGrants d d := ⟨fun _ _ h => h, fun _ => rfl⟩

theorem SameGrants.trans (h : SameGrants d d') (h' : SameGrants d' d'') : SameGrants d d'' :=
  ⟨fun scope gate hgate => h'.made scope gate (h.made scope gate hgate),
    fun scope => (h'.counts scope).trans (h.counts scope)⟩

theorem SameGrants.of_gates (h : d'.gates = d.gates) : SameGrants d d' :=
  ⟨fun _ _ hgate => h ▸ hgate, fun scope => by rw [h]⟩

/-- A gate that is made for a scope has no grants. -/
theorem SameGrants.of_scopeGate {scope : String} (h : d'.gates = (d.gates.scopeGate scope).2) :
    SameGrants d d' :=
  ⟨fun _ _ hgate => h ▸ VisibilityGate.gate?_of_scopeGate hgate,
    fun s => h ▸ VisibilityGate.count_scopeGate d.gates scope s⟩

theorem sameGrants_modifyRegistry (d : Directory) (r : RegistryRef) (f : Registry → Registry) :
    SameGrants d (d.modifyRegistry r f) := .of_gates rfl

theorem sameGrants_modifyStore (d : Directory) (f : MeterStore → MeterStore) :
    SameGrants d (d.modifyStore f) :=
  .of_gates rfl

theorem gates_bindMetadata (d : Directory) (r : RegistryRef) (metadata : Metadata)
    (kind : MetricKind) : (d.bindMetadata r metadata kind).2.gates = d.gates := by
  unfold bindMetadata
  split
  · rfl
  · split
    · rfl
    · split
      · rfl
      · dsimp only
        split <;> rfl

/-- **The grant of a registration is released.** -/
theorem sameGrants_registerMeter (d : Directory) (g : Registry) (id : MetricId) (spec : MeterSpec)
    (metadata : Metadata) : SameGrants d (d.registerMeter g id spec metadata).2 := by
  obtain ⟨adapters, heq⟩ := registerMeter_snd d g id spec metadata
  exact .of_scopeGate (congrArg (·.gates) heq)

theorem sameGrants_register (d : Directory) (r : RegistryRef) (metadata : Metadata)
    (tags : List Tag) (spec : MeterSpec) : SameGrants d (d.register r metadata tags spec).2 :=
  register_induction (.refl d) (fun _ h => h.trans (.of_gates (gates_bindMetadata ..)))
    (fun _ _ _ _ _ h => h.trans (sameGrants_registerMeter ..))
    fun _ _ h => h.trans (sameGrants_modifyRegistry ..)

theorem sameGrants_request (d : Directory) (r : RegistryRef) (metadata : Metadata) (tags : List Tag)
    (q : MetricRequest) : SameGrants d (d.request r metadata tags q).2 := by
  rw [request_eq_register]
  exact sameGrants_register ..

/-! ## Scopes and removals -/

theorem sameGrants_registerGauges (r : RegistryRef) (gauges : List (Metadata × PlatformFigure))
    (d : Directory) :
    SameGrants d (registerGauges r gauges d) := by
  induction gauges generalizing d with
  | nil => exact .refl d
  | cons entry gauges ih =>
    have hfirst : SameGrants d (d.gauge r entry.1 [] (.platform entry.2)).2 :=
      sameGrants_register ..
    unfold registerGauges
    split
    · rename_i heq
      rwa [heq] at hfirst
    · rename_i d' heq
      rw [heq] at hfirst
      exact hfirst.trans (ih d')

theorem sameGrants_bindPlatform (d : Directory) (r : RegistryRef) :
    SameGrants d (d.bindPlatform r) := by
  unfold bindPlatform
  split
  · exact .refl d
  · split
    · exact .refl d
    · exact (sameGrants_modifyRegistry ..).trans (sameGrants_registerGauges ..)

theorem sameGrants_openScope (d : Directory) (scope : String) :
    SameGrants d (d.openScope scope).2 := by
  unfold openScope
  split
  · exact .refl d
  · exact .of_scopeGate rfl

theorem sameGrants_getOrCreate (d : Directory) (scope : String) :
    SameGrants d (d.getOrCreate scope).2 := by
  have hopened := sameGrants_openScope d scope
  unfold getOrCreate
  dsimp only
  split
  · exact hopened.trans (sameGrants_bindPlatform ..)
  · exact hopened

theorem gates_dropScope (d : Directory) (scope : String) :
    (d.dropScope scope).2.gates = d.gates := by
  unfold dropScope
  split
  · rfl
  · dsimp only
    split <;> rfl

theorem gates_dropAll (d : Directory) : d.dropAll.gates = d.gates := by
  unfold dropAll
  generalize d.scopeNames = scopes
  induction scopes generalizing d with
  | nil => rfl
  | cons scope scopes ih => exact (ih _).trans (gates_dropScope d scope)

theorem gates_remove (d : Directory) (r : RegistryRef) (id : MetricId) :
    (d.remove r id).2.gates = d.gates := by
  unfold remove
  split
  · rfl
  · dsimp only
    split <;> rfl

theorem gates_removeEach (r : RegistryRef) (ids : List MetricId) (d : Directory) :
    (removeEach r ids d).2.gates = d.gates := by
  induction ids generalizing d with
  | nil => rfl
  | cons id ids ih => exact (ih _).trans (gates_remove d r id)

theorem gates_removeMatching (d : Directory) (r : RegistryRef) (p : MetricId → Adapter → Bool) :
    (d.removeMatching r p).2.gates = d.gates := by
  unfold removeMatching
  split
  · rfl
  · exact gates_removeEach ..

/-! ## Members -/

theorem sameGrants_registerAnnotation (d : Directory) (member : Member) (a : MetricAnnotation) :
    SameGrants d (d.registerAnnotation member a).2 := by
  have hopened := sameGrants_getOrCreate d a.scope
  unfold registerAnnotation
  dsimp only
  split
  · exact hopened
  · rename_i tags _
    have hmade (spec : MeterSpec) :
        SameGrants d ((d.getOrCreate a.scope).2.register (d.getOrCreate a.scope).1
          (a.metadata member) tags spec).2 := hopened.trans (sameGrants_register ..)
    unfold counter timer
    cases a.kind with
    | counted =>
      dsimp only
      split
      · exact hmade _
      · exact (hmade _).trans (sameGrants_modifyRegistry ..)
    | timed =>
      dsimp only
      split
      · exact hmade _
      · exact (hmade _).trans (sameGrants_modifyRegistry ..)

theorem sameGrants_registerMember (member : Member) (annotations : List MetricAnnotation)
    (d : Directory) :
    SameGrants d (registerMember member annotations d).2 := by
  induction annotations generalizing d with
  | nil => exact .refl d
  | cons a annotations ih =>
    have hfirst := sameGrants_registerAnnotation d member a
    unfold registerMember
    split
    · rename_i heq
      rwa [heq] at hfirst
    · rename_i d' heq
      rw [heq] at hfirst
      have hrest := hfirst.trans (ih d')
      split
      · rename_i heq'
        rwa [heq'] at hrest
      · rename_i heq'
        rwa [heq'] at hrest

/-- Work that keeps the grants, under a counted member, -/
theorem sameGrants_invokeCounted {β : Type} (d : Directory) (scope : String) (member : Member)
    {work : Directory → Ending β × Directory} (hwork : ∀ d, SameGrants d (work d).2) :
    SameGrants d (d.invokeCounted scope member work).2 := by
  have hopened := sameGrants_getOrCreate d scope
  rw [invokeCounted_eq]
  split
  · exact hopened
  · exact hopened.trans ((sameGrants_modifyStore ..).trans (hwork _))

/-- and under a timed one. -/
theorem sameGrants_invokeTimed {β : Type} (d : Directory) (scope : String) (member : Member)
    (elapsed : Adapter → Duration) {work : Directory → Ending β × Directory}
    (hwork : ∀ d, SameGrants d (work d).2) :
    SameGrants d (d.invokeTimed scope member elapsed work).2 := by
  have hopened := sameGrants_getOrCreate d scope
  rw [invokeTimed_eq]
  split
  · exact hopened
  · exact (hopened.trans (hwork _)).trans (.of_gates rfl)

mutual

/-- **No operation leaves a grant open or takes one away.** -/
theorem sameGrants_apply : (op : Operation) → (d : Directory) → SameGrants d (op.apply d)
  | .openScope scope, d => sameGrants_getOrCreate d scope
  | .dropScope scope, d => .of_gates (gates_dropScope d scope)
  | .dropAll, d => .of_gates (gates_dropAll d)
  | .register r q metadata tags, d => sameGrants_request d r metadata tags q
  | .remove r id, d => .of_gates (gates_remove d r id)
  | .removeMatching r p, d => .of_gates (gates_removeMatching d r p)
  | .mapMember _ _ _ _, _ => .of_gates rfl
  | .registerMember member annotations, d => sameGrants_registerMember member annotations d
  | .intercept .counted scope member _ work _, d =>
    sameGrants_invokeCounted d scope member fun d => sameGrants_applyAll work d
  | .intercept .timed scope member elapsed work _, d =>
    sameGrants_invokeTimed d scope member elapsed fun d => sameGrants_applyAll work d
  | .increment _ _, _ => .of_gates rfl
  | .update _ _, _ => .of_gates rfl
  | .updateDuration _ _, _ => .of_gates rfl
  | .sample _, _ => .of_gates rfl

/-- Nor does any list of operations. -/
theorem sameGrants_applyAll :
    (ops : List Operation) → (d : Directory) → SameGrants d (Operation.applyAll ops d)
  | [], d => .refl d
  | op :: ops, d => (sameGrants_apply op d).trans (sameGrants_applyAll ops (op.apply d))

end

/-! ## Scope stores of other scopes -/

theorem scopes_bindMetadata (d : Directory) (r : RegistryRef) (metadata : Metadata)
    (kind : MetricKind) :
    (d.bindMetadata r metadata kind).2.store.scopes = d.store.scopes := by
  unfold bindMetadata
  split
  · rfl
  · split
    · rfl
    · split
      · rfl
      · dsimp only
        split
        · rfl
        · exact MeterStore.scopes_refreshMetadata ..

/-- **A registry writes in the scope stores of its scope's gate only.** -/
theorem confined_request {g : Registry} (hr : d.registry? r = some g) (metadata : Metadata)
    (tags : List Tag) (q : MetricRequest) :
    MeterStore.Confined ⟨(d.gates.scopeGate g.scope).1⟩ d.store
      (d.request r metadata tags q).2.store := by
  rw [request_eq_register]
  -- The gate is carried along because it is got when the metadata is bound already.
  refine (register_induction (P := fun d' =>
    (d'.gates.scopeGate g.scope).1 = (d.gates.scopeGate g.scope).1 ∧
      MeterStore.Confined ⟨(d.gates.scopeGate g.scope).1⟩ d.store d'.store)
    ⟨rfl, .of_scopes rfl⟩ ?_ ?_ ?_).2
  · intro d' h
    rw [gates_bindMetadata]
    exact ⟨h.1, h.2.trans (.of_scopes (scopes_bindMetadata ..))⟩
  · intro g' hr' d' id effective h
    cases hr.symm.trans hr'
    obtain ⟨adapters, heq⟩ := registerMeter_snd d' g id (q.spec d.settings metadata.name) effective
    rw [heq, ← h.1, VisibilityGate.scopeGate_scopeGate]
    refine ⟨rfl, (h.1 ▸ h.2).trans MeterStore.writes_register.confined⟩
  · exact fun d' f h => h

/-- **So it leaves the scope stores of other scopes alone**, those of dropped ones included. -/
theorem Coherent.scope?_request (h : d.Coherent) {g : Registry} (hr : d.registry? r = some g)
    (metadata : Metadata) (tags : List Tag) (q : MetricRequest) {n : ScopeRef} {c : ScopeStore}
    (hc : d.store.scope? n = some c) (hne : c.gate.scope ≠ g.scope) :
    (d.request r metadata tags q).2.store.scope? n = some c := by
  obtain ⟨c', hc', -, hsame⟩ := confined_request hr metadata tags q n c hc
  rw [hc', hsame]
  obtain ⟨own, hown⟩ := h.exists_scope hr
  have hlt : n < d.registries.length := h.stores ▸ (List.getElem?_eq_some_iff.mp hc).1
  have hn : d.registry? n = some d.registries[n] := List.getElem?_eq_getElem hlt
  have hgate := (h.scope r g own hr hown).1
  rw [VisibilityGate.scopeGate_of_some hgate]
  refine Bool.eq_false_iff.mpr fun hfor => hne ?_
  rw [h.gate_scope hn hc]
  exact ((h.gates.same_iff hgate (h.scope n _ c hn hc).1).mp hfor).symm

end Directory

/-! ## Accounts -/

/-- How grants are counted, for whom they are, and what is done under them. -/
structure GrantsAccounted : Prop where
  /-- Through any sequence of events each gate counts the grants of it that are held, -/
  outstanding : ∀ (events : List GateEvent) issuer scope,
    ((Ledger.run events).issuers issuer).count scope =
      (Ledger.run events).live.countP (·.isOf issuer scope)
  /-- and a grant that can be released is counted, so that no count is taken below zero. -/
  positive : ∀ events (place : Nat) (grant : WriteGrant),
    (Ledger.run events).live[place]? = some grant →
    0 < ((Ledger.run events).issuers grant.gate.issuer).grants grant.gate ∧
      0 < ((Ledger.run events).issuers grant.gate.issuer).count grant.gate.scope
  /-- A gate is open while grants of it are counted. -/
  isOpen : ∀ (v : VisibilityGate) scope, v.isOpen scope = true ↔ 0 < v.count scope
  /-- A scope's gate is made once, and handed out ever after. -/
  made : ∀ events later issuer scope gate,
    ((Ledger.run events).issuers issuer).gate? scope = some gate →
    (((Ledger.run (events ++ later)).issuers issuer).scopeGate scope).1 = gate
  /-- A grant is for the gate of its own scope and issuer. -/
  isFor : ∀ events issuer scope, ∀ grant ∈ (Ledger.run events).live,
    grant.isFor (((Ledger.run events).issuers issuer).scopeGate scope).1 = true ↔
      grant.gate.issuer = issuer ∧ grant.gate.scope = scope
  /-- A desk counts the grants that it holds, and its answers tell them. -/
  desk : ∀ requests, (∀ scope, (GrantDesk.run requests).gates.count scope =
      GrantDesk.holding (GrantDesk.run requests).held scope) ∧
    ∀ request, ((GrantDesk.run requests).step request).1 = (GrantDesk.run requests).told request
  /-- No operation on a directory, successful or not, changes what any gate counts. -/
  operations : ∀ (op : Operation) (d : Directory) scope,
    (op.apply d).gates.count scope = d.gates.count scope
  /-- A registration in the meter store changes no scope store whose gate did not issue its
  grant, -/
  stores : ∀ (s : MeterStore) id spec metadata grant,
    MeterStore.Writes grant s (s.register id spec metadata grant).2
  /-- one through a registry none whose gate is not that of the registry's scope, -/
  registries : ∀ (d : Directory) r g metadata tags q, d.registry? r = some g →
    MeterStore.Confined ⟨(d.gates.scopeGate g.scope).1⟩ d.store
      (d.request r metadata tags q).2.store
  /-- and so, in what runs lead to, none of another scope. -/
  scopes : ∀ settings platform ops r g metadata tags q n c,
    Directory.registry? (Directory.afterRun settings platform ops) r = some g →
    (Directory.afterRun settings platform ops).store.scope? n = some c → c.gate.scope ≠ g.scope →
    ((Directory.afterRun settings platform ops).request r metadata tags q).2.store.scope? n = some c

/-- **Write grants are accounted for exactly.** -/
theorem grants_accounted : GrantsAccounted where
  outstanding := fun events issuer scope => by
    have h := Ledger.balanced_run events
    rw [(h.counts issuer).count, h.issuer issuer]
  positive := fun events place grant hgrant => by
    have h := Ledger.balanced_run events
    have hmem := List.mem_of_getElem? hgrant
    have hissuer := (h.issuer grant.gate.issuer).symm
    have hpos := (h.counts _).pos hmem hissuer
    rw [VisibilityGate.count_of_gate? ((h.counts _).issued grant hmem hissuer)]
    exact ⟨hpos, hpos⟩
  isOpen := fun _ _ => VisibilityGate.isOpen_iff
  made := fun events later _ _ _ => Ledger.scopeGate_run events later
  isFor := fun events issuer scope grant hgrant => by
    have h := Ledger.balanced_run events
    rw [(h.counts issuer).isFor_iff hgrant, h.issuer issuer]
  desk := fun requests =>
    ⟨(GrantDesk.sound_run requests).count, (GrantDesk.sound_run requests).answer⟩
  operations := fun op d => (Directory.sameGrants_apply op d).counts
  stores := fun _ _ _ _ _ => MeterStore.writes_register
  registries := fun _ _ _ metadata tags q hr => Directory.confined_request hr metadata tags q
  scopes := fun settings platform ops _ _ metadata tags q _ _ hr hc hne =>
    (Directory.coherent_afterRun settings platform ops).scope?_request hr metadata tags q hc hne

end Telemetry
