import Mathlib.Data.List.Perm.Basic
import Telemetry.Gate.Desk
import Telemetry.Proofs.Gate.Numbers

/-!
# Grants that are held

The gates of an issuer count grants: opening one adds to the count of its gate, releasing one takes
from it (specification, 4.1). What the counts say is told by the grants that are held
(`VisibilityGate.Counts`), that is opened and not yet released; a grant that is held has been
counted, so no count is ever taken below zero (`Counts.pos`).

* `Ledger.balanced_run`: through any sequence of events at the gates of any number of issuers the
  counts are those of the grants held. Nothing is assumed of the order of releases: grants may be
  nested or side by side, one may replace another, and a panic releases what the code that it
  unwinds holds.
* `GrantDesk.sound_run`: so it is at a desk, whatever is asked of it, and its answers say so
  (`GrantDesk.Sound.answer`).
-/

namespace Telemetry

namespace WriteGrant

variable {grant : WriteGrant} {live : List WriteGrant} {issuer : Nat} {scope : String}

/-- The grant is of the scope's gate that the issuer made. -/
def isOf (grant : WriteGrant) (issuer : Nat) (scope : String) : Bool :=
  decide (grant.gate.issuer = issuer ∧ grant.gate.scope = scope)

theorem isOf_iff :
    grant.isOf issuer scope = true ↔ grant.gate.issuer = issuer ∧ grant.gate.scope = scope :=
  decide_eq_true_iff

theorem countP_cons_of_isOf (hissuer : grant.gate.issuer = issuer)
    (hscope : grant.gate.scope = scope) : (grant :: live).countP (·.isOf issuer scope) =
      live.countP (·.isOf issuer scope) + 1 :=
  List.countP_cons_of_pos (isOf_iff.mpr ⟨hissuer, hscope⟩)

theorem countP_cons_of_not_isOf (hnot : ¬ (grant.gate.issuer = issuer ∧ grant.gate.scope = scope)) :
    (grant :: live).countP (·.isOf issuer scope) = live.countP (·.isOf issuer scope) :=
  List.countP_cons_of_neg fun hof => hnot (isOf_iff.mp hof)

end WriteGrant

/-! ## Counts -/

namespace VisibilityGate

variable {v : VisibilityGate} {gate gate' : ScopeGate} {grant : WriteGrant} {scope : String}
  {live live' : List WriteGrant}

theorem count_of_gate? (h : v.gate? scope = some gate) : v.count scope = v.grants gate := by
  unfold count
  rw [h, Option.map_some, Option.getD_some]

/-- Making a gate changes no count: the new one has none. -/
theorem count_scopeGate (v : VisibilityGate) (scope s : String) :
    (v.scopeGate scope).2.count s = v.count s := by
  cases h : v.gate? scope with
  | some gate => rw [scopeGate_of_some h]
  | none =>
    by_cases hs : s = scope
    · subst hs
      rw [count_of_gate? (gate?_scopeGate v s), scopeGate_of_none h]
      unfold count grants
      rw [h, List.getElem?_concat_length]
      rfl
    · unfold count
      rw [gate?_scopeGate_of_ne hs, scopeGate_of_none h]
      refine congrArg (Option.getD · 0) (Option.map_congr fun gate _ => ?_)
      unfold grants
      by_cases hlt : gate.number < v.outstanding.length
      · rw [List.getElem?_append_left hlt]
      · have hge := Nat.le_of_not_lt hlt
        rw [List.getElem?_append_right hge, List.getElem?_eq_none hge]
        cases gate.number - v.outstanding.length <;> rfl

theorem grants_modify (hlt : gate.number < v.outstanding.length) (f : Nat → Nat) :
    grants { v with outstanding := v.outstanding.modify gate.number f } gate =
    f (v.grants gate) := by
  unfold grants
  simp only [List.getElem?_modify, if_true, List.getElem?_eq_getElem hlt]
  rfl

theorem grants_modify_of_ne (hne : gate.number ≠ gate'.number) (f : Nat → Nat) :
    grants { v with outstanding := v.outstanding.modify gate.number f } gate' = v.grants gate' := by
  unfold grants
  simp only [List.getElem?_modify, if_neg hne]
  cases v.outstanding[gate'.number]? <;> rfl

theorem isOpen_iff {s : String} : v.isOpen s = true ↔ 0 < v.count s := decide_eq_true_iff

/-- The counts of the gates are those of the grants that are held, which the gates on record
issued. -/
structure Counts (v : VisibilityGate) (live : List WriteGrant) : Prop where
  numbered : v.Numbered
  issued : ∀ grant ∈ live, grant.gate.issuer = v.issuer →
    v.gate? grant.gate.scope = some grant.gate
  grants : ∀ scope gate, v.gate? scope = some gate →
    v.grants gate = live.countP (·.isOf v.issuer scope)

namespace Counts

theorem count (h : v.Counts live) (scope : String) :
    v.count scope = live.countP (·.isOf v.issuer scope) := by
  cases hscope : v.gate? scope with
  | some gate => exact (count_of_gate? hscope).trans (h.grants scope gate hscope)
  | none =>
    have hnone : live.countP (·.isOf v.issuer scope) = 0 := by
      refine List.countP_eq_zero.mpr fun grant hgrant hof => ?_
      obtain ⟨hissuer, rfl⟩ := WriteGrant.isOf_iff.mp hof
      exact nomatch hscope.symm.trans (h.issued grant hgrant hissuer)
    unfold VisibilityGate.count
    rw [hscope, hnone]
    rfl

theorem new (issuer : Nat) : (new issuer).Counts [] :=
  ⟨numbered_new issuer, fun _ hgrant => absurd hgrant List.not_mem_nil, fun _ _ h => nomatch h⟩

theorem perm (h : v.Counts live) (hperm : live.Perm live') : v.Counts live' :=
  ⟨h.numbered, fun grant hgrant => h.issued grant (hperm.mem_iff.mpr hgrant),
    fun scope gate hgate => (h.grants scope gate hgate).trans (hperm.countP_eq _)⟩

theorem scopeGate (h : v.Counts live) (scope : String) : (v.scopeGate scope).2.Counts live where
  numbered := h.numbered.scopeGate scope
  issued := by
    intro grant hgrant hissuer
    rw [issuer_scopeGate] at hissuer
    exact gate?_of_scopeGate (h.issued grant hgrant hissuer)
  grants := by
    intro s gate hgate
    rw [← count_of_gate? hgate, count_scopeGate, h.count, issuer_scopeGate]

/-- **A grant is for a gate** just when both are of one scope of one issuer. -/
theorem isFor_iff (h : v.Counts live) (hgrant : grant ∈ live) (scope : String) :
    grant.isFor (v.scopeGate scope).1 = true ↔
      grant.gate.issuer = v.issuer ∧ grant.gate.scope = scope := by
  have hmade := gate?_scopeGate v scope
  constructor
  · intro hfor
    have hissuer := (ScopeGate.same_iff.mp hfor).1.trans (issuer_gate v scope)
    have hissued : (v.scopeGate scope).2.gate? grant.gate.scope = some grant.gate :=
      gate?_of_scopeGate (h.issued grant hgrant hissuer)
    exact ⟨hissuer, ((h.numbered.scopeGate scope).same_iff hissued hmade).mp hfor⟩
  · rintro ⟨hissuer, rfl⟩
    rw [scopeGate_of_some (h.issued grant hgrant hissuer)]
    exact ScopeGate.same_iff.mpr ⟨rfl, rfl⟩

/-- A grant that is opened is counted, -/
theorem openGrant (h : v.Counts live) (hgate : v.gate? scope = some gate) :
    (v.openGrant gate).2.Counts (⟨gate⟩ :: live) where
  numbered := h.numbered.openGrant gate
  issued := by
    obtain ⟨-, rfl, -⟩ := gate?_eq_some_iff.mp hgate
    intro grant hgrant hissuer
    obtain rfl | hgrant := List.mem_cons.mp hgrant
    · exact hgate
    · exact h.issued grant hgrant hissuer
  grants := by
    obtain ⟨hissuer, rfl, -⟩ := gate?_eq_some_iff.mp hgate
    intro s other hother
    have hbefore := h.grants s other hother
    show _ = List.countP (·.isOf v.issuer s) (⟨gate⟩ :: live)
    by_cases hs : s = gate.scope
    · subst hs
      cases hgate.symm.trans hother
      rw [WriteGrant.countP_cons_of_isOf hissuer rfl, ← hbefore]
      exact grants_modify (h.numbered.lt _ gate hgate) _
    · rw [WriteGrant.countP_cons_of_not_isOf fun hof => hs hof.2.symm, ← hbefore]
      refine grants_modify_of_ne (fun hn => hs ?_) _
      exact (h.numbered.inj _ _ gate other hgate hother hn).symm

/-- a grant that is held was counted, -/
theorem pos (h : v.Counts live) (hgrant : grant ∈ live) (hissuer : grant.gate.issuer = v.issuer) :
    0 < v.grants grant.gate := by
  rw [h.grants _ _ (h.issued grant hgrant hissuer)]
  exact List.countP_pos_iff.mpr ⟨grant, hgrant, WriteGrant.isOf_iff.mpr ⟨hissuer, rfl⟩⟩

/-- and a grant that is released is not counted any more. -/
theorem release (h : v.Counts (grant :: live)) (hissuer : grant.gate.issuer = v.issuer) :
    (v.release grant).Counts live where
  numbered := h.numbered.release grant
  issued := fun other hother => h.issued other (List.mem_cons_of_mem grant hother)
  grants := by
    have hgate := h.issued grant List.mem_cons_self hissuer
    intro s other hother
    have hbefore := h.grants s other hother
    by_cases hs : s = grant.gate.scope
    · subst hs
      cases hgate.symm.trans hother
      rw [WriteGrant.countP_cons_of_isOf hissuer rfl] at hbefore
      exact (grants_modify (h.numbered.lt _ _ hgate) _).trans (congrArg (· - 1) hbefore)
    · rw [WriteGrant.countP_cons_of_not_isOf fun hof => hs hof.2.symm] at hbefore
      refine (grants_modify_of_ne (fun hn => hs ?_) _).trans hbefore
      exact (h.numbered.inj _ _ grant.gate other hgate hother hn).symm

end Counts

/-- The grants of other issuers do not count. -/
theorem counts_cons_iff (hissuer : grant.gate.issuer ≠ v.issuer) :
    v.Counts (grant :: live) ↔ v.Counts live := by
  have hother (scope : String) :
      (grant :: live).countP (·.isOf v.issuer scope) = live.countP (·.isOf v.issuer scope) :=
    WriteGrant.countP_cons_of_not_isOf fun hof => hissuer hof.1
  constructor
  · intro h
    exact ⟨h.numbered, fun other hmem => h.issued other (List.mem_cons_of_mem grant hmem),
      fun scope gate hgate => (h.grants scope gate hgate).trans (hother scope)⟩
  · intro h
    refine ⟨h.numbered, fun other hmem hsame => ?_,
      fun scope gate hgate => (h.grants scope gate hgate).trans (hother scope).symm⟩
    obtain rfl | hmem := List.mem_cons.mp hmem
    · exact absurd hsame hissuer
    · exact h.issued other hmem hsame

end VisibilityGate

/-! ## Any sequence of events -/

/-- What is done at gates. -/
inductive GateEvent where
  /-- Get the gate of a scope, made on first use. -/
  | make (issuer : Nat) (scope : String)
  /-- Open a grant of a scope and hold it. -/
  | openGrant (issuer : Nat) (scope : String)
  /-- Release the held grant at this place, if there is one: because its holder lets it go, because
  a new grant that was opened before takes its place, or because a panic unwinds its holder. -/
  | release (place : Nat)

/-- The gates of all issuers, and the grants that are held, the newest one first. -/
structure Ledger where
  issuers : Nat → VisibilityGate
  live : List WriteGrant

namespace Ledger

variable {l : Ledger}

/-- No gates and no grants. -/
def new : Ledger := ⟨VisibilityGate.new, []⟩

/-- Put gates in the place of those of an issuer. -/
def withGates (l : Ledger) (issuer : Nat) (v : VisibilityGate) : Ledger :=
  { l with issuers := fun i => if i = issuer then v else l.issuers i }

/-- Release the grant at a place, if there is one. -/
def release (l : Ledger) (place : Nat) : Ledger :=
  match l.live[place]? with
  | none => l
  | some grant =>
    { l.withGates grant.gate.issuer ((l.issuers grant.gate.issuer).release grant) with
      live := l.live.eraseIdx place }

def step : GateEvent → Ledger → Ledger
  | .make issuer scope, l => l.withGates issuer ((l.issuers issuer).scopeGate scope).2
  | .openGrant issuer scope, l =>
    let (gate, v) := (l.issuers issuer).scopeGate scope
    let (grant, v) := v.openGrant gate
    { l.withGates issuer v with live := grant :: l.live }
  | .release place, l => l.release place

/-- What a sequence of events leaves. -/
def run (events : List GateEvent) : Ledger := events.foldl (fun l e => l.step e) new

/-- Every issuer's gates count the grants that are held. -/
structure Balanced (l : Ledger) : Prop where
  issuer : ∀ i, (l.issuers i).issuer = i
  counts : ∀ i, (l.issuers i).Counts l.live

theorem balanced_new : new.Balanced := ⟨fun _ => rfl, .new⟩

/-- It is enough that the gates of the one issuer count right, and that for the others the same
grants are held. -/
theorem Balanced.withGates (h : l.Balanced) {issuer : Nat} {v : VisibilityGate}
    {live : List WriteGrant} (hissuer : v.issuer = issuer) (hcounts : v.Counts live)
    (hother : ∀ i, i ≠ issuer → (l.issuers i).Counts live) :
    Balanced { l.withGates issuer v with live := live } where
  issuer := by
    intro i
    show VisibilityGate.issuer (if i = issuer then v else l.issuers i) = i
    split
    · rename_i hi
      exact hissuer.trans hi.symm
    · exact h.issuer i
  counts := by
    intro i
    show VisibilityGate.Counts (if i = issuer then v else l.issuers i) live
    split
    · exact hcounts
    · rename_i hi
      exact hother i hi

/-- A grant that is released was counted, and only it is counted no more. -/
theorem Balanced.release (h : l.Balanced) (place : Nat) : (l.release place).Balanced := by
  unfold Ledger.release
  cases hplace : l.live[place]? with
  | none => exact h
  | some grant =>
    obtain ⟨hlt, rfl⟩ := List.getElem?_eq_some_iff.mp hplace
    have hperm : l.live.Perm (l.live[place] :: l.live.eraseIdx place) :=
      (List.getElem_cons_eraseIdx_perm hlt).symm
    have hissuer := h.issuer l.live[place].gate.issuer
    -- Counts do not tell where in the list a grant is, so it may as well be the newest one.
    refine h.withGates hissuer (((h.counts _).perm hperm).release hissuer.symm) fun i hi => ?_
    refine (VisibilityGate.counts_cons_iff fun heq => hi ?_).mp ((h.counts i).perm hperm)
    exact (heq.trans (h.issuer i)).symm

/-- Every event keeps the counts right. -/
theorem Balanced.step (h : l.Balanced) (event : GateEvent) : (l.step event).Balanced := by
  cases event with
  | make issuer scope =>
    refine h.withGates ?_ ((h.counts issuer).scopeGate scope) fun i _ => h.counts i
    exact (VisibilityGate.issuer_scopeGate _ scope).trans (h.issuer issuer)
  | openGrant issuer scope =>
    have hcounts := ((h.counts issuer).scopeGate scope).openGrant
      (VisibilityGate.gate?_scopeGate (l.issuers issuer) scope)
    have hsame := (VisibilityGate.issuer_scopeGate (l.issuers issuer) scope).trans (h.issuer issuer)
    have hgate := (VisibilityGate.issuer_gate (l.issuers issuer) scope).trans (h.issuer issuer)
    refine h.withGates hsame hcounts fun i hi => ?_
    refine (VisibilityGate.counts_cons_iff fun heq => hi ?_).mpr (h.counts i)
    exact (h.issuer i).symm.trans (heq.symm.trans hgate)
  | release place => exact h.release place

/-- **Grants are accounted for exactly** through any sequence of events. -/
theorem balanced_run (events : List GateEvent) : (run events).Balanced := by
  suffices ∀ l : Ledger, l.Balanced → (events.foldl (fun l e => l.step e) l).Balanced from
    this _ balanced_new
  induction events with
  | nil => exact fun _ h => h
  | cons event events ih => exact fun l h => ih _ (h.step event)

/-! ## Gates on record -/

section

variable {issuer : Nat} {scope : String} {gate : ScopeGate}

theorem gate?_withGates {v : VisibilityGate} (l : Ledger) (i : Nat)
    (hv : ∀ scope gate, (l.issuers i).gate? scope = some gate → v.gate? scope = some gate)
    (h : (l.issuers issuer).gate? scope = some gate) :
    ((l.withGates i v).issuers issuer).gate? scope = some gate := by
  show VisibilityGate.gate? (if issuer = i then v else l.issuers issuer) scope = _
  split
  · rename_i hi
    subst hi
    exact hv scope gate h
  · exact h

/-- No event takes a gate off the record. -/
theorem gate?_step (h : (l.issuers issuer).gate? scope = some gate) (event : GateEvent) :
    ((l.step event).issuers issuer).gate? scope = some gate := by
  cases event with
  | make i s => exact gate?_withGates l i (fun _ _ => VisibilityGate.gate?_of_scopeGate) h
  | openGrant i s => exact gate?_withGates l i (fun _ _ => VisibilityGate.gate?_of_scopeGate) h
  | release place =>
    show ((l.release place).issuers issuer).gate? scope = some gate
    unfold release
    cases l.live[place]? with
    | none => exact h
    | some grant => exact gate?_withGates l _ (fun _ _ h => h) h

/-- **A gate that was made** is the one that is handed out ever after. -/
theorem scopeGate_run (events later : List GateEvent)
    (h : ((run events).issuers issuer).gate? scope = some gate) :
    (((run (events ++ later)).issuers issuer).scopeGate scope).1 = gate := by
  have hkept : ((run (events ++ later)).issuers issuer).gate? scope = some gate := by
    unfold run at h ⊢
    rw [List.foldl_append]
    generalize events.foldl (fun l e => l.step e) new = l at h
    induction later generalizing l with
    | nil => exact h
    | cons event later ih => exact ih _ (gate?_step h event)
  rw [VisibilityGate.scopeGate_of_some hkept]

end

end Ledger

/-! ## A desk -/

namespace GrantDesk

variable {d : GrantDesk}

/-- How many grants of a scope are held. -/
def holding (held : SortedMap String WriteGrant) (scope : String) : Nat :=
  held.values.countP fun grant => grant.gate.scope = scope

/-- The counts are those of the grants that the desk holds, which are its own. -/
structure Sound (d : GrantDesk) : Prop where
  counts : d.gates.Counts d.held.values
  issuer : ∀ grant ∈ d.held.values, grant.gate.issuer = d.gates.issuer

theorem Sound.count (h : d.Sound) (scope : String) :
    d.gates.count scope = holding d.held scope := by
  rw [h.counts.count]
  refine List.countP_congr fun grant hgrant => ?_
  rw [WriteGrant.isOf_iff, decide_eq_true_iff, and_iff_right (h.issuer grant hgrant)]

theorem sound_new : new.Sound := ⟨.new 0, fun _ hgrant => absurd hgrant List.not_mem_nil⟩

/-- A desk whose gates were looked at. -/
theorem Sound.scopeGate (h : d.Sound) (scope : String) :
    Sound { d with gates := (d.gates.scopeGate scope).2 } where
  counts := h.counts.scopeGate scope
  issuer := fun grant hgrant => (h.issuer grant hgrant).trans
    (VisibilityGate.issuer_scopeGate d.gates scope).symm

/-- The gates with a new grant, while the desk still holds what it held. -/
theorem Sound.opened (h : d.Sound) (scope : String) :
    ((d.gates.scopeGate scope).2.openGrant (d.gates.scopeGate scope).1).2.Counts
      (⟨(d.gates.scopeGate scope).1⟩ :: d.held.values) :=
  (h.counts.scopeGate scope).openGrant (VisibilityGate.gate?_scopeGate d.gates scope)

/-- Without the grant of a handle, what is held is the desk's own still. -/
theorem Sound.issuer_erase (h : d.Sound) (handle : String) :
    ∀ grant ∈ (d.held.erase handle).values, grant.gate.issuer = d.gates.issuer := by
  intro grant hgrant
  obtain ⟨k, hk⟩ := SortedMap.mem_values.mp hgrant
  rw [SortedMap.get?_erase] at hk
  split at hk
  · cases hk
  · exact h.issuer grant (SortedMap.mem_values.mpr ⟨k, hk⟩)

/-- Closing releases the grant of the handle. -/
theorem Sound.close (h : d.Sound) {handle : String} {grant : WriteGrant}
    (hheld : d.held.get? handle = some grant) :
    Sound ⟨d.gates.release grant, d.held.erase handle⟩ where
  counts := (h.counts.perm (SortedMap.values_perm hheld)).release
    (h.issuer grant (SortedMap.mem_values.mpr ⟨handle, hheld⟩))
  issuer := h.issuer_erase handle

/-- Opening a grant under a handle releases the older one, if there is one. -/
theorem Sound.openAs (h : d.Sound) (scope handle : String) :
    (d.step (.openAs scope handle)).2.Sound := by
  have hopened := h.opened scope
  have hsame := VisibilityGate.issuer_scopeGate d.gates scope
  have hinsert := SortedMap.values_insert_perm d.held handle ⟨(d.gates.scopeGate scope).1⟩
  have hissuer : ∀ grant ∈ (d.held.insert handle ⟨(d.gates.scopeGate scope).1⟩).values,
      grant.gate.issuer = (d.gates.scopeGate scope).2.issuer := by
    intro grant hgrant
    rw [hsame]
    obtain rfl | hgrant := List.mem_cons.mp (hinsert.mem_iff.mp hgrant)
    · exact VisibilityGate.issuer_gate d.gates scope
    · exact h.issuer_erase handle grant hgrant
  cases hheld : d.held.get? handle with
  | none =>
    simp only [GrantDesk.step, hheld]
    rw [SortedMap.erase_of_get?_none hheld] at hinsert
    exact ⟨hopened.perm hinsert.symm, hissuer⟩
  | some older =>
    simp only [GrantDesk.step, hheld]
    -- The older grant is held until the new one is open.
    have hboth := hopened.perm (((SortedMap.values_perm hheld).cons _).trans (.swap ..))
    have holder := h.issuer older (SortedMap.mem_values.mpr ⟨handle, hheld⟩)
    exact ⟨(hboth.release (holder.trans hsame.symm)).perm hinsert.symm, hissuer⟩

theorem step_close {handle : String} {grant : WriteGrant}
    (hheld : d.held.get? handle = some grant) : d.step (.close handle) =
      (.closed ((d.gates.release grant).count grant.gate.scope)
        ((d.gates.release grant).isOpen grant.gate.scope),
        ⟨d.gates.release grant, d.held.erase handle⟩) := by
  simp only [GrantDesk.step, hheld]

theorem step_close_none {handle : String} (hheld : d.held.get? handle = none) :
    d.step (.close handle) = (.noGrant, d) := by
  simp only [GrantDesk.step, hheld]

theorem step_isFor {handle : String} {grant : WriteGrant}
    (hheld : d.held.get? handle = some grant) (scope : String) : d.step (.isFor handle scope) =
      (.issued grant.gate.scope (grant.isFor (d.gates.scopeGate scope).1),
        { d with gates := (d.gates.scopeGate scope).2 }) := by
  simp only [GrantDesk.step, hheld]

theorem step_isFor_none {handle : String} (hheld : d.held.get? handle = none) (scope : String) :
    d.step (.isFor handle scope) = (.noGrant, d) := by
  simp only [GrantDesk.step, hheld]

/-- **Every request keeps the counts right.** -/
theorem Sound.step (h : d.Sound) (request : GrantRequest) : (d.step request).2.Sound := by
  cases request with
  | contains scope => exact h
  | inspect scope => exact (h.scopeGate scope).scopeGate scope
  | openAs scope handle => exact h.openAs scope handle
  | failing scope =>
    have hsame := VisibilityGate.issuer_scopeGate d.gates scope
    have hgate := (VisibilityGate.issuer_gate d.gates scope).trans hsame.symm
    exact ⟨(h.opened scope).release hgate,
      fun grant hgrant => (h.issuer grant hgrant).trans hsame.symm⟩
  | close handle =>
    cases hheld : d.held.get? handle with
    | none => rwa [step_close_none hheld]
    | some grant =>
      rw [step_close hheld]
      exact h.close hheld
  | isFor handle scope =>
    cases hheld : d.held.get? handle with
    | none => rwa [step_isFor_none hheld]
    | some grant =>
      rw [step_isFor hheld]
      exact h.scopeGate scope

/-- What requests leave of a desk. -/
def run (requests : List GrantRequest) : GrantDesk :=
  requests.foldl (fun d request => (d.step request).2) new

/-- **A desk counts the grants that it holds**, whatever was asked of it. -/
theorem sound_run (requests : List GrantRequest) : (run requests).Sound := by
  suffices ∀ d : GrantDesk, d.Sound →
      (requests.foldl (fun d request => (d.step request).2) d).Sound from this _ sound_new
  induction requests with
  | nil => exact fun _ h => h
  | cons request requests ih => exact fun d h => ih _ (h.step request)

/-- What a desk tells, from the grants that are held when the request was carried out. -/
def told (d : GrantDesk) : GrantRequest → GrantAnswer
  | .contains scope => .known (d.gates.contains scope)
  | .inspect scope => .gate scope (decide (0 < holding d.held scope)) (holding d.held scope) true
  | .openAs scope handle =>
    .opened (holding (d.held.insert handle ⟨(d.gates.scopeGate scope).1⟩) scope)
  | .failing scope => .failed (holding d.held scope)
  | .close handle =>
    match d.held.get? handle with
    | none => .noGrant
    | some grant =>
      let n := holding (d.held.erase handle) grant.gate.scope
      .closed n (decide (0 < n))
  | .isFor handle scope =>
    match d.held.get? handle with
    | none => .noGrant
    | some grant => .issued grant.gate.scope (decide (grant.gate.scope = scope))

/-- **Its answers tell the grants that it holds.** -/
theorem Sound.answer (h : d.Sound) (request : GrantRequest) :
    (d.step request).1 = d.told request := by
  have hafter := (h.step request).count
  cases request with
  | contains scope => rfl
  | inspect scope =>
    have hn : (d.gates.scopeGate scope).2.count scope = holding d.held scope :=
      (h.scopeGate scope).count scope
    have hsame : (d.gates.scopeGate scope).1.same (d.gates.scopeGate scope).1 = true :=
      ScopeGate.same_iff.mpr ⟨rfl, rfl⟩
    unfold GrantDesk.step told VisibilityGate.isOpen
    simp only [VisibilityGate.scopeGate_scopeGate, VisibilityGate.scope_scopeGate, hn, hsame]
  | openAs scope handle => exact congrArg GrantAnswer.opened (hafter scope)
  | failing scope => exact congrArg GrantAnswer.failed (hafter scope)
  | close handle =>
    cases hheld : d.held.get? handle with
    | none =>
      rw [step_close_none hheld]
      simp only [told, hheld]
    | some grant =>
      have hn := hafter grant.gate.scope
      rw [step_close hheld] at hn ⊢
      simp only [told, hheld, VisibilityGate.isOpen]
      simp only [hn]
  | isFor handle scope =>
    cases hheld : d.held.get? handle with
    | none =>
      rw [step_isFor_none hheld]
      simp only [told, hheld]
    | some grant =>
      have hgrant := SortedMap.mem_values.mpr ⟨handle, hheld⟩
      have hfor := h.counts.isFor_iff hgrant scope
      rw [and_iff_right (h.issuer grant hgrant)] at hfor
      rw [step_isFor hheld]
      simp only [told, hheld]
      refine congrArg (GrantAnswer.issued grant.gate.scope) (Bool.eq_iff_iff.mpr ?_)
      rw [hfor, decide_eq_true_iff]

end GrantDesk

end Telemetry
