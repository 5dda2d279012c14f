import Mathlib.Data.List.Nodup
import Telemetry.Proofs.Isolation.Aside
import Telemetry.Proofs.Isolation.Runs

/-!
# Scopes made anew

A scope that was dropped can be made again, while registries and metrics of its past are held. Steps
of the scope are then answered as in a session in which it never was (`trace_beside`), whatever is
done in between in other scopes or through what is held of the past.

The two sessions are followed side by side. On the left a history tells the past from the present
(`Renewed`): all registries of the scope that there were at the start are dropped, and what the
scope's names stand for comes from later ones. Metrics of the past are left with meters that no
registry of the present reaches, so these need not be paired with any on the right.
-/

namespace Telemetry

open Directory

namespace Session

variable {ρ : Pairing} {o : Ownership} {t : String} {s s' s₁ s₁' : Session} {w : RegistryRef}
  {settings : RegistrySettings} {platform : PlatformReadings} {N N' : Names}
  {P P' : String → RegistryRef → Prop} {acts acts' later : List Action}
  {r : RegistryRef} {a : Adapter} {m : MeterRef}

/-! ## Dropping every scope -/

/-- Other scopes dropped on either side. -/
theorem Twins.dropEach (h : Twins o t ρ s s') {scopes scopes' : List String}
    (hne : ∀ u ∈ scopes, u ≠ t) (hne' : ∀ u ∈ scopes', u ≠ t) :
    Twins o t ρ { s with directory := scopes.foldl (fun d u => (d.dropScope u).2) s.directory }
      { s' with directory := scopes'.foldl (fun d u => (d.dropScope u).2) s'.directory } := by
  have hdropped : ∀ (s : Session) u, s.directory.Coherent →
      Frame o u s { s with directory := (s.directory.dropScope u).2 } :=
    fun s u h => frame_directory h (changes_dropScope h u)
  induction scopes generalizing s with
  | nil =>
    induction scopes' generalizing s' with
    | nil => exact h
    | cons u scopes' ih =>
      exact ih (fun v hv => hne' v (List.mem_cons_of_mem u hv)) <|
        h.frame (.refl o u h.directory.left) (hdropped s' u h.directory.right)
          (hne' u List.mem_cons_self)
  | cons u scopes ih =>
    exact ih (h.frame (hdropped s u h.directory.left) (.refl o u h.directory.right)
      (hne u List.mem_cons_self)) fun v hv => hne v (List.mem_cons_of_mem u hv)

/-- An existing scope is listed once. -/
theorem scopeNames_split {d : Directory} (ht : t ∈ d.scopeNames) :
    ∃ before after, d.scopeNames = before ++ t :: after ∧ (∀ u ∈ before, u ≠ t) ∧
      ∀ u ∈ after, u ≠ t := by
  obtain ⟨before, after, hsplit⟩ := List.append_of_mem ht
  have hnodup : d.scopeNames.Nodup := SortedMap.nodup_keys d.scopes
  rw [hsplit, List.nodup_middle, List.nodup_cons, List.mem_append, not_or] at hnodup
  obtain ⟨⟨hbefore, hafter⟩, -⟩ := hnodup
  exact ⟨before, after, hsplit, fun u hu heq => hbefore (heq ▸ hu), fun u hu heq =>
    hafter (heq ▸ hu)⟩

theorem Twins.dropAll (h : Twins o t ρ s s') : ∃ ρ', Twins o t ρ'
    { s with directory := s.directory.dropAll } { s' with directory := s'.directory.dropAll } := by
  have hexists : t ∈ s.directory.scopeNames ↔ t ∈ s'.directory.scopeNames := by
    have hsame := h.directory.scopeExists
    unfold Directory.scopeExists at hsame
    unfold scopeNames
    rw [SortedMap.mem_keys, SortedMap.mem_keys, ← SortedMap.contains_iff, ← SortedMap.contains_iff,
      hsame]
  unfold Directory.dropAll
  by_cases ht : t ∈ s.directory.scopeNames
  · -- The scope itself is dropped on both sides, and others before and after it.
    obtain ⟨before, after, hsplit, hbefore, hafter⟩ := scopeNames_split ht
    obtain ⟨before', after', hsplit', hbefore', hafter'⟩ := scopeNames_split (hexists.mp ht)
    rw [hsplit, hsplit', List.foldl_append, List.foldl_append, List.foldl_cons, List.foldl_cons]
    have hfirst := h.dropEach hbefore hbefore'
    obtain ⟨ρ', -, -, hdropped⟩ := hfirst.operation hfirst.directory.dropScope
      (changes_dropScope hfirst.directory.left t) (changes_dropScope hfirst.directory.right t)
    exact ⟨ρ', hdropped.dropEach hafter hafter'⟩
  · exact ⟨ρ, h.dropEach (fun u hu heq => ht (heq ▸ hu))
      fun u hu heq => ht (hexists.mpr (heq ▸ hu))⟩

/-! ## The present of a scope -/

/-- What is held under other names is held still when a step goes on with the history. -/
theorem Follows.onto (h : Follows settings platform N P acts s)
    (h₁ : Follows settings platform N' P' (acts ++ later) s₁) (hkeeps : N.Keeps s s₁) :
    Follows settings platform N P (acts ++ later) s₁ :=
  h.carry h₁.directory h₁.authentic h₁.figures hkeeps.cellCount hkeeps.registries hkeeps.metrics
    hkeeps.cells

/-- The meter is that of metrics of the scope's registries from `w` on, and of no other ones. -/
def Present (settings : RegistrySettings) (platform : PlatformReadings) (t : String)
    (w : RegistryRef) (acts : List Action) (m : MeterRef) : Prop :=
  ∀ r a, Held settings platform acts r a → a.Sole m →
    (reached settings platform acts).HasRegistry r t ∧ w ≤ r

theorem present_of_held (ha : Held settings platform acts r a) (hm : a.Sole m)
    (hr : (reached settings platform acts).HasRegistry r t) (hw : w ≤ r) :
    Present settings platform t w acts m := by
  intro r' a' ha' hm'
  obtain ⟨rfl, rfl⟩ := held_inj ha ha' (.inr (hm.1.trans hm'.1.symm))
  exact ⟨hr, hw⟩

/-- The scope of the left session is a new one: the registries up to `w` that are of the scope are
dropped, and its names stand for what came later. Other names may stand for what was before. In the
right session the scope is the same. -/
structure Renewed (settings : RegistrySettings) (platform : PlatformReadings) (o : Ownership)
    (t : String) (w : RegistryRef) (acts : List Action) (s s' : Session) : Prop where
  own : Follows settings platform (o.own t) (fun u r => u = t ∧ w ≤ r) acts s
  others : Follows settings platform (o.others t) (fun u r => u = t → r < w) acts s
  past : ∀ r < w, ∃ g, s.directory.registry? r = some g ∧ (g.scope = t → g.dropped = true)
  twins : ∃ ρ, Twins o t ρ s s'

namespace Renewed

theorem dropped (h : Renewed settings platform o t w acts s s') {g : Registry}
    (hr : s.directory.registry? r = some g) (hscope : g.scope = t) (hw : r < w) :
    g.dropped = true := by
  obtain ⟨g', hr', hdrop⟩ := h.past r hw
  cases hr.symm.trans hr'
  exact hdrop hscope

/-- Registries of the past stay dropped. -/
theorem onward (h : Renewed settings platform o t w acts s s')
    (hown : Follows settings platform (o.own t) (fun u r => u = t ∧ w ≤ r) (acts ++ later) s₁)
    (hothers : Follows settings platform (o.others t) (fun u r => u = t → r < w) (acts ++ later) s₁)
    (htwins : ∃ ρ, Twins o t ρ s₁ s₁') :
    Renewed settings platform o t w (acts ++ later) s₁ s₁' where
  own := hown
  others := hothers
  past := by
    intro r hw
    obtain ⟨g, hr, hdrop⟩ := h.past r hw
    obtain ⟨g', hr', hscope, hkept⟩ := h.own.coherent.registry_kept hr later
    rw [h.own.directory, ← reached_append, ← hown.directory] at hr'
    exact ⟨g', hr', fun ht => hkept (hdrop (hscope ▸ ht))⟩
  twins := htwins

/-- The scope's registry is one of the present. -/
theorem le_getOrCreate (h : Renewed settings platform o t w acts s s') :
    w ≤ (s.directory.getOrCreate t).1 := by
  have hd := h.own.coherent
  have hopened : (s.directory.getOrCreate t).1 = (s.directory.openScope t).1 := rfl
  by_contra hlt
  rw [hopened, openScope_eq hd.toAligned] at hlt
  cases hs : s.directory.scopes.get? t with
  | some r =>
    rw [hs] at hlt
    obtain ⟨g, hr, hscope, hlive⟩ := (hd.current t r).mp hs
    exact nomatch hlive.symm.trans (h.dropped hr hscope (Nat.lt_of_not_le hlt))
  | none =>
    rw [hs] at hlt
    obtain ⟨g, hr, -⟩ := h.past _ (Nat.lt_of_not_le hlt)
    exact absurd (registry_lt hr) (Nat.lt_irrefl _)

/-! ## Steps -/

/-- **A step of the scope** is answered as on the right. -/
theorem step (h : Renewed settings platform o t w acts s s') {step : Step} (hat : step.At o t) :
    (s.step step).1 = (s'.step step).1 ∧
      ∃ later, Renewed settings platform o t w (acts ++ later) (s.step step).2
        (s'.step step).2 := by
  obtain ⟨ρ, htwins⟩ := h.twins
  obtain ⟨hanswer, hsame⟩ := htwins.step hat
  obtain ⟨later, hown⟩ := follows_step h.own (Step.within_own hat) fun u hu => by
    obtain rfl : u = t := hu
    exact ⟨rfl, h.le_getOrCreate⟩
  have hkeeps : (o.others t).Keeps s (s.step step).2 :=
    (frame_step htwins.left hat).keeps (fun _ hn => hn) (fun _ hn => hn) fun _ hn => hn
  exact ⟨hanswer, later, h.onward hown (h.others.onto hown hkeeps) hsame⟩

/-- **Dropping every scope**, on both sides. -/
theorem step_dropAll (h : Renewed settings platform o t w acts s s') :
    (s.step .dropAll).1 = (s'.step .dropAll).1 ∧ ∃ later,
      Renewed settings platform o t w (acts ++ later) (s.step .dropAll).2 (s'.step .dropAll).2 := by
  obtain ⟨ρ, htwins⟩ := h.twins
  have hquiet := quiet_dropAll s.directory
  have hd : Action.applyAll (Operation.dropAll.actions s.directory) s.directory =
      s.directory.dropAll := (apply_eq_applyAll .dropAll s.directory).symm
  refine ⟨congrArg Answer.texts ?_, _, h.onward (h.own.quiet hquiet hd) (h.others.quiet hquiet hd)
    htwins.dropAll⟩
  rw [scopeNames_dropAll htwins.directory.left, scopeNames_dropAll htwins.directory.right]

/-- Only meters of the present have to be paired. -/
theorem present (h : Renewed settings platform o t w acts s s') :
    ∃ ρ, Twins o t ρ s s' ∧ ∀ m m', ρ.rel .meter m m' → Present settings platform t w acts m := by
  obtain ⟨ρ, htwins⟩ := h.twins
  have hd := h.own.directory
  refine ⟨ρ.restrict (Present settings platform t w acts), htwins.restrict ?_ ?_,
    fun m m' hr => hr.2 rfl⟩
  · rintro r a m ⟨g, hr, hscope⟩ hstored hm
    refine present_of_held (held_of_stores (hd ▸ hstored)) hm (hd ▸ ⟨g, hr, hscope⟩) ?_
    by_contra hlt
    obtain ⟨g', id, hr', ha⟩ := hstored
    cases hr.symm.trans hr'
    exact nomatch (h.own.coherent.not_dropped hr ha).symm.trans
      (h.dropped hr hscope (Nat.lt_of_not_le hlt))
  · intro name a m hn ha hm
    obtain ⟨r, g, hheld, hr, hscope, hw⟩ := h.own.metric name a hn ha
    exact present_of_held hheld hm (hd ▸ ⟨g, hr, hscope⟩) hw

/-- **A step aside** does not show in the scope. -/
theorem step_aside (h : Renewed settings platform o t w acts s s') {step : Step}
    (hat : step.Within (o.others t)) :
    ∃ later, Renewed settings platform o t w (acts ++ later) (s.step step).2 s' := by
  obtain ⟨ρ, htwins, hpresent⟩ := h.present
  have haside := htwins.step_aside hat (fun name r hn hr => ?_) fun name a hn ha => ?_
  · obtain ⟨later, hothers⟩ := follows_step h.others hat fun u hu ht => absurd ht hu
    exact ⟨later, h.onward (h.own.onto hothers haside.keeps) hothers ⟨ρ, haside.twins⟩⟩
  · obtain ⟨g, hr, hw⟩ := h.others.registry name r hn hr
    refine ⟨g, hr, ?_⟩
    by_cases hscope : g.scope = t
    · exact .inr (h.dropped hr hscope (hw hscope))
    · exact .inl hscope
  · obtain ⟨r, g, hheld, hr, hw⟩ := h.others.metric name a hn ha
    obtain ⟨-, m, meter, hm, -, -⟩ := held_meter hheld
    refine ⟨m, hm, fun m' hrel => ?_⟩
    obtain ⟨⟨g', hr', hscope⟩, hle⟩ := hpresent m m' hrel r a hheld hm
    rw [← h.own.directory] at hr'
    cases hr.symm.trans hr'
    exact absurd (hw hscope) (Nat.not_lt_of_le hle)

end Renewed

/-! ## Starting anew -/

/-- The scope does not exist, and none of its names stands for anything. -/
structure Without (o : Ownership) (t : String) (s : Session) : Prop where
  scope : s.directory.lookup? t = none
  registries : ∀ n, o.registry n = t → s.registries.get? n = none
  metrics : ∀ n, o.metric n = t → s.metrics.get? n = none
  cells : ∀ n, o.cell n = t → s.cells.get? n = none

theorem twins_of_without (h : Follows settings platform .all (fun _ _ => True) acts s)
    (h' : Follows settings platform .all (fun _ _ => True) acts' s') (hs : s.Without o t)
    (hs' : s'.Without o t) : Twins o t .empty s s' where
  directory := {
    settings := by rw [h.directory, h'.directory, settings_reached, settings_reached]
    platform := h.figures.trans h'.figures.symm
    below := nofun
    current := by
      rw [show s.directory.scopes.get? t = none from hs.scope,
        show s'.directory.scopes.get? t = none from hs'.scope]
      exact .none
    registry := nofun
    store := nofun
    meter := nofun
    cell := nofun
    left := h.coherent
    right := h'.coherent }
  registries := fun n hn => by
    rw [hs.registries n hn, hs'.registries n hn]
    exact .none
  metrics := fun n hn => by
    rw [hs.metrics n hn, hs'.metrics n hn]
    exact .none
  cells := fun n hn => by
    rw [hs.cells n hn, hs'.cells n hn]
    exact .none
  foreign := fun c n _ hget => ⟨h.cell c n trivial hget, fun _ => id⟩
  foreign' := fun c n _ hget => ⟨h'.cell c n trivial hget, fun _ => id⟩

/-- Where nothing is left of a scope, its registries are all of the past. -/
theorem renewed_of_without (h : Follows settings platform .all (fun _ _ => True) acts s)
    (h' : Follows settings platform .all (fun _ _ => True) acts' s') (hs : s.Without o t)
    (hs' : s'.Without o t) :
    Renewed settings platform o t s.directory.registries.length acts s s' where
  own := { h with
    registry := fun n r hn hr => nomatch hr.symm.trans (hs.registries n hn)
    metric := fun n a hn ha => nomatch ha.symm.trans (hs.metrics n hn)
    cell := fun n c _ => h.cell n c trivial }
  others := { h with
    registry := by
      intro n r _ hr
      obtain ⟨g, hg, -⟩ := h.registry n r trivial hr
      exact ⟨g, hg, fun _ => registry_lt hg⟩
    metric := by
      intro n a _ ha
      obtain ⟨r, g, hheld, hg, -⟩ := h.metric n a trivial ha
      exact ⟨r, g, hheld, hg, fun _ => registry_lt hg⟩
    cell := fun n c _ => h.cell n c trivial }
  past := by
    intro r hr
    have hget : s.directory.registry? r = some _ := List.getElem?_eq_getElem hr
    refine ⟨_, hget, fun hscope => ?_⟩
    by_contra hlive
    have hcurrent := (h.coherent.current t r).mpr
      ⟨_, hget, hscope, Bool.eq_false_iff.mpr hlive⟩
    exact nomatch hcurrent.symm.trans hs.scope
  twins := ⟨_, twins_of_without h h' hs hs'⟩

/-! ## Runs -/

/-- A step that is marked with scope `t` is one of the scope, or drops every scope. Other steps keep
to other names and other scopes. -/
@[mk_iff]
structure Marked (o : Ownership) (t : String) (p : String × Step) : Prop where
  own : p.1 = t → p.2.At o t ∨ p.2 = .dropAll
  others : p.1 ≠ t → p.2.Within (o.others t)

/-- **The steps of a scope are answered as on the right**, where none of the others is done. -/
theorem trace_beside (h : Renewed settings platform o t w acts s s') {steps : List (String × Step)}
    (hmarked : ∀ p ∈ steps, Marked o t p) :
    (trace steps s).filter (fun p => p.1.1 = t) = trace (steps.filter fun p => p.1 = t) s' := by
  induction steps generalizing acts s s' with
  | nil => rfl
  | cons p steps ih =>
    obtain ⟨u, step⟩ := p
    obtain ⟨⟨hown, hothers⟩, hrest⟩ := List.forall_mem_cons.mp hmarked
    rw [trace_cons]
    by_cases hu : u = t
    · have hstep : (s.step step).1 = (s'.step step).1 ∧ ∃ later,
          Renewed settings platform o t w (acts ++ later) (s.step step).2 (s'.step step).2 := by
        obtain hat | rfl := hown hu
        · exact h.step hat
        · exact h.step_dropAll
      obtain ⟨hanswer, later, hsame⟩ := hstep
      rw [List.filter_cons_of_pos (by simpa using hu), List.filter_cons_of_pos (by simpa using hu),
        trace_cons, hanswer]
      exact congrArg _ (ih hsame hrest)
    · obtain ⟨later, hsame⟩ := h.step_aside (hothers hu)
      rw [List.filter_cons_of_neg (by simpa using hu), List.filter_cons_of_neg (by simpa using hu)]
      exact ih hsame hrest

/-- **Dropped registries are inert, and scopes that are made again are fresh.**

A registry is inert for good once its scope was dropped, whatever is done later: it has nothing,
refuses every registration, has nothing to remove, and what goes through it or through metrics that
were its changes no other registry, no reading of another one's metrics and no export.

Where nothing is left of a scope, its steps are answered as in any session in which there is no such
scope, one in which there never was for example. Steps of other scopes, and through what is held of
the scope's past, make no difference. -/
theorem inert_and_fresh (settings : RegistrySettings) (platform : PlatformReadings) :
    (∀ (acts later : List Action) (scope : String) (r : RegistryRef) (op : Operation),
      (reached settings platform acts).lookup? scope = some r →
      (op = .dropScope scope ∨ op = .dropAll) →
      let history := acts ++ op.actions (reached settings platform acts) ++ later
      Inert settings platform history r scope (reached settings platform history)) ∧
    ∀ (o : Ownership) (t : String) (before before' : List Step) (later : List (String × Step)),
      let s := (run before (new (.new settings platform))).2
      let s' := (run before' (new (.new settings platform))).2
      s.Without o t → s'.Without o t → (∀ p ∈ later, Marked o t p) →
      (trace later s).filter (fun p => p.1.1 = t) = trace (later.filter fun p => p.1 = t) s' := by
  constructor
  · exact fun acts later scope r op hs hop => inert_of_drop hs hop later
  · intro o t before before' later s s' hs hs' hmarked
    have hnew := follows_new settings platform .all fun _ _ => True
    obtain ⟨acts, hleft⟩ := follows_run before hnew
    obtain ⟨acts', hright⟩ := follows_run before' hnew
    exact trace_beside (renewed_of_without hleft hright hs hs') hmarked

/-- A scope is dropped while its registry and a counter are held. -/
def heldBeyond : List Step :=
  [.onRegistry (.scope "a") (.register .counter (.ofName "n") [] (some "old")),
   .onRegistry (.scope "a") (.inspect (some "old")),
   .dropScope "a"]

/-- It is made again, with a counter of the same name, and what is held of its past is used. -/
def madeAgain : List (String × Step) :=
  [("a", .onRegistry (.scope "a") (.register .counter (.ofName "n") [] (some "new"))),
   ("past", .onMetric "old" (.increment 2)),
   ("a", .onMetric "new" (.increment 3)),
   ("past", .onRegistry (.held "old") (.register .counter (.ofName "n") [] none)),
   ("a", .onMetric "new" .read)]

/-- The names of `madeAgain`: `new` is for the scope. -/
def madeAgainOwners : Ownership :=
  ⟨fun n => if n = "new" then "a" else "past", fun n => if n = "new" then "a" else "past",
    fun _ => "past"⟩

/-- The new counter reads its own count, and the held registry registers nothing. -/
theorem inert_and_fresh_madeAgain :
    let settings : RegistrySettings := ⟨∅, none, {}, true⟩
    let s := (run heldBeyond (new (.new settings default))).2
    let opened := reached settings default [.openScope "a"]
    let history := [.openScope "a"] ++ Operation.actions (.dropScope "a") opened ++ [.openScope "a"]
    opened.lookup? "a" = some 0 ∧
      Inert settings default history 0 "a" (reached settings default history) ∧
      s.Without madeAgainOwners "a" ∧ (∀ p ∈ madeAgain, Marked madeAgainOwners "a" p) ∧
        (trace madeAgain s).filter (fun p => p.1.1 = "a") =
        trace (madeAgain.filter fun p => p.1 = "a") (new (.new settings default)) ∧
      ((trace madeAgain s).drop 3).map Prod.snd =
        [.failed (.scopeDropped "a"), .reading (.counter ⟨"n", ∅⟩ 3)] := by
  intro settings s opened history
  have hall := inert_and_fresh settings default
  have hopened : opened.lookup? "a" = some 0 := by decide +kernel
  have hnew : ∀ n : String, (if n = "new" then "a" else "past") = "a" → n = "new" := by
    intro n hn
    by_contra hne
    rw [if_neg hne] at hn
    exact absurd hn (by decide)
  have hwithout : s.Without madeAgainOwners "a" :=
    { scope := by decide +kernel
      registries := fun n hn => hnew n hn ▸ by decide +kernel
      metrics := fun n hn => hnew n hn ▸ by decide +kernel
      cells := fun n hn => absurd hn (show "past" ≠ "a" by decide) }
  have hmarked : ∀ p ∈ madeAgain, Marked madeAgainOwners "a" p := by
    simp [madeAgain, madeAgainOwners, Ownership.others, marked_iff, Step.At, Target.At,
      RegistryStep.At, Wanted.At, MetricStep.At, Step.Within, Target.Within, RegistryStep.Within,
      Wanted.Within, MetricStep.Within]
  have hfirst : (run [] (new (.new settings default))).2.Without madeAgainOwners "a" :=
    ⟨rfl, fun _ _ => rfl, fun _ _ => rfl, fun _ _ => rfl⟩
  exact ⟨hopened,
    hall.1 [.openScope "a"] [.openScope "a"] "a" 0 (.dropScope "a") hopened (.inl rfl), hwithout,
    hmarked, hall.2 madeAgainOwners "a" heldBeyond [] madeAgain hwithout hfirst hmarked,
    by decide +kernel⟩

end Session

end Telemetry
