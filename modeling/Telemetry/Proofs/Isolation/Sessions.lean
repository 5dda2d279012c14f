import Telemetry.Proofs.Isolation.Operations

/-!
# Sessions, scope by scope

A client's names for registries, metrics and cells stand for things of one scope each (`Ownership`).
`Session.Twins o t ρ` says that scope `t` is the same in two sessions: in their directories, and as
far as the names of `t` reach. A session is framed by `u` (`Session.Frame`) where only what belongs
to `u` changed. As in directories, what is framed by another scope stays the same
(`Session.Twins.frame`).

Cells are the client's and carry no scope. They are kept apart by their names: a name of another
scope never stands for a cell that is paired (`Session.Twins.foreign`).
-/

namespace Telemetry

/-- The scope that each of a client's names is for. A client that holds things of two scopes gives
them two names. -/
structure Ownership where
  registry : String → String
  metric : String → String
  cell : String → String

variable {ρ ρ' : Pairing} {t u : String} {o : Ownership}

namespace Directory

variable {d d' : Directory}

/-- The directory over other samples. -/
def withSamples (d : Directory) (samples : Samples) : Directory :=
  d.modifyStore fun store => { store with samples }

theorem Coherent.withSamples (h : d.Coherent) (samples : Samples) :
    (d.withSamples samples).Coherent :=
  h.rewrite (.samples d.store samples)

theorem Frame.withSamples (hf : Frame u d d') (samples : Samples) :
    Frame u (d.withSamples samples) (d'.withSamples samples) :=
  { hf with samples := rfl }

theorem Alike.withSamples (h : Alike t ρ d d') (hle : ρ ≤ ρ')
    (hsame : ∀ k m n, k ≠ .cell → ρ'.rel k m n → ρ.rel k m n) (samples samples' : Samples)
    (hplatform : samples.platform = samples'.platform)
    (hcells : ∀ n n', ρ'.rel .cell n n' → Both Eq samples.cells[n]? samples'.cells[n']?) :
    Alike t ρ' (d.withSamples samples) (d'.withSamples samples') where
  settings := h.settings
  platform := hplatform
  below := by
    intro k m n hr
    cases k with
    | cell =>
      obtain ⟨v, v', hv, hv', -⟩ := hcells m n hr
      exact ⟨(List.getElem?_eq_some_iff.mp hv).1, (List.getElem?_eq_some_iff.mp hv').1⟩
    | registry => exact h.below .registry m n (hsame .registry m n nofun hr)
    | meter => exact h.below .meter m n (hsame .meter m n nofun hr)
    | adapter => exact h.below .adapter m n (hsame .adapter m n nofun hr)
  current := rel_imp h.current fun _ _ => hle _ _ _
  registry := fun r r' hr => (h.registry r r' (hsame _ _ _ nofun hr)).imp fun _ _ hg =>
    ⟨hg.1, hg.2.mono hle⟩
  store := fun r r' hr => (h.store r r' (hsame _ _ _ nofun hr)).imp fun _ _ hm =>
    hm.mono fun _ _ => hle _ _ _
  meter := fun m m' hm => (h.meter m m' (hsame _ _ _ nofun hm)).imp fun _ _ hx =>
    ⟨hx.1, hx.2.mono hle⟩
  cell := hcells

end Directory

namespace Session

variable {s s' s₁ s₂ s₁' : Session}

/-- How many cells there are. -/
def cellCount (s : Session) : Nat := s.directory.store.samples.cells.length

/-- Scope `t` is the same in both sessions, up to numbers and under the names that are for it. -/
structure Twins (o : Ownership) (t : String) (ρ : Pairing) (s s' : Session) : Prop where
  directory : Directory.Twins t ρ s.directory s'.directory
  registries : ∀ h, o.registry h = t →
    Option.Rel (ρ.rel .registry) (s.registries.get? h) (s'.registries.get? h)
  metrics : ∀ h, o.metric h = t →
    Option.Rel (Adapter.Match ρ) (s.metrics.get? h) (s'.metrics.get? h)
  cells : ∀ c, o.cell c = t → Option.Rel (ρ.rel .cell) (s.cells.get? c) (s'.cells.get? c)
  foreign : ∀ c n, o.cell c ≠ t → s.cells.get? c = some n →
    n < s.cellCount ∧ ∀ n', ¬ ρ.rel .cell n n'
  foreign' : ∀ c n', o.cell c ≠ t → s'.cells.get? c = some n' →
    n' < s'.cellCount ∧ ∀ n, ¬ ρ.rel .cell n n'

/-- Only what belongs to scope `u` changed. -/
structure Frame (o : Ownership) (u : String) (s s₁ : Session) : Prop where
  coherent : s₁.directory.Coherent
  directory : Directory.Frame u s.directory (s₁.directory.withSamples s.directory.store.samples)
  platform : s₁.directory.store.samples.platform = s.directory.store.samples.platform
  cellCount : s.cellCount ≤ s₁.cellCount
  cell : ∀ n, n < s.cellCount → (∀ c, o.cell c = u → s.cells.get? c ≠ some n) →
    s₁.directory.store.samples.cells[n]? = s.directory.store.samples.cells[n]?
  registries : ∀ h, o.registry h ≠ u → s₁.registries.get? h = s.registries.get? h
  metrics : ∀ h, o.metric h ≠ u → s₁.metrics.get? h = s.metrics.get? h
  cells : ∀ c, o.cell c ≠ u → s₁.cells.get? c = s.cells.get? c
  /-- A cell that has a name of the scope had it already or is new. -/
  named : ∀ c n, o.cell c = u → s₁.cells.get? c = some n →
    s.cells.get? c = some n ∨ s.cellCount ≤ n ∧ n < s₁.cellCount

/-- The names of scope `u` stand for what belongs to it. -/
structure Holds (o : Ownership) (u : String) (s : Session) : Prop where
  coherent : s.directory.Coherent
  registry : ∀ h r, o.registry h = u → s.registries.get? h = some r → s.directory.HasRegistry r u
  metric : ∀ h a, o.metric h = u → s.metrics.get? h = some a → s.directory.Owns u a

/-! ## Twins hold their own -/

theorem Twins.new (o : Ownership) (t : String) {d d' : Directory} (h : Directory.Twins t ρ d d') :
    Twins o t ρ (new d) (new d') where
  directory := h
  registries := fun _ _ => .none
  metrics := fun _ _ => .none
  cells := fun _ _ => .none
  foreign := nofun
  foreign' := nofun

theorem owns_of_match {d d' : Directory} (h : Directory.Alike t ρ d d') {a a' : Adapter}
    (ha : a.Match ρ a') : d.Owns t a ∧ d'.Owns t a' := by
  obtain ⟨m, m', hm, hm', hr⟩ := ha.meter
  obtain ⟨x, x', hx, hx', htag, hmatch⟩ := h.meter m m' hr
  exact ⟨⟨m, x, hm, hx, htag⟩, m', x', hm', hx', hmatch.id ▸ htag⟩

theorem Twins.left (h : Twins o t ρ s s') : Holds o t s where
  coherent := h.directory.left
  registry := by
    intro name r ho hr
    obtain ⟨r', -, hrel⟩ := exists_of_rel_left (h.registries name ho) hr
    exact (h.directory.hasRegistry hrel).1
  metric := by
    intro name a ho ha
    obtain ⟨a', -, hrel⟩ := exists_of_rel_left (h.metrics name ho) ha
    exact (owns_of_match h.directory.toAlike hrel).1

theorem Twins.right (h : Twins o t ρ s s') : Holds o t s' where
  coherent := h.directory.right
  registry := by
    intro name r' ho hr
    obtain ⟨r, -, hrel⟩ := exists_of_rel_right (h.registries name ho) hr
    exact (h.directory.hasRegistry hrel).2
  metric := by
    intro name a' ho ha
    obtain ⟨a, -, hrel⟩ := exists_of_rel_right (h.metrics name ho) ha
    exact (owns_of_match h.directory.toAlike hrel).2

/-! ## Frames -/

theorem Frame.refl (o : Ownership) (u : String) (h : s.directory.Coherent) : Frame o u s s where
  coherent := h
  directory := .refl u s.directory
  platform := rfl
  cellCount := Nat.le_refl _
  cell := fun _ _ _ => rfl
  registries := fun _ _ => rfl
  metrics := fun _ _ => rfl
  cells := fun _ _ => rfl
  named := fun _ _ _ h => .inl h

theorem Frame.trans (h : Frame o u s s₁) (h' : Frame o u s₁ s₂) : Frame o u s s₂ where
  coherent := h'.coherent
  directory := h.directory.trans (h'.directory.withSamples s.directory.store.samples)
  platform := h'.platform.trans h.platform
  cellCount := Nat.le_trans h.cellCount h'.cellCount
  cell := by
    intro n hn hnamed
    rw [h'.cell n (Nat.lt_of_lt_of_le hn h.cellCount), h.cell n hn hnamed]
    intro c hc hget
    obtain hold | ⟨hnew, -⟩ := h.named c n hc hget
    · exact hnamed c hc hold
    · exact absurd hn (Nat.not_lt_of_le hnew)
  registries := fun name hn => (h'.registries name hn).trans (h.registries name hn)
  metrics := fun name hn => (h'.metrics name hn).trans (h.metrics name hn)
  cells := fun c hc => (h'.cells c hc).trans (h.cells c hc)
  named := by
    intro c n hc hget
    obtain hget | ⟨hlo, hhi⟩ := h'.named c n hc hget
    · obtain hget | ⟨hlo, hhi⟩ := h.named c n hc hget
      · exact .inl hget
      · exact .inr ⟨hlo, Nat.lt_of_lt_of_le hhi h'.cellCount⟩
    · exact .inr ⟨Nat.le_trans h.cellCount hlo, hhi⟩

/-- Changes of the directory inside the scope. -/
theorem frame_directory (h : s.directory.Coherent) {d : Directory}
    (hc : Directory.Changes u s.directory d) : Frame o u s { s with directory := d } := by
  have hf := hc.frame h
  have hsamples : d.withSamples s.directory.store.samples = d := by
    rw [← hf.samples]
    rfl
  exact {
    coherent := hc.coherent h
    directory := by
      show Directory.Frame u s.directory (d.withSamples s.directory.store.samples)
      rw [hsamples]
      exact hf
    platform := congrArg Samples.platform hf.samples
    cellCount := Nat.le_of_eq (congrArg (fun x : Samples => x.cells.length) hf.samples.symm)
    cell := fun n _ _ => congrArg (fun x : Samples => x.cells[n]?) hf.samples
    registries := fun _ _ => rfl
    metrics := fun _ _ => rfl
    cells := fun _ _ => rfl
    named := fun _ _ _ h => .inl h }

theorem frame_holdRegistry (h : s.directory.Coherent) {hold : Option String}
    (ho : ∀ name ∈ hold, o.registry name = u) (r : RegistryRef) :
    Frame o u s (s.holdRegistry hold r) := by
  cases hold with
  | none => exact .refl o u h
  | some name =>
    exact { Frame.refl o u h with
      registries := by
        intro q hq
        refine (SortedMap.get?_insert ..).trans (if_neg ?_)
        rintro rfl
        exact hq (ho q rfl) }

theorem frame_holdMetric (h : s.directory.Coherent) {hold : Option String}
    (ho : ∀ name ∈ hold, o.metric name = u) (a : Adapter) :
    Frame o u s (s.holdMetric hold a) := by
  cases hold with
  | none => exact .refl o u h
  | some name =>
    exact { Frame.refl o u h with
      metrics := by
        intro q hq
        refine (SortedMap.get?_insert ..).trans (if_neg ?_)
        rintro rfl
        exact hq (ho q rfl) }

theorem frame_newCell (h : s.directory.Coherent) (value : Real64) {name : Option String}
    (ho : ∀ c ∈ name, o.cell c = u) : Frame o u s (s.newCell value name).2 := by
  have hcells : ∀ n, n < s.cellCount →
      (s.directory.store.samples.cells ++ [value])[n]? = s.directory.store.samples.cells[n]? :=
    fun n hn => List.getElem?_append_left hn
  have hcount : s.cellCount < (s.directory.store.samples.cells ++ [value]).length := by
    rw [List.length_append]
    exact Nat.lt_succ_self _
  have hmade : Frame o u s { s with
      directory := s.directory.withSamples (s.directory.store.samples.newCell value).2 } :=
    { Frame.refl o u h with
      coherent := h.withSamples _
      cellCount := Nat.le_of_lt hcount
      cell := fun n hn _ => hcells n hn
      named := fun _ _ _ hget => .inl hget }
  cases name with
  | none => exact hmade
  | some name =>
    exact { hmade with
      cells := by
        intro q hq
        refine (SortedMap.get?_insert ..).trans (if_neg ?_)
        rintro rfl
        exact hq (ho q rfl)
      named := by
        intro c n hc hget
        have hget' := (SortedMap.get?_insert ..).symm.trans hget
        split at hget'
        · cases hget'
          exact .inr ⟨Nat.le_refl _, hcount⟩
        · exact .inl hget' }

theorem frame_setCell (h : s.directory.Coherent) {c : String} {n : Nat} (ho : o.cell c = u)
    (hn : s.cells.get? c = some n) (value : Real64) :
    Frame o u s
      (s.modifyStore fun store => { store with samples := store.samples.setCell n value }) :=
  { Frame.refl o u h with
    coherent := h.withSamples _
    cellCount := Nat.le_of_eq (List.length_set ..).symm
    cell := by
      intro k _ hnamed
      refine List.getElem?_set_ne ?_
      rintro rfl
      exact hnamed c ho hn
    named := fun _ _ _ hget => .inl hget }

/-- **Steps of another scope** on both sides. -/
theorem Twins.frame (h : Twins o t ρ s s') (hf : Frame o u s s₁) (hf' : Frame o u s' s₁')
    (hne : u ≠ t) : Twins o t ρ s₁ s₁' where
  directory := by
    have htwins := h.directory.frame hf.directory hf'.directory hne (hf.coherent.withSamples _)
      (hf'.coherent.withSamples _)
    refine ⟨?_, hf.coherent, hf'.coherent⟩
    refine htwins.toAlike.withSamples (fun _ _ _ hr => hr) (fun _ _ _ _ hr => hr) _ _ ?_ ?_
    · rw [hf.platform, hf'.platform, h.directory.platform]
    · intro n n' hr
      have hlt := h.directory.below _ _ _ hr
      rw [hf.cell n hlt.1, hf'.cell n' hlt.2]
      · exact h.directory.cell n n' hr
      · exact fun c hc hget => (h.foreign' c n' (hc ▸ hne) hget).2 n hr
      · exact fun c hc hget => (h.foreign c n (hc ▸ hne) hget).2 n' hr
  registries := by
    intro name ho
    rw [hf.registries name (ho ▸ hne.symm), hf'.registries name (ho ▸ hne.symm)]
    exact h.registries name ho
  metrics := by
    intro name ho
    rw [hf.metrics name (ho ▸ hne.symm), hf'.metrics name (ho ▸ hne.symm)]
    exact h.metrics name ho
  cells := by
    intro c ho
    rw [hf.cells c (ho ▸ hne.symm), hf'.cells c (ho ▸ hne.symm)]
    exact h.cells c ho
  foreign := by
    intro c n ho hget
    have hold : s.cells.get? c = some n → n < s₁.cellCount ∧ ∀ n', ¬ ρ.rel .cell n n' := by
      intro hget
      obtain ⟨hlt, hn⟩ := h.foreign c n ho hget
      exact ⟨Nat.lt_of_lt_of_le hlt hf.cellCount, hn⟩
    by_cases hc : o.cell c = u
    · obtain hget | ⟨hlo, hhi⟩ := hf.named c n hc hget
      · exact hold hget
      · exact ⟨hhi, fun n' hr => absurd (h.directory.below _ _ _ hr).1 (Nat.not_lt_of_le hlo)⟩
    · rw [hf.cells c hc] at hget
      exact hold hget
  foreign' := by
    intro c n ho hget
    have hold : s'.cells.get? c = some n → n < s₁'.cellCount ∧ ∀ m, ¬ ρ.rel .cell m n := by
      intro hget
      obtain ⟨hlt, hn⟩ := h.foreign' c n ho hget
      exact ⟨Nat.lt_of_lt_of_le hlt hf'.cellCount, hn⟩
    by_cases hc : o.cell c = u
    · obtain hget | ⟨hlo, hhi⟩ := hf'.named c n hc hget
      · exact hold hget
      · exact ⟨hhi, fun m hr => absurd (h.directory.below _ _ _ hr).2 (Nat.not_lt_of_le hlo)⟩
    · rw [hf'.cells c hc] at hget
      exact hold hget

/-! ## The same on both sides -/

/-- Directories that are twins under more pairs, after changes inside the scope. -/
theorem Twins.withDirectory (h : Twins o t ρ s s') (hext : ρ.Extends ρ') {d d' : Directory}
    (hc : Directory.Changes t s.directory d) (hc' : Directory.Changes t s'.directory d')
    (hd : Directory.Twins t ρ' d d') :
    Twins o t ρ' { s with directory := d } { s' with directory := d' } where
  directory := hd
  registries := fun name ho => rel_imp (h.registries name ho) fun _ _ => hext.le _ _ _
  metrics := fun name ho => rel_imp (h.metrics name ho) fun _ _ ha => ha.mono hext.le
  cells := fun c ho => rel_imp (h.cells c ho) fun _ _ => hext.le _ _ _
  foreign := by
    intro c n ho hget
    obtain ⟨hlt, hn⟩ := h.foreign c n ho hget
    exact ⟨Nat.lt_of_lt_of_le hlt ((hc.frame h.directory.left).taken_le .cell),
      fun n' hr => hn n' (hext.cells n n' hr)⟩
  foreign' := by
    intro c n ho hget
    obtain ⟨hlt, hn⟩ := h.foreign' c n ho hget
    exact ⟨Nat.lt_of_lt_of_le hlt ((hc'.frame h.directory.right).taken_le .cell),
      fun m hr => hn m (hext.cells m n hr)⟩

theorem Twins.holdRegistry (h : Twins o t ρ s s') (hold : Option String) {r r' : RegistryRef}
    (hr : ρ.rel .registry r r') :
    Twins o t ρ (s.holdRegistry hold r) (s'.holdRegistry hold r') := by
  cases hold with
  | none => exact h
  | some name =>
    exact { h with
      registries := by
        intro q ho
        show Option.Rel _ ((s.registries.insert name r).get? q)
          ((s'.registries.insert name r').get? q)
        rw [SortedMap.get?_insert, SortedMap.get?_insert]
        split
        · exact .some hr
        · exact h.registries q ho }

theorem Twins.holdMetric (h : Twins o t ρ s s') (hold : Option String) {a a' : Adapter}
    (ha : a.Match ρ a') : Twins o t ρ (s.holdMetric hold a) (s'.holdMetric hold a') := by
  cases hold with
  | none => exact h
  | some name =>
    exact { h with
      metrics := by
        intro q ho
        show Option.Rel _ ((s.metrics.insert name a).get? q) ((s'.metrics.insert name a').get? q)
        rw [SortedMap.get?_insert, SortedMap.get?_insert]
        split
        · exact .some ha
        · exact h.metrics q ho }

/-- A new cell on both sides, under a name of the scope if it has one. -/
theorem Twins.newCell (h : Twins o t ρ s s') (value : Real64) {name : Option String}
    (ho : ∀ c ∈ name, o.cell c = t) :
    ∃ ρ', ρ ≤ ρ' ∧ ρ'.rel .cell s.cellCount s'.cellCount ∧
      Twins o t ρ' (s.newCell value name).2 (s'.newCell value name).2 := by
  have hbelow := h.directory.below
  have hle : ρ ≤ ρ.next (· = .cell) hbelow := Pairing.le_next hbelow
  have hnew : (ρ.next (· = .cell) hbelow).rel .cell s.cellCount s'.cellCount :=
    Pairing.rel_next hbelow rfl
  have hcount : ∀ s : Session, s.cellCount <
      (s.directory.store.samples.cells ++ [value]).length := by
    intro s
    rw [List.length_append]
    exact Nat.lt_succ_self _
  have halike := h.directory.toAlike.withSamples hle (fun _ _ _ hk hr => Pairing.rel_of_next hk hr)
    (s.directory.store.samples.newCell value).2 (s'.directory.store.samples.newCell value).2
    h.directory.platform ?_
  · have hmade : Twins o t (ρ.next (· = .cell) hbelow)
        { s with directory := s.directory.withSamples (s.directory.store.samples.newCell value).2 }
        { s' with directory :=
          s'.directory.withSamples (s'.directory.store.samples.newCell value).2 } :=
      { directory := ⟨halike, h.directory.left.withSamples _, h.directory.right.withSamples _⟩
        registries := fun name ho => rel_imp (h.registries name ho) fun _ _ => hle _ _ _
        metrics := fun name ho => rel_imp (h.metrics name ho) fun _ _ ha => ha.mono hle
        cells := fun c ho => rel_imp (h.cells c ho) fun _ _ => hle _ _ _
        foreign := by
          intro c n ho hget
          obtain ⟨hlt, hn⟩ := h.foreign c n ho hget
          refine ⟨Nat.lt_trans hlt (hcount s), fun n' hr => ?_⟩
          exact hr.elim (hn n') fun hr => Nat.ne_of_lt hlt hr.2.1
        foreign' := by
          intro c n ho hget
          obtain ⟨hlt, hn⟩ := h.foreign' c n ho hget
          refine ⟨Nat.lt_trans hlt (hcount s'), fun m hr => ?_⟩
          exact hr.elim (hn m) fun hr => Nat.ne_of_lt hlt hr.2.2 }
    refine ⟨_, hle, hnew, ?_⟩
    cases name with
    | none => exact hmade
    | some name =>
      have hother : ∀ (m : SortedMap String Nat) c n, o.cell c ≠ t →
          (m.insert name n).get? c = m.get? c := by
        intro m c n hc
        refine (SortedMap.get?_insert ..).trans (if_neg ?_)
        rintro rfl
        exact hc (ho c rfl)
      exact { hmade with
        cells := by
          intro c ho
          show Option.Rel _ ((s.cells.insert name _).get? c) ((s'.cells.insert name _).get? c)
          rw [SortedMap.get?_insert, SortedMap.get?_insert]
          split
          · exact .some hnew
          · exact hmade.cells c ho
        foreign := fun c n hc hget => hmade.foreign c n hc ((hother _ c _ hc).symm.trans hget)
        foreign' := fun c n hc hget => hmade.foreign' c n hc ((hother _ c _ hc).symm.trans hget) }
  · rintro n n' (hr | ⟨-, hlast, hlast'⟩)
    · have hlt := hbelow _ _ _ hr
      show Both Eq (s.directory.store.samples.cells ++ [value])[n]?
        (s'.directory.store.samples.cells ++ [value])[n']?
      rw [List.getElem?_append_left hlt.1, List.getElem?_append_left hlt.2]
      exact h.directory.cell n n' hr
    · exact ⟨value, value, (getElem?_append_one ..).trans (if_pos hlast),
        (getElem?_append_one ..).trans (if_pos hlast'), rfl⟩

/-- Paired cells are set. -/
theorem Twins.setCell (h : Twins o t ρ s s') {n n' : Nat} (hr : ρ.rel .cell n n') (value : Real64) :
    Twins o t ρ
      (s.modifyStore fun store => { store with samples := store.samples.setCell n value })
      (s'.modifyStore fun store => { store with samples := store.samples.setCell n' value }) := by
  have hlt := h.directory.below _ _ _ hr
  have halike := h.directory.toAlike.withSamples (fun _ _ _ hr => hr) (fun _ _ _ _ hr => hr)
    (s.directory.store.samples.setCell n value) (s'.directory.store.samples.setCell n' value)
    h.directory.platform ?_
  · have hcount : ∀ (s : Session) n, (s.directory.store.samples.cells.set n value).length =
        s.cellCount := fun s n => List.length_set ..
    exact { h with
      directory := ⟨halike, h.directory.left.withSamples _, h.directory.right.withSamples _⟩
      foreign := fun c k hc hget =>
        ⟨Nat.lt_of_lt_of_eq (h.foreign c k hc hget).1 (hcount s n).symm, (h.foreign c k hc hget).2⟩
      foreign' := fun c k hc hget =>
        ⟨Nat.lt_of_lt_of_eq (h.foreign' c k hc hget).1 (hcount s' n').symm,
          (h.foreign' c k hc hget).2⟩ }
  · intro k k' hk
    show Both Eq (s.directory.store.samples.cells.set n value)[k]?
      (s'.directory.store.samples.cells.set n' value)[k']?
    by_cases heq : n = k
    · have heq' := (Pairing.eq_iff hr hk).mp heq
      rw [← heq, ← heq']
      exact ⟨value, value, List.getElem?_set_self hlt.1, List.getElem?_set_self hlt.2, rfl⟩
    · rw [List.getElem?_set_ne heq, List.getElem?_set_ne fun h =>
        heq ((Pairing.eq_iff hr hk).mpr h)]
      exact h.directory.cell k k' hk

end Session

end Telemetry
