import Telemetry.Proofs.Source.Layers

/-!
# Precedence of layers

Layers are of four kinds, and the documentation ranks the kinds: files below environment variables,
these below settings made in code, and these below command line arguments (specification, 6.2).
`ranked` puts layers in that order, whatever the order of the calls. A configuration goes by the
order of the calls alone, so the two differ where a layer of a lower kind comes after one of a
higher kind (`not_byRank`): a setting made after the arguments replaces what the command line says.

* `latest?_ranked`: the ranking gives the value of the last layer if none of a higher kind supplies
  the setting;
* `byRank_of_sorted`: so the fields go by the ranking where the layers are added in its order;
* `byRank_iff`: and exactly where the last layer which supplies the setting is of the highest kind,
  or supplies what reads the same.
-/

namespace Telemetry

namespace Layer

/-- The place of a layer's kind in the documented ranking. -/
def rank : Layer → Nat
  | file _ _ => 0
  | environment _ _ => 1
  | setting _ _ => 2
  | arguments _ => 3

/-- The layers of one kind, in the order of the calls. -/
def ofRank (layers : List Layer) (n : Nat) : List Layer := layers.filter fun l => l.rank == n

/-- The layers in the documented order: by kind, and within a kind in the order of the calls. -/
def ranked (layers : List Layer) : List Layer :=
  ofRank layers 0 ++ ofRank layers 1 ++ ofRank layers 2 ++ ofRank layers 3

variable {layers layers' : List Layer} {l : Layer} {s : Setting} {n : Nat}

/-- The last layer that supplies the setting is this one. -/
def IsLast (layers : List Layer) (s : Setting) (l : Layer) : Prop :=
  ∃ before after, layers = before ++ l :: after ∧ (l.supplied? s).isSome ∧
    ∀ l' ∈ after, l'.supplied? s = none

theorem rank_le (l : Layer) : l.rank ≤ 3 := by
  cases l <;> simp [rank]

theorem exists_isLast (h : ∃ l ∈ layers, (l.supplied? s).isSome) : ∃ l, IsLast layers s l := by
  induction layers with
  | nil =>
    obtain ⟨l, hl, -⟩ := h
    exact absurd hl List.not_mem_nil
  | cons l layers ih =>
    by_cases hrest : ∃ l ∈ layers, (l.supplied? s).isSome
    · obtain ⟨l', before, after, rfl, hsupplied, hafter⟩ := ih hrest
      exact ⟨l', l :: before, after, rfl, hsupplied, hafter⟩
    · obtain ⟨l', hl', hsupplied⟩ := h
      have hfirst : l' = l :=
        (List.mem_cons.mp hl').resolve_right fun hmem => hrest ⟨l', hmem, hsupplied⟩
      refine ⟨l, [], layers, rfl, hfirst ▸ hsupplied, fun l'' hmem => ?_⟩
      exact Option.not_isSome_iff_eq_none.mp fun hsome => hrest ⟨l'', hmem, hsome⟩

theorem IsLast.latest? (h : IsLast layers s l) : Layer.latest? layers s = l.supplied? s := by
  obtain ⟨before, after, rfl, hsupplied, hafter⟩ := h
  obtain ⟨v, hv⟩ := Option.isSome_iff_exists.mp hsupplied
  rw [latest?_append, ← List.singleton_append, latest?_append, latest?_eq_none.mpr hafter,
    latest?_singleton, hv]
  rfl

/-- The last of all layers is the last of its kind. -/
theorem IsLast.ofRank (h : IsLast layers s l) : IsLast (ofRank layers l.rank) s l := by
  obtain ⟨before, after, rfl, hsupplied, hafter⟩ := h
  refine ⟨Layer.ofRank before l.rank, Layer.ofRank after l.rank, ?_, hsupplied, fun l' hl' => ?_⟩
  · unfold Layer.ofRank
    rw [List.filter_append, List.filter_cons_of_pos (by simp)]
  · exact hafter l' (List.mem_filter.mp hl').1

/-- A kind none of whose layers supplies the setting. -/
theorem latest?_ofRank_eq_none (h : ∀ l ∈ layers, (l.supplied? s).isSome → l.rank ≠ n) :
    latest? (ofRank layers n) s = none := by
  refine latest?_eq_none.mpr fun l hl => ?_
  obtain ⟨hmem, hrank⟩ := List.mem_filter.mp hl
  exact Option.not_isSome_iff_eq_none.mp fun hsome => h l hmem hsome (beq_iff_eq.mp hrank)

/-- **Where the last layer that supplies a setting is of the highest kind**, the ranking decides for
it. -/
theorem latest?_ranked (h : IsLast layers s l)
    (hrank : ∀ l' ∈ layers, (l'.supplied? s).isSome → l'.rank ≤ l.rank) :
    latest? (ranked layers) s = latest? layers s := by
  have hown : latest? (Layer.ofRank layers l.rank) s = l.supplied? s := h.ofRank.latest?
  have habove (n : Nat) (hn : l.rank < n) : latest? (Layer.ofRank layers n) s = none :=
    latest?_ofRank_eq_none fun l' hl' hsome =>
      Nat.ne_of_lt (Nat.lt_of_le_of_lt (hrank l' hl' hsome) hn)
  obtain ⟨v, hv⟩ := Option.isSome_iff_exists.mp h.choose_spec.choose_spec.2.1
  rw [h.latest?, hv]
  rw [hv] at hown
  unfold ranked
  simp only [latest?_append]
  match hl : l.rank, rank_le l with
  | 0, _ => simp [habove 1 (by omega), habove 2 (by omega), habove 3 (by omega), hl ▸ hown]
  | 1, _ => simp [habove 2 (by omega), habove 3 (by omega), hl ▸ hown]
  | 2, _ => simp [habove 3 (by omega), hl ▸ hown]
  | 3, _ => simp [hl ▸ hown]

/-- The ranking finds a value just when some layer supplies one. -/
theorem latest?_ranked_eq_none (h : ∀ l ∈ layers, l.supplied? s = none) :
    latest? (ranked layers) s = none := by
  have hkind (n : Nat) : latest? (ofRank layers n) s = none :=
    latest?_eq_none.mpr fun l hl => h l (List.mem_filter.mp hl).1
  unfold ranked
  simp only [latest?_append, hkind]
  rfl

end Layer

namespace Config

variable {layers : List Layer} {c : Config} {s : Setting}

/-- The field takes its value from the latest layer of the highest kind that supplies its setting,
and is the default where no layer does. -/
def ByRank (layers : List Layer) (c : Config) (s : Setting) : Prop :=
  s.read? (Layer.latest? (Layer.ranked layers) s) = some (c.field s)

instance : Decidable (ByRank layers c s) :=
  inferInstanceAs (Decidable (s.read? (Layer.latest? (Layer.ranked layers) s) = some (c.field s)))

/-- Not every field goes by the ranking: what was set after the arguments were given replaces
them. -/
theorem not_byRank :
    ¬ ∀ layers c, Config.ofLayers layers = .ok c → ∀ s, ByRank layers c s := by
  intro hall
  let layers : List Layer := [.arguments { appName := "cliapp" }, .setting .appName (.text "late")]
  have hranked : ByRank layers { appName := "late" } .appName := hall layers _ (by rfl) .appName
  revert hranked
  decide

/-- Where the last layer that supplies the setting is of the highest kind. -/
theorem byRank_of_highest (h : Config.ofLayers layers = .ok c)
    (hlast : ∀ l, Layer.IsLast layers s l →
      ∀ l' ∈ layers, (l'.supplied? s).isSome → l'.rank ≤ l.rank) : ByRank layers c s := by
  have hfield := Config.field_of_ofLayers h s
  unfold ByRank
  by_cases hsome : ∃ l ∈ layers, (l.supplied? s).isSome
  · obtain ⟨l, hl⟩ := Layer.exists_isLast hsome
    rw [Layer.latest?_ranked hl (hlast l hl), hfield]
  · have hnone : ∀ l ∈ layers, l.supplied? s = none := fun l hl =>
      Option.not_isSome_iff_eq_none.mp fun hl' => hsome ⟨l, hl, hl'⟩
    rw [Layer.latest?_ranked_eq_none hnone]
    rwa [Layer.latest?_eq_none.mpr hnone] at hfield

/-- **Layers that are added in the documented order** go by the ranking. -/
theorem byRank_of_sorted (h : Config.ofLayers layers = .ok c)
    (hsorted : layers.Pairwise fun l l' => l.rank ≤ l'.rank) (s : Setting) : ByRank layers c s := by
  refine byRank_of_highest h ?_
  rintro l ⟨before, after, rfl, -, hafter⟩ l' hl' hsome
  have hbelow := (List.pairwise_append.mp hsorted).2.2
  obtain hbefore | hl' := List.mem_append.mp hl'
  · exact hbelow l' hbefore l List.mem_cons_self
  · obtain rfl | hl' := List.mem_cons.mp hl'
    · exact Nat.le_refl _
    · rw [hafter l' hl'] at hsome
      cases hsome

/-- **A field goes by the order of the calls**: it is read from the last layer that supplies its
setting. So it goes by the ranking exactly when that layer is of the highest kind that supplies the
setting, or supplies what reads as the ranking says. -/
theorem byRank_iff (h : Config.ofLayers layers = .ok c) (s : Setting) :
    s.read? (Layer.latest? layers s) = some (c.field s) ∧
      (ByRank layers c s ↔ ∀ l, Layer.IsLast layers s l →
        (∀ l' ∈ layers, (l'.supplied? s).isSome → l'.rank ≤ l.rank) ∨
          s.read? (l.supplied? s) = s.read? (Layer.latest? (Layer.ranked layers) s)) := by
  have hfield := Config.field_of_ofLayers h s
  refine ⟨hfield, fun hrank l hl => ?_, fun hlast => ?_⟩
  · rw [hl.latest?] at hfield
    exact .inr (hfield.trans hrank.symm)
  · by_cases hread : ∃ l, Layer.IsLast layers s l ∧
        s.read? (l.supplied? s) = s.read? (Layer.latest? (Layer.ranked layers) s)
    · obtain ⟨l, hl, hsame⟩ := hread
      unfold ByRank
      rw [← hsame, ← hl.latest?, hfield]
    · exact byRank_of_highest h fun l hl => (hlast l hl).resolve_right fun hsame =>
        hread ⟨l, hl, hsame⟩

/-- Code over the environment, and the command line over nothing else. -/
theorem byRank_documentedOrder :
    let layers : List Layer :=
      [.environment "STRATA" [("STRATA_APP_NAME", "env"), ("STRATA_TAGS", "a=b")],
       .setting .appName (.text "code"), .arguments { precision := some 2 }]
    let c : Config := { appName := "code", tags := "a=b", precision := 2 }
    Config.ofLayers layers = .ok c ∧ ByRank layers c .appName ∧ ByRank layers c .tags ∧
      ByRank layers c .precision := by
  intro layers c
  have hok : Config.ofLayers layers = .ok c := by decide +kernel
  have hread (s : Setting) (hs : s.read? (Layer.latest? layers s) =
      s.read? (Layer.latest? (Layer.ranked layers) s)) : ByRank layers c s :=
    (byRank_iff hok s).2.mpr fun l hl => .inr (hl.latest? ▸ hs)
  exact ⟨hok, hread .appName (by decide +kernel), hread .tags (by decide +kernel),
    hread .precision (by decide +kernel)⟩

end Config

end Telemetry
