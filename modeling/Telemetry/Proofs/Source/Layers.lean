import Mathlib.Data.List.Induction
import Telemetry.Proofs.SortedMap
import Telemetry.Source.Layer

/-!
# What layers supply

A layer supplies a value for a setting when it has the setting's key (`Layer.supplied?`). Of the
layers of a configuration the last one that supplies a setting counts (`get?_assemble`), and each
field of the configuration is what that value reads as, or the default where no layer supplies one
(`field_of_ofLayers`).
-/

namespace Telemetry

/-! ## Fields -/

/-- The value of a field. -/
inductive FieldValue where
  | text (value : Option String)
  | flag (value : Bool)
  | number (value : Nat)
deriving DecidableEq

/-- The field of a setting. -/
def Config.field (c : Config) : Setting → FieldValue
  | .appName => .text c.appName
  | .tags => .text c.tags
  | .prometheusEnabled => .flag c.prometheusEnabled
  | .precision => .number c.precision
  | .property p => .text (c.property p)

/-- What a setting reads as, by the value supplied for it: the default without one, nothing for a
value of a wrong type. -/
def Setting.read? : Setting → Option SourceValue → Option FieldValue
  | .prometheusEnabled, none => some (.flag true)
  | .prometheusEnabled, some (.boolean b) => some (.flag b)
  | .prometheusEnabled, some _ => none
  | .precision, none => some (.number defaultPrecision)
  | .precision, some (.integer n) => if 0 ≤ n ∧ n < 256 then some (.number n.toNat) else none
  | .precision, some _ => none
  | _, none => some (.text none)
  | _, some .nothing => some (.text none)
  | _, some (.text v) => some (.text (some v))
  | _, some _ => none

namespace Config

variable {t : SourceTable} {c : Config}

theorem textAt?_eq_some {s : Setting} (h : s ≠ .prometheusEnabled ∧ s ≠ .precision)
    {v : Option String} :
    textAt? t s = some v ↔ s.read? (t.get? s.key) = some (.text v) := by
  unfold textAt?
  cases s with
  | prometheusEnabled => exact absurd rfl h.1
  | precision => exact absurd rfl h.2
  | _ => cases t.get? _ with
    | none => simp [Setting.read?]
    | some value => cases value <;> simp [Setting.read?]

theorem prometheusAt?_eq_some {b : Bool} : prometheusAt? t = some b ↔
    Setting.prometheusEnabled.read? (t.get? Setting.prometheusEnabled.key) = some (.flag b) := by
  unfold prometheusAt?
  cases t.get? Setting.prometheusEnabled.key with
  | none => simp [Setting.read?]
  | some value => cases value <;> simp [Setting.read?]

theorem precisionAt?_eq_some {n : Nat} : precisionAt? t = some n ↔
    Setting.precision.read? (t.get? Setting.precision.key) = some (.number n) := by
  unfold precisionAt?
  cases t.get? Setting.precision.key with
  | none => simp [Setting.read?]
  | some value =>
    cases value with
    | integer k =>
      simp only [Setting.read?]
      split <;> simp
    | _ => simp [Setting.read?]

/-- A table gives a configuration when it gives every part of it. -/
theorem ofTable?_eq_some_and : ofTable? t = some c ↔
    textAt? t .appName = some c.appName ∧ textAt? t .tags = some c.tags ∧
      prometheusAt? t = some c.prometheusEnabled ∧ precisionAt? t = some c.precision ∧
      ∀ p, textAt? t (.property p) = some (c.property p) := by
  constructor
  · intro h
    simp only [ofTable?, bind, pure, Option.bind_eq_some_iff, Option.some.injEq] at h
    obtain ⟨_, h1, _, h2, _, h3, _, h4, _, h5, _, h6, _, h7, _, h8, _, h9, _, h10, _, h11, _,
      h12, rfl⟩ := h
    refine ⟨h1, h2, h3, h4, fun p => ?_⟩
    cases p
    exacts [h5, h6, h7, h8, h9, h10, h11, h12]
  · rintro ⟨h1, h2, h3, h4, h5⟩
    simp only [ofTable?, h1, h2, h3, h4, h5]
    rfl

/-- **A table gives a configuration** exactly when every field is what its setting reads as. -/
theorem ofTable?_eq_some :
    ofTable? t = some c ↔ ∀ s : Setting, s.read? (t.get? s.key) = some (c.field s) := by
  have hproperty (p : Property) : textAt? t (.property p) = some (c.property p) ↔
      (Setting.property p).read? (t.get? (Setting.property p).key) = some (c.field (.property p)) :=
    textAt?_eq_some (s := .property p) ⟨nofun, nofun⟩
  rw [ofTable?_eq_some_and, textAt?_eq_some (s := .appName) (by decide),
    textAt?_eq_some (s := .tags) (by decide), prometheusAt?_eq_some, precisionAt?_eq_some]
  simp only [hproperty]
  constructor
  · rintro ⟨happ, htags, hprometheus, hprecision, hproperties⟩ s
    cases s with
    | appName => exact happ
    | tags => exact htags
    | prometheusEnabled => exact hprometheus
    | precision => exact hprecision
    | property p => exact hproperties p
  · exact fun h =>
      ⟨h .appName, h .tags, h .prometheusEnabled, h .precision, fun p => h (.property p)⟩

end Config

/-! ## Layers -/

namespace Layer

variable {layers : List Layer} {t : SourceTable}

/-- The value that a layer supplies for a setting. -/
def supplied? (s : Setting) (l : Layer) : Option SourceValue := l.table?.bind fun t => t.get? s.key

/-- The value that the last of the layers which supply the setting supplies for it. -/
def latest? (layers : List Layer) (s : Setting) : Option SourceValue :=
  (layers.filterMap (supplied? s)).getLast?

@[simp]
theorem latest?_nil (s : Setting) : latest? [] s = none := rfl

/-- Later layers come first. -/
theorem latest?_append (layers layers' : List Layer) (s : Setting) :
    latest? (layers ++ layers') s = (latest? layers' s).or (latest? layers s) := by
  unfold latest?
  rw [List.filterMap_append, List.getLast?_append]

theorem latest?_singleton (l : Layer) (s : Setting) : latest? [l] s = l.supplied? s := by
  unfold latest?
  cases h : l.supplied? s with
  | none => rw [List.filterMap_cons_none h]; rfl
  | some v => rw [List.filterMap_cons_some h]; rfl

theorem latest?_eq_none {s : Setting} :
    latest? layers s = none ↔ ∀ l ∈ layers, l.supplied? s = none := by
  unfold latest?
  rw [List.getLast?_eq_none_iff, List.filterMap_eq_nil_iff]

/-- Layers are put together from the first to the last. -/
theorem assemble?_concat (layers : List Layer) (l : Layer) : assemble? (layers ++ [l]) =
    (assemble? layers).bind fun below => l.table?.map fun above => below.merge above := by
  unfold assemble?
  rw [List.foldl_append, List.foldl_cons, List.foldl_nil]
  cases List.foldl _ (some (∅ : SourceTable)) layers with
  | none => rfl
  | some below => cases l.table? <;> rfl

/-- **The last layer that supplies a setting counts.** -/
theorem get?_assemble (h : assemble? layers = some t) (s : Setting) :
    t.get? s.key = latest? layers s := by
  induction layers using List.reverseRecOn generalizing t with
  | nil =>
    cases h
    rfl
  | append_singleton layers l ih =>
    rw [assemble?_concat] at h
    obtain ⟨below, hbelow, h⟩ := Option.bind_eq_some_iff.mp h
    obtain ⟨above, habove, rfl⟩ := Option.map_eq_some_iff.mp h
    rw [SortedMap.get?_merge, ih hbelow, latest?_append, latest?_singleton, supplied?, habove]
    rfl

end Layer

/-- **Every field is what the value of the last layer reads as** that supplies its setting. -/
theorem Config.field_of_ofLayers {layers : List Layer} {c : Config}
    (h : Config.ofLayers layers = .ok c) (s : Setting) :
    s.read? (Layer.latest? layers s) = some (c.field s) := by
  unfold Config.ofLayers at h
  split at h
  · rename_i c' heq
    cases h
    obtain ⟨t, hassemble, htable⟩ := Option.bind_eq_some_iff.mp heq
    rw [← Layer.get?_assemble hassemble]
    exact Config.ofTable?_eq_some.mp htable s
  · cases h

end Telemetry
