import Telemetry.Proofs.Exposition.AllScopes
import Telemetry.Session.Run

/-!
# What a scrape is answered with

A request is checked for its method, for what the client accepts, for the backend and for its path,
in this order; after that the response follows from the meters that the existing scopes have
(`Exact`; specification, 6.3).

* `answer_exact`: so it is after every history, whatever the request. A response with a body has the
  text of the families that were asked for, an export never fails, and the request changes nothing.

An export without text stands for meters that are not there. That is right because each meter has a
family (`Coherent.gather_ne_nil`), and each family has a text that is not empty
(`encode_eq_empty_iff`).
-/

namespace Telemetry

/-! ## Requests -/

/-- The request may be answered with an exposition text. -/
structure ScrapeRequest.Admitted (q : ScrapeRequest) (settings : RegistrySettings) : Prop where
  method : q.method = "GET"
  accept : bestMediaType q.accept ≠ none
  backend : settings.prometheusEnabled = true

theorem ScrapeRequest.admitted_iff {q : ScrapeRequest} {settings : RegistrySettings} :
    q.Admitted settings ↔
      q.method = "GET" ∧ bestMediaType q.accept ≠ none ∧ settings.prometheusEnabled = true :=
  ⟨fun h => ⟨h.method, h.accept, h.backend⟩, fun ⟨hm, ha, hb⟩ => ⟨hm, ha, hb⟩⟩

/-- The request is for the context root, which may have a slash at its end. -/
def ScrapeEndpoint.Serves (e : ScrapeEndpoint) (q : ScrapeRequest) : Prop :=
  q.path.toList = e.contextRoot.toList ∨ q.path.toList = e.contextRoot.toList ++ ['/']

namespace Directory

/-- The scope exists and has a meter, one of the name if a name is given. -/
def HasMeter (d : Directory) (scope : String) (only : Option String) : Prop :=
  ∃ r g mid, d.lookup? scope = some r ∧ d.registry? r = some g ∧
    (d.store.find? g.store mid).isSome ∧ ∀ name ∈ only, mid.name = name

/-- The families of one scope, or those of all scopes. -/
def wantedFamilies (d : Directory) (scope only : Option String) : List Family :=
  match scope with
  | some scope => ((d.lookup? scope).map fun r => d.gather r only).getD []
  | none => d.gatherAll only

end Directory

namespace ScrapeEndpoint

/-- The response to a request, by the first thing that is to be said of it. -/
structure Exact (e : ScrapeEndpoint) (d : Directory) (q : ScrapeRequest)
    (response : ScrapeResponse) : Prop where
  method : response.status = 405 ↔ q.method ≠ "GET"
  accept : response.status = 406 ↔ q.method = "GET" ∧ bestMediaType q.accept = none
  backend : response.status = 501 ↔
    q.method = "GET" ∧ bestMediaType q.accept ≠ none ∧ d.settings.prometheusEnabled = false
  /-- The path is the only reason for this status: no export ends so. -/
  root : response.status = 500 ↔ q.Admitted d.settings ∧ ¬ e.contextRoot.toList <+: q.path.toList
  path : q.Admitted d.settings → e.contextRoot.toList <+: q.path.toList → ¬ e.Serves q →
    response.status = 404
  unknownScope : q.Admitted d.settings → e.Serves q → ∀ scope ∈ q.param? "scope",
    d.scopeExists scope = false → response.status = 404
  scope : q.Admitted d.settings → e.Serves q → ∀ scope ∈ q.param? "scope",
    d.scopeExists scope = true → q.param? "name" = none →
      (response.status = 204 ↔ ¬ d.HasMeter scope none) ∧
        (response.status = 200 ↔ d.HasMeter scope none)
  metric : q.Admitted d.settings → e.Serves q → ∀ scope ∈ q.param? "scope",
    d.scopeExists scope = true → ∀ name ∈ q.param? "name",
      (response.status = 200 ↔ d.HasMeter scope (some name)) ∧
        (response.status = 404 ↔ ¬ d.HasMeter scope (some name))
  name : q.Admitted d.settings → e.Serves q → q.param? "scope" = none → ∀ name ∈ q.param? "name",
    (response.status = 200 ↔ ∃ scope, d.HasMeter scope (some name)) ∧
      (response.status = 404 ↔ ¬ ∃ scope, d.HasMeter scope (some name))
  everything : q.Admitted d.settings → e.Serves q → q.param? "scope" = none →
    q.param? "name" = none → response.status = 200
  /-- What is answered is the text of the families, with the headers of one. -/
  body : response.status = 200 → ∃ text,
    encode (d.wantedFamilies (q.param? "scope") (q.param? "name")) = .ok text ∧ response = .ok text

end ScrapeEndpoint

/-! ## Texts -/

theorem Family.header_ne_empty (f : Family) : f.header ≠ "" := by
  intro h
  have hlength := congrArg String.length h
  unfold header at hlength
  simp at hlength

/-- **Only what has no families has no text.** -/
theorem encode_eq_empty_iff {families : List Family} (h : ∀ f ∈ families, f.WellFormed) :
    encode families = .ok "" ↔ families = [] := by
  rw [encode_eq h]
  constructor
  · intro hempty
    cases families with
    | nil => rfl
    | cons f families =>
      rw [Except.ok.injEq, List.map_cons, String.join_cons] at hempty
      exact absurd (String.append_eq_empty_iff.mp (String.append_eq_empty_iff.mp hempty).1).1
        f.header_ne_empty
  · rintro rfl
    rfl

theorem RegistrySettings.requireExport_eq (s : RegistrySettings) :
    s.requireExport =
      if s.prometheusEnabled then .ok () else .error (.exportUnsupported "simple") := by
  unfold requireExport primary available
  cases s.prometheusEnabled <;> rfl

theorem Text.after?_eq_none_iff {start cs : List Char} :
    after? start cs = none ↔ ¬ start <+: cs := by
  rw [Option.eq_none_iff_forall_ne_some]
  simp only [ne_eq, after?_eq_some_iff]
  exact ⟨fun h ⟨rest, hrest⟩ => h rest hrest.symm, fun h rest hrest => h ⟨rest, hrest.symm⟩⟩

namespace Directory

variable {d : Directory} {r : RegistryRef} {g : Registry} {only : Option String}
  {scope name : String}

/-! ## Meters and families -/

/-- **A scope has families just when it has meters**, also of one name. -/
theorem Coherent.gather_ne_nil (h : d.Coherent) (hr : d.registry? r = some g) :
    d.gather r only ≠ [] ↔
      ∃ mid, (d.store.find? g.store mid).isSome ∧ ∀ name ∈ only, mid.name = name := by
  unfold gather
  rw [hr]
  constructor
  · intro hne
    obtain ⟨f, hf⟩ := List.exists_mem_of_ne_nil _ hne
    obtain ⟨meter, hmeter, -⟩ := MeterStore.shows_of_mem_gather hf
    obtain ⟨mid, m, hm, -, honly⟩ := MeterStore.mem_metersOf.mp hmeter
    exact ⟨mid, Option.isSome_iff_exists.mpr ⟨m, hm⟩, honly⟩
  · rintro ⟨mid, hmid, honly⟩
    obtain ⟨m, hm⟩ := Option.isSome_iff_exists.mp hmid
    obtain ⟨id, a, ha, rfl⟩ := h.meter_used r g mid m hr (h.store r g hr ▸ hm)
    obtain ⟨m', meter, hb⟩ := h.backed r g id a hr ha
    obtain ⟨f, hf, -⟩ := MeterStore.exists_family
      (MeterStore.mem_metersOf.mpr ⟨_, m', hb.found, hb.present, honly⟩)
    exact List.ne_nil_of_mem hf

theorem Coherent.hasMeter_iff (h : d.Coherent) (hs : d.lookup? scope = some r) :
    d.HasMeter scope only ↔ d.gather r only ≠ [] := by
  obtain ⟨g, hr, -⟩ := (h.current scope r).mp hs
  rw [h.gather_ne_nil hr]
  constructor
  · rintro ⟨r', g', mid, hs', hr', hmid, honly⟩
    rw [hs] at hs'
    cases hs'
    rw [hr] at hr'
    cases hr'
    exact ⟨mid, hmid, honly⟩
  · exact fun ⟨mid, hmid, honly⟩ => ⟨r, g, mid, hs, hr, hmid, honly⟩

/-- The scopes together have families just when one of them has a meter. -/
theorem Coherent.gatherAll_ne_nil (h : d.Coherent) (only : Option String) :
    d.gatherAll only ≠ [] ↔ ∃ scope, d.HasMeter scope only := by
  constructor
  · intro hne
    obtain ⟨f, hf⟩ := List.exists_mem_of_ne_nil _ hne
    obtain ⟨scope, r, hs, f', hf', -⟩ := (h.names_gatherAll only f.name).mp ⟨f, hf, rfl⟩
    exact ⟨scope, (h.hasMeter_iff hs).mpr (List.ne_nil_of_mem hf')⟩
  · rintro ⟨scope, hmeter⟩
    have ⟨r, _, _, hs, _⟩ := hmeter
    obtain ⟨f, hf⟩ := List.exists_mem_of_ne_nil _ ((h.hasMeter_iff hs).mp hmeter)
    obtain ⟨f', hf', -⟩ := (h.names_gatherAll only f.name).mpr ⟨scope, r, hs, f, hf, rfl⟩
    exact List.ne_nil_of_mem hf'

/-- A scope that counts no meters has none. -/
theorem Coherent.meterCount_eq_zero (h : d.Coherent) (hs : d.lookup? scope = some r) :
    d.meterCount r = 0 ↔ ¬ d.HasMeter scope none := by
  obtain ⟨g, hr, -⟩ := (h.current scope r).mp hs
  obtain ⟨c, hc⟩ := h.exists_scope hr
  have hcount : d.meterCount r = c.meters.keys.length := by
    unfold meterCount MeterStore.meterCount
    rw [hr, Option.map_some, Option.getD_some, h.store r g hr, hc, SortedMap.length_keys]
    rfl
  rw [hcount, List.length_eq_zero_iff, h.hasMeter_iff hs, h.gather_ne_nil hr, h.store r g hr,
    List.eq_nil_iff_forall_not_mem]
  simp [SortedMap.mem_keys, MeterStore.find?_eq hc, Option.isSome_iff_exists]

end Directory

/-! ## Responses -/

namespace ScrapeEndpoint

variable {d : Directory} {r : RegistryRef} {scope name : String} {found : Prop}
  {families : List Family} {missing : Nat} {response : ScrapeResponse}

/-- What was found is answered with its text; else the status tells that it is missing. -/
inductive Answers (found : Prop) (families : List Family) (missing : Nat) : ScrapeResponse → Prop
  | text {text : String} (hfound : found) (htext : encode families = .ok text) :
      Answers found families missing (.ok text)
  | missing {response : ScrapeResponse} (hmissing : ¬ found) (hstatus : response.status = missing) :
      Answers found families missing response

theorem Answers.status_iff (h : Answers found families missing response) (hne : missing ≠ 200) :
    (response.status = 200 ↔ found) ∧ (response.status = missing ↔ ¬ found) := by
  cases h with
  | text hfound _ =>
    exact ⟨iff_of_true rfl hfound, iff_of_false hne.symm fun hmissing => hmissing hfound⟩
  | missing hmissing hstatus =>
    exact ⟨iff_of_false (hstatus ▸ hne) hmissing, iff_of_true hstatus hmissing⟩

theorem Answers.body (h : Answers found families missing response) (hne : missing ≠ 200)
    (hok : response.status = 200) : ∃ text, encode families = .ok text ∧ response = .ok text := by
  cases h with
  | text _ htext => exact ⟨_, htext, rfl⟩
  | missing _ hstatus => exact absurd (hstatus.symm.trans hok) hne

theorem filter_unknown {scope : Option String} (hscope : ∀ s ∈ scope, d.scopeExists s = true) :
    (scope.filter fun s => !d.scopeExists s) = none :=
  Option.filter_eq_none_iff.mpr fun s hs => by simp [hscope s hs]

/-- A text is sent, unless it is that of a name no scope has. -/
theorem answerParams_ok (scope name : Option String) {text : String}
    (hscope : ∀ s ∈ scope, d.scopeExists s = true)
    (htext : d.answerExport (wanted scope name) = .ok text)
    (hfound : text ≠ "" ∨ scope.isSome ∨ name = none) : answerParams d scope name = .ok text := by
  unfold answerParams
  rw [filter_unknown hscope, htext]
  dsimp only
  split
  · next hbody =>
    cases hbody
    simp at hfound
  · next hbody _ => rw [Except.ok.inj hbody]
  · next herror => cases herror

theorem answerParams_error {scope name : Option String} {e : MetricsError}
    (hscope : ∀ s ∈ scope, d.scopeExists s = true)
    (herror : d.answerExport (wanted scope name) = .error e) :
    answerParams d scope name = .ofError e := by
  unfold answerParams
  rw [filter_unknown hscope, herror]

theorem answers_scope (h : d.Coherent) (hn : d.Named) (hs : d.lookup? scope = some r) :
    Answers (d.HasMeter scope none) (d.gather r none) 204 (answerParams d (some scope) none) := by
  obtain ⟨text, htext⟩ : ∃ text, encode (d.gather r none) = .ok text :=
    ⟨_, encode_eq (h.wellFormed_gather hn r none).family⟩
  have hscope : ∀ s ∈ some scope, d.scopeExists s = true := by
    rintro s ⟨⟩
    exact SortedMap.contains_iff.mpr ⟨r, hs⟩
  by_cases hzero : d.meterCount r = 0
  · have hrefused : d.answerExport (wanted (some scope) none) = .error (.scopeEmpty scope) := by
      simp [Directory.answerExport, wanted, hs, hzero]
    rw [answerParams_error hscope hrefused]
    exact .missing ((h.meterCount_eq_zero hs).mp hzero) rfl
  · have hanswer : d.answerExport (wanted (some scope) none) = .ok text := by
      simp [Directory.answerExport, wanted, hs, hzero, htext]
    rw [answerParams_ok _ _ hscope hanswer (.inr (.inl rfl))]
    exact .text (not_not.mp (mt (h.meterCount_eq_zero hs).mpr hzero)) htext

theorem answers_metric (h : d.Coherent) (hn : d.Named) (hs : d.lookup? scope = some r)
    (name : String) :
    Answers (d.HasMeter scope (some name)) (d.gather r (some name)) 404
      (answerParams d (some scope) (some name)) := by
  obtain ⟨text, htext⟩ : ∃ text, encode (d.gather r (some name)) = .ok text :=
    ⟨_, encode_eq (h.wellFormed_gather hn r (some name)).family⟩
  have hscope : ∀ s ∈ some scope, d.scopeExists s = true := by
    rintro s ⟨⟩
    exact SortedMap.contains_iff.mpr ⟨r, hs⟩
  have hmeter : d.HasMeter scope (some name) ↔ d.gather r (some name) ≠ [] := h.hasMeter_iff hs
  by_cases hnil : d.gather r (some name) = []
  · have hrefused :
        d.answerExport (wanted (some scope) (some name)) = .error (.metricNotFound scope name) := by
      simp [Directory.answerExport, wanted, hs, hnil]
    rw [answerParams_error hscope hrefused]
    exact .missing (mt hmeter.mp (not_not.mpr hnil)) rfl
  · have hanswer : d.answerExport (wanted (some scope) (some name)) = .ok text := by
      simp [Directory.answerExport, wanted, hs, hnil, htext]
    rw [answerParams_ok _ _ hscope hanswer (.inr (.inl rfl))]
    exact .text (hmeter.mpr hnil) htext

theorem answers_name (h : d.Coherent) (hn : d.Named) (name : String) :
    Answers (∃ scope, d.HasMeter scope (some name)) (d.gatherAll (some name)) 404
      (answerParams d none (some name)) := by
  have hwell := (h.wellFormed_gatherAll hn (some name)).family
  obtain ⟨text, htext⟩ : ∃ text, encode (d.gatherAll (some name)) = .ok text := ⟨_, encode_eq hwell⟩
  have hmeter := h.gatherAll_ne_nil (some name)
  by_cases hempty : text = ""
  · subst hempty
    have hnone : answerParams d none (some name) =
        .plain 404 s!"Metric {name} not found in any scope" := by
      simp only [answerParams, Option.filter_none, wanted, Directory.answerExport, htext]
    rw [hnone]
    exact .missing (mt hmeter.mpr (not_not.mpr ((encode_eq_empty_iff hwell).mp htext))) rfl
  · have hne : d.gatherAll (some name) ≠ [] := by
      intro hnil
      rw [hnil] at htext
      exact hempty (Except.ok.inj htext).symm
    rw [answerParams_ok none (some name) (by simp) htext (.inl hempty)]
    exact .text (hmeter.mp hne) htext

theorem answers_everything (h : d.Coherent) (hn : d.Named) :
    Answers True (d.gatherAll none) 404 (answerParams d none none) := by
  obtain ⟨text, htext⟩ : ∃ text, encode (d.gatherAll none) = .ok text :=
    ⟨_, encode_eq (h.wellFormed_gatherAll hn none).family⟩
  rw [answerParams_ok none none (by simp) htext (.inr (.inr rfl))]
  exact .text trivial htext

/-- The meters that the parameters ask for are there; who asks for everything misses nothing. -/
def Found (d : Directory) : Option String → Option String → Prop
  | some scope, only => d.HasMeter scope only
  | none, some name => ∃ scope, d.HasMeter scope (some name)
  | none, none => True

/-- The status that tells that they are not. -/
def missingStatus : Option String → Option String → Nat
  | some _, none => 204
  | _, _ => 404

theorem missingStatus_cases (scope name : Option String) :
    missingStatus scope name = 204 ∨ missingStatus scope name = 404 := by
  cases scope <;> cases name <;> simp [missingStatus]

theorem answers_params (h : d.Coherent) (hn : d.Named) {scope name : Option String}
    (hscope : ∀ s ∈ scope, d.scopeExists s = true) :
    Answers (Found d scope name) (d.wantedFamilies scope name) (missingStatus scope name)
      (answerParams d scope name) := by
  cases scope with
  | none =>
    cases name with
    | none => exact answers_everything h hn
    | some name => exact answers_name h hn name
  | some s =>
    obtain ⟨r, hs⟩ : ∃ r, d.lookup? s = some r := SortedMap.contains_iff.mp (hscope s rfl)
    have hfamilies (only : Option String) : d.wantedFamilies (some s) only = d.gather r only := by
      simp only [Directory.wantedFamilies, hs, Option.map_some, Option.getD_some]
    cases name with
    | none => exact hfamilies none ▸ answers_scope h hn hs
    | some name => exact hfamilies (some name) ▸ answers_metric h hn hs name

theorem Answers.status (h : Answers found families missing response) :
    response.status = 200 ∨ response.status = missing := by
  cases h with
  | text _ _ => exact .inl rfl
  | missing _ hstatus => exact .inr hstatus

/-- How a response comes about: the request fails one check after it passed those before, or it is
answered. -/
inductive Course (e : ScrapeEndpoint) (d : Directory) (q : ScrapeRequest) : ScrapeResponse → Prop
  | method {body : String} (hmethod : q.method ≠ "GET") : Course e d q (.plain 405 body)
  | accept {body : String} (hmethod : q.method = "GET") (haccept : bestMediaType q.accept = none) :
      Course e d q (.plain 406 body)
  | backend {body : String} (hmethod : q.method = "GET") (haccept : bestMediaType q.accept ≠ none)
      (hbackend : d.settings.prometheusEnabled = false) : Course e d q (.plain 501 body)
  | root {body : String} (hadmitted : q.Admitted d.settings)
      (hroot : ¬ e.contextRoot.toList <+: q.path.toList) : Course e d q (.plain 500 body)
  | path {body : String} (hadmitted : q.Admitted d.settings)
      (hroot : e.contextRoot.toList <+: q.path.toList) (hserves : ¬ e.Serves q) :
      Course e d q (.plain 404 body)
  | unknown {scope body : String} (hadmitted : q.Admitted d.settings) (hserves : e.Serves q)
      (hscope : q.param? "scope" = some scope) (hunknown : d.scopeExists scope = false) :
      Course e d q (.plain 404 body)
  | params {response : ScrapeResponse} (hadmitted : q.Admitted d.settings) (hserves : e.Serves q)
      (hscope : ∀ scope ∈ q.param? "scope", d.scopeExists scope = true)
      (hanswers : Answers (Found d (q.param? "scope") (q.param? "name"))
        (d.wantedFamilies (q.param? "scope") (q.param? "name"))
        (missingStatus (q.param? "scope") (q.param? "name")) response) :
      Course e d q response

theorem Serves.root {e : ScrapeEndpoint} {q : ScrapeRequest} (h : e.Serves q) :
    e.contextRoot.toList <+: q.path.toList := by
  rcases h with h | h
  · exact h ▸ List.prefix_refl _
  · exact h ▸ List.prefix_append ..

theorem serves_iff {e : ScrapeEndpoint} {q : ScrapeRequest} {rest : List Char}
    (h : q.path.toList = e.contextRoot.toList ++ rest) : e.Serves q ↔ rest = [] ∨ rest = ['/'] := by
  unfold Serves
  rw [h, List.append_cancel_left_eq, List.append_right_eq_self]

theorem answer_course (h : d.Coherent) (hn : d.Named) (e : ScrapeEndpoint) (q : ScrapeRequest) :
    Course e d q (e.answer d q) := by
  unfold answer
  by_cases hmethod : q.method = "GET"
  swap
  · rw [if_pos hmethod]
    exact .method hmethod
  rw [if_neg (not_not.mpr hmethod)]
  by_cases haccept : bestMediaType q.accept = none
  · rw [if_pos (by rw [haccept]; rfl)]
    exact .accept hmethod haccept
  rw [if_neg (by simpa using haccept), RegistrySettings.requireExport_eq]
  by_cases hbackend : d.settings.prometheusEnabled
  swap
  · rw [if_neg hbackend]
    exact .backend hmethod haccept (by simpa using hbackend)
  rw [if_pos hbackend]
  have hadmitted : q.Admitted d.settings := ⟨hmethod, haccept, hbackend⟩
  cases hroot : Text.after? e.contextRoot.toList q.path.toList with
  | none => exact .root hadmitted (Text.after?_eq_none_iff.mp hroot)
  | some rest =>
    have hpath := Text.after?_eq_some_iff.mp hroot
    have hserves := serves_iff hpath
    dsimp only
    by_cases hrest : rest = [] ∨ rest = ['/']
    swap
    · rw [if_neg hrest]
      exact .path hadmitted ⟨rest, hpath.symm⟩ (mt hserves.mp hrest)
    rw [if_pos hrest]
    by_cases hscope : ∀ scope ∈ q.param? "scope", d.scopeExists scope = true
    · exact .params hadmitted (hserves.mpr hrest) hscope (answers_params h hn hscope)
    · push Not at hscope
      obtain ⟨scope, hscope, hunknown⟩ := hscope
      have hunknown : d.scopeExists scope = false := by simpa using hunknown
      have hfilter : ((q.param? "scope").filter fun s => !d.scopeExists s) = some scope := by
        rw [hscope, Option.filter_some, hunknown]
        rfl
      unfold answerParams
      rw [hfilter]
      exact .unknown hadmitted (hserves.mpr hrest) hscope hunknown

theorem Course.exact {e : ScrapeEndpoint} {q : ScrapeRequest} (h : Course e d q response) :
    Exact e d q response := by
  cases h with
  | method hmethod | accept hmethod haccept | backend hmethod haccept hbackend =>
    constructor <;> simp_all [ScrapeResponse.plain, ScrapeRequest.admitted_iff]
  | root hadmitted hroot =>
    have hserves : ¬ e.Serves q := mt Serves.root hroot
    constructor <;> simp_all [ScrapeResponse.plain, ScrapeRequest.admitted_iff]
  | path hadmitted hroot hserves =>
    constructor <;> simp_all [ScrapeResponse.plain, ScrapeRequest.admitted_iff]
  | unknown hadmitted hserves hscope hunknown =>
    have hroot := hserves.root
    constructor <;> simp_all [ScrapeResponse.plain, ScrapeRequest.admitted_iff]
  | params hadmitted hserves hscope hanswers =>
    have hroot := hserves.root
    have hmissing := missingStatus_cases (q.param? "scope") (q.param? "name")
    have hne : missingStatus (q.param? "scope") (q.param? "name") ≠ 200 := by omega
    have hstatus := hanswers.status
    have hiff := hanswers.status_iff hne
    constructor
    case method => exact iff_of_false (by omega) (not_not.mpr hadmitted.method)
    case accept => exact iff_of_false (by omega) fun h => hadmitted.accept h.2
    case backend => exact iff_of_false (by omega) fun h => by simp [hadmitted.backend] at h
    case root => exact iff_of_false (by omega) fun h => h.2 hroot
    case path => exact fun _ _ hnot => absurd hserves hnot
    case unknownScope =>
      intro _ _ scope hs hunknown
      exact absurd (hscope scope hs) (by simp [hunknown])
    case scope =>
      intro _ _ scope hs _ hname
      rw [hs, hname] at hiff
      exact hiff.symm
    case metric =>
      intro _ _ scope hs _ name hname
      rw [hs, hname] at hiff
      exact hiff
    case name =>
      intro _ _ hs name hname
      rw [hs, hname] at hiff
      exact hiff
    case everything =>
      intro _ _ hs hname
      rw [hs, hname] at hiff
      exact hiff.1.mpr trivial
    case body => exact hanswers.body hne

/-- **A scrape is answered exactly**, after every history, and leaves the session as it is, whatever
the session holds. -/
theorem answer_exact (settings : RegistrySettings) (platform : PlatformReadings)
    (acts : List Action) (e : ScrapeEndpoint) (q : ScrapeRequest) :
    let d := Directory.reached settings platform acts
    Exact e d q (e.answer d q) ∧
      ∀ registries metrics cells headers,
        Session.step ⟨d, registries, metrics, cells⟩ (.scrape e q headers) =
          (.response (e.answer d q) (headers.map (e.answer d q).header?),
            ⟨d, registries, metrics, cells⟩) :=
  ⟨(answer_course (Directory.coherent_reached settings platform acts)
      (Directory.named_reached settings platform acts) e q).exact, fun _ _ _ _ => rfl⟩

end ScrapeEndpoint

end Telemetry
