import LlmOperator.Api.Types
import LlmOperator.Data.Json
import LlmOperator.Interaction.Safety

/-!
# The catalog for Hermes

`fetchHermesConfig` of `cmd/llm-proxy/main.go`, with what it is made of. The configuration that
the proxy serves is validated. One that is not valid may be that of an earlier release, and is then
rebuilt from the catalog of models that the proxy serves as well. What is rebuilt is not validated
again: each model of the catalog is checked by itself, but not that the default model is among
them, and a name of nothing but white space goes through.
-/

namespace LlmOperator.Proxy

open Api Data Data.GoString Interaction

/-! ## Payloads -/

structure HermesModelConfig where
  default : String
  provider : String
  baseURL : String
  deriving DecidableEq

/-- A provider; its models have a context length. -/
structure HermesCustomProvider where
  name : String
  baseURL : String
  apiMode : String
  models : FMap String Int
  deriving DecidableEq

structure HermesConfigPayload where
  model : HermesModelConfig
  customProviders : List HermesCustomProvider
  deriving DecidableEq

structure HermesConfigResponse where
  object : String
  target : String
  config : HermesConfigPayload
  metadata : List (String × Json)

/-- A model of `openAIModelsResponse`. -/
structure CatalogEntryData where
  id : String
  contextLength : Int
  deriving DecidableEq

/-! ## Decoding -/

/-- A field whose type is a map from texts. -/
def setTextMap {α β : Type} (item : Json → Except String β) (get : α → FMap String β)
    (set : FMap String β → α → α) : Json.Setter α
  | a, .null => .ok (set ∅ a)
  | a, .obj entries => do
      let m ← entries.foldlM (fun (m : FMap String β) e => do return m.insert e.1 (← item e.2))
        (get a)
      return set m a
  | _, _ => .error (Json.typeError "map")

/-- A field of type `map[string]any`. -/
def setAnyMap {α : Type} (get : α → List (String × Json)) (set : List (String × Json) → α → α) :
    Json.Setter α
  | a, .null => .ok (set [] a)
  | a, .obj entries => .ok (set (get a ++ entries) a)
  | _, _ => .error (Json.typeError "map[string]interface \x7b\x7d")

/-- A field that is a structure. -/
def setStruct {α β : Type} (fields : Json.Fields β) (get : α → β) (set : β → α → α) :
    Json.Setter α :=
  fun a v => do return set (← fields.decode (get a) v) a

def hermesModelFields : Json.Fields HermesModelConfig :=
  [("default", Json.setString fun s m => { m with default := s }),
    ("provider", Json.setString fun s m => { m with provider := s }),
    ("base_url", Json.setString fun s m => { m with baseURL := s })]

def contextLengthFields : Json.Fields Int := [("context_length", Json.setInt64 fun n _ => n)]

def hermesProviderFields : Json.Fields HermesCustomProvider :=
  [("name", Json.setString fun s p => { p with name := s }),
    ("base_url", Json.setString fun s p => { p with baseURL := s }),
    ("api_mode", Json.setString fun s p => { p with apiMode := s }),
    ("models", setTextMap (contextLengthFields.decode 0) HermesCustomProvider.models
      fun models p => { p with models := models })]

def hermesPayloadFields : Json.Fields HermesConfigPayload :=
  [("model", setStruct hermesModelFields HermesConfigPayload.model fun m p =>
      { p with model := m }),
    ("custom_providers", Json.setArray (hermesProviderFields.decode ⟨"", "", "", ∅⟩)
      fun providers p => { p with customProviders := providers })]

def hermesResponseFields : Json.Fields HermesConfigResponse :=
  [("object", Json.setString fun s r => { r with object := s }),
    ("target", Json.setString fun s r => { r with target := s }),
    ("config", setStruct hermesPayloadFields HermesConfigResponse.config
      fun config r => { r with config := config }),
    ("metadata", setAnyMap HermesConfigResponse.metadata fun m r => { r with metadata := m })]

def decodeHermesResponse (body : Json) : Except String HermesConfigResponse :=
  hermesResponseFields.decode ⟨"", "", ⟨⟨"", "", ""⟩, []⟩, []⟩ body

def catalogEntryFields : Json.Fields CatalogEntryData :=
  [("id", Json.setString fun s e => { e with id := s }),
    ("metadata", setStruct contextLengthFields CatalogEntryData.contextLength
      fun n e => { e with contextLength := n })]

/-- The models of an `openAIModelsResponse`. -/
def decodeCatalog (body : Json) : Except String (List CatalogEntryData) :=
  Json.Fields.decode
    [("data", Json.setArray (catalogEntryFields.decode ⟨"", 0⟩) fun models _ => models)] [] body

/-! ## Validation -/

/-- The name of the provider, without the prefix that it has in a model. -/
def HermesConfigPayload.providerName (remote : HermesConfigPayload) : String :=
  trimPrefix remote.model.provider "custom:"

/-- What `validateHermesConfig` asks of the provider that the model names. -/
def validateHermesProvider (default : String) (provider : HermesCustomProvider) :
    Except Err Unit := do
  if provider.baseURL = "" ∨ provider.apiMode ≠ "chat_completions" then
    throw (.other "custom provider requires base_url and chat_completions api_mode")
  if (provider.models.lookup default).getD 0 < 1 then
    throw (.other "active model must be present with a positive context_length")
  if ∃ id ∈ provider.models.sortedKeys, trimSpace id = "" ∨
    (provider.models.lookup id).getD 0 < 1 then
    throw (.other "custom provider models require IDs and positive context_length values")

/-- `validateHermesConfig`. -/
def validateHermesConfig (remote : HermesConfigPayload) : Except Err Unit := do
  if remote.model.default = "" ∨ remote.model.provider = "" then
    throw (.other "model.default and model.provider are required")
  if !hasPrefix remote.model.provider "custom:" then
    throw (.other "model.provider must name a custom provider")
  match remote.customProviders.find? fun provider => provider.name == remote.providerName with
  | some provider => validateHermesProvider remote.model.default provider
  | none => throw (.other ("custom provider " ++ quote remote.providerName ++ " is missing"))

/-! ## Fetching -/

/-- An answer to a request. The body is the first document in it, or the error of its parser. -/
structure HttpReply where
  statusCode : Nat
  status : String
  body : Except String Json

inductive HermesCall where
  /-- `url.Parse` and `http.NewRequestWithContext`. -/
  | request (url : String)
  | send (url : String)

@[reducible] def HermesCall.Answer : HermesCall → Type
  | request _ => Except Err String
  | send _ => Except Err HttpReply

abbrev Hermes : Sig := ⟨HermesCall, HermesCall.Answer⟩

/-- The URL of a request, as it is sent. -/
def prepare (url : String) : Flow Hermes Err String :=
  ExceptT.mk (.call (.request url) fun
    | .ok sent => .pure (.ok sent)
    | .error e => .pure (.error e))

/-- A request, and the decoded body of its answer; `what` is in front of its errors. -/
def fetchDocument {α : Type} (what : String) (decode : Json → Except String α) (url : String) :
    Flow Hermes Err α :=
  ExceptT.mk (.call (.send url) fun
    | .error e => .pure (.error (.wrap ("fetch " ++ what) e))
    | .ok reply =>
      if reply.statusCode ≠ 200 then
        .pure (.error (.other ("fetch " ++ what ++ ": proxy returned " ++ reply.status)))
      else match reply.body.bind decode with
        | .error e => .pure (.error (.wrap ("decode " ++ what) (.other e)))
        | .ok a => .pure (.ok a))

def addModel (models : FMap String Int) (model : CatalogEntryData) :
    Except Err (FMap String Int) :=
  if model.id = "" ∨ model.contextLength < 1 then
    .error (.other "proxy model catalog contains an invalid model")
  else .ok (models.insert model.id model.contextLength)

/-- The models of the catalog, by their names. -/
def catalogModels (catalog : List CatalogEntryData) : Except Err (FMap String Int) :=
  catalog.foldlM addModel ∅

/-- The configuration that is rebuilt from that of an earlier release. -/
def upgraded (legacy : HermesConfigPayload) (models : FMap String Int) : HermesConfigPayload where
  model := ⟨legacy.model.default, "custom:llm-proxy", ""⟩
  customProviders := [⟨"llm-proxy", legacy.model.baseURL, "chat_completions", models⟩]

/-- `upgradeLegacyHermesConfig`. -/
def upgradeLegacyHermesConfig (proxyURL : String) (legacy : HermesConfigPayload) :
    Flow Hermes Err HermesConfigPayload := do
  if legacy.model.provider ≠ "custom" ∨ legacy.model.default = "" ∨ legacy.model.baseURL = "" then
    throw (.other "not a legacy custom proxy configuration")
  let endpoint ← prepare (trimSuffix proxyURL "/" ++ "/v1/models")
  let catalog ← fetchDocument "proxy model catalog" decodeCatalog endpoint
  match catalogModels catalog with
  | .error e => throw e
  | .ok models => return upgraded legacy models

/-- A character that `url.PathEscape` leaves as it is. -/
def unescaped (c : Char) : Bool := c.isAlphanum || "-_.~$&+=:@".toList.contains c

/-- `url.PathEscape`. -/
def pathEscape (s : String) : String :=
  String.ofList (s.toList.flatMap fun c =>
    if unescaped c then [c]
    else c.toString.toUTF8.toList.flatMap fun b =>
      '%' :: (Nat.digitChar (b.toNat / 16)).toUpper :: [(Nat.digitChar (b.toNat % 16)).toUpper])

/-- `fetchHermesConfig`. -/
def fetchHermesConfig (proxyURL target : String) :
    Flow Hermes Err (HermesConfigResponse × String) := do
  let endpoint ← prepare (trimSuffix proxyURL "/" ++ "/vllm-proxy/config/" ++ pathEscape target)
  let remote ← fetchDocument "proxy config" decodeHermesResponse endpoint
  match validateHermesConfig remote.config with
  | .ok () => return (remote, endpoint)
  | .error e =>
    match ← (liftM (upgradeLegacyHermesConfig proxyURL remote.config).prog :
        Flow Hermes Err (Except Err HermesConfigPayload)) with
    | .error _ => throw (.wrap "invalid proxy Hermes configuration" e)
    | .ok config => return ({ remote with config := config }, endpoint)

/-! ## What is returned is valid -/

theorem validateHermesProvider_eq_ok {default : String} {provider : HermesCustomProvider} :
    validateHermesProvider default provider = .ok () ↔
      (provider.baseURL ≠ "" ∧ provider.apiMode = "chat_completions") ∧
        1 ≤ (provider.models.lookup default).getD 0 ∧
        ∀ id ∈ provider.models.sortedKeys,
          trimSpace id ≠ "" ∧ 1 ≤ (provider.models.lookup id).getD 0 := by
  unfold validateHermesProvider
  by_cases hshape : provider.baseURL = "" ∨ provider.apiMode ≠ "chat_completions"
  · rw [if_pos hshape]
    exact ⟨nofun, fun h => (hshape.elim h.1.1 fun hm => hm h.1.2).elim⟩
  rw [if_neg hshape]
  by_cases hdefault : (provider.models.lookup default).getD 0 < 1
  · rw [if_pos hdefault]
    exact ⟨nofun, fun h => absurd hdefault (by omega)⟩
  rw [if_neg hdefault]
  by_cases hids : ∃ id ∈ provider.models.sortedKeys,
      trimSpace id = "" ∨ (provider.models.lookup id).getD 0 < 1
  · rw [if_pos hids]
    obtain ⟨id, hmem, hbad⟩ := hids
    refine ⟨nofun, fun h => ?_⟩
    have := h.2.2 id hmem
    exact (hbad.elim this.1 fun hlow => by omega).elim
  · rw [if_neg hids]
    push Not at hshape hids
    exact ⟨fun _ => ⟨hshape, by omega, hids⟩, fun _ => rfl⟩

variable {catalog : List CatalogEntryData} {models : FMap String Int}

/-- The models of a catalog, added to those there are: the names are those of the catalog, and the
context lengths are positive. -/
theorem catalogModels_from {had : FMap String Int} (h : catalog.foldlM addModel had = .ok models)
    (hhad : ∀ id n, had.lookup id = some n → 1 ≤ n) :
    (∀ id, id ∈ models ↔ id ∈ had ∨ ∃ e ∈ catalog, e.id = id) ∧
      ∀ id n, models.lookup id = some n → 1 ≤ n := by
  induction catalog generalizing had with
  | nil =>
    cases h
    exact ⟨by simp, hhad⟩
  | cons e rest ih =>
    obtain ⟨next, hnext, hrest⟩ := ok_of_bind h
    unfold addModel at hnext
    split at hnext
    · cases hnext
    rename_i hvalid
    push Not at hvalid
    cases hnext
    obtain ⟨hmem, hpos⟩ := ih hrest (fun id n hid => by
      by_cases he : id = e.id
      · rw [he, Finmap.lookup_insert] at hid
        exact Option.some.inj hid ▸ hvalid.2
      · rw [Finmap.lookup_insert_of_ne _ he] at hid
        exact hhad id n hid)
    refine ⟨fun id => ?_, hpos⟩
    rw [hmem, Finmap.mem_insert]
    simp only [List.mem_cons, exists_eq_or_imp, eq_comm (a := e.id)]
    tauto

theorem catalogModels_spec (h : catalogModels catalog = .ok models) :
    (∀ id, id ∈ models ↔ ∃ e ∈ catalog, e.id = id) ∧
      ∀ id ∈ models, 1 ≤ (models.lookup id).getD 0 := by
  obtain ⟨hmem, hpos⟩ := catalogModels_from h (by simp)
  refine ⟨fun id => (hmem id).trans (or_iff_right Finmap.notMem_empty), fun id hid => ?_⟩
  obtain ⟨n, hn⟩ := Finmap.mem_iff.mp hid
  rw [hn]
  exact hpos id n hn

/-- What has to hold between a configuration of an earlier release and the catalog. -/
def Listed (legacy : HermesConfigPayload) (catalog : List CatalogEntryData) : Prop :=
  (∃ e ∈ catalog, e.id = legacy.model.default) ∧ ∀ e ∈ catalog, trimSpace e.id ≠ ""

theorem validate_upgraded {legacy : HermesConfigPayload} (hdefault : legacy.model.default ≠ "")
    (hurl : legacy.model.baseURL ≠ "") (h : catalogModels catalog = .ok models) :
    validateHermesConfig (upgraded legacy models) = .ok () ↔ Listed legacy catalog := by
  obtain ⟨hmem, hpos⟩ := catalogModels_spec h
  have hfirst : validateHermesConfig (upgraded legacy models) =
      validateHermesProvider legacy.model.default
        ⟨"llm-proxy", legacy.model.baseURL, "chat_completions", models⟩ := by
    have hname : trimPrefix "custom:llm-proxy" "custom:" = "llm-proxy" := by decide +kernel
    have hprefix : hasPrefix "custom:llm-proxy" "custom:" = true := by decide +kernel
    simp [validateHermesConfig, HermesConfigPayload.providerName, upgraded, hdefault, hname,
      hprefix]
  rw [hfirst, validateHermesProvider_eq_ok]
  constructor
  · rintro ⟨-, hactive, hids⟩
    refine ⟨(hmem _).mp ?_, fun e he =>
      (hids e.id (FMap.mem_sortedKeys.mpr ((hmem _).mpr ⟨e, he, rfl⟩))).1⟩
    by_contra hmissing
    rw [Finmap.lookup_eq_none.mpr hmissing] at hactive
    exact absurd hactive (by decide)
  · rintro ⟨hactive, hids⟩
    refine ⟨⟨hurl, rfl⟩, hpos _ ((hmem _).mpr hactive), fun id hid => ?_⟩
    obtain ⟨e, he, rfl⟩ := (hmem id).mp (FMap.mem_sortedKeys.mp hid)
    exact ⟨hids e he, hpos _ (FMap.mem_sortedKeys.mp hid)⟩

/-- What a run of `fetchHermesConfig` gets from outside: how URLs are read, and the responses of
the configuration endpoint and of the catalog. -/
structure Served where
  url : String → Except Err String
  configuration : Except Err HttpReply
  catalog : Except Err HttpReply

namespace Served

variable (served : Served)

/-- The first request is for the configuration, the one after it for the catalog. -/
def answer (n : ℕ) : (op : HermesCall) → op.Answer × ℕ
  | .request url => (served.url url, n)
  | .send _ => (if n = 0 then served.configuration else served.catalog, n + 1)

/-- What `fetchHermesConfig` returns. -/
def fetched (proxyURL target : String) : Except Err (HermesConfigResponse × String) :=
  ((fetchHermesConfig proxyURL target).prog.eval served.answer 0).1

/-- The document in a response of status 200. -/
def document {α : Type} (decode : Json → Except String α) : Except Err HttpReply → Option α
  | .ok reply => if reply.statusCode = 200 then (reply.body.bind decode).toOption else none
  | .error _ => none

/-- A request that is answered. -/
def Exec (n : ℕ) (op : HermesCall) (r : op.Answer) (n' : ℕ) : Prop := served.answer n op = (r, n')

variable {served}

theorem ends_prepare {url sent : String} {n n' : ℕ}
    (h : (prepare url).prog.Ends served.Exec n (.ok sent) n') : n' = n := by
  obtain ⟨r, n₁, hr, h⟩ := h
  obtain ⟨-, rfl⟩ := Prod.mk.inj hr
  cases r with
  | error e => cases h.1
  | ok sent => exact h.2

theorem ends_fetchDocument {α : Type} {what url : String} {decode : Json → Except String α}
    {a : α} {n n' : ℕ}
    (h : (fetchDocument what decode url).prog.Ends served.Exec n (.ok a) n') :
    document decode (if n = 0 then served.configuration else served.catalog) = some a ∧
      n' = n + 1 := by
  obtain ⟨r, n₁, hr, h⟩ := h
  obtain ⟨rfl, rfl⟩ := Prod.mk.inj hr
  revert h
  generalize (if n = 0 then served.configuration else served.catalog) = r
  cases r with
  | error e => exact fun h => nomatch h.1
  | ok reply =>
    intro h
    by_cases hstatus : reply.statusCode = 200
    · rw [document, if_pos hstatus]
      simp only [hstatus, ne_eq, not_true_eq_false, if_false] at h
      cases hbody : reply.body.bind decode with
      | error e =>
        rw [hbody] at h
        cases h.1
      | ok b =>
        rw [hbody] at h
        obtain ⟨hb, rfl⟩ := h
        exact ⟨congrArg some (Except.ok.inj hb).symm, rfl⟩
    · simp only [ne_eq, hstatus, not_false_eq_true, if_true] at h
      cases h.1

theorem ends_upgrade {proxyURL : String} {legacy config : HermesConfigPayload} {n' : ℕ}
    (h : (upgradeLegacyHermesConfig proxyURL legacy).prog.Ends served.Exec 1 (.ok config) n') :
    legacy.model.default ≠ "" ∧ legacy.model.baseURL ≠ "" ∧
      ∃ catalog models, document decodeCatalog served.catalog = some catalog ∧
        catalogModels catalog = .ok models ∧ config = upgraded legacy models := by
  unfold upgradeLegacyHermesConfig at h
  split at h
  · cases h.1
  rename_i hlegacy
  push Not at hlegacy
  refine ⟨hlegacy.2.1, hlegacy.2.2, ?_⟩
  obtain ⟨endpoint, n₁, hprepare, h⟩ := Flow.ends_bind_ok.mp h
  obtain rfl := ends_prepare hprepare
  obtain ⟨catalog, n₂, hfetch, h⟩ := Flow.ends_bind_ok.mp h
  refine ⟨catalog, ?_⟩
  cases hmodels : catalogModels catalog with
  | error e =>
    rw [hmodels] at h
    cases h.1
  | ok models =>
    rw [hmodels] at h
    exact ⟨models, (ends_fetchDocument hfetch).1, rfl, Except.ok.inj h.1⟩

/-- A configuration comes from the endpoint itself, or is rebuilt from what it and the catalog
have. -/
theorem fetched_cases {proxyURL target endpoint : String} {remote : HermesConfigResponse}
    (h : served.fetched proxyURL target = .ok (remote, endpoint)) :
    ∃ first, document decodeHermesResponse served.configuration = some first ∧
      ((validateHermesConfig first.config = .ok () ∧ remote = first) ∨
        validateHermesConfig first.config ≠ .ok () ∧
          first.config.model.default ≠ "" ∧ first.config.model.baseURL ≠ "" ∧
          ∃ catalog models, document decodeCatalog served.catalog = some catalog ∧
            catalogModels catalog = .ok models ∧
            remote = { first with config := upgraded first.config models }) := by
  have hexec : ∀ n op, served.Exec n op (served.answer n op).1 (served.answer n op).2 :=
    fun _ _ => rfl
  have hrun := Prog.ends_eval hexec (fetchHermesConfig proxyURL target).prog 0
  rw [show ((fetchHermesConfig proxyURL target).prog.eval served.answer 0).1 = _ from h] at hrun
  obtain ⟨sent, n₁, hprepare, hrun⟩ := Flow.ends_bind_ok.mp hrun
  obtain rfl := ends_prepare hprepare
  obtain ⟨first, n₂, hfetch, hrun⟩ := Flow.ends_bind_ok.mp hrun
  obtain ⟨hfirst, rfl⟩ := ends_fetchDocument hfetch
  refine ⟨first, hfirst, ?_⟩
  cases hvalid : validateHermesConfig first.config with
  | ok _ =>
    rw [hvalid] at hrun
    exact .inl ⟨rfl, congrArg Prod.fst (Except.ok.inj hrun.1)⟩
  | error e =>
    rw [hvalid] at hrun
    obtain ⟨x, n₃, hupgrade, hrun⟩ := Flow.ends_bind_ok.mp hrun
    obtain ⟨y, n₄, hupgrade, hx, rfl⟩ := Prog.ends_bind.mp hupgrade
    obtain rfl := Except.ok.inj hx
    cases x with
    | error e' => cases hrun.1
    | ok config =>
      obtain ⟨hdefault, hurl, catalog, models, hcatalog, hmodels, rfl⟩ := ends_upgrade hupgrade
      exact .inr ⟨nofun, hdefault, hurl, catalog, models, hcatalog, hmodels,
        congrArg Prod.fst (Except.ok.inj hrun.1)⟩

/-- The two responses go together: a configuration that is not valid itself comes with a catalog
that has its default model, and no name of nothing but white space. -/
def Agrees (served : Served) : Prop :=
  ∀ first, document decodeHermesResponse served.configuration = some first →
    validateHermesConfig first.config ≠ .ok () →
      ∀ catalog, document decodeCatalog served.catalog = some catalog → Listed first.config catalog

/-- The configuration that `fetchHermesConfig` returns is valid just when the responses go
together: the one that is rebuilt is not looked at again. -/
theorem fetched_config_valid_iff (served : Served) {proxyURL target endpoint : String}
    {remote : HermesConfigResponse} (h : served.fetched proxyURL target = .ok (remote, endpoint)) :
    validateHermesConfig remote.config = .ok () ↔ served.Agrees := by
  obtain ⟨first, hfirst, hcase⟩ := fetched_cases h
  rcases hcase with ⟨hvalid, rfl⟩ | ⟨hinvalid, hdefault, hurl, catalog, models, hcatalog,
    hmodels, rfl⟩
  · refine ⟨fun _ first' hfirst' hinvalid => ?_, fun _ => hvalid⟩
    obtain rfl := Option.some.inj (hfirst.symm.trans hfirst')
    exact absurd hvalid hinvalid
  · rw [validate_upgraded hdefault hurl hmodels]
    constructor
    · intro hlisted first' hfirst' _ catalog' hcatalog'
      obtain rfl := Option.some.inj (hfirst.symm.trans hfirst')
      obtain rfl := Option.some.inj (hcatalog.symm.trans hcatalog')
      exact hlisted
    · intro hagrees
      exact hagrees first hfirst hinvalid catalog hcatalog

/-- A proxy of an earlier release. Its active model is `qwen3`; the catalog is given. -/
def legacyProxy (models : List (String × Int)) : Served where
  url := .ok
  configuration := .ok ⟨200, "200 OK", .ok (.obj
    [("object", .str "vllm-proxy.config"), ("target", .str "hermes"),
      ("config", .obj [("model", .obj [("default", .str "qwen3"), ("provider", .str "custom"),
        ("base_url", .str "http://llm-proxy/v1")])])])⟩
  catalog := .ok ⟨200, "200 OK", .ok (.obj [("data", .arr (models.map fun (id, n) =>
    .obj [("id", .str id), ("metadata", .obj [("context_length", .num n)])]))])⟩

theorem fetched_config_valid_listed :
    ∃ remote endpoint, (legacyProxy [("qwen3", 32768)]).fetched "http://llm-proxy" "hermes" =
        .ok (remote, endpoint) ∧
      (validateHermesConfig remote.config = .ok () ↔ (legacyProxy [("qwen3", 32768)]).Agrees) := by
  have hfetched : ∃ remote endpoint, (legacyProxy [("qwen3", 32768)]).fetched "http://llm-proxy"
      "hermes" = .ok (remote, endpoint) := ⟨_, _, rfl⟩
  obtain ⟨remote, endpoint, h⟩ := hfetched
  exact ⟨remote, endpoint, h, fetched_config_valid_iff _ h⟩

/-- The catalog has one model, and it is not the active one. -/
theorem unlisted_default_installed :
    ∃ remote endpoint, (legacyProxy [("gemma3", 8192)]).fetched "http://llm-proxy" "hermes" =
        .ok (remote, endpoint) ∧
      validateHermesConfig remote.config =
        .error (.other "active model must be present with a positive context_length") :=
  ⟨_, _, rfl, by decide +kernel⟩

end Served

end LlmOperator.Proxy
