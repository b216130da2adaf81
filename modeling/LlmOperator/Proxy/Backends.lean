import LlmOperator.Controller.ActiveModel
import LlmOperator.Proxy.Catalog

/-!
# The backend of a model, for the operator and for the proxy

The operator finds the LLMBackend of a model (`findBackend`) and uses the names and the port it
declares. The proxy derives a Deployment and an URL from the model alone, or from its own
configuration, and watches the backends of `registeredBackends`. `backends_agree_iff` says for
which namespaces, and for which of their models, both mean the same workload.
-/

namespace LlmOperator.Proxy

open Api Backend Controller Data Data.GoString Interaction

/-! ## URLs -/

/-- The characters of the URLs that name a service and a port. -/
def isURLChar (c : Char) : Bool :=
  ('a' ≤ c && c ≤ 'z') || ('A' ≤ c && c ≤ 'Z') || ('0' ≤ c && c ≤ '9') ||
    c == '-' || c == '.' || c == '_' || c == ':' || c == '/'

/-- `url.Parse`, by the text of the URL it gives, for URLs without user, query or escapes; any
other text is refused. -/
def parseURL (text : String) : Except Err String :=
  if text.toList.all isURLChar then .ok text
  else .error (.other ("parse " ++ quote text ++ ": invalid character in URL"))

/-- From the end of an authority: the port behind the last colon, and the host before it. -/
def splitPort : List Char → List Char × Option (List Char)
  | [] => ([], none)
  | c :: cs =>
    if c = ':' then ([], some cs.reverse) else ((splitPort cs).1 ++ [c], (splitPort cs).2)

/-- The host and the port of an `http` URL. -/
def hostPort (url : String) : Option (String × Nat) :=
  let authority := (url.toList.drop "http://".length).takeWhile (· ≠ '/')
  match splitPort authority.reverse with
  | (_, none) => some (String.ofList authority, 80)
  | (port, some host) => (parseDigits 0 port).map fun n => (String.ofList host, n)

example : hostPort "http://llm-vllm:8000/" = some ("llm-vllm", 8000) := by decide +kernel

/-- A name that the API server accepts for an object. -/
def IsObjectName (name : String) : Prop :=
  name ≠ "" ∧ name.toList.all fun c =>
    ('a' ≤ c && c ≤ 'z') || ('0' ≤ c && c ≤ '9') || c == '-' || c == '.'

instance (name : String) : Decidable (IsObjectName name) := by
  unfold IsObjectName
  infer_instance

theorem IsObjectName.urlChars {name : String} (h : IsObjectName name) :
    name.toList.all isURLChar = true := by
  rw [List.all_eq_true]
  intro c hc
  have := List.all_eq_true.mp h.2 c hc
  simp only [Bool.or_eq_true] at this
  unfold isURLChar
  rcases this with ((h | h) | h) | h <;> simp [h]

theorem IsObjectName.no_slash {name : String} (h : IsObjectName name) : '/' ∉ name.toList := by
  intro hc
  have := List.all_eq_true.mp h.2 '/' hc
  exact absurd this (by decide)

variable {ref : String}

/-- The URL the proxy makes of a reference parses, to the reference as the host. -/
theorem parseURL_ref (h : IsObjectName ref) :
    parseURL ("http://" ++ ref ++ ":8000") = .ok ("http://" ++ ref ++ ":8000") := by
  refine if_pos ?_
  rw [String.toList_append, String.toList_append, List.all_append, List.all_append, h.urlChars]
  decide +kernel

theorem hostPort_ref (h : IsObjectName ref) :
    hostPort ("http://" ++ ref ++ ":8000") = some (ref, 8000) := by
  have hauthority : ((("http://" ++ ref ++ ":8000").toList.drop "http://".length).takeWhile
      (· ≠ '/')) = ref.toList ++ [':', '8', '0', '0', '0'] := by
    rw [String.toList_append, String.toList_append, List.append_assoc,
      show "http://".length = "http://".toList.length from rfl, List.drop_left,
      List.takeWhile_append_of_pos]
    · rfl
    · intro c hc
      have : c ≠ '/' := fun h' => h.no_slash (h' ▸ hc)
      simpa using this
  have hsplit : splitPort (ref.toList ++ [':', '8', '0', '0', '0']).reverse =
      (['8', '0', '0', '0'], some ref.toList) := by
    simp [splitPort]
  unfold hostPort
  simp only [hauthority, hsplit, String.ofList_toList]
  rfl

/-! ## Namespaces -/

/-- An LLMModel object as it is stored, and as the controllers decode it. -/
structure StoredModel where
  object : Json
  model : LLMModel
  spec : decodeModelSpec object = .ok model.spec

/-- The models and the backends of a namespace. -/
structure Namespace where
  models : List StoredModel
  backends : List LLMBackend
  names : ∀ b ∈ backends, IsObjectName b.name

/-- The validating webhook's `validate`. -/
def Namespace.admitModel (ns : Namespace) (model : LLMModel) : Except Err Unit := do
  let driver ← driverFor model.spec.serving.backend
  driver.validate model
  match ns.models.find? fun existing => existing.model.name ≠ model.name ∧
      existing.model.spec.model.name = model.spec.model.name with
  | some existing => throw (.other ("canonical model name " ++ quote model.spec.model.name ++
      " is already owned by LLMModel " ++ quote existing.model.name))
  | none => pure ()
  match model.spec.backendRef with
  | none => return
  | some ref =>
    match ns.backends.find? fun b => b.name == ref with
    | none => throw (.other ("referenced backend " ++ quote ref ++ " does not exist"))
    | some target =>
      if target.spec.type ≠ model.spec.serving.backend then
        throw (.other ("referenced backend " ++ quote target.name ++ " has type " ++
          quote target.spec.type.text ++ ", want " ++ quote model.spec.serving.backend.text))

/-- How the API cache answers from a namespace: a list comes in any order. -/
def Namespace.Answers (ns : Namespace) : Event Kube → Prop
  | ⟨.getBackend name, .ok b⟩ => b ∈ ns.backends ∧ b.name = name
  | ⟨.listBackends, .ok items⟩ => items.Perm ns.backends
  | _ => True

/-- The operator may find `b` for the model. -/
def Namespace.Finds (ns : Namespace) (model : LLMModel) (b : LLMBackend) : Prop :=
  ∃ t, (findBackendOf model).Runs t (.ok b) ∧ ∀ e ∈ t, ns.Answers e

variable {ns : Namespace}

theorem Namespace.finds_ref {model : LLMModel} {b : LLMBackend}
    (hr : model.spec.backendRef = some ref) :
    ns.Finds model b ↔ b ∈ ns.backends ∧ b.name = ref := by
  unfold Finds findBackendOf
  rw [hr]
  constructor
  · rintro ⟨t, ht, hans⟩
    obtain ⟨r, u, rfl, hu⟩ := Prog.runs_call ht
    obtain ⟨-, hr⟩ := Prog.runs_pure hu
    have := hans ⟨.getBackend ref, r⟩ List.mem_cons_self
    rw [hr] at this
    exact this
  · intro h
    refine ⟨[⟨.getBackend ref, .ok b⟩], .cons (.nil _), ?_⟩
    intro e he
    rw [List.mem_singleton] at he
    exact he ▸ h

/-- Without a reference any backend of the right type may come first. -/
theorem Namespace.finds_type {model : LLMModel} {b : LLMBackend}
    (hr : model.spec.backendRef = none) :
    ns.Finds model b ↔ b ∈ ns.backends ∧ b.spec.type = model.spec.serving.backend := by
  unfold Finds findBackendOf
  rw [hr]
  constructor
  · rintro ⟨t, ht, hans⟩
    obtain ⟨items, rfl, hf⟩ := runs_findBackend_type.mp ht
    have hperm : items.Perm ns.backends := hans ⟨.listBackends, .ok items⟩ List.mem_cons_self
    exact ⟨hperm.mem_iff.mp (List.mem_of_find?_eq_some hf), by simpa using List.find?_some hf⟩
  · rintro ⟨hb, htype⟩
    have hfirst : backendOfType (b :: ns.backends.erase b) model.spec.serving.backend = some b :=
      List.find?_cons_of_pos (by simpa using htype)
    refine ⟨_, runs_findBackend_type.mpr ⟨_, rfl, hfirst⟩, ?_⟩
    intro e he
    rw [List.mem_singleton] at he
    subst he
    exact (List.perm_cons_erase hb).symm

/-! ## Agreement -/

/-- The part of the proxy's configuration that `main` fixes: the static backends are known by the
names of their runtimes. -/
structure BuiltByMain {Body : Type} (p : ProxyConfig Body) : Prop where
  parse : p.parseURL = parseURL
  vllm : ∃ b, p.backends.lookup "vllm" = some b ∧ b.name = "vllm"
  llama : ∃ b, p.backends.lookup "llama-cpp" = some b ∧ b.name = "llama-cpp"

/-- The proxy's backend has the Deployment, and the host and port of the Service, of `b`. -/
def SameWorkload (backend : BackendConfig) (b : LLMBackend) : Prop :=
  backend.deployment = backendDeploymentName b ∧
    hostPort backend.url = some (backendServiceName b, backendPort b)

/-- The proxy watches a backend for the model, and it is the one the operator activates. -/
def BackendsAgree {Body : Type} (p : ProxyConfig Body) (ns : Namespace) (url : String)
    (registry : List ModelConfig) (model : LLMModel) (cfg : ModelConfig) : Prop :=
  ∃ backend, backendFor p url cfg = .ok backend ∧
    (registeredBackends p registry).lookup backend.name = some backend ∧
    ∀ b, ns.Finds model b → SameWorkload backend b

/-- A static backend is registered when no model has a `backendRef`, or when it is what the
reference of its own name gives. -/
def StaticRegistered {Body : Type} (p : ProxyConfig Body) (registry : List ModelConfig)
    (static : BackendConfig) : Prop :=
  (∀ cfg ∈ registry, cfg.backendRef = "") ∨
    refBackend p static.name = .ok static ∧ ∃ cfg ∈ registry, cfg.backendRef = static.name

/-- A model with a `backendRef` needs an LLMBackend that gives its Deployment and its Service its
own name and serves on port 8000. A model without one needs a static backend that is registered
beside the references of the other models, and that has the names and the port of every LLMBackend
of its runtime. -/
def Aligned {Body : Type} (p : ProxyConfig Body) (ns : Namespace) (registry : List ModelConfig)
    (model : LLMModel) : Prop :=
  match model.spec.backendRef with
  | some ref => ∀ b ∈ ns.backends, b.name = ref →
      backendDeploymentName b = ref ∧ backendServiceName b = ref ∧ backendPort b = 8000
  | none => ∀ static ∈ p.backends.lookup model.spec.serving.backend.text,
      StaticRegistered p registry static ∧
        ∀ b ∈ ns.backends, b.spec.type = model.spec.serving.backend → SameWorkload static b

section Agreement

variable {Body : Type} {p : ProxyConfig Body} {registry : List ModelConfig} {cfg : ModelConfig}

/-- The backend of a reference is registered once some model has the reference. -/
theorem registeredBackends_ref {backend : BackendConfig}
    (href : refBackend p cfg.backendRef = .ok backend) (hne : cfg.backendRef ≠ "")
    (hcfg : cfg ∈ registry) :
    (registeredBackends p registry).lookup cfg.backendRef = some backend := by
  unfold registeredBackends
  rw [if_pos (List.any_eq_true.mpr ⟨cfg, hcfg, by simpa using hne⟩), lookup_foldl_addRef,
    if_pos ⟨cfg, hcfg, rfl, hne⟩, href]
  rfl

theorem lookup_registeredBackends_iff (registry : List ModelConfig) {static : BackendConfig}
    (hstatic : p.backends.lookup static.name = some static) (hne : static.name ≠ "") :
    (registeredBackends p registry).lookup static.name = some static ↔
      StaticRegistered p registry static := by
  unfold registeredBackends StaticRegistered
  by_cases hany : ∃ cfg ∈ registry, cfg.backendRef ≠ ""
  · have hnone : ¬ ∀ cfg ∈ registry, cfg.backendRef = "" := by
      rintro h
      obtain ⟨cfg, hcfg, hr⟩ := hany
      exact hr (h cfg hcfg)
    rw [if_pos (by simpa using hany), lookup_foldl_addRef, or_iff_right hnone]
    simp only [hne, ne_eq, not_false_eq_true, and_true]
    constructor
    · intro h
      split at h
      · rename_i hcfg
        refine ⟨?_, hcfg⟩
        cases hr : refBackend p static.name with
        | error e => rw [hr] at h; cases h
        | ok backend =>
          rw [hr] at h
          exact congrArg Except.ok (Option.some.inj h)
      · cases h
    · rintro ⟨href, hcfg⟩
      rw [if_pos hcfg, href]
      rfl
  · rw [if_neg (by simpa using hany)]
    refine iff_of_true hstatic (.inl ?_)
    intro cfg hcfg
    by_contra hr
    exact hany ⟨cfg, hcfg, hr⟩

/-- An admitted reference is that of a backend. -/
theorem exists_backend_of_admitModel {model : LLMModel} (h : ns.admitModel model = .ok ())
    (href : model.spec.backendRef = some ref) : ∃ b ∈ ns.backends, b.name = ref := by
  unfold Namespace.admitModel at h
  obtain ⟨driver, -, h⟩ := ok_of_bind h
  obtain ⟨-, -, h⟩ := ok_of_bind h
  rw [href] at h
  cases hb : ns.backends.find? fun b => b.name == ref with
  | some b => exact ⟨b, List.mem_of_find?_eq_some hb, by simpa using List.find?_some hb⟩
  | none =>
    simp only [hb] at h
    split at h
    · cases h
    · cases h

theorem agree_iff_of_ref (hp : BuiltByMain p) {url : String} {model : LLMModel}
    (hcfg : cfg ∈ registry) (href : model.spec.backendRef = some ref) (hr : cfg.backendRef = ref)
    (hexists : ∃ b ∈ ns.backends, b.name = ref) :
    BackendsAgree p ns url registry model cfg ↔ Aligned p ns registry model := by
  have hname : IsObjectName ref := by
    obtain ⟨b, hb, rfl⟩ := hexists
    exact ns.names b hb
  subst hr
  have hbackend : refBackend p cfg.backendRef = .ok ⟨cfg.backendRef, cfg.backendRef, "runtime",
      "http://" ++ cfg.backendRef ++ ":8000"⟩ := by
    unfold refBackend
    rw [hp.parse, parseURL_ref hname]
  have hfor : backendFor p url cfg = refBackend p cfg.backendRef := if_pos hname.1
  have hreg := registeredBackends_ref hbackend hname.1 hcfg
  have hsame : ∀ b, SameWorkload ⟨cfg.backendRef, cfg.backendRef, "runtime",
      "http://" ++ cfg.backendRef ++ ":8000"⟩ b ↔ backendDeploymentName b = cfg.backendRef ∧
        backendServiceName b = cfg.backendRef ∧ backendPort b = 8000 := by
    intro b
    unfold SameWorkload
    rw [hostPort_ref hname, Option.some.injEq, Prod.mk.injEq]
    exact ⟨fun h => ⟨h.1.symm, h.2.1.symm, h.2.2.symm⟩, fun h => ⟨h.1.symm, h.2.1.symm, h.2.2.symm⟩⟩
  unfold BackendsAgree Aligned
  rw [href, hfor, hbackend]
  simp only [Namespace.finds_ref href]
  constructor
  · rintro ⟨backend, heq, -, h⟩ b hb hbn
    cases heq
    exact (hsame b).mp (h b ⟨hb, hbn⟩)
  · intro h
    exact ⟨_, rfl, hreg, fun b hb => (hsame b).mpr (h b hb.1 hb.2)⟩

theorem agree_iff_of_runtime (hp : BuiltByMain p) {url : String} {model : LLMModel}
    (href : model.spec.backendRef = none) (hr : cfg.backendRef = "")
    (hbackend : cfg.backend = model.spec.serving.backend.text)
    (hknown : cfg.backend = "vllm" ∨ cfg.backend = "llama-cpp") :
    BackendsAgree p ns url registry model cfg ↔ Aligned p ns registry model := by
  have hstatic : ∃ static, p.backends.lookup cfg.backend = some static ∧
      static.name = cfg.backend := by
    rcases hknown with h | h
    · rw [h]
      exact hp.vllm
    · rw [h]
      exact hp.llama
  have hne : cfg.backend ≠ "" := by
    rcases hknown with h | h <;> rw [h] <;> decide
  obtain ⟨static, hstatic, hsname⟩ := hstatic
  have hfor : backendFor p url cfg = .ok static := by
    unfold backendFor
    rw [if_neg (not_not.mpr hr), if_neg hne, runtimeBackend, hstatic]
  have hlookup := lookup_registeredBackends_iff registry (hsname.symm ▸ hstatic)
    (hsname.symm ▸ hne)
  unfold BackendsAgree Aligned
  rw [href, hfor, ← hbackend]
  simp only [Namespace.finds_type href, hstatic, Option.mem_def, Option.some.injEq, forall_eq',
    Except.ok.injEq, exists_eq_left', hlookup]
  exact and_congr_right fun _ => ⟨fun h b hb ht => h b ⟨hb, ht⟩, fun h b hb => h b hb.1 hb.2⟩

/-- For every model that both components accept, the proxy watches and routes to the workload that
the operator activates exactly when the two are aligned. -/
theorem backends_agree_iff (p : ProxyConfig Body) (hp : BuiltByMain p)
    (parseQuantity : String → Except Err Int) (ns : Namespace) (stored : StoredModel)
    (hstored : stored ∈ ns.models) (hadmitted : ns.admitModel stored.model = .ok ())
    (models : FMap String CatalogModel)
    (hload : loadModels parseQuantity (ns.models.map StoredModel.object) = .ok models)
    (registry : List ModelConfig)
    (hregistry : ∀ cfg, cfg ∈ registry ↔ ∃ name m, models.lookup name = some m ∧
      m.toModelConfig = cfg) (url : String) (cfg : CatalogModel)
    (hcfg : models.lookup stored.model.spec.model.name = some cfg) :
    BackendsAgree p ns url registry stored.model cfg.toModelConfig ↔
      Aligned p ns registry stored.model := by
  obtain ⟨parsed, hparse, hlookup⟩ := lookup_loadModels hload
    (List.mem_map.mpr ⟨stored, hstored, rfl⟩)
  have hparsed := parsed_of_parseLLMModel hparse
  have hsame := sameModel (decoded_of_decodeModelSpec stored.spec) hparsed
  -- The registry holds the object's own configuration under the name of its model.
  have hown : parsed = cfg := by
    rw [hsame.name, hcfg] at hlookup
    exact (Option.some.inj hlookup).symm
  subst hown
  have hmem : parsed.toModelConfig ∈ registry := (hregistry _).mpr ⟨_, parsed, hcfg, rfl⟩
  cases href : stored.model.spec.backendRef with
  | some ref =>
    refine agree_iff_of_ref hp hmem href ?_ (exists_backend_of_admitModel hadmitted href)
    rw [hsame.backendRef, href]
    rfl
  | none =>
    refine agree_iff_of_runtime hp href ?_ hsame.backend (parseBackend_ok hparsed.backend).2
    rw [hsame.backendRef, href]
    rfl

/-- The registry in the order of its names. -/
theorem mem_values_toModelConfig (models : FMap String CatalogModel) (cfg : ModelConfig) :
    cfg ∈ models.values.map CatalogModel.toModelConfig ↔
      ∃ name m, models.lookup name = some m ∧ m.toModelConfig = cfg := by
  rw [List.mem_map]
  simp only [(FMap.ranges_values models).mem_iff]
  constructor
  · rintro ⟨m, ⟨name, hm⟩, hcfg⟩
    exact ⟨name, m, hm, hcfg⟩
  · rintro ⟨name, m, hm, hcfg⟩
    exact ⟨m, ⟨name, hm⟩, hcfg⟩

end Agreement

/-! ## A mixed registry -/

namespace MixedRegistry

def proxy : ProxyConfig Unit where
  deployment := "llm-vllm"
  container := "vllm"
  backends := (Finmap.singleton "vllm" ⟨"vllm", "llm-vllm", "vllm", "http://llm-vllm:8000"⟩).insert
    "llama-cpp" ⟨"llama-cpp", "llm-laguna", "laguna", "http://llm-laguna:8000"⟩
  parseURL := parseURL
  headerModel _ := none
  applyOverlay body _ := .ok body

theorem builtByMain : BuiltByMain proxy where
  parse := rfl
  vllm := ⟨⟨"vllm", "llm-vllm", "vllm", "http://llm-vllm:8000"⟩, by decide +kernel, rfl⟩
  llama := ⟨⟨"llama-cpp", "llm-laguna", "laguna", "http://llm-laguna:8000"⟩, by decide +kernel, rfl⟩

/-- The object of a model without artifact. -/
def object (name backend : String) (more : List (String × Json)) : Json :=
  .obj [("metadata", .obj [("name", .str name)]),
    ("spec", .obj ([("model", .obj [("name", .str name), ("source", .str ("org/" ++ name))]),
      ("serving", .obj [("backend", .str backend), ("displayName", .str name),
        ("maxModelLen", .num 4096), ("args", .arr [.str "--verbose"])])] ++ more))]

def model (name : String) (backend : BackendType) (backendRef : Option String) : LLMModel where
  name := name
  generation := 1
  resourceVersion := 1
  spec :=
    { model := ⟨name, "org/" ++ name, "", ""⟩
      artifact := none
      serving := ⟨backend, "", "", none, ["--verbose"]⟩
      backendRef := backendRef }
  status := ⟨.ready, false, none, none, [], 1⟩

/-- A model of the generic vLLM runtime. -/
def base : StoredModel := ⟨object "base" "vllm" [], model "base" .vllm none, by decide +kernel⟩

/-- A model with a runtime of its own. -/
def muse : StoredModel :=
  ⟨object "muse" "llama-cpp" [("backendRef", .obj [("name", .str "llm-muse")])],
    model "muse" .llamaCpp (some "llm-muse"), by decide +kernel⟩

/-- A backend by complete references, on port 8000. -/
def backend (name : String) (type : BackendType) : LLMBackend where
  objectMeta := .named name
  spec :=
    { LLMBackendSpec.zero with
      type := type
      deploymentRef := name
      containerName := "runtime"
      serviceRef := name
      port := 8000 }
  status := .zero

def namespaceOf (models : List StoredModel) : Namespace where
  models := models
  backends := [backend "llm-vllm" .vllm, backend "llm-muse" .llamaCpp]
  names := by decide +kernel

/-- What the proxy loads. No model declares a size, so no quantity is parsed. -/
def loaded (models : List StoredModel) : FMap String CatalogModel :=
  (loadModels (fun _ => .ok 1) (models.map StoredModel.object)).toOption.getD ∅

def baseConfig : CatalogModel where
  name := "base"
  backend := "vllm"
  backendRef := ""
  modelSource := "org/base"
  displayName := "base"
  maxModelLen := 4096
  args := ["--verbose"]
  source := "crd/base"
  cache := ⟨"", "", "", 0, [], ""⟩

end MixedRegistry

section Demonstration

open MixedRegistry

/-- A namespace in which the two agree: the only model has no reference. -/
theorem backends_agree_alone :
    BackendsAgree proxy (namespaceOf [base]) "http://llm-vllm:8000"
        ((loaded [base]).values.map CatalogModel.toModelConfig) base.model
        baseConfig.toModelConfig ↔
      Aligned proxy (namespaceOf [base])
        ((loaded [base]).values.map CatalogModel.toModelConfig) base.model :=
  backends_agree_iff proxy builtByMain (fun _ => .ok 1) (namespaceOf [base]) base
    List.mem_cons_self (by decide +kernel) (loaded [base]) (by decide +kernel) _
    (mem_values_toModelConfig _) "http://llm-vllm:8000" baseConfig (by decide +kernel)

/-- One model with a `backendRef` takes the backend of the others out of the registry, although
every name and port is the one the operator uses. -/
theorem mixed_registry_drops_backend :
    (namespaceOf [base, muse]).admitModel base.model = .ok () ∧
      (namespaceOf [base, muse]).admitModel muse.model = .ok () ∧
      loadModels (fun _ => .ok 1) [base.object, muse.object] = .ok (loaded [base, muse]) ∧
      (loaded [base, muse]).lookup "base" = some baseConfig ∧
      ¬ BackendsAgree proxy (namespaceOf [base, muse]) "http://llm-vllm:8000"
        ((loaded [base, muse]).values.map CatalogModel.toModelConfig) base.model
        baseConfig.toModelConfig := by
  refine ⟨by decide +kernel, by decide +kernel, by decide +kernel, by decide +kernel, ?_⟩
  rintro ⟨found, hfound, hregistered, -⟩
  have hstatic : backendFor proxy "http://llm-vllm:8000" baseConfig.toModelConfig =
      .ok ⟨"vllm", "llm-vllm", "vllm", "http://llm-vllm:8000"⟩ := by decide +kernel
  have hgone : (registeredBackends proxy
      ((loaded [base, muse]).values.map CatalogModel.toModelConfig)).lookup "vllm" = none := by
    decide +kernel
  rw [hstatic] at hfound
  cases hfound
  rw [hgone] at hregistered
  cases hregistered

end Demonstration

end LlmOperator.Proxy
