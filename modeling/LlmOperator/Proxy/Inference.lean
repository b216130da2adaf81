import LlmOperator.Interaction.Sum
import LlmOperator.Proxy.Transition

/-!
# Inference requests

How the proxy serves a request (`inference`, `ensureActive`, `syncActiveDeployment`,
`reverseProxy`) and how it follows the cluster (`refresh` and the Deployment watches, which
both end in `syncActiveDeployment`).

What the proxy's goroutines share is read and written under `stateMu`, one section at a
time: the registry, the active model and its backend. Each section is one call here, and so is
the unlocked read of the backend URL. `coalescedOperatorTransition` is a call as well: to the
request it matters only whether it gave an error. Ranging over a map visits its entries in any
order.

A body is known by the text of its `model` field and by what an overlay makes of it. Metrics,
the capabilities that are discovered after a refresh, and the time since which a model is
active are left out.
-/

namespace LlmOperator.Proxy

open Api Data Interaction Controller

/-! ## The state of the proxy -/

structure ModelConfig where
  name : String
  backend : String
  backendRef : String
  deriving DecidableEq

structure OverlayConfig where
  name : String
  baseModel : String
  requestDefaults : String
  deriving DecidableEq

structure BackendConfig where
  name : String
  deployment : String
  container : String
  url : String
  deriving DecidableEq

structure Registry where
  models : FMap String ModelConfig
  overlays : FMap String OverlayConfig
  deriving DecidableEq

/-- The fields under `stateMu`. -/
structure ProxyState where
  registry : Registry
  active : String
  backend : String
  backendName : String
  deriving DecidableEq

/-- What is fixed when the proxy is built. -/
structure ProxyConfig (Body : Type) where
  deployment : String
  container : String
  backends : FMap String BackendConfig
  /-- `url.Parse`. -/
  parseURL : String → Except Err String
  /-- The field `model` of the body, if the body can be decoded. -/
  headerModel : Body → Option String
  applyOverlay : Body → OverlayConfig → Except Err Body

/-! ## Backends -/

section Backends

variable {Body : Type} (p : ProxyConfig Body)

/-- The backend of a model with a `backendRef`. -/
def refBackend (ref : String) : Except Err BackendConfig :=
  match p.parseURL ("http://" ++ ref ++ ":8000") with
  | .error e => .error (.wrap ("parse backendRef URL for " ++ GoString.quote ref) e)
  | .ok url => .ok ⟨ref, ref, "runtime", url⟩

/-- The original single backend, at the URL the proxy has now. -/
def singleBackend (backend : String) : BackendConfig := ⟨"vllm", p.deployment, p.container, backend⟩

/-- The backend of a model without a `backendRef`, by the name of its runtime. -/
def runtimeBackend (backend name : String) : Except Err BackendConfig :=
  match p.backends.lookup name with
  | some b => .ok b
  | none =>
    if name = "vllm" then .ok (singleBackend p backend)
    else .error (.other ("backend " ++ GoString.quote name ++ " is not configured"))

def backendFor (backend : String) (cfg : ModelConfig) : Except Err BackendConfig :=
  if cfg.backendRef ≠ "" then refBackend p cfg.backendRef
  else runtimeBackend p backend (if cfg.backend = "" then "vllm" else cfg.backend)

def addRef (backends : FMap String BackendConfig) (cfg : ModelConfig) : FMap String BackendConfig :=
  if cfg.backendRef = "" then backends
  else
    match refBackend p cfg.backendRef with
    | .ok b => backends.insert b.name b
    | .error _ => backends

/-- From the models of the registry, in the order they were visited in. -/
def registeredBackends (models : List ModelConfig) : FMap String BackendConfig :=
  if models.any fun cfg => cfg.backendRef ≠ "" then models.foldl (addRef p) ∅ else p.backends

/-- The checks of the locked section of `syncActiveDeployment`. -/
def checkActive (s : ProxyState) (model : String) (active : BackendConfig) : Option Err :=
  match s.registry.models.lookup model with
  | none => some (.other ("active model " ++ GoString.quote model ++ " is not configured"))
  | some cfg =>
    match backendFor p s.backend cfg with
    | .error e => some (.wrap ("resolve configured backend for " ++ GoString.quote model) e)
    | .ok configured =>
      if configured.name ≠ active.name then
        some (.other ("active backend " ++ GoString.quote active.name ++ " is annotated with " ++
          GoString.quote model ++ " configured for " ++ GoString.quote configured.name))
      else none

/-- The locked section as a whole, without the time since which the model is active. -/
def publishActive (s : ProxyState) (model : String) (active : BackendConfig) :
    Option Err × ProxyState :=
  match checkActive p s model active with
  | some e => (some e, s)
  | none => (none, { s with active := model, backend := active.url, backendName := active.name })

theorem lookup_addRef (m : FMap String BackendConfig) (cfg : ModelConfig) (name : String) :
    (addRef p m cfg).lookup name =
      if cfg.backendRef = name ∧ name ≠ "" then
        (refBackend p name).toOption.or (m.lookup name)
      else m.lookup name := by
  unfold addRef
  by_cases href : cfg.backendRef = ""
  · rw [if_pos href, if_neg]
    rintro ⟨rfl, hne⟩
    exact hne href
  · rw [if_neg href]
    by_cases hname : cfg.backendRef = name
    · subst hname
      rw [if_pos ⟨rfl, href⟩]
      unfold refBackend
      cases p.parseURL ("http://" ++ cfg.backendRef ++ ":8000") with
      | error e => rfl
      | ok url => exact Finmap.lookup_insert _
    · rw [if_neg fun h => hname h.1]
      unfold refBackend
      cases p.parseURL ("http://" ++ cfg.backendRef ++ ":8000") with
      | error e => rfl
      | ok url => exact Finmap.lookup_insert_of_ne _ (Ne.symm hname)

theorem lookup_foldl_addRef (models : List ModelConfig) (m : FMap String BackendConfig)
    (name : String) :
    (models.foldl (addRef p) m).lookup name =
      if ∃ cfg ∈ models, cfg.backendRef = name ∧ name ≠ "" then
        (refBackend p name).toOption.or (m.lookup name)
      else m.lookup name := by
  induction models generalizing m with
  | nil => simp
  | cons cfg models ih =>
    rw [List.foldl_cons, ih, lookup_addRef]
    simp only [List.mem_cons, exists_eq_or_imp]
    by_cases hcfg : cfg.backendRef = name ∧ name ≠ ""
    · rw [if_pos hcfg, if_pos (Or.inl hcfg)]
      split
      · cases (refBackend p name).toOption <;> rfl
      · rfl
    · rw [if_neg hcfg]
      exact if_congr (or_iff_right hcfg).symm rfl rfl

/-- The backends do not depend on the order in which the models are visited. -/
theorem registeredBackends_congr {models models' : List ModelConfig}
    (h : ∀ cfg, cfg ∈ models ↔ cfg ∈ models') :
    registeredBackends p models = registeredBackends p models' := by
  have hany : (models.any fun cfg => cfg.backendRef ≠ "") =
      models'.any fun cfg => cfg.backendRef ≠ "" := by
    rw [Bool.eq_iff_iff, List.any_eq_true, List.any_eq_true]
    simp only [h]
  unfold registeredBackends
  rw [hany]
  split
  · refine Finmap.ext_lookup fun name => ?_
    rw [lookup_foldl_addRef, lookup_foldl_addRef]
    simp only [h]
  · rfl

end Backends

/-! ## The calls -/

inductive MemoryCall where
  /-- `p.overlay`. -/
  | overlay (name : String)
  /-- The configuration of a model. -/
  | model (name : String)
  | coalescedOperatorTransition (modelName : String)
  /-- The models of the registry. -/
  | models
  /-- Ranging over the backends. -/
  | range (backends : FMap String BackendConfig)
  /-- `p.backend`, read without the lock. -/
  | backendURL
  | publishActive (model : String) (active : BackendConfig)
  | active
  | anySwitchInFlight
  /-- `p.backend`, read by `reverseProxy` for the request that is then served. -/
  | reverseProxy
  /-- The registry built from what the API server lists. -/
  | loadRegistry
  | setRegistry (next : Registry)

@[reducible] def MemoryCall.Answer : MemoryCall → Type
  | overlay _ => Option OverlayConfig
  | model _ => Option ModelConfig
  | coalescedOperatorTransition _ => Option Err
  | models => List ModelConfig
  | range _ => List BackendConfig
  | backendURL => String
  | publishActive _ _ => Option Err
  | active => String
  | anySwitchInFlight => Bool
  | reverseProxy => String
  | loadRegistry => Except Err Registry
  | setRegistry _ => Unit

abbrev Memory : Sig := ⟨MemoryCall, MemoryCall.Answer⟩

/-- The calls of a goroutine: to the API server and to the shared state. -/
abbrev Serving : Sig := ProxyApi.sum Memory

def memory (c : MemoryCall) : Prog Serving c.Answer := Prog.perform (S := Serving) (.inr c)

def api (c : ProxyCall) : Prog Serving c.Answer := Prog.perform (S := Serving) (.inl c)

/-! ## The programs -/

/-- A Deployment counts as active when it asks for one replica, or for no number. -/
def isActive (d : Deployment) : Bool := d.spec.replicas = none || d.spec.replicas = some 1

/-- What the Deployment of a backend adds to what was found before: the active backend, with the
model of its annotation. -/
def lookAt (backend : BackendConfig) (found : Option (BackendConfig × String)) (d : Deployment) :
    Except Err (Option (BackendConfig × String)) :=
  if isActive d then
    if found.isSome then .error (.other "multiple LLM backends are active")
    else if annotation d.spec.template.annotations activeModelAnno = "" then
      .error (.other ("active " ++ backend.name ++ " backend has no model annotation"))
    else .ok (some (backend, annotation d.spec.template.annotations activeModelAnno))
  else .ok found

/-- The loop over the backends. -/
def findActive : List BackendConfig → Option (BackendConfig × String) →
    Prog Serving (Except Err (Option (BackendConfig × String)))
  | [], found => return .ok found
  | backend :: rest, found => do
    match ← api (.getDeployment backend.deployment) with
    | .error e => return .error (.wrap ("get " ++ backend.name ++ " backend Deployment") e)
    | .ok d =>
      match lookAt backend found d with
      | .error e => return .error e
      | .ok found => findActive rest found

section Programs

variable {Body : Type} (p : ProxyConfig Body)

/-- The backends to look at, in the order in which they are looked at. -/
def rangeBackends (backends : FMap String BackendConfig) : Prog Serving (List BackendConfig) :=
  if backends = ∅ then do return [singleBackend p (← memory .backendURL)]
  else memory (.range backends)

def syncActiveDeployment : Prog Serving (Option Err) := do
  let models ← memory .models
  let backends ← rangeBackends p (registeredBackends p models)
  match ← findActive backends none with
  | .error e => return some e
  | .ok none => return none
  | .ok (some (backend, model)) => memory (.publishActive model backend)

def unknownModel (requested : String) : Err := .other ("unknown model " ++ GoString.quote requested)

def ensureActive (requested : String) : Prog Serving (Option Err) := do
  match ← memory (.model requested) with
  | none => return some (unknownModel requested)
  | some cfg =>
    match ← operatorTransitionState.inl Memory with
    | .error e => return some e
    | .ok state =>
      if state.statusModel = cfg.name ∧ state.phase = .stable then syncActiveDeployment p
      else
        match ← memory (.coalescedOperatorTransition cfg.name) with
        | some e => return some e
        | none => syncActiveDeployment p

/-- What a client is answered: what the backend at an URL makes of the request, or an error. -/
inductive Response (Body : Type) where
  | forwarded (url : String) (body : Option Body)
  | error (status : Nat) (type message : String) (retryAfter : Option Nat)

def errBackendUnavailable : Err := .other "no active vLLM backend"

def respondTransitionError (e : Err) : Response Body :=
  if GoString.hasPrefix e.error "unknown model" then .error 404 "model_not_found" e.error none
  else if e.is errDeploymentMutationsDisabled then .error 409 "server_error" e.error none
  else if e.is errBackendUnavailable then .error 503 "server_error" e.error (some 15)
  else if e.is .deadlineExceeded then .error 503 "server_error" e.error (some 30)
  else .error 502 "api_error" e.error none

/-- `reverseProxy().ServeHTTP`. -/
def forward (body : Option Body) : Prog Serving (Response Body) := do
  return .forwarded (← memory .reverseProxy) body

def isAvailable : Prog Serving Bool := do
  let active : String ← memory .active
  if active = "" then return false
  else
    let inFlight : Bool ← memory .anySwitchInFlight
    return !inFlight

/-- The part of `inference` after the requested model is known. -/
def serve (requested : String) (body : Option Body) : Prog Serving (Response Body) := do
  if requested ≠ "" then
    match ← ensureActive p requested with
    | some e => return respondTransitionError e
    | none => forward body
  else if ← isAvailable then forward body
  else return respondTransitionError errBackendUnavailable

/-- A request; the body is missing when it is too large. -/
structure Request (Body : Type) where
  method : String
  path : String
  body : Option Body

def invalidRequest (status : Nat) (message : String) : Response Body :=
  .error status "invalid_request_error" message none

def inference (r : Request Body) : Prog Serving (Response Body) :=
  if r.method = "GET" ∨ r.method = "DELETE" then serve p "" r.body
  else
    match r.body with
    | none => return invalidRequest 413 "Request body is too large."
    | some body => do
      let requested := (p.headerModel body).getD ""
      match ← memory (.overlay requested) with
      | none => serve p requested (some body)
      | some overlay =>
        if r.method ≠ "POST" ∨ r.path ≠ "/v1/chat/completions" then
          return invalidRequest 400
            "model overlays are supported only by POST /v1/chat/completions"
        else
          match p.applyOverlay body overlay with
          | .error e => return invalidRequest 400 e.error
          | .ok body => serve p overlay.baseModel (some body)

/-- A new registry is in force before the active Deployment is looked at. -/
def refresh : Prog Serving (Option Err) := do
  match ← memory .loadRegistry with
  | .error e => return some e
  | .ok next =>
    memory (.setRegistry next)
    syncActiveDeployment p

end Programs

end LlmOperator.Proxy
