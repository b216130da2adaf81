import LlmOperator.Controller.ActiveStore
import Mathlib.Algebra.Order.BigOperators.Group.List
import Mathlib.Algebra.Order.Ring.Nat

/-!
# The namespace

The objects of one namespace as the API server holds them, what the calls of the
active-model controller answer and do there, and what others do.

Reads show the current state. Any call may fail; a write may be carried out although it is
reported as failed. A status update is refused unless it was made from the stored version.
There is one `LLMActiveModel`; a listing may show others, created later, which own nothing.
-/

namespace LlmOperator.Controller

open Api Interaction

structure Cluster where
  active : ActiveStore
  models : List LLMModel
  backends : List LLMBackend
  deployments : List Deployment

variable (s : Cluster)

namespace Cluster

/-! ## Deployments -/

def deployment (s : Cluster) (name : String) : Option Deployment :=
  s.deployments.find? fun d => d.name == name

/-- The patch applied to the Deployment of that name. -/
def patched (s : Cluster) (name : String) (p : DeploymentPatch) : Cluster :=
  { s with deployments := s.deployments.map fun d => if d.name = name then p.apply d else d }

theorem deployment_name {s : Cluster} {name : String} {d : Deployment}
    (h : s.deployment name = some d) : d.name = name := by
  simpa using List.find?_some h

theorem find?_map_patched (ds : List Deployment) (name other : String) (p : DeploymentPatch) :
    (ds.map fun d => if d.name = name then p.apply d else d).find? (fun d => d.name == other) =
      (ds.find? fun d => d.name == other).map fun d => if d.name = name then p.apply d else d := by
  rw [List.find?_map]
  congr 2
  funext d
  simp only [Function.comp_apply]
  split <;> rfl

@[simp] theorem deployment_patched_self (name : String) (p : DeploymentPatch) :
    (s.patched name p).deployment name = (s.deployment name).map p.apply := by
  rw [deployment, patched, find?_map_patched, deployment]
  cases h : s.deployments.find? (fun d => d.name == name) with
  | none => rfl
  | some d =>
    have hd : d.name = name := deployment_name (s := s) h
    simp [hd]

theorem deployment_patched_of_ne {name other : String} (p : DeploymentPatch) (h : other ≠ name) :
    (s.patched name p).deployment other = s.deployment other := by
  rw [deployment, patched, find?_map_patched, deployment]
  cases hd : s.deployments.find? (fun d => d.name == other) with
  | none => rfl
  | some d =>
    have hname : d.name = other := deployment_name (s := s) hd
    simp [hname, h]

/-! ## Models and backends -/

/-- The backend `findBackend` finds for a model. -/
def backendFor (backends : List LLMBackend) (model : LLMModel) : Option LLMBackend :=
  match model.spec.backendRef with
  | some name => backends.find? fun b => b.name == name
  | none => backendOfType backends model.spec.serving.backend

/-- The Deployment resolved for a model name; no model has the empty name. -/
def resolved (s : Cluster) (modelName : String) : Option String :=
  if modelName = "" then none
  else (modelNamed s.models modelName).bind fun m =>
    (backendFor s.backends m).map backendDeploymentName

/-- A status update is accepted from the stored version only. -/
def AcceptsModel (s : Cluster) (obj : LLMModel) : Prop :=
  ∃ m ∈ s.models, m.name = obj.name ∧ m.resourceVersion = obj.resourceVersion

instance (s : Cluster) (obj : LLMModel) : Decidable (s.AcceptsModel obj) :=
  inferInstanceAs (Decidable (∃ _ ∈ _, _))

def putModelStatus (s : Cluster) (obj : LLMModel) (version : Nat) : Cluster :=
  { s with models := s.models.map fun m =>
      if m.name = obj.name then { m with status := obj.status, resourceVersion := version }
      else m }

theorem modelNamed_putModelStatus (obj : LLMModel) (version : Nat) (name : String) :
    modelNamed (s.putModelStatus obj version).models name =
      (modelNamed s.models name).map fun m =>
        if m.name = obj.name then { m with status := obj.status, resourceVersion := version }
        else m := by
  unfold modelNamed putModelStatus
  rw [List.find?_map]
  congr 2
  funext m
  simp only [Function.comp_apply]
  split <;> rfl

/-! ## The API server -/

/-- What a call may answer and do. -/
def Exec (s : Cluster) : (c : Call) → c.Answer → Cluster → Prop
  | .getActive name, .ok am, s' => am = s.active.current ∧ am.name = name ∧ s' = s
  | .listActive, .ok items, s' => s.active.current ∈ items ∧ s' = s
  | .listModels, .ok items, s' => items = s.models ∧ s' = s
  | .getBackend name, .ok b, s' => (s.backends.find? fun b => b.name == name) = some b ∧ s' = s
  | .listBackends, .ok items, s' => items = s.backends ∧ s' = s
  | .getDeployment name, .ok d, s' => s.deployment name = some d ∧ s' = s
  | .scaleDeployment name replicas, .ok _, s' =>
    (s.deployment name).isSome ∧ s' = s.patched name (.scale replicas)
  | .scaleDeployment name replicas, .error _, s' =>
    s' = s ∨ s' = s.patched name (.scale replicas)
  | .patchDeployment base next, .ok _, s' =>
    (s.deployment base.name).isSome ∧ s' = s.patched base.name (.diff base next)
  | .patchDeployment base next, .error _, s' =>
    s' = s ∨ s' = s.patched base.name (.diff base next)
  | .updateActiveStatus obj, a, s' =>
    ∃ active, s.active.Exec (.updateActiveStatus obj) a active ∧ s' = { s with active := active }
  | .updateModelStatus obj, .ok version, s' =>
    s.AcceptsModel obj ∧ s' = s.putModelStatus obj version
  | .updateModelStatus obj, .error _, s' =>
    s' = s ∨ s.AcceptsModel obj ∧ ∃ version, s' = s.putModelStatus obj version
  | _, _, s' => s' = s

theorem Exec.of_isRead {s s' : Cluster} {c : Call} {a : c.Answer} (h : s.Exec c a s')
    (hc : c.IsRead) : s' = s := by
  cases c <;> first
    | exact Bool.noConfusion hc
    | exact h
    | (cases a <;> first | exact h | exact h.2 | exact h.2.2)

/-- Seen from the object, a call in the namespace is one on its own record. -/
theorem Exec.active {s s' : Cluster} {c : Call} {a : c.Answer} (h : s.Exec c a s') :
    s.active.Exec c a s'.active := by
  cases c with
  | updateActiveStatus obj =>
    obtain ⟨active, hactive, rfl⟩ := h
    exact hactive
  | getActive name =>
    cases a with
    | ok am =>
      obtain ⟨rfl, hname, rfl⟩ := h
      exact ⟨List.mem_cons_self, hname, rfl⟩
    | error e =>
      cases h
      rfl
  | updateModelStatus obj =>
    cases a with
    | ok version =>
      obtain ⟨-, rfl⟩ := h
      rfl
    | error e =>
      rcases h with rfl | ⟨-, version, rfl⟩
      · rfl
      · rfl
  | scaleDeployment name replicas =>
    cases a with
    | ok _ =>
      obtain ⟨-, rfl⟩ := h
      rfl
    | error e => rcases h with rfl | rfl <;> rfl
  | patchDeployment base next =>
    cases a with
    | ok _ =>
      obtain ⟨-, rfl⟩ := h
      rfl
    | error e => rcases h with rfl | rfl <;> rfl
  | _ =>
    have hsame : s' = s := by
      first
        | exact h.of_isRead rfl
        | exact h
    rw [hsame]
    rfl

/-! ## The others -/

/-- A change of the requested model. -/
def Requested (s s' : Cluster) : Prop :=
  ∃ active, s.active.Edited active ∧ s' = { s with active := active }

/-- Any change of the models. -/
def ModelsEdited (s s' : Cluster) : Prop := ∃ models, s' = { s with models := models }

/-- Deployments report new statuses. -/
def StatusesMoved (s s' : Cluster) : Prop :=
  ∃ status : Deployment → DeploymentStatus,
    s' = { s with deployments := s.deployments.map fun d => { d with status := status d } }

/-- Any change of the Deployments. -/
def DeploymentsWritten (s s' : Cluster) : Prop :=
  ∃ deployments, s' = { s with deployments := deployments }

theorem StatusesMoved.deployment {s s' : Cluster} (h : s.StatusesMoved s') (name : String) :
    (s'.deployment name).map (·.spec) = (s.deployment name).map (·.spec) := by
  obtain ⟨status, rfl⟩ := h
  rw [Cluster.deployment, List.find?_map]
  simp only [Function.comp_def, Option.map_map]
  rfl

end Cluster

/-- The controller, which works on one object at a time, and those around it. -/
def clusterSystem (r : LLMActiveModelReconciler) (name : String) (env : Cluster → Cluster → Prop) :
    System Kube Cluster Unit Outcome where
  exec s c a s' := s.Exec c a s'
  env := env
  program _ := reconcile r name

/-! ## What a reconcile has seen -/

/-- The object a reconcile has read first. -/
def firstRead : List (Event Kube) → Option LLMActiveModel
  | ⟨.getActive _, .ok am⟩ :: _ => some am
  | _ => none

theorem firstRead_append {t : List (Event Kube)} {am : LLMActiveModel} (h : firstRead t = some am)
    (u : List (Event Kube)) : firstRead (t ++ u) = some am := by
  cases t with
  | nil => cases h
  | cons e t =>
    obtain ⟨c, a⟩ := e
    cases c with
    | getActive name =>
      cases a with
      | ok _ => exact h
      | error _ => cases h
    | _ => cases h

def isModelListing : Call → Bool
  | .listModels => true
  | _ => false

def isModelWrite : Call → Bool
  | .updateModelStatus _ => true
  | _ => false

/-- The status a reconcile is about to write. -/
def pendingStatus (j : Job Kube Outcome) : Option LLMActiveModel :=
  match j.rest with
  | .call (.updateActiveStatus obj) _ => some obj
  | _ => none

theorem exists_of_pendingStatus {j : Job Kube Outcome} {obj : LLMActiveModel}
    (h : pendingStatus j = some obj) :
    ∃ k : Except Err Nat → Go Outcome, j = ⟨j.trace, .call (.updateActiveStatus obj) k⟩ := by
  obtain ⟨t, rest⟩ := j
  cases rest with
  | pure => cases h
  | call c k =>
    cases c with
    | updateActiveStatus obj' =>
      cases h
      exact ⟨k, rfl⟩
    | _ => cases h

/-! ## Looking things up -/

section Lookup

variable {W : World Kube (Cluster × List (Event Kube))} {P : Call → Prop}
  {J : Cluster × List (Event Kube) → Prop} {x : Cluster × List (Event Kube)}

/-- The calls are answered by the API server. -/
def OnCluster (W : World Kube (Cluster × List (Event Kube))) : Prop :=
  ∀ x c a y, W.exec x c a y → x.1.Exec c a y.1

/-- The lookup of a model, at the moment the models are listed. -/
theorem OnCluster.safe_findModel (hW : OnCluster W) (hJ : W.Keeps P J) (hP : P .listModels)
    (h : J x) (modelName : String) :
    Safe W (findModel modelName) (fun res y => J y ∧
      ∃ x₁ a, J x₁ ∧ W.exec x₁ .listModels a y ∧
        match res with
        | .ok m => modelNamed y.1.models modelName = some m
        | .error _ => modelNamed y.1.models modelName = none ∨ ∃ e, a = .error e) x := by
  refine hJ.safe_call _ hP h ?_
  intro x₁ a y _ h₁ hexec hy
  cases a with
  | error e => exact ⟨hy, x₁, _, h₁, hexec, Or.inr ⟨e, rfl⟩⟩
  | ok items =>
    obtain ⟨hitems, hstate⟩ := hW _ _ _ _ hexec
    have hmodels : items = y.1.models := by rw [hitems, hstate]
    dsimp only [Prog.bind]
    cases hm : modelNamed items modelName with
    | none => exact ⟨hy, x₁, _, h₁, hexec, Or.inl (hmodels ▸ hm)⟩
    | some m => exact ⟨hy, x₁, _, h₁, hexec, hmodels ▸ hm⟩

/-- The lookup of a backend among those that never change. -/
theorem OnCluster.safe_findBackendOf (hW : OnCluster W) (hJ : W.Keeps P J)
    (hP : ∀ c, c.IsRead → P c) {backends : List LLMBackend}
    (hbackends : ∀ y, J y → y.1.backends = backends) (h : J x) (model : LLMModel) :
    Safe W (findBackendOf model) (fun res y => J y ∧
      ∀ b, res = .ok b → Cluster.backendFor backends model = some b) x := by
  unfold findBackendOf findBackend Cluster.backendFor
  cases model.spec.backendRef with
  | some name =>
    refine hJ.safe_call (.getBackend name) (hP _ rfl) h ?_
    intro x₁ a y _ h₁ hexec hy
    refine ⟨hy, ?_⟩
    rintro b rfl
    rw [← hbackends x₁ h₁]
    exact (hW _ _ _ _ hexec).1
  | none =>
    refine hJ.safe_call .listBackends (hP _ rfl) h ?_
    intro x₁ a y _ h₁ hexec hy
    cases a with
    | error e => exact ⟨hy, fun b hb => nomatch hb⟩
    | ok items =>
      have hitems : items = backends := (hW _ _ _ _ hexec).1.trans (hbackends x₁ h₁)
      subst hitems
      dsimp only [Prog.bind]
      cases backendOfType items model.spec.serving.backend with
      | none => exact ⟨hy, fun b hb => nomatch hb⟩
      | some b =>
        refine ⟨hy, ?_⟩
        rintro b' hb
        cases hb
        rfl

end Lookup

/-! ## Written runs -/

namespace ActiveStore

/-- The next resource version. -/
def nextVersion (s : ActiveStore) : Nat := (s.versions.map (·.resourceVersion)).sum + 1

theorem fresh_nextVersion (s : ActiveStore) : s.Fresh s.nextVersion := by
  intro old hold
  have : old.resourceVersion ≤ (s.versions.map (·.resourceVersion)).sum :=
    List.single_le_sum (by simp) _ (List.mem_map_of_mem hold)
  unfold nextVersion
  omega

end ActiveStore

/-- Things that happen to the namespace in a written run. -/
inductive Edit where
  | request (modelName : String)
  | models (models : List LLMModel)
  /-- Kubernetes brings every Deployment to the number of replicas it asks for. -/
  | settle

namespace Cluster

def settled (d : Deployment) : DeploymentStatus where
  observedGeneration := d.generation
  replicas := (d.spec.replicas.getD 1).toNat
  updatedReplicas := (d.spec.replicas.getD 1).toNat
  availableReplicas := (d.spec.replicas.getD 1).toNat

def edit (s : Cluster) : Edit → Cluster
  | .request modelName =>
    { s with active := s.active.putSpec ⟨modelName⟩ _ s.active.fresh_nextVersion }
  | .models models => { s with models := models }
  | .settle =>
    { s with deployments := s.deployments.map fun d => { d with status := settled d } }

/-- An API server, a cache and a runtime that do what they are asked. -/
def answer (s : Cluster) : (c : Call) → c.Answer × Cluster
  | .getActive name =>
    if s.active.current.name = name then (.ok s.active.current, s)
    else (.error (.notFound name), s)
  | .listActive => (.ok [s.active.current], s)
  | .listModels => (.ok s.models, s)
  | .getBackend name =>
    match s.backends.find? fun b => b.name == name with
    | some b => (.ok b, s)
    | none => (.error (.notFound name), s)
  | .listBackends => (.ok s.backends, s)
  | .getConfigMap name => (.error (.notFound name), s)
  | .getDeployment name =>
    match s.deployment name with
    | some d => (.ok d, s)
    | none => (.error (.notFound name), s)
  | .scaleDeployment name replicas =>
    if (s.deployment name).isSome then (.ok (), s.patched name (.scale replicas))
    else (.error (.notFound name), s)
  | .patchDeployment base next =>
    if (s.deployment base.name).isSome then (.ok (), s.patched base.name (.diff base next))
    else (.error (.notFound base.name), s)
  | .updateActiveStatus obj =>
    if s.active.Accepts obj then
      (.ok s.active.nextVersion,
        { s with active := s.active.putStatus obj.status _ s.active.fresh_nextVersion })
    else (.error (.conflict obj.name), s)
  | .updateModelStatus obj =>
    if s.AcceptsModel obj then
      (.ok (obj.resourceVersion + 1), s.putModelStatus obj (obj.resourceVersion + 1))
    else (.error (.conflict obj.name), s)
  | .cacheEnsure _ => (.ok cacheHot, s)
  | .checkHealth _ => (.ok (), s)
  | .collectRuntimeMetadata _ _ => (none, s)
  | .now => ((0 : Nat), s)
  | .withTimeout => (⟨3, false⟩, s)
  | .recordTransitionFailure _ _ => ((), s)

theorem exec_answer (c : Call) : s.Exec c (s.answer c).1 (s.answer c).2 := by
  cases c with
  | getActive name =>
    simp only [answer]
    split
    · rename_i h
      exact ⟨rfl, h, rfl⟩
    · rfl
  | listActive => exact ⟨List.mem_singleton_self _, rfl⟩
  | getBackend name =>
    simp only [answer]
    split
    · rename_i h
      exact ⟨h, rfl⟩
    · rfl
  | getDeployment name =>
    simp only [answer]
    split
    · rename_i h
      exact ⟨h, rfl⟩
    · rfl
  | scaleDeployment name replicas =>
    simp only [answer]
    split
    · rename_i h
      exact ⟨h, rfl⟩
    · exact Or.inl rfl
  | patchDeployment base next =>
    simp only [answer]
    split
    · rename_i h
      exact ⟨h, rfl⟩
    · exact Or.inl rfl
  | updateActiveStatus obj =>
    simp only [answer]
    split
    · rename_i h
      exact ⟨_, ⟨h, s.active.fresh_nextVersion, rfl⟩, rfl⟩
    · exact ⟨s.active, Or.inl rfl, rfl⟩
  | updateModelStatus obj =>
    simp only [answer]
    split
    · rename_i h
      exact ⟨h, rfl⟩
    · exact Or.inl rfl
  | _ => first | rfl | exact ⟨rfl, rfl⟩

/-- The player of written runs. -/
def player : Player Kube Cluster Edit where
  edit e s := s.edit e
  answer s c := s.answer c

theorem requested_edit (modelName : String) : s.Requested (s.edit (.request modelName)) :=
  ⟨_, ⟨_, _, _, rfl⟩, rfl⟩

end Cluster

/-! ## A small namespace

Three models, each with a backend and a Deployment of its own; the first one is served. -/

namespace Demo

/-- A model served by the backend of the same name. -/
def model (name : String) (active : Bool) : LLMModel where
  name := name
  generation := 1
  resourceVersion := 1
  spec :=
    { model := ⟨name, "hub/" ++ name, "", ""⟩
      artifact := none
      serving := ⟨.vllm, "", "", none, []⟩
      backendRef := some name }
  status := ⟨if active then .active else .ready, active, none, none, [], 1⟩

def backend (name : String) : LLMBackend where
  objectMeta := .named name
  spec :=
    { LLMBackendSpec.zero with
      type := .vllm
      deploymentRef := name
      containerName := "runtime"
      serviceRef := name
      port := 8000 }
  status := .zero

/-- The Deployment of a backend, switched to the model of the same name. -/
def deployment (name : String) (replicas : Nat) : Deployment where
  name := name
  generation := 1
  labels := ∅
  ownerReferences := []
  spec :=
    { replicas := some replicas
      selector := ∅
      template :=
        { labels := ∅
          annotations := Finmap.singleton activeModelAnno name
          spec :=
            { containers := [⟨"runtime", Backend.effectiveArgs (model name false), [], [], ∅⟩]
              volumes := []
              other := ∅ } }
      strategy := ""
      other := ∅ }
  status := ⟨1, replicas, replicas, replicas⟩

def activeModel (modelName : String) : LLMActiveModel where
  name := "main"
  ns := "llm"
  creationTimestamp := 0
  generation := 1
  resourceVersion := 1
  spec := ⟨modelName⟩
  status := ⟨modelName, .vllm, .stable, "", some 0, none, 1, [], 1⟩

def cluster : Cluster where
  active := .created (activeModel "a")
  models := [model "a" true, model "b" false, model "c" false]
  backends := [backend "a", backend "b", backend "c"]
  deployments := [deployment "a" 1, deployment "b" 0, deployment "c" 0]

/-- A controller that may switch to any model and has no cache manager. -/
def reconciler : LLMActiveModelReconciler where
  cacheManagerURL := ""
  transitionsEnabled := true
  allowedTransitionModels := []
  sha256Hex := id
  rfc3339Nano _ := "now"

end Demo

end LlmOperator.Controller
