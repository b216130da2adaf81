import LlmOperator.Controller.ActiveModel
import LlmOperator.Controller.Workload

/-!
# The backend controller

`internal/controller/llmbackend_controller.go` and the calls of `backend_workload.go`: the
Service and the Deployment that are generated for a backend, its status, and its deletion, as
programs over the calls they make. The backend which the source changes through a pointer is
passed along.

`BackendCluster` is a namespace in which such a program runs by itself. Any call may fail there
except the write of the status.
-/

namespace LlmOperator.Controller

open Api Data Data.GoString Backend Interaction

/-! ## Calls -/

inductive BackendCall where
  | getBackend (name : String)
  | updateBackend (obj : LLMBackend)
  | updateBackendStatus (obj : LLMBackend)
  | listModels
  | listActive
  | getService (name : String)
  | createService (service : Service)
  | patchService (base next : Service)
  | getDeployment (name : String)
  | createDeployment (d : Deployment)
  | patchDeployment (base next : Deployment)
  /-- `driver.CheckHealth`. -/
  | checkHealth (backendType : BackendType) (url : String)

namespace BackendCall

/-- What a call returns when it does not fail. -/
def Value : BackendCall → Type
  | getBackend _ => LLMBackend
  | listModels => List LLMModel
  | listActive => List LLMActiveModel
  | getService _ => Service
  | getDeployment _ => Deployment
  | _ => Unit

end BackendCall

/-- The signature of the backend controller's calls. -/
abbrev BackendKube : Sig := ⟨BackendCall, fun c => Except Err c.Value⟩

section

variable (status : LLMBackendStatus) (r : LLMBackendReconciler) (name : String)
  (backend : LLMBackend) (workload : BackendWorkloadSpec)

abbrev BackendGo (α : Type) : Type := Prog BackendKube α

/-- Make the call. -/
def perform (c : BackendCall) : BackendGo (Except Err c.Value) := Prog.perform (S := BackendKube) c

def fetchBackend : BackendGo (Except Err LLMBackend) := perform (.getBackend name)

def fetchModels : BackendGo (Except Err (List LLMModel)) := perform .listModels

def fetchActiveModels : BackendGo (Except Err (List LLMActiveModel)) := perform .listActive

def fetchService : BackendGo (Except Err Service) := perform (.getService name)

def fetchDeployment : BackendGo (Except Err Deployment) :=
  perform (.getDeployment name)

def probeHealth (backendType : BackendType) (url : String) : BackendGo (Except Err Unit) :=
  perform (.checkHealth backendType url)

def storeBackend (obj : LLMBackend) : BackendGo (Except Err Unit) := perform (.updateBackend obj)

def storeBackendStatus (obj : LLMBackend) : BackendGo (Except Err Unit) :=
  perform (.updateBackendStatus obj)

def createService (service : Service) : BackendGo (Except Err Unit) :=
  perform (.createService service)

def patchService (base next : Service) : BackendGo (Except Err Unit) :=
  perform (.patchService base next)

def createDeployment (d : Deployment) : BackendGo (Except Err Unit) := perform (.createDeployment d)

def patchGenerated (base next : Deployment) : BackendGo (Except Err Unit) :=
  perform (.patchDeployment base next)

/-- `fmt.Errorf("...: %w", err)` around the error of a call. -/
def wrapError (context : String) (p : BackendGo (Except Err Unit)) :
    BackendGo (Except Err Unit) := do
  match ← p with
  | .error e => return .error (.wrap context e)
  | .ok () => return .ok ()

/-! ## The generated Service -/

/-- `int32(port)`. -/
def int32 (port : Nat) : Int := (BitVec.ofNat 32 port).toInt

/-- The object filled in when no Service exists. -/
def bareService : Service := ⟨name, ∅, ∅, [], ⟨"", ∅, ∅, [], ∅⟩⟩

/-- The Service asked for, without its owner. -/
def declaredService (service : Service) : Service :=
  { service with
    labels := mergeLabels service.labels (backendLabels backend)
    annotations := mergeLabels service.annotations workload.service.annotations
    spec :=
      { type := "ClusterIP"
        addresses := service.spec.addresses
        selector := backendLabels backend
        ports :=
          [{ name := if workload.service.portName = "" then "http" else workload.service.portName
             port := int32 workload.service.port
             targetPort := int32 workload.service.port
             protocol := "TCP" }]
        other := ∅ } }

/-- Write the Service, which exists or does not. -/
def writeService (existing : Option Service) : BackendGo (Except Err Unit) :=
  let desired := declaredService backend workload
    (existing.getD (bareService (backendServiceName backend)))
  match r.setControllerReference backend.objectMeta desired.ownerReferences with
  | .error e => return .error (.wrap "set service owner" e)
  | .ok owners =>
    let next := { desired with ownerReferences := owners }
    match existing with
    | none => wrapError "create generated service" (createService next)
    | some before =>
      if before = next then return .ok ()
      else wrapError "update generated service" (patchService before next)

def ensureService : BackendGo (Except Err Unit) := do
  match ← fetchService (backendServiceName backend) with
  | .ok service => writeService r backend workload (some service)
  | .error e =>
    if e.isNotFound then writeService r backend workload none
    else return .error (.wrap "get generated service" e)

/-! ## The generated Deployment -/

/-- Send what `ensureBackendWorkload` has decided on. -/
def sendDeployment : Except Err DeploymentWrite → BackendGo (Except Err Unit)
  | .error e => return .error e
  | .ok .nothing => return .ok ()
  | .ok (.create d) => wrapError "create generated deployment" (createDeployment d)
  | .ok (.patch base next) => wrapError "update generated deployment" (patchGenerated base next)

def ensureDeployment : BackendGo (Except Err Unit) := do
  match ← fetchDeployment (backendDeploymentName backend) with
  | .ok d => sendDeployment (ensureBackendWorkload r backend (some d))
  | .error e =>
    if e.isNotFound then sendDeployment (ensureBackendWorkload r backend none)
    else return .error (.wrap "get generated deployment" e)

/-- `ensureBackendWorkload` as a whole: the checks, the Service, then the Deployment. -/
def ensureBackendObjects : BackendGo (Except Err Unit) :=
  match backend.spec.workload with
  | none => return .ok ()
  | some workload =>
    match checkWorkload workload with
    | .error e => return .error e
    | .ok () => do
      match ← ensureService r backend workload with
      | .error e => return .error e
      | .ok () => ensureDeployment r backend

/-! ## The status -/

def deploymentExistsCondition : String := "DeploymentExists"

def modelLoadedCondition : String := "ModelLoaded"

def backendHealthyCondition : String := "BackendHealthy"

def setBackendCondition (conditionType : String) (statusVal : ConditionStatus)
    (reason message : String) : LLMBackendStatus :=
  { status with
    conditions := putCondition ⟨conditionType, statusVal, reason, message⟩ status.conditions }

def setBackendPhase (phase : LLMBackendPhase) : LLMBackendStatus :=
  { status with phase := phase }

/-- The generated objects could not be made. -/
def workloadInvalid (e : Err) (status : LLMBackendStatus) : LLMBackendStatus :=
  setBackendPhase
    (setBackendCondition status deploymentExistsCondition .false "WorkloadInvalid" e.error) .failed

/-- The Deployment could not be read. -/
def deploymentMissing (e : Err) (status : LLMBackendStatus) : LLMBackendStatus :=
  { setBackendPhase
      (setBackendCondition status deploymentExistsCondition .false "NotFound" e.error) .failed with
    replicas := 0
    availableReplicas := 0 }

/-- The active model from the annotations of the Deployment; one that has none leaves what was
stored. -/
def readActiveModel (annotations : FMap String String) (status : LLMBackendStatus) :
    LLMBackendStatus :=
  match annotations.lookup activeModelAnno with
  | none => status
  | some activeModel =>
    { status with
      activeModel := activeModel
      activeModelSince :=
        ((annotations.lookup switchedAtAnno).bind r.parseRFC3339Nano).or status.activeModelSince }

/-- The Deployment exists, and this is what it says. -/
def deploymentFound (d : Deployment) (status : LLMBackendStatus) : LLMBackendStatus :=
  readActiveModel r d.spec.template.annotations
    { setBackendCondition status deploymentExistsCondition .true "Exists" "Deployment exists" with
      replicas := d.status.replicas
      availableReplicas := d.status.availableReplicas }

def backendUnsupported (e : Err) (status : LLMBackendStatus) : LLMBackendStatus :=
  setBackendPhase
    (setBackendCondition status backendHealthyCondition .false "UnsupportedBackend" e.error) .failed

def backendServing : LLMBackendStatus :=
  setBackendPhase
    (setBackendCondition
      (setBackendCondition status backendHealthyCondition .true "Healthy" "Backend is healthy")
      modelLoadedCondition .true "Loaded" "Model is loaded") .serving

def backendUnhealthy (e : Err) (status : LLMBackendStatus) : LLMBackendStatus :=
  setBackendPhase
    (setBackendCondition status backendHealthyCondition .false "Unhealthy" e.error) .starting

def backendStopped : LLMBackendStatus :=
  setBackendPhase
    (setBackendCondition status backendHealthyCondition .false "NoReplicas" "No available replicas")
    .stopped

/-! ## Reconcile -/

/-- `return ctrl.Result{...}, r.Status().Update(ctx, &backend)`, the status changed by `f`. -/
def writeBackendStatus (f : LLMBackendStatus → LLMBackendStatus) (outcome : Outcome) :
    BackendGo Outcome := do
  match ← storeBackendStatus { backend with status := f backend.status } with
  | .error e => return .error e
  | .ok () => return outcome

/-- `return ctrl.Result{}, r.Update(ctx, &backend)`. -/
def updateBackend : BackendGo Outcome := do
  match ← storeBackend backend with
  | .error e => return .error e
  | .ok () => return .done

/-- The health check, on a backend whose status speaks of the Deployment already. -/
def reconcileHealth : BackendGo Outcome :=
  if r.hasHTTPClient ∧ 0 < backend.status.availableReplicas then
    match driverFor backend.spec.type with
    | .error e => writeBackendStatus backend (backendUnsupported e) .done
    | .ok _ => do
      match ← probeHealth backend.spec.type (backendURL backend) with
      | .ok () => writeBackendStatus backend backendServing .done
      | .error e => writeBackendStatus backend (backendUnhealthy e) (.result false 10)
  else if backend.status.availableReplicas = 0 then
    writeBackendStatus backend backendStopped .done
  else writeBackendStatus backend (setBackendPhase · .starting) .done

/-- The Deployment could not be read; that the status cannot be written either is ignored. -/
def reconcileMissing (e : Err) : BackendGo Outcome := do
  let _ ← storeBackendStatus { backend with status := deploymentMissing e backend.status }
  return .retryLater

/-- The copy `Reconcile` goes on with. -/
def observeBackend (stored : LLMBackend) : LLMBackend :=
  { stored with
    status := { stored.status with observedGeneration := stored.objectMeta.generation } }

/-- `Reconcile` of a backend that is neither deleted nor without its finalizer. -/
def reconcileWorkload : BackendGo Outcome := do
  match ← ensureBackendObjects r backend with
  | .error e => writeBackendStatus backend (workloadInvalid e) .done
  | .ok () =>
    match ← fetchDeployment (backendDeploymentName backend) with
    | .error e => reconcileMissing backend e
    | .ok d => reconcileHealth r { backend with status := deploymentFound r d backend.status }

/-! ## Deletion -/

def backendWorkloadFinalizer : String := "llm.cogito.dev/backend-workload-protection"

/-- `controllerutil.AddFinalizer` on a backend that does not have it. -/
def addFinalizer : LLMBackend :=
  { backend with
    objectMeta :=
      { backend.objectMeta with
        finalizers := backend.objectMeta.finalizers ++ [backendWorkloadFinalizer] } }

/-- `controllerutil.RemoveFinalizer`. -/
def removeFinalizer : LLMBackend :=
  { backend with
    objectMeta :=
      { backend.objectMeta with
        finalizers := backend.objectMeta.finalizers.filter fun f =>
          f != backendWorkloadFinalizer } }

/-- The model refers to the backend by name. -/
def refersTo (model : LLMModel) : Bool :=
  model.spec.backendRef == some backend.name

def backendIsActive : BackendGo (Except Err Bool) := do
  match ← fetchModels with
  | .error e => return .error (.wrap "list models while deleting backend" e)
  | .ok models =>
    if models.any fun m => m.status.active && refersTo backend m then return .ok true
    else
      match ← fetchActiveModels with
      | .error e => return .error (.wrap "list active models while deleting backend" e)
      | .ok activeModels =>
        return .ok (activeModels.any fun am => am.status.phase == .stable &&
          models.any fun m => m.spec.model.name == am.status.modelName && refersTo backend m)

def reconcileBackendDeletion : BackendGo Outcome :=
  if backend.spec.workload = none ∨ backendWorkloadFinalizer ∉ backend.objectMeta.finalizers then
    return .done
  else do
    match ← backendIsActive backend with
    | .error e => return .error e
    | .ok true => return .result false 15
    | .ok false => updateBackend (removeFinalizer backend)

def reconcileBackend : BackendGo Outcome := do
  match ← fetchBackend name with
  | .error e => return ignoreNotFound e
  | .ok backend =>
    if backend.objectMeta.deletionTimestamp.isSome then reconcileBackendDeletion backend
    else if backend.spec.workload.isSome ∧
        backendWorkloadFinalizer ∉ backend.objectMeta.finalizers then
      updateBackend (addFinalizer backend)
    else reconcileWorkload r (observeBackend backend)

end

/-! ## A namespace of its own -/

/-- The backend that is reconciled, among those listed before and after it, and what the
controller can see around it. `fault` says which calls fail. -/
structure BackendCluster where
  backend : LLMBackend
  before : List LLMBackend
  after : List LLMBackend
  models : List LLMModel
  activeModels : List LLMActiveModel
  services : String → Option Service
  deployments : String → Option Deployment
  health : BackendType → String → Except Err Unit
  fault : BackendCall → Option Err

namespace BackendCluster

def backends (s : BackendCluster) : List LLMBackend := s.before ++ s.backend :: s.after

/-- An object of that name, or the error that there is none. -/
def found {α : Type} (name : String) : Option α → Except Err α
  | some a => .ok a
  | none => .error (.notFound (quote name ++ " not found"))

/-- What a call does that does not fail. The status is written through its own subresource. -/
def serve (s : BackendCluster) : (c : BackendCall) → Except Err c.Value × BackendCluster
  | .getBackend name =>
    (found name (if name = s.backend.name then some s.backend
      else (s.before ++ s.after).find? fun b => b.name == name), s)
  | .updateBackend obj =>
    (.ok (), { s with
      backend := { s.backend with objectMeta := obj.objectMeta, spec := obj.spec } })
  | .updateBackendStatus obj =>
      (.ok (), { s with backend := { s.backend with status := obj.status } })
  | .listModels => (.ok s.models, s)
  | .listActive => (.ok s.activeModels, s)
  | .getService name => (found name (s.services name), s)
  | .createService service =>
    (.ok (), { s with services := Function.update s.services service.name (some service) })
  | .patchService _ next =>
    (.ok (), { s with services := Function.update s.services next.name (some next) })
  | .getDeployment name => (found name (s.deployments name), s)
  | .createDeployment d =>
    (.ok (), { s with deployments := Function.update s.deployments d.name (some d) })
  | .patchDeployment base next =>
    (.ok (), { s with
      deployments := Function.update s.deployments next.name
        ((s.deployments next.name).map (DeploymentPatch.diff base next).apply) })
  | .checkHealth backendType url => (s.health backendType url, s)

def answer (s : BackendCluster) (c : BackendCall) : Except Err c.Value × BackendCluster :=
  match s.fault c with
  | some e => (.error e, s)
  | none => s.serve c

section Run

variable {s : BackendCluster}

theorem answer_of_fault_none {c : BackendCall} (h : s.fault c = none) : s.answer c = s.serve c := by
  unfold answer
  rw [h]

theorem answer_of_fault_some {c : BackendCall} {e : Err} (h : s.fault c = some e) :
    s.answer c = (.error e, s) := by
  unfold answer
  rw [h]

/-- Each of the functions that make one call. -/
theorem eval_perform (c : BackendCall) : (perform c).eval answer s = s.answer c := rfl

theorem eval_wrapError (context : String) (p : BackendGo (Except Err Unit)) :
    (wrapError context p).eval answer s =
      ((p.eval answer s).1.mapError (.wrap context), (p.eval answer s).2) := by
  unfold wrapError
  rw [Prog.eval_bind]
  cases (p.eval answer s).1 <;> rfl

end Run

end BackendCluster

end LlmOperator.Controller
