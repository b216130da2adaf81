import LlmOperator.Controller.Calls
import Mathlib.Data.List.Sort

/-!
# The active-model controller

`internal/controller/llmactivemodel_controller.go`: `Reconcile` and `executeTransition` as
programs over the calls of `Controller/Calls.lean`. The in-memory copies of the
`LLMActiveModel` and of the target model, which the source changes through pointers, are
passed along explicitly.

`executeTransition` is cut at the steps its comments number. Logging, events and the
metrics of completed transitions are left out.
-/

namespace LlmOperator.Controller

open Api Data Data.GoString Backend Interaction

/-- `LLMActiveModelReconciler`, with the two standard-library functions whose values are
only compared or stored. An empty list of allowed models permits all. -/
structure LLMActiveModelReconciler where
  cacheManagerURL : String
  transitionsEnabled : Bool
  allowedTransitionModels : List String
  sha256Hex : String → String
  rfc3339Nano : Time → String

/-! ## Conditions -/

def modelActiveCondition : String := "ModelActive"

def transitionCompleteCond : String := "TransitionComplete"

def artifactCachedCondition : String := "ArtifactCached"

/-- `setActiveCondition`, `setCondition`: replace the first condition of that type, or
append one. -/
def putCondition (c : Condition) : List Condition → List Condition
  | [] => [c]
  | d :: ds => if d.type = c.type then c :: ds else d :: putCondition c ds

theorem find?_putCondition (c : Condition) (conditionType : String) (l : List Condition) :
    (putCondition c l).find? (fun d => d.type == conditionType) =
      if c.type = conditionType then some c else l.find? fun d => d.type == conditionType := by
  induction l with
  | nil => by_cases hc : c.type = conditionType <;> simp [putCondition, hc]
  | cons d l ih =>
    unfold putCondition
    split
    · rename_i hd
      by_cases hc : c.type = conditionType <;> simp [hc, hd]
    · rename_i hd
      rw [List.find?_cons, ih]
      by_cases hc : c.type = conditionType
      · have hne : (d.type == conditionType) = false := by simpa [← hc] using hd
        simp [hc, hne]
      · simp [hc, List.find?_cons]

section

variable (r : LLMActiveModelReconciler) (name : String) (am : LLMActiveModel) (model : LLMModel)
  (backend : LLMBackend)

def setActiveCondition (conditionType : String) (statusVal : ConditionStatus)
    (reason message : String) : LLMActiveModel :=
  { am with status :=
    { am.status with
      conditions := putCondition ⟨conditionType, statusVal, reason, message⟩
        am.status.conditions } }

def setCondition (conditionType : String) (statusVal : ConditionStatus) (reason message : String) :
    LLMModel :=
  { model with status :=
    { model.status with
      conditions := putCondition ⟨conditionType, statusVal, reason, message⟩
        model.status.conditions } }

def setPhase (phase : LLMActiveModelPhase) : LLMActiveModel :=
  { am with status := { am.status with phase := phase } }

/-- The two conditions of a published model. -/
def setActiveConditions : LLMActiveModel :=
  setActiveCondition
    (setActiveCondition am modelActiveCondition .true "Active" "Model is active")
    transitionCompleteCond .true "Complete" "Transition complete"

/-! ## Looking things up -/

/-- The order of `singletonOwner`: the oldest first, then by name. -/
def ownsBefore (a b : LLMActiveModel) : Prop :=
  a.creationTimestamp < b.creationTimestamp ∨
    a.creationTimestamp = b.creationTimestamp ∧ a.name ≤ b.name

instance : DecidableRel ownsBefore := fun _ _ => inferInstanceAs (Decidable (_ ∨ _))

/-- The transition owner among the listed objects; the empty name when there are none. -/
def ownerOf (items : List LLMActiveModel) : String :=
  match items.insertionSort ownsBefore with
  | [] => ""
  | first :: _ => first.name

def singletonOwner : Go (Except Err String) := do
  match ← listActive with
  | .error e => return .error e
  | .ok items => return .ok (ownerOf items)

/-- The model with that canonical name among the listed ones. -/
def modelNamed (items : List LLMModel) (modelName : String) : Option LLMModel :=
  items.find? fun m => m.spec.model.name == modelName

def findModel (modelName : String) : Go (Except Err LLMModel) := do
  match ← listModels with
  | .error e => return .error e
  | .ok items =>
    match modelNamed items modelName with
    | some model => return .ok model
    | none => return .error (.other ("no LLMModel with name " ++ quote modelName ++ " found"))

/-- The first listed backend of that type. -/
def backendOfType (items : List LLMBackend) (backendType : BackendType) : Option LLMBackend :=
  items.find? fun b => b.spec.type == backendType

def findBackend (backendType : BackendType) (backendRef : Option String) :
    Go (Except Err LLMBackend) :=
  match backendRef with
  | some name => getBackend name
  | none => do
    match ← listBackends with
    | .error e => return .error e
    | .ok items =>
      match backendOfType items backendType with
      | some backend => return .ok backend
      | none => return .error (.other ("no backend found for type " ++ quote backendType.text))

/-- `findBackend` for a model. -/
def findBackendOf : Go (Except Err LLMBackend) :=
  findBackend model.spec.serving.backend model.spec.backendRef

/-- A lookup by type makes one listing and takes the first backend of the type from it. -/
theorem runs_findBackend_type {backendType : BackendType} {t : List (Event Kube)} {b : LLMBackend} :
    (findBackend backendType none).Runs t (.ok b) ↔
      ∃ items, t = [⟨.listBackends, .ok items⟩] ∧ backendOfType items backendType = some b := by
  constructor
  · intro h
    obtain ⟨x, u, rfl, hu⟩ := Prog.runs_call h
    cases x with
    | error e => cases (Prog.runs_pure hu).2
    | ok items =>
      dsimp only [Prog.bind] at hu
      cases hf : backendOfType items backendType with
      | none =>
        rw [hf] at hu
        cases (Prog.runs_pure hu).2
      | some found =>
        rw [hf] at hu
        obtain ⟨rfl, hb⟩ := Prog.runs_pure hu
        cases hb
        exact ⟨items, rfl, hf⟩
  · rintro ⟨items, rfl, hf⟩
    refine .cons ?_
    dsimp only [Prog.bind]
    rw [hf]
    exact .nil _

/-! ## Status writes -/

/-- `r.Status().Update(ctx, activeModel)`: the object as the client holds it afterwards. -/
def writeActive : Go (Except Err LLMActiveModel) := do
  match ← updateActiveStatus am with
  | .error e => return .error e
  | .ok version => return .ok { am with resourceVersion := version }

/-- `r.Status().Update(ctx, model)`. -/
def writeModel : Go (Except Err LLMModel) := do
  match ← updateModelStatus model with
  | .error e => return .error e
  | .ok version => return .ok { model with resourceVersion := version }

/-- A status write whose error ends the reconcile. -/
def writeActiveThen (outcome : Outcome) : Go Outcome := do
  match ← writeActive am with
  | .error e => return .error e
  | .ok _ => return outcome

/-- `_ = r.Status().Update(ctx, &activeModel)`. -/
def writeActiveIgnoring (outcome : Outcome) : Go Outcome := do
  let _ ← writeActive am
  return outcome

def failTransition (modelName reason metricReason : String) (cause : Err) : Go Outcome := do
  let am := setActiveCondition (setPhase am .failed) modelActiveCondition .false reason cause.error
  recordTransitionFailure modelName metricReason
  writeActiveThen am .retryLater

/-! ## Is the transition still the current one? -/

/-- What `ensureTransitionCurrent` asks of the object it reads back. -/
def isCurrent (current : LLMActiveModel) (targetModel : String) (generation : Nat) : Bool :=
  current.generation == generation && current.spec.modelName == targetModel &&
    current.status.transitionGeneration == generation

def ensureTransitionCurrent (targetModel : String) (generation : Nat) : Go (Except Err Unit) := do
  match ← getActive am.name with
  | .error e => return .error e
  | .ok current =>
    if isCurrent current targetModel generation then return .ok ()
    else return .error .transitionChanged

def transitionCheckResult (e : Err) : Outcome :=
  if e.isTransitionChanged then .result true 0 else .error e

/-- `checkCurrent` of a transition of `am` to `model`. -/
def checkCurrent : Go (Except Err Unit) :=
  ensureTransitionCurrent am model.spec.model.name am.generation

/-- `if err := checkCurrent(); err != nil { return transitionCheckResult(err) }`. -/
def guardCurrent : Body Unit :=
  orLeave (checkCurrent am model) fun e => pure (transitionCheckResult e)

/-! ## Polling -/

/-- The loop of `waitForScaleDown` and `waitForRollout`: the polls that are left when the
Deployment has been seen in the state waited for. -/
def pollDeployment (reached : Deployment → Bool) (name : String) (check : Go (Except Err Unit))
    (expired : Err) : Nat → Go (Except Err Nat)
  | 0 => return .error expired
  | polls + 1 => do
    match ← check with
    | .error e => return .error e
    | .ok () =>
      match ← getDeployment name with
      | .error e => return .error e
      | .ok d =>
        if reached d then return .ok polls
        else pollDeployment reached name check expired polls

def isScaledDown (d : Deployment) : Bool :=
  d.status.replicas == 0 && d.status.availableReplicas == 0

def waitForScaleDown (check : Go (Except Err Unit)) (deadline : Deadline) : Go (Except Err Nat) :=
  pollDeployment isScaledDown name check deadline.err deadline.polls

def isRolledOut (d : Deployment) : Bool :=
  d.status.observedGeneration ≥ d.generation && d.status.updatedReplicas == 1 &&
    d.status.availableReplicas == 1

def waitForRollout (check : Go (Except Err Unit)) (deadline : Deadline) : Go (Except Err Nat) :=
  pollDeployment isRolledOut name check deadline.err deadline.polls

/-- The first probe is made at once, before any waiting. -/
def waitForBackendHealth (url : String) (check : Go (Except Err Unit)) (polls : Nat) :
    Go (Except Err Unit) := do
  match ← check with
  | .error e => return .error e
  | .ok () =>
    match ← checkHealth url with
    | .ok () => return .ok ()
    | .error e =>
      match polls with
      | 0 => return .error (.wrap "backend did not become healthy" e)
      | polls + 1 => waitForBackendHealth url check polls

/-! ## Reading and writing the target Deployment -/

def containerNotFound (d : Deployment) : Err :=
  .other ("container " ++ quote (backendContainerName backend) ++ " not found in deployment " ++
    quote d.name)

def deploymentMatchesModel : Go (Except Err Bool) := do
  match ← getDeployment (backendDeploymentName backend) with
  | .error e => return .error (.wrap "get deployment" e)
  | .ok d =>
    match findContainer (backendContainerName backend) d.spec.template.spec.containers with
    | some c => return .ok (templateMatches model d.spec.template c)
    | none => return .error (containerNotFound backend d)

/-- The time of a switch; the clock is read only when something is switched. -/
def switchTime (changed : Bool) : Go String :=
  if changed then do return r.rfc3339Nano (← now) else return ""

def activateDeployment : Go (Except Err Unit) := do
  match ← getDeployment (backendDeploymentName backend) with
  | .error e => return .error (.wrap "get deployment" e)
  | .ok d =>
    match findContainer (backendContainerName backend) d.spec.template.spec.containers with
    | none => return .error (containerNotFound backend d)
    | some c => do
      let switchedAt ← switchTime r (runtimeChanged model d.spec.template c)
      let next := activated model switchedAt d c
      if d.spec = next.spec then return .ok ()
      else patchDeployment d next

def scaleDeployment (replicas : Int) : Go (Except Err Unit) := do
  match ← getDeployment name with
  | .error e => return .error e
  | .ok _ => call (.scaleDeployment name replicas)

/-- The values of `HF_HUB_OFFLINE` that opt in. -/
def isOfflineValue (value : String) : Bool :=
  equalFold (trimSpace value) "true" || value == "1" || equalFold (trimSpace value) "yes" ||
    equalFold (trimSpace value) "on"

/-- Whether the runtime container opts into offline mode; its first setting counts. -/
def containerOffline (c : Container) : Bool :=
  match c.env.find? fun env => env.name == "HF_HUB_OFFLINE" with
  | some env => isOfflineValue env.value
  | none => false

def backendOfflineMode : Go (Except Err Bool) := do
  match ← getDeployment (backendDeploymentName backend) with
  | .error e => return .error (.wrap "get target deployment for offline-mode inspection" e)
  | .ok d =>
    match findContainer (backendContainerName backend) d.spec.template.spec.containers with
    | some c => return .ok (containerOffline c)
    | none => return .ok false

/-- `validateChatTemplate` with the SHA-256 of a text in hexadecimal digits. -/
def validateChatTemplateBy (sha256Hex : String → String) (model : LLMModel) :
    Go (Except Err Unit) :=
  match model.spec.serving.chatTemplate with
  | none => return .ok ()
  | some template =>
    if template.configMapName = "" ∨ template.configMapKey = "" then
      return .error (.other "chatTemplate.configMapKeyRef.name and key are required")
    else if template.sha256.utf8ByteSize ≠ 64 then
      return .error (.other "chatTemplate.sha256 must be a lowercase hexadecimal SHA-256 digest")
    else do
      match ← getConfigMap template.configMapName with
      | .error e =>
        return .error (.wrap ("get chat template ConfigMap " ++ quote template.configMapName) e)
      | .ok configMap =>
        match configMap.data.lookup template.configMapKey with
        | none => return .error (.other ("chat template ConfigMap " ++ quote configMap.name ++
            " does not contain key " ++ quote template.configMapKey))
        | some content =>
          if sha256Hex content ≠ template.sha256 then
            return .error (.other ("chat template digest mismatch: got " ++ sha256Hex content ++
              ", want " ++ template.sha256))
          else return .ok ()

def validateChatTemplate : Go (Except Err Unit) :=
  validateChatTemplateBy r.sha256Hex model

/-! ## The transition -/

/-- The status with a fresh transition token. -/
def withToken (started : Time) : LLMActiveModel :=
  setActiveCondition
    { am with status :=
      { am.status with
        phase := .transitioning
        transitionFrom := am.status.modelName
        transitionStarted := some started
        transitionGeneration := am.generation } }
    modelActiveCondition .false "Transitioning" "Transition in progress"

/-- A token is persisted unless this generation already failed or is already under way. -/
def needsToken : Bool :=
  !(am.status.phase == .failed && am.status.transitionGeneration == am.generation) &&
    (am.status.phase != .transitioning || am.status.transitionGeneration != am.generation ||
      am.status.transitionStarted == none)

def beginTransition : Body LLMActiveModel :=
  if needsToken am then do
    let started ← now
    orError (writeActive (withToken am started))
  else pure am

/-- The driver of the model, once it and the chat template have been validated. -/
def validateTarget : Body RuntimeDriver := do
  let fail := failTransition am model.spec.model.name
  let driver ← orLeave (pure (driverFor model.spec.serving.backend))
    (fail "UnsupportedBackend" "unsupported_backend")
  orLeave (pure (driver.validate model))
    (fail "InvalidServingConfiguration" "invalid_serving_configuration")
  orLeave (validateChatTemplate r model) (fail "TemplateInvalid" "template_invalid")
  return driver

/-- The backend of the model recorded as `transitionFrom`, and the type to fall back on. A
model that cannot be listed or found leaves the type of the status. -/
def previousByModel : Body (Option LLMBackend × BackendType) :=
  if am.status.transitionFrom = "" then pure (none, am.status.backendType)
  else do
    match ← (findModel am.status.transitionFrom : Go _) with
    | .error _ => pure (none, am.status.backendType)
    | .ok previousModel => do
      let backend ← orLeave (findBackendOf previousModel)
        (failTransition am model.spec.model.name "PreviousBackendNotFound"
          "previous_backend_not_found")
      return (some backend, previousModel.spec.serving.backend)

/-- `previousBackend, _ = r.findBackend(...)`: an error is dropped. -/
def previousByType (backendType : BackendType) (model : LLMModel) : Go (Option LLMBackend) :=
  if backendType ≠ .empty ∧ backendType ≠ model.spec.serving.backend then do
    match ← findBackend backendType none with
    | .error _ => return none
    | .ok backend => return some backend
  else return none

def resolvePrevious : Body (Option LLMBackend) := do
  let (found, backendType) ← previousByModel am model
  match found with
  | some backend => return some backend
  | none => previousByType backendType model

/-- `waitForScaleDown` as called by the transition: a change of the request cancels, any
other error fails the transition. -/
def awaitScaleDown (previous : LLMBackend) (deadline : Deadline) : Body Nat :=
  orLeave (waitForScaleDown (backendDeploymentName previous) (checkCurrent am model) deadline)
      fun e =>
    if e.isTransitionChanged then pure (transitionCheckResult e)
    else failTransition am model.spec.model.name "ScaleDownTimeout" "scale_down_timeout" e

/-- Step 1: scale down the current backend when it is not the target. -/
def scaleDownPrevious (previous : Option LLMBackend) (deadline : Deadline) : Body Nat :=
  match previous with
  | none => pure deadline.polls
  | some previous =>
    if backendDeploymentName previous = backendDeploymentName backend then pure deadline.polls
    else do
      guardCurrent am model
      orLeave (scaleDeployment (backendDeploymentName previous) 0)
        (failTransition am model.spec.model.name "ScaleDownFailed" "scale_down_failed")
      awaitScaleDown am model previous deadline

def cacheHot : String := "hot"

/-- The model with its cache state and condition updated. -/
def withCacheState (result : String) (hydrated : Time) : LLMModel :=
  setCondition
    { model with status := { model.status with cacheState := some ⟨result, some hydrated⟩ } }
    artifactCachedCondition .true result "Artifact cached"

/-- The cache-manager branch of step 2. -/
def ensureHot (offline : Bool) (request : CacheRequest) : Body LLMModel := do
  let fail := failTransition am model.spec.model.name
  let result ← orLeave (cacheEnsure request) (fail "CacheFailed" "cache_failed")
  leaveIf (offline && result != cacheHot)
    (fail "OfflineSnapshotUnavailable" "offline_snapshot_unavailable"
      (.other ("cache-manager returned " ++ quote result ++
        " for offline backend; a hot snapshot is required before startup")))
  guardCurrent am model
  let hydrated ← now
  orError (writeModel (withCacheState model result hydrated))

/-- Step 2: ensure the artifact is cached; the model comes back with its new status. -/
def ensureCached (driver : RuntimeDriver) : Body LLMModel := do
  let fail := failTransition am model.spec.model.name
  let cacheRequest ← orLeave (pure (driver.cacheRequest model))
    (fail "InvalidCacheConfiguration" "invalid_cache_configuration")
  let offline ← orLeave (backendOfflineMode backend)
    (fail "OfflineModeInspectionFailed" "offline_mode_inspection_failed")
  match cacheRequest, r.cacheManagerURL != "" with
  | some request, true => ensureHot am model offline request
  | _, _ => do
    leaveIf offline (fail "OfflineSnapshotUnavailable" "offline_snapshot_unavailable"
      (.other
        "offline backend requires a hot cache snapshot, but cache materialization is unavailable"))
    return model

/-- Step 3: patch the selected container of the target Deployment. -/
def activateTarget : Body Unit :=
  orLeave (activateDeployment r model backend)
    (failTransition am model.spec.model.name "PatchFailed" "patch_failed")

def backendURL : String :=
  "http://" ++ backendServiceName backend ++ ":" ++ toString (backendPort backend)

/-- Steps 4 to 6: rollout, health and runtime metadata. A change of the request noticed
while waiting for health fails the transition like any other error there. -/
def awaitServing (deadline : Deadline) : Body (Option RuntimeMetadata) := do
  let fail := failTransition am model.spec.model.name
  let polls ← orLeave (waitForRollout (backendDeploymentName backend) (checkCurrent am model)
      deadline) fun e =>
    if e.isTransitionChanged then pure (transitionCheckResult e)
    else fail "RolloutFailed" "rollout_failed" e
  guardCurrent am model
  orLeave (waitForBackendHealth (backendURL backend) (checkCurrent am model) polls)
    (fail "HealthCheckFailed" "health_check_failed")
  guardCurrent am model
  let runtimeMeta ← collectRuntimeMetadata (backendURL backend) model
  guardCurrent am model
  return runtimeMeta

/-- The target model, active. -/
def markActive (runtimeMeta : Option RuntimeMetadata) : LLMModel :=
  { model with status :=
    { model.status with
      active := true
      phase := .active
      runtimeMetadata := runtimeMeta.or model.status.runtimeMetadata } }

/-- The previous model, inactive. -/
def markInactive : LLMModel :=
  { model with status := { model.status with active := false, phase := .ready } }

/-- Step 8: deactivate the previous model; one that is not found is skipped. -/
def deactivatePrevious : Body Unit :=
  if am.status.transitionFrom ≠ "" ∧ am.status.transitionFrom ≠ model.spec.model.name then do
    match ← (findModel am.status.transitionFrom : Go _) with
    | .error _ => pure ()
    | .ok previous => do
      let _ ← orLeave (writeModel (markInactive previous)) fun e =>
        pure (.error (.wrap "deactivate previous model" e))
  else pure ()

/-- The published status. -/
def published (duration : Int) : LLMActiveModel :=
  setActiveConditions
    { am with status :=
      { am.status with
        modelName := model.spec.model.name
        backendType := model.spec.serving.backend
        phase := .stable
        transitionDuration := some duration } }

/-- Step 9: mark stable. The start of the transition is dereferenced unchecked. -/
def markStable : Body Outcome :=
  match am.status.transitionStarted with
  | none => throw .panic
  | some started => do
    let finished ← now
    let _ ← orError (writeActive (published am model (Int.subNatNat finished started)))
    return .done

/-- Steps 7 to 9: flag the target, unflag the previous model, mark stable. -/
def publish (am : LLMActiveModel) (model : LLMModel) (runtimeMeta : Option RuntimeMetadata) :
    Body Outcome := do
  let model ← orLeave (writeModel (markActive model runtimeMeta)) fun e =>
    pure (.error (.wrap "update target model status" e))
  guardCurrent am model
  deactivatePrevious am model
  guardCurrent am model
  markStable am model

/-- `executeTransition` once the token is persisted. -/
def driveTransition (deadline : Deadline) : Body Outcome := do
  guardCurrent am model
  let driver ← validateTarget r am model
  let previous ← resolvePrevious am model
  let polls ← scaleDownPrevious am model backend previous deadline
  guardCurrent am model
  let model ← ensureCached r am model backend driver
  guardCurrent am model
  activateTarget r am model backend
  guardCurrent am model
  let runtimeMeta ← awaitServing am model backend { deadline with polls := polls }
  publish am model runtimeMeta

def executeTransition : Body Outcome := do
  let deadline ← withTimeout
  let am ← beginTransition am
  driveTransition r am model backend deadline

/-! ## Reconcile -/

/-- `client.IgnoreNotFound`. -/
def ignoreNotFound (e : Err) : Outcome := if e.isNotFound then .done else .error e

/-- A reconcile that ends in phase `Failed` before any transition. -/
def refused (reason message : String) : LLMActiveModel :=
  setActiveCondition (setPhase am .failed) modelActiveCondition .false reason message

/-- The fast path: the model is already published and its Deployment matches. -/
def stableFastPath : Body Unit :=
  if am.status.modelName = am.spec.modelName ∧
      am.status.backendType = model.spec.serving.backend then do
    let isMatch ← orError (deploymentMatchesModel model backend)
    leaveIf (isMatch && am.status.phase != .stable)
      (writeActiveThen (setActiveConditions (setPhase am .stable)) .done)
    leaveIf isMatch (pure .done)
  else pure ()

/-- The gates in front of a transition. -/
def transitionGates : Body Unit := do
  leaveIf (!r.transitionsEnabled)
    (writeActiveThen (setActiveCondition (setPhase am .transitioning) modelActiveCondition .false
      "TransitionsDisabled" "Model transitions are disabled on this controller manager") .done)
  leaveIf (r.allowedTransitionModels != [] &&
      !r.allowedTransitionModels.contains model.spec.model.name)
    (writeActiveThen (refused am "CanaryDenied" ("model " ++ quote model.spec.model.name ++
      " is not in the transition canary allowlist")) .done)

/-- The copy `Reconcile` works on: the object as read, observed. -/
def observe : LLMActiveModel :=
  { am with status := { am.status with observedGeneration := am.generation } }

def reconcileBody : Body Outcome := do
  let stored ← orLeave (getActive name) fun e => pure (ignoreNotFound e)
  let am := observe stored
  let owner ← orError singletonOwner
  leaveIf (owner != am.name)
    (writeActiveThen (refused am "DuplicateActiveModel" ("LLMActiveModel " ++ quote owner ++
      " owns transitions in namespace " ++ quote am.ns)) .retryLater)
  let model ← orLeave (findModel am.spec.modelName) fun e =>
    writeActiveIgnoring (refused am "ModelNotFound" e.error) .retryLater
  let backend ← orLeave (findBackendOf model) fun e =>
    writeActiveIgnoring (refused am "BackendNotFound" e.error) .retryLater
  stableFastPath am model backend
  transitionGates r am model
  executeTransition r am model backend

def reconcile : Go Outcome :=
  (reconcileBody r name).exit

end

end LlmOperator.Controller
