import LlmOperator.Data.MergePatch

/-!
# The objects of the API

The custom resources of the operator (`api/cogito.dev/v1alpha1`) and the parts of the
Kubernetes types that the controllers read or write. All objects live in one namespace
and are known by their names in it.

A pointer of the source is an `Option`; a map is a finite map; an enumeration is an
inductive type, with the empty text as its first value where a status may not have been
written yet. Lists stand for slices, a nil slice and an empty one being the same list.
Fields which no modelled function reads or writes are kept together, by field name, where
an object is compared or replaced as a whole, and are left out elsewhere.
-/

namespace LlmOperator.Api

open Data

/-- Nanoseconds since the epoch. -/
abbrev Time : Type := Nat

/-! ## Errors -/

/-- The errors a call may return, as far as the callers distinguish them. -/
inductive Err where
  | notFound (message : String)
  | conflict (message : String)
  | forbidden (message : String)
  | deadlineExceeded
  | canceled
  /-- `errTransitionChanged`, with the text its only use adds to it. -/
  | transitionChanged
  | other (message : String)
  /-- `fmt.Errorf` with `%w`: a text in front of an inner error. -/
  | wrap (context : String) (inner : Err)
  deriving DecidableEq

namespace Err

/-- The text of an error. -/
def error : Err → String
  | notFound m => m
  | conflict m => m
  | forbidden m => m
  | deadlineExceeded => "context deadline exceeded"
  | canceled => "context canceled"
  | transitionChanged => "transition cancelled: requested model or generation changed"
  | other m => m
  | wrap c e => c ++ ": " ++ e.error

/-- `errors.Is(err, errTransitionChanged)`. -/
def isTransitionChanged : Err → Bool
  | transitionChanged => true
  | wrap _ e => e.isTransitionChanged
  | _ => false

/-- `apierrors.IsNotFound`. -/
def isNotFound : Err → Bool
  | notFound _ => true
  | wrap _ e => e.isNotFound
  | _ => false

/-- `apierrors.IsForbidden`. -/
def isForbidden : Err → Bool
  | forbidden _ => true
  | wrap _ e => e.isForbidden
  | _ => false

/-- `errors.Is`: the error, or one it wraps, is the given one. -/
def is : Err → Err → Bool
  | wrap c e, target => wrap c e == target || e.is target
  | e, target => e == target

end Err

/-! ## Conditions -/

inductive ConditionStatus where
  | true
  | false
  deriving DecidableEq

/-- A `metav1.Condition`. Its last transition time is written and never read. -/
structure Condition where
  type : String
  status : ConditionStatus
  reason : String
  message : String
  deriving DecidableEq

/-! ## LLMModel -/

/-- The serving runtime. `other` is any text that names no compiled-in runtime, and the
empty text where a status has none yet. -/
inductive BackendType where
  | vllm
  | sglang
  | llamaCpp
  | other (text : String)
  deriving DecidableEq

namespace BackendType

def text : BackendType → String
  | vllm => "vllm"
  | sglang => "sglang"
  | llamaCpp => "llama-cpp"
  | other s => s

def empty : BackendType := other ""

end BackendType

inductive LLMModelPhase where
  | none
  | pending
  | ready
  | active
  | transitioning
  | failed
  deriving DecidableEq

structure LLMModelRef where
  name : String
  source : String
  revision : String
  artifactRepository : String
  deriving DecidableEq

structure ArtifactSpec where
  expectedSize : String
  files : List String
  materializationTarget : String
  deriving DecidableEq

structure ChatTemplateSpec where
  configMapName : String
  configMapKey : String
  sha256 : String
  deriving DecidableEq

structure ServingSpec where
  backend : BackendType
  toolCallParser : String
  reasoningParser : String
  chatTemplate : Option ChatTemplateSpec
  args : List String
  deriving DecidableEq

structure LLMModelSpec where
  model : LLMModelRef
  artifact : Option ArtifactSpec
  serving : ServingSpec
  backendRef : Option String
  deriving DecidableEq

structure CacheState where
  location : String
  lastHydrated : Option Time
  deriving DecidableEq

structure RuntimeMetadata where
  servedModelIDs : List String
  contextLength : Nat
  deriving DecidableEq

structure LLMModelStatus where
  phase : LLMModelPhase
  active : Bool
  cacheState : Option CacheState
  runtimeMetadata : Option RuntimeMetadata
  conditions : List Condition
  observedGeneration : Nat
  deriving DecidableEq

structure LLMModel where
  name : String
  generation : Nat
  resourceVersion : Nat
  spec : LLMModelSpec
  status : LLMModelStatus
  deriving DecidableEq

/-! ## Pod templates and Deployments -/

structure EnvVar where
  name : String
  value : String
  deriving DecidableEq

structure VolumeMount where
  name : String
  mountPath : String
  readOnly : Bool
  subPath : String
  deriving DecidableEq

structure KeyToPath where
  key : String
  path : String
  deriving DecidableEq

/-- A ConfigMap volume source, or any other source by its text. -/
inductive VolumeSource where
  | configMap (name : String) (items : List KeyToPath) (defaultMode : Option Nat)
  | other (text : String)
  deriving DecidableEq

structure Volume where
  name : String
  source : VolumeSource
  deriving DecidableEq

/-- A container; `other` holds its remaining fields, the image among them. -/
structure Container where
  name : String
  args : List String
  env : List EnvVar
  volumeMounts : List VolumeMount
  other : FMap String String
  deriving DecidableEq

/-- A pod spec; `other` holds its remaining fields. -/
structure PodSpec where
  containers : List Container
  volumes : List Volume
  other : FMap String String
  deriving DecidableEq

structure PodTemplateSpec where
  labels : FMap String String
  annotations : FMap String String
  spec : PodSpec
  deriving DecidableEq

/-- A Deployment spec; `other` holds its remaining fields. -/
structure DeploymentSpec where
  replicas : Option Int
  selector : FMap String String
  template : PodTemplateSpec
  strategy : String
  other : FMap String String
  deriving DecidableEq

structure DeploymentStatus where
  observedGeneration : Nat
  replicas : Nat
  updatedReplicas : Nat
  availableReplicas : Nat
  deriving DecidableEq

structure Deployment where
  name : String
  generation : Nat
  labels : FMap String String
  ownerReferences : List String
  spec : DeploymentSpec
  status : DeploymentStatus
  deriving DecidableEq

/-! ## Services -/

structure ServicePort where
  name : String
  port : Int
  targetPort : Int
  protocol : String
  deriving DecidableEq

/-- A Service spec. `addresses` holds the cluster addresses and IP families, by field name, and
`other` the remaining fields. -/
structure ServiceSpec where
  type : String
  addresses : FMap String String
  selector : FMap String String
  ports : List ServicePort
  other : FMap String String
  deriving DecidableEq

structure Service where
  name : String
  labels : FMap String String
  annotations : FMap String String
  ownerReferences : List String
  spec : ServiceSpec
  deriving DecidableEq

/-! ## LLMBackend -/

structure BackendDeploymentSpec where
  name : String
  replicas : Option Int
  strategy : String
  podTemplate : PodTemplateSpec
  deriving DecidableEq

structure BackendServiceSpec where
  name : String
  port : Nat
  portName : String
  annotations : FMap String String
  deriving DecidableEq

structure BackendWorkloadSpec where
  containerName : String
  deployment : BackendDeploymentSpec
  service : BackendServiceSpec
  deriving DecidableEq

structure BackendCapacitySpec where
  gpus : Int
  resourceName : String
  deriving DecidableEq

structure GPUResourceRequirements where
  requests : FMap String String
  limits : FMap String String
  deriving DecidableEq

structure LLMBackendSpec where
  type : BackendType
  capacity : Option BackendCapacitySpec
  workload : Option BackendWorkloadSpec
  deploymentRef : String
  containerName : String
  serviceRef : String
  port : Nat
  runtimeClassName : String
  gpuResources : Option GPUResourceRequirements
  deriving DecidableEq

/-- The spec of an object as Go makes it. -/
def LLMBackendSpec.zero : LLMBackendSpec where
  type := .empty
  capacity := none
  workload := none
  deploymentRef := ""
  containerName := ""
  serviceRef := ""
  port := 0
  runtimeClassName := ""
  gpuResources := none

inductive LLMBackendPhase where
  | none
  | stopped
  | starting
  | serving
  | failed
  deriving DecidableEq

structure LLMBackendStatus where
  phase : LLMBackendPhase
  activeModel : String
  activeModelSince : Option Time
  replicas : Nat
  availableReplicas : Nat
  conditions : List Condition
  observedGeneration : Nat
  deriving DecidableEq

/-- The status of an object that was never reconciled. -/
def LLMBackendStatus.zero : LLMBackendStatus where
  phase := .none
  activeModel := ""
  activeModelSince := none
  replicas := 0
  availableReplicas := 0
  conditions := []
  observedGeneration := 0

/-- The metadata of a backend; `other` holds its remaining fields. -/
structure BackendMeta where
  name : String
  generation : Nat
  deletionTimestamp : Option Time
  finalizers : List String
  other : FMap String String
  deriving DecidableEq

/-- The metadata of an object as Go makes it, but for its name. -/
def BackendMeta.named (name : String) : BackendMeta := ⟨name, 0, none, [], ∅⟩

structure LLMBackend where
  objectMeta : BackendMeta
  spec : LLMBackendSpec
  status : LLMBackendStatus
  deriving DecidableEq

/-- The object's name in its namespace. -/
abbrev LLMBackend.name (b : LLMBackend) : String := b.objectMeta.name

/-! ## LLMActiveModel -/

inductive LLMActiveModelPhase where
  | none
  | stable
  | transitioning
  | failed
  deriving DecidableEq

structure LLMActiveModelStatus where
  modelName : String
  backendType : BackendType
  phase : LLMActiveModelPhase
  transitionFrom : String
  transitionStarted : Option Time
  transitionDuration : Option Int
  transitionGeneration : Nat
  conditions : List Condition
  observedGeneration : Nat
  deriving DecidableEq

/-- The status of an object that was never reconciled. -/
def LLMActiveModelStatus.zero : LLMActiveModelStatus where
  modelName := ""
  backendType := .empty
  phase := .none
  transitionFrom := ""
  transitionStarted := none
  transitionDuration := none
  transitionGeneration := 0
  conditions := []
  observedGeneration := 0

structure LLMActiveModelSpec where
  modelName : String
  deriving DecidableEq

structure LLMActiveModel where
  name : String
  /-- The namespace, which only messages mention. -/
  ns : String
  creationTimestamp : Time
  generation : Nat
  resourceVersion : Nat
  spec : LLMActiveModelSpec
  status : LLMActiveModelStatus
  deriving DecidableEq

/-! ## Requests to the cache manager -/

structure CacheSpec where
  kind : String
  repoID : String
  revision : String
  size : Int
  files : List String
  materializationTarget : String
  deriving DecidableEq

structure CacheRequest where
  model : String
  backend : String
  cache : CacheSpec
  deriving DecidableEq

end LlmOperator.Api
