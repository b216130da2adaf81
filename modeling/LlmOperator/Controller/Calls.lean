import LlmOperator.Interaction.Safety
import LlmOperator.Controller.Deployments

/-!
# The calls of the active-model controller

Everything `LLMActiveModelReconciler` asks of its surroundings: reads and writes of the
API server, requests to the cache manager and to the runtime, the clock, and the
deadline of a transition. What is answered is left open here.

A status update sends the whole object. The API server takes its status and answers with
the new resource version; the rest of the object is what is stored under the version the
client holds, so the client's copy stays as it is apart from that version.
-/

namespace LlmOperator.Controller

open Api Interaction

/-- A deadline: how many polls fit before it, and whether the context then ends because the
caller's did. -/
structure Deadline where
  polls : Nat
  canceled : Bool

/-- `ctx.Err()` after the deadline. -/
def Deadline.err (deadline : Deadline) : Err :=
  if deadline.canceled then .canceled else .deadlineExceeded

/-- The data of a ConfigMap, by key. -/
structure ConfigMap where
  name : String
  data : Data.FMap String String

inductive Call where
  | getActive (name : String)
  | listActive
  | listModels
  | getBackend (name : String)
  | listBackends
  | getConfigMap (name : String)
  | getDeployment (name : String)
  /-- The raw merge patch of `spec.replicas`. -/
  | scaleDeployment (name : String) (replicas : Int)
  /-- The merge patch from `base` to `next`. -/
  | patchDeployment (base next : Deployment)
  | updateActiveStatus (obj : LLMActiveModel)
  | updateModelStatus (obj : LLMModel)
  /-- `POST /v1/ensure` of the cache manager. -/
  | cacheEnsure (request : CacheRequest)
  /-- `driver.CheckHealth`. -/
  | checkHealth (url : String)
  /-- `driver.CollectRuntimeMetadata`; a failure is logged and gives nothing. -/
  | collectRuntimeMetadata (url : String) (model : LLMModel)
  | now
  /-- `context.WithTimeout`. -/
  | withTimeout
  /-- `metrics.RecordTransitionFailure`. -/
  | recordTransitionFailure (modelName metricReason : String)

namespace Call

def Answer : Call → Type
  | getActive _ => Except Err LLMActiveModel
  | listActive => Except Err (List LLMActiveModel)
  | listModels => Except Err (List LLMModel)
  | getBackend _ => Except Err LLMBackend
  | listBackends => Except Err (List LLMBackend)
  | getConfigMap _ => Except Err ConfigMap
  | getDeployment _ => Except Err Deployment
  | scaleDeployment _ _ => Except Err Unit
  | patchDeployment _ _ => Except Err Unit
  | updateActiveStatus _ => Except Err Nat
  | updateModelStatus _ => Except Err Nat
  | cacheEnsure _ => Except Err String
  | checkHealth _ => Except Err Unit
  | collectRuntimeMetadata _ _ => Option RuntimeMetadata
  | now => Time
  | withTimeout => Deadline
  | recordTransitionFailure _ _ => Unit

/-- The calls that change something outside the controller. -/
def isMutation : Call → Bool
  | scaleDeployment _ _ => true
  | patchDeployment _ _ => true
  | updateActiveStatus _ => true
  | updateModelStatus _ => true
  | cacheEnsure _ => true
  | _ => false

end Call

/-- The signature of the controller's calls. -/
abbrev Kube : Sig := ⟨Call, Call.Answer⟩

/-- An answer to any call, which is an error where there can be one. -/
def Call.someAnswer : (c : Call) → c.Answer
  | .getActive _ | .listActive | .listModels | .getBackend _ | .listBackends | .getConfigMap _
  | .getDeployment _ | .scaleDeployment .. | .patchDeployment .. | .updateActiveStatus _
  | .updateModelStatus _ | .cacheEnsure _ | .checkHealth _ => .error (.other "unused")
  | .collectRuntimeMetadata .. => none
  | .now => (0 : Nat)
  | .withTimeout => ⟨0, false⟩
  | .recordTransitionFailure .. => ()

/-! What conditions on a run look at: a read of the object, and a listing of the models that has
failed. -/

def activeRead : Event Kube → Option (Except Err LLMActiveModel)
  | ⟨.getActive _, a⟩ => some a
  | _ => none

def listingFailed : Event Kube → Bool
  | ⟨.listModels, .error _⟩ => true
  | _ => false

abbrev Go (α : Type) : Type := Prog Kube α

def call (c : Call) : Go c.Answer := Prog.perform (S := Kube) c

def getActive (name : String) : Go (Except Err LLMActiveModel) := call (.getActive name)

def listActive : Go (Except Err (List LLMActiveModel)) := call .listActive

def listModels : Go (Except Err (List LLMModel)) := call .listModels

def getBackend (name : String) : Go (Except Err LLMBackend) := call (.getBackend name)

def listBackends : Go (Except Err (List LLMBackend)) := call .listBackends

def getConfigMap (name : String) : Go (Except Err ConfigMap) := call (.getConfigMap name)

def getDeployment (name : String) : Go (Except Err Deployment) := call (.getDeployment name)

def patchDeployment (base next : Deployment) : Go (Except Err Unit) :=
  call (.patchDeployment base next)

def updateActiveStatus (obj : LLMActiveModel) : Go (Except Err Nat) :=
  call (.updateActiveStatus obj)

def updateModelStatus (obj : LLMModel) : Go (Except Err Nat) := call (.updateModelStatus obj)

def cacheEnsure (request : CacheRequest) : Go (Except Err String) := call (.cacheEnsure request)

def checkHealth (url : String) : Go (Except Err Unit) := call (.checkHealth url)

def collectRuntimeMetadata (url : String) (model : LLMModel) : Go (Option RuntimeMetadata) :=
  call (.collectRuntimeMetadata url model)

def now : Go Time := call .now

def withTimeout : Go Deadline := call .withTimeout

def recordTransitionFailure (modelName metricReason : String) : Go Unit :=
  call (.recordTransitionFailure modelName metricReason)

/-- What a reconcile hands back: a result, an error, or a nil dereference. -/
inductive Outcome where
  | result (requeue : Bool) (requeueAfterSeconds : Nat)
  | error (e : Err)
  | panic
  deriving DecidableEq

/-- `ctrl.Result{}` without an error. -/
def Outcome.done : Outcome := .result false 0

/-- `ctrl.Result{RequeueAfter: 30 * time.Second}`. -/
def Outcome.retryLater : Outcome := .result false 30

/-- The body of a function that ends a reconcile wherever it returns. -/
abbrev Body (α : Type) : Type := Flow Kube Outcome α

/-- `if err != nil { return handler(err) }`. -/
def orLeave {α : Type} (p : Go (Except Err α)) (handler : Err → Go Outcome) : Body α :=
  ExceptT.mk do
    match ← p with
    | .ok a => return .ok a
    | .error e => return .error (← handler e)

/-- `if err != nil { return ctrl.Result{}, err }`. -/
def orError {α : Type} (p : Go (Except Err α)) : Body α := orLeave p fun e => pure (.error e)

/-- `if c { return ... }`. -/
def leaveIf (c : Bool) (p : Go Outcome) : Body Unit :=
  ExceptT.mk (if c then do return .error (← p) else return .ok ())

/-! ## Rules for bodies -/

section Rules

variable {α σ : Type} {W : World Kube σ} {s : σ} {p : Go (Except Err α)} {Q : α → σ → Prop}

theorem stays_orLeave {handler : Err → Go Outcome} (h : Safe W p (fun x s => match x with
      | .ok a => Q a s
      | .error e => Safe W (handler e) (fun _ _ => True) s) s) :
    Safe W (orLeave p handler).prog (Safe.Stays Q) s := by
  refine Safe.bind (h.mono ?_)
  intro x s hx
  cases x with
  | ok a => exact hx
  | error e => exact Safe.bind hx

/-- An error that is handed on without a further call. -/
theorem stays_orLeave_pure {f : Err → Outcome}
    (h : Safe W p (fun x s => ∀ a, x = .ok a → Q a s) s) :
    Safe W (orLeave p fun e => pure (f e)).prog (Safe.Stays Q) s := by
  refine stays_orLeave (h.mono ?_)
  intro x s hx
  cases x with
  | ok a => exact hx a rfl
  | error e => trivial

theorem stays_orError (h : Safe W p (fun x s => ∀ a, x = .ok a → Q a s) s) :
    Safe W (orError p).prog (Safe.Stays Q) s :=
  stays_orLeave_pure h

theorem stays_leaveIf {c : Bool} {p : Go Outcome} {Q : Unit → σ → Prop}
    (hleave : c = true → Safe W p (fun _ _ => True) s) (hstay : c = false → Q () s) :
    Safe W (leaveIf c p).prog (Safe.Stays Q) s := by
  cases c with
  | true => exact Safe.bind (hleave rfl)
  | false => exact hstay rfl

end Rules

end LlmOperator.Controller
