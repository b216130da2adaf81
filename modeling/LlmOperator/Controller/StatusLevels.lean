import LlmOperator.Controller.BackendReconcile
import LlmOperator.Controller.ModelReconcile
import LlmOperator.Data.Overlay

/-!
# What a status says, and what a reconcile leaves of it

A status is written branch by branch, and a branch sets some of the condition types only. Seen
as a function of its aspects (the phase, the active model, the truth of each condition type),
what a branch does is an overlay, and what the overlay does not set is what was stored before.

`level_triggered_iff` compares two reconciles of one cluster state that start from different
stored statuses. They end with the same status exactly when the stored ones agreed on the aspects
which the branch leaves alone.
-/

namespace LlmOperator.Controller

open Api Data Backend Interaction Interaction.Prog

/-! ## Levels -/

/-- What a status is read for. -/
inductive Aspect where
  | phase
  | activeModel
  | condition (conditionType : String)
  deriving DecidableEq

inductive Reading where
  | backendPhase (phase : LLMBackendPhase)
  | modelPhase (phase : LLMModelPhase)
  | name (text : String)
  /-- A condition that is there, with its truth value, or one that is not. -/
  | truth (status : Option ConditionStatus)
  deriving DecidableEq

/-- The truth value of a condition type, as the first condition of the type gives it. -/
def truthOf (conditions : List Condition) (conditionType : String) : Option ConditionStatus :=
  (conditions.find? fun c => c.type == conditionType).map Condition.status

theorem truthOf_putCondition (c : Condition) (conditions : List Condition)
    (conditionType : String) :
    truthOf (putCondition c conditions) conditionType =
      if conditionType = c.type then some c.status else truthOf conditions conditionType := by
  rw [truthOf, find?_putCondition, apply_ite (Option.map Condition.status)]
  simp only [eq_comm (a := c.type)]
  rfl

/-- A reconcile that ends without an error. -/
def Outcome.Completes : Outcome → Prop
  | .result _ _ => True
  | _ => False

instance (o : Outcome) : Decidable o.Completes :=
  match o with
  | .result _ _ => .isTrue trivial
  | .error _ => .isFalse id
  | .panic => .isFalse id

/-! ## Backends -/

/-- What the status of a backend says. -/
def backendLevel (status : LLMBackendStatus) : Aspect → Reading
  | .phase => .backendPhase status.phase
  | .activeModel => .name status.activeModel
  | .condition conditionType => .truth (truthOf status.conditions conditionType)

/-- A change of a backend status sets these aspects. -/
abbrev SetsBackend (f : LLMBackendStatus → LLMBackendStatus) (o : Overlay Aspect Reading) : Prop :=
  Overlay.Describes backendLevel f o

theorem setsBackend_condition (conditionType : String) (v : ConditionStatus)
    (reason message : String) :
    SetsBackend (setBackendCondition · conditionType v reason message)
      [(.condition conditionType, .truth (some v))] := by
  intro status
  funext k
  cases k with
  | phase => rfl
  | activeModel => rfl
  | condition t =>
    simp only [backendLevel, setBackendCondition, truthOf_putCondition, Overlay.apply,
      List.lookup_cons, List.lookup_nil]
    by_cases h : t = conditionType
    · simp [h]
    · have hk : ((Aspect.condition t) == .condition conditionType) = false := by simpa using h
      rw [if_neg h, hk]
      rfl

theorem setsBackend_phase (phase : LLMBackendPhase) :
    SetsBackend (setBackendPhase · phase) [(.phase, .backendPhase phase)] := by
  intro status
  funext k
  cases k <;> rfl

theorem setsBackend_replicas (replicas availableReplicas : Nat) :
    SetsBackend (fun status => { status with
      replicas := replicas, availableReplicas := availableReplicas }) [] := by
  refine Overlay.describes_nil ?_
  intro status
  funext k
  cases k <;> rfl

theorem setsBackend_observed (generation : Nat) :
    SetsBackend (fun status => { status with observedGeneration := generation }) [] := by
  refine Overlay.describes_nil ?_
  intro status
  funext k
  cases k <;> rfl

/-- The active model that the annotations of a Deployment name. -/
def activeModelEntries (annotations : FMap String String) : Overlay Aspect Reading :=
  match annotations.lookup activeModelAnno with
  | none => []
  | some activeModel => [(.activeModel, .name activeModel)]

theorem setsBackend_readActiveModel (r : LLMBackendReconciler) (annotations : FMap String String) :
    SetsBackend (readActiveModel r annotations) (activeModelEntries annotations) := by
  intro status
  unfold readActiveModel activeModelEntries
  cases annotations.lookup activeModelAnno with
  | none => rfl
  | some activeModel =>
    funext k
    cases k <;> rfl

/-! The branches. -/

/-- The entries of a branch that gives up on the Deployment. -/
def noDeploymentEntries : Overlay Aspect Reading :=
  [(.phase, .backendPhase .failed), (.condition deploymentExistsCondition, .truth (some .false))]

theorem setsBackend_workloadInvalid (e : Err) :
    SetsBackend (workloadInvalid e) noDeploymentEntries :=
  (setsBackend_phase _).comp (setsBackend_condition _ _ _ _)

theorem setsBackend_deploymentMissing (e : Err) :
    SetsBackend (deploymentMissing e) noDeploymentEntries :=
  (setsBackend_replicas 0 0).comp ((setsBackend_phase _).comp (setsBackend_condition _ _ _ _))

/-- The entries for a Deployment that was read. -/
def deploymentEntries (d : Deployment) : Overlay Aspect Reading :=
  activeModelEntries d.spec.template.annotations ++
    [(.condition deploymentExistsCondition, .truth (some .true))]

theorem setsBackend_deploymentFound (r : LLMBackendReconciler) (d : Deployment) :
    SetsBackend (deploymentFound r d) (deploymentEntries d) :=
  (setsBackend_readActiveModel r _).comp ((setsBackend_replicas d.status.replicas _).comp
    (setsBackend_condition _ _ _ _))

/-- The phase, and whether the backend is healthy. -/
def healthEntries (phase : LLMBackendPhase) (healthy : ConditionStatus) : Overlay Aspect Reading :=
  [(.phase, .backendPhase phase), (.condition backendHealthyCondition, .truth (some healthy))]

theorem setsBackend_unsupported (e : Err) :
    SetsBackend (backendUnsupported e) (healthEntries .failed .false) :=
  (setsBackend_phase _).comp (setsBackend_condition _ _ _ _)

theorem setsBackend_unhealthy (e : Err) :
    SetsBackend (backendUnhealthy e) (healthEntries .starting .false) :=
  (setsBackend_phase _).comp (setsBackend_condition _ _ _ _)

theorem setsBackend_stopped : SetsBackend backendStopped (healthEntries .stopped .false) :=
  (setsBackend_phase _).comp (setsBackend_condition _ _ _ _)

/-- The entries of a backend that serves. -/
def servingEntries : Overlay Aspect Reading :=
  [(.phase, .backendPhase .serving), (.condition modelLoadedCondition, .truth (some .true)),
    (.condition backendHealthyCondition, .truth (some .true))]

theorem setsBackend_serving : SetsBackend backendServing servingEntries :=
  (setsBackend_phase _).comp ((setsBackend_condition _ _ _ _).comp (setsBackend_condition _ _ _ _))

/-! ## The run of a backend reconcile -/

/-- A call that neither reads nor writes the reconciled backend. -/
def BackendCall.IsBlind : BackendCall → Prop
  | .getBackend _ => False
  | .updateBackend _ => False
  | .updateBackendStatus _ => False
  | _ => True

section Blind

theorem blind_wrapError {context : String} {p : BackendGo (Except Err Unit)}
    (hp : p.Only BackendCall.IsBlind) : (wrapError context p).Only BackendCall.IsBlind := by
  refine only_bind hp ?_
  intro x
  cases x <;> trivial

section

variable (r : LLMBackendReconciler) (backend : LLMBackend)

theorem blind_ensureService (workload : BackendWorkloadSpec) :
    (ensureService r backend workload).Only BackendCall.IsBlind := by
  have hwrite : ∀ existing,
      (writeService r backend workload existing).Only BackendCall.IsBlind := by
    intro existing
    unfold writeService
    dsimp only
    split
    · trivial
    · split
      · exact blind_wrapError ⟨trivial, fun _ => trivial⟩
      · split
        · trivial
        · exact blind_wrapError ⟨trivial, fun _ => trivial⟩
  refine ⟨trivial, ?_⟩
  intro x
  cases x with
  | ok service => exact hwrite _
  | error e =>
    show Only _ (if e.isNotFound then _ else _)
    split
    · exact hwrite _
    · trivial

theorem blind_ensureDeployment : (ensureDeployment r backend).Only BackendCall.IsBlind := by
  have hsend : ∀ write, (sendDeployment write).Only BackendCall.IsBlind := by
    rintro (e | (_ | d | ⟨base, next⟩))
    · trivial
    · trivial
    · exact blind_wrapError ⟨trivial, fun _ => trivial⟩
    · exact blind_wrapError ⟨trivial, fun _ => trivial⟩
  refine ⟨trivial, ?_⟩
  intro x
  cases x with
  | ok d => exact hsend _
  | error e =>
    show Only _ (if e.isNotFound then _ else _)
    split
    · exact hsend _
    · trivial

theorem blind_ensureBackendObjects : (ensureBackendObjects r backend).Only BackendCall.IsBlind := by
  unfold ensureBackendObjects
  split
  · trivial
  · split
    · trivial
    · refine only_bind (blind_ensureService r backend _) ?_
      intro x
      cases x with
      | error e => trivial
      | ok _ => exact blind_ensureDeployment r backend

end

end Blind

namespace BackendCluster

/-- The cluster with another status stored for the backend. -/
def withStatus (status : LLMBackendStatus) (s : BackendCluster) : BackendCluster :=
  { s with backend := { s.backend with status := status } }

variable {s : BackendCluster} {status : LLMBackendStatus}

@[simp] theorem objectMeta_withStatus :
    (s.withStatus status).backend.objectMeta = s.backend.objectMeta := rfl

@[simp] theorem spec_withStatus : (s.withStatus status).backend.spec = s.backend.spec := rfl

theorem answer_withStatus {c : BackendCall} (hc : c.IsBlind) :
    (s.withStatus status).answer c = ((s.answer c).1, (s.answer c).2.withStatus status) := by
  cases hfault : s.fault c with
  | some e =>
    rw [answer_of_fault_some hfault, answer_of_fault_some (s := s.withStatus status) hfault]
  | none =>
    rw [answer_of_fault_none hfault, answer_of_fault_none (s := s.withStatus status) hfault]
    cases c <;> first | exact hc.elim | rfl

theorem eval_withStatus {α : Type} {p : BackendGo α} (hp : p.Only BackendCall.IsBlind) :
    p.eval answer (s.withStatus status) =
      ((p.eval answer s).1, (p.eval answer s).2.withStatus status) :=
  eval_comm (fun _ _ => answer_withStatus) hp s

section

variable (r : LLMBackendReconciler) (backend : LLMBackend)

theorem status_storeBackendStatus {obj : LLMBackend}
    (h : s.fault (.updateBackendStatus obj) = none) :
    ((storeBackendStatus obj).eval answer s).2.backend.status = obj.status := by
  show (s.answer _).2.backend.status = _
  rw [answer_of_fault_none h]
  rfl

/-- A refused write of the status is the end of the reconcile. -/
theorem status_writeBackendStatus {f : LLMBackendStatus → LLMBackendStatus} {outcome : Outcome}
    (h : ((writeBackendStatus backend f outcome).eval answer s).1.Completes) :
    ((writeBackendStatus backend f outcome).eval answer s).2.backend.status = f backend.status := by
  unfold writeBackendStatus at h ⊢
  rw [eval_bind] at h ⊢
  cases hfault : s.fault (.updateBackendStatus { backend with status := f backend.status }) with
  | some e =>
    have hrefused : (storeBackendStatus { backend with status := f backend.status }).eval answer s =
        (.error e, s) := answer_of_fault_some hfault
    rw [hrefused] at h
    exact h.elim
  | none =>
    cases ((storeBackendStatus { backend with status := f backend.status }).eval answer s).1 with
    | error e => exact status_storeBackendStatus hfault
    | ok _ => exact status_storeBackendStatus hfault

/-- Where the Deployment cannot be read, a refused write of the status goes unnoticed. -/
theorem status_reconcileMissing {e : Err}
    (h : ∀ obj, s.fault (.updateBackendStatus obj) = none) :
    ((reconcileMissing backend e).eval answer s).2.backend.status =
      deploymentMissing e backend.status := by
  unfold reconcileMissing
  rw [eval_bind]
  exact status_storeBackendStatus (h _)

theorem fault_answer (c : BackendCall) : (s.answer c).2.fault = s.fault := by
  cases hfault : s.fault c with
  | some e => rw [answer_of_fault_some hfault]
  | none =>
    rw [answer_of_fault_none hfault]
    cases c <;> rfl

/-- Which calls fail does not change in a run. -/
theorem fault_eval {α : Type} (p : BackendGo α) : (p.eval answer s).2.fault = s.fault := by
  induction p generalizing s with
  | pure a => rfl
  | call c k ih =>
    rw [eval_call]
    exact (ih _).trans (fault_answer c)

/-- The generated objects are in place, and the Deployment cannot be read. -/
def Unread (s : BackendCluster) : Prop :=
  ((ensureBackendObjects r backend).eval answer s).1 = .ok () ∧
    ∃ e, ((fetchDeployment (backendDeploymentName backend)).eval answer
      ((ensureBackendObjects r backend).eval answer s).2).1 = .error e

theorem unread_withStatus : Unread r backend (s.withStatus status) ↔ Unread r backend s := by
  unfold Unread
  rw [eval_withStatus (blind_ensureBackendObjects r backend)]
  dsimp only
  rw [eval_withStatus (p := fetchDeployment _) ⟨trivial, fun _ => trivial⟩]

/-- What the health check sets, for a Deployment with that many available replicas. -/
def healthBranch (s : BackendCluster) (available : Nat) : Overlay Aspect Reading :=
  if r.hasHTTPClient ∧ 0 < available then
    match driverFor backend.spec.type with
    | .error _ => healthEntries .failed .false
    | .ok _ =>
      match ((probeHealth backend.spec.type (backendURL backend)).eval answer s).1 with
      | .ok () => servingEntries
      | .error _ => healthEntries .starting .false
  else if available = 0 then healthEntries .stopped .false
  else [(.phase, .backendPhase .starting)]

/-- What a reconcile sets once it knows the backend. -/
def workloadBranch (s : BackendCluster) : Overlay Aspect Reading :=
  match (ensureBackendObjects r backend).eval answer s with
  | (.error _, _) => noDeploymentEntries
  | (.ok (), s') =>
    match ((fetchDeployment (backendDeploymentName backend)).eval answer s').1 with
    | .error _ => noDeploymentEntries
    | .ok d => healthBranch r backend s' d.status.availableReplicas ++
        deploymentEntries d

/-- What a reconcile of the backend sets in this cluster: nothing while it is being deleted or
still lacks its finalizer. -/
def branch (s : BackendCluster) : Overlay Aspect Reading :=
  if (s.fault (.getBackend s.backend.name)).isSome ∨
      s.backend.objectMeta.deletionTimestamp.isSome ∨
      s.backend.spec.workload.isSome ∧
        backendWorkloadFinalizer ∉ s.backend.objectMeta.finalizers then []
  else workloadBranch r s.backend s

/-- How a reconcile of the backend ends. -/
def outcome (s : BackendCluster) : Outcome :=
  ((reconcileBackend r s.backend.name).eval answer s).1

/-- The status of the backend when a reconcile of it has run. -/
def endStatus (s : BackendCluster) : LLMBackendStatus :=
  ((reconcileBackend r s.backend.name).eval answer s).2.backend.status

/-- A call that leaves the stored status alone. -/
def KeepsStatus : BackendCall → Prop
  | .updateBackendStatus _ => False
  | _ => True

theorem status_answer {c : BackendCall} (hc : KeepsStatus c) :
    (s.answer c).2.backend.status = s.backend.status := by
  cases hfault : s.fault c with
  | some e => rw [answer_of_fault_some hfault]
  | none =>
    rw [answer_of_fault_none hfault]
    cases c <;> first | exact hc.elim | rfl

theorem status_eval {α : Type} {p : BackendGo α} (hp : p.Only KeepsStatus) :
    (p.eval answer s).2.backend.status = s.backend.status :=
  eval_keeps (I := fun s' : BackendCluster => s'.backend.status = s.backend.status)
    (fun _ _ hop h => (status_answer hop).trans h) hp rfl

theorem keepsStatus_updateBackend (obj : LLMBackend) : (updateBackend obj).Only KeepsStatus := by
  refine ⟨trivial, ?_⟩
  intro x
  cases x <;> trivial

theorem keepsStatus_reconcileBackendDeletion :
    (reconcileBackendDeletion backend).Only KeepsStatus := by
  unfold reconcileBackendDeletion
  split
  · trivial
  · refine only_bind (p := backendIsActive backend) ⟨trivial, ?_⟩ ?_
    · intro x
      cases x with
      | error e => trivial
      | ok models =>
        show Only _ (ite _ _ _)
        split
        · trivial
        · refine ⟨trivial, ?_⟩
          intro y
          cases y <;> trivial
    · intro x
      match x with
      | .error e => trivial
      | .ok true => trivial
      | .ok false => exact keepsStatus_updateBackend _

end

section

variable (r : LLMBackendReconciler)

theorem level_reconcileHealth {backend : LLMBackend}
    (h : ((reconcileHealth r backend).eval answer s).1.Completes) :
    backendLevel ((reconcileHealth r backend).eval answer s).2.backend.status =
      (healthBranch r backend s backend.status.availableReplicas).apply
        (backendLevel backend.status) := by
  revert h
  unfold reconcileHealth healthBranch
  split
  · cases driverFor backend.spec.type with
    | error e =>
      intro h
      rw [status_writeBackendStatus _ h]
      exact setsBackend_unsupported e _
    | ok driver =>
      dsimp only
      rw [eval_bind]
      cases ((probeHealth backend.spec.type (backendURL backend)).eval answer s).1 with
      | ok _ =>
        intro h
        rw [status_writeBackendStatus _ h]
        exact setsBackend_serving _
      | error e =>
        intro h
        rw [status_writeBackendStatus _ h]
        exact setsBackend_unhealthy e _
  · split
    · intro h
      rw [status_writeBackendStatus _ h]
      exact setsBackend_stopped _
    · intro h
      rw [status_writeBackendStatus _ h]
      exact setsBackend_phase _ _

theorem availableReplicas_deploymentFound (d : Deployment) (status : LLMBackendStatus) :
    (deploymentFound r d status).availableReplicas = d.status.availableReplicas := by
  unfold deploymentFound readActiveModel
  split <;> rfl

theorem level_reconcileWorkload {backend : LLMBackend}
    (h : ((reconcileWorkload r backend).eval answer s).1.Completes)
    (hwrites : Unread r backend s → ∀ obj, s.fault (.updateBackendStatus obj) = none) :
    backendLevel ((reconcileWorkload r backend).eval answer s).2.backend.status =
      (workloadBranch r backend s).apply (backendLevel backend.status) := by
  revert h
  have hfault := fault_eval (s := s) (ensureBackendObjects r backend)
  unfold Unread at hwrites
  unfold reconcileWorkload workloadBranch
  rw [eval_bind]
  generalize (ensureBackendObjects r backend).eval answer s = x at hwrites hfault ⊢
  obtain ⟨res, s'⟩ := x
  cases res with
  | error e =>
    intro h
    rw [status_writeBackendStatus _ h]
    exact setsBackend_workloadInvalid e _
  | ok _ =>
    dsimp only at hwrites hfault ⊢
    have hstate : ((fetchDeployment (backendDeploymentName backend)).eval answer s').2 = s' := by
      show (s'.answer _).2 = s'
      unfold answer
      split <;> rfl
    rw [eval_bind, hstate]
    cases hread : ((fetchDeployment (backendDeploymentName backend)).eval answer s').1 with
    | error e =>
      intro _
      have hwritten := hwrites ⟨rfl, e, hread⟩
      rw [← hfault] at hwritten
      dsimp only
      rw [status_reconcileMissing _ hwritten]
      exact setsBackend_deploymentMissing e _
    | ok d =>
      intro h
      dsimp only
      rw [level_reconcileHealth _ h, Overlay.apply_append, ← setsBackend_deploymentFound r d]
      have hbranch : healthBranch r { backend with status := deploymentFound r d backend.status }
          s' (deploymentFound r d backend.status).availableReplicas =
            healthBranch r backend s' d.status.availableReplicas := by
        rw [availableReplicas_deploymentFound]
        rfl
      rw [hbranch]

/-- What is set does not depend on the stored status. -/
theorem workloadBranch_withStatus (backend : LLMBackend) :
    workloadBranch r backend (s.withStatus status) = workloadBranch r backend s := by
  unfold workloadBranch
  rw [eval_withStatus (blind_ensureBackendObjects r backend)]
  generalize (ensureBackendObjects r backend).eval answer s = x
  obtain ⟨res, s'⟩ := x
  cases res with
  | error e => rfl
  | ok _ =>
    dsimp only
    rw [eval_withStatus (p := fetchDeployment _) ⟨trivial, fun _ => trivial⟩]
    cases ((fetchDeployment (backendDeploymentName backend)).eval answer s').1 with
    | error e => rfl
    | ok d =>
      unfold healthBranch
      rw [eval_withStatus (p := probeHealth _ _) ⟨trivial, fun _ => trivial⟩]

/-- Nor does it depend on the status of the copy. -/
theorem workloadBranch_observeBackend (backend : LLMBackend) (status : LLMBackendStatus) :
    workloadBranch r (observeBackend { backend with status := status }) s =
      workloadBranch r backend s := rfl

/-- What the status says after a reconcile: what the branch sets, over what was stored. -/
theorem level_endStatus (s : BackendCluster) (status : LLMBackendStatus)
    (hdone : ((s.withStatus status).outcome r).Completes)
    (hwrites : Unread r s.backend s → ∀ obj, s.fault (.updateBackendStatus obj) = none) :
    backendLevel ((s.withStatus status).endStatus r) =
      (s.branch r).apply (backendLevel status) := by
  revert hdone
  show ((reconcileBackend r s.backend.name).eval answer (s.withStatus status)).1.Completes →
    backendLevel ((reconcileBackend r s.backend.name).eval answer
      (s.withStatus status)).2.backend.status = _
  unfold branch reconcileBackend
  rw [eval_bind]
  cases hfault : s.fault (.getBackend s.backend.name) with
  | some e =>
    have hget : (fetchBackend s.backend.name).eval answer (s.withStatus status) =
        (.error e, s.withStatus status) := answer_of_fault_some (s := s.withStatus status) hfault
    rw [hget]
    exact fun _ => rfl
  | none =>
    have hget : (fetchBackend s.backend.name).eval answer (s.withStatus status) =
        (.ok (s.withStatus status).backend, s.withStatus status) := by
      show (s.withStatus status).answer (.getBackend s.backend.name) = _
      rw [answer_of_fault_none (s := s.withStatus status) hfault]
      show (found s.backend.name (if s.backend.name = s.backend.name then _ else _), _) = _
      rw [if_pos rfl]
      rfl
    rw [hget]
    simp only [Option.isSome_none, Bool.false_eq_true, false_or]
    by_cases hdeletion : s.backend.objectMeta.deletionTimestamp.isSome = true
    · simp only [objectMeta_withStatus, hdeletion, true_or, if_true]
      rw [status_eval (keepsStatus_reconcileBackendDeletion _)]
      exact fun _ => rfl
    · by_cases hfinalizer : s.backend.spec.workload.isSome = true ∧
          backendWorkloadFinalizer ∉ s.backend.objectMeta.finalizers
      · simp only [objectMeta_withStatus, spec_withStatus, hdeletion, hfinalizer,
          not_false_eq_true, and_self, or_true, if_true, Bool.false_eq_true, if_false]
        rw [status_eval (keepsStatus_updateBackend _)]
        exact fun _ => rfl
      · simp only [objectMeta_withStatus, spec_withStatus, hdeletion, hfinalizer, or_self,
          Bool.false_eq_true, if_false]
        intro hdone
        rw [level_reconcileWorkload r hdone fun hunread => hwrites
          ((unread_withStatus r _).mp hunread),
          workloadBranch_withStatus]
        show Overlay.apply (workloadBranch r
          (observeBackend { s.backend with status := status }) s) _
          = _
        rw [workloadBranch_observeBackend]
        exact congrArg _ (setsBackend_observed s.backend.objectMeta.generation status)

end

end BackendCluster

/-! ## Models -/

/-- What the status of a model says; it names no active model. -/
def modelLevel (status : LLMModelStatus) : Aspect → Reading
  | .phase => .modelPhase status.phase
  | .activeModel => .name ""
  | .condition conditionType => .truth (truthOf status.conditions conditionType)

/-- A change of a model sets these aspects of its status. -/
abbrev SetsModel (f : LLMModel → LLMModel) (o : Overlay Aspect Reading) : Prop :=
  Overlay.Describes (fun model => modelLevel model.status) f o

theorem setsModel_condition (conditionType : String) (v : ConditionStatus)
    (reason message : String) :
    SetsModel (setCondition · conditionType v reason message)
      [(.condition conditionType, .truth (some v))] := by
  intro model
  funext k
  cases k with
  | phase => rfl
  | activeModel => rfl
  | condition t =>
    simp only [modelLevel, setCondition, truthOf_putCondition, Overlay.apply, List.lookup_cons,
      List.lookup_nil]
    by_cases h : t = conditionType
    · simp [h]
    · have hk : ((Aspect.condition t) == .condition conditionType) = false := by simpa using h
      rw [if_neg h, hk]
      rfl

theorem setsModel_phase (phase : LLMModelPhase) :
    SetsModel (setModelPhase · phase) [(.phase, .modelPhase phase)] := by
  intro model
  funext k
  cases k <;> rfl

/-- The entries of a model with a condition that is not met. -/
def modelFailedEntries (conditionType : String) : Overlay Aspect Reading :=
  [(.phase, .modelPhase .failed), (.condition conditionType, .truth (some .false))]

theorem setsModel_failed (conditionType reason : String) (e : Err) :
    SetsModel (modelFailed conditionType reason e) (modelFailedEntries conditionType) :=
  (setsModel_phase _).comp (setsModel_condition _ _ _ _)

/-- The entries of a model that is configured, with or without a chat template. -/
def modelConfiguredEntries (active hasTemplate : Bool) : Overlay Aspect Reading :=
  [(.phase, .modelPhase (if active then .active else .ready)),
    (.condition modelConfiguredCondition, .truth (some .true))] ++
  if hasTemplate then [(.condition templateResolvedCondition, .truth (some .true))] else []

theorem level_modelConfigured (model : LLMModel) :
    modelLevel (modelConfigured model).status =
      (modelConfiguredEntries model.status.active model.spec.serving.chatTemplate.isSome).apply
        (modelLevel model.status) := by
  have htemplate : modelLevel (templateResolved model).status =
      Overlay.apply (if model.spec.serving.chatTemplate.isSome then
        [(.condition templateResolvedCondition, .truth (some .true))] else [])
        (modelLevel model.status) := by
    unfold templateResolved
    split
    · exact setsModel_condition _ _ _ _ model
    · rfl
  unfold modelConfigured modelConfiguredEntries
  rw [Overlay.apply_append, ← htemplate]
  exact (setsModel_phase _).comp (setsModel_condition _ _ _ _) (templateResolved model)

/-- What `reconcileModel` sets, for these answers. -/
def modelBranch (sha256Hex : String → String) (reads : (c : Call) → c.Answer) (model : LLMModel)
    (active : Bool) : Overlay Aspect Reading :=
  match asked reads (checkModel sha256Hex model) with
  | .error (conditionType, _, _) => modelFailedEntries conditionType
  | .ok () => modelConfiguredEntries active model.spec.serving.chatTemplate.isSome

/-- The model with this status stored, and `active` for its flag. -/
def modelWith (model : LLMModel) (active : Bool) (status : LLMModelStatus) : LLMModel :=
  { model with status := { status with active := active } }

theorem level_endModelStatus {sha256Hex : String → String} {reads : (c : Call) → c.Answer}
    {model : LLMModel} {active : Bool} {status : LLMModelStatus}
    (hdone : (modelOutcome sha256Hex reads (modelWith model active status)).Completes) :
    modelLevel (endModelStatus sha256Hex reads (modelWith model active status)) =
      (modelBranch sha256Hex reads model active).apply (modelLevel status) := by
  have hlevel : modelLevel (observeModel (modelWith model active status)).status =
      modelLevel status := by
    funext k
    cases k <;> rfl
  have hcheck : checkModel sha256Hex (observeModel (modelWith model active status)) =
      checkModel sha256Hex model := rfl
  rw [endModelStatus_eq fun e he => by rw [he] at hdone; exact hdone, hcheck, ← hlevel]
  unfold modelBranch
  cases asked reads (checkModel sha256Hex model) with
  | error x => exact setsModel_failed _ _ _ _
  | ok _ => exact level_modelConfigured _

/-! ## Level-triggered statuses -/

/-- **When a status is level-triggered.** Two reconciles of a backend in one cluster state, and
two of a model with one set of answers and one active flag, which start from different stored
statuses and complete, end with the same phase, the same active model and the same truth value for
every condition type exactly when the stored statuses agreed on all that the branch does not set.
A write of the status that goes unnoticed when it is refused, which is the one for a Deployment
that cannot be read, has to be accepted. -/
theorem level_triggered_iff (r : LLMBackendReconciler) (sha256Hex : String → String) :
    (∀ (s : BackendCluster) (status status' : LLMBackendStatus),
      ((s.withStatus status).outcome r).Completes →
      ((s.withStatus status').outcome r).Completes →
      (s.Unread r s.backend → ∀ obj, s.fault (.updateBackendStatus obj) = none) →
      (backendLevel ((s.withStatus status).endStatus r) =
          backendLevel ((s.withStatus status').endStatus r) ↔
        ∀ k, k ∉ (s.branch r).keys → backendLevel status k = backendLevel status' k)) ∧
    ∀ (reads : (c : Call) → c.Answer) (model : LLMModel) (active : Bool)
      (status status' : LLMModelStatus),
      (modelOutcome sha256Hex reads (modelWith model active status)).Completes →
      (modelOutcome sha256Hex reads (modelWith model active status')).Completes →
      (modelLevel (endModelStatus sha256Hex reads (modelWith model active status)) =
          modelLevel (endModelStatus sha256Hex reads (modelWith model active status')) ↔
        ∀ k, k ∉ (modelBranch sha256Hex reads model active).keys →
          modelLevel status k = modelLevel status' k) := by
  constructor
  · intro s status status' hdone hdone' hwrites
    rw [s.level_endStatus r status hdone hwrites, s.level_endStatus r status' hdone' hwrites,
      Overlay.apply_eq_iff]
  · intro reads model active status status' hdone hdone'
    rw [level_endModelStatus hdone, level_endModelStatus hdone', Overlay.apply_eq_iff]

/-- A reference-mode backend whose Deployment is gone. -/
def goneDeployment : BackendCluster where
  backend := ⟨.named "b", { LLMBackendSpec.zero with deploymentRef := "b" }, .zero⟩
  before := []
  after := []
  models := []
  activeModels := []
  services _ := none
  deployments _ := none
  health _ _ := .ok ()
  fault _ := none

/-- The status of a backend that was serving. -/
def servingStatus : LLMBackendStatus := backendServing .zero

/-- A backend that starts with another phase ends with the same status: the branch sets it. -/
theorem level_triggered_iff_phase :
    backendLevel ((goneDeployment.withStatus (setBackendPhase .zero .serving)).endStatus
        RaceDemo.reconciler) =
      backendLevel ((goneDeployment.withStatus .zero).endStatus RaceDemo.reconciler) := by
  refine ((level_triggered_iff RaceDemo.reconciler id).1 goneDeployment _ _ (by decide) (by decide)
    fun _ _ => rfl).mpr ?_
  rintro (_ | _ | conditionType) hk
  · exact absurd (by decide) hk
  · rfl
  · rfl

/-- The conditions of a backend that was serving outlive its Deployment. -/
theorem condition_outlives_deployment :
    ((goneDeployment.withStatus servingStatus).outcome RaceDemo.reconciler).Completes ∧
      ((goneDeployment.withStatus .zero).outcome RaceDemo.reconciler).Completes ∧
      backendLevel ((goneDeployment.withStatus servingStatus).endStatus RaceDemo.reconciler) ≠
        backendLevel ((goneDeployment.withStatus .zero).endStatus RaceDemo.reconciler) := by
  refine ⟨by decide, by decide, fun h => ?_⟩
  exact absurd (congrFun h (.condition modelLoadedCondition)) (by decide)

end LlmOperator.Controller
