import LlmOperator.Controller.ActiveModel

/-!
# The model controller

`internal/controller/llmmodel_controller.go`: `reconcileModel`, which looks for the backend of a
model, validates the serving configuration and the chat template, and writes the status.

`modelAnswer` lets it run by itself: calls are answered in any way the cluster state determines,
and the write of the status is carried out unless it is refused.
-/

namespace LlmOperator.Controller

open Api Data Data.GoString Backend Interaction Interaction.Prog

def modelConfiguredCondition : String := "ModelConfigured"

def templateResolvedCondition : String := "TemplateResolved"

section

variable (sha256Hex : String → String) (model : LLMModel)

def resolveBackend : Go (Except Err LLMBackend) :=
  match model.spec.backendRef with
  | some name => do
    match ← getBackend name with
    | .error e => return .error (.wrap ("backend " ++ quote name ++ " not found") e)
    | .ok backend => return .ok backend
  | none => do
    match ← listBackends with
    | .error e => return .error (.wrap "listing backends" e)
    | .ok items =>
      match backendOfType items model.spec.serving.backend with
      | some backend => return .ok backend
      | none => return .error (.other ("no backend found for type " ++
          quote model.spec.serving.backend.text))

def validateArgs : Except Err Unit :=
  match driverFor model.spec.serving.backend with
  | .error e => .error e
  | .ok driver => driver.validate model

def setModelPhase (phase : LLMModelPhase) : LLMModel :=
  { model with status := { model.status with phase := phase } }

/-- A condition is not met, and the model has failed. -/
def modelFailed (conditionType reason : String) (e : Err) (model : LLMModel) : LLMModel :=
  setModelPhase (setCondition model conditionType .false reason e.error) .failed

/-- The chat template, if the model has one, is resolved. -/
def templateResolved : LLMModel :=
  if model.spec.serving.chatTemplate.isSome then
    setCondition model templateResolvedCondition .true "Resolved"
      "Chat template ConfigMap key matches pinned SHA-256"
  else model

/-- The model is configured; its phase says whether it is active. -/
def modelConfigured : LLMModel :=
  setModelPhase
    (setCondition (templateResolved model) modelConfiguredCondition .true "Configured"
      "Model is configured and backend exists")
    (if model.status.active then .active else .ready)

def writeModelStatus : Go Outcome := do
  match ← updateModelStatus model with
  | .error e => return .error (.wrap "update status" e)
  | .ok _ => return .done

/-- The copy `reconcileModel` goes on with. -/
def observeModel : LLMModel :=
  { model with status := { model.status with observedGeneration := model.generation } }

/-- What is found out about a model before its status is written: the condition that is not
met, with the reason and the error. -/
def checkModel : Go (Except (String × String × Err) Unit) := do
  match ← resolveBackend model with
  | .error e => return .error (modelConfiguredCondition, "BackendNotFound", e)
  | .ok _ =>
    match validateArgs model with
    | .error e => return .error (modelConfiguredCondition, "InvalidServingConfiguration", e)
    | .ok () =>
      match ← validateChatTemplateBy sha256Hex model with
      | .error e => return .error (templateResolvedCondition, "TemplateInvalid", e)
      | .ok () => return .ok ()

def reconcileModel (stored : LLMModel) : Go Outcome := do
  let model := observeModel stored
  match ← checkModel sha256Hex model with
  | .error (conditionType, reason, e) =>
    writeModelStatus (modelFailed conditionType reason e model)
  | .ok () => writeModelStatus (modelConfigured model)

/-! ## A run by itself -/

/-- The answers to the calls, with the model that is stored. -/
def modelAnswer (reads : (c : Call) → c.Answer) (stored : LLMModel) :
    (c : Call) → c.Answer × LLMModel
  | .updateModelStatus obj =>
    match reads (.updateModelStatus obj) with
    | .error e => (.error e, stored)
    | .ok version => (.ok version, { stored with status := obj.status, resourceVersion := version })
  | c => (reads c, stored)

/-- How `reconcileModel` ends. -/
def modelOutcome (reads : (c : Call) → c.Answer) (model : LLMModel) : Outcome :=
  ((reconcileModel sha256Hex model).eval (modelAnswer reads) model).1

/-- The status of the model when `reconcileModel` has run. -/
def endModelStatus (reads : (c : Call) → c.Answer) (model : LLMModel) : LLMModelStatus :=
  ((reconcileModel sha256Hex model).eval (modelAnswer reads) model).2.status

end

/-- What a program finds out that only reads. -/
def asked {α : Type} (reads : (c : Call) → c.Answer) (p : Go α) : α :=
  (p.eval (fun (s : Unit) c => (reads c, s)) ()).1

variable {reads : (c : Call) → c.Answer}

/-- A call that leaves the stored model alone. -/
def SparesModel : Call → Prop
  | .updateModelStatus _ => False
  | _ => True

theorem eval_modelAnswer {α : Type} {p : Go α} (hp : p.Only SparesModel) (stored : LLMModel) :
    p.eval (modelAnswer reads) stored = (asked reads p, stored) := by
  induction p with
  | pure a => rfl
  | call op k ih =>
    have hop : modelAnswer reads stored op = (reads op, stored) := by
      cases op <;> first | exact hp.1.elim | rfl
    rw [eval_call, hop]
    exact ih _ (hp.2 _)

theorem sparesModel_checkModel (sha256Hex : String → String) (model : LLMModel) :
    (checkModel sha256Hex model).Only SparesModel := by
  refine only_bind (p := resolveBackend model) ?_ ?_
  · unfold resolveBackend
    split
    · refine ⟨trivial, ?_⟩
      intro x
      cases x <;> trivial
    · refine ⟨trivial, ?_⟩
      intro x
      cases x with
      | error e => trivial
      | ok items =>
        dsimp only [Prog.bind]
        cases backendOfType items model.spec.serving.backend <;> trivial
  · intro x
    cases x with
    | error e => trivial
    | ok backend =>
      dsimp only
      cases validateArgs model with
      | error e => trivial
      | ok _ =>
        refine only_bind ?_ ?_
        · unfold validateChatTemplateBy
          split
          · trivial
          · split
            · trivial
            · split
              · trivial
              · refine ⟨trivial, ?_⟩
                intro y
                cases y with
                | error e => trivial
                | ok configMap =>
                  dsimp only [Prog.bind]
                  split
                  · trivial
                  · split <;> trivial
        · intro y
          cases y <;> trivial

/-- A refused write of the status is the end of the reconcile. -/
theorem status_writeModelStatus {model stored : LLMModel}
    (h : ∀ e, ((writeModelStatus model).eval (modelAnswer reads) stored).1 ≠ .error e) :
    ((writeModelStatus model).eval (modelAnswer reads) stored).2.status = model.status := by
  unfold writeModelStatus at h ⊢
  rw [eval_bind] at h ⊢
  cases hanswer : reads (.updateModelStatus model) with
  | error e =>
    have hrefused : (updateModelStatus model).eval (modelAnswer reads) stored =
        (.error e, stored) := by
      show modelAnswer reads stored (.updateModelStatus model) = _
      simp only [modelAnswer, hanswer]
      rfl
    rw [hrefused] at h
    exact absurd rfl (h _)
  | ok version =>
    have hwritten : (updateModelStatus model).eval (modelAnswer reads) stored =
        (.ok version, { stored with status := model.status, resourceVersion := version }) := by
      show modelAnswer reads stored (.updateModelStatus model) = _
      simp only [modelAnswer, hanswer]
      rfl
    rw [hwritten]
    rfl

/-- What `reconcileModel` stores. -/
theorem endModelStatus_eq {sha256Hex : String → String} {model : LLMModel}
    (h : ∀ e, modelOutcome sha256Hex reads model ≠ .error e) :
    endModelStatus sha256Hex reads model =
      match asked reads (checkModel sha256Hex (observeModel model)) with
      | .error (conditionType, reason, e) =>
        (modelFailed conditionType reason e (observeModel model)).status
      | .ok () => (modelConfigured (observeModel model)).status := by
  revert h
  unfold modelOutcome endModelStatus reconcileModel
  dsimp only
  rw [eval_bind, eval_modelAnswer (sparesModel_checkModel sha256Hex _)]
  cases asked reads (checkModel sha256Hex (observeModel model)) with
  | error x => exact status_writeModelStatus
  | ok _ => exact status_writeModelStatus

end LlmOperator.Controller
