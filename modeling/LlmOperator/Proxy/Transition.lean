import LlmOperator.Controller.Calls

/-!
# Asking the operator for a model

The proxy's side of a switch (`cmd/llm-proxy/main.go`): it patches the requested model into
the `LLMActiveModel` and polls the object until the operator reports the model stable or the
attempt failed. It reads the API server itself, not a cache.

A poll that fails for a reason other than a missing object or a missing permission is made
again, and so is one that finds the switch still under way, until the deadline of the wait.
-/

namespace LlmOperator.Proxy

open Api Data Interaction Controller

/-! ## The calls -/

inductive ProxyCall where
  /-- The object named `activeModelName`. -/
  | getActive
  /-- The merge patch of its `spec.modelName`. -/
  | patchActive (modelName : String)
  | getDeployment (name : String)
  /-- `context.WithTimeout`. -/
  | withTimeout
  deriving DecidableEq

@[reducible] def ProxyCall.Answer : ProxyCall → Type
  | getActive => Except Err LLMActiveModel
  | patchActive _ => Except Err LLMActiveModel
  | getDeployment _ => Except Err Deployment
  | withTimeout => Deadline

/-- Every call has an answer: at least it may fail, and a deadline may have passed. -/
def ProxyCall.someAnswer : (c : ProxyCall) → c.Answer
  | getActive => .error .deadlineExceeded
  | patchActive _ => .error .deadlineExceeded
  | getDeployment _ => .error .deadlineExceeded
  | withTimeout => ⟨0, false⟩

/-- The signature of the proxy's calls to the API server. -/
abbrev ProxyApi : Sig := ⟨ProxyCall, ProxyCall.Answer⟩

def activeModelName : String := "default"

/-! ## The programs -/

/-- What the proxy takes from the object. -/
structure TransitionState where
  specModel : String
  statusModel : String
  phase : LLMActiveModelPhase
  message : String
  deriving DecidableEq

section

variable (modelName : String)

/-- The message is that of the first condition of the type `ModelActive`. -/
def transitionState (am : LLMActiveModel) : TransitionState where
  specModel := am.spec.modelName
  statusModel := am.status.modelName
  phase := am.status.phase
  message := ((am.status.conditions.find? fun c => c.type == "ModelActive").map (·.message)).getD ""

def operatorTransitionState : Prog ProxyApi (Except Err TransitionState) := do
  match ← Prog.perform (S := ProxyApi) .getActive with
  | .error e => return .error (.wrap "read operator ActiveModel" e)
  | .ok am => return .ok (transitionState am)

def errDeploymentMutationsDisabled : Err := .other "the operator is not configured"

/-- The error of a switch that the operator reports as failed. -/
def transitionFailed (message : String) : Err :=
  .other ("operator transition to " ++ GoString.quote modelName ++ " failed" ++
    if message = "" then "" else ": " ++ message)

/-- The error of a wait whose context has ended. -/
def waitExpired (deadline : Deadline) : Err :=
  .wrap ("wait for operator transition to " ++ GoString.quote modelName) deadline.err

/-- `nil` is `none`. The operator is configured when the proxy has a dynamic client. -/
def requestOperatorTransition (configured : Bool) (modelName : String) :
    Prog ProxyApi (Option Err) :=
  if configured then do
    match ← Prog.perform (S := ProxyApi) (.patchActive modelName) with
    | .error e =>
      return some (.wrap ("request operator transition to " ++ GoString.quote modelName) e)
    | .ok _ => return none
  else return some errDeploymentMutationsDisabled

/-- What a poll decides: nothing yet, or the result of the wait. -/
def verdict : Except Err TransitionState → Option (Option Err)
  | .error e => if e.isNotFound || e.isForbidden then some (some e) else none
  | .ok state =>
    if state.statusModel = modelName ∧ state.phase = .stable then some none
    else if state.specModel = modelName ∧ state.phase = .failed then
      some (some (transitionFailed modelName state.message))
    else none

/-- The polling loop. The number counts the ticks before the deadline. -/
def pollOperatorTransition (modelName : String) (deadline : Deadline) :
    Nat → Prog ProxyApi (Option Err)
  | 0 => do
    match verdict modelName (← operatorTransitionState) with
    | some result => return result
    | none => return some (waitExpired modelName deadline)
  | ticks + 1 => do
    match verdict modelName (← operatorTransitionState) with
    | some result => return result
    | none => pollOperatorTransition modelName deadline ticks

def waitForOperatorTransition : Prog ProxyApi (Option Err) := do
  let deadline ← Prog.perform (S := ProxyApi) .withTimeout
  pollOperatorTransition modelName deadline deadline.polls

/-- The patch and the wait, which `coalescedOperatorTransition` makes once for all who ask for
the same model. -/
def patchAndWait (configured : Bool) (modelName : String) : Prog ProxyApi (Option Err) := do
  match ← requestOperatorTransition configured modelName with
  | some e => return some e
  | none => waitForOperatorTransition modelName

/-! ## The patch -/

def ProxyCall.isPatch : ProxyCall → Bool
  | .patchActive _ => true
  | _ => false

/-- The number of patches in a trace. -/
def patchCount (t : List (Event ProxyApi)) : Nat := t.countP fun e => e.1.isPatch

theorem only_pollOperatorTransition (deadline : Deadline) (ticks : Nat) :
    (pollOperatorTransition modelName deadline ticks).Only fun c : ProxyCall => c = .getActive := by
  have hstate : operatorTransitionState.Only fun c : ProxyCall => c = .getActive := by
    refine ⟨rfl, fun r => ?_⟩
    cases r <;> trivial
  induction ticks with
  | zero =>
    refine Prog.only_bind hstate fun st => ?_
    cases verdict modelName st <;> trivial
  | succ ticks ih =>
    refine Prog.only_bind hstate fun st => ?_
    cases verdict modelName st with
    | some result => trivial
    | none => exact ih

theorem only_waitForOperatorTransition :
    (waitForOperatorTransition modelName).Only fun c : ProxyCall => c.isPatch = false := by
  refine ⟨rfl, fun deadline => (only_pollOperatorTransition _ _ _).mono ?_ fun _ h => h⟩
  rintro c rfl
  rfl

end

variable {modelName message : String} {t : List (Event ProxyApi)}

/-- At most one patch is sent. -/
theorem patchCount_le_one {configured : Bool} {q : Prog ProxyApi (Option Err)}
    (h : (patchAndWait configured modelName).Steps t q) : patchCount t ≤ 1 := by
  cases configured with
  | false =>
    cases h
    exact Nat.zero_le _
  | true =>
    cases h with
    | nil => exact Nat.zero_le _
    | @cons _ _ r u _ h =>
      have hrest : patchCount u = 0 := by
        refine List.countP_eq_zero.mpr fun e he => ?_
        cases r with
        | error e =>
          cases h
          exact absurd he List.not_mem_nil
        | ok am =>
          rw [((only_waitForOperatorTransition modelName).steps h).1 e he]
          exact Bool.false_ne_true
      exact (List.countP_cons_of_pos (p := fun e : Event ProxyApi => e.1.isPatch) rfl).trans
        (congrArg (· + 1) hrest) |>.le

/-! ## The verdict -/

/-- The object was read. -/
def readEvent (am : LLMActiveModel) : Event ProxyApi := ⟨.getActive, .ok am⟩

/-- The object was patched, with this result. -/
def patchEvent (modelName : String) (am : LLMActiveModel) : Event ProxyApi :=
  ⟨.patchActive modelName, .ok am⟩

theorem verdict_transitionFailed {st : Except Err TransitionState}
    (h : verdict modelName st = some (some (transitionFailed modelName message))) :
    ∃ state, st = .ok state ∧ state.specModel = modelName ∧ state.phase = .failed := by
  unfold verdict at h
  split at h
  · rename_i e
    split at h
    · rename_i hperm
      cases h
      simp [transitionFailed, Err.isNotFound, Err.isForbidden] at hperm
    · cases h
  · rename_i state
    split at h
    · cases h
    · split at h
      · rename_i hfailed
        exact ⟨state, rfl, hfailed⟩
      · cases h

/-- What is read in a poll. -/
theorem runs_operatorTransitionState {state : TransitionState}
    (h : operatorTransitionState.Runs t (.ok state)) :
    ∃ am, t = [readEvent am] ∧ state = transitionState am := by
  obtain ⟨r, u, rfl, h'⟩ := Prog.runs_call h
  cases r with
  | error e => cases (Prog.runs_pure h').2
  | ok am =>
    obtain ⟨rfl, heq⟩ := Prog.runs_pure h'
    exact ⟨am, rfl, (Except.ok.inj heq).symm⟩

/-- A wait says that the switch failed only after it has read the phase `Failed` in an object
that asks for the model. -/
theorem runs_pollOperatorTransition_failed {deadline : Deadline} {ticks : Nat}
    (h : (pollOperatorTransition modelName deadline ticks).Runs t
      (some (transitionFailed modelName message))) :
    ∃ am, readEvent am ∈ t ∧ am.spec.modelName = modelName ∧ am.status.phase = .failed := by
  -- The last poll is the one that decides.
  have hdecided : ∀ {st : Except Err TransitionState} {u v : List (Event ProxyApi)},
      operatorTransitionState.Runs u st →
      verdict modelName st = some (some (transitionFailed modelName message)) →
      ∃ am, readEvent am ∈ u ++ v ∧ am.spec.modelName = modelName ∧ am.status.phase = .failed := by
    intro st u v hu hst
    obtain ⟨state, rfl, hspec, hphase⟩ := verdict_transitionFailed hst
    obtain ⟨am, rfl, rfl⟩ := runs_operatorTransitionState hu
    exact ⟨am, List.mem_append_left _ (List.mem_singleton_self _), hspec, hphase⟩
  induction ticks generalizing t with
  | zero =>
    obtain ⟨st, u, v, rfl, hu, hv⟩ := Prog.runs_bind h
    cases hst : verdict modelName st with
    | some result =>
      simp only [hst] at hv
      exact hdecided hu (hst.trans (congrArg some (Prog.runs_pure hv).2))
    | none =>
      simp only [hst] at hv
      cases (Prog.runs_pure hv).2
  | succ ticks ih =>
    obtain ⟨st, u, v, rfl, hu, hv⟩ := Prog.runs_bind h
    cases hst : verdict modelName st with
    | some result =>
      simp only [hst] at hv
      exact hdecided hu (hst.trans (congrArg some (Prog.runs_pure hv).2))
    | none =>
      simp only [hst] at hv
      obtain ⟨am, ham, hread⟩ := ih hv
      exact ⟨am, List.mem_append_right _ ham, hread⟩

theorem runs_patchAndWait_failed
    (h : (patchAndWait true modelName).Runs t (some (transitionFailed modelName message))) :
    ∃ obj u am, t = patchEvent modelName obj :: u ∧ readEvent am ∈ u ∧
      am.spec.modelName = modelName ∧ am.status.phase = .failed := by
  obtain ⟨r, u, rfl, h'⟩ := Prog.runs_call h
  cases r with
  | error e => cases (Prog.runs_pure h').2
  | ok obj =>
    obtain ⟨deadline, v, rfl, hpoll⟩ := Prog.runs_call h'
    obtain ⟨am, ham, hread⟩ := runs_pollOperatorTransition_failed hpoll
    exact ⟨obj, _, am, rfl, List.mem_cons_of_mem _ ham, hread⟩

end LlmOperator.Proxy
