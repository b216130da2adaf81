import LlmOperator.Controller.ActiveModel

/-!
# Which calls each function makes

Most functions of the controller only read. This module says so once for each of them, so
that the verification of a transition can pass over them, and gives the calls of the few
that write.
-/

namespace LlmOperator.Controller

open Api Data Backend Interaction Interaction.Prog

/-- A call that changes nothing outside the controller. -/
def Call.IsRead (c : Call) : Prop := c.isMutation = false

instance : DecidablePred Call.IsRead := fun _ => inferInstanceAs (Decidable (_ = _))

/-- A program that only reads. -/
abbrev ReadOnly {α : Type} (p : Go α) : Prop := p.Only Call.IsRead

/-- A read that neither looks at the request again nor reports a failure. -/
def Call.IsLookup (c : Call) : Prop :=
  match c with
  | .getActive _ => False
  | .recordTransitionFailure _ _ => False
  | c => c.IsRead

theorem Call.IsLookup.isRead {c : Call} (h : c.IsLookup) : c.IsRead := by
  cases c <;> first | exact h | cases h

/-- A program that only looks things up. -/
abbrev Lookup {α : Type} (p : Go α) : Prop := p.Only Call.IsLookup

theorem Lookup.readOnly {α : Type} {p : Go α} (h : Lookup p) : ReadOnly p :=
  h.mono (fun _ hc => hc.isRead) fun _ _ => trivial

theorem only_call_iff {P : Call → Prop} (c : Call) : (call c).Only P ↔ P c := by
  constructor
  · intro h
    exact h.1
  · intro h
    exact ⟨h, fun _ => trivial⟩

/-! ## Functions that only read -/

theorem readOnly_singletonOwner : ReadOnly singletonOwner := by
  refine only_bind ((only_call_iff _).mpr rfl) ?_
  intro x
  cases x <;> trivial

theorem modelNamed_name {items : List LLMModel} {modelName : String} {model : LLMModel}
    (h : modelNamed items modelName = some model) : model.spec.model.name = modelName := by
  simpa using List.find?_some h

variable (modelName : String) (backendType : BackendType)

theorem yields_findModel :
    (findModel modelName).Yields Call.IsLookup
      (Flow.OnOk fun model => model.spec.model.name = modelName) := by
  refine Yields.bind ((only_call_iff _).mpr rfl) ?_
  intro x _
  cases x with
  | error e => trivial
  | ok items =>
    dsimp only
    cases hm : modelNamed items modelName with
    | none => trivial
    | some model => exact modelNamed_name hm

theorem lookup_findModel : Lookup (findModel modelName) :=
  (yields_findModel modelName).mono (fun _ h => h) fun _ _ => trivial

theorem readOnly_findModel : ReadOnly (findModel modelName) :=
  (lookup_findModel modelName).readOnly

theorem lookup_findBackend (backendRef : Option String) :
    Lookup (findBackend backendType backendRef) := by
  cases backendRef with
  | some name => exact (only_call_iff _).mpr rfl
  | none =>
    refine only_bind ((only_call_iff _).mpr rfl) ?_
    intro x
    cases x with
    | error e => trivial
    | ok items =>
      dsimp only
      cases backendOfType items backendType <;> trivial

theorem readOnly_findBackend (backendRef : Option String) :
    ReadOnly (findBackend backendType backendRef) :=
  (lookup_findBackend backendType backendRef).readOnly

theorem readOnly_checkCurrent (am : LLMActiveModel) (model : LLMModel) :
    ReadOnly (checkCurrent am model) := by
  refine only_bind ((only_call_iff _).mpr rfl) ?_
  intro x
  cases x with
  | error e => trivial
  | ok current =>
    show ReadOnly (if isCurrent current model.spec.model.name am.generation then _ else _)
    split <;> trivial

variable {check : Go (Except Err Unit)} (r : LLMActiveModelReconciler)

section

variable (model : LLMModel) (backend : LLMBackend)

theorem readOnly_pollDeployment (reached : Deployment → Bool) (name : String) (expired : Err)
    (hcheck : ReadOnly check) (polls : Nat) :
    ReadOnly (pollDeployment reached name check expired polls) := by
  induction polls with
  | zero => trivial
  | succ polls ih =>
    refine only_bind hcheck ?_
    intro x
    cases x with
    | error e => trivial
    | ok _ =>
      refine only_bind ((only_call_iff _).mpr rfl) ?_
      intro y
      cases y with
      | error e => trivial
      | ok d =>
        show ReadOnly (if reached d then _ else _)
        split
        · trivial
        · exact ih

/-- A poll that ends well has seen what it waited for. -/
theorem runs_pollDeployment {reached : Deployment → Bool} {name : String} {expired : Err}
    {polls left : Nat} {t : List (Event Kube)}
    (h : (pollDeployment reached name check expired polls).Runs t (.ok left)) :
    ∃ d, ⟨.getDeployment name, .ok d⟩ ∈ t ∧ reached d = true := by
  induction polls generalizing t with
  | zero => cases (runs_pure h).2
  | succ polls ih =>
    obtain ⟨x, u, v, rfl, -, hv⟩ := runs_bind h
    cases x with
    | error e => cases (runs_pure hv).2
    | ok _ =>
      obtain ⟨y, v', rfl, hy⟩ := runs_call hv
      cases y with
      | error e => cases (runs_pure hy).2
      | ok d =>
        change (if reached d then _ else _ : Go (Except Err Nat)).Runs v' (.ok left) at hy
        split at hy
        · rename_i hd
          exact ⟨d, by simp, hd⟩
        · obtain ⟨d', hmem, hd'⟩ := ih hy
          exact ⟨d', by simp [hmem], hd'⟩

theorem readOnly_waitForBackendHealth (url : String) (hcheck : ReadOnly check) (polls : Nat) :
    ReadOnly (waitForBackendHealth url check polls) := by
  induction polls with
  | zero =>
    unfold waitForBackendHealth
    refine only_bind hcheck ?_
    intro x
    cases x with
    | error e => trivial
    | ok _ =>
      refine only_bind ((only_call_iff _).mpr rfl) ?_
      intro y
      cases y <;> trivial
  | succ polls ih =>
    unfold waitForBackendHealth
    refine only_bind hcheck ?_
    intro x
    cases x with
    | error e => trivial
    | ok _ =>
      refine only_bind ((only_call_iff _).mpr rfl) ?_
      intro y
      cases y with
      | ok _ => trivial
      | error e => exact ih

theorem readOnly_deploymentMatchesModel : ReadOnly (deploymentMatchesModel model backend) := by
  refine only_bind ((only_call_iff _).mpr rfl) ?_
  intro x
  cases x with
  | error e => trivial
  | ok d =>
    dsimp only
    cases findContainer (backendContainerName backend) d.spec.template.spec.containers <;> trivial

theorem lookup_switchTime (changed : Bool) : Lookup (switchTime r changed) := by
  cases changed with
  | true => exact only_bind ((only_call_iff _).mpr rfl) fun _ => trivial
  | false => trivial

theorem readOnly_switchTime (changed : Bool) : ReadOnly (switchTime r changed) :=
  (lookup_switchTime r changed).readOnly

theorem lookup_backendOfflineMode : Lookup (backendOfflineMode backend) := by
  refine only_bind ((only_call_iff _).mpr rfl) ?_
  intro x
  cases x with
  | error e => trivial
  | ok d =>
    dsimp only
    cases findContainer (backendContainerName backend) d.spec.template.spec.containers <;> trivial

theorem readOnly_backendOfflineMode : ReadOnly (backendOfflineMode backend) :=
  (lookup_backendOfflineMode backend).readOnly

theorem lookup_validateChatTemplate : Lookup (validateChatTemplate r model) := by
  unfold validateChatTemplate validateChatTemplateBy
  split
  · trivial
  · split
    · trivial
    · split
      · trivial
      · refine only_bind ((only_call_iff _).mpr rfl) ?_
        intro x
        cases x with
        | error e => trivial
        | ok configMap =>
          dsimp only
          split
          · trivial
          · split <;> trivial

theorem readOnly_validateChatTemplate : ReadOnly (validateChatTemplate r model) :=
  (lookup_validateChatTemplate r model).readOnly

theorem lookup_previousByType : Lookup (previousByType backendType model) := by
  unfold previousByType
  split
  · refine only_bind (lookup_findBackend _ _) ?_
    intro x
    cases x <;> trivial
  · trivial

theorem readOnly_previousByType : ReadOnly (previousByType backendType model) :=
  (lookup_previousByType backendType model).readOnly

end

/-! ## Status writes -/

section Writes

variable {P : Call → Prop} {am : LLMActiveModel}

theorem only_writeActive (h : P (.updateActiveStatus am)) : (writeActive am).Only P := by
  refine only_bind ((only_call_iff _).mpr h) ?_
  intro x
  cases x <;> trivial

theorem yields_writeModel {model : LLMModel} (h : P (.updateModelStatus model)) :
    (writeModel model).Yields P
      (Flow.OnOk fun m => ∃ v, m = { model with resourceVersion := v }) := by
  refine Yields.bind ((only_call_iff _).mpr h) ?_
  intro x _
  cases x with
  | error e => trivial
  | ok v => exact ⟨v, rfl⟩

theorem only_writeActiveThen {outcome : Outcome} (h : P (.updateActiveStatus am)) :
    (writeActiveThen am outcome).Only P := by
  refine only_bind (only_writeActive h) ?_
  intro x
  cases x <;> trivial

theorem only_writeActiveIgnoring {outcome : Outcome} (h : P (.updateActiveStatus am)) :
    (writeActiveIgnoring am outcome).Only P :=
  only_bind (only_writeActive h) fun _ => trivial

end Writes

/-! ## The steps of a transition -/

/-- Reading is allowed, and so is giving up with phase `Failed`. -/
structure Tolerates (P : Call → Prop) (am : LLMActiveModel) : Prop where
  read : ∀ c, Call.IsRead c → P c
  failed : ∀ reason message, P (.updateActiveStatus (refused am reason message))

section Rules

variable {P : Call → Prop} {α : Type} {Q : α → Prop}

theorem yields_orLeave {p : Go (Except Err α)} {handler : Err → Go Outcome}
    (hp : p.Yields P (Flow.OnOk Q)) (hh : ∀ e, (handler e).Only P) :
    (orLeave p handler).prog.Yields P (Flow.OnOk Q) := by
  refine Yields.bind hp ?_
  intro x hx
  cases x with
  | ok a => exact hx
  | error e => exact Yields.bind (hh e) fun _ _ => trivial

theorem yields_leaveIf {c : Bool} {p : Go Outcome} (hp : p.Only P) :
    (leaveIf c p).prog.Yields P (Flow.OnOk fun _ => True) := by
  cases c with
  | true => exact Yields.bind hp fun _ _ => trivial
  | false => trivial

theorem onOk_of_only {p : Go (Except Err α)} (hp : p.Only P) :
    p.Yields P (Flow.OnOk fun _ => True) := by
  refine hp.mono (fun _ h => h) ?_
  intro x _
  cases x <;> trivial

end Rules

namespace Tolerates

variable {P : Call → Prop} {am : LLMActiveModel} {model : LLMModel} {α : Type}

section

variable (hP : Tolerates P am)
include hP

section

variable (backend : LLMBackend)

theorem lookup (c : Call) (h : c.IsLookup) : P c := hP.read c h.isRead

theorem readOnly {p : Go α} (hp : ReadOnly p) : p.Only P :=
  hp.mono hP.read fun _ _ => trivial

theorem only_failTransition (modelName reason metricReason : String) (cause : Err) :
    (failTransition am modelName reason metricReason cause).Only P :=
  only_bind ((only_call_iff _).mpr (hP.read _ rfl)) fun _ =>
    only_writeActiveThen (hP.failed reason cause.error)

theorem yields_orLeave {p : Go (Except Err α)} {handler : Err → Go Outcome} (hp : ReadOnly p)
    (hh : ∀ e, (handler e).Only P) : (orLeave p handler).prog.Yields P (Flow.OnOk fun _ => True) :=
  Controller.yields_orLeave (onOk_of_only (hP.readOnly hp)) hh

theorem yields_guardCurrent : (guardCurrent am model).prog.Yields P (Flow.OnOk fun _ => True) :=
  hP.yields_orLeave (readOnly_checkCurrent am model) fun _ => trivial

theorem yields_validateTarget :
    (validateTarget r am model).prog.Yields P (Flow.OnOk fun _ => True) := by
  refine Flow.yields_bind (hP.yields_orLeave trivial (hP.only_failTransition _ _ _)) ?_
  intro driver _
  refine Flow.yields_bind (hP.yields_orLeave trivial (hP.only_failTransition _ _ _)) ?_
  intro _ _
  refine Flow.yields_bind (hP.yields_orLeave (readOnly_validateChatTemplate r model)
    (hP.only_failTransition _ _ _)) ?_
  intro _ _
  trivial

theorem yields_resolvePrevious :
    (resolvePrevious am model).prog.Yields P (Flow.OnOk fun _ => True) := by
  refine Flow.yields_bind (Q := fun _ => True) ?_ ?_
  · unfold previousByModel
    split
    · trivial
    · refine Flow.yields_bind (Flow.yields_lift (hP.readOnly (readOnly_findModel _))) ?_
      intro x _
      cases x with
      | error e => trivial
      | ok previousModel =>
        exact Flow.yields_bind (hP.yields_orLeave (readOnly_findBackend _ _)
          (hP.only_failTransition _ _ _)) fun _ _ => trivial
  · rintro ⟨found, backendType⟩ _
    cases found with
    | some backend => trivial
    | none => exact Flow.yields_lift (hP.readOnly (readOnly_previousByType backendType model))

theorem yields_scaleDownPrevious
    (hscale : ∀ name, name ≠ backendDeploymentName backend → P (.scaleDeployment name 0))
    (previous : Option LLMBackend) (deadline : Deadline) :
    (scaleDownPrevious am model backend previous deadline).prog.Yields P
      (Flow.OnOk fun _ => True) := by
  cases previous with
  | none => trivial
  | some previous =>
    unfold scaleDownPrevious
    dsimp only
    split
    · trivial
    · rename_i hne
      refine Flow.yields_bind hP.yields_guardCurrent ?_
      intro _ _
      refine Flow.yields_bind (Controller.yields_orLeave (Q := fun _ => True) (onOk_of_only ?_)
        (hP.only_failTransition _ _ _)) ?_
      · refine only_bind ((only_call_iff _).mpr (hP.read _ rfl)) ?_
        intro x
        cases x with
        | error e => trivial
        | ok d => exact (only_call_iff _).mpr (hscale _ hne)
      · intro _ _
        refine hP.yields_orLeave
          (readOnly_pollDeployment _ _ _ (readOnly_checkCurrent am model) _) ?_
        intro e
        split
        · trivial
        · exact hP.only_failTransition _ _ _ _

theorem yields_ensureHot (offline : Bool) {request : CacheRequest}
    (hensure : P (.cacheEnsure request))
    (hwrite : ∀ result hydrated, P (.updateModelStatus (withCacheState model result hydrated))) :
    (ensureHot am model offline request).prog.Yields P
      (Flow.OnOk fun m => m.name = model.name ∧ m.spec = model.spec) := by
  refine Flow.yields_bind (Controller.yields_orLeave (onOk_of_only ((only_call_iff _).mpr hensure))
    (hP.only_failTransition _ _ _)) ?_
  intro result _
  refine Flow.yields_bind (yields_leaveIf (hP.only_failTransition _ _ _ _)) ?_
  intro _ _
  refine Flow.yields_bind hP.yields_guardCurrent ?_
  intro _ _
  refine Flow.yields_bind (Flow.yields_lift (hP.readOnly ((only_call_iff _).mpr rfl))) ?_
  intro hydrated _
  refine Yields.mono (Controller.yields_orLeave (yields_writeModel (hwrite result hydrated))
    (fun e => (trivial : (Prog.pure (Outcome.error e) : Go Outcome).Only P))) (fun _ h => h) ?_
  intro x hx
  cases x with
  | error e => trivial
  | ok m =>
    obtain ⟨v, rfl⟩ := hx
    exact ⟨rfl, rfl⟩

theorem yields_ensureCached (driver : RuntimeDriver) (hensure : ∀ request, P (.cacheEnsure request))
    (hwrite : ∀ result hydrated, P (.updateModelStatus (withCacheState model result hydrated))) :
    (ensureCached r am model backend driver).prog.Yields P
      (Flow.OnOk fun m => m.name = model.name ∧ m.spec = model.spec) := by
  refine Flow.yields_bind (hP.yields_orLeave trivial (hP.only_failTransition _ _ _)) ?_
  intro cacheRequest _
  refine Flow.yields_bind (hP.yields_orLeave (readOnly_backendOfflineMode backend)
    (hP.only_failTransition _ _ _)) ?_
  intro offline _
  split
  · exact hP.yields_ensureHot offline (hensure _) hwrite
  · exact Flow.yields_bind (yields_leaveIf (hP.only_failTransition _ _ _ _))
      fun _ _ => ⟨rfl, rfl⟩

theorem yields_activateTarget (hpatch : ∀ base next, P (.patchDeployment base next)) :
    (activateTarget r am model backend).prog.Yields P (Flow.OnOk fun _ => True) := by
  refine Controller.yields_orLeave (onOk_of_only ?_) (hP.only_failTransition _ _ _)
  refine only_bind ((only_call_iff _).mpr (hP.read _ rfl)) ?_
  intro x
  cases x with
  | error e => trivial
  | ok d =>
    dsimp only
    cases findContainer (backendContainerName backend) d.spec.template.spec.containers with
    | none => trivial
    | some c =>
      refine only_bind (hP.readOnly (readOnly_switchTime r _)) ?_
      intro switchedAt
      split
      · trivial
      · exact (only_call_iff _).mpr (hpatch _ _)

theorem yields_awaitServing (deadline : Deadline) :
    (awaitServing am model backend deadline).prog.Yields P (Flow.OnOk fun _ => True) := by
  refine Flow.yields_bind (hP.yields_orLeave
    (readOnly_pollDeployment _ _ _ (readOnly_checkCurrent am model) _) ?_) ?_
  · intro e
    split
    · trivial
    · exact hP.only_failTransition _ _ _ _
  intro polls _
  refine Flow.yields_bind hP.yields_guardCurrent ?_
  intro _ _
  refine Flow.yields_bind (hP.yields_orLeave
    (readOnly_waitForBackendHealth _ (readOnly_checkCurrent am model) _)
    (hP.only_failTransition _ _ _)) ?_
  intro _ _
  refine Flow.yields_bind hP.yields_guardCurrent ?_
  intro _ _
  refine Flow.yields_bind (Flow.yields_lift (hP.readOnly ((only_call_iff _).mpr rfl))) ?_
  intro runtimeMeta _
  exact Flow.yields_bind hP.yields_guardCurrent fun _ _ => trivial

theorem yields_deactivatePrevious
    (hwrite : ∀ previous, previous.spec.model.name = am.status.transitionFrom →
      am.status.transitionFrom ≠ model.spec.model.name →
      P (.updateModelStatus (markInactive previous))) :
    (deactivatePrevious am model).prog.Yields P (Flow.OnOk fun _ => True) := by
  unfold deactivatePrevious
  split
  · rename_i hne
    refine Flow.yields_bind
      (Flow.yields_lift ((yields_findModel _).mono hP.lookup fun _ h => h)) ?_
    intro x hx
    cases x with
    | error e => trivial
    | ok previous =>
      exact Flow.yields_bind (Controller.yields_orLeave
        (yields_writeModel (hwrite previous hx hne.2)) fun _ => trivial) fun _ _ => trivial
  · trivial

theorem yields_markStable
    (hwrite : ∀ duration, P (.updateActiveStatus (published am model duration))) :
    (markStable am model).prog.Yields P (Flow.OnOk fun _ => True) := by
  unfold markStable
  split
  · trivial
  · refine Flow.yields_bind (Flow.yields_lift (hP.readOnly ((only_call_iff _).mpr rfl))) ?_
    intro finished _
    exact Flow.yields_bind (Controller.yields_orLeave (Q := fun _ => True)
      (onOk_of_only (only_writeActive (hwrite _))) fun _ => trivial) fun _ _ => trivial

theorem yields_publish (runtimeMeta : Option RuntimeMetadata)
    (hactive : P (.updateModelStatus (markActive model runtimeMeta)))
    (hinactive : ∀ previous, previous.spec.model.name = am.status.transitionFrom →
      am.status.transitionFrom ≠ model.spec.model.name →
      P (.updateModelStatus (markInactive previous))) (hstable : ∀ m duration, m.spec = model.spec →
      P (.updateActiveStatus (published am m duration))) :
    (publish am model runtimeMeta).prog.Yields P (Flow.OnOk fun _ => True) := by
  refine Flow.yields_bind (Controller.yields_orLeave (yields_writeModel hactive)
    fun _ => trivial) ?_
  rintro _ ⟨v, rfl⟩
  refine Flow.yields_bind hP.yields_guardCurrent ?_
  intro _ _
  refine Flow.yields_bind (hP.yields_deactivatePrevious hinactive) ?_
  intro _ _
  refine Flow.yields_bind hP.yields_guardCurrent ?_
  intro _ _
  exact hP.yields_markStable fun duration => hstable _ duration rfl

/-- A transition whose calls other than its status writes are all allowed. -/
theorem yields_driveTransition (deadline : Deadline)
    (hother : ∀ c, (∀ obj, c ≠ .updateActiveStatus obj) → P c)
    (hstable : ∀ m duration, m.spec = model.spec →
      P (.updateActiveStatus (published am m duration))) :
    (driveTransition r am model backend deadline).prog.Yields P (Flow.OnOk fun _ => True) := by
  refine Flow.yields_bind hP.yields_guardCurrent fun _ _ => ?_
  refine Flow.yields_bind (hP.yields_validateTarget r) fun driver _ => ?_
  refine Flow.yields_bind hP.yields_resolvePrevious fun previous _ => ?_
  refine Flow.yields_bind (hP.yields_scaleDownPrevious _ (fun _ _ => hother _ nofun) _ _)
    fun polls _ => ?_
  refine Flow.yields_bind hP.yields_guardCurrent fun _ _ => ?_
  refine Flow.yields_bind (hP.yields_ensureCached r backend driver (fun _ => hother _ nofun)
    fun _ _ => hother _ nofun) ?_
  rintro cached ⟨-, hspec⟩
  refine Flow.yields_bind hP.yields_guardCurrent fun _ _ => ?_
  refine Flow.yields_bind (hP.yields_activateTarget r backend fun _ _ => hother _ nofun)
    fun _ _ => ?_
  refine Flow.yields_bind hP.yields_guardCurrent fun _ _ => ?_
  refine Flow.yields_bind (hP.yields_awaitServing backend _) fun runtimeMeta _ => ?_
  exact hP.yields_publish runtimeMeta (hother _ nofun) (fun _ _ _ => hother _ nofun)
    fun m duration hm => hstable m duration (hm.trans hspec)

end

end

/-! The steps in front of a transition. -/

theorem yields_beginTransition (hP : Tolerates P am)
    (htoken : ∀ started, P (.updateActiveStatus (withToken am started))) :
    (beginTransition am).prog.Yields P (Flow.OnOk fun am' => am'.spec = am.spec) := by
  unfold beginTransition
  split
  · refine Flow.yields_bind (Flow.yields_lift (hP.readOnly ((only_call_iff _).mpr rfl))) ?_
    intro started _
    refine Controller.yields_orLeave (Yields.bind ((only_call_iff _).mpr (htoken started)) ?_)
      fun _ => trivial
    intro x _
    cases x with
    | error e => trivial
    | ok version => exact rfl
  · exact rfl

theorem yields_stableFastPath (hP : Tolerates P am) (backend : LLMBackend)
    (hstable : am.status.modelName = am.spec.modelName →
      P (.updateActiveStatus (setActiveConditions (setPhase am .stable)))) :
    (stableFastPath am model backend).prog.Yields P (Flow.OnOk fun _ => True) := by
  unfold stableFastPath
  split
  · rename_i hname
    refine Flow.yields_bind (hP.yields_orLeave (readOnly_deploymentMatchesModel model backend)
      fun _ => trivial) fun isMatch _ => ?_
    refine Flow.yields_bind (yields_leaveIf (only_writeActiveThen (hstable hname.1)))
      fun _ _ => ?_
    exact yields_leaveIf trivial
  · trivial

theorem yields_transitionGates (hP : Tolerates P am) (r : LLMActiveModelReconciler)
    (hdisabled : r.transitionsEnabled = false → ∀ reason message,
      P (.updateActiveStatus (setActiveCondition (setPhase am .transitioning)
        modelActiveCondition .false reason message))) :
    (transitionGates r am model).prog.Yields P (Flow.OnOk fun _ => True) := by
  refine Flow.yields_bind (Q := fun _ => True) ?_ fun _ _ => ?_
  · cases henabled : r.transitionsEnabled with
    | false => exact yields_leaveIf (only_writeActiveThen (hdisabled henabled _ _))
    | true => trivial
  · exact yields_leaveIf (only_writeActiveThen (hP.failed _ _))

end Tolerates

end LlmOperator.Controller
