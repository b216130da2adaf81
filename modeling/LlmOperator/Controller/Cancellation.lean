import LlmOperator.Controller.Cluster
import LlmOperator.Interaction.Cancel
import LlmOperator.Backend.Sizes

/-!
# Cancelled transitions

A transition asks before every effect whether the request it serves is still the current one. When
it is not, the transition is called off: the reconcile is to be repeated at once, and nothing has
failed. This holds wherever the change is noticed first, except in the wait for health. That wait
hands its errors on to `failTransition` whatever they are.

The walk over the transition also shows which failures there can be: none of the cache request,
because the model has been validated before.
-/

namespace LlmOperator.Controller

open Api Data Backend Interaction Interaction.Prog

/-! ## The signal -/

/-- The answer of a check which says that the request has changed. -/
def SaysChanged (target : String) (generation : Nat) : Option (Except Err LLMActiveModel) → Prop
  | some (.ok current) => isCurrent current target generation = false
  | some (.error e) => e.isTransitionChanged = true
  | none => False

def Changed (target : String) (generation : Nat) (e : Event Kube) : Prop :=
  SaysChanged target generation (activeRead e)

instance (target : String) (generation : Nat) : DecidablePred (SaysChanged target generation)
  | some (.ok _) => inferInstanceAs (Decidable (_ = _))
  | some (.error _) => inferInstanceAs (Decidable (_ = _))
  | none => .isFalse id

instance (target : String) (generation : Nat) : DecidablePred (Changed target generation) :=
  fun e => inferInstanceAs (Decidable (SaysChanged target generation (activeRead e)))

def Call.IsCheck : Call → Prop
  | .getActive _ => True
  | _ => False

/-- A failure is counted, or written to the status. -/
def Call.ReportsFailure : Call → Prop
  | .recordTransitionFailure _ _ => True
  | .updateActiveStatus obj => obj.status.phase = .failed
  | _ => False

def changeSignal (target : String) (generation : Nat) : Signal Kube where
  stops := Changed target generation
  checks := Call.IsCheck
  fails := Call.ReportsFailure
  checks_of_stops := by
    rintro ⟨c, a⟩ h
    cases c <;> trivial
  not_fails := by
    intro c h hfails
    cases c <;> first | exact hfails | exact h

/-- The reason a status gives for the model being active or not. -/
def activeReason (obj : LLMActiveModel) : Option String :=
  (obj.status.conditions.find? fun c => c.type == modelActiveCondition).map Condition.reason

/-- Anything but the failure of a cache request. -/
def Call.CacheConfigured : Call → Prop
  | .recordTransitionFailure _ metricReason => metricReason ≠ "invalid_cache_configuration"
  | .updateActiveStatus obj => activeReason obj ≠ some "InvalidCacheConfiguration"
  | _ => True

theorem activeReason_set (am : LLMActiveModel) (statusVal : ConditionStatus)
    (reason message : String) :
    activeReason (setActiveCondition am modelActiveCondition statusVal reason message) =
      some reason := by
  unfold activeReason setActiveCondition
  dsimp only
  rw [find?_putCondition, if_pos rfl]
  rfl

theorem activeReason_published (am : LLMActiveModel) (model : LLMModel) (duration : Int) :
    activeReason (published am model duration) = some "Active" := by
  unfold published setActiveConditions
  rw [← activeReason_set _ .true "Active" "Model is active"]
  unfold activeReason setActiveCondition
  dsimp only
  rw [find?_putCondition, if_neg (by decide)]

/-- A call that neither checks the request nor fails. -/
def Call.IsInert (c : Call) : Prop := c.CacheConfigured ∧ ¬c.IsCheck ∧ ¬c.ReportsFailure

theorem Call.IsLookup.inert {c : Call} (h : c.IsLookup) : c.IsInert := by
  cases c <;> first | exact ⟨trivial, id, id⟩ | cases h

/-- A call on the way out of a transition. -/
def Call.IsParting (c : Call) : Prop := c.CacheConfigured ∧ ¬c.IsCheck

/-- The immediate requeue of a cancelled transition. -/
abbrev Outcome.cancelled : Outcome := .result true 0

section Walk

variable {target : String} {generation : Nat} {α : Type} {Q : α → Prop} {p : Go (Except Err α)}

/-- A part of a transition that is called off properly. -/
abbrev Steady (target : String) (generation : Nat) (Q : α → Prop) (p : Body α) : Prop :=
  Flow.Heeds (changeSignal target generation) Call.CacheConfigured Outcome.cancelled Q p

/-- A call that watches the request and hands the change on as an error in `C`. -/
abbrev Watches (target : String) (generation : Nat) (C : Err → Prop) (Q : α → Prop)
    (p : Go (Except Err α)) : Prop :=
  p.Heeds (changeSignal target generation) Call.CacheConfigured
    (fun x => ∃ e, x = .error e ∧ C e) (fun _ => False) (Flow.OnOk Q)

/-! ## Rules -/

theorem steady_orLeave {handler : Err → Go Outcome} {C : Err → Prop}
    (hp : Watches target generation C Q p)
    (hchanged : ∀ e, C e → handler e = pure Outcome.cancelled)
    (hh : ∀ e, (handler e).Only Call.IsParting) :
    Steady target generation Q (orLeave p handler) := by
  refine Heeds.bind hp ?_ (fun _ h => absurd h id) ?_
  · rintro _ ⟨e, rfl, he⟩
    refine ⟨.error Outcome.cancelled, ?_, rfl⟩
    dsimp only
    rw [hchanged e he]
    rfl
  · intro x hx
    cases x with
    | ok a => exact hx
    | error e =>
      exact heeds_of_left (Yields.bind (hh e) fun o _ => ⟨o, rfl⟩) fun _ ⟨o, ho⟩ => ho ▸ trivial

theorem watches_lookup {C : Err → Prop} (hp : p.Yields Call.IsLookup (Flow.OnOk Q)) :
    Watches target generation C Q p :=
  heeds_of_yields (hp.mono (fun _ h => h.inert) fun _ h => h)

/-- A lookup, whose errors may be handled in any way. -/
theorem steady_lookup {handler : Err → Go Outcome} (hp : p.Yields Call.IsLookup (Flow.OnOk Q))
    (hh : ∀ e, (handler e).Only Call.IsParting) : Steady target generation Q (orLeave p handler) :=
  steady_orLeave (C := fun _ => False) (watches_lookup hp) (fun _ h => absurd h id) hh

theorem steady_call {c : Call} (h : c.IsInert) :
    Steady target generation (fun _ => True) (liftM (call c) : Body c.Answer) :=
  Flow.heeds_lift ⟨h, fun _ => trivial⟩

theorem only_failTransition {am : LLMActiveModel} {modelName reason metricReason : String}
    (hreason : reason ≠ "InvalidCacheConfiguration")
    (hmetric : metricReason ≠ "invalid_cache_configuration") (e : Err) :
    (failTransition am modelName reason metricReason e).Only Call.IsParting := by
  refine only_bind ((only_call_iff _).mpr ⟨hmetric, id⟩) fun _ => only_writeActiveThen ⟨?_, id⟩
  show activeReason _ ≠ _
  rw [activeReason_set]
  simpa using hreason

theorem steady_leaveIf {c : Bool} {p : Go Outcome} (hp : p.Only Call.IsParting) :
    Steady target generation (fun _ => True) (leaveIf c p) := by
  cases c with
  | true => exact heeds_of_left (Yields.bind hp fun o _ => ⟨o, rfl⟩) fun _ ⟨o, ho⟩ => ho ▸ trivial
  | false => trivial

/-! ## Watching the request -/

variable {am : LLMActiveModel} {model : LLMModel}

/-- The transition of `am` to `model` is the one that is watched. -/
structure Watched (target : String) (generation : Nat) (am : LLMActiveModel) (model : LLMModel) :
    Prop where
  target : model.spec.model.name = target
  generation : am.generation = generation

theorem Watched.checkCurrent (h : Watched target generation am model) :
    Watches target generation (fun e => e.isTransitionChanged = true) (fun _ => True)
      (checkCurrent am model) := by
  refine ⟨trivial, fun r => ⟨fun hchanged => ?_, fun hfails => absurd hfails id, ?_⟩⟩
  · cases r with
    | error e => exact ⟨.error e, rfl, e, rfl, hchanged⟩
    | ok current =>
      have hchanged : isCurrent current target generation = false := hchanged
      refine ⟨.error .transitionChanged, ?_, _, rfl, rfl⟩
      show (if isCurrent current model.spec.model.name am.generation then _ else _ :
        Go (Except Err Unit)) = _
      rw [h.target, h.generation, hchanged]
      rfl
  · cases r with
    | error e => trivial
    | ok current =>
      show Heeds _ _ _ _ _ (if isCurrent current model.spec.model.name am.generation then _ else _)
      split <;> trivial

theorem Watched.guardCurrent (h : Watched target generation am model) :
    Steady target generation (fun _ => True) (guardCurrent am model) := by
  refine steady_orLeave h.checkCurrent ?_ fun _ => trivial
  intro e he
  rw [transitionCheckResult, if_pos he]
  rfl

theorem Watched.pollDeployment (h : Watched target generation am model)
    (reached : Deployment → Bool) (name : String) (expired : Err) (polls : Nat) :
    Watches target generation (fun e => e.isTransitionChanged = true) (fun _ => True)
      (pollDeployment reached name (Controller.checkCurrent am model) expired polls) := by
  induction polls with
  | zero => trivial
  | succ polls ih =>
    refine Heeds.bind h.checkCurrent ?_ (fun _ hx => absurd hx id) ?_
    · rintro _ ⟨e, rfl, he⟩
      exact ⟨.error e, rfl, e, rfl, he⟩
    · intro x _
      cases x with
      | error e => trivial
      | ok _ =>
        refine Heeds.bind (watches_lookup (C := fun _ => False) (Q := fun _ => True)
          (onOk_of_only ((only_call_iff (.getDeployment name)).mpr rfl))) ?_
          (fun _ hx => absurd hx id) ?_
        · rintro _ ⟨e, -, he⟩
          exact absurd he id
        · intro y _
          cases y with
          | error e => trivial
          | ok d =>
            show Heeds _ _ _ _ _ (if reached d then _ else _)
            split
            · trivial
            · exact ih

/-! ## The steps of a transition -/

theorem steady_validateTarget (r : LLMActiveModelReconciler) (am : LLMActiveModel)
    (model : LLMModel) :
    Steady target generation (fun driver => driver.validate model = .ok ())
      (validateTarget r am model) := by
  refine Flow.heeds_bind (Q := fun _ => True) (steady_lookup (onOk_of_only trivial)
    (only_failTransition (by decide) (by decide))) fun driver _ => ?_
  refine Flow.heeds_bind (Q := fun _ => driver.validate model = .ok ())
    (steady_lookup ?_ (only_failTransition (by decide) (by decide))) fun _ hvalid => ?_
  · cases hvalid : driver.validate model with
    | error e => trivial
    | ok _ => exact rfl
  · exact Flow.heeds_bind (Q := fun _ => True)
      (steady_lookup (onOk_of_only (lookup_validateChatTemplate r model))
        (only_failTransition (by decide) (by decide))) fun _ _ => hvalid

theorem steady_resolvePrevious (am : LLMActiveModel) (model : LLMModel) :
    Steady target generation (fun _ => True) (resolvePrevious am model) := by
  refine Flow.heeds_bind (Q := fun _ => True) ?_ ?_
  · unfold previousByModel
    split
    · trivial
    · refine Flow.heeds_bind (Q := fun _ => True)
        (Flow.heeds_lift ((lookup_findModel _).mono (fun _ hc => hc.inert) fun _ h => h)) ?_
      intro x _
      cases x with
      | error e => trivial
      | ok previousModel =>
        exact Flow.heeds_bind (Q := fun _ => True)
          (steady_lookup (onOk_of_only (lookup_findBackend _ _))
            (only_failTransition (by decide) (by decide))) fun _ _ => trivial
  · rintro ⟨found, backendType⟩ _
    cases found with
    | some backend => trivial
    | none =>
      exact Flow.heeds_lift
        ((lookup_previousByType backendType model).mono (fun _ hc => hc.inert) fun _ h => h)

/-- A wait for a Deployment as the transition makes it. -/
theorem Watched.awaitDeployment (h : Watched target generation am model)
    (reason metricReason : String) (hreason : reason ≠ "InvalidCacheConfiguration")
    (hmetric : metricReason ≠ "invalid_cache_configuration") (reached : Deployment → Bool)
    (name : String) (expired : Err) (polls : Nat) :
    Steady target generation (fun _ => True)
      (orLeave (Controller.pollDeployment reached name (Controller.checkCurrent am model) expired
        polls) fun e => if e.isTransitionChanged then Prog.pure (transitionCheckResult e)
          else failTransition am model.spec.model.name reason metricReason e) := by
  refine steady_orLeave (h.pollDeployment reached name expired polls) ?_ ?_
  · intro e he
    rw [if_pos he, transitionCheckResult, if_pos he]
  · intro e
    split
    · trivial
    · exact only_failTransition hreason hmetric e

theorem Watched.scaleDownPrevious (h : Watched target generation am model) (backend : LLMBackend)
    (previous : Option LLMBackend) (deadline : Deadline) :
    Steady target generation (fun _ => True)
      (scaleDownPrevious am model backend previous deadline) := by
  cases previous with
  | none => trivial
  | some previous =>
    unfold Controller.scaleDownPrevious
    dsimp only
    split
    · trivial
    · refine Flow.heeds_bind h.guardCurrent fun _ _ => ?_
      refine Flow.heeds_bind (Q := fun _ => True) (steady_orLeave (C := fun _ => False) ?_
        (fun _ he => absurd he id) (only_failTransition (by decide) (by decide))) fun _ _ => ?_
      · refine heeds_of_yields (onOk_of_only (only_bind ((only_call_iff _).mpr
          ⟨trivial, id, id⟩) ?_))
        intro x
        cases x with
        | error e => trivial
        | ok d => exact (only_call_iff _).mpr ⟨trivial, id, id⟩
      · exact h.awaitDeployment "ScaleDownTimeout" "scale_down_timeout" (by decide)
          (by decide) isScaledDown _ _ _

theorem steady_writeModel (written : LLMModel) {f : Err → Outcome} :
    Steady target generation (fun m => ∃ v, m = { written with resourceVersion := v })
      (orLeave (writeModel written) fun e => Prog.pure (f e)) :=
  steady_orLeave (C := fun _ => False)
    (heeds_of_yields (yields_writeModel ⟨trivial, id, id⟩)) (fun _ he => absurd he id)
    fun _ => trivial

theorem Watched.ensureHot (h : Watched target generation am model) (offline : Bool)
    (request : CacheRequest) :
    Steady target generation (fun m => m.spec = model.spec)
      (ensureHot am model offline request) := by
  refine Flow.heeds_bind (Q := fun _ => True) (steady_orLeave (C := fun _ => False)
    (heeds_of_yields (onOk_of_only ((only_call_iff _).mpr ⟨trivial, id, id⟩)))
    (fun _ he => absurd he id) (only_failTransition (by decide) (by decide))) fun result _ => ?_
  refine Flow.heeds_bind (steady_leaveIf (only_failTransition (by decide) (by decide) _))
    fun _ _ => ?_
  refine Flow.heeds_bind h.guardCurrent fun _ _ => ?_
  refine Flow.heeds_bind (steady_call ⟨trivial, id, id⟩) fun hydrated _ => ?_
  refine (steady_writeModel (withCacheState model result hydrated)).mono ?_
  intro x hx
  cases x with
  | error o => trivial
  | ok m =>
    obtain ⟨v, rfl⟩ := hx
    exact rfl

theorem Watched.ensureCached (h : Watched target generation am model)
    (r : LLMActiveModelReconciler) (backend : LLMBackend) {driver : RuntimeDriver}
    (hvalid : driver.validate model = .ok ()) :
    Steady target generation (fun m => m.spec = model.spec)
      (ensureCached r am model backend driver) := by
  unfold Controller.ensureCached
  rw [RuntimeDriver.cacheRequest_of_validate hvalid]
  refine Flow.heeds_bind (Q := fun _ => True) trivial fun cacheRequest _ => ?_
  refine Flow.heeds_bind (Q := fun _ => True)
    (steady_lookup (onOk_of_only (lookup_backendOfflineMode backend))
      (only_failTransition (by decide) (by decide))) fun offline _ => ?_
  split
  · exact h.ensureHot offline _
  · exact Flow.heeds_bind (steady_leaveIf (only_failTransition (by decide) (by decide) _))
      fun _ _ => rfl

theorem steady_activateTarget (r : LLMActiveModelReconciler) (am : LLMActiveModel)
    (model : LLMModel) (backend : LLMBackend) :
    Steady target generation (fun _ => True) (activateTarget r am model backend) := by
  refine steady_orLeave (C := fun _ => False) (heeds_of_yields (onOk_of_only ?_))
    (fun _ he => absurd he id) (only_failTransition (by decide) (by decide))
  refine only_bind ((only_call_iff _).mpr ⟨trivial, id, id⟩) ?_
  intro x
  cases x with
  | error e => trivial
  | ok d =>
    dsimp only
    cases findContainer (backendContainerName backend) d.spec.template.spec.containers with
    | none => trivial
    | some c =>
      refine only_bind ((lookup_switchTime r _).mono (fun _ hc => hc.inert) fun _ h => h) ?_
      intro switchedAt
      split
      · trivial
      · exact (only_call_iff _).mpr ⟨trivial, id, id⟩

theorem steady_deactivatePrevious (am : LLMActiveModel) (model : LLMModel) :
    Steady target generation (fun _ => True) (deactivatePrevious am model) := by
  unfold deactivatePrevious
  split
  · refine Flow.heeds_bind (Q := fun _ => True)
      (Flow.heeds_lift ((lookup_findModel _).mono (fun _ hc => hc.inert) fun _ h => h)) ?_
    intro x _
    cases x with
    | error e => trivial
    | ok previous => exact Flow.heeds_bind (steady_writeModel _) fun _ _ => trivial
  · trivial

theorem steady_markStable (am : LLMActiveModel) (model : LLMModel) :
    Steady target generation (fun _ => True) (markStable am model) := by
  unfold markStable
  split
  · trivial
  · refine Flow.heeds_bind (steady_call ⟨trivial, id, id⟩) fun finished _ => ?_
    refine Flow.heeds_bind (Q := fun _ => True) (steady_orLeave (C := fun _ => False)
      (heeds_of_yields (onOk_of_only (only_writeActive ?_))) (fun _ he => absurd he id)
      fun _ => trivial) fun _ _ => trivial
    refine ⟨?_, id, fun hfailed => nomatch hfailed⟩
    show activeReason _ ≠ _
    rw [activeReason_published]
    decide

theorem Watched.publish (h : Watched target generation am model)
    (runtimeMeta : Option RuntimeMetadata) :
    Steady target generation (fun _ => True) (publish am model runtimeMeta) := by
  refine Flow.heeds_bind (steady_writeModel _) ?_
  rintro _ ⟨v, rfl⟩
  have h : Watched target generation am
      { markActive model runtimeMeta with resourceVersion := v } := ⟨h.target, h.generation⟩
  refine Flow.heeds_bind h.guardCurrent fun _ _ => ?_
  refine Flow.heeds_bind (steady_deactivatePrevious _ _) fun _ _ => ?_
  refine Flow.heeds_bind h.guardCurrent fun _ _ => ?_
  exact steady_markStable _ _

theorem steady_beginTransition (am : LLMActiveModel) :
    Steady target generation (fun am' => am'.generation = am.generation) (beginTransition am) := by
  unfold beginTransition
  split
  · refine Flow.heeds_bind (steady_call ⟨trivial, id, id⟩) fun started _ => ?_
    have hwrite : (writeActive (withToken am started)).Yields Call.IsInert
        (Flow.OnOk fun am' => am'.generation = am.generation) := by
      refine Yields.bind ((only_call_iff _).mpr ⟨?_, id, fun hfailed => nomatch hfailed⟩) ?_
      · show activeReason _ ≠ _
        rw [withToken, activeReason_set]
        decide
      · intro x _
        cases x with
        | error e => trivial
        | ok version => exact rfl
    exact steady_orLeave (C := fun _ => False) (heeds_of_yields hwrite)
      (fun _ he => absurd he id) fun _ => trivial
  · exact rfl

/-! ## The wait for health -/

/-- One poll, whatever follows when the backend is not healthy. -/
theorem Watched.pollHealth (h : Watched target generation am model) (url : String)
    {next : Err → Go (Except Err Unit)}
    (hnext : ∀ e, Watches target generation (fun e => e.isTransitionChanged = true)
      (fun _ => True) (next e)) :
    Watches target generation (fun e => e.isTransitionChanged = true) (fun _ => True) (do
      match ← Controller.checkCurrent am model with
      | .error e => return .error e
      | .ok () =>
        match ← checkHealth url with
        | .ok () => return .ok ()
        | .error e => next e) := by
  refine Heeds.bind h.checkCurrent ?_ (fun _ hx => absurd hx id) ?_
  · rintro _ ⟨e, rfl, he⟩
    exact ⟨.error e, rfl, e, rfl, he⟩
  · intro x _
    cases x with
    | error e => trivial
    | ok _ =>
      refine ⟨trivial, fun y => ⟨fun hy => absurd hy id, fun hy => absurd hy id, ?_⟩⟩
      cases y with
      | ok _ => trivial
      | error e => exact hnext e

theorem Watched.waitForBackendHealth (h : Watched target generation am model) (url : String)
    (polls : Nat) :
    Watches target generation (fun e => e.isTransitionChanged = true) (fun _ => True)
      (waitForBackendHealth url (Controller.checkCurrent am model) polls) := by
  induction polls with
  | zero =>
    unfold Controller.waitForBackendHealth
    exact h.pollHealth url fun _ => trivial
  | succ polls ih =>
    unfold Controller.waitForBackendHealth
    exact h.pollHealth url fun _ => ih

end Walk

/-- `executeTransition` up to the wait for health. -/
def beforeHealth (r : LLMActiveModelReconciler) (am : LLMActiveModel) (model : LLMModel)
    (backend : LLMBackend) : Body (LLMActiveModel × LLMModel × Nat) := do
  let deadline ← withTimeout
  let am ← beginTransition am
  guardCurrent am model
  let driver ← validateTarget r am model
  let previous ← resolvePrevious am model
  let polls ← scaleDownPrevious am model backend previous deadline
  guardCurrent am model
  let model ← ensureCached r am model backend driver
  guardCurrent am model
  activateTarget r am model backend
  guardCurrent am model
  let polls ← orLeave (waitForRollout (backendDeploymentName backend) (checkCurrent am model)
      { deadline with polls := polls }) fun e =>
    if e.isTransitionChanged then Prog.pure (transitionCheckResult e)
    else failTransition am model.spec.model.name "RolloutFailed" "rollout_failed" e
  guardCurrent am model
  return (am, model, polls)

/-- The wait for health of a transition. -/
def healthWait (am : LLMActiveModel) (model : LLMModel) (backend : LLMBackend) (polls : Nat) :
    Go (Except Err Unit) :=
  waitForBackendHealth (backendURL backend) (checkCurrent am model) polls

/-- `executeTransition` after the wait for health. -/
def afterHealth (am : LLMActiveModel) (model : LLMModel) (backend : LLMBackend) :
    Body Outcome := do
  guardCurrent am model
  let runtimeMeta ← collectRuntimeMetadata (backendURL backend) model
  guardCurrent am model
  publish am model runtimeMeta

def failHealth (am : LLMActiveModel) (model : LLMModel) (e : Err) : Go Outcome :=
  failTransition am model.spec.model.name "HealthCheckFailed" "health_check_failed" e

section Transition

variable {r : LLMActiveModelReconciler} {am : LLMActiveModel} {model : LLMModel}
  {backend : LLMBackend}

theorem executeTransition_eq :
    executeTransition r am model backend = (do
      let x ← beforeHealth r am model backend
      orLeave (healthWait x.1 x.2.1 backend x.2.2) (failHealth x.1 x.2.1)
      afterHealth x.1 x.2.1 backend) := by
  unfold executeTransition driveTransition awaitServing beforeHealth afterHealth healthWait
    failHealth
  simp only [LawfulMonad.bind_assoc, LawfulMonad.pure_bind]
  rfl

/-- The transition waits for health when it has made the calls of `u`. -/
def InHealthWait (r : LLMActiveModelReconciler) (am : LLMActiveModel) (model : LLMModel)
    (backend : LLMBackend) (u : List (Event Kube)) : Prop :=
  ∃ u₁ u₂ x, u = u₁ ++ u₂ ∧ (beforeHealth r am model backend).prog.Runs u₁ (.ok x) ∧
    ∃ op k, (healthWait x.1 x.2.1 backend x.2.2).Steps u₂ (.call op k)

theorem watched_of_eq {am' : LLMActiveModel} {model' : LLMModel}
    (hgeneration : am'.generation = am.generation) (hspec : model'.spec = model.spec) :
    Watched model.spec.model.name am.generation am' model' :=
  ⟨by rw [hspec], hgeneration⟩

theorem steady_beforeHealth (r : LLMActiveModelReconciler) (am : LLMActiveModel) (model : LLMModel)
    (backend : LLMBackend) :
    Steady model.spec.model.name am.generation
      (fun x => Watched model.spec.model.name am.generation x.1 x.2.1)
      (beforeHealth r am model backend) := by
  refine Flow.heeds_bind (steady_call ⟨trivial, id, id⟩) fun deadline _ => ?_
  refine Flow.heeds_bind (steady_beginTransition am) fun am' hgeneration => ?_
  have h : Watched model.spec.model.name am.generation am' model := watched_of_eq hgeneration rfl
  refine Flow.heeds_bind h.guardCurrent fun _ _ => ?_
  refine Flow.heeds_bind (steady_validateTarget r am' model) fun driver hvalid => ?_
  refine Flow.heeds_bind (steady_resolvePrevious am' model) fun previous _ => ?_
  refine Flow.heeds_bind (h.scaleDownPrevious backend previous deadline) fun polls _ => ?_
  refine Flow.heeds_bind h.guardCurrent fun _ _ => ?_
  refine Flow.heeds_bind (h.ensureCached r backend hvalid) fun model' hspec => ?_
  have h := watched_of_eq hgeneration hspec
  refine Flow.heeds_bind h.guardCurrent fun _ _ => ?_
  refine Flow.heeds_bind (steady_activateTarget r am' model' backend) fun _ _ => ?_
  refine Flow.heeds_bind h.guardCurrent fun _ _ => ?_
  refine Flow.heeds_bind (h.awaitDeployment "RolloutFailed" "rollout_failed" (by decide) (by decide)
    isRolledOut _ _ _) fun _ _ => ?_
  exact Flow.heeds_bind h.guardCurrent fun _ _ => h

theorem Watched.afterHealth {target : String} {generation : Nat}
    (h : Watched target generation am model) (backend : LLMBackend) :
    Steady target generation (fun _ => True) (afterHealth am model backend) := by
  refine Flow.heeds_bind h.guardCurrent fun _ _ => ?_
  refine Flow.heeds_bind (steady_call ⟨trivial, id, id⟩) fun runtimeMeta _ => ?_
  refine Flow.heeds_bind h.guardCurrent fun _ _ => ?_
  exact h.publish runtimeMeta

/-! ## Where a transition is called off -/

/-- What is left of the transition when the wait for health has returned `x`. -/
def resumed (am : LLMActiveModel) (model : LLMModel) (backend : LLMBackend) :
    Except Err Unit → Go (Except Outcome Outcome)
  | .ok _ => (afterHealth am model backend).prog
  | .error e => failHealth am model e >>= fun o => Prog.pure (.error o)

theorem prog_executeTransition :
    (executeTransition r am model backend).prog =
      (beforeHealth r am model backend).prog >>= fun x => match x with
        | .ok x => healthWait x.1 x.2.1 backend x.2.2 >>= resumed x.1 x.2.1 backend
        | .error o => Prog.pure (.error o) := by
  rw [executeTransition_eq, Flow.prog_bind]
  congr 1
  funext x
  cases x with
  | error o => rfl
  | ok x =>
    refine (Prog.bind_assoc _ _ _).trans ?_
    congr 1
    funext y
    cases y with
    | ok _ => rfl
    | error e => exact Prog.bind_assoc _ _ _

theorem yields_executeTransition (r : LLMActiveModelReconciler) (am : LLMActiveModel)
    (model : LLMModel) (backend : LLMBackend) :
    (executeTransition r am model backend).prog.Only Call.CacheConfigured := by
  rw [prog_executeTransition]
  refine Yields.bind (steady_beforeHealth r am model backend).yields ?_
  intro x hx
  cases x with
  | error o => trivial
  | ok x =>
    refine Yields.bind (Watched.waitForBackendHealth hx (backendURL backend) x.2.2).yields ?_
    intro y _
    cases y with
    | ok _ =>
      exact (Watched.afterHealth hx backend).yields.mono (fun _ h => h) fun _ _ => trivial
    | error e =>
      refine only_bind ((only_failTransition (by decide) (by decide) e).mono
        (fun _ h => h.1) fun _ h => h) fun _ => trivial

/-- The run ends at once with an immediate requeue, and no failure has been reported in it. -/
def CancelsAt (u : List (Event Kube)) (e : Event Kube) (v : List (Event Kube)) (outcome : Outcome) :
    Prop :=
  v = [] ∧ outcome = .cancelled ∧ ∀ e' ∈ u ++ e :: v, ¬Call.ReportsFailure e'.1

variable {u v : List (Event Kube)} {e : Event Kube}

section

variable {x : Except Outcome Outcome}
  (h : (executeTransition r am model backend).prog.Runs (u ++ e :: v) x)
  (hchanged : Changed model.spec.model.name am.generation e)
include h hchanged

/-- A change that is noticed in the wait for health makes the transition fail. -/
theorem not_cancels_of_inHealthWait {outcome : Outcome}
    (hwait : InHealthWait r am model backend u) :
    ¬CancelsAt u e v outcome := by
  obtain ⟨u₁, u₂, y, rfl, hbefore, op, k, hsteps⟩ := hwait
  rw [prog_executeTransition, List.append_assoc] at h
  have h := runs_after hbefore h
  obtain ⟨a, w, w', rfl, hrun, hrest⟩ := hsteps.runs_bind h
  have hwatched := ((steady_beforeHealth r am model backend).yields.steps hbefore).2
  obtain ⟨rfl, ⟨err, rfl, -⟩, -⟩ :=
    (Watched.waitForBackendHealth hwatched (backendURL backend) y.2.2).runs hrun hchanged
  obtain ⟨o, s, s', rfl, hfail, -⟩ := runs_bind hrest
  obtain ⟨_, s, rfl, -⟩ := runs_call hfail
  intro hcancels
  exact absurd hcancels.1 (by simp)

/-- Anywhere else the transition is called off. -/
theorem cancels_of_not_inHealthWait (hwait : ¬InHealthWait r am model backend u) :
    v = [] ∧ x = .error .cancelled ∧ ∀ e' ∈ u ++ e :: v, ¬Call.ReportsFailure e'.1 := by
  have hsteady := steady_beforeHealth r am model backend
  rw [prog_executeTransition] at h
  rcases runs_bind_at h with ⟨a, w, w', rfl, hrun, hrest⟩ | ⟨a, w, w', rfl, hrun, hrest⟩
  · obtain ⟨rfl, rfl, hquiet⟩ := hsteady.runs hrun hchanged
    obtain ⟨rfl, rfl⟩ := runs_pure hrest
    exact ⟨rfl, rfl, hquiet⟩
  · cases a with
    | error o => exact absurd (runs_pure hrest).1 (by simp)
    | ok y =>
      have hwatched := (hsteady.yields.steps hrun).2
      have hhealth := Watched.waitForBackendHealth hwatched (backendURL backend) y.2.2
      rcases runs_bind_at hrest with ⟨b, s, s', rfl, hb, -⟩ | ⟨b, s, s', rfl, hb, hlast⟩
      · exact absurd ⟨w, w', y, rfl, hrun, hb.at_call⟩ hwait
      · cases b with
        | error err =>
          have hparting : (resumed y.1 y.2.1 backend (.error err)).Only Call.IsParting :=
            only_bind (only_failTransition (by decide) (by decide) err) fun _ => trivial
          exact absurd ((changeSignal _ _).checks_of_stops hchanged)
            ((hparting.steps hlast).1 e (by simp)).2
        | ok _ =>
          obtain ⟨rfl, rfl, hquiet⟩ := (Watched.afterHealth hwatched backend).runs hlast hchanged
          refine ⟨rfl, rfl, ?_⟩
          intro e' he' hfails
          rw [List.append_assoc, List.append_assoc, List.mem_append, List.mem_append] at he'
          rcases he' with he' | he' | he'
          · obtain ⟨o, ho⟩ := hsteady.left_of_fails hrun he' hfails
            cases ho
          · exact hhealth.left_of_fails hb he' hfails
          · exact hquiet e' he' hfails

end

/-- A transition that notices a change of the request is called off, wherever it notices it first,
except in the wait for health. -/
theorem cancelled_iff {outcome : Outcome}
    (h : (executeTransition r am model backend).exit.Runs (u ++ e :: v) outcome)
    (hchanged : Changed model.spec.model.name am.generation e) :
    CancelsAt u e v outcome ↔ ¬InHealthWait r am model backend u := by
  constructor
  · intro hcancels hwait
    rcases Flow.runs_exit h with h | h <;>
      exact not_cancels_of_inHealthWait h hchanged hwait hcancels
  · intro hwait
    rcases Flow.runs_exit h with h | h <;>
      obtain ⟨hv, hx, hquiet⟩ := cancels_of_not_inHealthWait h hchanged hwait <;> cases hx
    exact ⟨hv, rfl, hquiet⟩

end Transition

/-- A validated model has a cache request, in whichever order `parseSize` searches its table; so no
transition fails for the want of one, at any of its calls. -/
theorem validated_model_cacheable :
    (∀ kind d model, driverFor kind = .ok d → RuntimeDriver.validate d model = .ok () →
      ∃ request, d.cacheRequest model = .ok request) ∧
    (∀ table, List.Perm table sizeSuffixes → ∀ s, parseSizeIn table s = parseSize s) ∧
    ∀ r am model backend t q, Steps (executeTransition r am model backend).prog t q →
      ∀ e ∈ t, Call.CacheConfigured e.1 := by
  refine ⟨?_, ?_, ?_⟩
  · intro kind d model _ hvalid
    exact ⟨_, RuntimeDriver.cacheRequest_of_validate hvalid⟩
  · intro table hperm s
    exact parseSizeIn_eq hperm s
  · intro r am model backend t q h
    exact ((yields_executeTransition r am model backend).steps h).1

theorem validated_model_cacheable_demo :
    ∃ request, vllmDriver.cacheRequest (Demo.model "b" false) = .ok request :=
  validated_model_cacheable.1 .vllm vllmDriver (Demo.model "b" false) rfl (by decide +kernel)

namespace Demo

/-- The request of model "b", before anything has been activated. -/
def firstRequest : LLMActiveModel :=
  { activeModel "b" with status := ⟨"", .empty, .none, "", none, none, 0, [], 0⟩ }

/-- The answers to a first activation. After `current` checks the request has changed, and a
status written for the old one is refused. -/
def answers (current checks : Nat) : (c : Call) → c.Answer × Nat
  | .getActive _ => (.ok { firstRequest with
      generation := if checks < current then 1 else 2
      status := { firstRequest.status with transitionGeneration := 1 } }, checks + 1)
  | .listActive => (.ok [firstRequest], checks)
  | .listModels => (.ok [model "b" false], checks)
  | .getBackend name => (.ok (backend name), checks)
  | .listBackends => (.ok [backend "b"], checks)
  | .getConfigMap name => (.error (.notFound name), checks)
  | .getDeployment name => (.ok (deployment name 1), checks)
  | .scaleDeployment _ _ => (.ok (), checks)
  | .patchDeployment _ _ => (.ok (), checks)
  | .updateActiveStatus _ =>
    (if checks ≤ current then .ok (2 : Nat) else .error (.conflict "the object has been modified"),
      checks)
  | .updateModelStatus _ => (.ok (2 : Nat), checks)
  | .cacheEnsure _ => (.ok cacheHot, checks)
  | .checkHealth _ => (.ok (), checks)
  | .collectRuntimeMetadata _ _ => (none, checks)
  | .now => ((0 : Nat), checks)
  | .withTimeout => (⟨3, false⟩, checks)
  | .recordTransitionFailure _ _ => ((), checks)

def firstTransition : Go Outcome :=
  (executeTransition reconciler firstRequest (model "b" false) (backend "b")).exit

/-- A first activation whose request changes after `current` checks. -/
def firstActivation (current : Nat) : List (Event Kube) × Outcome :=
  firstTransition.record (answers current) 0

theorem exists_firstActivation (current : Nat)
    (h : ((firstActivation current).1.find? fun e => decide (Changed "b" 1 e)).isSome = true) :
    ∃ u e v, firstTransition.Runs (u ++ e :: v) (firstActivation current).2 ∧ Changed "b" 1 e ∧
      ∀ e' ∈ u, ¬Changed "b" 1 e' := by
  have hrun : firstTransition.Runs (firstActivation current).1 (firstActivation current).2 := by
    unfold firstActivation
    exact runs_record _ _ _
  obtain ⟨e, he⟩ := Option.isSome_iff_exists.mp h
  obtain ⟨hchanged, u, v, heq, hu⟩ := List.find?_eq_some_iff_append.mp he
  rw [heq] at hrun
  refine ⟨u, e, v, hrun, of_decide_eq_true hchanged, ?_⟩
  intro e' he'
  simpa using hu e' he'

end Demo

/-- The request changes between the rollout and the wait for health: the transition counts as
failed, and ends with the error of its own stale write. -/
theorem changed_request_marked_failed : ∃ u e v outcome,
    (executeTransition Demo.reconciler Demo.firstRequest (Demo.model "b" false)
      (Demo.backend "b")).exit.Runs (u ++ e :: v) outcome ∧
    Changed "b" 1 e ∧ (∀ e' ∈ u, ¬Changed "b" 1 e') ∧ ¬CancelsAt u e v outcome := by
  obtain ⟨u, e, v, hrun, hchanged, hfirst⟩ := Demo.exists_firstActivation 6
    (by decide +kernel)
  refine ⟨u, e, v, _, hrun, hchanged, hfirst, ?_⟩
  intro hcancels
  exact absurd hcancels.2.1 (by decide +kernel)

/-- The request changes before the rollout. -/
theorem cancelled_iff_first_activation : ∃ u e v outcome,
    (executeTransition Demo.reconciler Demo.firstRequest (Demo.model "b" false)
      (Demo.backend "b")).exit.Runs (u ++ e :: v) outcome ∧ Changed "b" 1 e ∧
    (CancelsAt u e v outcome ↔ ¬InHealthWait Demo.reconciler Demo.firstRequest
      (Demo.model "b" false) (Demo.backend "b") u) := by
  obtain ⟨u, e, v, hrun, hchanged, -⟩ := Demo.exists_firstActivation 4
    (by decide +kernel)
  exact ⟨u, e, v, _, hrun, hchanged, cancelled_iff hrun hchanged⟩

end LlmOperator.Controller
