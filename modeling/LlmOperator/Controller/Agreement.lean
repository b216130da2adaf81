import LlmOperator.Controller.Cluster

/-!
# The published status agrees with the request

Any number of reconciles of one `LLMActiveModel` run at once, each of them possibly from an
old version of the object, while clients change the spec at any time. A status write that
the API server accepts describes the generation that is then stored, and when it says
`Stable` it names the model that is then requested.

The argument is that every write is made from a copy of some stored version, with nothing
but the status changed, and that the API server accepts only copies of the current one.
-/

namespace LlmOperator.Controller

open Api Data Backend Interaction Interaction.Prog

/-- Reconciles of the object, one for each worker, and clients that change its spec. -/
def activeSystem (r : LLMActiveModelReconciler) (name : String) (τ : Type) :
    System Kube ActiveStore τ Outcome where
  exec s c a s' := s.Exec c a s'
  env s s' := s.Edited s'
  program _ := reconcile r name

/-- The status speaks of the generation and the request of the very object it is part of. -/
structure Consistent (am : LLMActiveModel) : Prop where
  observed : am.status.observedGeneration = am.generation
  stable : am.status.phase = .stable → am.status.modelName = am.spec.modelName

/-- The world of one reconcile: the others add versions, and every write that would be
accepted agrees with what is stored. -/
def agreementWorld : World Kube (ActiveStore × List (Event Kube)) where
  exec x c a y := x.1.Exec c a y.1
  rely x y := x.1.Grows y.1
  guar x c _ _ := ∀ obj, c = .updateActiveStatus obj → x.1.Accepts obj →
    obj.status.observedGeneration = x.1.current.generation ∧
      (obj.status.phase = .stable → obj.status.modelName = x.1.current.spec.modelName)
  rely_refl := ActiveStore.grows_fst
  rely_trans := @ActiveStore.grows_fst_trans

variable {r : LLMActiveModelReconciler} {am : LLMActiveModel} {model : LLMModel}
  {x : ActiveStore × List (Event Kube)}

/-- A consistent status written from a copy keeps the agreement. -/
theorem consistent_guar {c : Call} {a : c.Answer} {y : ActiveStore × List (Event Kube)}
    (hc : Derived Consistent am c) (hk : x.1.Known am) : agreementWorld.guar x c a y := by
  rintro obj rfl hacc
  obtain ⟨hspec, hgen⟩ := StatusOf.accepted hc hk hacc
  refine ⟨by rw [hc.holds.observed, hgen], ?_⟩
  intro hstable
  rw [hc.holds.stable hstable, hspec]

theorem keeps_known (am : LLMActiveModel) :
    agreementWorld.Keeps (Derived Consistent am) fun y => y.1.Known am where
  rely _ _ h hs := h.grows hs
  call _ _ _ _ hop h hexec := ⟨consistent_guar hop h, h.grows hexec.grows⟩

/-! ## Every write is consistent -/

theorem consistent_refused (hobs : am.status.observedGeneration = am.generation)
    (reason message : String) : Consistent (refused am reason message) :=
  ⟨hobs, fun h => nomatch h⟩

theorem yields_driveTransition (hobs : am.status.observedGeneration = am.generation)
    (hmodel : model.spec.model.name = am.spec.modelName) (backend : LLMBackend)
    (deadline : Deadline) :
    (driveTransition r am model backend deadline).prog.Yields (Derived Consistent am)
      (Flow.OnOk fun _ => True) := by
  refine (tolerates_derived (consistent_refused hobs)).yields_driveTransition r backend deadline
    (fun _ => derived_of_ne) ?_
  intro m duration hm
  refine ⟨rfl, rfl, rfl, hobs, fun _ => ?_⟩
  show m.spec.model.name = am.spec.modelName
  rw [hm, hmodel]

/-! ## The walk -/

/-- The token write moves the copy on to the version it has made. -/
theorem stays_beginTransition_known (hobs : am.status.observedGeneration = am.generation)
    (hk : x.1.Known am) :
    Safe agreementWorld (beginTransition am).prog (Safe.Stays fun am' y => y.1.Known am' ∧
      am'.spec = am.spec ∧ am'.status.observedGeneration = am'.generation) x := by
  unfold beginTransition
  split
  · refine Safe.stays_bind ((keeps_known am).stays (p := liftM now) (Q := fun _ => True)
      ⟨trivial, fun _ => trivial⟩ hk) ?_
    rintro started y ⟨-, hk⟩
    refine stays_orError (Safe.bind ?_)
    intro s₁ hs₁ a s₂ hexec
    have hk₁ : s₁.1.Known (withToken am started) := hk.grows hs₁
    have hwrite : StatusOf Consistent am (withToken am started) :=
      ⟨rfl, rfl, rfl, hobs, fun h => nomatch h⟩
    refine ⟨consistent_guar (c := .updateActiveStatus (withToken am started)) hwrite
      (hk.grows hs₁), ?_⟩
    cases a with
    | error e => exact fun am' h => nomatch h
    | ok version =>
      obtain ⟨hacc, hfresh, hs₂⟩ := hexec
      rintro am' h
      cases h
      rw [hs₂]
      exact ⟨hk₁.putStatus hacc hfresh, rfl, hobs⟩
  · exact ⟨hk, rfl, hobs⟩

theorem safe_reconcile_agreement (r : LLMActiveModelReconciler) (name : String) :
    Safe agreementWorld (reconcile r name) (fun _ _ => True) x := by
  refine Safe.exit_of_stays ?_
  refine Safe.stays_bind (Q := fun stored y => y.1.Known stored) ?_ ?_
  · refine stays_orLeave ?_
    intro s₁ _ a s₂ hexec
    refine ⟨fun obj h => (by cases h), ?_⟩
    cases a with
    | error e => trivial
    | ok stored =>
      obtain ⟨hmem, -, hs₂⟩ := hexec
      show s₂.1.Known stored
      rw [hs₂]
      exact ActiveStore.known_of_mem hmem
  intro stored y hk
  have hk : y.1.Known (observe stored) := hk
  have hobs : (observe stored).status.observedGeneration = (observe stored).generation := rfl
  have hP := tolerates_derived (consistent_refused hobs)
  refine Safe.stays_bind ((keeps_known _).stays (hP.yields_orLeave readOnly_singletonOwner
    fun _ => trivial) hk) ?_
  rintro owner y ⟨-, hk⟩
  refine Safe.stays_bind ((keeps_known _).stays (yields_leaveIf (only_writeActiveThen
    (hP.failed _ _))) hk) ?_
  rintro _ y ⟨-, hk⟩
  refine Safe.stays_bind ((keeps_known _).stays (yields_orLeave ((yields_findModel _).mono hP.lookup
    fun _ h => h) fun e => only_writeActiveIgnoring (hP.failed _ _)) hk) ?_
  rintro model y ⟨hmodel, hk⟩
  refine Safe.stays_bind ((keeps_known _).stays (hP.yields_orLeave (readOnly_findBackend _ _)
    fun e => only_writeActiveIgnoring (hP.failed _ _)) hk) ?_
  rintro backend y ⟨-, hk⟩
  refine Safe.stays_bind ((keeps_known _).stays (hP.yields_stableFastPath backend
    fun hname => ⟨rfl, rfl, rfl, hobs, fun _ => hname⟩) hk) ?_
  rintro _ y ⟨-, hk⟩
  refine Safe.stays_bind ((keeps_known _).stays (hP.yields_transitionGates r
    fun _ _ _ => ⟨rfl, rfl, rfl, hobs, fun h => nomatch h⟩) hk) ?_
  rintro _ y ⟨-, hk⟩
  refine Safe.stays_bind ((keeps_known _).stays (p := liftM withTimeout) (Q := fun _ => True)
    ⟨trivial, fun _ => trivial⟩ hk) ?_
  rintro deadline y ⟨-, hk⟩
  refine Safe.stays_bind (stays_beginTransition_known hobs hk) ?_
  rintro am' y ⟨hk', hspec, hobs'⟩
  rw [← hspec] at hmodel
  exact ((keeps_known am').stays
    (yields_driveTransition hobs' hmodel backend deadline) hk').stays_mono
    fun _ _ _ => trivial

theorem activeSystem_fits (r : LLMActiveModelReconciler) (name : String) (τ : Type)
    [DecidableEq τ] :
    (activeSystem r name τ).Fits (.none _ _) agreementWorld fun _ => True where
  env _ _ _ h := ⟨fun _ _ => ActiveStore.Edited.grows h, trivial⟩
  call _ _ _ _ _ _ h _ := h
  others _ _ _ _ _ _ _ _ _ _ h _ _ := ActiveStore.Exec.grows h
  guar _ _ _ _ _ _ _ _ := trivial
  start _ _ _ := safe_reconcile_agreement r name

/-- **Agreement of the status with the request.** In every configuration reached, a status
write about to be made by any of the workers which the API server would accept is about the
generation that is stored, and says `Stable` only with the model that the stored object
requests. -/
theorem accepted_status_agrees (r : LLMActiveModelReconciler) (name : String) (τ : Type)
    [DecidableEq τ] (obj₀ : LLMActiveModel) (c : Config Kube ActiveStore τ Outcome)
    (hreach : (activeSystem r name τ).Reach (.none _ _) (.idle (.created obj₀)) c)
    (i : τ) (t : List (Event Kube)) (obj : LLMActiveModel)
    (k : Except Err Nat → Go Outcome)
    (hjob : c.job i = some ⟨t, .call (.updateActiveStatus obj) k⟩)
    (haccept : c.state.Accepts obj) :
    obj.status.observedGeneration = c.state.current.generation ∧
      (obj.status.phase = .stable →
        obj.status.modelName = c.state.current.spec.modelName) := by
  obtain ⟨-, hsafe⟩ := hreach.safe (activeSystem_fits r name τ) trivial (Config.idle_allSafe _ _)
  have hexec : agreementWorld.exec (c.state, t) (.updateActiveStatus obj)
      (.error .deadlineExceeded) (c.state, t) := Or.inl rfl
  exact hsafe.guar hjob hexec obj rfl haccept

/-- Runs on the object alone: clients request models, and everything else is as in the small
namespace. -/
def ActiveStore.player : Player Kube ActiveStore String where
  edit modelName s := s.putSpec ⟨modelName⟩ _ s.fresh_nextVersion
  answer s c :=
    let x := ({ Demo.cluster with active := s } : Cluster).answer c
    (x.1, x.2.active)

theorem ActiveStore.player_sound (r : LLMActiveModelReconciler) (name : String) (τ : Type)
    [DecidableEq τ] : ActiveStore.player.Sound (activeSystem r name τ) where
  edit modelName s := ⟨⟨modelName⟩, s.nextVersion, s.fresh_nextVersion, rfl⟩
  answer s c := ({ Demo.cluster with active := s } : Cluster).exec_answer c |>.active

/-- A request is made and taken back while one of two reconciles is under way; the other one then
says `Stable`, for the third generation. -/
theorem accepted_status_agrees_reverted :
    ∃ c, (activeSystem Demo.reconciler "main" Bool).Reach (.none _ _)
        (.idle (.created (setPhase (Demo.activeModel "a") .failed))) c ∧
      c.state.current.generation = 3 ∧
      ∃ obj ∈ (c.job true).bind pendingStatus, c.state.Accepts obj ∧
        obj.status.phase = .stable ∧
        obj.status.observedGeneration = c.state.current.generation ∧
        obj.status.modelName = c.state.current.spec.modelName := by
  obtain ⟨c, hreach, hgen, obj, hobj, haccept, hstable⟩ :=
    (ActiveStore.player_sound Demo.reconciler "main" Bool).exists_reach (.none _ _)
      [.start false, .run false 4, .edit "b", .edit "a", .start true, .run true 5]
      (.idle (.created (setPhase (Demo.activeModel "a") .failed)))
      (fun c => c.state.current.generation = 3 ∧
        ∃ obj ∈ (c.job true).bind pendingStatus, c.state.Accepts obj ∧ obj.status.phase = .stable)
      (by decide)
  obtain ⟨j, hj, hpending⟩ := Option.bind_eq_some_iff.mp hobj
  obtain ⟨k, hk⟩ := exists_of_pendingStatus hpending
  obtain ⟨hobserved, hname⟩ := accepted_status_agrees Demo.reconciler "main" Bool _ c hreach true
    j.trace obj k (hj.trans (congrArg some hk)) haccept
  exact ⟨c, hreach, hgen, obj, hobj, haccept, hstable, hobserved, hname hstable⟩

end LlmOperator.Controller
