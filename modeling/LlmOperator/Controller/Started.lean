import LlmOperator.Controller.Agreement

/-!
# The start of a transition is recorded

The last step of a transition dereferences `status.transitionStarted` without a check. It is
set in the same write as the transition token, but a reconcile that finds the token of its
generation skips that write, on the strength of other fields of the status.

What carries the argument is that a status with a token has a start. Every status write
keeps this, from whichever version of the object it is made and whichever way the manager is
configured. As a generation is never zero, no status without a start can be taken for one
with the token of its generation.
-/

namespace LlmOperator.Controller

open Api Interaction Interaction.Prog

/-- Reconciles of the object, each by a manager with a configuration of its own, and clients
that change its spec. -/
def managedSystem {τ : Type} (config : τ → LLMActiveModelReconciler) (name : String) :
    System Kube ActiveStore τ Outcome where
  exec s c a s' := s.Exec c a s'
  env s s' := s.Edited s'
  program i := reconcile (config i) name

/-- A status with a transition token has the start of the transition. -/
def Started (status : LLMActiveModelStatus) : Prop :=
  status.transitionGeneration ≠ 0 → status.transitionStarted ≠ none

/-- A status write keeps the start next to the token. -/
def Call.WritesStarted : Call → Prop
  | .updateActiveStatus obj => Started obj.status
  | _ => True

variable {am : LLMActiveModel} {model : LLMModel} {α : Type} (r : LLMActiveModelReconciler)

/-- The start is there after the token has been looked at, whether or not it was written. -/
theorem started_of_not_needsToken (hgeneration : 1 ≤ am.generation) (h : Started am.status)
    (hneeds : needsToken am = false) : am.status.transitionStarted ≠ none := by
  intro hnone
  have htoken : am.status.transitionGeneration = am.generation := by
    simp only [needsToken, hnone] at hneeds
    grind
  have hzero : am.status.transitionGeneration ≠ 0 := by omega
  exact h hzero hnone

/-! ## Status writes -/

theorem writesStarted_of_ne {c : Call} (h : ∀ obj, c ≠ .updateActiveStatus obj) :
    c.WritesStarted := by
  cases c with
  | updateActiveStatus obj => exact absurd rfl (h obj)
  | _ => trivial

theorem tolerates_writesStarted (h : Started am.status) : Tolerates Call.WritesStarted am where
  read c hread := writesStarted_of_ne (by rintro obj rfl; cases hread)
  failed _ _ := h

/-! ## Leaving with a result -/

section

variable (backend : LLMBackend)

/-- The body dereferences no nil pointer, and `Q` holds of what it goes on with. -/
def Calm (Q : α → Prop) (p : Body α) : Prop :=
  p.prog.Yields (fun _ => True) (Flow.OnExit (· ≠ .panic) Q)

/-- The function returns. -/
abbrev Returns (p : Go Outcome) : Prop := p.Yields (fun _ => True) (· ≠ .panic)

theorem returns_writeActiveThen {outcome : Outcome} (h : outcome ≠ .panic) :
    Returns (writeActiveThen am outcome) := by
  refine Yields.bind (only_true _) ?_
  intro x _
  cases x with
  | error e => exact Outcome.noConfusion
  | ok am' => exact h

theorem returns_writeActiveIgnoring {outcome : Outcome} (h : outcome ≠ .panic) :
    Returns (writeActiveIgnoring am outcome) :=
  Yields.bind (only_true _) fun _ _ => h

theorem returns_failTransition (modelName reason metricReason : String) (cause : Err) :
    Returns (failTransition am modelName reason metricReason cause) :=
  Yields.bind (only_true _) fun _ _ => returns_writeActiveThen nofun

theorem returns_transitionCheckResult (e : Err) :
    Returns (Prog.pure (transitionCheckResult e)) := by
  show transitionCheckResult e ≠ .panic
  unfold transitionCheckResult
  split <;> nofun

theorem calm_lift (p : Go α) : Calm (fun _ => True) (liftM p) :=
  Yields.bind (only_true p) fun _ _ => trivial

theorem calm_orLeave {p : Go (Except Err α)} {handler : Err → Go Outcome} {Q : α → Prop}
    (hp : p.Yields (fun _ => True) (Flow.OnOk Q)) (h : ∀ e, Returns (handler e)) :
    Calm Q (orLeave p handler) := by
  refine Yields.bind hp ?_
  intro x hx
  cases x with
  | ok a => exact hx
  | error e => exact Yields.bind (h e) fun _ ho => ho

theorem calm_attempt {p : Go (Except Err α)} {handler : Err → Go Outcome}
    (h : ∀ e, Returns (handler e)) : Calm (fun _ => True) (orLeave p handler) :=
  calm_orLeave (onOk_of_only (only_true p)) h

theorem calm_leaveIf {c : Bool} {p : Go Outcome} (h : Returns p) :
    Calm (fun _ => True) (leaveIf c p) := by
  cases c with
  | true => exact Yields.bind h fun _ ho => ho
  | false => trivial

/-! ## The steps of a transition -/

theorem calm_guardCurrent : Calm (fun _ => True) (guardCurrent am model) :=
  calm_attempt returns_transitionCheckResult

theorem calm_validateTarget : Calm (fun _ => True) (validateTarget r am model) := by
  refine Flow.exits_bind (calm_attempt (returns_failTransition _ _ _)) fun _ _ => ?_
  refine Flow.exits_bind (calm_attempt (returns_failTransition _ _ _)) fun _ _ => ?_
  refine Flow.exits_bind (calm_attempt (returns_failTransition _ _ _)) fun _ _ => ?_
  trivial

theorem calm_resolvePrevious : Calm (fun _ => True) (resolvePrevious am model) := by
  refine Flow.exits_bind (Q := fun _ => True) ?_ fun found _ => ?_
  · unfold previousByModel
    split
    · trivial
    · refine Flow.exits_bind (calm_lift _) fun x _ => ?_
      cases x with
      | error e => trivial
      | ok previous =>
        exact Flow.exits_bind (calm_attempt (returns_failTransition _ _ _)) fun _ _ => trivial
  · obtain ⟨found, backendType⟩ := found
    cases found with
    | some backend => trivial
    | none => exact calm_lift _

theorem returns_cancelOr {e : Err} {p : Go Outcome} (h : Returns p) :
    Returns (if e.isTransitionChanged then Prog.pure (transitionCheckResult e) else p) := by
  split
  · exact returns_transitionCheckResult e
  · exact h

theorem calm_scaleDownPrevious (previous : Option LLMBackend) (deadline : Deadline) :
    Calm (fun _ => True) (scaleDownPrevious am model backend previous deadline) := by
  unfold scaleDownPrevious
  split
  · trivial
  · split
    · trivial
    · refine Flow.exits_bind calm_guardCurrent fun _ _ => ?_
      refine Flow.exits_bind (calm_attempt (returns_failTransition _ _ _)) fun _ _ => ?_
      exact calm_attempt fun e => returns_cancelOr (returns_failTransition _ _ _ e)

theorem calm_ensureHot (offline : Bool) (request : CacheRequest) :
    Calm (fun _ => True) (ensureHot am model offline request) := by
  refine Flow.exits_bind (calm_attempt (returns_failTransition _ _ _)) fun _ _ => ?_
  refine Flow.exits_bind (calm_leaveIf (returns_failTransition _ _ _ _)) fun _ _ => ?_
  refine Flow.exits_bind calm_guardCurrent fun _ _ => ?_
  refine Flow.exits_bind (calm_lift _) fun _ _ => ?_
  exact calm_attempt fun _ => Outcome.noConfusion

theorem calm_ensureCached (driver : Backend.RuntimeDriver) :
    Calm (fun _ => True) (ensureCached r am model backend driver) := by
  refine Flow.exits_bind (calm_attempt (returns_failTransition _ _ _)) fun request _ => ?_
  refine Flow.exits_bind (calm_attempt (returns_failTransition _ _ _)) fun offline _ => ?_
  dsimp only
  split
  · exact calm_ensureHot _ _
  · exact Flow.exits_bind (calm_leaveIf (returns_failTransition _ _ _ _)) fun _ _ => trivial

theorem calm_awaitServing (deadline : Deadline) :
    Calm (fun _ => True) (awaitServing am model backend deadline) := by
  refine Flow.exits_bind (calm_attempt fun e =>
    returns_cancelOr (returns_failTransition _ _ _ e)) fun _ _ => ?_
  refine Flow.exits_bind calm_guardCurrent fun _ _ => ?_
  refine Flow.exits_bind (calm_attempt (returns_failTransition _ _ _)) fun _ _ => ?_
  refine Flow.exits_bind calm_guardCurrent fun _ _ => ?_
  refine Flow.exits_bind (calm_lift _) fun _ _ => ?_
  exact Flow.exits_bind calm_guardCurrent fun _ _ => trivial

theorem calm_deactivatePrevious : Calm (fun _ => True) (deactivatePrevious am model) := by
  unfold deactivatePrevious
  split
  · refine Flow.exits_bind (calm_lift _) fun x _ => ?_
    cases x with
    | error e => trivial
    | ok previous =>
      exact Flow.exits_bind (calm_attempt fun _ => Outcome.noConfusion) fun _ _ => trivial
  · trivial

/-- The one place where a nil pointer could be dereferenced. -/
theorem calm_markStable (hstarted : am.status.transitionStarted ≠ none) :
    Calm (· ≠ .panic) (markStable am model) := by
  unfold markStable
  split
  · rename_i hnone
    exact absurd hnone hstarted
  · refine Flow.exits_bind (calm_lift _) fun _ _ => ?_
    exact Flow.exits_bind (calm_attempt fun _ => Outcome.noConfusion)
      fun _ _ => Outcome.noConfusion

theorem calm_publish (hstarted : am.status.transitionStarted ≠ none)
    (runtimeMeta : Option RuntimeMetadata) :
    Calm (· ≠ .panic) (publish am model runtimeMeta) := by
  refine Flow.exits_bind (calm_attempt fun _ => Outcome.noConfusion) fun _ _ => ?_
  refine Flow.exits_bind calm_guardCurrent fun _ _ => ?_
  refine Flow.exits_bind calm_deactivatePrevious fun _ _ => ?_
  refine Flow.exits_bind calm_guardCurrent fun _ _ => ?_
  exact calm_markStable hstarted

theorem calm_driveTransition (hstarted : am.status.transitionStarted ≠ none)
    (r : LLMActiveModelReconciler) (backend : LLMBackend) (deadline : Deadline) :
    Calm (· ≠ .panic) (driveTransition r am model backend deadline) := by
  refine Flow.exits_bind calm_guardCurrent fun _ _ => ?_
  refine Flow.exits_bind (calm_validateTarget r) fun driver _ => ?_
  refine Flow.exits_bind calm_resolvePrevious fun previous _ => ?_
  refine Flow.exits_bind (calm_scaleDownPrevious backend previous deadline) fun _ _ => ?_
  refine Flow.exits_bind calm_guardCurrent fun _ _ => ?_
  refine Flow.exits_bind (calm_ensureCached r backend driver) fun _ _ => ?_
  refine Flow.exits_bind calm_guardCurrent fun _ _ => ?_
  refine Flow.exits_bind (calm_attempt (returns_failTransition _ _ _)) fun _ _ => ?_
  refine Flow.exits_bind calm_guardCurrent fun _ _ => ?_
  refine Flow.exits_bind (calm_awaitServing backend _) fun runtimeMeta _ => ?_
  exact calm_publish hstarted runtimeMeta

/-! ## One reconcile -/

/-- The status writes of the body keep the start next to the token, it dereferences no nil
pointer, and `Q` holds of what it goes on with. -/
def Settled (Q : α → Prop) (p : Body α) : Prop :=
  p.prog.Yields Call.WritesStarted (Flow.OnExit (· ≠ .panic) Q)

theorem settled {p : Body α} {Q : α → Prop}
    (hwrites : p.prog.Yields Call.WritesStarted (Flow.OnOk fun _ => True)) (hcalm : Calm Q p) :
    Settled Q p :=
  (hwrites.and hcalm).mono (fun _ => id) fun _ h => h.2

theorem settled_beginTransition (hgeneration : 1 ≤ am.generation) (h : Started am.status) :
    Settled (fun am' => am'.status.transitionStarted ≠ none) (beginTransition am) := by
  refine settled ?_ ?_
  · exact ((tolerates_writesStarted h).yields_beginTransition fun _ _ => nofun).mono (fun _ => id)
      (by rintro (_ | _) _ <;> trivial)
  · unfold beginTransition
    split
    · refine Flow.exits_bind (calm_lift _) fun started _ => ?_
      refine calm_orLeave (Yields.bind (only_true _) ?_) fun _ => Outcome.noConfusion
      intro x _
      cases x with
      | error e => trivial
      | ok version => exact Option.some_ne_none started
    · rename_i hneeds
      exact started_of_not_needsToken hgeneration h (Bool.eq_false_iff.mpr hneeds)

theorem settled_executeTransition (hgeneration : 1 ≤ am.generation) (h : Started am.status)
    (r : LLMActiveModelReconciler) (backend : LLMBackend) :
    Settled (· ≠ .panic) (executeTransition r am model backend) := by
  refine Flow.exits_bind (settled (Flow.yields_lift ⟨trivial, fun _ => trivial⟩) (calm_lift _))
    fun deadline _ => ?_
  refine Flow.exits_bind (settled_beginTransition hgeneration h) fun am' hstarted => ?_
  have h' : Started am'.status := fun _ => hstarted
  exact settled ((tolerates_writesStarted h').yields_driveTransition r backend deadline
    (fun _ => writesStarted_of_ne) fun _ _ _ => h')
      (calm_driveTransition hstarted r backend deadline)

theorem calm_stableFastPath : Calm (fun _ => True) (stableFastPath am model backend) := by
  unfold stableFastPath
  split
  · refine Flow.exits_bind (calm_attempt fun _ => Outcome.noConfusion) fun _ _ => ?_
    refine Flow.exits_bind (calm_leaveIf (returns_writeActiveThen nofun)) fun _ _ => ?_
    exact calm_leaveIf (p := Prog.pure .done) nofun
  · trivial

end

theorem calm_transitionGates : Calm (fun _ => True) (transitionGates r am model) := by
  refine Flow.exits_bind (calm_leaveIf (returns_writeActiveThen nofun)) fun _ _ => ?_
  exact calm_leaveIf (returns_writeActiveThen nofun)

/-! ## Whole runs -/

/-- Every version has a start next to its token. -/
def ActiveStore.AllStarted (s : ActiveStore) : Prop :=
  ∀ am ∈ s.versions, 1 ≤ am.generation ∧ Started am.status

namespace ActiveStore.AllStarted

variable {s s' : ActiveStore}

theorem write (h : s.AllStarted) {next : LLMActiveModel} (hf : s.Fresh next.resourceVersion)
    (hgeneration : s.current.generation ≤ next.generation) (hnext : Started next.status) :
    (s.write next hf).AllStarted := by
  have hcurrent : 1 ≤ s.current.generation := (h _ List.mem_cons_self).1
  exact List.forall_mem_cons.mpr ⟨⟨hcurrent.trans hgeneration, hnext⟩, h⟩

theorem edited (h : s.AllStarted) (hs : s.Edited s') : s'.AllStarted := by
  obtain ⟨spec, version, hf, rfl⟩ := hs
  refine h.write hf ?_ (h _ List.mem_cons_self).2
  dsimp only
  split <;> omega

theorem exec (h : s.AllStarted) {c : Call} {a : c.Answer} (hs : s.Exec c a s')
    (hc : c.WritesStarted) : s'.AllStarted := by
  rcases hs.cases with rfl | ⟨obj, rfl, -, version, hf, rfl⟩
  · exact h
  · exact h.write hf le_rfl hc

end ActiveStore.AllStarted

/-- The world of one reconcile: every version shown to it has a start next to its token. -/
def startWorld : World Kube (ActiveStore × List (Event Kube)) where
  exec x c a y := x.1.Exec c a y.1
  rely x y := x.1.AllStarted → y.1.AllStarted
  guar _ c _ _ := c.WritesStarted
  rely_refl _ := id
  rely_trans h h' := h' ∘ h

theorem keeps_allStarted : startWorld.Keeps Call.WritesStarted fun y => y.1.AllStarted where
  rely _ _ h hs := hs h
  call _ _ _ _ hop h hexec := ⟨hop, h.exec hexec hop⟩

/-- What the first read shows. -/
theorem safe_getActive_started {x : ActiveStore × List (Event Kube)} (h : x.1.AllStarted)
    (name : String) :
    Safe startWorld (orLeave (getActive name) fun e => Prog.pure (ignoreNotFound e)).prog
      (fun x y => match x with
        | .ok stored => y.1.AllStarted ∧ 1 ≤ stored.generation ∧ Started stored.status
        | .error o => o ≠ .panic) x := by
  intro s₁ hs₁ a s₂ hexec
  refine ⟨trivial, ?_⟩
  cases a with
  | error e =>
    show ignoreNotFound e ≠ .panic
    unfold ignoreNotFound
    split <;> nofun
  | ok stored =>
    obtain ⟨hmem, -, hs₂⟩ := hexec
    show s₂.1.AllStarted ∧ _
    rw [hs₂]
    exact ⟨hs₁ h, hs₁ h stored hmem⟩

theorem safe_reconcile_started {x : ActiveStore × List (Event Kube)} (h : x.1.AllStarted)
    (r : LLMActiveModelReconciler) (name : String) :
    Safe startWorld (reconcile r name) (fun o _ => o ≠ .panic) x := by
  refine Safe.exit (Safe.flow_bind ((safe_getActive_started h name).mono ?_))
  rintro (o | stored) y hy
  · exact hy
  obtain ⟨hstate, hgeneration, hstarted⟩ := hy
  refine Safe.mono (Q := fun x y => Flow.OnExit (· ≠ Outcome.panic) (· ≠ Outcome.panic) x ∧ _)
    (keeps_allStarted.safe ?_ hstate) (by rintro (o | o) y ⟨ho, -⟩ <;> exact ho)
  have hgeneration : 1 ≤ (observe stored).generation := hgeneration
  have hstarted : Started (observe stored).status := hstarted
  have hP := tolerates_writesStarted hstarted
  refine Flow.exits_bind (settled (hP.yields_orLeave readOnly_singletonOwner fun _ => trivial)
    (calm_attempt fun _ => Outcome.noConfusion)) fun owner _ => ?_
  refine Flow.exits_bind (settled (yields_leaveIf (only_writeActiveThen (hP.failed _ _)))
    (calm_leaveIf (returns_writeActiveThen nofun))) fun _ _ => ?_
  refine Flow.exits_bind (settled (hP.yields_orLeave (readOnly_findModel _)
    fun _ => only_writeActiveIgnoring (hP.failed _ _))
    (calm_attempt fun _ => returns_writeActiveIgnoring nofun)) fun model _ => ?_
  refine Flow.exits_bind (settled (hP.yields_orLeave (readOnly_findBackend _ _)
    fun _ => only_writeActiveIgnoring (hP.failed _ _))
    (calm_attempt fun _ => returns_writeActiveIgnoring nofun)) fun backend _ => ?_
  refine Flow.exits_bind (settled (hP.yields_stableFastPath backend fun _ => hstarted)
    (calm_stableFastPath backend)) fun _ _ => ?_
  refine Flow.exits_bind (settled (hP.yields_transitionGates r fun _ _ _ => hstarted)
    (calm_transitionGates r)) fun _ _ => ?_
  exact settled_executeTransition hgeneration hstarted r backend

theorem managedSystem_fits {τ : Type} (config : τ → LLMActiveModelReconciler) (name : String) :
    (managedSystem config name).Fits (.none _ _) startWorld ActiveStore.AllStarted where
  env _ _ hinv h := ⟨fun _ _ _ => hinv.edited h, hinv.edited h⟩
  call _ _ _ _ _ _ h _ := h
  others _ _ _ _ _ _ _ _ _ hinv h _ hguar := fun _ => hinv.exec h hguar
  guar _ _ _ _ _ hinv h hguar := hinv.exec h hguar
  start i _ hinv := (safe_reconcile_started hinv (config i) name).mono fun _ _ _ => trivial

/-- **No nil dereference.** In every configuration reached from an object with an empty
status, no reconcile has ended by dereferencing the start of its transition where there was
none. The reconciles may overlap, be stopped anywhere, read old versions and fail to write,
and each has a configuration of its own. -/
theorem start_never_missing {τ : Type} [DecidableEq τ] (config : τ → LLMActiveModelReconciler)
    (name : String) (obj₀ : LLMActiveModel) (hstatus : obj₀.status = .zero)
    (hgeneration : 1 ≤ obj₀.generation) (c : Config Kube ActiveStore τ Outcome)
    (hreach : (managedSystem config name).Reach (.none _ _) (.idle (.created obj₀)) c)
    (i : τ) (t : List (Event Kube)) : c.job i ≠ some ⟨t, .pure .panic⟩ := by
  have hcreated : (ActiveStore.created obj₀).AllStarted := by
    refine List.forall_mem_singleton.mpr ⟨hgeneration, ?_⟩
    show Started obj₀.status
    rw [hstatus]
    exact fun h => absurd rfl h
  have hstart : ∀ i s, ActiveStore.AllStarted s →
      Safe startWorld ((managedSystem config name).program i) (fun o _ => o ≠ .panic) (s, []) :=
    fun i _ hinv => safe_reconcile_started hinv (config i) name
  obtain ⟨-, hreturns⟩ := hreach.returns (managedSystem_fits config name) hstart hcreated nofun
  intro hjob
  exact hreturns i _ hjob rfl

theorem ActiveStore.player_sound_managed {τ : Type} [DecidableEq τ]
    (config : τ → LLMActiveModelReconciler) (name : String) :
    ActiveStore.player.Sound (managedSystem config name) where
  edit modelName s := ⟨⟨modelName⟩, s.nextVersion, s.fresh_nextVersion, rfl⟩
  answer s c := ({ Demo.cluster with active := s } : Cluster).exec_answer c |>.active

/-- A manager with transitions disabled marks the request; after a restart with transitions
enabled it is carried out to the end. -/
theorem start_never_missing_restarted :
    ∃ c, (managedSystem (fun enabled => { Demo.reconciler with transitionsEnabled := enabled })
          "main").Reach (.none _ _)
        (.idle (.created { Demo.activeModel "a" with status := .zero })) c ∧
      c.state.versions.map (fun am => am.status.phase) =
        [.stable, .transitioning, .transitioning, .none] ∧
      ∀ t, c.job true ≠ some ⟨t, .pure .panic⟩ := by
  obtain ⟨c, hreach, hphases⟩ :=
    (ActiveStore.player_sound_managed
      (fun enabled => { Demo.reconciler with transitionsEnabled := enabled }) "main").exists_reach
      (.none _ _) [.start false, .run false 5, .start true, .run true 26]
      (.idle (.created { Demo.activeModel "a" with status := .zero }))
      (fun c => c.state.versions.map (fun am => am.status.phase) =
        [.stable, .transitioning, .transitioning, .none])
      (by decide +kernel)
  exact ⟨c, hreach, hphases, start_never_missing _ "main" _ rfl le_rfl c hreach true⟩

end LlmOperator.Controller
