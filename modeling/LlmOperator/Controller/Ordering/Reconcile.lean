import LlmOperator.Controller.Ordering.Effects
import LlmOperator.Controller.Cluster

/-!
# Every reconcile keeps the order of a transition

The walk through `Reconcile`, one lemma for each step of the transition. `Below` and
`Checked` say how far the transition has got: a step may be taken only from `Checked`, and
`guardCurrent` is what leads from `Below` to `Checked`.
-/

namespace LlmOperator.Controller

open Api Data Backend Interaction Interaction.Prog

/-! ## The walk through a reconcile -/

section

variable (r : LLMActiveModelReconciler) (name : String)

/-- What is owed of every trace. -/
def WellOrdered (t : Trace) : Prop :=
  AtMostOneStatusWrite t ∨ ∃ w, SwitchTrace r name w t

abbrev orderWorld : World Kube Trace :=
  traceWorld Kube (WellOrdered r name)

/-- Only steps below the `m`-th have been taken. -/
def Below (w : Switch) (m : Nat) (t : Trace) : Prop :=
  ∃ k b, k ≤ m ∧ Staged r name w k b t

/-- Only steps below the `m`-th have been taken, and the transition was found to be current
after the last one. -/
def Checked (w : Switch) (m : Nat) (t : Trace) : Prop :=
  ∃ k, k ≤ m ∧ Staged r name w k true t

end

section Walk

variable {r : LLMActiveModelReconciler} {name : String} {w : Switch} {m : Nat} {t u : Trace}
  {α : Type} {am : LLMActiveModel} {model : LLMModel}

theorem Checked.below (h : Checked r name w m t) : Below r name w m t := by
  obtain ⟨k, hk, h⟩ := h
  exact ⟨k, true, hk, h⟩

theorem Below.mono {n : Nat} (h : Below r name w m t) (hn : m ≤ n) : Below r name w n t := by
  obtain ⟨k, b, hk, h⟩ := h
  exact ⟨k, b, hk.trans hn, h⟩

theorem Below.wellOrdered (h : Below r name w m t) : WellOrdered r name t := by
  obtain ⟨k, b, -, h⟩ := h
  exact Or.inr ⟨w, h.switchTrace⟩

theorem Checked.quiet (h : Checked r name w m t) (hu : Quiet u) : Checked r name w m (t ++ u) := by
  obtain ⟨k, hk, h⟩ := h
  exact ⟨k, hk, h.quiet hu⟩

theorem Below.quiet (h : Below r name w m t) (hu : Quiet u) : Below r name w m (t ++ u) := by
  obtain ⟨k, b, hk, h⟩ := h
  exact ⟨k, b, hk, h.quiet hu⟩

theorem quiet_singleton {e : Event Kube} (h : Call.IsRead e.1) : Quiet [e] := by
  intro e' he
  rw [List.mem_singleton.mp he]
  exact h

theorem quiet_of_readOnly {p : Go α} {a : α} (hp : ReadOnly p) (h : p.Runs u a) : Quiet u := by
  induction p generalizing u with
  | pure _ =>
    obtain ⟨rfl, -⟩ := runs_pure h
    intro e he
    cases he
  | call op k ih =>
    obtain ⟨x, v, rfl, hv⟩ := runs_call h
    intro e he
    rcases List.mem_cons.mp he with rfl | he
    · exact hp.1
    · exact ih x (hp.2 x) hv e he

/-- Reading goes on from any trace that may be extended quietly. -/
theorem safe_readOnly {p : Go α} (hp : ReadOnly p)
    (hext : ∀ u, Quiet u → WellOrdered r name (t ++ u)) :
    Safe (orderWorld r name) p (fun a t' => ∃ u, t' = t ++ u ∧ Quiet u ∧ p.Runs u a) t := by
  have hkeeps : (orderWorld r name).Keeps Call.IsRead fun t' => ∃ u, t' = t ++ u ∧ Quiet u := by
    refine ⟨?_, ?_⟩
    · rintro s s' hs rfl
      exact hs
    · rintro s op a s' hop ⟨u, rfl, hu⟩ rfl
      have hu' := hu.append (quiet_singleton (e := ⟨op, a⟩) hop)
      rw [List.append_assoc]
      exact ⟨hext _ hu', _, rfl, hu'⟩
  have hsafe := hkeeps.safe hp ⟨[], (List.append_nil t).symm, fun e he => nomatch he⟩
  refine hsafe.runs.mono ?_
  rintro a t' ⟨-, u, rfl, hu⟩
  exact ⟨u, rfl, quiet_of_readOnly hp hu, hu⟩

section

variable (s : Stage) (h : Checked r name w m t) (hm : m ≤ s.index)
include h hm

/-- One step of the transition. -/
theorem Checked.safe_effect {c : Call} (hs : w.IsStage s c) (hj : w.Justified r t c) :
    Safe (orderWorld r name) (call c)
      (fun a t' => t' = t ++ [⟨c, a⟩] ∧ Below r name w (s.index + 1) t') t := by
  obtain ⟨k, hk, h⟩ := h
  refine safe_trace_call fun a => ?_
  have h' : Below r name w (s.index + 1) (t ++ [⟨c, a⟩]) :=
    ⟨_, false, le_rfl, h.effect (hk.trans hm) hs hj a⟩
  exact ⟨h'.wellOrdered, Safe.pure ⟨rfl, h'⟩⟩

theorem Checked.safe_writeActive (hs : w.IsStage s (.updateActiveStatus am)) :
    Safe (orderWorld r name) (writeActive am) (fun x t' => ∀ am', x = .ok am' →
      Below r name w (s.index + 1) t' ∧ ∃ v, am' = { am with resourceVersion := v }) t := by
  refine Safe.bind ((h.safe_effect s hm hs trivial).mono ?_)
  rintro x t' ⟨-, h'⟩
  cases x with
  | error e => exact Safe.pure fun am' hx => nomatch hx
  | ok v =>
    refine Safe.pure ?_
    intro am' hx
    cases hx
    exact ⟨h', v, rfl⟩

theorem Checked.safe_writeModel (hs : w.IsStage s (.updateModelStatus model)) :
    Safe (orderWorld r name) (writeModel model) (fun x t' => match x with
      | .ok model' => Below r name w (s.index + 1) t' ∧ ∃ v,
          model' = { model with resourceVersion := v }
      | .error _ => True) t := by
  refine Safe.bind ((h.safe_effect s hm hs trivial).mono ?_)
  rintro x t' ⟨-, h'⟩
  cases x with
  | error e => trivial
  | ok v => exact ⟨h', v, rfl⟩

end

theorem Below.safe_failTransition (h : Below r name w m t) (ham : w.Carries am)
    (modelName reason metricReason : String) (cause : Err) :
    Safe (orderWorld r name) (failTransition am modelName reason metricReason cause)
      (fun _ _ => True) t := by
  refine safe_trace_call fun a => ?_
  have h' := h.quiet (quiet_singleton
    (e := ⟨.recordTransitionFailure modelName metricReason, a⟩) rfl)
  refine ⟨h'.wellOrdered, safe_trace_call fun x => ?_⟩
  have hfail : w.IsFailure (.updateActiveStatus (refused am reason cause.error)) := ⟨ham.name, rfl⟩
  obtain ⟨k, b, -, hstaged⟩ := h'
  refine ⟨Or.inr ⟨w, hstaged.switchTrace_failed hfail x⟩, ?_⟩
  cases x <;> trivial

/-- A read-only call whose error ends the reconcile. -/
theorem Below.stays_orLeave {p : Go (Except Err α)} {handler : Err → Go Outcome}
    (h : Below r name w m t) (hp : ReadOnly p)
    (hh : ∀ e t', Below r name w m t' →
      Safe (orderWorld r name) (handler e) (fun _ _ => True) t') :
    Safe (orderWorld r name) (orLeave p handler).prog (Safe.Stays fun a t' =>
      ∃ u, t' = t ++ u ∧ Quiet u ∧ p.Runs u (.ok a)) t := by
  refine Controller.stays_orLeave ((safe_readOnly hp fun u hu => (h.quiet hu).wellOrdered).mono ?_)
  rintro x t' ⟨u, rfl, hu, hrun⟩
  cases x with
  | ok a => exact ⟨u, rfl, hu, hrun⟩
  | error e => exact hh e _ (h.quiet hu)

theorem Switch.Carries.checkCurrent (ham : w.Carries am) (hmodel : model.spec = w.model.spec) :
    checkCurrent am model = checkCurrent w.am w.model := by
  unfold Controller.checkCurrent ensureTransitionCurrent
  rw [ham.name, ham.generation, hmodel]

theorem Below.stays_guardCurrent (h : Below r name w m t) (ham : w.Carries am)
    (hmodel : model.spec = w.model.spec) :
    Safe (orderWorld r name) (guardCurrent am model).prog
      (Safe.Stays fun _ t' => Checked r name w m t') t := by
  unfold guardCurrent
  rw [ham.checkCurrent hmodel]
  refine (h.stays_orLeave (readOnly_checkCurrent _ _) fun e t' _ => Safe.pure trivial).stays_mono ?_
  rintro x t' ⟨u, rfl, hu, hrun⟩
  obtain ⟨k, b, hk, hstaged⟩ := h
  exact ⟨k, hk, hstaged.check hu hrun⟩

theorem Checked.safe_now (h : Checked r name w m t) :
    Safe (orderWorld r name) now (fun _ t' => Checked r name w m t' ∧ ∃ u, t' = t ++ u) t := by
  refine (safe_readOnly (p := now) ⟨rfl, fun _ => trivial⟩
    fun u hu => (h.below.quiet hu).wellOrdered).mono ?_
  rintro _ t' ⟨u, rfl, hu, -⟩
  exact ⟨h.quiet hu, u, rfl⟩

/-! ## The steps -/

theorem stays_beginTransition (h : Checked r name w 0 t)
    (hobs : w.am.status.observedGeneration = w.am.generation) :
    Safe (orderWorld r name) (beginTransition w.am).prog
      (Safe.Stays fun am t' => Below r name w 1 t' ∧ w.Carries am) t := by
  unfold beginTransition
  split
  · rename_i hneeds
    have hfrom : w.am.status.modelName = w.transitionFrom := by
      rw [Switch.transitionFrom, if_pos hneeds]
    refine Safe.stays_bind (Safe.stays_lift h.safe_now) ?_
    rintro started t' ⟨h', -⟩
    have htoken : w.IsStage .token (.updateActiveStatus (withToken w.am started)) :=
      ⟨rfl, rfl, hfrom, rfl⟩
    refine stays_orError ((h'.safe_writeActive .token le_rfl htoken).mono ?_)
    intro x t'' hx am ham
    obtain ⟨hbelow, v, rfl⟩ := hx am ham
    exact ⟨hbelow, rfl, rfl, rfl, hobs, rfl, hfrom⟩
  · rename_i hneeds
    have hfrom : w.am.status.transitionFrom = w.transitionFrom := by
      rw [Switch.transitionFrom, if_neg hneeds]
    exact ⟨h.below.mono (Nat.zero_le 1), rfl, rfl, rfl, hobs, rfl, hfrom⟩

theorem stays_validateTarget (h : Below r name w m t) (ham : w.Carries am) :
    Safe (orderWorld r name) (validateTarget r am w.model).prog
      (Safe.Stays fun driver t' => Below r name w m t' ∧
        driverFor w.model.spec.serving.backend = .ok driver ∧ driver.validate w.model = .ok () ∧
        Performed (validateChatTemplate r w.model) (.ok ()) t') t := by
  have hfail : ∀ reason metricReason e t', Below r name w m t' →
      Safe (orderWorld r name) (failTransition am w.model.spec.model.name reason metricReason e)
        (fun _ _ => True) t' := fun reason metricReason e t' h' =>
        h'.safe_failTransition ham _ _ _ _
  refine Safe.stays_bind (h.stays_orLeave (p := Prog.pure (driverFor _)) trivial (hfail _ _)) ?_
  rintro driver t₁ ⟨u₁, rfl, hu₁, hdriver⟩
  have hdriver := (runs_pure hdriver).2
  have h₁ := h.quiet hu₁
  refine Safe.stays_bind (h₁.stays_orLeave (p := Prog.pure (driver.validate _)) trivial
    (hfail _ _)) ?_
  rintro _ t₂ ⟨u₂, rfl, hu₂, hvalid⟩
  have hvalid := (runs_pure hvalid).2
  have h₂ := h₁.quiet hu₂
  refine Safe.stays_bind
    (h₂.stays_orLeave (readOnly_validateChatTemplate r w.model) (hfail _ _)) ?_
  rintro _ t₃ ⟨u₃, rfl, hu₃, htemplate⟩
  exact ⟨h₂.quiet hu₃, hdriver, hvalid, performed_append_of_runs htemplate _⟩

theorem stays_previousByModel (h : Below r name w m t) (ham : w.Carries am) :
    Safe (orderWorld r name) (previousByModel am w.model).prog
      (Safe.Stays fun _ t' => Below r name w m t') t := by
  unfold previousByModel
  split
  · exact h
  · refine Safe.stays_bind (Safe.stays_lift (safe_readOnly (readOnly_findModel _)
      fun u hu => (h.quiet hu).wellOrdered)) ?_
    rintro x t₁ ⟨u, rfl, hu, -⟩
    have h₁ := h.quiet hu
    cases x with
    | error e => exact h₁
    | ok previousModel =>
      refine Safe.stays_bind (h₁.stays_orLeave (readOnly_findBackend _ _)
        fun e t' h' => h'.safe_failTransition ham _ _ _ _) ?_
      rintro backend t₂ ⟨u₂, rfl, hu₂, -⟩
      exact h₁.quiet hu₂

theorem stays_resolvePrevious (h : Below r name w m t) (ham : w.Carries am) :
    Safe (orderWorld r name) (resolvePrevious am w.model).prog
      (Safe.Stays fun _ t' => Below r name w m t') t := by
  refine Safe.stays_bind (stays_previousByModel h ham) ?_
  rintro ⟨found, backendType⟩ t₁ h₁
  cases found with
  | some backend => exact h₁
  | none =>
    refine Safe.stays_lift ((safe_readOnly (readOnly_previousByType backendType w.model)
      fun u hu => (h₁.quiet hu).wellOrdered).mono ?_)
    rintro _ t₂ ⟨u, rfl, hu, -⟩
    exact h₁.quiet hu

theorem stays_scaleDeployment {previous : LLMBackend} (h : Checked r name w 1 t)
    (ham : w.Carries am)
    (hprev : Performed (resolvePrevious am w.model).prog (.ok (some previous)) t)
    (hne : backendDeploymentName previous ≠ backendDeploymentName w.backend) :
    Safe (orderWorld r name) (orLeave (scaleDeployment (backendDeploymentName previous) 0)
        (failTransition am w.model.spec.model.name "ScaleDownFailed" "scale_down_failed")).prog
      (Safe.Stays fun _ t' => Below r name w 2 t' ∧
        ∃ t₀, t' = t₀ ++ [⟨.scaleDeployment (backendDeploymentName previous) 0, .ok ()⟩]) t := by
  refine stays_orLeave (Safe.bind ((safe_readOnly (p := getDeployment _) ⟨rfl, fun _ => trivial⟩
    fun u hu => (h.below.quiet hu).wellOrdered).mono ?_))
  rintro x t₁ ⟨u, rfl, hu, -⟩
  have h₁ := h.quiet hu
  cases x with
  | error e => exact h₁.below.safe_failTransition ham _ _ _ _
  | ok d =>
    have hj : w.Justified r (t ++ u) (.scaleDeployment (backendDeploymentName previous) 0) :=
      ⟨am, previous, ham, hprev.append_right u, rfl⟩
    have hs : w.IsStage .scaleDown (.scaleDeployment (backendDeploymentName previous) 0) :=
      ⟨hne, rfl⟩
    refine (h₁.safe_effect .scaleDown le_rfl hs hj).mono ?_
    rintro x t₂ ⟨rfl, h₂⟩
    cases x with
    | error e => exact h₂.safe_failTransition ham _ _ _ _
    | ok _ => exact ⟨h₂, _, rfl⟩

theorem stays_scaleDownPrevious {previous : Option LLMBackend} {deadline : Deadline}
    (h : Below r name w 1 t) (ham : w.Carries am)
    (hprev : Performed (resolvePrevious am w.model).prog (.ok previous) t) :
    Safe (orderWorld r name) (scaleDownPrevious am w.model w.backend previous deadline).prog
      (Safe.Stays fun _ t' => Below r name w 2 t' ∧ w.PreviousDown previous t') t := by
  have hbelow : Below r name w 2 t := h.mono (by decide)
  cases previous with
  | none => exact ⟨hbelow, fun b hb => nomatch hb⟩
  | some b =>
    unfold scaleDownPrevious
    dsimp only
    split
    · rename_i heq
      refine ⟨hbelow, ?_⟩
      intro b' hb hne
      cases hb
      exact absurd heq hne
    · rename_i hne
      refine Safe.stays_trace_bind (h.stays_guardCurrent ham rfl) ?_
      intro _ u₁ _ h₁
      refine Safe.stays_bind (stays_scaleDeployment h₁ ham (hprev.append_right u₁) hne) ?_
      rintro _ _ ⟨h₂, t₀, rfl⟩
      refine (h₂.stays_orLeave (readOnly_pollDeployment _ _ _ (readOnly_checkCurrent _ _) _)
        ?_).stays_mono ?_
      · intro e t' h'
        split
        · trivial
        · exact h'.safe_failTransition ham _ _ _ _
      · rintro left t₃ ⟨u₃, rfl, hu₃, hrun⟩
        refine ⟨h₂.quiet hu₃, ?_⟩
        intro b' hb _
        cases hb
        obtain ⟨d, hmem, hd⟩ := runs_pollDeployment hrun
        simp only [isScaledDown, Bool.and_eq_true, beq_iff_eq] at hd
        exact ⟨t₀, u₃, d, by simp, hmem, hd⟩

theorem stays_ensureHot {offline : Bool} {request : CacheRequest} (h : Checked r name w 2 t)
    (ham : w.Carries am) (hreq : w.IsStage .cacheEnsure (.cacheEnsure request)) :
    Safe (orderWorld r name) (ensureHot am w.model offline request).prog
      (Safe.Stays fun model t' => Below r name w 4 t' ∧ model.name = w.model.name ∧
        model.spec = w.model.spec ∧
        (offline = true → ⟨.cacheEnsure request, .ok cacheHot⟩ ∈ t')) t := by
  refine Safe.stays_bind (Q := fun result t' => Below r name w 3 t' ∧
      ⟨.cacheEnsure request, .ok result⟩ ∈ t') ?_ ?_
  · refine stays_orLeave ((h.safe_effect .cacheEnsure le_rfl hreq trivial).mono ?_)
    rintro x t₁ ⟨rfl, h₁⟩
    cases x with
    | error e => exact h₁.safe_failTransition ham _ _ _ _
    | ok result => exact ⟨h₁, by simp⟩
  rintro result t₁ ⟨h₁, hmem⟩
  refine Safe.stays_trace_bind (Q := fun _ t' => Below r name w 3 t' ∧
      (offline = true → result = cacheHot)) ?_ ?_
  · refine stays_leaveIf (fun _ => h₁.safe_failTransition ham _ _ _ _) ?_
    intro hc
    refine ⟨h₁, ?_⟩
    rintro rfl
    simpa using hc
  rintro _ u₁ _ ⟨h₂, hhot⟩
  have hmem₁ : ⟨.cacheEnsure request, .ok result⟩ ∈ t₁ ++ u₁ := List.mem_append_left u₁ hmem
  refine Safe.stays_trace_bind (h₂.stays_guardCurrent ham rfl) ?_
  intro _ u₂ _ h₃
  refine Safe.stays_trace_bind (Safe.stays_lift h₃.safe_now) ?_
  rintro hydrated u₃ _ ⟨h₄, -⟩
  have hmem₃ := List.mem_append_left u₃ (List.mem_append_left u₂ hmem₁)
  have hs : w.IsStage .cacheStatus (.updateModelStatus (withCacheState w.model result hydrated)) :=
    ⟨result, hydrated, rfl⟩
  refine stays_orError ((h₄.safe_writeModel .cacheStatus le_rfl hs).runs.mono ?_)
  rintro x t' ⟨hx, u₄, rfl, -⟩ model rfl
  obtain ⟨h₅, v, rfl⟩ := hx
  refine ⟨h₅, rfl, rfl, ?_⟩
  intro hoff
  rw [← hhot hoff]
  exact List.mem_append_left u₄ hmem₃

theorem stays_ensureCached {driver : RuntimeDriver} (h : Checked r name w 2 t) (ham : w.Carries am)
    (hdriver : driverFor w.model.spec.serving.backend = .ok driver) :
    Safe (orderWorld r name) (ensureCached r am w.model w.backend driver).prog
      (Safe.Stays fun model t' => Below r name w 4 t' ∧ model.name = w.model.name ∧
        model.spec = w.model.spec ∧ ∃ offline,
          Performed (backendOfflineMode w.backend) (.ok offline) t' ∧
          (offline = true → ∃ request, ⟨.cacheEnsure request, .ok cacheHot⟩ ∈ t')) t := by
  have hfail : ∀ reason metricReason e t', Below r name w 2 t' →
      Safe (orderWorld r name) (failTransition am w.model.spec.model.name reason metricReason e)
        (fun _ _ => True) t' := fun reason metricReason e t' h' =>
        h'.safe_failTransition ham _ _ _ _
  refine Safe.stays_bind
    (h.below.stays_orLeave (p := Prog.pure (driver.cacheRequest w.model)) trivial (hfail _ _)) ?_
  rintro cacheRequest t₁ ⟨u₁, rfl, hu₁, hreq⟩
  have hreq := (runs_pure hreq).2
  have h₁ := h.quiet hu₁
  refine Safe.stays_bind
    (h₁.below.stays_orLeave (readOnly_backendOfflineMode w.backend) (hfail _ _)) ?_
  rintro offline t₂ ⟨u₂, rfl, hu₂, hoff⟩
  have h₂ := h₁.quiet hu₂
  have hperf := performed_append_of_runs hoff (t ++ u₁)
  have hskip : Safe (orderWorld r name) (do
      leaveIf offline (failTransition am w.model.spec.model.name "OfflineSnapshotUnavailable"
        "offline_snapshot_unavailable" (.other
        "offline backend requires a hot cache snapshot, but cache materialization is unavailable"))
      return w.model : Body LLMModel).prog
      (Safe.Stays fun model t' => Below r name w 4 t' ∧ model.name = w.model.name ∧
        model.spec = w.model.spec ∧ ∃ offline,
          Performed (backendOfflineMode w.backend) (.ok offline) t' ∧
          (offline = true → ∃ request, ⟨.cacheEnsure request, .ok cacheHot⟩ ∈ t'))
      (t ++ u₁ ++ u₂) := by
    refine Safe.stays_bind (Q := fun _ t' => t' = t ++ u₁ ++ u₂ ∧ offline = false)
      (stays_leaveIf (fun _ => h₂.below.safe_failTransition ham _ _ _ _) fun hc => ⟨rfl, hc⟩) ?_
    rintro _ _ ⟨rfl, rfl⟩
    exact ⟨h₂.below.mono (by decide), rfl, rfl, false, hperf, fun hc => nomatch hc⟩
  cases cacheRequest with
  | none => exact hskip
  | some request =>
    dsimp only
    cases hurl : r.cacheManagerURL != "" with
    | false => exact hskip
    | true =>
      have hs : w.IsStage .cacheEnsure (.cacheEnsure request) := ⟨driver, hdriver, hreq⟩
      refine ((stays_ensureHot h₂ ham hs).runs.mono ?_)
      rintro x t' ⟨hx, u₃, rfl, -⟩
      cases x with
      | error e => trivial
      | ok model =>
        obtain ⟨h₃, hname, hspec, hhot⟩ := hx
        exact ⟨h₃, hname, hspec, offline, hperf.append_right u₃, fun ho => ⟨request, hhot ho⟩⟩

theorem safe_activateDeployment (h : Checked r name w 4 t) (hspec : model.spec = w.model.spec)
    (hguards : ∀ base u, ⟨.getDeployment (backendDeploymentName w.backend), .ok base⟩ ∈ u →
      w.Guards r base (t ++ u)) :
    Safe (orderWorld r name) (activateDeployment r model w.backend)
      (fun _ t' => Below r name w 5 t') t := by
  refine Safe.bind ((safe_readOnly (p := getDeployment _) ⟨rfl, fun _ => trivial⟩
    fun u hu => (h.below.quiet hu).wellOrdered).mono ?_)
  rintro x t₁ ⟨u, rfl, hu, hrun⟩
  have h₁ := h.quiet hu
  cases x with
  | error e => exact h₁.below.mono (by decide)
  | ok d =>
    have hmem : ⟨.getDeployment (backendDeploymentName w.backend), .ok d⟩ ∈ u := by
      obtain ⟨y, u', rfl, hy⟩ := runs_call hrun
      rw [(runs_pure hy).2]
      exact List.mem_cons_self
    dsimp only
    cases hc : findContainer (backendContainerName w.backend) d.spec.template.spec.containers with
    | none => exact h₁.below.mono (by decide)
    | some c =>
      refine Safe.bind ((safe_readOnly (readOnly_switchTime r _)
        fun u hu => (h₁.below.quiet hu).wellOrdered).mono ?_)
      rintro switchedAt t₂ ⟨u₂, rfl, hu₂, -⟩
      have h₂ := h₁.quiet hu₂
      split
      · exact h₂.below.mono (by decide)
      · have hs : w.IsStage .targetPatch (.patchDeployment d (activated model switchedAt d c)) :=
          ⟨c, switchedAt, hc, by rw [activated_congr hspec]⟩
        have hj : w.Justified r (t ++ u ++ u₂)
            (.patchDeployment d (activated model switchedAt d c)) := by
          rw [List.append_assoc]
          exact hguards d (u ++ u₂) (List.mem_append_left u₂ hmem)
        refine (h₂.safe_effect .targetPatch le_rfl hs hj).mono ?_
        rintro _ _ ⟨-, h₃⟩
        exact h₃

theorem stays_awaitServing {deadline : Deadline} (h : Checked r name w m t) (ham : w.Carries am)
    (hspec : model.spec = w.model.spec) :
    Safe (orderWorld r name) (awaitServing am model w.backend deadline).prog
      (Safe.Stays fun _ t' => Checked r name w m t') t := by
  have hfail : ∀ reason metricReason e t', Below r name w m t' →
      Safe (orderWorld r name) (failTransition am model.spec.model.name reason metricReason e)
        (fun _ _ => True) t' := fun reason metricReason e t' h' =>
        h'.safe_failTransition ham _ _ _ _
  refine Safe.stays_bind (h.below.stays_orLeave
    (readOnly_pollDeployment _ _ _ (readOnly_checkCurrent _ _) _) ?_) ?_
  · intro e t' h'
    split
    · trivial
    · exact hfail _ _ _ _ h'
  rintro polls t₁ ⟨u₁, rfl, hu₁, -⟩
  refine Safe.stays_bind ((h.below.quiet hu₁).stays_guardCurrent ham hspec) ?_
  intro _ t₂ h₂
  refine Safe.stays_bind (h₂.below.stays_orLeave
    (readOnly_waitForBackendHealth _ (readOnly_checkCurrent _ _) _) (hfail _ _)) ?_
  rintro _ t₃ ⟨u₃, rfl, hu₃, -⟩
  refine Safe.stays_bind ((h₂.below.quiet hu₃).stays_guardCurrent ham hspec) ?_
  intro _ t₄ h₄
  refine Safe.stays_bind (Safe.stays_lift (safe_readOnly (p := collectRuntimeMetadata _ _)
    ⟨rfl, fun _ => trivial⟩ fun u hu => (h₄.below.quiet hu).wellOrdered)) ?_
  rintro runtimeMeta t₅ ⟨u₅, rfl, hu₅, -⟩
  refine Safe.stays_bind ((h₄.below.quiet hu₅).stays_guardCurrent ham hspec) ?_
  intro _ t₆ h₆
  exact h₆

theorem runs_findModel {modelName : String} (h : (findModel modelName).Runs u (.ok model)) :
    model.spec.model.name = modelName := by
  obtain ⟨x, u', rfl, hx⟩ := runs_call h
  cases x with
  | error e => cases (runs_pure hx).2
  | ok items =>
    dsimp only [Prog.bind] at hx
    cases hm : modelNamed items modelName with
    | none =>
      rw [hm] at hx
      cases (runs_pure hx).2
    | some m =>
      rw [hm] at hx
      cases (runs_pure hx).2
      exact modelNamed_name hm

theorem stays_deactivatePrevious (h : Checked r name w 6 t) (ham : w.Carries am)
    (hspec : model.spec = w.model.spec) :
    Safe (orderWorld r name) (deactivatePrevious am model).prog
      (Safe.Stays fun _ t' => Below r name w 7 t') t := by
  have hbelow : Below r name w 7 t := h.below.mono (by decide)
  unfold deactivatePrevious
  split
  · rename_i hne
    refine Safe.stays_bind (Safe.stays_lift (safe_readOnly (readOnly_findModel _)
      fun u hu => (h.below.quiet hu).wellOrdered)) ?_
    rintro x t₁ ⟨u, rfl, hu, hrun⟩
    cases x with
    | error e => exact hbelow.quiet hu
    | ok previous =>
      have hs : w.IsStage .previousInactive (.updateModelStatus (markInactive previous)) := by
        rw [ham.transitionFrom, hspec] at hne
        exact ⟨(runs_findModel hrun).trans ham.transitionFrom, hne.2, rfl, rfl⟩
      refine Safe.stays_bind (Q := fun _ t' => Below r name w 7 t') ?_ fun _ _ h' => h'
      refine stays_orLeave (((h.quiet hu).safe_writeModel .previousInactive le_rfl hs).mono ?_)
      intro x t₂ hx
      cases x with
      | error e => trivial
      | ok _ => exact hx.1
  · exact hbelow

theorem stays_markStable (h : Checked r name w 7 t) (ham : w.Carries am)
    (hspec : model.spec = w.model.spec) :
    Safe (orderWorld r name) (markStable am model).prog (Safe.Stays fun _ _ => True) t := by
  unfold markStable
  split
  · trivial
  · refine Safe.stays_bind (Safe.stays_lift h.safe_now) ?_
    rintro finished t₁ ⟨h₁, -⟩
    rename_i started _
    have hs : w.IsStage .stable (.updateActiveStatus
        (published am model (Int.subNatNat finished started))) :=
      ⟨ham.name, rfl, by rw [← hspec]; rfl, ham.observed⟩
    refine Safe.stays_bind (Q := fun _ _ => True) ?_ fun _ _ _ => trivial
    refine stays_orError ((h₁.safe_writeActive .stable le_rfl hs).mono ?_)
    intros
    trivial

theorem stays_publish {runtimeMeta : Option RuntimeMetadata} (h : Checked r name w 5 t)
    (ham : w.Carries am) (hname : model.name = w.model.name) (hspec : model.spec = w.model.spec) :
    Safe (orderWorld r name) (publish am model runtimeMeta).prog
      (Safe.Stays fun _ _ => True) t := by
  have hs : w.IsStage .activeStatus (.updateModelStatus (markActive model runtimeMeta)) :=
    ⟨hname, rfl, rfl⟩
  refine Safe.stays_bind (Q := fun model' t' => Below r name w 6 t' ∧ model'.spec = w.model.spec)
    ?_ ?_
  · refine stays_orLeave ((h.safe_writeModel .activeStatus le_rfl hs).mono ?_)
    intro x t₁ hx
    cases x with
    | error e => trivial
    | ok model' =>
      obtain ⟨h₁, v, rfl⟩ := hx
      exact ⟨h₁, hspec⟩
  rintro model' t₁ ⟨h₁, hspec'⟩
  refine Safe.stays_bind (h₁.stays_guardCurrent ham hspec') ?_
  intro _ t₂ h₂
  refine Safe.stays_bind (stays_deactivatePrevious h₂ ham hspec') ?_
  intro _ t₃ h₃
  refine Safe.stays_bind (h₃.stays_guardCurrent ham hspec') ?_
  intro _ t₄ h₄
  exact stays_markStable h₄ ham hspec'

/-- The transition up to the point where the target may be turned to. -/
theorem stays_executeTransition (h : Checked r name w 0 t)
    (hobs : w.am.status.observedGeneration = w.am.generation) (hadm : w.Admitted r t) :
    Safe (orderWorld r name) (executeTransition r w.am w.model w.backend).prog
      (Safe.Stays fun _ _ => True) t := by
  refine Safe.stays_bind (Safe.stays_lift (safe_readOnly (p := withTimeout) ⟨rfl, fun _ => trivial⟩
    fun u hu => (h.below.quiet hu).wellOrdered)) ?_
  rintro deadline _ ⟨u₁, rfl, hu₁, -⟩
  have hadm := hadm.append u₁
  refine Safe.stays_trace_bind (stays_beginTransition (h.quiet hu₁) hobs) ?_
  rintro am u₂ _ ⟨h₂, ham⟩
  have hadm := hadm.append u₂
  unfold driveTransition
  refine Safe.stays_trace_bind (h₂.stays_guardCurrent ham rfl) ?_
  intro _ u₃ _ h₃
  have hadm := hadm.append u₃
  refine Safe.stays_trace_bind (stays_validateTarget h₃.below ham) ?_
  rintro driver u₄ _ ⟨h₄, hdriver, hvalid, htemplate⟩
  have hadm := hadm.append u₄
  refine Safe.stays_trace_bind (stays_resolvePrevious h₄ ham) ?_
  intro previous u₅ hrun h₅
  have hadm := hadm.append u₅
  have htemplate := htemplate.append_right u₅
  have hprev := performed_append_of_runs hrun (t ++ u₁ ++ u₂ ++ u₃ ++ u₄)
  refine Safe.stays_trace_bind (stays_scaleDownPrevious h₅ ham hprev) ?_
  rintro polls u₆ _ ⟨h₆, hdown⟩
  have hprep : w.Prepared r (t ++ u₁ ++ u₂ ++ u₃ ++ u₄ ++ u₅ ++ u₆) :=
    ⟨hadm.append u₆, ⟨driver, hdriver, hvalid⟩, htemplate.append_right u₆,
      am, previous, ham, hprev.append_right u₆, hdown⟩
  refine Safe.stays_trace_bind (h₆.stays_guardCurrent ham rfl) ?_
  intro _ u₇ _ h₇
  have hprep := hprep.append u₇
  refine Safe.stays_trace_bind (stays_ensureCached h₇ ham hdriver) ?_
  rintro model u₈ _ ⟨h₈, hname, hspec, offline, hoffline, hhot⟩
  have hprep := hprep.append u₈
  refine Safe.stays_trace_bind (h₈.stays_guardCurrent ham hspec) ?_
  intro _ u₉ _ h₉
  have hprep := hprep.append u₉
  refine Safe.stays_bind (Q := fun _ t' => Below r name w 5 t') ?_ ?_
  · refine stays_orLeave ((safe_activateDeployment h₉ hspec ?_).mono ?_)
    · intro base u hbase
      refine ⟨hprep.append u, ⟨offline, (hoffline.append_right u₉).append_right u, ?_⟩,
        List.mem_append_right _ hbase⟩
      intro hoff
      obtain ⟨request, hmem⟩ := hhot hoff
      exact ⟨request, List.mem_append_left u (List.mem_append_left u₉ hmem)⟩
    · intro x t' h'
      cases x with
      | error e => exact h'.safe_failTransition ham _ _ _ _
      | ok _ => exact h'
  intro _ t₁₀ h₁₀
  refine Safe.stays_bind (h₁₀.stays_guardCurrent ham hspec) ?_
  intro _ t₁₁ h₁₁
  refine Safe.stays_bind (stays_awaitServing h₁₁ ham hspec) ?_
  intro runtimeMeta t₁₂ h₁₂
  exact stays_publish h₁₂ ham hname hspec

/-! ## Reconcile -/

theorem wellOrdered_quiet {t : Trace} (ht : Quiet t) : WellOrdered r name t :=
  Or.inl (Or.inl (mutations_quiet ht))

/-- A single status write after reading. -/
theorem safe_writeOnce {p : Go Outcome} (ht : Quiet t)
    (hp : ∃ f, p = writeActive am >>= f ∧ ∀ x, ∃ o, f x = Prog.pure o) :
    Safe (orderWorld r name) p (fun _ _ => True) t := by
  obtain ⟨f, rfl, hf⟩ := hp
  refine safe_trace_call fun a => ⟨Or.inl (Or.inr ⟨am, ?_⟩), ?_⟩
  · have he : ¬ Call.IsRead (Call.updateActiveStatus am) := fun hread => Bool.noConfusion hread
    rw [mutations_concat (e := ⟨.updateActiveStatus am, a⟩) t he, mutations_quiet ht]
    rfl
  · cases a with
    | error e =>
      obtain ⟨o, ho⟩ := hf (.error e)
      show Safe _ (f (.error e)) _ _
      rw [ho]
      trivial
    | ok v =>
      obtain ⟨o, ho⟩ := hf (.ok { am with resourceVersion := v })
      show Safe _ (f (.ok { am with resourceVersion := v })) _ _
      rw [ho]
      trivial

theorem safe_writeActiveThen {outcome : Outcome} (ht : Quiet t) :
    Safe (orderWorld r name) (writeActiveThen am outcome) (fun _ _ => True) t := by
  refine safe_writeOnce ht ⟨_, rfl, ?_⟩
  intro x
  cases x <;> exact ⟨_, rfl⟩

theorem safe_writeActiveIgnoring {outcome : Outcome} (ht : Quiet t) :
    Safe (orderWorld r name) (writeActiveIgnoring am outcome) (fun _ _ => True) t :=
  safe_writeOnce ht ⟨_, rfl, fun _ => ⟨outcome, rfl⟩⟩

/-- Reading before the transition has begun. -/
theorem stays_orLeave_quiet {p : Go (Except Err α)} {handler : Err → Go Outcome} (ht : Quiet t)
    (hp : ReadOnly p) (hh : ∀ e t', Quiet t' →
      Safe (orderWorld r name) (handler e) (fun _ _ => True) t') :
    Safe (orderWorld r name) (orLeave p handler).prog (Safe.Stays fun a t' =>
      ∃ u, t' = t ++ u ∧ Quiet u ∧ p.Runs u (.ok a)) t := by
  refine stays_orLeave ((safe_readOnly hp fun u hu => wellOrdered_quiet (ht.append hu)).mono ?_)
  rintro x t' ⟨u, rfl, hu, hrun⟩
  cases x with
  | ok a => exact ⟨u, rfl, hu, hrun⟩
  | error e => exact hh e _ (ht.append hu)

theorem stays_stableFastPath {backend : LLMBackend} (ht : Quiet t) :
    Safe (orderWorld r name) (stableFastPath am model backend).prog
      (Safe.Stays fun _ t' => ∃ u, t' = t ++ u ∧ Quiet u) t := by
  unfold stableFastPath
  split
  · refine Safe.stays_bind (stays_orLeave_quiet ht (readOnly_deploymentMatchesModel _ _)
      fun _ _ _ => trivial) ?_
    rintro isMatch _ ⟨u, rfl, hu, -⟩
    refine Safe.stays_bind (Q := fun _ t' => t' = t ++ u)
      (stays_leaveIf (fun _ => safe_writeActiveThen (ht.append hu)) fun _ => rfl) ?_
    rintro _ _ rfl
    exact stays_leaveIf (fun _ => trivial) fun _ => ⟨u, rfl, hu⟩
  · exact ⟨[], (List.append_nil t).symm, fun e he => nomatch he⟩

theorem stays_transitionGates (ht : Quiet t) :
    Safe (orderWorld r name) (transitionGates r am model).prog
      (Safe.Stays fun _ t' => t' = t ∧ r.transitionsEnabled = true ∧
        (r.allowedTransitionModels = [] ∨ model.spec.model.name ∈ r.allowedTransitionModels))
          t := by
  refine Safe.stays_bind (Q := fun _ t' => t' = t ∧ r.transitionsEnabled = true)
    (stays_leaveIf (fun _ => safe_writeActiveThen ht) fun hc => ⟨rfl, by simpa using hc⟩) ?_
  rintro _ _ ⟨rfl, henabled⟩
  refine stays_leaveIf (fun _ => safe_writeActiveThen ht) fun hc => ⟨rfl, henabled, ?_⟩
  rw [Bool.and_eq_false_iff] at hc
  rcases hc with hc | hc
  · exact Or.inl (by simpa using hc)
  · exact Or.inr (by simpa using hc)

theorem safe_reconcile (ht : Quiet t) :
    Safe (orderWorld r name) (reconcile r name) (fun _ _ => True) t := by
  refine Safe.exit_of_stays ?_
  refine Safe.stays_bind (stays_orLeave_quiet ht (p := getActive name) ⟨rfl, fun _ => trivial⟩
    fun _ _ _ => trivial) ?_
  rintro stored _ ⟨u₁, rfl, hu₁, hread⟩
  have h₁ := ht.append hu₁
  refine Safe.stays_bind (stays_orLeave_quiet h₁ readOnly_singletonOwner fun _ _ _ => trivial) ?_
  rintro owner _ ⟨u₂, rfl, hu₂, howner⟩
  have h₂ := h₁.append hu₂
  refine Safe.stays_bind (Q := fun _ t' => t' = t ++ u₁ ++ u₂ ∧ owner = (observe stored).name)
    (stays_leaveIf (fun _ => safe_writeActiveThen h₂) fun hc => ⟨rfl, by simpa using hc⟩) ?_
  rintro _ _ ⟨rfl, rfl⟩
  refine Safe.stays_bind (stays_orLeave_quiet h₂ (readOnly_findModel _)
    fun _ _ ht => safe_writeActiveIgnoring ht) ?_
  rintro model _ ⟨u₃, rfl, hu₃, hmodel⟩
  have h₃ := h₂.append hu₃
  refine Safe.stays_bind (stays_orLeave_quiet h₃ (readOnly_findBackend _ _)
    fun _ _ ht => safe_writeActiveIgnoring ht) ?_
  rintro backend _ ⟨u₄, rfl, hu₄, hbackend⟩
  have h₄ := h₃.append hu₄
  refine Safe.stays_bind (stays_stableFastPath h₄) ?_
  rintro _ _ ⟨u₅, rfl, hu₅⟩
  have h₅ := h₄.append hu₅
  refine Safe.stays_bind (stays_transitionGates h₅) ?_
  rintro _ _ ⟨rfl, henabled, hallowed⟩
  let w : Switch := ⟨observe stored, model, backend⟩
  have hfound : w.Found name (t ++ u₁ ++ u₂ ++ u₃ ++ u₄ ++ u₅) := by
    refine Switch.Found.append ⟨⟨stored, ?_, rfl⟩, ?_, performed_append_of_runs hbackend _⟩ u₅
    · exact (((performed_append_of_runs hread _).append_right u₂).append_right u₃).append_right u₄
    · exact (performed_append_of_runs hmodel _).append_right u₄
  refine stays_executeTransition (w := w) ⟨0, le_rfl, .found h₅ hfound⟩ rfl
    ⟨?_, henabled, hallowed⟩
  exact (((performed_append_of_runs howner _).append_right u₃).append_right u₄).append_right u₅

end Walk

/-- **The order of a transition's effects.** Along every trace of `Reconcile`, whatever the
answers and wherever it is cut, there is at most one effect, a write of the status of the
`LLMActiveModel`, or the effects are those of a switch: some of its steps in their order,
possibly ended by a write of phase `Failed`, with the transition found to be current between
any two of them and the target Deployment patched only behind the guards. -/
theorem reconcile_wellOrdered (r : LLMActiveModelReconciler) (name : String) (t : Trace)
    (q : Go Outcome) (h : (reconcile r name).Steps t q) :
    AtMostOneStatusWrite t ∨ ∃ w, SwitchTrace r name w t := by
  have hnil : Quiet [] := fun e he => nomatch he
  have hsafe : Safe (orderWorld r name) (reconcile r name) (fun _ _ => True) [] :=
    safe_reconcile hnil
  exact (hsafe.trace (wellOrdered_quiet hnil) h).1

/-- A switch from `a` to `b`, carried out to its end, has six effects. -/
theorem reconcile_wellOrdered_switch :
    ∃ t q, (reconcile Demo.reconciler "main").Steps t q ∧ (mutations t).length = 6 ∧
      ∃ w, SwitchTrace Demo.reconciler "main" w t := by
  have hsound : Cluster.player.Sound
      (clusterSystem Demo.reconciler "main" fun _ _ => True) :=
    ⟨fun _ _ => trivial, fun s c => s.exec_answer c⟩
  obtain ⟨c, hreach, j, hj, hlength⟩ := hsound.exists_reach (.none _ _)
    [.edit (.request "b"), .start (), .run () 13, .edit .settle, .run () 7, .edit .settle,
      .run () 16]
    (.idle Demo.cluster) (fun c => ∃ j ∈ c.job (), (mutations j.trace).length = 6)
      (by decide +kernel)
  have hsteps : (reconcile Demo.reconciler "main").Steps j.trace j.rest := hreach.steps () j hj
  refine ⟨j.trace, j.rest, hsteps, hlength, ?_⟩
  rcases reconcile_wellOrdered Demo.reconciler "main" j.trace j.rest hsteps with
    (hnone | ⟨obj, hone⟩) | hswitch
  · rw [hnone] at hlength
    cases hlength
  · rw [hone] at hlength
    cases hlength
  · exact hswitch

end LlmOperator.Controller
