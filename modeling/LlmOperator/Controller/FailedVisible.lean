import LlmOperator.Controller.Agreement

/-!
# A failure stays visible

Once the request of a generation has failed, the controller goes on trying. The proxy learns
of the failure by polling the status, so a new attempt must not hide it: until the model is
published or another one is requested, every version of the object that is stored says
`Failed`.

The announcement of a transition is skipped by a copy that shows the failure of its own
generation. A copy that shows something else is a copy of an older version, whose status the
API server refuses.
-/

namespace LlmOperator.Controller

open Api Interaction Interaction.Prog

/-- The request of the current generation has failed. -/
def HasFailed (am : LLMActiveModel) : Prop :=
  am.status.phase = .failed ∧ am.status.transitionGeneration = am.generation

instance (am : LLMActiveModel) : Decidable (HasFailed am) :=
  inferInstanceAs (Decidable (_ ∧ _))

/-- What may be stored after `old` while the generation stays the same: after a failure either
the failure again, or the published model. -/
def KeepsFailure (old next : LLMActiveModel) : Prop :=
  HasFailed old → next.generation = old.generation →
    next.status.phase = .stable ∨ HasFailed next

/-! ## Copies that show the phase of their version -/

variable {s : ActiveStore}

namespace ActiveStore

/-- The copy has the phase and the token of the stored version it was made from. -/
def Shown (s : ActiveStore) (am : LLMActiveModel) : Prop :=
  ∃ old ∈ s.versions, old.resourceVersion = am.resourceVersion ∧ old.generation = am.generation ∧
    old.status.phase = am.status.phase ∧
      old.status.transitionGeneration = am.status.transitionGeneration

theorem Shown.grows {s' : ActiveStore} {am : LLMActiveModel} (h : s.Shown am) (hs : s.Grows s') :
    s'.Shown am := by
  obtain ⟨old, hmem, hold⟩ := h
  exact ⟨old, hs.subset hmem, hold⟩

theorem shown_observe {am : LLMActiveModel} (h : am ∈ s.versions) : s.Shown (observe am) :=
  ⟨am, h, rfl, rfl, rfl, rfl⟩

/-- An accepted copy shows the failure of the current version. -/
theorem Shown.current {am obj : LLMActiveModel} (h : s.Shown am)
    (hobj : obj.resourceVersion = am.resourceVersion) (hacc : s.Accepts obj) :
    s.current.generation = am.generation ∧ (HasFailed s.current ↔ HasFailed am) := by
  obtain ⟨old, hmem, hv, hgen, hphase, htoken⟩ := h
  have hold : old = s.current := eq_current hmem (by rw [hv, ← hobj, hacc.2])
  rw [← hold]
  refine ⟨hgen, ?_⟩
  unfold HasFailed
  rw [hphase, htoken, hgen]

/-- After an accepted update the client's copy shows the new version. -/
theorem shown_putStatus {am : LLMActiveModel} {version : Nat} (hf : s.Fresh version)
    (hgen : s.current.generation = am.generation) :
    (s.putStatus am.status version hf).Shown { am with resourceVersion := version } :=
  ⟨_, List.mem_cons_self, rfl, hgen, rfl, rfl⟩

/-- A change of the spec or of metadata keeps the status. -/
theorem keepsFailure_edited {s' : ActiveStore} (h : s.Edited s') :
    KeepsFailure s.current s'.current := by
  obtain ⟨spec, version, hf, rfl⟩ := h
  rintro ⟨hphase, htoken⟩ hgen
  exact Or.inr ⟨hphase, htoken.trans hgen.symm⟩

end ActiveStore

/-! ## Every write keeps the failure -/

section Writes

variable {am : LLMActiveModel} {model : LLMModel}

theorem keepsFailure_refused (am : LLMActiveModel) (reason message : String) :
    KeepsFailure am (refused am reason message) :=
  fun h _ => Or.inr ⟨rfl, h.2⟩

/-- Nothing is announced from a copy that shows the failure of its generation. -/
theorem keepsFailure_withToken (h : needsToken am = true) (started : Time) :
    KeepsFailure am (withToken am started) := by
  rintro ⟨hphase, htoken⟩ -
  simp [needsToken, hphase, htoken] at h

theorem tolerates_keepsFailure (am : LLMActiveModel) :
    Tolerates (Derived (KeepsFailure am) am) am :=
  tolerates_derived (keepsFailure_refused am)

theorem yields_driveTransition_keepsFailure (r : LLMActiveModelReconciler) (backend : LLMBackend)
    (deadline : Deadline) :
    (driveTransition r am model backend deadline).prog.Yields (Derived (KeepsFailure am) am)
      (Flow.OnOk fun _ => True) := by
  exact (tolerates_keepsFailure am).yields_driveTransition r backend deadline
    (fun _ => derived_of_ne) fun m duration _ => ⟨rfl, rfl, rfl, fun _ _ => Or.inl rfl⟩

end Writes

/-! ## The walk -/

/-- The world of one reconcile: the others add versions, and every write that would be
accepted keeps the failure of the stored version. -/
def failureWorld : World Kube (ActiveStore × List (Event Kube)) where
  exec x c a y := x.1.Exec c a y.1
  rely x y := x.1.Grows y.1
  guar x c _ _ := ∀ obj, c = .updateActiveStatus obj → x.1.Accepts obj →
    x.1.current.generation = obj.generation ∧ KeepsFailure x.1.current obj
  rely_refl := ActiveStore.grows_fst
  rely_trans := @ActiveStore.grows_fst_trans

variable {r : LLMActiveModelReconciler} {am : LLMActiveModel}
  {x : ActiveStore × List (Event Kube)}

theorem keepsFailure_guar {c : Call} {a : c.Answer} {y : ActiveStore × List (Event Kube)}
    (hc : Derived (KeepsFailure am) am c) (hshown : x.1.Shown am) :
    failureWorld.guar x c a y := by
  rintro obj rfl hacc
  obtain ⟨hgen, hfailed⟩ := hshown.current hc.version hacc
  refine ⟨hgen.trans hc.generation.symm, ?_⟩
  intro hcurrent hnext
  exact hc.holds (hfailed.mp hcurrent) hc.generation

theorem keeps_shown (am : LLMActiveModel) :
    failureWorld.Keeps (Derived (KeepsFailure am) am) fun y => y.1.Shown am where
  rely _ _ h hs := h.grows hs
  call _ _ _ _ hop h hexec := ⟨keepsFailure_guar hop h, h.grows hexec.grows⟩

/-- The announcement moves the copy on to the version it has made. -/
theorem stays_beginTransition_shown (hshown : x.1.Shown am) :
    Safe failureWorld (beginTransition am).prog (Safe.Stays fun am' y => y.1.Shown am') x := by
  unfold beginTransition
  split
  · rename_i hneeds
    refine Safe.stays_bind ((keeps_shown am).stays (p := liftM now) (Q := fun _ => True)
      ⟨trivial, fun _ => trivial⟩ hshown) ?_
    rintro started y ⟨-, hshown⟩
    refine stays_orError (Safe.bind ?_)
    intro s₁ hs₁ a s₂ hexec
    have hshown₁ : s₁.1.Shown am := hshown.grows hs₁
    have hwrite : StatusOf (KeepsFailure am) am (withToken am started) :=
      ⟨rfl, rfl, rfl, keepsFailure_withToken hneeds started⟩
    refine ⟨keepsFailure_guar (c := .updateActiveStatus (withToken am started)) hwrite hshown₁, ?_⟩
    cases a with
    | error e => exact fun am' h => nomatch h
    | ok version =>
      obtain ⟨hacc, hfresh, hs₂⟩ := hexec
      rintro am' h
      cases h
      rw [hs₂]
      exact ActiveStore.shown_putStatus hfresh (hshown₁.current rfl hacc).1
  · exact hshown

theorem safe_reconcile_keepsFailure (henabled : r.transitionsEnabled = true) (name : String) :
    Safe failureWorld (reconcile r name) (fun _ _ => True) x := by
  refine Safe.exit_of_stays ?_
  refine Safe.stays_bind (Q := fun stored y => y.1.Shown (observe stored)) ?_ ?_
  · refine stays_orLeave ?_
    intro s₁ _ a s₂ hexec
    refine ⟨fun obj h => (by cases h), ?_⟩
    cases a with
    | error e => trivial
    | ok stored =>
      obtain ⟨hmem, -, hs₂⟩ := hexec
      show s₂.1.Shown (observe stored)
      rw [hs₂]
      exact ActiveStore.shown_observe hmem
  intro stored y hshown
  have hP := tolerates_keepsFailure (observe stored)
  have hJ := keeps_shown (observe stored)
  refine Safe.stays_bind (hJ.stays (hP.yields_orLeave readOnly_singletonOwner
    fun _ => trivial) hshown) ?_
  rintro owner y ⟨-, hshown⟩
  refine Safe.stays_bind (hJ.stays (yields_leaveIf (only_writeActiveThen (hP.failed _ _)))
    hshown) ?_
  rintro _ y ⟨-, hshown⟩
  refine Safe.stays_bind (hJ.stays (hP.yields_orLeave (readOnly_findModel _)
    fun e => only_writeActiveIgnoring (hP.failed _ _)) hshown) ?_
  rintro model y ⟨-, hshown⟩
  refine Safe.stays_bind (hJ.stays (hP.yields_orLeave (readOnly_findBackend _ _)
    fun e => only_writeActiveIgnoring (hP.failed _ _)) hshown) ?_
  rintro backend y ⟨-, hshown⟩
  refine Safe.stays_bind (hJ.stays (hP.yields_stableFastPath backend
    fun _ => ⟨rfl, rfl, rfl, fun _ _ => Or.inl rfl⟩) hshown) ?_
  rintro _ y ⟨-, hshown⟩
  refine Safe.stays_bind (hJ.stays (hP.yields_transitionGates r
    fun hdisabled => absurd (henabled.symm.trans hdisabled) (by decide)) hshown) ?_
  rintro _ y ⟨-, hshown⟩
  refine Safe.stays_bind (hJ.stays (p := liftM withTimeout) (Q := fun _ => True)
    ⟨trivial, fun _ => trivial⟩ hshown) ?_
  rintro deadline y ⟨-, hshown⟩
  refine Safe.stays_bind (stays_beginTransition_shown hshown) ?_
  intro am' y hshown
  exact ((keeps_shown am').stays (yields_driveTransition_keepsFailure r backend deadline)
    hshown).stays_mono fun _ _ _ => trivial

/-! ## Whole runs -/

/-- Each version keeps the failure of the one before. -/
def ActiveStore.FailuresKept (s : ActiveStore) : Prop :=
  s.versions.IsChain fun next old => KeepsFailure old next

theorem ActiveStore.FailuresKept.write (h : s.FailuresKept) {next : LLMActiveModel}
    (hf : s.Fresh next.resourceVersion) (hnext : KeepsFailure s.current next) :
    (s.write next hf).FailuresKept :=
  List.isChain_cons_cons.mpr ⟨hnext, h⟩

theorem activeSystem_fits_failure (henabled : r.transitionsEnabled = true) (name : String)
    (τ : Type) [DecidableEq τ] :
    (activeSystem r name τ).Fits (.none _ _) failureWorld ActiveStore.FailuresKept where
  env s s' hkept h := by
    refine ⟨fun _ _ => ActiveStore.Edited.grows h, ?_⟩
    have hnext := ActiveStore.keepsFailure_edited h
    obtain ⟨spec, version, hf, rfl⟩ := h
    exact hkept.write hf hnext
  call _ _ _ _ _ _ h _ := h
  others _ _ _ _ _ _ _ _ _ _ h _ _ := ActiveStore.Exec.grows h
  guar s t c a s' hkept h hguar := by
    rcases ActiveStore.Exec.cases h with rfl | ⟨obj, hobj, hacc, version, hf, rfl⟩
    · exact hkept
    · obtain ⟨hgen, hnext⟩ := hguar obj hobj hacc
      refine hkept.write hf ?_
      intro hfailed _
      rcases hnext hfailed hgen.symm with hstable | ⟨hphase, htoken⟩
      · exact Or.inl hstable
      · exact Or.inr ⟨hphase, htoken.trans hgen.symm⟩
  start _ _ _ := safe_reconcile_keepsFailure henabled name

/-- Along a chain of versions, the newest last, the failure is kept until the model is
published. -/
theorem hasFailed_of_chain {versions : List LLMActiveModel} {first : LLMActiveModel}
    {rest : List LLMActiveModel}
    (hchain : (versions ++ first :: rest).IsChain fun next old => KeepsFailure old next)
    (hfailed : HasFailed first) (hgen : ∀ v ∈ versions, v.generation = first.generation)
    (hstable : ∀ v ∈ versions, v.status.phase ≠ .stable) :
    ∀ v ∈ versions, HasFailed v := by
  induction versions with
  | nil => intro v hv; cases hv
  | cons next versions ih =>
    have htail : ∀ v ∈ versions, HasFailed v :=
      ih hchain.tail (fun v hv => hgen v (List.mem_cons_of_mem _ hv))
        fun v hv => hstable v (List.mem_cons_of_mem _ hv)
    have hnext : HasFailed next := by
      cases versions with
      | nil =>
        have hkeeps := (List.isChain_cons_cons.mp hchain).1
        exact (hkeeps hfailed (hgen next List.mem_cons_self)).resolve_left
          (hstable next List.mem_cons_self)
      | cons before versions =>
        have hkeeps := (List.isChain_cons_cons.mp hchain).1
        have hsame : next.generation = before.generation := by
          rw [hgen next List.mem_cons_self, hgen before (by simp)]
        exact (hkeeps (htail before List.mem_cons_self) hsame).resolve_left
          (hstable next List.mem_cons_self)
    intro v hv
    rcases List.mem_cons.mp hv with rfl | hv
    · exact hnext
    · exact htail v hv

/-- **A failure stays visible.** From any configuration reached in which the request of the
current generation has failed, let `am` be a version stored later, with the same generation
and with no published model among the versions between. Then `am` says `Failed`, or it is
the one that publishes the model. -/
theorem failed_stays_visible (r : LLMActiveModelReconciler) (henabled : r.transitionsEnabled = true)
    (name : String) (τ : Type) [DecidableEq τ] (obj₀ : LLMActiveModel)
    (c₀ c : Config Kube ActiveStore τ Outcome)
    (hreach₀ : (activeSystem r name τ).Reach (.none _ _) (.idle (.created obj₀)) c₀)
    (hfailed : HasFailed c₀.state.current)
    (hreach : (activeSystem r name τ).Reach (.none _ _) c₀ c)
    (later between : List LLMActiveModel) (am : LLMActiveModel)
    (hversions : c.state.versions = later ++ am :: (between ++ c₀.state.versions))
    (hgen : ∀ v ∈ am :: between, v.generation = c₀.state.current.generation)
    (hstable : ∀ v ∈ between, v.status.phase ≠ .stable) :
    am.status.phase = .failed ∨ am.status.phase = .stable := by
  have hfits := activeSystem_fits_failure henabled name τ
  have hcreated : (ActiveStore.created obj₀).FailuresKept := List.isChain_singleton _
  obtain ⟨hkept, -⟩ := System.Reach.safe hfits (hreach₀.trans hreach) hcreated
    (Config.idle_allSafe _ _)
  have hchain : ((am :: between) ++ c₀.state.current :: c₀.state.past).IsChain
      fun next old => KeepsFailure old next := by
    have hall : (later ++ ((am :: between) ++ c₀.state.versions)).IsChain
        fun next old => KeepsFailure old next := hversions ▸ hkept
    exact hall.right_of_append
  by_cases hphase : am.status.phase = .stable
  · exact Or.inr hphase
  · have hnone : ∀ v ∈ am :: between, v.status.phase ≠ .stable :=
      List.forall_mem_cons.mpr ⟨hphase, hstable⟩
    exact Or.inl (hasFailed_of_chain hchain hfailed hgen hnone am List.mem_cons_self).1

/-- The failure of a request for a model that does not exist, seen again by a second attempt. -/
theorem failed_stays_visible_missing :
    ∃ c, (activeSystem Demo.reconciler "main" Bool).Reach (.none _ _)
        (.idle (.created (setPhase (Demo.activeModel "missing") .failed))) c ∧
      ∃ am, c.state.versions = [am, setPhase (Demo.activeModel "missing") .failed] ∧
        (am.status.phase = .failed ∨ am.status.phase = .stable) := by
  obtain ⟨c, hreach, am, hversions, hgen⟩ :=
    (ActiveStore.player_sound Demo.reconciler "main" Bool).exists_reach (.none _ _)
      [.start true, .run true 4]
      (.idle (.created (setPhase (Demo.activeModel "missing") .failed)))
      (fun c => ∃ am, c.state.versions = [am, setPhase (Demo.activeModel "missing") .failed] ∧
        am.generation = 1)
      (by
        refine ⟨_, rfl, _, rfl, ?_⟩
        decide)
  refine ⟨c, hreach, am, hversions, ?_⟩
  exact failed_stays_visible Demo.reconciler rfl "main" Bool _ _ c .refl (by decide) hreach [] [] am
    hversions (List.forall_mem_singleton.mpr hgen) (by simp)

end LlmOperator.Controller
