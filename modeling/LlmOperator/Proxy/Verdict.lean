import LlmOperator.Interaction.Sum
import LlmOperator.Controller.Agreement
import LlmOperator.Proxy.Transition

/-!
# The verdict of a wait

Proxies ask for models and wait, the operator reconciles, and other clients change the spec,
all at the same time. A wait for a model says that the switch failed when it reads the phase
`Failed` together with its own model in the spec.

The two need not belong together: a change of the spec leaves the status of the generation
before it. As long as nobody asks for another model while the phase is `Failed`, every stored
`Failed` is about the generation it is stored with, and so is every verdict.
-/

/-! ## The protocol -/

namespace LlmOperator.Controller.ActiveStore

open Api Interaction Proxy

/-- The patch of the requested model was carried out. It is nothing when the model is already
requested, or a new version. -/
def PatchedTo (s : ActiveStore) (modelName : String) (s' : ActiveStore) : Prop :=
  s.current.spec.modelName = modelName ∧ s' = s ∨
    ∃ version, ∃ h : s.Fresh version, s' = s.putSpec ⟨modelName⟩ version h

/-- What the proxy's calls may answer and do to the object. The proxy reads the API server, so
that it is shown the current version. -/
def ProxyExec (s : ActiveStore) : (c : ProxyCall) → c.Answer → ActiveStore → Prop
  | .getActive, .ok am, s' => s.current.name = activeModelName ∧ am = s.current ∧ s' = s
  | .patchActive modelName, .ok am, s' =>
    s.current.name = activeModelName ∧ s.PatchedTo modelName s' ∧ am = s'.current
  | .patchActive modelName, .error _, s' =>
    s' = s ∨ s.current.name = activeModelName ∧ s.PatchedTo modelName s'
  | _, _, s' => s' = s

theorem PatchedTo.edited {s s' : ActiveStore} {modelName : String}
    (h : s.PatchedTo modelName s') : s' = s ∨ s.Edited s' := by
  rcases h with ⟨-, rfl⟩ | ⟨version, hf, rfl⟩
  · exact Or.inl rfl
  · exact Or.inr ⟨_, version, hf, rfl⟩

/-- What a call of the proxy does: nothing, or a change of the spec. -/
theorem ProxyExec.edited {s s' : ActiveStore} {c : ProxyCall} {a : c.Answer}
    (h : s.ProxyExec c a s') : s' = s ∨ s.Edited s' := by
  cases c with
  | getActive =>
    cases a with
    | ok am => exact Or.inl h.2.2
    | error e => exact Or.inl h
  | patchActive modelName =>
    cases a with
    | ok am => exact h.2.1.edited
    | error e =>
      rcases h with rfl | ⟨-, h⟩
      · exact Or.inl rfl
      · exact h.edited
  | getDeployment name => exact Or.inl h
  | withTimeout => exact Or.inl h

theorem ProxyExec.grows {s s' : ActiveStore} {c : ProxyCall} {a : c.Answer}
    (h : s.ProxyExec c a s') : s.Grows s' := by
  rcases h.edited with rfl | h
  · exact s'.grows_refl
  · exact h.grows

theorem Edited.generation_le {s s' : ActiveStore} (h : s.Edited s') :
    s.current.generation ≤ s'.current.generation := by
  obtain ⟨spec, version, hf, rfl⟩ := h
  show _ ≤ if spec = s.current.spec then s.current.generation else s.current.generation + 1
  split <;> omega

theorem Exec.generation_le {s s' : ActiveStore} {c : Call} {a : c.Answer} (h : s.Exec c a s') :
    s.current.generation ≤ s'.current.generation := by
  rcases h.cases with rfl | ⟨obj, -, -, version, hf, rfl⟩
  · exact le_rfl
  · exact le_rfl

end LlmOperator.Controller.ActiveStore

namespace LlmOperator.Proxy

open Api Data Interaction Controller

/-- The workers: reconciles of the object, and requests for a model. -/
inductive Role where
  | operator
  | proxy (modelName : String)

inductive Result where
  | operator (outcome : Outcome)
  | proxy (err : Option Err)
  deriving DecidableEq

abbrev Protocol : Sig := Kube.sum ProxyApi

/-- The protocol of proxies and operator. `C` restricts the changes of the object by anyone but
the operator. -/
def switchSystem {τ : Type} (r : LLMActiveModelReconciler) (role : τ → Role)
    (C : ActiveStore → ActiveStore → Prop) : System Protocol ActiveStore τ Result where
  exec s op a s' :=
    match op, a with
    | .inl c, a => s.Exec c a s'
    | .inr c, a => s.ProxyExec c a s' ∧ C s s'
  env s s' := s.Edited s' ∧ C s s'
  program i :=
    match role i with
    | .operator => (reconcile r activeModelName).inl ProxyApi >>= fun o => .pure (.operator o)
    | .proxy modelName => (patchAndWait true modelName).inr Kube >>= fun e => .pure (.proxy e)

/-! ## Failures of the stored generation -/

/-- Wherever the phase `Failed` is stored, it is about the generation it is stored with. -/
def FailuresCurrent (s : ActiveStore) : Prop :=
  ∀ v ∈ s.versions, v.status.phase = .failed → v.status.observedGeneration = v.generation

/-- The requested model is not changed while the phase is `Failed`. -/
def SparesFailure (s s' : ActiveStore) : Prop :=
  s.current.status.phase = .failed → s'.current.spec = s.current.spec

theorem FailuresCurrent.write {s : ActiveStore} (h : FailuresCurrent s) {next : LLMActiveModel}
    {hf : s.Fresh next.resourceVersion}
    (hnext : next.status.phase = .failed → next.status.observedGeneration = next.generation) :
    FailuresCurrent (s.write next hf) := by
  intro v hv
  rcases List.mem_cons.mp hv with rfl | hv
  · exact hnext
  · exact h v hv

theorem FailuresCurrent.edited {s s' : ActiveStore} (h : FailuresCurrent s) (hs : s.Edited s')
    (hspares : SparesFailure s s') : FailuresCurrent s' := by
  obtain ⟨spec, version, hf, rfl⟩ := hs
  refine h.write ?_
  intro hfailed
  have hspec : spec = s.current.spec := hspares hfailed
  simp only [hspec, if_true]
  exact h s.current List.mem_cons_self hfailed

/-- A write of the operator is about the generation that is stored. -/
theorem FailuresCurrent.exec {s s' : ActiveStore} {c : Call} {a : c.Answer}
    (h : FailuresCurrent s) (hexec : s.Exec c a s')
    (hguar : agreementWorld.guar (s, []) c a (s', [])) : FailuresCurrent s' := by
  rcases hexec.cases with rfl | ⟨obj, rfl, hacc, version, hf, rfl⟩
  · exact h
  · exact h.write fun _ => (hguar obj rfl hacc).1

/-- The world of the operator among the proxies. -/
def protocolWorld : World Protocol (ActiveStore × List (Event Protocol)) where
  exec x op a y :=
    match op, a with
    | .inl c, a => x.1.Exec c a y.1
    | .inr _, _ => True
  rely x y := x.1.Grows y.1
  guar x op a y :=
    match op, a with
    | .inl c, a => agreementWorld.guar (x.1, []) c a (y.1, [])
    | .inr _, _ => True
  rely_refl x := x.1.grows_refl
  rely_trans h h' := h.trans h'

variable {τ : Type}

theorem switchSystem_fits (r : LLMActiveModelReconciler) (role : τ → Role) :
    (switchSystem r role SparesFailure).Fits (.none _ _) protocolWorld FailuresCurrent where
  env s s' hinv h := ⟨fun _ _ => h.1.grows, hinv.edited h.1 h.2⟩
  call s t op a s' _ h _ := by
    cases op with
    | inl c => exact h
    | inr c => trivial
  others _ _ _ s _ op a s' _ _ h _ _ := by
    cases op with
    | inl c => exact ActiveStore.Exec.grows h
    | inr c => exact ActiveStore.ProxyExec.grows h.1
  guar s t op a s' hinv h hguar := by
    cases op with
    | inl c => exact hinv.exec h hguar
    | inr c =>
      rcases ActiveStore.ProxyExec.edited h.1 with rfl | hedited
      · exact hinv
      · exact hinv.edited hedited h.2
  start i s _ := by
    show Safe protocolWorld (match role i with
      | .operator => _
      | .proxy modelName => _) _ _
    cases role i with
    | operator =>
      exact Safe.bind (Safe.inl (V := agreementWorld) (Q := fun _ _ => True) (s := (s, []))
        (fun x => (x.1, [])) (fun _ _ h => h) (fun _ _ _ _ h => h) (fun _ _ _ _ h => h)
        (safe_reconcile_agreement r activeModelName))
    | proxy modelName => exact Safe.bind (safe_inr (fun _ _ _ _ => trivial) _ _)

/-! ## What a proxy has seen -/

/-- The version of the object that a proxy was shown. -/
def shown : Event Protocol → Option LLMActiveModel
  | ⟨.inr .getActive, .ok am⟩ => some am
  | ⟨.inr (.patchActive _), .ok am⟩ => some am
  | _ => none

/-- What was shown are stored versions, of generations that do not decrease. -/
structure Past (s : ActiveStore) (t : List (Event Protocol)) : Prop where
  known : ∀ e ∈ t, ∀ am ∈ shown e, am ∈ s.versions ∧ am.generation ≤ s.current.generation
  ordered : t.Pairwise fun e e' => ∀ am ∈ shown e, ∀ am' ∈ shown e', am.generation ≤ am'.generation

theorem Past.grows {s s' : ActiveStore} {t : List (Event Protocol)} (h : Past s t)
    (hgrows : s.Grows s') (hgen : s.current.generation ≤ s'.current.generation) : Past s' t where
  known e he am ham :=
    ⟨hgrows.subset (h.known e he am ham).1, (h.known e he am ham).2.trans hgen⟩
  ordered := h.ordered

theorem Past.snoc {s : ActiveStore} {t : List (Event Protocol)} (h : Past s t) {e : Event Protocol}
    (he : ∀ am ∈ shown e, am = s.current) : Past s (t ++ [e]) where
  known e' he' am ham := by
    rcases List.mem_append.mp he' with he' | he'
    · exact h.known e' he' am ham
    · rw [List.mem_singleton.mp he'] at ham
      rw [he am ham]
      exact ⟨List.mem_cons_self, le_rfl⟩
  ordered := by
    refine List.pairwise_append.mpr ⟨h.ordered, List.pairwise_singleton _ _, ?_⟩
    intro e₁ he₁ e₂ he₂ am ham am' ham'
    rw [List.mem_singleton.mp he₂] at ham'
    rw [he am' ham']
    exact (h.known e₁ he₁ am ham).2

variable {r : LLMActiveModelReconciler} {role : τ → Role} {C : ActiveStore → ActiveStore → Prop}

/-- A call only adds versions, and what it shows is then the current one. -/
theorem switchSystem_exec {s s' : ActiveStore} {op : Protocol.Op} {a : Protocol.Ans op}
    (h : (switchSystem r role C).exec s op a s') :
    s.Grows s' ∧ s.current.generation ≤ s'.current.generation ∧
      ∀ am ∈ shown ⟨op, a⟩, am = s'.current := by
  cases op with
  | inl c => exact ⟨ActiveStore.Exec.grows h, ActiveStore.Exec.generation_le h, nofun⟩
  | inr c =>
    obtain ⟨h, -⟩ := h
    refine ⟨ActiveStore.ProxyExec.grows h, ?_, ?_⟩
    · rcases ActiveStore.ProxyExec.edited h with rfl | hedited
      · exact le_rfl
      · exact hedited.generation_le
    · cases c with
      | getActive =>
        cases a with
        | error e => exact nofun
        | ok am =>
          obtain ⟨-, rfl, rfl⟩ := h
          rintro am' ham
          exact (Option.some.inj ham).symm
      | patchActive modelName =>
        cases a with
        | error e => exact nofun
        | ok am =>
          obtain ⟨-, -, rfl⟩ := h
          rintro am' ham
          exact (Option.some.inj ham).symm
      | getDeployment name => exact nofun
      | withTimeout => exact nofun

variable [DecidableEq τ]

theorem past_of_reach {obj₀ : LLMActiveModel} {c : Config Protocol ActiveStore τ Result}
    (hreach : (switchSystem r role C).Reach (.none _ _) (.idle (.created obj₀)) c) {i : τ}
    {j : Job Protocol Result} (hj : c.job i = some j) : Past c.state j.trace := by
  refine hreach.jobs (T := fun _ s j => Past s j.trace)
    (fun _ _ => ⟨fun e he => absurd he List.not_mem_nil, .nil⟩) ?_ ?_ ?_ i j hj
  · intro _ s s' j hpast h
    exact hpast.grows h.1.grows h.1.generation_le
  · intro _ s op a s' j hpast h
    obtain ⟨hgrows, hgen, -⟩ := switchSystem_exec h
    exact hpast.grows hgrows hgen
  · intro _ s op k a s' t hpast h
    obtain ⟨hgrows, hgen, hshown⟩ := switchSystem_exec h
    exact (hpast.grows hgrows hgen).snoc hshown

/-! ## The verdict -/

/-- The operator recorded `Failed` for a generation, not older than that of the version `obj`,
in which `modelName` was requested. Nobody but the operator writes the status. -/
def FailureRecorded (s : ActiveStore) (modelName : String) (obj : LLMActiveModel) : Prop :=
  ∃ v ∈ s.versions, v.spec.modelName = modelName ∧ obj.generation ≤ v.generation ∧
    v.status.phase = .failed ∧ v.status.observedGeneration = v.generation

instance (s : ActiveStore) (modelName : String) (obj : LLMActiveModel) :
    Decidable (FailureRecorded s modelName obj) :=
  inferInstanceAs (Decidable (∃ v ∈ s.versions, _))

/-- The versions which the worker's own patches of the requested model gave. -/
def patched (t : List (Event Protocol)) : List LLMActiveModel :=
  t.filterMap fun
    | ⟨.inr (.patchActive _), .ok am⟩ => some am
    | _ => none

/-- What a proxy has done when it says that the switch failed: it has patched the object, and
later it has read the phase `Failed` in one that asks for the model. -/
theorem exists_read_of_failed {obj₀ : LLMActiveModel} {c : Config Protocol ActiveStore τ Result}
    (hreach : (switchSystem r role C).Reach (.none _ _) (.idle (.created obj₀)) c) {i : τ}
    {modelName message : String} (hrole : role i = .proxy modelName) {j : Job Protocol Result}
    (hj : c.job i = some j)
    (hresult : j.result = some (.proxy (some (transitionFailed modelName message)))) :
    ∃ obj u am, j.trace = Event.inr Kube (patchEvent modelName obj) :: u ∧
      Event.inr Kube (readEvent am) ∈ u ∧ am.spec.modelName = modelName ∧
      am.status.phase = .failed := by
  have hsteps := hreach.steps i j hj
  rw [Job.result_eq_some hresult] at hsteps
  have hprogram : (switchSystem r role C).program i =
      (patchAndWait true modelName).inr Kube >>= fun e => .pure (.proxy e) := by
    simp only [switchSystem, hrole]
  rw [hprogram] at hsteps
  obtain ⟨err, t₁, t₂, htrace, hruns, hpure⟩ := Prog.runs_bind hsteps
  obtain ⟨rfl, heq⟩ := Prog.runs_pure hpure
  cases heq
  obtain ⟨t, rfl, hwait⟩ := Prog.runs_inr hruns
  obtain ⟨obj, u, am, rfl, ham, hread⟩ := runs_patchAndWait_failed hwait
  refine ⟨obj, u.map (Event.inr Kube), am, ?_, List.mem_map_of_mem ham, hread⟩
  rw [htrace, List.append_nil, List.map_cons]

/-- **No stale failure verdict, as long as failures are spared.** Any reconciles, proxies and
other clients run at the same time, and nobody asks for another model while the phase is
`Failed`. If then a wait for a model says that the switch failed, the operator has recorded
`Failed` for a generation in which the model was requested, and not for one older than the
generation of the proxy's own request. -/
theorem failure_verdict_recorded (r : LLMActiveModelReconciler) (role : τ → Role)
    (obj₀ : LLMActiveModel)
    (h₀ : obj₀.status.phase = .failed → obj₀.status.observedGeneration = obj₀.generation)
    (c : Config Protocol ActiveStore τ Result)
    (hreach : (switchSystem r role SparesFailure).Reach (.none _ _) (.idle (.created obj₀)) c)
    (i : τ) (modelName message : String) (hrole : role i = .proxy modelName)
    (j : Job Protocol Result) (hj : c.job i = some j)
    (hresult : j.result = some (.proxy (some (transitionFailed modelName message)))) :
    ∃ obj ∈ patched j.trace, FailureRecorded c.state modelName obj := by
  obtain ⟨obj, u, am, htrace, ham, hspec, hphase⟩ :=
    exists_read_of_failed hreach hrole hj hresult
  have hinv₀ : FailuresCurrent (.created obj₀) := by
    intro v hv
    rw [List.mem_singleton.mp hv]
    exact h₀
  obtain ⟨hinv, -⟩ := hreach.safe (switchSystem_fits r role) hinv₀ (Config.idle_allSafe _ _)
  have hpast := past_of_reach hreach hj
  rw [htrace] at hpast ⊢
  refine ⟨obj, List.mem_cons_self, am, ?_, hspec, ?_, hphase, ?_⟩
  · exact (hpast.known _ (List.mem_cons_of_mem _ ham) am rfl).1
  · exact (List.pairwise_cons.mp hpast.ordered).1 _ ham obj rfl am rfl
  · exact hinv am (hpast.known _ (List.mem_cons_of_mem _ ham) am rfl).1 hphase

/-! ## Runs -/

section Runs

variable (C) [∀ s s', Decidable (C s s')]

/-- Runs on the object alone. A change of the spec that `C` excludes is refused. -/
def protocolPlayer : Player Protocol ActiveStore String where
  edit modelName s :=
    let s' := s.putSpec ⟨modelName⟩ _ s.fresh_nextVersion
    if C s s' then s' else s.putSpec s.current.spec _ s.fresh_nextVersion
  answer s op :=
    match op with
    | .inl c => ActiveStore.player.answer s c
    | .inr .getActive =>
      if s.current.name = activeModelName then (.ok s.current, s)
      else (.error (.notFound activeModelName), s)
    | .inr (.patchActive modelName) =>
      let s' := s.putSpec ⟨modelName⟩ _ s.fresh_nextVersion
      if s.current.name = activeModelName ∧ C s s' then (.ok s'.current, s')
      else (.error (.notFound activeModelName), s)
    | .inr (.getDeployment name) => (.error (.notFound name), s)
    | .inr .withTimeout => (⟨3, false⟩, s)

variable {C}

variable (r role) in
theorem protocolPlayer_sound (hC : ∀ s s', s'.current.spec = s.current.spec → C s s') :
    (protocolPlayer C).Sound (switchSystem r role C) where
  edit modelName s := by
    simp only [protocolPlayer]
    split
    · rename_i h
      exact ⟨⟨_, _, _, rfl⟩, h⟩
    · exact ⟨⟨_, _, _, rfl⟩, hC _ _ rfl⟩
  answer s op := by
    cases op with
    | inl c => exact (ActiveStore.player_sound r activeModelName τ).answer s c
    | inr c =>
      cases c with
      | getActive =>
        simp only [protocolPlayer]
        split
        · rename_i h
          exact ⟨⟨h, rfl, rfl⟩, hC _ _ rfl⟩
        · exact ⟨rfl, hC _ _ rfl⟩
      | patchActive modelName =>
        simp only [protocolPlayer]
        split
        · rename_i h
          exact ⟨⟨h.1, Or.inr ⟨_, s.fresh_nextVersion, rfl⟩, rfl⟩, h.2⟩
        · exact ⟨Or.inl rfl, hC _ _ rfl⟩
      | getDeployment name => exact ⟨rfl, hC _ _ rfl⟩
      | withTimeout => exact ⟨rfl, hC _ _ rfl⟩

instance (s s' : ActiveStore) : Decidable (SparesFailure s s') :=
  inferInstanceAs (Decidable (_ → _))

end Runs

/-- The proxy's object, stable with the first model of the small namespace. -/
def demoObject : LLMActiveModel := { Demo.activeModel "a" with name := activeModelName }

/-- One reconcile, and one request for the model. -/
def demoRole (modelName : String) : Bool → Role
  | true => .operator
  | false => .proxy modelName

/-- A model that does not exist is requested and refused. The wait of the proxy that had asked for
it says so. -/
theorem failure_verdict_recorded_refused :
    ∃ c, (switchSystem Demo.reconciler (demoRole "ghost") SparesFailure).Reach (.none _ _)
        (.idle (.created demoObject)) c ∧
      ∃ j ∈ c.job false, j.result = some (.proxy (some (transitionFailed "ghost"
          "no LLMModel with name \"ghost\" found"))) ∧
        ∃ obj ∈ patched j.trace, FailureRecorded c.state "ghost" obj := by
  obtain ⟨c, hreach, j, hj, hresult⟩ :=
    (protocolPlayer_sound Demo.reconciler (demoRole "ghost") (C := SparesFailure)
      fun _ _ h _ => h).exists_reach (.none _ _)
      [.start false, .run false 2, .start true, .run true 4, .run false 1]
      (.idle (.created demoObject))
      (fun c => ∃ j ∈ c.job false, j.result = some (.proxy (some (transitionFailed "ghost"
        "no LLMModel with name \"ghost\" found"))))
      (by decide +kernel)
  exact ⟨c, hreach, j, hj, hresult, failure_verdict_recorded Demo.reconciler (demoRole "ghost")
    demoObject nofun c hreach false "ghost" _ rfl j hj hresult⟩

/-- The operator has refused a model that does not exist. Then a proxy asks for another one, reads
the object before the operator reacts, and says that this switch failed. The operator has not
looked at any generation that asks for it. -/
theorem failure_verdict_stale :
    ∃ c, (switchSystem Demo.reconciler (demoRole "b") fun _ _ => True).Reach (.none _ _)
        (.idle (.created demoObject)) c ∧
      ∃ j ∈ c.job false, j.result = some (.proxy (some (transitionFailed "b"
          "no LLMModel with name \"ghost\" found"))) ∧
        (¬ ∃ obj ∈ patched j.trace, FailureRecorded c.state "b" obj) ∧
        ∀ v ∈ c.state.versions, v.spec.modelName = "b" →
          v.status.observedGeneration ≠ v.generation :=
  (protocolPlayer_sound Demo.reconciler (demoRole "b") (C := fun _ _ => True)
    fun _ _ _ => trivial).exists_reach (.none _ _)
    [.edit "ghost", .start true, .run true 4, .start false, .run false 3]
    (.idle (.created demoObject)) _ (by decide +kernel)

end LlmOperator.Proxy
