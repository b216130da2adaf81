import LlmOperator.Controller.Cluster

/-!
# Exclusive activation

At most one backend Deployment should ask for replicas at any time. A transition scales
down the Deployment of one model, the one recorded in the status, and starts another; it
knows nothing of a Deployment that an earlier, interrupted transition has started.

`exclusive_violated` is such a run: a switch from `a` to `b` is overtaken by a request for
`c` just after `b` was started. `exclusive_activation` gives conditions on the steps of a run
under which no two Deployments are ever live: what is live when a reconcile starts must
belong to the requested model or to the published one, the models must not be moved to
other Deployments while the reconcile is under way, and the model switched from must be
found.
-/

namespace LlmOperator.Controller

open Api Data Backend Interaction Interaction.Prog

variable {s : Cluster}

namespace Cluster

/-- The Deployment asks for replicas; without a number Kubernetes gives it one. -/
def isLive (s : Cluster) (name : String) : Bool :=
  match (s.deployment name).map (·.spec) with
  | some spec => spec.replicas != some 0
  | none => false

/-- The backend Deployments with replicas. -/
def live (s : Cluster) : List String := (s.backends.map backendDeploymentName).filter s.isLive

/-- No two backend Deployments are live. -/
def Exclusive (s : Cluster) : Prop := ∀ n ∈ s.live, ∀ m ∈ s.live, n = m

instance (s : Cluster) : Decidable s.Exclusive := inferInstanceAs (Decidable (∀ _ ∈ _, _))

/-- Whatever is live is the Deployment of the requested or of the published model. -/
def Accounted (s : Cluster) (am : LLMActiveModel) : Prop :=
  ∀ n ∈ s.live, s.resolved am.spec.modelName = some n ∨ s.resolved am.status.modelName = some n

instance (s : Cluster) (am : LLMActiveModel) : Decidable (s.Accounted am) :=
  inferInstanceAs (Decidable (∀ _ ∈ _, _))

theorem live_congr {s' : Cluster} (hb : s'.backends = s.backends)
    (hd : ∀ name, (s'.deployment name).map (·.spec) = (s.deployment name).map (·.spec)) :
    s'.live = s.live := by
  have : s'.isLive = s.isLive := by
    funext name
    simp only [isLive, hd]
  rw [live, live, hb, this]

theorem mem_live_patched {name n : String} {p : DeploymentPatch} (h : n ∈ (s.patched name p).live) :
    n ∈ s.live ∨ n = name := by
  by_cases hn : n = name
  · exact Or.inr hn
  · left
    obtain ⟨hmem, hlive⟩ := List.mem_filter.mp h
    refine List.mem_filter.mpr ⟨hmem, ?_⟩
    rwa [isLive, deployment_patched_of_ne s p hn] at hlive

theorem mem_live_scaled {name n : String} (h : n ∈ (s.patched name (.scale 0)).live) :
    n ∈ s.live ∧ n ≠ name := by
  have hne : n ≠ name := by
    rintro rfl
    obtain ⟨-, hlive⟩ := List.mem_filter.mp h
    rw [isLive, deployment_patched_self] at hlive
    cases hd : s.deployment n with
    | none => simp [hd] at hlive
    | some d => simp [hd, DeploymentPatch.applySpec_scale] at hlive
  exact ⟨(mem_live_patched h).resolve_right hne, hne⟩

/-- Writing the status of a model moves it nowhere. -/
@[simp] theorem resolved_putModelStatus (s : Cluster) (obj : LLMModel) (version : Nat)
    (name : String) : (s.putModelStatus obj version).resolved name = s.resolved name := by
  unfold resolved
  rw [modelNamed_putModelStatus]
  cases modelNamed s.models name with
  | none => rfl
  | some m =>
    by_cases h : m.name = obj.name <;>
      simp only [Option.map_some, Option.bind_some, h, if_true, if_false] <;> rfl

end Cluster

/-! ## Conditions on a run -/

/-- The others request models, edit models, and report the statuses of Deployments. -/
def exclusiveEnv (s s' : Cluster) : Prop :=
  s.Requested s' ∨ s.ModelsEdited s' ∨ s.StatusesMoved s'

/-- The listing in which the transition looks up the model it switches from, which comes
after the target was looked up and before any model is written, does not fail. -/
def LookupAnswered (t : List (Event Kube)) (e : Event Kube) : Prop :=
  listingFailed e = true → (∃ e ∈ t, isModelListing e.1 = true) → ∃ e ∈ t, isModelWrite e.1 = true

def exclusiveConditions : Conditions Kube Cluster where
  env s t s' := ∀ am ∈ firstRead t,
    s'.resolved am.spec.modelName = s.resolved am.spec.modelName ∧
      s'.resolved am.status.modelName = s.resolved am.status.modelName
  call s t e := (t = [] → s.Accounted s.active.current) ∧ LookupAnswered t e

instance (s : Cluster) (t : List (Event Kube)) (s' : Cluster) :
    Decidable (exclusiveConditions.env s t s') :=
  inferInstanceAs (Decidable (∀ _ ∈ _, _))

instance (s : Cluster) (t : List (Event Kube)) (e : Event Kube) :
    Decidable (exclusiveConditions.call s t e) :=
  inferInstanceAs (Decidable ((t = [] → _) ∧ (_ → _)))

/-! ## The world of a reconcile -/

/-- What holds between any two steps of a run. -/
structure Cluster.Orderly (s : Cluster) : Prop where
  exclusive : s.Exclusive
  token : TokenInOrder s.active.current

/-- What the others leave alone while a reconcile is under way. -/
structure Undisturbed (x y : Cluster × List (Event Kube)) : Prop where
  trace : y.2 = x.2
  active : x.1.active.Grows y.1.active
  token : TokenInOrder x.1.active.current → TokenInOrder y.1.active.current
  backends : y.1.backends = x.1.backends
  live : y.1.live = x.1.live
  resolved : ∀ am ∈ firstRead x.2,
    y.1.resolved am.spec.modelName = x.1.resolved am.spec.modelName ∧
      y.1.resolved am.status.modelName = x.1.resolved am.status.modelName

def exclusiveWorld : World Kube (Cluster × List (Event Kube)) where
  exec x c a y := x.1.Exec c a y.1 ∧ y.2 = x.2 ++ [⟨c, a⟩] ∧
    exclusiveConditions.call x.1 x.2 ⟨c, a⟩
  rely := Undisturbed
  guar _ _ _ y := y.1.Orderly
  rely_refl x := ⟨rfl, x.1.active.grows_refl, id, rfl, rfl, fun _ _ => ⟨rfl, rfl⟩⟩
  rely_trans := by
    intro x y z h h'
    refine ⟨h'.trace.trans h.trace, h.active.trans h'.active, h'.token ∘ h.token,
      h'.backends.trans h.backends, h'.live.trans h.live, ?_⟩
    intro am ham
    have hz := h'.resolved am (by rw [h.trace]; exact ham)
    have hy := h.resolved am ham
    exact ⟨hz.1.trans hy.1, hz.2.trans hy.2⟩

/-- What a reconcile has found out and what does not change while it is under way: the
object it has read, the backends, and the Deployments of the requested and of the published
model. -/
structure Findings where
  stored : LLMActiveModel
  backends : List LLMBackend
  target : Option String
  previous : Option String

/-- The assertion carried through a reconcile: `am` is its copy of the object, and every live
Deployment is one of `owned`. -/
structure Held (f : Findings) (owned : String → Prop) (am : LLMActiveModel)
    (x : Cluster × List (Event Kube)) : Prop where
  first : firstRead x.2 = some f.stored
  copy : x.1.active.Known am
  backends : x.1.backends = f.backends
  target : x.1.resolved f.stored.spec.modelName = f.target
  previous : x.1.resolved f.stored.status.modelName = f.previous
  live : ∀ n ∈ x.1.live, owned n
  orderly : x.1.Orderly

section Walk

variable {r : LLMActiveModelReconciler} {f : Findings} {owned : String → Prop}
  {am : LLMActiveModel} {model : LLMModel} {x y : Cluster × List (Event Kube)} {α : Type}
  {backend : LLMBackend}

theorem exclusive_congr {s' : Cluster} (h : s.Exclusive) (hlive : s'.live = s.live) :
    s'.Exclusive := by
  unfold Cluster.Exclusive
  rw [hlive]
  exact h

/-- A step that leaves the Deployments and the backends alone. -/
theorem Held.update (h : Held f owned am x) (ht : ∃ u, y.2 = x.2 ++ u)
    (hgrows : x.1.active.Grows y.1.active) (htoken : TokenInOrder y.1.active.current)
    (hbackends : y.1.backends = x.1.backends) (hlive : y.1.live = x.1.live)
    (hresolved : ∀ am ∈ firstRead x.2,
      y.1.resolved am.spec.modelName = x.1.resolved am.spec.modelName ∧
        y.1.resolved am.status.modelName = x.1.resolved am.status.modelName) :
    Held f owned am y := by
  obtain ⟨u, hu⟩ := ht
  have hres := hresolved f.stored h.first
  refine ⟨?_, h.copy.grows hgrows, hbackends.trans h.backends, hres.1.trans h.target,
    hres.2.trans h.previous, ?_, exclusive_congr h.orderly.exclusive hlive, htoken⟩
  · rw [hu]
    exact firstRead_append h.first u
  · rw [hlive]
    exact h.live

theorem Held.rely (h : Held f owned am x) (hs : exclusiveWorld.rely x y) : Held f owned am y :=
  h.update ⟨[], by rw [List.append_nil]; exact hs.trace⟩ hs.active (hs.token h.orderly.token)
    hs.backends hs.live hs.resolved

/-- Calls that do not touch the Deployments; a status is written from the copy. -/
def Harmless (am : LLMActiveModel) : Call → Prop
  | .scaleDeployment _ _ => False
  | .patchDeployment _ _ => False
  | c => Derived TokenInOrder am c

theorem harmless_of_isRead {c : Call} (h : c.IsRead) : Harmless am c := by
  cases c <;> first | exact Bool.noConfusion h | trivial

theorem tolerates_harmless (h : TokenInOrder am) : Tolerates (Harmless am) am where
  read _ hc := harmless_of_isRead hc
  failed reason message := ⟨rfl, rfl, rfl, h.refused reason message⟩

theorem Held.call {c : Call} {a : c.Answer} (hc : Harmless am c) (h : Held f owned am x)
    (hexec : exclusiveWorld.exec x c a y) :
    exclusiveWorld.guar x c a y ∧ Held f owned am y := by
  obtain ⟨hexec, ht, -⟩ := hexec
  have hheld : Held f owned am y := by
    have hsame : y.1 = x.1 → Held f owned am y := by
      intro heq
      refine h.update ⟨_, ht⟩ ?_ ?_ ?_ ?_ ?_ <;> rw [heq]
      · exact x.1.active.grows_refl
      · exact h.orderly.token
      · exact fun _ _ => ⟨rfl, rfl⟩
    by_cases hread : c.IsRead
    · exact hsame (hexec.of_isRead hread)
    · cases c with
      | scaleDeployment => exact hc.elim
      | patchDeployment => exact hc.elim
      | cacheEnsure => exact hsame hexec
      | updateActiveStatus obj =>
        obtain ⟨active, hactive, hy⟩ := hexec
        refine h.update ⟨_, ht⟩ ?_ ?_ ?_ ?_ ?_ <;> rw [hy]
        · exact hactive.grows
        · exact tokenInOrder_exec hc h.copy h.orderly.token hactive
        · rfl
        · exact fun _ _ => ⟨rfl, rfl⟩
      | updateModelStatus obj =>
        have hput : ∀ version, y.1 = x.1.putModelStatus obj version → Held f owned am y := by
          intro version hy
          refine h.update ⟨_, ht⟩ ?_ ?_ ?_ ?_ ?_ <;> rw [hy]
          · exact x.1.active.grows_refl
          · exact h.orderly.token
          · rfl
          · rfl
          · simp
        cases a with
        | ok version => exact hput version hexec.2
        | error e =>
          rcases hexec with heq | ⟨-, version, hy⟩
          · exact hsame heq
          · exact hput version hy
      | _ => exact absurd rfl hread
  exact ⟨hheld.orderly, hheld⟩

theorem Held.keeps (f : Findings) (owned : String → Prop) (am : LLMActiveModel) :
    exclusiveWorld.Keeps (Harmless am) (Held f owned am) where
  rely _ _ h hs := h.rely hs
  call _ _ _ _ hc h he := h.call hc he

theorem Held.stays {p : Body α} {Q : α → Prop}
    (hp : p.prog.Yields (Harmless am) (Flow.OnOk Q)) (h : Held f owned am x) :
    Safe exclusiveWorld p.prog (Safe.Stays fun a y => Q a ∧ Held f owned am y) x :=
  (Held.keeps f owned am).stays hp h

theorem onCluster_exclusiveWorld : OnCluster exclusiveWorld := fun _ _ _ _ h => h.1

theorem Held.mono {owned' : String → Prop} (h : Held f owned am x)
    (hle : ∀ n, owned n → owned' n) : Held f owned' am x :=
  { h with live := fun n hn => hle n (h.live n hn) }

/-! ### Looking up models and backends -/

/-- No model has been written. -/
def Unwritten (t : List (Event Kube)) : Prop := ∀ e ∈ t, isModelWrite e.1 = false

/-- The models were listed, and none has been written yet. -/
def LookingUp (t : List (Event Kube)) : Prop :=
  (∃ e ∈ t, isModelListing e.1 = true) ∧ Unwritten t

/-- What stays true of the past until a model is written. -/
def Persists (L : List (Event Kube) → Prop) : Prop :=
  ∀ t e, isModelWrite e.1 = false → L t → L (t ++ [e])

theorem persists_unwritten : Persists Unwritten := by
  intro t e he ht e' he'
  rcases List.mem_append.mp he' with h | h
  · exact ht e' h
  · rw [List.mem_singleton.mp h]
    exact he

theorem persists_lookingUp : Persists LookingUp := by
  rintro t e he ⟨⟨e₀, he₀, hlist⟩, hnone⟩
  exact ⟨⟨e₀, List.mem_append_left _ he₀, hlist⟩, persists_unwritten t e he hnone⟩

theorem resolved_of_modelNamed {modelName : String}
    (hm : modelNamed s.models modelName = some model) :
    s.resolved modelName = if modelName = "" then none
      else (Cluster.backendFor s.backends model).map backendDeploymentName := by
  unfold Cluster.resolved
  rw [hm]
  rfl

theorem resolved_of_modelNamed_eq_none {modelName : String}
    (hm : modelNamed s.models modelName = none) : s.resolved modelName = none := by
  unfold Cluster.resolved
  rw [hm]
  split <;> rfl

/-! ### Up to the lookup of the model switched from -/

/-- Calls made before the model switched from has been looked up. -/
def Preparing (am : LLMActiveModel) (c : Call) : Prop := Harmless am c ∧ isModelWrite c = false

theorem preparing_of_isRead {c : Call} (h : c.IsRead) : Preparing am c := by
  refine ⟨harmless_of_isRead h, ?_⟩
  cases c <;> first | exact Bool.noConfusion h | rfl

theorem tolerates_preparing (h : TokenInOrder am) : Tolerates (Preparing am) am where
  read _ hc := preparing_of_isRead hc
  failed reason message := ⟨⟨rfl, rfl, rfl, h.refused reason message⟩, rfl⟩

theorem Held.keeps_preparing {L : List (Event Kube) → Prop} (hL : Persists L) (f : Findings)
    (owned : String → Prop) (am : LLMActiveModel) :
    exclusiveWorld.Keeps (Preparing am) fun y => Held f owned am y ∧ L y.2 where
  rely x y h hs := ⟨h.1.rely hs, hs.trace ▸ h.2⟩
  call x c a y hc h hexec := by
    obtain ⟨hguar, h'⟩ := h.1.call hc.1 hexec
    refine ⟨hguar, h', ?_⟩
    rw [hexec.2.1]
    exact hL _ _ hc.2 h.2

theorem Held.stays_preparing {L : List (Event Kube) → Prop} (hL : Persists L) {p : Body α}
    {Q : α → Prop} (hp : p.prog.Yields (Preparing am) (Flow.OnOk Q)) (h : Held f owned am x)
    (hl : L x.2) :
    Safe exclusiveWorld p.prog (Safe.Stays fun a y => Q a ∧ Held f owned am y ∧ L y.2) x :=
  (Held.keeps_preparing hL f owned am).stays hp ⟨h, hl⟩

/-- After a listing the models are being looked up. -/
theorem lookingUp_of_exec {a : Call.Answer .listModels} (h : Unwritten x.2)
    (hexec : exclusiveWorld.exec x .listModels a y) : LookingUp y.2 := by
  rw [hexec.2.1]
  exact ⟨⟨_, List.mem_append_right _ List.mem_cons_self, rfl⟩, persists_unwritten _ _ rfl h⟩

/-- A listing made while models are being looked up does not fail. -/
theorem not_exec_error {e : Err} (h : LookingUp x.2) :
    ¬ exclusiveWorld.exec x .listModels (.error e) y := by
  rintro ⟨-, -, -, hlookup⟩
  obtain ⟨e', he', hwrite⟩ := hlookup rfl h.1
  rw [h.2 e' he'] at hwrite
  cases hwrite

theorem Held.safe_failTransition (h : Held f owned am x) (htoken : TokenInOrder am)
    (modelName reason metricReason : String) (cause : Err) :
    Safe exclusiveWorld (failTransition am modelName reason metricReason cause)
      (fun _ _ => True) x :=
  (Held.keeps f owned am).safe_only ((tolerates_harmless htoken).only_failTransition _ _ _ _) h

section

variable (h : Held f owned am x) (hl : LookingUp x.2) (htoken : TokenInOrder am)
include h hl htoken

/-- The token write moves the copy on, and records the published model. -/
theorem Held.stays_beginTransition :
    Safe exclusiveWorld (beginTransition am).prog (Safe.Stays fun am' y =>
      Held f owned am' y ∧ LookingUp y.2 ∧ TokenInOrder am' ∧ am'.spec = am.spec ∧
        (am'.status.transitionFrom = am.status.modelName ∨
          am.status.modelName = am.spec.modelName)) x := by
  unfold beginTransition
  split
  · refine Safe.stays_bind (h.stays_preparing persists_lookingUp (p := liftM now)
      (Q := fun _ => True)
      ⟨⟨trivial, rfl⟩, fun _ => trivial⟩ hl) ?_
    rintro started y ⟨-, hy, hl⟩
    refine stays_orError (Safe.bind ?_)
    intro x₁ hx₁ a x₂ hexec
    have h₁ := hy.rely hx₁
    have hwrite : StatusOf TokenInOrder am (withToken am started) :=
      ⟨rfl, rfl, rfl, TokenInOrder.withToken am started⟩
    obtain ⟨hguar, h₂⟩ := h₁.call (c := .updateActiveStatus (withToken am started)) hwrite hexec
    refine ⟨hguar, ?_⟩
    cases a with
    | error e => exact fun am' h => nomatch h
    | ok version =>
      rintro am' ham'
      cases ham'
      obtain ⟨⟨active, ⟨hacc, hfresh, hactive⟩, hx₂⟩, htrace, -⟩ := hexec
      have hcopy : x₂.1.active.Known { withToken am started with resourceVersion := version } := by
        have hk : x₁.1.active.Known (withToken am started) := h₁.copy
        rw [hx₂, hactive]
        exact hk.putStatus hacc hfresh
      refine ⟨{ h₂ with copy := hcopy }, ?_, ⟨le_rfl, fun _ => Or.inl rfl⟩, rfl, Or.inl rfl⟩
      show LookingUp x₂.2
      rw [htrace, hx₁.trace]
      exact persists_lookingUp _ _ rfl hl
  · rename_i hneeds
    exact ⟨h, hl, htoken, rfl, needsToken_origin htoken hneeds⟩

/-- The published model is found: its Deployment is the target's, or that of the backend to be
scaled down. -/
theorem Held.stays_previousByModel (hfrom : am.status.transitionFrom = f.stored.status.modelName) :
    Safe exclusiveWorld (previousByModel am model).prog (Safe.Stays fun found y =>
      Held f owned am y ∧ ∀ n, f.previous = some n →
        ∃ b, found.1 = some b ∧ backendDeploymentName b = n) x := by
  have hprev := h.previous
  unfold previousByModel
  split
  · rename_i hempty
    refine ⟨h, ?_⟩
    intro n hn
    rw [← hfrom, hempty] at hprev
    cases hprev.trans hn
  · rename_i hne
    refine Safe.stays_bind (Safe.stays_lift (onCluster_exclusiveWorld.safe_findModel
      (Held.keeps_preparing persists_lookingUp f owned am) (preparing_of_isRead rfl) ⟨h, hl⟩
      am.status.transitionFrom)) ?_
    rintro res y ⟨⟨hy, -⟩, x₁, a, ⟨-, hl₁⟩, hexec, hres⟩
    have hyprev := hy.previous
    rw [← hfrom] at hyprev
    cases res with
    | error e =>
      refine ⟨hy, ?_⟩
      intro n hn
      rcases hres with hnone | ⟨e, rfl⟩
      · rw [resolved_of_modelNamed_eq_none hnone] at hyprev
        cases hyprev.trans hn
      · exact absurd hexec (not_exec_error hl₁)
    | ok m =>
      rw [resolved_of_modelNamed hres, if_neg hne, hy.backends] at hyprev
      refine Safe.stays_bind (Q := fun b z => Held f owned am z ∧
        Cluster.backendFor f.backends m = some b) ?_ ?_
      · refine stays_orLeave ((onCluster_exclusiveWorld.safe_findBackendOf
          (Held.keeps f owned am) (fun _ => harmless_of_isRead) (fun _ h => h.backends) hy
          m).mono ?_)
        rintro res z ⟨hz, hb⟩
        cases res with
        | ok b => exact ⟨hz, hb b rfl⟩
        | error e => exact hz.safe_failTransition htoken _ _ _ _
      · rintro b z ⟨hz, hb⟩
        refine ⟨hz, ?_⟩
        intro n hn
        rw [hb] at hyprev
        exact ⟨b, rfl, Option.some.inj (hyprev.trans hn)⟩

theorem Held.stays_resolvePrevious (hfrom : am.status.transitionFrom = f.stored.status.modelName ∨
      f.stored.status.modelName = f.stored.spec.modelName) :
    Safe exclusiveWorld (resolvePrevious am model).prog (Safe.Stays fun previous y =>
      Held f owned am y ∧ ∀ n, f.previous = some n →
        f.target = some n ∨ ∃ b, previous = some b ∧ backendDeploymentName b = n) x := by
  rcases hfrom with hfrom | hsame
  · refine Safe.stays_bind (h.stays_previousByModel hl htoken hfrom) ?_
    rintro ⟨found, backendType⟩ y ⟨hy, hfound⟩
    cases found with
    | some b => exact ⟨hy, fun n hn => Or.inr (hfound n hn)⟩
    | none =>
      refine (hy.stays (p := liftM (previousByType backendType model)) (Q := fun _ => True)
        (Flow.yields_lift ((tolerates_harmless htoken).readOnly
          (readOnly_previousByType backendType model)))).stays_mono ?_
      rintro previous z ⟨-, hz⟩
      refine ⟨hz, ?_⟩
      intro n hn
      obtain ⟨b, hb, -⟩ := hfound n hn
      cases hb
  · refine (h.stays (tolerates_harmless htoken).yields_resolvePrevious).stays_mono ?_
    rintro previous y ⟨-, hy⟩
    refine ⟨hy, ?_⟩
    intro n hn
    left
    rw [← hn, ← hy.target, ← hy.previous, hsame]

end

/-! ### Scaling down and starting -/

/-- A patch that leaves only `owned'` live. -/
theorem Held.patched {owned' : String → Prop} {name : String} {p : DeploymentPatch}
    {t : List (Event Kube)} (h : Held f owned am x) (ht : ∃ u, t = x.2 ++ u)
    (hlive : ∀ n ∈ (x.1.patched name p).live, owned' n)
    (hexclusive : (x.1.patched name p).Exclusive) : Held f owned' am (x.1.patched name p, t) := by
  obtain ⟨u, rfl⟩ := ht
  exact ⟨firstRead_append h.first u, h.copy, h.backends, h.target, h.previous, hlive,
    hexclusive, h.orderly.token⟩

theorem Held.scaled {t : List (Event Kube)} (h : Held f owned am x) (name : String)
    (ht : ∃ u, t = x.2 ++ u) :
    Held f (fun n => owned n ∧ n ≠ name) am (x.1.patched name (.scale 0), t) := by
  refine h.patched ht ?_ ?_
  · intro n hn
    obtain ⟨hmem, hne⟩ := Cluster.mem_live_scaled hn
    exact ⟨h.live n hmem, hne⟩
  · intro n hn m hm
    exact h.orderly.exclusive n (Cluster.mem_live_scaled hn).1 m (Cluster.mem_live_scaled hm).1

/-- Scaling a Deployment to zero takes it off the list. -/
theorem Held.safe_scaleDeployment (h : Held f owned am x) (name : String) :
    Safe exclusiveWorld (scaleDeployment name 0) (fun res y => Held f owned am y ∧
      (res = .ok () → Held f (fun n => owned n ∧ n ≠ name) am y)) x := by
  intro x₁ hx₁ a x₂ hexec
  obtain ⟨hguar, h₂⟩ := (h.rely hx₁).call (c := .getDeployment name) trivial hexec
  refine ⟨hguar, ?_⟩
  cases a with
  | error e => exact ⟨h₂, fun h => nomatch h⟩
  | ok d =>
    intro x₃ hx₃ a x₄ hexec
    have h₃ := h₂.rely hx₃
    obtain ⟨hstate, htrace, -⟩ := hexec
    have hsame : x₄.1 = x₃.1 → Held f owned am x₄ := by
      intro heq
      refine h₃.update ⟨_, htrace⟩ ?_ ?_ ?_ ?_ ?_ <;> rw [heq]
      · exact x₃.1.active.grows_refl
      · exact h₃.orderly.token
      · exact fun _ _ => ⟨rfl, rfl⟩
    have hscaled : x₄.1 = x₃.1.patched name (.scale 0) →
        Held f (fun n => owned n ∧ n ≠ name) am x₄ := by
      intro heq
      have := h₃.scaled name ⟨_, htrace⟩
      rwa [← heq] at this
    cases a with
    | ok _ =>
      have h₄ := hscaled hstate.2
      exact ⟨h₄.orderly, h₄.mono fun _ hn => hn.1, fun _ => h₄⟩
    | error e =>
      have h₄ : Held f owned am x₄ := by
        rcases hstate with heq | heq
        · exact hsame heq
        · exact (hscaled heq).mono fun _ hn => hn.1
      exact ⟨h₄.orderly, h₄, fun h => nomatch h⟩

/-- After step 1 nothing but the target is live. -/
theorem Held.stays_scaleDownPrevious {previous : Option LLMBackend} {deadline : Deadline}
    (htoken : TokenInOrder am) (h : Held f (fun n => f.target = some n ∨ f.previous = some n) am x)
    (htarget : ∀ n, f.target = some n → n = backendDeploymentName backend)
    (hprevious : ∀ n, f.previous = some n →
      f.target = some n ∨ ∃ b, previous = some b ∧ backendDeploymentName b = n) :
    Safe exclusiveWorld (scaleDownPrevious am model backend previous deadline).prog
      (Safe.Stays fun _ y => Held f (· = backendDeploymentName backend) am y) x := by
  have hP := tolerates_harmless htoken
  have howned : ∀ n, f.target = some n ∨ f.previous = some n →
      n = backendDeploymentName backend ∨ ∃ b, previous = some b ∧ backendDeploymentName b = n := by
    rintro n (hn | hn)
    · exact Or.inl (htarget n hn)
    · rcases hprevious n hn with hn | hb
      · exact Or.inl (htarget n hn)
      · exact Or.inr hb
  cases previous with
  | none =>
    refine h.mono ?_
    intro n hn
    rcases howned n hn with heq | ⟨b, hb, -⟩
    · exact heq
    · cases hb
  | some b =>
    unfold scaleDownPrevious
    dsimp only
    split
    · rename_i heq
      refine h.mono ?_
      intro n hn
      rcases howned n hn with hn | ⟨b', hb, hn⟩
      · exact hn
      · cases hb
        rw [← hn, heq]
    · refine Safe.stays_bind (h.stays hP.yields_guardCurrent) ?_
      rintro _ y ⟨-, hy⟩
      refine Safe.stays_bind (Q := fun _ y => Held f (· = backendDeploymentName backend) am y) ?_ ?_
      · refine stays_orLeave ((hy.safe_scaleDeployment (backendDeploymentName b)).mono ?_)
        rintro res z ⟨hz, hok⟩
        cases res with
        | error e => exact hz.safe_failTransition htoken _ _ _ _
        | ok _ =>
          refine (hok rfl).mono ?_
          rintro n ⟨hn, hne⟩
          rcases howned n hn with hn | ⟨b', hb, hn⟩
          · exact hn
          · cases hb
            exact absurd hn.symm hne
      · intro _ z hz
        refine (hz.stays (Q := fun _ => True) (hP.yields_orLeave
          (readOnly_pollDeployment _ _ _ (readOnly_checkCurrent am model) _) ?_)).stays_mono
          fun _ _ h => h.2
        intro e
        split
        · trivial
        · exact hP.only_failTransition _ _ _ _

/-- Step 3 patches the target, which is the only Deployment that may be live. -/
theorem Held.safe_activateDeployment (h : Held f (· = backendDeploymentName backend) am x) :
    Safe exclusiveWorld (activateDeployment r model backend)
      (fun _ y => Held f (· = backendDeploymentName backend) am y) x := by
  intro x₁ hx₁ a x₂ hexec
  obtain ⟨hguar, h₂⟩ := (h.rely hx₁).call (c := .getDeployment (backendDeploymentName backend))
    trivial hexec
  refine ⟨hguar, ?_⟩
  cases a with
  | error e => exact h₂
  | ok d =>
    have hname : d.name = backendDeploymentName backend := Cluster.deployment_name hexec.1.1
    dsimp only [Prog.bind]
    cases findContainer (backendContainerName backend) d.spec.template.spec.containers with
    | none => exact h₂
    | some c =>
      refine Safe.bind (((Held.keeps f _ am).safe ((readOnly_switchTime r _).mono
        (fun _ => harmless_of_isRead) fun _ _ => trivial) h₂).mono ?_)
      rintro switchedAt y ⟨-, hy⟩
      show Safe exclusiveWorld
        (if d.spec = (activated model switchedAt d c).spec then _ else _) _ y
      split
      · exact hy
      · intro x₃ hx₃ a x₄ hexec
        have h₃ := hy.rely hx₃
        obtain ⟨hstate, htrace, -⟩ := hexec
        have hpatched : x₄.1 = x₃.1.patched d.name (.diff d (activated model switchedAt d c)) →
            Held f (· = backendDeploymentName backend) am x₄ := by
          intro heq
          have hlive : ∀ n ∈ (x₃.1.patched d.name
              (.diff d (activated model switchedAt d c))).live,
              n = backendDeploymentName backend := by
            intro n hn
            rcases Cluster.mem_live_patched hn with hn | hn
            · exact h₃.live n hn
            · exact hn.trans hname
          have hheld : Held f (· = backendDeploymentName backend) am
              (x₃.1.patched d.name (.diff d (activated model switchedAt d c)), x₄.2) :=
            h₃.patched ⟨_, htrace⟩ hlive fun n hn m hm => (hlive n hn).trans (hlive m hm).symm
          rwa [← heq] at hheld
        have h₄ : Held f (· = backendDeploymentName backend) am x₄ := by
          cases a with
          | ok _ => exact hpatched hstate.2
          | error e =>
            rcases hstate with heq | heq
            · refine h₃.update ⟨_, htrace⟩ ?_ ?_ ?_ ?_ ?_ <;> rw [heq]
              · exact x₃.1.active.grows_refl
              · exact h₃.orderly.token
              · exact fun _ _ => ⟨rfl, rfl⟩
            · exact hpatched heq
        exact ⟨h₄.orderly, h₄⟩

/-! ### The whole reconcile -/

theorem Held.stays_driveTransition {deadline : Deadline}
    (h : Held f (fun n => f.target = some n ∨ f.previous = some n) am x) (hl : LookingUp x.2)
    (htoken : TokenInOrder am) (hmodel : model.spec.model.name = am.spec.modelName)
    (hfrom : am.status.transitionFrom = f.stored.status.modelName ∨
      f.stored.status.modelName = f.stored.spec.modelName)
    (htarget : ∀ n, f.target = some n → n = backendDeploymentName backend) :
    Safe exclusiveWorld (driveTransition r am model backend deadline).prog
      (Safe.Stays fun _ _ => True) x := by
  have hprep := tolerates_preparing htoken
  have hP := tolerates_harmless htoken
  refine Safe.stays_bind (h.stays_preparing persists_lookingUp hprep.yields_guardCurrent hl) ?_
  rintro _ y ⟨-, h, hl⟩
  refine Safe.stays_bind (h.stays_preparing persists_lookingUp
    (hprep.yields_validateTarget r) hl) ?_
  rintro driver y ⟨-, h, hl⟩
  refine Safe.stays_bind (h.stays_resolvePrevious hl htoken hfrom) ?_
  rintro previous y ⟨h, hprevious⟩
  refine Safe.stays_bind (h.stays_scaleDownPrevious htoken htarget hprevious) ?_
  intro polls y h
  refine Safe.stays_bind (h.stays hP.yields_guardCurrent) ?_
  rintro _ y ⟨-, h⟩
  refine Safe.stays_bind (h.stays (hP.yields_ensureCached r backend driver (fun _ => trivial)
    fun _ _ => trivial)) ?_
  rintro cached y ⟨⟨-, hspec⟩, h⟩
  refine Safe.stays_bind (h.stays hP.yields_guardCurrent) ?_
  rintro _ y ⟨-, h⟩
  refine Safe.stays_bind (Q := fun _ y => Held f (· = backendDeploymentName backend) am y) ?_ ?_
  · refine stays_orLeave (h.safe_activateDeployment.mono ?_)
    intro res z hz
    cases res with
    | ok _ => exact hz
    | error e => exact hz.safe_failTransition htoken _ _ _ _
  intro _ y h
  refine Safe.stays_bind (h.stays hP.yields_guardCurrent) ?_
  rintro _ y ⟨-, h⟩
  refine Safe.stays_bind (h.stays (hP.yields_awaitServing backend _)) ?_
  rintro runtimeMeta y ⟨-, h⟩
  refine (h.stays (hP.yields_publish runtimeMeta trivial (fun _ _ _ => trivial) ?_)).stays_mono
    fun _ _ _ => trivial
  intro m duration hm
  refine ⟨rfl, rfl, rfl, htoken.published ?_ duration⟩
  rw [hm, hspec, hmodel]

/-- The target is looked up; its backend will decide its Deployment. -/
theorem Held.stays_findTarget (h : Held f owned (observe f.stored) x) (hl : Unwritten x.2)
    (htoken : TokenInOrder (observe f.stored)) :
    Safe exclusiveWorld (orLeave (findModel f.stored.spec.modelName) fun e =>
        writeActiveIgnoring (refused (observe f.stored) "ModelNotFound" e.error) .retryLater).prog
      (Safe.Stays fun model y => Held f owned (observe f.stored) y ∧ LookingUp y.2 ∧
        model.spec.model.name = f.stored.spec.modelName ∧
        ∀ n, f.target = some n →
          (Cluster.backendFor f.backends model).map backendDeploymentName = some n) x := by
  refine stays_orLeave ((onCluster_exclusiveWorld.safe_findModel
    (Held.keeps_preparing persists_unwritten f owned _) (preparing_of_isRead rfl) ⟨h, hl⟩
    f.stored.spec.modelName).mono ?_)
  rintro res y ⟨⟨hy, -⟩, x₁, a, ⟨-, hl₁⟩, hexec, hres⟩
  cases res with
  | error e =>
    exact (Held.keeps f owned _).safe_only (only_writeActiveIgnoring
      ((tolerates_harmless htoken).failed _ _)) hy
  | ok model =>
    refine ⟨hy, lookingUp_of_exec hl₁ hexec, modelNamed_name hres, ?_⟩
    intro n hn
    have hresolved := resolved_of_modelNamed hres
    rw [hy.target, hy.backends, hn] at hresolved
    split at hresolved
    · cases hresolved
    · exact hresolved.symm

theorem Held.stays_findTargetBackend (h : Held f owned (observe f.stored) x) (hl : LookingUp x.2)
    (htoken : TokenInOrder (observe f.stored))
    (htarget : ∀ n, f.target = some n →
      (Cluster.backendFor f.backends model).map backendDeploymentName = some n) :
    Safe exclusiveWorld (orLeave (findBackendOf model) fun e =>
        writeActiveIgnoring (refused (observe f.stored) "BackendNotFound" e.error) .retryLater).prog
      (Safe.Stays fun backend y => Held f owned (observe f.stored) y ∧ LookingUp y.2 ∧
        ∀ n, f.target = some n → n = backendDeploymentName backend) x := by
  refine stays_orLeave ((onCluster_exclusiveWorld.safe_findBackendOf
    (Held.keeps_preparing persists_lookingUp f owned _) (fun _ => preparing_of_isRead)
    (fun _ h => h.1.backends) ⟨h, hl⟩ model).mono ?_)
  rintro res y ⟨⟨hy, hl⟩, hres⟩
  cases res with
  | error e =>
    exact (Held.keeps f owned _).safe_only (only_writeActiveIgnoring
      ((tolerates_harmless htoken).failed _ _)) hy
  | ok backend =>
    refine ⟨hy, hl, ?_⟩
    intro n hn
    have hmap := htarget n hn
    rw [hres backend rfl] at hmap
    exact (Option.some.inj hmap).symm

/-- The first read settles what the reconcile works with. -/
theorem safe_getActive_exclusive (h : x.1.Orderly) (ht : x.2 = []) (name : String) :
    Safe exclusiveWorld (getActive name) (fun res y => ∀ stored, res = .ok stored →
      TokenInOrder stored ∧ ∃ f : Findings, f.stored = stored ∧
        Held f (fun n => f.target = some n ∨ f.previous = some n) (observe stored) y ∧
        Unwritten y.2) x := by
  intro x₁ hx₁ a x₂ hexec
  obtain ⟨hstate, htrace, haccounted, -⟩ := hexec
  have htrace₁ : x₁.2 = [] := hx₁.trace.trans ht
  have horderly : x₁.1.Orderly :=
    ⟨exclusive_congr h.exclusive hx₁.live, hx₁.token h.token⟩
  have hsame : x₂.1 = x₁.1 := hstate.of_isRead rfl
  have horderly₂ : x₂.1.Orderly := hsame ▸ horderly
  refine ⟨horderly₂, ?_⟩
  rintro stored rfl
  obtain ⟨rfl, -, -⟩ := hstate
  refine ⟨horderly.token, ⟨x₁.1.active.current, x₁.1.backends,
    x₁.1.resolved x₁.1.active.current.spec.modelName,
    x₁.1.resolved x₁.1.active.current.status.modelName⟩, rfl, ?_, ?_⟩
  · refine ⟨?_, ?_, ?_, ?_, ?_, ?_, ?_⟩
    · rw [htrace, htrace₁]
      rfl
    · have hk : x₁.1.active.Known x₁.1.active.current :=
        ActiveStore.known_of_mem List.mem_cons_self
      rw [hsame]
      exact hk
    · rw [hsame]
    · rw [hsame]
    · rw [hsame]
    · rw [hsame]
      exact haccounted htrace₁
    · exact horderly₂
  · rw [htrace, htrace₁]
    intro e he
    rw [List.mem_singleton.mp he]
    rfl

theorem safe_reconcile_exclusive (r : LLMActiveModelReconciler) (name : String) (hs : s.Orderly) :
    Safe exclusiveWorld (reconcile r name) (fun _ _ => True) (s, []) := by
  refine Safe.exit_of_stays ?_
  refine Safe.stays_bind (stays_orLeave_pure (safe_getActive_exclusive hs rfl name)) ?_
  rintro stored y ⟨htoken, f, rfl, h, hl⟩
  have htoken : TokenInOrder (observe f.stored) := ⟨htoken.le, htoken.origin⟩
  have hprep := tolerates_preparing htoken
  refine Safe.stays_bind (h.stays_preparing persists_unwritten
    (hprep.yields_orLeave readOnly_singletonOwner fun _ => trivial) hl) ?_
  rintro owner y ⟨-, h, hl⟩
  refine Safe.stays_bind (h.stays_preparing persists_unwritten
    (yields_leaveIf (only_writeActiveThen (hprep.failed _ _))) hl) ?_
  rintro _ y ⟨-, h, hl⟩
  refine Safe.stays_bind (h.stays_findTarget hl htoken) ?_
  rintro model y ⟨h, hl, hmodel, htarget⟩
  refine Safe.stays_bind (h.stays_findTargetBackend hl htoken htarget) ?_
  rintro backend y ⟨h, hl, htarget⟩
  refine Safe.stays_bind (h.stays_preparing persists_lookingUp (hprep.yields_stableFastPath backend
    fun hname => ⟨⟨rfl, rfl, rfl, htoken.le, fun _ => Or.inr hname⟩, rfl⟩) hl) ?_
  rintro _ y ⟨-, h, hl⟩
  refine Safe.stays_bind (h.stays_preparing persists_lookingUp (hprep.yields_transitionGates r
    fun _ _ _ => ⟨⟨rfl, rfl, rfl, htoken.le, htoken.origin⟩, rfl⟩) hl) ?_
  rintro _ y ⟨-, h, hl⟩
  refine Safe.stays_bind (h.stays_preparing persists_lookingUp (p := liftM withTimeout)
    (Q := fun _ => True) ⟨⟨trivial, rfl⟩, fun _ => trivial⟩ hl) ?_
  rintro deadline y ⟨-, h, hl⟩
  refine Safe.stays_bind (h.stays_beginTransition hl htoken) ?_
  rintro am y ⟨h, hl, htoken', hspec, hfrom⟩
  exact h.stays_driveTransition hl htoken' (by rw [hmodel, hspec]; rfl) hfrom htarget

end Walk

/-! ## Runs -/

theorem Cluster.Orderly.env {s s' : Cluster} (h : s.Orderly) (henv : exclusiveEnv s s') :
    s'.live = s.live ∧ s'.backends = s.backends ∧ s.active.Grows s'.active ∧ s'.Orderly := by
  rcases henv with ⟨active, hactive, rfl⟩ | ⟨models, rfl⟩ | hmoved
  · exact ⟨rfl, rfl, hactive.grows, h.exclusive, h.token.edited hactive⟩
  · exact ⟨rfl, rfl, s.active.grows_refl, h.exclusive, h.token⟩
  · have hbackends : s'.backends = s.backends ∧ s'.active = s.active := by
      obtain ⟨status, rfl⟩ := hmoved
      exact ⟨rfl, rfl⟩
    have hlive := Cluster.live_congr hbackends.1 hmoved.deployment
    refine ⟨hlive, hbackends.1, ?_, exclusive_congr h.exclusive hlive, ?_⟩
    · rw [hbackends.2]
      exact s.active.grows_refl
    · rw [hbackends.2]
      exact h.token

theorem clusterSystem_fits_exclusive (r : LLMActiveModelReconciler) (name : String) :
    (clusterSystem r name exclusiveEnv).Fits exclusiveConditions exclusiveWorld
      Cluster.Orderly where
  env s s' hs henv := by
    obtain ⟨hlive, hbackends, hgrows, hs'⟩ := hs.env henv
    exact ⟨fun t ht => ⟨rfl, hgrows, fun _ => hs'.token, hbackends, hlive, ht⟩, hs'⟩
  call _ _ _ _ _ _ h hc := ⟨h, rfl, hc⟩
  others i i' hi := absurd rfl hi
  guar _ _ _ _ _ _ _ h := h
  start _ _ hs := safe_reconcile_exclusive r name hs

/-- **Exclusive activation, under conditions.** In every run of the controller whose steps
meet `exclusiveConditions`, no two backend Deployments are ever live. The run starts with at
most one of them live and with the transition token, if there is one, in order. -/
theorem exclusive_activation (r : LLMActiveModelReconciler) (name : String) (s₀ : Cluster)
    (hexclusive : s₀.Exclusive) (htoken : TokenInOrder s₀.active.current)
    (c : Config Kube Cluster Unit Outcome)
    (hreach : (clusterSystem r name exclusiveEnv).Reach exclusiveConditions (.idle s₀) c) :
    c.state.Exclusive :=
  (hreach.safe (clusterSystem_fits_exclusive r name) ⟨hexclusive, htoken⟩
    (Config.idle_allSafe _ _)).1.exclusive

theorem player_sound_exclusive (r : LLMActiveModelReconciler) (name : String) :
    Cluster.player.Sound (clusterSystem r name exclusiveEnv) where
  edit e s := by
    cases e with
    | request modelName => exact Or.inl (s.requested_edit modelName)
    | models models => exact Or.inr (Or.inl ⟨models, rfl⟩)
    | settle => exact Or.inr (Or.inr ⟨Cluster.settled, rfl⟩)
  answer s c := s.exec_answer c

/-- A switch from `a` to `b`, up to the patch that starts `b`. -/
def Demo.switchToB : List (Cmd Edit Unit) :=
  [.edit (.request "b"), .start (), .run () 13, .edit .settle, .run () 7]

/-- A run that meets the conditions and starts another Deployment. -/
theorem exclusive_activation_switch :
    ∃ c, (clusterSystem Demo.reconciler "main" exclusiveEnv).Reach exclusiveConditions
        (.idle Demo.cluster) c ∧ c.state.live = ["b"] ∧ c.state.Exclusive := by
  obtain ⟨c, hreach, hlive⟩ := (player_sound_exclusive Demo.reconciler "main").exists_reach
    exclusiveConditions Demo.switchToB (.idle Demo.cluster) (fun c => c.state.live = ["b"])
    (by decide)
  exact ⟨c, hreach, hlive,
    exclusive_activation Demo.reconciler "main" Demo.cluster (by decide) (by decide) c hreach⟩

/-- The switch to `b` is overtaken by a request for `c` once `b` is started. The next reconcile
scales down `a` again, which is still the published model, and starts `c`. -/
theorem exclusive_violated :
    Demo.cluster.Exclusive ∧
      (∀ n ∈ Demo.cluster.live,
        Demo.cluster.resolved Demo.cluster.active.current.status.modelName = some n) ∧
      ∃ c, (clusterSystem Demo.reconciler "main" exclusiveEnv).Reach (.none _ _)
        (.idle Demo.cluster) c ∧ ¬ c.state.Exclusive := by
  refine ⟨by decide, by decide, ?_⟩
  exact (player_sound_exclusive Demo.reconciler "main").exists_reach (.none _ _)
    (Demo.switchToB ++ [.edit (.request "c"), .run () 1, .stop (), .start (), .run () 20]) _ _
    (by decide)

end LlmOperator.Controller
