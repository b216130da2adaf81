import LlmOperator.Controller.Cluster
import LlmOperator.Controller.RuntimeView

/-!
# A stable status means a serving Deployment

When phase `Stable` is written for a model, the Deployment of that model should have one
replica and run the model. The long way to `Stable` patches the Deployment itself; the fast
path of `Reconcile` trusts the status and `deploymentMatchesModel`, which does not look at the
number of replicas.

`stable_without_replicas` is a run in which the fast path is wrong: a switch from `a` to `b` has
scaled `a` down when the request is taken back. `stable_means_serving` gives conditions under
which every write of `Stable` is right: a published and still matching Deployment has its replica
when a reconcile starts, and while the reconcile is under way the others change neither the spec
of the requested model nor the operator's part of its Deployment.
-/

namespace LlmOperator.Controller

open Api Data Backend Interaction Interaction.Prog

variable {d : Deployment}

namespace Cluster

section

variable (s : Cluster) (modelName : String)

/-- The model of that name, its backend and its Deployment. -/
def served : Option (LLMModel × LLMBackend × Deployment) :=
  (modelNamed s.models modelName).bind fun m =>
    (backendFor s.backends m).bind fun b =>
      (s.deployment (backendDeploymentName b)).map fun d => (m, b, d)

/-- The Deployment of the model has one replica and runs the model. -/
def Serving : Prop :=
  ∃ x ∈ s.served modelName,
    x.2.2.spec.replicas = some 1 ∧ runs x.1 (backendContainerName x.2.1) x.2.2.spec = true

instance (s : Cluster) (modelName : String) : Decidable (s.Serving modelName) :=
  inferInstanceAs (Decidable (∃ _ ∈ _, _))

def modelSpec : Option LLMModelSpec :=
  (modelNamed s.models modelName).map (·.spec)

/-- The operator's part of the Deployment of that model. -/
def operatorPart : Option RuntimeView :=
  (s.served modelName).map fun x => runtimeView (backendContainerName x.2.1) x.2.2.spec

/-- If the requested model is the published one and its Deployment runs it, then the
Deployment has its replica. -/
def Replicated (am : LLMActiveModel) : Prop :=
  am.status.modelName = am.spec.modelName → ∀ x ∈ s.served am.spec.modelName,
    runs x.1 (backendContainerName x.2.1) x.2.2.spec = true → x.2.2.spec.replicas = some 1

end

instance (s : Cluster) (am : LLMActiveModel) : Decidable (s.Replicated am) :=
  inferInstanceAs (Decidable (_ → ∀ _ ∈ _, _))

variable {s s' : Cluster} {modelName : String}

theorem served_eq_some_iff {m : LLMModel} {b : LLMBackend} :
    s.served modelName = some (m, b, d) ↔ modelNamed s.models modelName = some m ∧
      backendFor s.backends m = some b ∧ s.deployment (backendDeploymentName b) = some d := by
  unfold served
  rw [Option.bind_eq_some_iff]
  constructor
  · rintro ⟨m', hm, h⟩
    obtain ⟨b', hb, h⟩ := Option.bind_eq_some_iff.mp h
    obtain ⟨d', hd, h⟩ := Option.map_eq_some_iff.mp h
    cases h
    exact ⟨hm, hb, hd⟩
  · rintro ⟨hm, hb, hd⟩
    refine ⟨m, hm, ?_⟩
    rw [hb, Option.bind_some, hd, Option.map_some]

theorem backendFor_congr {m m' : LLMModel} (h : m.spec = m'.spec) (backends : List LLMBackend) :
    backendFor backends m = backendFor backends m' := by
  unfold backendFor
  rw [h]

theorem runs_congr_spec {m m' : LLMModel} (h : m.spec = m'.spec) :
    runs m = runs m' := by
  funext containerName spec
  unfold runs
  rw [templateMatches_congr h]

/-- Serving is a matter of the spec of the model and of the operator's part. -/
theorem Serving.congr (h : s.Serving modelName) (hbackends : s'.backends = s.backends)
    (hspec : s'.modelSpec modelName = s.modelSpec modelName)
    (hpart : s'.operatorPart modelName = s.operatorPart modelName) : s'.Serving modelName := by
  obtain ⟨⟨m, b, d⟩, hserved, hreplicas, hruns⟩ := h
  obtain ⟨hm, hb, hd⟩ := served_eq_some_iff.mp hserved
  unfold operatorPart at hpart
  rw [hserved, Option.map_some] at hpart
  obtain ⟨⟨m', b', d'⟩, hserved', hview⟩ := Option.map_eq_some_iff.mp hpart
  obtain ⟨hm', hb', hd'⟩ := served_eq_some_iff.mp hserved'
  unfold modelSpec at hspec
  rw [hm, hm', Option.map_some, Option.map_some, Option.some.injEq] at hspec
  rw [hbackends, backendFor_congr hspec, hb, Option.some.injEq] at hb'
  subst hb'
  refine ⟨_, hserved', ?_, ?_⟩
  · exact (runtimeView_eq_iff.mp hview).1.trans hreplicas
  · rw [runs_congr_spec hspec]
    exact (runs_congr m hview).trans hruns

/-- The backend of the model of that name. -/
def backendOf (s : Cluster) (modelName : String) : Option LLMBackend :=
  (modelNamed s.models modelName).bind (backendFor s.backends)

theorem backendOf_congr (hbackends : s'.backends = s.backends)
    (hspec : s'.modelSpec modelName = s.modelSpec modelName) :
    s'.backendOf modelName = s.backendOf modelName := by
  unfold modelSpec at hspec
  unfold backendOf
  rw [hbackends]
  cases hm : modelNamed s.models modelName with
  | none =>
    rw [hm, Option.map_none, Option.map_eq_none_iff] at hspec
    rw [hspec]
  | some m =>
    rw [hm, Option.map_some, Option.map_eq_some_iff] at hspec
    obtain ⟨m', hm', heq⟩ := hspec
    rw [hm', Option.bind_some, Option.bind_some, backendFor_congr heq]

/-- The three parts of `served`, with the model known by its spec. -/
theorem exists_served {spec : LLMModelSpec} {b : LLMBackend}
    (hspec : s.modelSpec modelName = some spec) (hb : s.backendOf modelName = some b)
    (hd : s.deployment (backendDeploymentName b) = some d) :
    ∃ m, s.served modelName = some (m, b, d) ∧ m.spec = spec := by
  obtain ⟨m, hm, hms⟩ := Option.map_eq_some_iff.mp hspec
  unfold backendOf at hb
  rw [hm, Option.bind_some] at hb
  exact ⟨m, served_eq_some_iff.mpr ⟨hm, hb, hd⟩, hms⟩

/-! ### What leaves the operator's part alone -/

theorem modelSpec_putModelStatus (s : Cluster) (obj : LLMModel) (version : Nat)
    (modelName : String) :
    (s.putModelStatus obj version).modelSpec modelName = s.modelSpec modelName := by
  unfold modelSpec
  rw [modelNamed_putModelStatus, Option.map_map]
  congr 1
  funext m
  simp only [Function.comp_apply]
  split <;> rfl

/-- The operator's part through the backend of the model. -/
theorem operatorPart_eq (s : Cluster) (modelName : String) :
    s.operatorPart modelName = (s.backendOf modelName).bind fun b =>
      (s.deployment (backendDeploymentName b)).map fun d =>
        runtimeView (backendContainerName b) d.spec := by
  unfold operatorPart served backendOf
  cases modelNamed s.models modelName with
  | none => rfl
  | some m =>
    simp only [Option.bind_some]
    cases backendFor s.backends m with
    | none => rfl
    | some b =>
      simp only [Option.bind_some, Option.map_map]
      rfl

theorem operatorPart_congr (hbackend : s'.backendOf modelName = s.backendOf modelName)
    (hdeployment : ∀ b, s.backendOf modelName = some b →
      s'.deployment (backendDeploymentName b) = s.deployment (backendDeploymentName b)) :
    s'.operatorPart modelName = s.operatorPart modelName := by
  rw [operatorPart_eq, operatorPart_eq, hbackend]
  cases hb : s.backendOf modelName with
  | none => rfl
  | some b => rw [Option.bind_some, Option.bind_some, hdeployment b hb]

end Cluster

/-! ## Conditions on a run -/

/-- The others request models, edit models, and write Deployments, their statuses among
them. -/
def servingEnv (s s' : Cluster) : Prop :=
  s.Requested s' ∨ s.ModelsEdited s' ∨ s.DeploymentsWritten s'

/-- The condition on the read a reconcile starts with. -/
def StartsReplicated (s : Cluster) (t : List (Event Kube)) (e : Event Kube) : Prop :=
  (activeRead e).isSome = true → t = [] → s.Replicated s.active.current

def servingConditions : Conditions Kube Cluster where
  env s t s' := ∀ am ∈ firstRead t,
    s'.modelSpec am.spec.modelName = s.modelSpec am.spec.modelName ∧
      s'.operatorPart am.spec.modelName = s.operatorPart am.spec.modelName
  call := StartsReplicated

instance (s : Cluster) (t : List (Event Kube)) (s' : Cluster) :
    Decidable (servingConditions.env s t s') :=
  inferInstanceAs (Decidable (∀ _ ∈ _, _))

instance (s : Cluster) (t : List (Event Kube)) (e : Event Kube) :
    Decidable (servingConditions.call s t e) :=
  inferInstanceAs (Decidable (_ → _))

/-! ## The world of a reconcile -/

/-- What the others leave alone while a reconcile is under way. -/
structure PartUndisturbed (x y : Cluster × List (Event Kube)) : Prop where
  trace : y.2 = x.2
  backends : y.1.backends = x.1.backends
  part : ∀ am ∈ firstRead x.2,
    y.1.modelSpec am.spec.modelName = x.1.modelSpec am.spec.modelName ∧
      y.1.operatorPart am.spec.modelName = x.1.operatorPart am.spec.modelName

def servingWorld : World Kube (Cluster × List (Event Kube)) where
  exec x c a y := x.1.Exec c a y.1 ∧ y.2 = x.2 ++ [⟨c, a⟩] ∧
    servingConditions.call x.1 x.2 ⟨c, a⟩
  rely := PartUndisturbed
  guar x c _ _ := ∀ obj, c = .updateActiveStatus obj → obj.status.phase = .stable →
    x.1.Serving obj.status.modelName
  rely_refl x := ⟨rfl, rfl, fun _ _ => ⟨rfl, rfl⟩⟩
  rely_trans := by
    intro x y z h h'
    refine ⟨h'.trace.trans h.trace, h'.backends.trans h.backends, ?_⟩
    intro am ham
    have hz := h'.part am (by rw [h.trace]; exact ham)
    have hy := h.part am ham
    exact ⟨hz.1.trans hy.1, hz.2.trans hy.2⟩

theorem onCluster_servingWorld : OnCluster servingWorld := fun _ _ _ _ h => h.1

/-- The assertion carried through a reconcile that began in `s₀`: the requested model has the
spec it had there, and the operator's part of its Deployment is `v`. -/
structure Watching (s₀ : Cluster) (v : Option RuntimeView) (x : Cluster × List (Event Kube)) :
    Prop where
  first : firstRead x.2 = some s₀.active.current
  backends : x.1.backends = s₀.backends
  spec : x.1.modelSpec s₀.active.current.spec.modelName =
    s₀.modelSpec s₀.active.current.spec.modelName
  part : x.1.operatorPart s₀.active.current.spec.modelName = v

section Walk

variable {r : LLMActiveModelReconciler} {s₀ : Cluster} {v : Option RuntimeView} {settled : Prop}
  {am : LLMActiveModel} {model : LLMModel} {backend : LLMBackend}
  {x y : Cluster × List (Event Kube)} {α : Type}

theorem Watching.backendOf (h : Watching s₀ v x) :
    x.1.backendOf s₀.active.current.spec.modelName =
      s₀.backendOf s₀.active.current.spec.modelName :=
  Cluster.backendOf_congr h.backends h.spec

theorem Watching.update (h : Watching s₀ v x) (ht : ∃ u, y.2 = x.2 ++ u)
    (hbackends : y.1.backends = x.1.backends)
    (hpart : ∀ am ∈ firstRead x.2,
      y.1.modelSpec am.spec.modelName = x.1.modelSpec am.spec.modelName ∧
        y.1.operatorPart am.spec.modelName = x.1.operatorPart am.spec.modelName) :
    Watching s₀ v y := by
  obtain ⟨u, hu⟩ := ht
  obtain ⟨hspec, hpart⟩ := hpart _ h.first
  refine ⟨?_, hbackends.trans h.backends, hspec.trans h.spec, hpart.trans h.part⟩
  rw [hu]
  exact firstRead_append h.first u

theorem Watching.rely (h : Watching s₀ v x) (hs : servingWorld.rely x y) : Watching s₀ v y :=
  h.update ⟨[], by rw [List.append_nil]; exact hs.trace⟩ hs.backends hs.part

/-- Calls that leave the Deployment of the requested model alone, and say `Stable` only for
that model and when it is settled that it is served. -/
def Discreet (s₀ : Cluster) (settled : Prop) : Call → Prop
  | .patchDeployment _ _ => False
  | .scaleDeployment name _ => ∀ b, s₀.backendOf s₀.active.current.spec.modelName = some b →
      name ≠ backendDeploymentName b
  | .updateActiveStatus obj => obj.status.phase = .stable →
      settled ∧ obj.status.modelName = s₀.active.current.spec.modelName
  | _ => True

theorem discreet_of_isRead {c : Call} (h : c.IsRead) : Discreet s₀ settled c := by
  cases c <;> first | exact Bool.noConfusion h | trivial

theorem tolerates_discreet (s₀ : Cluster) (settled : Prop) (am : LLMActiveModel) :
    Tolerates (Discreet s₀ settled) am where
  read _ hc := discreet_of_isRead hc
  failed _ _ h := nomatch h

/-- A Deployment other than that of the requested model is scaled. -/
theorem Watching.patched_of_ne {name : String} {p : DeploymentPatch} (h : Watching s₀ v x)
    (hname : ∀ b, s₀.backendOf s₀.active.current.spec.modelName = some b →
      name ≠ backendDeploymentName b)
    (ht : ∃ u, y.2 = x.2 ++ u) (hy : y.1 = x.1.patched name p) : Watching s₀ v y := by
  have hback : y.1.backends = x.1.backends := by rw [hy]; rfl
  have hspec : ∀ modelName, y.1.modelSpec modelName = x.1.modelSpec modelName := by
    intro modelName
    rw [hy]
    rfl
  refine h.update ht hback ?_
  intro am ham
  cases h.first.symm.trans ham
  refine ⟨hspec _, Cluster.operatorPart_congr (Cluster.backendOf_congr hback (hspec _)) ?_⟩
  intro b hb
  rw [h.backendOf] at hb
  rw [hy]
  exact Cluster.deployment_patched_of_ne _ _ (hname b hb).symm

theorem Watching.call {c : Call} {a : c.Answer} (hc : Discreet s₀ settled c) (h : Watching s₀ v x)
    (hexec : servingWorld.exec x c a y) : Watching s₀ v y := by
  obtain ⟨hexec, ht, -⟩ := hexec
  have hsame : y.1 = x.1 → Watching s₀ v y := by
    intro heq
    refine h.update ⟨_, ht⟩ ?_ ?_ <;> rw [heq]
    exact fun _ _ => ⟨rfl, rfl⟩
  by_cases hread : c.IsRead
  · exact hsame (hexec.of_isRead hread)
  · cases c with
    | patchDeployment => exact hc.elim
    | scaleDeployment name replicas =>
      have hscaled := h.patched_of_ne (p := .scale replicas) hc ⟨_, ht⟩
      cases a with
      | ok _ => exact hscaled hexec.2
      | error e =>
        rcases hexec with heq | heq
        · exact hsame heq
        · exact hscaled heq
    | cacheEnsure => exact hsame hexec
    | updateActiveStatus obj =>
      obtain ⟨active, -, hy⟩ := hexec
      refine h.update ⟨_, ht⟩ ?_ ?_ <;> rw [hy]
      exact fun _ _ => ⟨rfl, rfl⟩
    | updateModelStatus obj =>
      have hput : ∀ version, y.1 = x.1.putModelStatus obj version → Watching s₀ v y := by
        intro version hy
        have hback : y.1.backends = x.1.backends := by rw [hy]; rfl
        have hspec : ∀ modelName, y.1.modelSpec modelName = x.1.modelSpec modelName := by
          intro modelName
          rw [hy, Cluster.modelSpec_putModelStatus]
        refine h.update ⟨_, ht⟩ hback fun am _ => ⟨hspec _, ?_⟩
        refine Cluster.operatorPart_congr (Cluster.backendOf_congr hback (hspec _)) fun b _ => ?_
        rw [hy]
        rfl
      cases a with
      | ok version => exact hput version hexec.2
      | error e =>
        rcases hexec with heq | ⟨-, version, hy⟩
        · exact hsame heq
        · exact hput version hy
    | _ => exact absurd rfl hread

/-- Once it is settled that the model is served, `Stable` may be written. -/
theorem Watching.keeps (hsettled : settled → ∀ x, Watching s₀ v x →
      x.1.Serving s₀.active.current.spec.modelName) :
    servingWorld.Keeps (Discreet s₀ settled) (Watching s₀ v) where
  rely _ _ h hs := h.rely hs
  call x c a y hc h hexec := by
    refine ⟨?_, h.call hc hexec⟩
    rintro obj rfl hstable
    obtain ⟨hset, hname⟩ := hc hstable
    rw [hname]
    exact hsettled hset x h

theorem Watching.keeps_unsettled (s₀ : Cluster) (v : Option RuntimeView) :
    servingWorld.Keeps (Discreet s₀ False) (Watching s₀ v) :=
  Watching.keeps fun h => h.elim

/-- Nothing needs to be known to give up. -/
theorem keeps_unstable (s₀ : Cluster) :
    servingWorld.Keeps (Discreet s₀ False) fun _ => True where
  rely _ _ _ _ := trivial
  call x c a y hc _ _ := by
    refine ⟨?_, trivial⟩
    rintro obj rfl hstable
    exact (hc hstable).1.elim

theorem safe_failTransition_serving (s₀ : Cluster) (modelName reason metricReason : String)
    (cause : Err) :
    Safe servingWorld (failTransition am modelName reason metricReason cause)
      (fun _ _ => True) x :=
  (keeps_unstable s₀).safe_only ((tolerates_discreet s₀ False am).only_failTransition _ _ _ _)
    trivial

/-! ### The fast path -/

/-- The Deployment that was read is the one the assertion speaks of. -/
theorem Watching.part_eq (h : Watching s₀ v x)
    (hbackend : s₀.backendOf s₀.active.current.spec.modelName = some backend)
    (hd : x.1.deployment (backendDeploymentName backend) = some d) :
    v = some (runtimeView (backendContainerName backend) d.spec) := by
  rw [← h.part, Cluster.operatorPart_eq, h.backendOf, hbackend, Option.bind_some, hd,
    Option.map_some]

section

variable (h : Watching s₀ (s₀.operatorPart s₀.active.current.spec.modelName) x)
  (hspec : s₀.modelSpec s₀.active.current.spec.modelName = some model.spec)
  (hbackend : s₀.backendOf s₀.active.current.spec.modelName = some backend)
include h hspec hbackend

/-- A Deployment that matches when it is read was serving when the reconcile began. -/
theorem Watching.serving_of_runs (hd : x.1.deployment (backendDeploymentName backend) = some d)
    (hreplicated : ∀ z ∈ s₀.served s₀.active.current.spec.modelName,
      runs z.1 (backendContainerName z.2.1) z.2.2.spec = true → z.2.2.spec.replicas = some 1)
    (hruns : runs model (backendContainerName backend) d.spec = true) :
    s₀.Serving s₀.active.current.spec.modelName := by
  have hpart := h.part_eq hbackend hd
  rw [Cluster.operatorPart_eq, hbackend, Option.bind_some, Option.map_eq_some_iff] at hpart
  obtain ⟨d₀, hd₀, hview⟩ := hpart
  obtain ⟨m₀, hserved, hm₀⟩ := Cluster.exists_served hspec hbackend hd₀
  have hruns₀ : runs m₀ (backendContainerName backend) d₀.spec = true := by
    rw [Cluster.runs_congr_spec hm₀, runs_congr model hview]
    exact hruns
  exact ⟨_, hserved, hreplicated _ hserved hruns₀, hruns₀⟩

theorem Watching.safe_deploymentMatchesModel
    (hreplicated : ∀ z ∈ s₀.served s₀.active.current.spec.modelName,
      runs z.1 (backendContainerName z.2.1) z.2.2.spec = true → z.2.2.spec.replicas = some 1) :
    Safe servingWorld (deploymentMatchesModel model backend) (fun res y => ∀ isMatch,
      res = .ok isMatch →
        Watching s₀ (s₀.operatorPart s₀.active.current.spec.modelName) y ∧
          (isMatch = true → s₀.Serving s₀.active.current.spec.modelName)) x := by
  refine (Watching.keeps_unsettled s₀ _).safe_call (Call.getDeployment _)
    (discreet_of_isRead rfl) h ?_
  intro x₁ a y _ h₁ hexec hy
  cases a with
  | error e => exact fun isMatch h => nomatch h
  | ok d =>
    have hd := hexec.1.1
    dsimp only [Prog.bind]
    cases hc : findContainer (backendContainerName backend) d.spec.template.spec.containers with
    | none => exact fun isMatch h => nomatch h
    | some c =>
      intro isMatch hmatch
      cases hmatch
      refine ⟨hy, fun hruns => ?_⟩
      rw [← runs_of_findContainer hc] at hruns
      exact h₁.serving_of_runs hspec hbackend hd hreplicated hruns

end

/-- What was served at the beginning is served as long as nothing has changed. -/
theorem Watching.serving_of_initial (hserving : s₀.Serving s₀.active.current.spec.modelName)
    (h : Watching s₀ (s₀.operatorPart s₀.active.current.spec.modelName) x) :
    x.1.Serving s₀.active.current.spec.modelName :=
  hserving.congr h.backends h.spec h.part

theorem Watching.stays_stableFastPath
    (h : Watching s₀ (s₀.operatorPart s₀.active.current.spec.modelName) x)
    (hspec : s₀.modelSpec s₀.active.current.spec.modelName = some model.spec)
    (hbackend : s₀.backendOf s₀.active.current.spec.modelName = some backend)
    (hreplicated : s₀.Replicated s₀.active.current) :
    Safe servingWorld (stableFastPath (observe s₀.active.current) model backend).prog
      (Safe.Stays fun _ y =>
        Watching s₀ (s₀.operatorPart s₀.active.current.spec.modelName) y) x := by
  unfold stableFastPath
  split
  · rename_i hname
    refine Safe.stays_bind (stays_orError (h.safe_deploymentMatchesModel hspec hbackend
      (hreplicated hname.1))) ?_
    rintro isMatch y ⟨hy, hserving⟩
    refine Safe.stays_bind (Q := fun _ z =>
      Watching s₀ (s₀.operatorPart s₀.active.current.spec.modelName) z) (stays_leaveIf ?_ ?_) ?_
    · intro hwrite
      rw [Bool.and_eq_true] at hwrite
      have hkeeps : servingWorld.Keeps (Discreet s₀ True)
          (Watching s₀ (s₀.operatorPart s₀.active.current.spec.modelName)) :=
        Watching.keeps fun _ z hz => hz.serving_of_initial (hserving hwrite.1)
      exact hkeeps.safe_only (only_writeActiveThen fun _ => ⟨trivial, hname.1⟩) hy
    · exact fun _ => hy
    · intro _ z hz
      exact stays_leaveIf (fun _ => trivial) fun _ => hz
  · exact h

/-! ### The transition -/

/-- The operator's part of an activated Deployment settles that the model is served. -/
theorem Watching.serving_of_activated {switchedAt : String} {c : Container}
    (hspec : s₀.modelSpec s₀.active.current.spec.modelName = some model.spec)
    (hbackend : s₀.backendOf s₀.active.current.spec.modelName = some backend)
    (hc : findContainer (backendContainerName backend) d.spec.template.spec.containers = some c)
    (h : Watching s₀ (some (runtimeView (backendContainerName backend)
      (activated model switchedAt d c).spec)) x) :
    x.1.Serving s₀.active.current.spec.modelName := by
  have hpart := h.part
  rw [Cluster.operatorPart_eq, h.backendOf, hbackend, Option.bind_some,
    Option.map_eq_some_iff] at hpart
  obtain ⟨d', hd', hview⟩ := hpart
  obtain ⟨m, hserved, hm⟩ :=
    Cluster.exists_served (h.spec.trans hspec) (h.backendOf.trans hbackend) hd'
  refine ⟨_, hserved, (runtimeView_eq_iff.mp hview).1, ?_⟩
  rw [Cluster.runs_congr_spec hm, runs_congr model hview]
  exact runs_activated hc

/-- The patch of the target, made from a Deployment with the operator's part it still has. -/
theorem Watching.patched {base next : Deployment} (h : Watching s₀ v x)
    (hbackend : s₀.backendOf s₀.active.current.spec.modelName = some backend)
    (hname : base.name = backendDeploymentName backend)
    (hv : v = some (runtimeView (backendContainerName backend) base.spec))
    (ht : ∃ u, y.2 = x.2 ++ u) (hy : y.1 = x.1.patched base.name (.diff base next)) :
    Watching s₀ (some (runtimeView (backendContainerName backend) next.spec)) y := by
  have hpart := h.part
  rw [Cluster.operatorPart_eq, h.backendOf, hbackend, Option.bind_some, hv,
    Option.map_eq_some_iff] at hpart
  obtain ⟨d, hd, hview⟩ := hpart
  obtain ⟨u, hu⟩ := ht
  have hback : y.1.backendOf s₀.active.current.spec.modelName = some backend := by
    rw [hy]
    exact h.backendOf.trans hbackend
  refine ⟨?_, ?_, ?_, ?_⟩
  · rw [hu]
    exact firstRead_append h.first u
  · rw [hy]
    exact h.backends
  · rw [hy]
    exact h.spec
  · rw [Cluster.operatorPart_eq, hback, Option.bind_some, hy, ← hname,
      Cluster.deployment_patched_self, hname, hd, Option.map_some, Option.map_some,
      DeploymentPatch.apply_spec, runtimeView_applySpec_diff hview]

/-- After a successful step 3 it is settled that the model is served. -/
theorem Watching.safe_activateDeployment (h : Watching s₀ v x)
    (hspec : s₀.modelSpec s₀.active.current.spec.modelName = some model.spec)
    (hbackend : s₀.backendOf s₀.active.current.spec.modelName = some backend) :
    Safe servingWorld (activateDeployment r model backend) (fun res y => res = .ok () →
      ∃ v', Watching s₀ v' y ∧
        ∀ z, Watching s₀ v' z → z.1.Serving s₀.active.current.spec.modelName) x := by
  refine (Watching.keeps_unsettled s₀ v).safe_call (Call.getDeployment _)
    (discreet_of_isRead rfl) h ?_
  intro x₁ a y _ h₁ hexec hy
  cases a with
  | error e => exact fun h => nomatch h
  | ok d =>
    have hd := hexec.1.1
    have hname : d.name = backendDeploymentName backend := Cluster.deployment_name hd
    have hv := h₁.part_eq hbackend hd
    dsimp only [Prog.bind]
    cases hc : findContainer (backendContainerName backend) d.spec.template.spec.containers with
    | none => exact fun h => nomatch h
    | some c =>
      refine Safe.bind (((Watching.keeps_unsettled s₀ v).safe ((readOnly_switchTime r _).mono
        (fun _ => discreet_of_isRead) fun _ _ => trivial) hy).mono ?_)
      rintro switchedAt y ⟨-, hy⟩
      show Safe servingWorld
        (if d.spec = (activated model switchedAt d c).spec then _ else _) _ y
      split
      · rename_i heq
        rw [heq] at hv
        subst hv
        exact fun _ => ⟨_, hy, fun z hz => hz.serving_of_activated hspec hbackend hc⟩
      · intro x₃ hx₃ a x₄ hexec
        obtain ⟨hstate, htrace, -⟩ := hexec
        refine ⟨fun obj h => (nomatch h), ?_⟩
        cases a with
        | error e => exact fun h => nomatch h
        | ok _ =>
          intro _
          exact ⟨_, (hy.rely hx₃).patched hbackend hname hv ⟨_, htrace⟩ hstate.2,
            fun z hz => hz.serving_of_activated hspec hbackend hc⟩

theorem Watching.stays_driveTransition {deadline : Deadline} (h : Watching s₀ v x)
    (hmodel : model.spec.model.name = s₀.active.current.spec.modelName)
    (hspec : s₀.modelSpec s₀.active.current.spec.modelName = some model.spec)
    (hbackend : s₀.backendOf s₀.active.current.spec.modelName = some backend) :
    Safe servingWorld (driveTransition r am model backend deadline).prog
      (Safe.Stays fun _ _ => True) x := by
  have hP := tolerates_discreet s₀ False am
  have hJ := Watching.keeps_unsettled s₀ v
  refine Safe.stays_bind (hJ.stays hP.yields_guardCurrent h) ?_
  rintro _ y ⟨-, h⟩
  refine Safe.stays_bind (hJ.stays (hP.yields_validateTarget r) h) ?_
  rintro driver y ⟨-, h⟩
  refine Safe.stays_bind (hJ.stays hP.yields_resolvePrevious h) ?_
  rintro previous y ⟨-, h⟩
  refine Safe.stays_bind (hJ.stays (hP.yields_scaleDownPrevious backend ?_ previous deadline) h) ?_
  · intro name hne b hb
    cases hbackend.symm.trans hb
    exact hne
  rintro polls y ⟨-, h⟩
  refine Safe.stays_bind (hJ.stays hP.yields_guardCurrent h) ?_
  rintro _ y ⟨-, h⟩
  refine Safe.stays_bind (hJ.stays (hP.yields_ensureCached r backend driver (fun _ => trivial)
    fun _ _ => trivial) h) ?_
  rintro cached y ⟨⟨-, hcached⟩, h⟩
  rw [← hcached] at hspec hmodel
  refine Safe.stays_bind (hJ.stays hP.yields_guardCurrent h) ?_
  rintro _ y ⟨-, h⟩
  refine Safe.stays_bind (Q := fun _ y => ∃ v', Watching s₀ v' y ∧
    ∀ z, Watching s₀ v' z → z.1.Serving s₀.active.current.spec.modelName) ?_ ?_
  · refine stays_orLeave ((h.safe_activateDeployment hspec hbackend).mono ?_)
    intro res z hz
    cases res with
    | ok _ => exact hz rfl
    | error e => exact safe_failTransition_serving s₀ _ _ _ _
  rintro _ y ⟨v', h, hserving⟩
  have hP := tolerates_discreet s₀ True am
  have hJ : servingWorld.Keeps (Discreet s₀ True) (Watching s₀ v') :=
    Watching.keeps fun _ => hserving
  refine Safe.stays_bind (hJ.stays hP.yields_guardCurrent h) ?_
  rintro _ y ⟨-, h⟩
  refine Safe.stays_bind (hJ.stays (hP.yields_awaitServing backend _) h) ?_
  rintro runtimeMeta y ⟨-, h⟩
  refine (hJ.stays (hP.yields_publish runtimeMeta trivial (fun _ _ _ => trivial) ?_) h).stays_mono
    fun _ _ _ => trivial
  intro m duration hm _
  refine ⟨trivial, ?_⟩
  show m.spec.model.name = _
  rw [hm, hmodel]

/-! ### The whole reconcile -/

theorem safe_getActive_serving (ht : x.2 = []) (name : String) :
    Safe servingWorld (getActive name) (fun res y => ∀ stored, res = .ok stored →
      ∃ s₀ : Cluster, s₀.active.current = stored ∧ s₀.Replicated s₀.active.current ∧
        Watching s₀ (s₀.operatorPart s₀.active.current.spec.modelName) y) x := by
  intro x₁ hx₁ a x₂ hexec
  obtain ⟨hstate, htrace, hreplicated⟩ := hexec
  have htrace₁ : x₁.2 = [] := hx₁.trace.trans ht
  refine ⟨fun obj h => (nomatch h), ?_⟩
  rintro stored rfl
  obtain ⟨rfl, -, hsame⟩ := hstate
  refine ⟨x₁.1, rfl, hreplicated rfl htrace₁, ?_, ?_, ?_, ?_⟩
  · rw [htrace, htrace₁]
    rfl
  · rw [hsame]
  · rw [hsame]
  · rw [hsame]

theorem safe_reconcile_serving (r : LLMActiveModelReconciler) (name : String) (s : Cluster) :
    Safe servingWorld (reconcile r name) (fun _ _ => True) (s, []) := by
  refine Safe.exit_of_stays ?_
  refine Safe.stays_bind (stays_orLeave_pure (safe_getActive_serving rfl name)) ?_
  rintro stored y ⟨s₀, rfl, hreplicated, h⟩
  have hP := tolerates_discreet s₀ False (observe s₀.active.current)
  have hJ := Watching.keeps_unsettled s₀ (s₀.operatorPart s₀.active.current.spec.modelName)
  refine Safe.stays_bind (hJ.stays
    (hP.yields_orLeave readOnly_singletonOwner fun _ => trivial) h) ?_
  rintro owner y ⟨-, h⟩
  refine Safe.stays_bind (hJ.stays (yields_leaveIf (only_writeActiveThen (hP.failed _ _))) h) ?_
  rintro _ y ⟨-, h⟩
  refine Safe.stays_bind (Q := fun model y =>
    Watching s₀ (s₀.operatorPart s₀.active.current.spec.modelName) y ∧
      model.spec.model.name = s₀.active.current.spec.modelName ∧
      s₀.modelSpec s₀.active.current.spec.modelName = some model.spec) ?_ ?_
  · refine stays_orLeave ((onCluster_servingWorld.safe_findModel hJ (discreet_of_isRead rfl) h
      s₀.active.current.spec.modelName).mono ?_)
    rintro res y ⟨hy, x₁, a, -, -, hres⟩
    cases res with
    | error e => exact hJ.safe_only (only_writeActiveIgnoring (hP.failed _ _)) hy
    | ok model =>
      refine ⟨hy, modelNamed_name hres, ?_⟩
      rw [← hy.spec, Cluster.modelSpec, hres, Option.map_some]
  rintro model y ⟨h, hmodel, hspec⟩
  refine Safe.stays_bind (Q := fun backend y =>
    Watching s₀ (s₀.operatorPart s₀.active.current.spec.modelName) y ∧
      s₀.backendOf s₀.active.current.spec.modelName = some backend) ?_ ?_
  · refine stays_orLeave ((onCluster_servingWorld.safe_findBackendOf hJ
      (fun _ => discreet_of_isRead) (fun _ h => h.backends) h model).mono ?_)
    rintro res y ⟨hy, hres⟩
    cases res with
    | error e => exact hJ.safe_only (only_writeActiveIgnoring (hP.failed _ _)) hy
    | ok backend =>
      refine ⟨hy, ?_⟩
      obtain ⟨m, hm, heq⟩ := Option.map_eq_some_iff.mp hspec
      rw [Cluster.backendOf, hm, Option.bind_some, Cluster.backendFor_congr heq]
      exact hres backend rfl
  rintro backend y ⟨h, hbackend⟩
  refine Safe.stays_bind (h.stays_stableFastPath hspec hbackend hreplicated) ?_
  intro _ y h
  refine Safe.stays_bind (hJ.stays (hP.yields_transitionGates r fun _ _ _ h => nomatch h) h) ?_
  rintro _ y ⟨-, h⟩
  refine Safe.stays_bind (hJ.stays (p := liftM withTimeout) (Q := fun _ => True)
    ⟨trivial, fun _ => trivial⟩ h) ?_
  rintro deadline y ⟨-, h⟩
  refine Safe.stays_bind (hJ.stays (hP.yields_beginTransition fun _ h => nomatch h) h) ?_
  rintro am y ⟨-, h⟩
  exact h.stays_driveTransition hmodel hspec hbackend

end Walk

/-! ## Runs -/

theorem clusterSystem_fits_serving (r : LLMActiveModelReconciler) (name : String) :
    (clusterSystem r name servingEnv).Fits servingConditions servingWorld fun _ => True where
  env s s' _ henv := by
    refine ⟨?_, trivial⟩
    have hbackends : s'.backends = s.backends := by
      rcases henv with ⟨_, -, rfl⟩ | ⟨_, rfl⟩ | ⟨_, rfl⟩ <;> rfl
    exact fun t ht => ⟨rfl, hbackends, ht⟩
  call _ _ _ _ _ _ h hc := ⟨h, rfl, hc⟩
  others i i' hi := absurd rfl hi
  guar _ _ _ _ _ _ _ _ := trivial
  start _ s _ := safe_reconcile_serving r name s

theorem player_sound_serving (r : LLMActiveModelReconciler) (name : String) :
    Cluster.player.Sound (clusterSystem r name servingEnv) where
  edit e s := by
    cases e with
    | request modelName => exact Or.inl (s.requested_edit modelName)
    | models models => exact Or.inr (Or.inl ⟨models, rfl⟩)
    | settle => exact Or.inr (Or.inr ⟨_, rfl⟩)
  answer s c := s.exec_answer c

/-- Some reconcile is about to write `Stable` for a model, of which `Q` holds. -/
def AboutToPublish (Q : Cluster → String → Prop) (c : Config Kube Cluster Unit Outcome) : Prop :=
  ∃ obj ∈ (c.job ()).bind pendingStatus, obj.status.phase = .stable ∧ Q c.state obj.status.modelName

instance (Q : Cluster → String → Prop) [∀ s n, Decidable (Q s n)]
    (c : Config Kube Cluster Unit Outcome) : Decidable (AboutToPublish Q c) :=
  inferInstanceAs (Decidable (∃ _ ∈ _, _))

end LlmOperator.Controller
