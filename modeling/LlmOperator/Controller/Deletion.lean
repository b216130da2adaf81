import LlmOperator.Controller.BackendReconcile
import LlmOperator.Controller.Cluster

/-!
# Deleting a backend

A workload-mode backend keeps its finalizer while a model is served by it, so that its
Deployment is not collected under the traffic. `backendIsActive` looks for models that refer to
the backend by name. The transition code also lets a model without a reference use the first
backend of its runtime, and such a model protects nothing: `finalizer_protected_iff` says when
the finalizer is removed too early.
-/

namespace LlmOperator.Controller

open Api Backend Interaction

/-! ## Which backend a model uses -/

/-- The answers the transition code gets in a namespace with these backends, in the order in
which they are listed. -/
def ListsBackends (backends : List LLMBackend) : Event Kube → Prop
  | ⟨.getBackend name, .ok b⟩ => b ∈ backends ∧ b.name = name
  | ⟨.listBackends, .ok items⟩ => items = backends
  | _ => True

/-- `findBackend` may give `b` for the model. -/
def ResolvesTo (backends : List LLMBackend) (model : LLMModel) (b : LLMBackend) : Prop :=
  ∃ t, (findBackendOf model).Runs t (.ok b) ∧ ∀ e ∈ t, ListsBackends backends e

theorem resolvesTo_ref {backends : List LLMBackend} {model : LLMModel} {b : LLMBackend}
    {ref : String} (href : model.spec.backendRef = some ref) :
    ResolvesTo backends model b ↔ b ∈ backends ∧ b.name = ref := by
  unfold ResolvesTo findBackendOf
  rw [href]
  constructor
  · rintro ⟨t, ht, hans⟩
    obtain ⟨x, u, rfl, hu⟩ := Prog.runs_call ht
    obtain ⟨-, hx⟩ := Prog.runs_pure hu
    have hmem := hans ⟨.getBackend ref, x⟩ List.mem_cons_self
    rw [hx] at hmem
    exact hmem
  · intro h
    refine ⟨[⟨.getBackend ref, .ok b⟩], .cons (.nil _), ?_⟩
    intro e he
    rw [List.mem_singleton] at he
    exact he ▸ h

theorem resolvesTo_type {backends : List LLMBackend} {model : LLMModel} {b : LLMBackend}
    (href : model.spec.backendRef = none) :
    ResolvesTo backends model b ↔
      backendOfType backends model.spec.serving.backend = some b := by
  unfold ResolvesTo findBackendOf
  rw [href]
  constructor
  · rintro ⟨t, ht, hans⟩
    obtain ⟨items, rfl, hb⟩ := runs_findBackend_type.mp ht
    have hitems : items = backends := hans ⟨.listBackends, .ok items⟩ List.mem_cons_self
    exact hitems ▸ hb
  · intro h
    refine ⟨_, runs_findBackend_type.mpr ⟨backends, rfl, h⟩, ?_⟩
    intro e he
    rw [List.mem_singleton] at he
    exact he ▸ rfl

/-! ## What the guard computes -/

namespace BackendCluster

variable (s : BackendCluster)

/-- The model is active, or named by the status of a stable `LLMActiveModel`. -/
def InUse (m : LLMModel) : Prop :=
  m ∈ s.models ∧ (m.status.active = true ∨ ∃ am ∈ s.activeModels,
    am.status.phase = .stable ∧ am.status.modelName = m.spec.model.name)

/-- The calls a deletion makes are answered. -/
def DeletionAnswered : Prop :=
  s.fault .listModels = none ∧ s.fault .listActive = none ∧
    s.fault (.updateBackend (removeFinalizer s.backend)) = none

/-- A model in use refers to the backend by name. -/
def Referenced : Prop := ∃ m, s.InUse m ∧ m.spec.backendRef = some s.backend.name

/-- The run of `reconcileBackendDeletion` takes the finalizer away. -/
def RemovesFinalizer : Prop :=
  backendWorkloadFinalizer ∈ s.backend.objectMeta.finalizers ∧
    backendWorkloadFinalizer ∉
      ((reconcileBackendDeletion s.backend).eval answer s).2.backend.objectMeta.finalizers

variable {s}

theorem referenced_iff :
    s.Referenced ↔ (s.models.any fun m => m.status.active && refersTo s.backend m) = true ∨
      (s.activeModels.any fun am => am.status.phase == .stable && s.models.any fun m =>
        m.spec.model.name == am.status.modelName && refersTo s.backend m) = true := by
  simp only [Referenced, InUse, refersTo, List.any_eq_true, Bool.and_eq_true, beq_iff_eq]
  constructor
  · rintro ⟨m, ⟨hm, hactive | ⟨am, ham, hstable, hname⟩⟩, href⟩
    · exact Or.inl ⟨m, hm, hactive, href⟩
    · exact Or.inr ⟨am, ham, hstable, m, hm, hname.symm, href⟩
  · rintro (⟨m, hm, hactive, href⟩ | ⟨am, ham, hstable, m, hm, hname, href⟩)
    · exact ⟨m, ⟨hm, Or.inl hactive⟩, href⟩
    · exact ⟨m, ⟨hm, Or.inr ⟨am, ham, hstable, hname.symm⟩⟩, href⟩

/-- `backendIsActive` says that the backend is not in use exactly when the lists are answered
and no model in use refers to it. -/
theorem eval_backendIsActive :
    ((backendIsActive s.backend).eval answer s).2 = s ∧
      (((backendIsActive s.backend).eval answer s).1 = .ok false ↔
        s.fault .listModels = none ∧ s.fault .listActive = none ∧ ¬ s.Referenced) := by
  rw [referenced_iff]
  unfold backendIsActive
  rw [Prog.eval_bind, show fetchModels.eval answer s = _ from eval_perform _]
  cases hmodels : s.fault .listModels with
  | some e =>
    rw [answer_of_fault_some hmodels]
    exact ⟨rfl, nofun, fun h => nomatch h.1⟩
  | none =>
    rw [answer_of_fault_none hmodels]
    dsimp only [serve]
    cases hany : s.models.any fun m => m.status.active && refersTo s.backend m with
    | true =>
      rw [if_pos rfl]
      exact ⟨rfl, nofun, fun h => absurd (Or.inl rfl) h.2.2⟩
    | false =>
      rw [if_neg Bool.false_ne_true, Prog.eval_bind,
        show fetchActiveModels.eval answer s = _ from eval_perform _]
      cases hactive : s.fault .listActive with
      | some e =>
        rw [answer_of_fault_some hactive]
        exact ⟨rfl, nofun, fun h => nomatch h.2.1⟩
      | none =>
        rw [answer_of_fault_none hactive]
        refine ⟨rfl, ?_⟩
        dsimp only [serve, Prog.pure_eq, Prog.eval_pure]
        simp only [Except.ok.injEq, Bool.false_eq_true, false_or, true_and, Bool.not_eq_true]

/-- The finalizers after an update of the backend which is answered or fails. -/
theorem finalizers_updateBackend (obj : LLMBackend) :
    ((updateBackend obj).eval answer s).2.backend.objectMeta.finalizers =
      if s.fault (.updateBackend obj) = none then obj.objectMeta.finalizers
      else s.backend.objectMeta.finalizers := by
  unfold updateBackend
  rw [Prog.eval_bind, show (storeBackend obj).eval answer s = _ from eval_perform _]
  cases hupdate : s.fault (.updateBackend obj) with
  | some e => rw [answer_of_fault_some hupdate]; rfl
  | none => rw [answer_of_fault_none hupdate]; rfl

/-- When the finalizer is taken away. -/
theorem removesFinalizer_iff :
    s.RemovesFinalizer ↔ s.backend.spec.workload ≠ none ∧
      backendWorkloadFinalizer ∈ s.backend.objectMeta.finalizers ∧ s.DeletionAnswered ∧
        ¬ s.Referenced := by
  obtain ⟨hsame, hinactive⟩ := eval_backendIsActive (s := s)
  unfold RemovesFinalizer reconcileBackendDeletion
  split
  · rename_i hskip
    constructor
    · rintro ⟨hmem, hnot⟩
      exact absurd hmem hnot
    · rintro ⟨hworkload, hmem, -⟩
      exact absurd hskip (not_or.mpr ⟨hworkload, not_not.mpr hmem⟩)
  · rename_i hkeep
    obtain ⟨hworkload, hmem⟩ := not_or.mp hkeep
    rw [not_not] at hmem
    simp only [hworkload, hmem, ne_eq, not_false_eq_true, true_and, Prog.eval_bind, hsame]
    have hstays : backendWorkloadFinalizer ∉ s.backend.objectMeta.finalizers ↔ False :=
      iff_false_intro (not_not.mpr hmem)
    cases hres : ((backendIsActive s.backend).eval answer s).1 with
    | error e =>
      refine hstays.trans (iff_of_false id ?_)
      rintro ⟨⟨hmodels, hactive, -⟩, hnot⟩
      exact nomatch hres.symm.trans (hinactive.mpr ⟨hmodels, hactive, hnot⟩)
    | ok active =>
      cases active with
      | true =>
        refine hstays.trans (iff_of_false id ?_)
        rintro ⟨⟨hmodels, hactive, -⟩, hnot⟩
        exact nomatch hres.symm.trans (hinactive.mpr ⟨hmodels, hactive, hnot⟩)
      | false =>
        obtain ⟨hmodels, hactive, hnot⟩ := hinactive.mp hres
        have hanswered : s.DeletionAnswered ∧ ¬ s.Referenced ↔
            s.fault (.updateBackend (removeFinalizer s.backend)) = none :=
          ⟨fun h => h.1.2.2, fun h => ⟨⟨hmodels, hactive, h⟩, hnot⟩⟩
        rw [hanswered]
        rw [finalizers_updateBackend]
        split
        · rename_i hupdate
          exact iff_of_true (by simp [removeFinalizer]) hupdate
        · rename_i hupdate
          exact hstays.trans (iff_of_false id hupdate)

/-- The finalizer goes only when no model in use is served by the backend. -/
def FinalizerProtected (s : BackendCluster) : Prop :=
  s.RemovesFinalizer → ∀ m, s.InUse m → ¬ ResolvesTo s.backends m s.backend

/-- **Deletion protection.** Where a workload-mode backend has its finalizer and the calls are
answered, the protection holds exactly when some model in use refers to the backend by name, or
no model in use that refers to none has it as the first listed backend of its runtime. -/
theorem finalizer_protected_iff (s : BackendCluster) :
    s.FinalizerProtected ↔
      (s.backend.spec.workload = none ∨
        backendWorkloadFinalizer ∉ s.backend.objectMeta.finalizers ∨ ¬ s.DeletionAnswered) ∨
      (∃ m, s.InUse m ∧ m.spec.backendRef = some s.backend.name) ∨
      ∀ m, s.InUse m → m.spec.backendRef = none →
        backendOfType s.backends m.spec.serving.backend ≠ some s.backend := by
  have hmem : s.backend ∈ s.backends :=
    List.mem_append.mpr (Or.inr List.mem_cons_self)
  unfold FinalizerProtected
  rw [removesFinalizer_iff]
  constructor
  · intro hprotected
    by_contra hcontra
    simp only [not_or, not_not] at hcontra
    obtain ⟨⟨hworkload, hfinalizer, hanswered⟩, hreferenced, hfirst⟩ := hcontra
    refine hfirst ?_
    intro m hm href hb
    exact hprotected ⟨hworkload, hfinalizer, hanswered, hreferenced⟩ m hm
      ((resolvesTo_type href).mpr hb)
  · rintro hcond ⟨hworkload, hfinalizer, hanswered, hreferenced⟩ m hm hresolves
    have hfirst := (hcond.resolve_left (by
      rintro (h | h | h)
      · exact hworkload h
      · exact h hfinalizer
      · exact h hanswered)).resolve_left hreferenced
    cases href : m.spec.backendRef with
    | none => exact hfirst m hm href ((resolvesTo_type href).mp hresolves)
    | some ref =>
      have hname := ((resolvesTo_ref href).mp hresolves).2
      exact hreferenced ⟨m, hm, by rw [href, hname]⟩

/-! ## A backend that serves by default -/

/-- The backend is deleted while the one active model, which refers to no backend, is served by
it. -/
def defaultServed : BackendCluster where
  backend :=
    { objectMeta :=
        { BackendMeta.named "b" with
          deletionTimestamp := some 1, finalizers := [backendWorkloadFinalizer] }
      spec :=
        { LLMBackendSpec.zero with type := .vllm, workload := some (RaceDemo.workload "image") }
      status := .zero }
  before := []
  after := []
  models := [{ Demo.model "a" true with
    spec := { (Demo.model "a" true).spec with backendRef := none } }]
  activeModels := [Demo.activeModel "a"]
  services _ := none
  deployments _ := none
  health _ _ := .ok ()
  fault _ := none

theorem finalizer_removed_while_serving : ¬ defaultServed.FinalizerProtected := by
  intro hprotected
  have hremoves : defaultServed.RemovesFinalizer := by
    refine removesFinalizer_iff.mpr ⟨nofun, List.mem_cons_self, ⟨rfl, rfl, rfl⟩, ?_⟩
    rintro ⟨m, ⟨hm, -⟩, href⟩
    rw [List.mem_singleton.mp hm] at href
    cases href
  exact hprotected hremoves _ ⟨List.mem_cons_self, Or.inl rfl⟩ ((resolvesTo_type rfl).mpr rfl)

end BackendCluster

end LlmOperator.Controller
