import LlmOperator.Controller.Cluster
import LlmOperator.Controller.ModelReconcile
import LlmOperator.Proxy.Backends
import Mathlib.Data.List.Find

/-!
# Which model and which backend a name resolves to

The controllers look models and backends up in lists that the API cache returns in any order, and
take the first match. Admission keeps the canonical names of models apart, so that a model is found
in any order. It does not keep the backends of one runtime type apart, and a model without a
`backendRef` resolves to whichever of them comes first.
-/

namespace LlmOperator.Admission

open Api Backend Controller Data Data.GoString Interaction Proxy

/-! ## The webhook for backends -/

/-- The quantities of a resource that a container requests, and that it is limited to. -/
structure ResourceValues where
  request : Container → String → Int
  limit : Container → String → Int

def defaultGPUResource : String := "nvidia.com/gpu"

/-- What `validateBackend` asks of the container that runs the model. -/
def validateRuntimeContainer (values : ResourceValues) (capacity : BackendCapacitySpec)
    (container : Container) : Except Err Unit := do
  if container.args ≠ [] then
    throw (.other ("runtime container " ++ quote container.name ++
      " must not set args; LLMModel supplies model-specific runtime arguments"))
  let resourceName :=
    if capacity.resourceName = "" then defaultGPUResource else capacity.resourceName
  if values.request container resourceName ≠ capacity.gpus ∨
      values.limit container resourceName ≠ capacity.gpus then
    throw (.other ("runtime container " ++ quote container.name ++ " GPU request and limit for " ++
      quote resourceName ++ " must both equal capacity.gpus=" ++ toString capacity.gpus))

/-- `validateBackend`. -/
def validateBackend (values : ResourceValues) (backend : LLMBackend) : Except Err Unit := do
  let spec := backend.spec
  let hasReferences := spec.deploymentRef ≠ "" ∨ spec.serviceRef ≠ "" ∨ spec.containerName ≠ "" ∨
    spec.port ≠ 0
  match spec.workload with
  | none =>
    if ¬hasReferences ∨ spec.deploymentRef = "" ∨ spec.serviceRef = "" ∨ spec.containerName = "" ∨
        spec.port = 0 then
      throw (.other ("backend must declare either workload or complete deprecated " ++
        "deployment/service references"))
  | some workload =>
    if hasReferences then
      throw (.other
        ("workload mode cannot be combined with deprecated deploymentRef, serviceRef, " ++
        "containerName, or port"))
    match spec.capacity with
    | none => throw (.other "workload mode requires capacity.gpus")
    | some capacity =>
      if capacity.gpus < 1 then throw (.other "workload mode requires capacity.gpus")
      if workload.containerName = "" ∨ workload.service.port = 0 then
        throw (.other "workload.containerName and workload.service.port are required")
      let selected := workload.deployment.podTemplate.spec.containers.filter fun c =>
        c.name == workload.containerName
      selected.forM (validateRuntimeContainer values capacity)
      if selected.length ≠ 1 then
        throw (.other ("workload.containerName " ++ quote workload.containerName ++
          " must select exactly one container"))
      let value := (workload.deployment.podTemplate.labels.lookup "llm.cogito.dev/backend").getD ""
      if value ≠ "" ∧ value ≠ backend.name then
        throw (.other "pod template label llm.cogito.dev/backend is reserved for the controller")

/-! ## Namespaces that admission accepts -/

/-- Every object has passed its webhook, and objects of one kind have names of their own. -/
structure Admitted (values : ResourceValues) (ns : Namespace) : Prop where
  models : ∀ m ∈ ns.models, ns.admitModel m.model = .ok ()
  backends : ∀ b ∈ ns.backends, validateBackend values b = .ok ()
  modelNames : (ns.models.map fun m => m.model.name).Nodup
  backendNames : (ns.backends.map LLMBackend.name).Nodup

/-- Admitted models of one canonical name have one name. -/
theorem name_eq_of_admitModel {ns : Namespace} {model : LLMModel} {existing : StoredModel}
    (h : ns.admitModel model = .ok ()) (hmem : existing ∈ ns.models)
    (hname : existing.model.spec.model.name = model.spec.model.name) :
    existing.model.name = model.name := by
  unfold Namespace.admitModel at h
  obtain ⟨driver, -, h⟩ := ok_of_bind h
  obtain ⟨-, -, h⟩ := ok_of_bind h
  cases hfind : ns.models.find? fun existing => existing.model.name ≠ model.name ∧
      existing.model.spec.model.name = model.spec.model.name with
  | none =>
    by_contra hne
    exact List.find?_eq_none.mp hfind existing hmem (by simpa using ⟨hne, hname⟩)
  | some other =>
    simp only [hfind] at h
    split at h <;> cases h

theorem Admitted.model_unique {values : ResourceValues} {ns : Namespace} (h : Admitted values ns)
    {m m' : StoredModel} (hm : m ∈ ns.models) (hm' : m' ∈ ns.models)
    (hname : m.model.spec.model.name = m'.model.spec.model.name) : m = m' :=
  List.inj_on_of_nodup_map h.modelNames hm hm' (name_eq_of_admitModel (h.models m' hm') hm hname)

/-! ## What the controllers see -/

/-- The lists of the API cache, in some order. -/
structure View where
  models : List LLMModel
  backends : List LLMBackend

/-- The view shows the objects of the namespace. -/
structure View.Shows (v : View) (ns : Namespace) : Prop where
  models : v.models.Perm (ns.models.map StoredModel.model)
  backends : v.backends.Perm ns.backends

/-- The answers from the API cache; those to any other call are arbitrary. -/
def View.answer (v : View) (other : (c : Call) → c.Answer) : (c : Call) → c.Answer
  | .listModels => .ok v.models
  | .listBackends => .ok v.backends
  | .getBackend name =>
    match v.backends.find? fun b => b.name == name with
    | some b => .ok b
    | none => .error (.notFound name)
  | c => other c

/-- The result of a lookup. -/
def View.result {α : Type} (v : View) (other : (c : Call) → c.Answer) (p : Go α) : α :=
  (p.eval (fun (_ : Unit) c => (v.answer other c, ())) ()).1

/-- Resolution gives the same results in any order, and the two controllers find the same
backend. -/
def OrderFree (ns : Namespace) (modelName : String) (model : LLMModel) : Prop :=
  ∀ other, ∀ v v' : View, v.Shows ns → v'.Shows ns →
    v.result other (findModel modelName) = v'.result other (findModel modelName) ∧
    v.result other (findBackendOf model) = v'.result other (findBackendOf model) ∧
    v.result other (resolveBackend model) = v'.result other (resolveBackend model) ∧
    (v.result other (findBackendOf model)).toOption =
      (v'.result other (resolveBackend model)).toOption

section Results

variable {values : ResourceValues} {ns : Namespace} {v v' : View} {model : LLMModel}
  {other : (c : Call) → c.Answer}

theorem result_call {α : Type} (c : Call) (f : c.Answer → Go α) :
    v.result other (call c >>= f) = v.result other (f (v.answer other c)) := rfl

theorem result_findModel (modelName : String) :
    v.result other (findModel modelName) = match modelNamed v.models modelName with
      | some model => .ok model
      | none => .error (.other ("no LLMModel with name " ++ quote modelName ++ " found")) := by
  show (Prog.eval _ (match modelNamed v.models modelName with | some m => _ | none => _) ()).1 = _
  cases modelNamed v.models modelName <;> rfl

/-- The backend of a reference, or the first one of the model's runtime type. -/
def View.backendOf (v : View) (model : LLMModel) : Option LLMBackend :=
  match model.spec.backendRef with
  | some name => v.backends.find? fun b => b.name == name
  | none => backendOfType v.backends model.spec.serving.backend

theorem result_findBackendOf :
    v.result other (findBackendOf model) = match v.backendOf model, model.spec.backendRef with
      | some b, _ => .ok b
      | none, some name => .error (.notFound name)
      | none, none => .error (.other ("no backend found for type " ++
          quote model.spec.serving.backend.text)) := by
  unfold findBackendOf findBackend View.backendOf
  cases model.spec.backendRef with
  | some name =>
    show v.answer other (.getBackend name) = _
    unfold View.answer
    dsimp only
    cases v.backends.find? fun b => b.name == name <;> rfl
  | none =>
    show (Prog.eval _ (match backendOfType v.backends model.spec.serving.backend with
      | some b => _ | none => _) ()).1 = _
    cases backendOfType v.backends model.spec.serving.backend <;> rfl

theorem result_resolveBackend :
    v.result other (resolveBackend model) = match v.backendOf model, model.spec.backendRef with
      | some b, _ => .ok b
      | none, some name => .error
          (.wrap ("backend " ++ quote name ++ " not found") (.notFound name))
      | none, none => .error (.other ("no backend found for type " ++
          quote model.spec.serving.backend.text)) := by
  unfold resolveBackend View.backendOf
  cases model.spec.backendRef with
  | some name =>
    refine (result_call (.getBackend name) _).trans ?_
    unfold View.answer
    dsimp only
    cases v.backends.find? fun b => b.name == name <;> rfl
  | none =>
    show (Prog.eval _ (match backendOfType v.backends model.spec.serving.backend with
      | some b => _ | none => _) ()).1 = _
    cases backendOfType v.backends model.spec.serving.backend <;> rfl

/-- The model of a name is found in any order. -/
theorem Admitted.modelNamed_eq (h : Admitted values ns) (hv : v.Shows ns) (hv' : v'.Shows ns)
    (modelName : String) : modelNamed v.models modelName = modelNamed v'.models modelName := by
  refine List.find?_eq_find?_of_perm (hv.models.trans hv'.models.symm) ?_
  rintro m ⟨hm, hname⟩ m' ⟨hm', hname'⟩
  obtain ⟨s, hs, rfl⟩ := List.mem_map.mp (hv.models.mem_iff.mp hm)
  obtain ⟨s', hs', rfl⟩ := List.mem_map.mp (hv.models.mem_iff.mp hm')
  rw [h.model_unique hs hs' ((beq_iff_eq.mp hname).trans (beq_iff_eq.mp hname').symm)]

/-- The backend of a model is found in any order if the model has a reference, or if its runtime
type has one backend at most. -/
theorem Admitted.backendOf_eq (h : Admitted values ns) (hv : v.Shows ns) (hv' : v'.Shows ns)
    (hunique : model.spec.backendRef = none → ∀ b ∈ ns.backends, ∀ b' ∈ ns.backends,
      b.spec.type = model.spec.serving.backend → b'.spec.type = model.spec.serving.backend →
        b = b') : v.backendOf model = v'.backendOf model := by
  have hperm := hv.backends.trans hv'.backends.symm
  unfold View.backendOf
  cases href : model.spec.backendRef with
  | some name =>
    refine List.find?_eq_find?_of_perm hperm ?_
    rintro b ⟨hb, hname⟩ b' ⟨hb', hname'⟩
    exact List.inj_on_of_nodup_map h.backendNames (hv.backends.mem_iff.mp hb)
      (hv.backends.mem_iff.mp hb') ((beq_iff_eq.mp hname).trans (beq_iff_eq.mp hname').symm)
  | none =>
    refine List.find?_eq_find?_of_perm hperm ?_
    rintro b ⟨hb, htype⟩ b' ⟨hb', htype'⟩
    exact hunique href b (hv.backends.mem_iff.mp hb) b' (hv.backends.mem_iff.mp hb')
      (beq_iff_eq.mp htype) (beq_iff_eq.mp htype')

/-- An order in which a backend of the model's runtime type comes first. -/
theorem exists_view {b : LLMBackend} (hb : b ∈ ns.backends)
    (htype : b.spec.type = model.spec.serving.backend) (href : model.spec.backendRef = none) :
    ∃ v : View, v.Shows ns ∧ v.backendOf model = some b := by
  refine ⟨⟨ns.models.map StoredModel.model, b :: ns.backends.erase b⟩,
    ⟨.refl _, (List.perm_cons_erase hb).symm⟩, ?_⟩
  unfold View.backendOf
  rw [href]
  exact List.find?_cons_of_pos (beq_iff_eq.mpr htype)

end Results

/-- In an admitted namespace resolution does not depend on the order of the lists exactly for the
models with a `backendRef` and those whose runtime type has one backend at most. -/
theorem orderFree_iff {values : ResourceValues} {ns : Namespace} (h : Admitted values ns)
    (modelName : String) (model : LLMModel) :
    OrderFree ns modelName model ↔ (model.spec.backendRef = none →
      ∀ b ∈ ns.backends, ∀ b' ∈ ns.backends, b.spec.type = model.spec.serving.backend →
        b'.spec.type = model.spec.serving.backend → b = b') := by
  constructor
  · intro hfree href b hb b' hb' htype htype'
    obtain ⟨v, hv, hfound⟩ := exists_view hb htype href
    obtain ⟨v', hv', hfound'⟩ := exists_view hb' htype' href
    obtain ⟨-, hsame, -⟩ := hfree (fun c => (Demo.cluster.answer c).1) v v' hv hv'
    rw [result_findBackendOf, result_findBackendOf, hfound, hfound'] at hsame
    cases hsame
    rfl
  · intro hunique other v v' hv hv'
    have hmodel := h.modelNamed_eq hv hv' modelName
    have hbackend := h.backendOf_eq hv hv' hunique
    rw [result_findModel, result_findModel, hmodel, result_findBackendOf, result_findBackendOf,
      result_resolveBackend, result_resolveBackend, hbackend]
    refine ⟨rfl, rfl, rfl, ?_⟩
    cases v'.backendOf model with
    | some b => rfl
    | none => cases model.spec.backendRef <;> rfl

/-! ## Two backends of one runtime -/

namespace Twins

open MixedRegistry

def values : ResourceValues where
  request _ _ := 1
  limit _ _ := 1

/-- A model without a reference beside backends of the given names. -/
def namespaceOf (names : List String) (h : ∀ name ∈ names, IsObjectName name) : Namespace where
  models := [base]
  backends := names.map fun name => backend name .vllm
  names := by
    intro b hb
    obtain ⟨name, hname, rfl⟩ := List.mem_map.mp hb
    exact h name hname

def one : Namespace := namespaceOf ["llm-vllm"] (by decide +kernel)

def two : Namespace := namespaceOf ["llm-vllm", "llm-vllm-large"] (by decide +kernel)

theorem admitted_one : Admitted values one where
  models := by decide +kernel
  backends := by decide +kernel
  modelNames := by decide +kernel
  backendNames := by decide +kernel

theorem admitted_two : Admitted values two where
  models := by decide +kernel
  backends := by decide +kernel
  modelNames := by decide +kernel
  backendNames := by decide +kernel

end Twins

/-- Two backends of one runtime are admitted, and a model without a reference resolves to the one
that is listed first. -/
theorem not_orderFree_two_backends : Admitted Twins.values Twins.two ∧
    ¬OrderFree Twins.two "base" (MixedRegistry.model "base" .vllm none) := by
  refine ⟨Twins.admitted_two, fun hfree => ?_⟩
  have hsame := (hfree (fun c => (Demo.cluster.answer c).1)
    ⟨Twins.two.models.map StoredModel.model, Twins.two.backends⟩
    ⟨Twins.two.models.map StoredModel.model, Twins.two.backends.reverse⟩
    ⟨.refl _, .refl _⟩ ⟨.refl _, List.reverse_perm _⟩).2.1
  rw [result_findBackendOf, result_findBackendOf] at hsame
  revert hsame
  decide +kernel

theorem orderFree_iff_one_backend :
    OrderFree Twins.one "base" (MixedRegistry.model "base" .vllm none) ↔
      (none = (none : Option String) → ∀ b ∈ Twins.one.backends, ∀ b' ∈ Twins.one.backends,
        b.spec.type = .vllm → b'.spec.type = .vllm → b = b') :=
  orderFree_iff Twins.admitted_one "base" (MixedRegistry.model "base" .vllm none)

end LlmOperator.Admission
