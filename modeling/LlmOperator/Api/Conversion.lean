import LlmOperator.Api.Types
import LlmOperator.Data.GoString

/-!
# Conversion between the versions of LLMBackend

`api/cogito.dev/v1beta1/llmbackend_types.go`: the workload-only version `v1beta1` and its
conversion to and from the hub version `v1alpha1`. A conversion writes into an object that
the caller has made; the caller makes an empty one.

`ConvertFrom` refuses the objects that run on references to a Deployment and a Service. Two
further fields of the hub have no place in `v1beta1`, and objects that use them are not
refused: `roundtrip_iff` says which objects come back as they were.
-/

namespace LlmOperator.Api

open Data.GoString

/-- The hub object as Go makes it. -/
def LLMBackend.zero : LLMBackend := ⟨.named "", .zero, .zero⟩

namespace V1beta1

structure LLMBackendSpec where
  type : BackendType
  capacity : Option BackendCapacitySpec
  workload : Option BackendWorkloadSpec
  deriving DecidableEq

structure LLMBackend where
  objectMeta : BackendMeta
  spec : LLMBackendSpec
  status : LLMBackendStatus
  deriving DecidableEq

/-- The object as Go makes it. -/
def LLMBackend.zero : LLMBackend := ⟨.named "", ⟨.empty, none, none⟩, .zero⟩

/-- `ConvertTo` the hub object `dst`. -/
def convertTo (src : LLMBackend) (dst : Api.LLMBackend) : Api.LLMBackend :=
  { dst with
    objectMeta := src.objectMeta
    spec :=
      { dst.spec with
        type := src.spec.type
        capacity := src.spec.capacity.or dst.spec.capacity
        workload := src.spec.workload.or dst.spec.workload }
    status := src.status }

/-- The hub object runs on references, as far as `ConvertFrom` looks. -/
def IsReferenceMode (spec : Api.LLMBackendSpec) : Prop :=
  spec.workload = none ∨ spec.deploymentRef ≠ "" ∨ spec.serviceRef ≠ "" ∨
    spec.containerName ≠ "" ∨ spec.port ≠ 0

instance (spec : Api.LLMBackendSpec) : Decidable (IsReferenceMode spec) :=
  inferInstanceAs (Decidable (_ ∨ _))

/-- `ConvertFrom` the hub object `src`, into `dst`. -/
def convertFrom (src : Api.LLMBackend) (dst : LLMBackend) : Except Err LLMBackend :=
  if IsReferenceMode src.spec then
    .error (.other ("cannot convert reference-mode LLMBackend " ++ quote src.name ++
      " to v1beta1; migrate it to workload mode first"))
  else
    .ok { dst with
      objectMeta := src.objectMeta
      spec :=
        { dst.spec with
          type := src.spec.type
          capacity := src.spec.capacity.or dst.spec.capacity
          workload := src.spec.workload }
      status := src.status }

/-! ## There and back -/

/-- What comes back of a hub object that is converted: all but two fields of its spec. -/
theorem convertTo_of_convertFrom {h : Api.LLMBackend} {b : LLMBackend}
    (hb : convertFrom h .zero = .ok b) :
    convertTo b .zero =
      { h with spec := { h.spec with runtimeClassName := "", gpuResources := none } } := by
  unfold convertFrom at hb
  split at hb
  · cases hb
  · rename_i hmode
    cases hb
    simp only [IsReferenceMode, not_or, ne_eq, not_not] at hmode
    obtain ⟨-, hdeployment, hservice, hcontainer, hport⟩ := hmode
    simp only [convertTo, Api.LLMBackend.zero, LLMBackend.zero, Api.LLMBackendSpec.zero,
      Option.or_none, hdeployment, hservice, hcontainer, hport]

theorem spec_eq_iff (spec : Api.LLMBackendSpec) :
    { spec with runtimeClassName := "", gpuResources := none } = spec ↔
      spec.runtimeClassName = "" ∧ spec.gpuResources = none := by
  obtain ⟨type, capacity, workload, deploymentRef, containerName, serviceRef, port,
    runtimeClassName, gpuResources⟩ := spec
  simp only [Api.LLMBackendSpec.mk.injEq, true_and]
  exact ⟨fun h => ⟨h.1.symm, h.2.symm⟩, fun h => ⟨h.1.symm, h.2.symm⟩⟩

theorem exists_convertFrom {h : Api.LLMBackend} (hmode : ¬ IsReferenceMode h.spec) :
    ∃ b, convertFrom h .zero = .ok b :=
  ⟨_, if_neg hmode⟩

/-- **Which hub objects survive the conversion.** An object that `ConvertFrom` takes comes back
with its metadata, its spec and its status exactly when it names no runtime class and no GPU
resources. -/
theorem roundtrip_iff (h : Api.LLMBackend) :
    (∀ b, convertFrom h .zero = .ok b → convertTo b .zero = h) ↔
      IsReferenceMode h.spec ∨ h.spec.runtimeClassName = "" ∧ h.spec.gpuResources = none := by
  constructor
  · intro hround
    by_cases hmode : IsReferenceMode h.spec
    · exact Or.inl hmode
    · obtain ⟨b, hb⟩ := exists_convertFrom hmode
      have heq := (convertTo_of_convertFrom hb).symm.trans (hround b hb)
      exact Or.inr ((spec_eq_iff h.spec).mp (congrArg Api.LLMBackend.spec heq))
  · rintro (hmode | hfields) b hb
    · rw [convertFrom, if_pos hmode] at hb
      cases hb
    · rw [convertTo_of_convertFrom hb, (spec_eq_iff h.spec).mpr hfields]

/-- A workload-mode backend for GPU nodes. -/
def gpuBackend : Api.LLMBackend where
  objectMeta := .named "gpu"
  spec :=
    { Api.LLMBackendSpec.zero with
      type := .vllm
      workload := some
        { containerName := "runtime"
          deployment := ⟨"", none, "", ⟨∅, ∅, ⟨[⟨"runtime", [], [], [], ∅⟩], [], ∅⟩⟩⟩
          service := ⟨"", 8000, "", ∅⟩ }
      runtimeClassName := "nvidia" }
  status := .zero

/-- The runtime class is dropped without an error. -/
theorem roundtrip_drops_runtimeClassName :
    ¬ ∀ b, convertFrom gpuBackend .zero = .ok b → convertTo b .zero = gpuBackend := by
  intro hround
  have heq := hround _ rfl
  exact absurd (congrArg (fun b : Api.LLMBackend => b.spec.runtimeClassName) heq) (by decide)

end V1beta1

end LlmOperator.Api
