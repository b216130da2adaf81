import LlmOperator.Backend.Driver
import LlmOperator.Cache.Request

/-!
# The contract between the operator and the cache manager

The operator checks a model with the driver of its backend and sends the cache request the
driver makes of it. The cache manager decodes the request and checks it again, with rules of its
own. `validated_request_accepted_iff` says for which validated models the two agree; a model for
which they do not is refused by `/v1/ensure` after the transition has begun.
-/

namespace LlmOperator.Cache

open Api Backend Data Data.GoString

/-- The body of `/v1/ensure` is decoded and accepted. -/
def AcceptedByEnsure (req : CacheRequest) : Prop :=
  ∃ r, decodeRequest (encodeRequest req) = .ok r ∧ validCacheRequest r = .ok ()

/-- What the cache manager asks of a validated model beyond what its driver asks: a runtime it
knows, a name and a revision, no target and no overflowing size for a hub artifact, a target and
a positive size for a file artifact. -/
def Deliverable (model : LLMModel) : Prop :=
  model.spec.model.name ≠ "" ∧ model.spec.model.revision ≠ "" ∧
    match model.spec.serving.backend with
    | .vllm => ∀ artifact ∈ model.spec.artifact, artifact.materializationTarget = "" ∧
        0 ≤ RuntimeDriver.declaredSize artifact
    | .llamaCpp => ∀ artifact ∈ model.spec.artifact, artifact.materializationTarget ≠ "" ∧
        1 ≤ RuntimeDriver.declaredSize artifact
    | _ => False

variable {model : LLMModel} {d : RuntimeDriver}

theorem acceptedByEnsure_iff {req : CacheRequest} (hvalid : d.validate model = .ok ())
    (hreq : d.cacheRequest model = .ok (some req)) : AcceptedByEnsure req ↔ Accepted req := by
  obtain ⟨_, rfl⟩ := RuntimeDriver.cacheRequest_eq_some hvalid hreq
  have hsize : IsInt64 (d.cacheSpecOf model model.spec.artifact).size := by
    cases ha : model.spec.artifact with
    | none => exact (by decide : IsInt64 0)
    | some artifact => exact RuntimeDriver.declaredSize_bounds artifact
  unfold AcceptedByEnsure
  rw [decodeRequest_encodeRequest hsize]
  simp [validCacheRequest_ok]

/-- A target the driver has checked passes the check of the cache manager. -/
theorem goodTarget_of_cleanTarget {target : String} (hne : target ≠ "")
    (h : RuntimeDriver.CleanTarget target) : GoodTarget target where
  ne_empty := hne
  relative := h.relative
  clean := h.clean
  ne_gguf := by
    rintro rfl
    exact absurd h.below (by decide)
  below := h.below

theorem accepted_hub_iff (hd : d.cacheFormat = .huggingFace) (hkind : d.kind = .vllm) :
    Accepted ⟨model.spec.model.name, d.kind.text, d.cacheSpecOf model model.spec.artifact⟩ ↔
      model.spec.model.name ≠ "" ∧ model.spec.model.revision ≠ "" ∧
        ∀ artifact ∈ model.spec.artifact, artifact.materializationTarget = "" ∧
          0 ≤ RuntimeDriver.declaredSize artifact := by
  have hk : (d.cacheSpecOf model model.spec.artifact).kind = "huggingface-hub" := by
    rw [RuntimeDriver.cacheSpecOf, hd]
    rfl
  have hrepo : (d.cacheSpecOf model model.spec.artifact).repoID = model.spec.model.name := by
    rw [RuntimeDriver.cacheSpecOf, hd]
    rfl
  constructor
  · intro h
    refine ⟨h.model, h.revision, fun artifact ha => ?_⟩
    rw [Option.mem_def] at ha
    have htarget := h.hub hk
    have hsize := h.size
    rw [ha] at htarget hsize
    exact ⟨htarget, hsize⟩
  · rintro ⟨hname, hrev, hart⟩
    have hall : 0 ≤ (d.cacheSpecOf model model.spec.artifact).size ∧
        (d.cacheSpecOf model model.spec.artifact).materializationTarget = "" := by
      cases ha : model.spec.artifact with
      | none => exact ⟨le_rfl, rfl⟩
      | some artifact => exact (hart artifact ha).symm
    refine ⟨hname, .inl ?_, .inl hk, ?_, hrev, hall.1, fun _ => hall.2, fun h => ?_⟩
    · rw [hkind]
      rfl
    · rw [hrepo]
      exact hname
    · rw [hk] at h
      exact absurd h (by decide)

theorem accepted_files_iff {artifact : ArtifactSpec} (hd : d.cacheFormat = .gguf)
    (hkind : d.kind = .llamaCpp) (ha : model.spec.artifact = some artifact)
    (hvalid : d.validate model = .ok ()) :
    Accepted ⟨model.spec.model.name, d.kind.text, d.cacheSpecOf model model.spec.artifact⟩ ↔
      model.spec.model.name ≠ "" ∧ model.spec.model.revision ≠ "" ∧
        artifact.materializationTarget ≠ "" ∧ 1 ≤ RuntimeDriver.declaredSize artifact := by
  have hchecked := RuntimeDriver.checkedArtifact hvalid ha
  rw [ha]
  have hk : (d.cacheSpecOf model (some artifact)).kind = "huggingface-files" := by
    rw [RuntimeDriver.cacheSpecOf, hd]
    rfl
  constructor
  · intro h
    obtain ⟨_, hsize, htarget⟩ := h.files hk
    exact ⟨h.model, h.revision, htarget.ne_empty, hsize⟩
  · rintro ⟨hname, hrev, htarget, hsize⟩
    have hrepo : (d.cacheSpecOf model (some artifact)).repoID =
        model.spec.model.artifactRepository := by
      rw [RuntimeDriver.cacheSpecOf, hd]
      rfl
    refine ⟨hname, .inr ?_, .inr hk, ?_, hrev, le_trans (by decide) hsize, fun h => ?_,
      fun _ => ⟨hchecked.files hd, hsize, ?_⟩⟩
    · rw [hkind]
      rfl
    · rw [hrepo]
      exact hchecked.repository hd
    · rw [hk] at h
      exact absurd h (by decide)
    · exact goodTarget_of_cleanTarget htarget (hchecked.target hd htarget)

/-- The cache manager does not know SGLang. -/
theorem not_accepted_sglang (model : LLMModel) (spec : CacheSpec) :
    ¬ Accepted ⟨model.spec.model.name, sglangDriver.kind.text, spec⟩ := by
  intro h
  rcases h.backend with h | h
  · exact absurd (show "sglang" = "vllm" from h) (by decide)
  · exact absurd (show "sglang" = "llama-cpp" from h) (by decide)

/-- A validated model's cache request is accepted exactly when the model is deliverable. -/
theorem validated_request_accepted_iff (model : LLMModel) (d : RuntimeDriver) (req : CacheRequest)
    (hd : driverFor model.spec.serving.backend = .ok d) (hvalid : d.validate model = .ok ())
    (hreq : d.cacheRequest model = .ok (some req)) : AcceptedByEnsure req ↔ Deliverable model := by
  rw [acceptedByEnsure_iff hvalid hreq]
  obtain ⟨hcached, rfl⟩ := RuntimeDriver.cacheRequest_eq_some hvalid hreq
  unfold Deliverable
  cases hb : model.spec.serving.backend with
  | vllm =>
    rw [hb] at hd
    cases hd
    exact accepted_hub_iff rfl rfl
  | llamaCpp =>
    rw [hb] at hd
    cases hd
    cases ha : model.spec.artifact with
    | none =>
      rw [ha] at hcached
      rcases hcached with h | h
      · cases h
      · exact absurd rfl h
    | some artifact =>
      have := accepted_files_iff rfl rfl ha hvalid
      rw [ha] at this
      simpa using this
  | sglang =>
    rw [hb] at hd
    cases hd
    simpa using not_accepted_sglang model _
  | other s =>
    rw [hb] at hd
    cases hd

/-- A GGUF model whose artifact names its files and its target, without a size. -/
def unsizedModel : LLMModel where
  name := "laguna"
  generation := 1
  resourceVersion := 1
  spec :=
    { model := ⟨"laguna", "/models/laguna.gguf", "0123456789abcdef0123456789abcdef01234567",
        "org/laguna-gguf"⟩
      artifact := some ⟨"", ["laguna.gguf"], "gguf/laguna"⟩
      serving := ⟨.llamaCpp, "", "", none, ["--ctx-size", "4096"]⟩
      backendRef := none }
  status := ⟨.ready, false, none, none, [], 1⟩

/-- The same model with the size of its artifact. -/
def sizedModel : LLMModel :=
  { unsizedModel with
    spec := { unsizedModel.spec with
      artifact := some ⟨"12Gi", ["laguna.gguf"], "gguf/laguna"⟩ } }

theorem validated_request_accepted_laguna :
    AcceptedByEnsure ⟨"laguna", "llama-cpp",
        llamaCPPDriver.cacheSpecOf sizedModel sizedModel.spec.artifact⟩ ↔
      Deliverable sizedModel :=
  validated_request_accepted_iff sizedModel llamaCPPDriver _ rfl (by decide +kernel)
    (by decide +kernel)

/-- A validated model is refused for its shape: the driver does not ask for the size that the
cache manager insists on. -/
theorem validated_request_refused :
    ∃ req, llamaCPPDriver.validate unsizedModel = .ok () ∧
      llamaCPPDriver.cacheRequest unsizedModel = .ok (some req) ∧ ¬ AcceptedByEnsure req := by
  have hvalid : llamaCPPDriver.validate unsizedModel = .ok () := by decide +kernel
  have hreq : llamaCPPDriver.cacheRequest unsizedModel = .ok (some ⟨"laguna", "llama-cpp",
      llamaCPPDriver.cacheSpecOf unsizedModel unsizedModel.spec.artifact⟩) := by decide +kernel
  refine ⟨_, hvalid, hreq, ?_⟩
  rw [acceptedByEnsure_iff hvalid hreq]
  intro h
  have := (h.files (by decide +kernel)).2.1
  exact absurd this (by decide +kernel)

end LlmOperator.Cache
