import LlmOperator.Data.Loading
import LlmOperator.Proxy.Inference

/-!
# The models of the proxy's registry

One LLMModel object is read by two programs. The controllers decode it into its type
(`decodeModelSpec`); the proxy reads the fields it needs from the unstructured object
(`parseLLMModel`) and keeps what it reads under the name of the model (`loadModels`, the first
part of `loadCRDRegistry`).

`resource.ParseQuantity` is a parameter. The creation time of a model, and what is added from the
status ConfigMap afterwards, are only shown in the catalog and are left out.
-/

namespace LlmOperator.Proxy

open Api Data Data.GoString

/-! ## The typed object -/

section

variable (object : Json)

def backendTypeOf (text : String) : BackendType :=
  if text = "vllm" then .vllm
  else if text = "sglang" then .sglang
  else if text = "llama-cpp" then .llamaCpp
  else .other text

theorem text_backendTypeOf (text : String) : (backendTypeOf text).text = text := by
  unfold backendTypeOf
  split
  · exact (‹text = "vllm"›).symm
  · split
    · exact (‹text = "sglang"›).symm
    · split
      · exact (‹text = "llama-cpp"›).symm
      · rfl

def decodeArtifact : Except String (Option ArtifactSpec) := do
  if ← object.objectAt ["spec", "artifact"] then
    let expectedSize ← object.stringAt ["spec", "artifact", "expectedSize"]
    let files ← object.stringsAt ["spec", "artifact", "files"]
    let target ← object.stringAt ["spec", "artifact", "materializationTarget"]
    return some ⟨expectedSize, files, target⟩
  else return none

def decodeChatTemplate : Except String (Option ChatTemplateSpec) := do
  if ← object.objectAt ["spec", "serving", "chatTemplate"] then
    let ref := ["spec", "serving", "chatTemplate", "configMapKeyRef"]
    let name ← object.stringAt (ref ++ ["name"])
    let key ← object.stringAt (ref ++ ["key"])
    let sha256 ← object.stringAt ["spec", "serving", "chatTemplate", "sha256"]
    return some ⟨name, key, sha256⟩
  else return none

def decodeBackendRef : Except String (Option String) := do
  if ← object.objectAt ["spec", "backendRef"] then
    return some (← object.stringAt ["spec", "backendRef", "name"])
  else return none

/-- The spec of an LLMModel object as the controllers decode it. -/
def decodeModelSpec : Except String LLMModelSpec := do
  let name ← object.stringAt ["spec", "model", "name"]
  let source ← object.stringAt ["spec", "model", "source"]
  let revision ← object.stringAt ["spec", "model", "revision"]
  let artifactRepository ← object.stringAt ["spec", "model", "artifactRepository"]
  let artifact ← decodeArtifact object
  let backend ← object.stringAt ["spec", "serving", "backend"]
  let _ ← object.stringAt ["spec", "serving", "displayName"]
  let _ ← object.intAt ["spec", "serving", "maxModelLen"]
  let toolCallParser ← object.stringAt ["spec", "serving", "toolCallParser"]
  let reasoningParser ← object.stringAt ["spec", "serving", "reasoningParser"]
  let chatTemplate ← decodeChatTemplate object
  let args ← object.stringsAt ["spec", "serving", "args"]
  let backendRef ← decodeBackendRef object
  return {
    model := ⟨name, source, revision, artifactRepository⟩
    artifact := artifact
    serving := ⟨backendTypeOf backend, toolCallParser, reasoningParser, chatTemplate, args⟩
    backendRef := backendRef }

/-! ## The unstructured object -/

/-- `modelConfig`, with what the catalog and the cache need beyond routing. -/
structure CatalogModel extends ModelConfig where
  modelSource : String
  displayName : String
  maxModelLen : Int
  args : List String
  source : String
  cache : CacheSpec
  deriving DecidableEq

/-- A string that has to be there and not blank. -/
def requiredString (path : List String) (message : String) : Except Err String :=
  match object.nestedString path with
  | .ok (some s) => if trimSpace s = "" then .error (.other message) else .ok s
  | _ => .error (.other message)

/-- A string that may be missing; an error of the accessor is dropped. -/
def optionalString (path : List String) : String :=
  match object.nestedString path with
  | .ok (some s) => s
  | _ => ""

def parseBackend : Except Err String :=
  match object.nestedString ["spec", "serving", "backend"] with
  | .ok (some backend) =>
    if backend ≠ "vllm" ∧ backend ≠ "llama-cpp" then
      .error (.other ("unsupported spec.serving.backend " ++ quote backend))
    else .ok backend
  | _ => .error (.other ("unsupported spec.serving.backend " ++ quote ""))

def parseBackendRef : Except Err String :=
  match object.nestedString ["spec", "backendRef", "name"] with
  | .ok ref => .ok (ref.getD "")
  | .error e => .error (.wrap "read spec.backendRef.name" (.other e))

def parseMaxModelLen : Except Err Int :=
  match object.nestedInt64 ["spec", "serving", "maxModelLen"] with
  | .ok (some n) =>
    if n < 1 ∨ 2 ^ 63 - 1 < n then
      .error (.other "spec.serving.maxModelLen must be a positive integer")
    else .ok n
  | _ => .error (.other "spec.serving.maxModelLen must be a positive integer")

def parseArgs (backend : String) : Except Err (List String) :=
  match object.nestedStringSlice ["spec", "serving", "args"] with
  | .ok (some (arg :: rest)) =>
    let args := arg :: rest
    if args.any fun arg => trimSpace arg = "" then
      .error (.other "spec.serving.args cannot contain empty arguments")
    else if backend = "vllm" ∧
        ("--model" ∈ args ∨ "--revision" ∈ args ∨ "--served-model-name" ∈ args) then
      .error (.other
        "spec.serving.args must not contain --model, --revision, or --served-model-name")
    else if backend = "llama-cpp" ∧ ("-m" ∈ args ∨ "--model" ∈ args ∨ "--alias" ∈ args) then
      .error (.other "spec.serving.args must not contain -m, --model, or --alias")
    else .ok args
  | _ => .error (.other "spec.serving.args must be a non-empty string array")

end

def isCommitSHA (value : String) : Bool :=
  value.toList.length == 40 &&
    value.toList.all fun c => ('0' ≤ c && c ≤ '9') || ('a' ≤ c && c ≤ 'f')

section Parse

variable (parseQuantity : String → Except Err Int)

def parseExpectedSize (object : Json) : Except Err Int :=
  let expectedSize := optionalString object ["spec", "artifact", "expectedSize"]
  let refused : Err := .other ("spec.artifact.expectedSize " ++ quote expectedSize ++
    " must be a positive quantity")
  if expectedSize = "" then .ok 0
  else
    match parseQuantity expectedSize with
    | .ok quantity => if quantity < 1 then .error refused else .ok quantity
    | .error _ => .error refused

/-- The files of a llama.cpp model; an error of the accessor is dropped. -/
def parseFiles (object : Json) : Except Err (List String) :=
  match object.nestedStringSlice ["spec", "artifact", "files"] with
  | .ok (some (file :: rest)) => .ok (file :: rest)
  | _ => .error (.other "spec.artifact.files is required for llama-cpp")

/-- The artifact of a model with a revision. -/
def parseCacheSpec (object : Json) (source backend : String) : Except Err CacheSpec := do
  let revision := optionalString object ["spec", "model", "revision"]
  if revision = "" then return ⟨"", "", "", 0, [], ""⟩
  if !isCommitSHA revision then
    throw (.other ("spec.model.revision " ++ quote revision ++ " must be an immutable commit SHA"))
  let declared := optionalString object ["spec", "model", "artifactRepository"]
  let artifact := if declared = "" then source else declared
  let size ← parseExpectedSize parseQuantity object
  if backend = "llama-cpp" then
    let files ← parseFiles object
    return ⟨"huggingface-files", artifact, revision, size, files,
      optionalString object ["spec", "artifact", "materializationTarget"]⟩
  else return ⟨"huggingface-hub", artifact, revision, size, [], ""⟩

def parseLLMModel (object : Json) : Except Err CatalogModel := do
  let name ← requiredString object ["spec", "model", "name"] "spec.model.name is required"
  let source ← requiredString object ["spec", "model", "source"] "spec.model.source is required"
  let backend ← parseBackend object
  let backendRef ← parseBackendRef object
  let displayName ← requiredString object ["spec", "serving", "displayName"]
    "spec.serving.displayName is required"
  let maxModelLen ← parseMaxModelLen object
  let args ← parseArgs object backend
  let cache ← parseCacheSpec parseQuantity object source backend
  return {
    name := name
    backend := backend
    backendRef := backendRef
    modelSource := source
    displayName := displayName
    maxModelLen := maxModelLen
    args := args
    source := "crd/" ++ optionalString object ["metadata", "name"]
    cache := cache }

/-- One object of the list. -/
def loadModel (models : FMap String CatalogModel) (object : Json) :
    Except Err (FMap String CatalogModel) :=
  match parseLLMModel parseQuantity object with
  | .error e => .error (.wrap ("LLMModel " ++ optionalString object ["metadata", "name"]) e)
  | .ok cfg =>
    if (models.lookup cfg.name).isSome then
      .error (.other ("duplicate LLMModel model.name " ++ quote cfg.name))
    else .ok (models.insert cfg.name cfg)

/-- The models of `loadCRDRegistry`. -/
def loadModels (objects : List Json) : Except Err (FMap String CatalogModel) :=
  objects.foldlM (loadModel parseQuantity) ∅

end Parse

/-! ## What the stages accept -/

variable {object : Json} {path : List String} {backend : String} {cfg : CatalogModel}

theorem requiredString_ok_iff {message s : String} :
    requiredString object path message = .ok s ↔
      object.nestedString path = .ok (some s) ∧ trimSpace s ≠ "" := by
  unfold requiredString
  constructor
  · intro h
    split at h
    · rename_i t ht
      split at h
      · cases h
      · rename_i hblank
        cases h
        exact ⟨ht, hblank⟩
    · cases h
  · intro h
    rw [h.1]
    exact if_neg h.2

/-- The arguments that the proxy keeps for itself. -/
def reservedArgs (backend : String) : List String :=
  if backend = "vllm" then ["--model", "--revision", "--served-model-name"]
  else if backend = "llama-cpp" then ["-m", "--model", "--alias"]
  else []

theorem parseArgs_ok_iff {args : List String} :
    parseArgs object backend = .ok args ↔
      object.nestedStringSlice ["spec", "serving", "args"] = .ok (some args) ∧ args ≠ [] ∧
        (∀ arg ∈ args, trimSpace arg ≠ "") ∧ ∀ arg ∈ reservedArgs backend, arg ∉ args := by
  unfold parseArgs reservedArgs
  constructor
  · intro h
    split at h
    · rename_i arg rest hfound
      dsimp only at h
      split at h
      · cases h
      · rename_i hblank
        split at h
        · cases h
        · rename_i hvllm
          split at h
          · cases h
          · rename_i hllama
            cases h
            refine ⟨hfound, List.cons_ne_nil _ _, ?_, ?_⟩
            · simpa using hblank
            · split
              · rename_i hb
                simp only [hb, true_and, not_or] at hvllm
                simp only [List.forall_mem_cons]
                exact ⟨hvllm.1, hvllm.2.1, hvllm.2.2, nofun⟩
              · split
                · rename_i hb
                  simp only [hb, true_and, not_or] at hllama
                  simp only [List.forall_mem_cons]
                  exact ⟨hllama.1, hllama.2.1, hllama.2.2, nofun⟩
                · nofun
    · cases h
  · rintro ⟨hfound, hne, hblank, hreserved⟩
    rw [hfound]
    cases args with
    | nil => exact absurd rfl hne
    | cons arg rest =>
      dsimp only
      rw [if_neg (by simpa using hblank), if_neg ?_, if_neg ?_]
      · rintro ⟨rfl, hmem⟩
        simp only [List.forall_mem_cons, String.reduceEq, if_false, if_true] at hreserved
        exact hmem.elim hreserved.1 fun h => h.elim hreserved.2.1 hreserved.2.2.1
      · rintro ⟨rfl, hmem⟩
        simp only [List.forall_mem_cons, if_true] at hreserved
        exact hmem.elim hreserved.1 fun h => h.elim hreserved.2.1 hreserved.2.2.1

section

variable (parseQuantity : String → Except Err Int)

/-- What the artifact of a parsed model is like. -/
structure CheckedCache (object : Json) (backend : String) (cache : CacheSpec) : Prop where
  revision : cache.revision = optionalString object ["spec", "model", "revision"]
  commit : cache.revision ≠ "" → isCommitSHA cache.revision = true
  size : cache.revision ≠ "" → ∃ n, parseExpectedSize parseQuantity object = .ok n
  files : cache.revision ≠ "" → backend = "llama-cpp" →
    parseFiles object = .ok cache.files

theorem parseExpectedSize_ok_iff {parseQuantity : String → Except Err Int} :
    (∃ n, parseExpectedSize parseQuantity object = .ok n) ↔
      (optionalString object ["spec", "artifact", "expectedSize"] ≠ "" →
        ∃ n, parseQuantity (optionalString object ["spec", "artifact", "expectedSize"]) = .ok n ∧
          1 ≤ n) := by
  unfold parseExpectedSize
  dsimp only
  by_cases hempty : optionalString object ["spec", "artifact", "expectedSize"] = ""
  · simp [hempty]
  · rw [if_neg hempty]
    cases parseQuantity (optionalString object ["spec", "artifact", "expectedSize"]) with
    | error e => simp [hempty]
    | ok n =>
      by_cases hn : n < 1
      · simp [hempty, hn]
      · simp [hempty, hn, not_lt.mp hn]

theorem parseFiles_ne_nil {files : List String} (h : parseFiles object = .ok files) :
    files ≠ [] := by
  unfold parseFiles at h
  split at h
  · cases h
    exact List.cons_ne_nil _ _
  · cases h

theorem checkedCache {parseQuantity : String → Except Err Int} {source : String} {cache : CacheSpec}
    (h : parseCacheSpec parseQuantity object source backend = .ok cache) :
    CheckedCache parseQuantity object backend cache := by
  unfold parseCacheSpec at h
  simp only [bind, Except.bind, pure, Except.pure, throw, throwThe, MonadExceptOf.throw] at h
  by_cases hrevision : optionalString object ["spec", "model", "revision"] = ""
  · rw [if_pos hrevision] at h
    cases h
    exact ⟨hrevision.symm, fun hne => absurd rfl hne, fun hne => absurd rfl hne,
      fun hne => absurd rfl hne⟩
  · rw [if_neg hrevision] at h
    by_cases hcommit : isCommitSHA (optionalString object ["spec", "model", "revision"]) = true
    · rw [if_neg (by simpa using hcommit)] at h
      cases hsize : parseExpectedSize parseQuantity object with
      | error e => rw [hsize] at h; cases h
      | ok n =>
        rw [hsize] at h
        dsimp only at h
        by_cases hbackend : backend = "llama-cpp"
        · rw [if_pos hbackend] at h
          cases hfiles : parseFiles object with
          | error e => rw [hfiles] at h; cases h
          | ok files =>
            rw [hfiles] at h
            cases h
            exact ⟨rfl, fun _ => hcommit, fun _ => ⟨n, hsize⟩, fun _ _ => hfiles⟩
        · rw [if_neg hbackend] at h
          cases h
          exact ⟨rfl, fun _ => hcommit, fun _ => ⟨n, hsize⟩, fun _ hb => absurd hb hbackend⟩
    · rw [if_pos (by simpa using hcommit)] at h
      cases h

/-- A model without a revision has nothing to check, one with a revision has three things. -/
theorem exists_parseCacheSpec {parseQuantity : String → Except Err Int} (source : String)
    (h : optionalString object ["spec", "model", "revision"] ≠ "" →
      isCommitSHA (optionalString object ["spec", "model", "revision"]) = true ∧
      (∃ n, parseExpectedSize parseQuantity object = .ok n) ∧
      (backend = "llama-cpp" → ∃ files, parseFiles object = .ok files)) :
    ∃ cache, parseCacheSpec parseQuantity object source backend = .ok cache := by
  unfold parseCacheSpec
  simp only [bind, Except.bind, pure, Except.pure, throw, throwThe, MonadExceptOf.throw]
  by_cases hrevision : optionalString object ["spec", "model", "revision"] = ""
  · rw [if_pos hrevision]
    exact ⟨_, rfl⟩
  · obtain ⟨hcommit, ⟨n, hsize⟩, hfiles⟩ := h hrevision
    rw [if_neg hrevision, if_neg (by simpa using hcommit), hsize]
    dsimp only
    by_cases hbackend : backend = "llama-cpp"
    · obtain ⟨files, hfiles⟩ := hfiles hbackend
      rw [if_pos hbackend, hfiles]
      exact ⟨_, rfl⟩
    · rw [if_neg hbackend]
      exact ⟨_, rfl⟩

/-! ## The two readings of one object -/

/-- What is read leniently is what is decoded, unless decoding fails. -/
theorem optionalString_eq {s : String} (h : object.stringAt path = .ok s) :
    optionalString object path = s := by
  unfold optionalString
  cases hs : object.nestedString path with
  | ok v =>
    have := Json.stringAt_of_nestedString hs
    rw [h] at this
    cases v with
    | none => exact (Except.ok.inj this).symm
    | some v => exact (Except.ok.inj this).symm
  | error e =>
    -- The accessor fails at a value of another type. Decoding fails there too, except at a
    -- null, which is the zero value.
    have hnull : ∀ (object : Json) (path : List String) (e : String),
        object.nestedString path = .error e → object.stringAt path = .ok s → s = "" := by
      clear h hs e
      intro object path e hs h
      induction path generalizing object with
      | nil =>
        cases object with
        | null => exact (Except.ok.inj h).symm
        | str t => cases hs
        | _ => cases h
      | cons f rest ih =>
        cases object with
        | null => exact (Except.ok.inj h).symm
        | obj fields =>
          simp only [Json.stringAt] at h
          simp only [Json.nestedString, Json.nestedField] at hs
          cases hf : Json.lookup fields f with
          | none => rw [hf] at h; exact (Except.ok.inj h).symm
          | some v =>
            rw [hf] at h hs
            exact ih v hs h
        | _ => cases h
    exact (hnull object path e hs h).symm

theorem stringAt_of_requiredString {message s : String}
    (h : requiredString object path message = .ok s) : object.stringAt path = .ok s :=
  Json.stringAt_of_nestedString (requiredString_ok_iff.mp h).1

theorem parseBackend_ok (h : parseBackend object = .ok backend) :
    object.stringAt ["spec", "serving", "backend"] = .ok backend ∧
      (backend = "vllm" ∨ backend = "llama-cpp") := by
  unfold parseBackend at h
  split at h
  · rename_i t ht
    split at h
    · cases h
    · rename_i hb
      cases h
      exact ⟨Json.stringAt_of_nestedString ht, by tauto⟩
  · cases h

/-- A reference that is not set reads as the empty one. -/
theorem parseBackendRef_eq {ref : String} {declared : Option String}
    (h : parseBackendRef object = .ok ref) (hd : decodeBackendRef object = .ok declared) :
    ref = declared.getD "" := by
  unfold parseBackendRef at h
  split at h
  · rename_i r hr
    cases h
    unfold decodeBackendRef at hd
    cases ho : object.objectAt ["spec", "backendRef"] with
    | error e => rw [ho] at hd; cases hd
    | ok set =>
      rw [ho] at hd
      cases set with
      | true =>
        simp only [bind, Except.bind, if_true, Json.stringAt_of_nestedString hr] at hd
        cases hd
        rfl
      | false =>
        cases hd
        have hnone := Json.nestedField_of_objectAt ho "name"
        unfold Json.nestedString at hr
        rw [show ["spec", "backendRef", "name"] = ["spec", "backendRef"] ++ ["name"] from rfl,
          hnone] at hr
        cases hr
        rfl
  · cases h

theorem of_decodeArtifact_none (h : decodeArtifact object = .ok none) :
    object.objectAt ["spec", "artifact"] = .ok false := by
  unfold decodeArtifact at h
  obtain ⟨set, hset, h⟩ := ok_of_bind h
  cases set with
  | false => exact hset
  | true =>
    rw [if_pos rfl] at h
    obtain ⟨_, -, h⟩ := ok_of_bind h
    obtain ⟨_, -, h⟩ := ok_of_bind h
    obtain ⟨_, -, h⟩ := ok_of_bind h
    cases h

theorem of_decodeArtifact_some {artifact : ArtifactSpec}
    (h : decodeArtifact object = .ok (some artifact)) :
    object.stringAt ["spec", "artifact", "expectedSize"] = .ok artifact.expectedSize ∧
      object.stringsAt ["spec", "artifact", "files"] = .ok artifact.files := by
  unfold decodeArtifact at h
  obtain ⟨set, -, h⟩ := ok_of_bind h
  cases set with
  | false => cases h
  | true =>
    rw [if_pos rfl] at h
    obtain ⟨size, hsize, h⟩ := ok_of_bind h
    obtain ⟨files, hfiles, h⟩ := ok_of_bind h
    obtain ⟨_, -, h⟩ := ok_of_bind h
    cases h
    exact ⟨hsize, hfiles⟩

/-- The size that is read is the declared one. -/
theorem expectedSize_eq {artifact : Option ArtifactSpec}
    (h : decodeArtifact object = .ok artifact) :
    optionalString object ["spec", "artifact", "expectedSize"] =
      (artifact.map ArtifactSpec.expectedSize).getD "" := by
  cases artifact with
  | none =>
    have hnone := Json.nestedField_of_objectAt (of_decodeArtifact_none h) "expectedSize"
    rw [show ["spec", "artifact"] ++ ["expectedSize"] = ["spec", "artifact", "expectedSize"] from
      rfl] at hnone
    rw [optionalString, Json.nestedString, hnone]
    rfl
  | some artifact => exact optionalString_eq (of_decodeArtifact_some h).1

/-- What the two readings of one object have in common. -/
structure SameModel (spec : LLMModelSpec) (cfg : CatalogModel) : Prop where
  name : cfg.name = spec.model.name
  source : cfg.modelSource = spec.model.source
  backend : cfg.backend = spec.serving.backend.text
  backendRef : cfg.backendRef = spec.backendRef.getD ""

/-- The stages of `parseLLMModel` that went well. -/
structure Parsed (object : Json) (cfg : CatalogModel) :
    Prop where
  name : requiredString object ["spec", "model", "name"] "spec.model.name is required" =
    .ok cfg.name
  source : requiredString object ["spec", "model", "source"] "spec.model.source is required" =
    .ok cfg.modelSource
  backend : parseBackend object = .ok cfg.backend
  backendRef : parseBackendRef object = .ok cfg.backendRef
  displayName : requiredString object ["spec", "serving", "displayName"]
    "spec.serving.displayName is required" = .ok cfg.displayName
  maxModelLen : parseMaxModelLen object = .ok cfg.maxModelLen
  args : parseArgs object cfg.backend = .ok cfg.args
  cache : parseCacheSpec parseQuantity object cfg.modelSource cfg.backend = .ok cfg.cache
  origin : cfg.source = "crd/" ++ optionalString object ["metadata", "name"]

theorem parsed_of_parseLLMModel {parseQuantity : String → Except Err Int}
    (h : parseLLMModel parseQuantity object = .ok cfg) : Parsed parseQuantity object cfg := by
  unfold parseLLMModel at h
  obtain ⟨name, hname, h⟩ := ok_of_bind h
  obtain ⟨source, hsource, h⟩ := ok_of_bind h
  obtain ⟨backend, hbackend, h⟩ := ok_of_bind h
  obtain ⟨backendRef, href, h⟩ := ok_of_bind h
  obtain ⟨displayName, hdisplay, h⟩ := ok_of_bind h
  obtain ⟨maxModelLen, hlen, h⟩ := ok_of_bind h
  obtain ⟨args, hargs, h⟩ := ok_of_bind h
  obtain ⟨cache, hcache, h⟩ := ok_of_bind h
  cases h
  exact ⟨hname, hsource, hbackend, href, hdisplay, hlen, hargs, hcache, rfl⟩

/-- The parts of the typed object that the proxy reads as well. -/
structure Decoded (object : Json) (spec : LLMModelSpec) : Prop where
  name : object.stringAt ["spec", "model", "name"] = .ok spec.model.name
  source : object.stringAt ["spec", "model", "source"] = .ok spec.model.source
  revision : object.stringAt ["spec", "model", "revision"] = .ok spec.model.revision
  artifactRepository : object.stringAt ["spec", "model", "artifactRepository"] =
    .ok spec.model.artifactRepository
  artifact : decodeArtifact object = .ok spec.artifact
  backend : object.stringAt ["spec", "serving", "backend"] = .ok spec.serving.backend.text
  backendType : spec.serving.backend = backendTypeOf spec.serving.backend.text
  args : object.stringsAt ["spec", "serving", "args"] = .ok spec.serving.args
  backendRef : decodeBackendRef object = .ok spec.backendRef

theorem decoded_of_decodeModelSpec {spec : LLMModelSpec} (h : decodeModelSpec object = .ok spec) :
    Decoded object spec := by
  unfold decodeModelSpec at h
  obtain ⟨name, hname, h⟩ := ok_of_bind h
  obtain ⟨source, hsource, h⟩ := ok_of_bind h
  obtain ⟨revision, hrevision, h⟩ := ok_of_bind h
  obtain ⟨artifactRepository, hrepository, h⟩ := ok_of_bind h
  obtain ⟨artifact, hartifact, h⟩ := ok_of_bind h
  obtain ⟨backend, hbackend, h⟩ := ok_of_bind h
  obtain ⟨displayName, -, h⟩ := ok_of_bind h
  obtain ⟨maxModelLen, -, h⟩ := ok_of_bind h
  obtain ⟨toolCallParser, -, h⟩ := ok_of_bind h
  obtain ⟨reasoningParser, -, h⟩ := ok_of_bind h
  obtain ⟨chatTemplate, -, h⟩ := ok_of_bind h
  obtain ⟨args, hargs, h⟩ := ok_of_bind h
  obtain ⟨backendRef, href, h⟩ := ok_of_bind h
  cases h
  have htext := (text_backendTypeOf backend).symm
  exact ⟨hname, hsource, hrevision, hrepository, hartifact, hbackend.trans (congrArg _ htext),
    congrArg backendTypeOf htext, hargs, href⟩

theorem sameModel {parseQuantity : String → Except Err Int} {spec : LLMModelSpec}
    (hdecoded : Decoded object spec) (hparsed : Parsed parseQuantity object cfg) :
    SameModel spec cfg where
  name := Except.ok.inj ((stringAt_of_requiredString hparsed.name).symm.trans hdecoded.name)
  source := Except.ok.inj ((stringAt_of_requiredString hparsed.source).symm.trans hdecoded.source)
  backend := Except.ok.inj ((parseBackend_ok hparsed.backend).1.symm.trans hdecoded.backend)
  backendRef := parseBackendRef_eq hparsed.backendRef hdecoded.backendRef

/-! ## The registry -/

/-- The registry takes a model that can be read and whose name is new. -/
theorem checks_loadModel :
    Loading.Checks (loadModel parseQuantity) (fun cfg => cfg.name)
      fun object cfg => parseLLMModel parseQuantity object = .ok cfg where
  ok_iff models object next := by
    unfold loadModel
    cases hcfg : parseLLMModel parseQuantity object with
    | error e => simp
    | ok cfg =>
      dsimp only
      split
      · rename_i htaken
        constructor
        · intro h
          cases h
        · rintro ⟨_, hc, hnew, -⟩
          cases hc
          rw [hnew] at htaken
          cases htaken
      · rename_i hnew
        constructor
        · intro h
          cases h
          exact ⟨cfg, rfl, by simpa using hnew, rfl⟩
        · rintro ⟨_, hc, -, rfl⟩
          cases hc
          rfl
  unique object c d hc hd := Except.ok.inj (hc.symm.trans hd)

end

/-- The registry holds the listed models, each under its name. -/
theorem lookup_loadModels_iff {parseQuantity : String → Except Err Int} {objects : List Json}
    {loaded : FMap String CatalogModel} (h : loadModels parseQuantity objects = .ok loaded)
    {name : String} :
    loaded.lookup name = some cfg ↔
      cfg.name = name ∧ ∃ object ∈ objects, parseLLMModel parseQuantity object = .ok cfg := by
  rw [(checks_loadModel parseQuantity).lookup_iff h]
  simp

/-- Every listed object is in the registry under the name of its model. -/
theorem lookup_loadModels {parseQuantity : String → Except Err Int} {objects : List Json}
    {loaded : FMap String CatalogModel} (h : loadModels parseQuantity objects = .ok loaded)
    (ho : object ∈ objects) :
    ∃ cfg, parseLLMModel parseQuantity object = .ok cfg ∧ loaded.lookup cfg.name = some cfg := by
  obtain ⟨cfg, hcfg, -⟩ :=
    ((checks_loadModel parseQuantity).exists_foldlM_iff.mp ⟨loaded, h⟩).1 object ho
  exact ⟨cfg, hcfg, (lookup_loadModels_iff h).mpr ⟨rfl, object, ho, hcfg⟩⟩

end LlmOperator.Proxy
