import LlmOperator.Api.Types
import LlmOperator.Data.GoString

/-!
# Runtime drivers

`internal/backend/driver.go`: the translation of portable model intent into arguments and
cache requests of a runtime, with the three compiled-in drivers. A driver is a record, and
its functions are shared by all of them. The functions that talk to a running backend are
calls of the controllers (`Controller/Calls.lean`).
-/

namespace LlmOperator.Backend

open Api Data.GoString

/-- The artifact layout a runtime consumes. -/
inductive CacheFormat where
  | huggingFace
  | gguf
  deriving DecidableEq

/-- `cacheManagerKind`. -/
def cacheManagerKind : CacheFormat → String
  | .huggingFace => "huggingface-hub"
  | .gguf => "huggingface-files"

/-- `runtimeDriver`, with the capabilities its functions look at. -/
structure RuntimeDriver where
  kind : BackendType
  toolCallParser : Bool
  reasoningParser : Bool
  chatTemplate : Bool
  cacheFormat : CacheFormat
  healthPath : String
  injectedFlags : List String
  toolCallFlag : String
  reasoningFlag : String
  chatTemplateFlags : List String
  build : LLMModel → List String → List String

/-! ## Sizes -/

/-- `strconv.ParseInt(s, 10, 64)` on the digits after an optional sign. -/
def parseDigits (acc : Nat) : List Char → Option Nat
  | [] => some acc
  | c :: cs =>
    if '0' ≤ c ∧ c ≤ '9' then parseDigits (acc * 10 + (c.toNat - '0'.toNat)) cs else none

/-- The sign of a number and what follows it. -/
def splitSign : List Char → Bool × List Char
  | '-' :: cs => (true, cs)
  | '+' :: cs => (false, cs)
  | cs => (false, cs)

/-- `strconv.ParseInt(s, 10, 64)`. -/
def parseInt (s : String) : Except Err Int :=
  let (negative, digits) := splitSign s.toList
  match digits, parseDigits 0 digits with
  | _ :: _, some n =>
    let value : Int := if negative then -n else n
    if value < -2 ^ 63 ∨ 2 ^ 63 ≤ value then
      .error (.other ("strconv.ParseInt: parsing " ++ quote s ++ ": value out of range"))
    else .ok value
  | _, _ => .error (.other ("strconv.ParseInt: parsing " ++ quote s ++ ": invalid syntax"))

/-- The suffix table of `parseSize`. The source iterates over a map with these entries, in
an order that is not fixed. -/
def sizeSuffixes : List (String × Int) :=
  [("Gi", 1024 * 1024 * 1024), ("Mi", 1024 * 1024), ("Ki", 1024),
    ("G", 1000 * 1000 * 1000), ("M", 1000 * 1000), ("K", 1000)]

/-- `parseSize`, with the suffix table in the order of the iteration. The product is that
of 64-bit integers. -/
def parseSizeIn (table : List (String × Int)) (size : String) : Except Err Int := do
  let (digits, multiplier) :=
    match table.find? fun entry => hasSuffix size entry.1 with
    | some (suffix, value) => (trimSuffix size suffix, value)
    | none => (size, 1)
  let value ← parseInt digits
  if value ≤ 0 then throw (.other "size must be greater than zero")
  return (value * multiplier).bmod (2 ^ 64)

def parseSize (size : String) : Except Err Int := parseSizeIn sizeSuffixes size

example : parseSize "60Gi" = .ok (60 * 1024 * 1024 * 1024) := by decide +kernel

/-! ## Validation -/

/-- Whether `arg` sets one of the flags the controller injects. -/
def isInjected (flags : List String) (arg : String) : Bool :=
  flags.any fun flag => arg == flag || hasPrefix arg (flag ++ "=") || hasPrefix arg (flag ++ " ")

def containsFlag (args : List String) (flag : String) : Bool :=
  args.any fun arg => arg == flag || hasPrefix arg (flag ++ "=")

variable {d : RuntimeDriver} {model : LLMModel}

namespace RuntimeDriver

/-- `ValidateArgs`: the first injected flag is reported. -/
def validateArgs (d : RuntimeDriver) (args : List String) : Except Err Unit :=
  match args.find? (isInjected d.injectedFlags) with
  | some arg => .error (.other ("arg " ++ quote arg ++
      " is a controller-injected flag and must not be in spec.serving.args"))
  | none => .ok ()

/-- The part of `Validate` about the serving options. -/
def validateServing (d : RuntimeDriver) (model : LLMModel) : Except Err Unit := do
  let serving := model.spec.serving
  if serving.backend ≠ .empty ∧ serving.backend ≠ d.kind then
    throw (.other ("driver " ++ quote d.kind.text ++
      " cannot serve model configured for backend " ++
      quote serving.backend.text))
  d.validateArgs serving.args
  if serving.toolCallParser ≠ "" then
    if !d.toolCallParser then
      throw (.other ("backend " ++ quote d.kind.text ++ " does not support toolCallParser"))
    if containsFlag serving.args d.toolCallFlag then
      throw (.other ("toolCallParser cannot be used with raw " ++ quote d.toolCallFlag ++ " args"))
  if serving.reasoningParser ≠ "" then
    if !d.reasoningParser then
      throw (.other ("backend " ++ quote d.kind.text ++ " does not support reasoningParser"))
    if containsFlag serving.args d.reasoningFlag then
      throw (.other
        ("reasoningParser cannot be used with raw " ++ quote d.reasoningFlag ++ " args"))
  if serving.chatTemplate.isSome then
    if !d.chatTemplate then
      throw (.other ("backend " ++ quote d.kind.text ++ " does not support chatTemplate"))
    match d.chatTemplateFlags.find? (containsFlag serving.args) with
    | some flag => throw (.other ("chatTemplate cannot be used with raw " ++ quote flag ++ " args"))
    | none => pure ()

/-- The part of `Validate` about the files of an artifact. -/
def validateFiles (d : RuntimeDriver) (model : LLMModel) (artifact : ArtifactSpec) :
    Except Err Unit := do
  if d.cacheFormat = .gguf then
    if model.spec.model.artifactRepository = "" then
      throw (.other ("backend " ++ quote d.kind.text ++
        " requires model.artifactRepository for cached GGUF artifacts"))
    if artifact.files = [] then
      throw (.other ("backend " ++ quote d.kind.text ++
        " requires artifact.files for cached GGUF artifacts"))
    let target := artifact.materializationTarget
    if target ≠ "" then
      if !hasPrefix target "gguf/" || cleanPath target != target || hasPrefix target "/" ||
          contains target ".." then
        throw (.other ("backend " ++ quote d.kind.text ++
          " requires artifact.materializationTarget to be a clean relative path rooted at gguf/"))

/-- The part of `Validate` about the artifact. -/
def validateArtifact (d : RuntimeDriver) (model : LLMModel) : Except Err Unit := do
  match model.spec.artifact with
  | none => return
  | some artifact =>
    if artifact.expectedSize ≠ "" then
      match parseSize artifact.expectedSize with
      | .error e =>
        throw (.wrap ("invalid artifact expectedSize " ++ quote artifact.expectedSize) e)
      | .ok _ => pure ()
    d.validateFiles model artifact

/-- `Validate`. -/
def validate (d : RuntimeDriver) (model : LLMModel) : Except Err Unit := do
  d.validateServing model
  d.validateArtifact model

/-! ## Arguments -/

def chatTemplateMountPath : String := "/etc/llm-templates/chat-template.jinja"

def chatTemplateArgs (d : RuntimeDriver) : List String :=
  match d.kind with
  | .vllm => ["--chat-template", chatTemplateMountPath]
  | .llamaCpp => ["--jinja", "--chat-template-file", chatTemplateMountPath]
  | _ => []

/-- `EffectiveArgs`: the arguments of the model, then those of the controller. -/
def effectiveArgs (d : RuntimeDriver) (model : LLMModel) : List String :=
  let serving := model.spec.serving
  d.build model serving.args ++
    (if serving.toolCallParser ≠ "" ∧ d.toolCallFlag ≠ "" then
      [d.toolCallFlag, serving.toolCallParser] else []) ++
    (if serving.reasoningParser ≠ "" ∧ d.reasoningFlag ≠ "" then
      [d.reasoningFlag, serving.reasoningParser] else []) ++
    (if serving.chatTemplate.isSome then d.chatTemplateArgs else [])

/-! ## Cache requests -/

/-- `CacheRequest`. A hub runtime always needs its snapshot; a file runtime only has one
when the model declares an artifact. -/
def cacheRequest (d : RuntimeDriver) (model : LLMModel) : Except Err (Option CacheRequest) := do
  d.validate model
  if d.cacheFormat ≠ .huggingFace ∧ model.spec.artifact = none then
    return none
  let repository :=
    if d.cacheFormat = .gguf then model.spec.model.artifactRepository else model.spec.model.name
  let cacheSpec : CacheSpec :=
    { kind := cacheManagerKind d.cacheFormat
      repoID := repository
      revision := model.spec.model.revision
      size := 0
      files := []
      materializationTarget := "" }
  match model.spec.artifact with
  | none => return some ⟨model.spec.model.name, d.kind.text, cacheSpec⟩
  | some artifact =>
    let size ← if artifact.expectedSize ≠ "" then parseSize artifact.expectedSize else pure 0
    return some
      { model := model.spec.model.name
        backend := d.kind.text
        cache :=
          { cacheSpec with
            files := artifact.files
            materializationTarget := artifact.materializationTarget
            size := size } }

/-! ## Validated models -/

variable {next : Unit → Except Err Unit}

/-- A check that is passed. -/
theorem of_check {c : Prop} [Decidable c] {e : Err}
    (h : (if c then (do let r ← throw e; next r) else next ()) = .ok ()) :
    ¬c ∧ next () = .ok () := by
  split at h
  · cases h
  · exact ⟨‹_›, h⟩

/-- The checks of an option, made only when the option is selected. -/
theorem of_optionCheck {selected unsupported raw : Prop} [Decidable selected]
    [Decidable unsupported] [Decidable raw] {e e' : Err} {flags : Unit → Except Err Unit}
    (hflags : flags () = if raw then (do let r ← throw e'; next r) else next ())
    (h : (if selected then
        if unsupported then (do let r ← throw e; flags r) else flags ()
      else next ()) = .ok ()) : (selected → ¬unsupported ∧ ¬raw) ∧ next () = .ok () := by
  split at h
  · obtain ⟨hsupported, h⟩ := of_check h
    obtain ⟨hraw, h⟩ := of_check (hflags ▸ h)
    exact ⟨fun _ => ⟨hsupported, hraw⟩, h⟩
  · exact ⟨fun hselected => absurd hselected ‹_›, h⟩

theorem of_bind {x : Except Err Unit} (h : x >>= next = .ok ()) :
    x = .ok () ∧ next () = .ok () := by
  cases x with
  | error e => cases h
  | ok _ => exact ⟨rfl, h⟩

/-- What `Validate` has checked of the serving options. -/
structure CheckedServing (d : RuntimeDriver) (serving : ServingSpec) : Prop where
  args : d.validateArgs serving.args = .ok ()
  toolCallParser : serving.toolCallParser ≠ "" →
    d.toolCallParser = true ∧ containsFlag serving.args d.toolCallFlag = false
  reasoningParser : serving.reasoningParser ≠ "" →
    d.reasoningParser = true ∧ containsFlag serving.args d.reasoningFlag = false
  chatTemplate : serving.chatTemplate.isSome = true →
    d.chatTemplate = true ∧ ∀ flag ∈ d.chatTemplateFlags, containsFlag serving.args flag = false

theorem of_validateServing (h : d.validateServing model = .ok ()) :
    d.CheckedServing model.spec.serving := by
  unfold validateServing at h
  extract_lets serving chatFlags chat reasoningFlags reasoning toolFlags tool at h
  obtain ⟨-, h⟩ := of_check h
  obtain ⟨hargs, h⟩ := of_bind h
  obtain ⟨htool, h⟩ := of_optionCheck rfl h
  obtain ⟨hreasoning, h⟩ := of_optionCheck rfl h
  have hchat : serving.chatTemplate.isSome = true → d.chatTemplate = true ∧
      ∀ flag ∈ d.chatTemplateFlags, containsFlag serving.args flag = false := by
    intro hselected
    dsimp only [chat] at h
    rw [if_pos hselected] at h
    obtain ⟨hsupported, h⟩ := of_check h
    dsimp only [chatFlags] at h
    split at h
    · cases h
    · rename_i hnone
      exact ⟨by simpa using hsupported, by simpa using hnone⟩
  exact ⟨hargs, by simpa using htool, by simpa using hreasoning, hchat⟩

theorem checkedServing (h : d.validate model = .ok ()) : d.CheckedServing model.spec.serving :=
  of_validateServing (of_bind h).1

/-- No argument of a validated model is a flag that the controller injects. -/
theorem notMem_of_validateArgs {args : List String} (h : d.validateArgs args = .ok ())
    {flag : String} (hflag : flag ∈ d.injectedFlags) : flag ∉ args := by
  unfold validateArgs at h
  split at h
  · cases h
  · rename_i hnone
    intro hmem
    refine List.find?_eq_none.mp hnone flag hmem (List.any_eq_true.mpr ⟨flag, hflag, ?_⟩)
    simp

/-- What `Validate` has checked of a target. -/
structure CleanTarget (target : String) : Prop where
  below : hasPrefix target "gguf/" = true
  clean : cleanPath target = target
  relative : hasPrefix target "/" = false

/-- What `Validate` has checked of an artifact. -/
structure CheckedArtifact (d : RuntimeDriver) (model : LLMModel) (artifact : ArtifactSpec) :
    Prop where
  size : artifact.expectedSize ≠ "" → ∃ n, parseSize artifact.expectedSize = .ok n
  repository : d.cacheFormat = .gguf → model.spec.model.artifactRepository ≠ ""
  files : d.cacheFormat = .gguf → artifact.files ≠ []
  target : d.cacheFormat = .gguf → artifact.materializationTarget ≠ "" →
    CleanTarget artifact.materializationTarget

theorem checkedArtifact {artifact : ArtifactSpec} (h : d.validate model = .ok ())
    (ha : model.spec.artifact = some artifact) : d.CheckedArtifact model artifact := by
  obtain ⟨-, h⟩ := of_bind h
  unfold validateArtifact at h
  rw [ha] at h
  simp only [bind, Except.bind, throw, throwThe, MonadExceptOf.throw] at h
  have hsize : artifact.expectedSize ≠ "" → ∃ n, parseSize artifact.expectedSize = .ok n := by
    intro hne
    rw [if_pos hne] at h
    cases hp : parseSize artifact.expectedSize with
    | error e => rw [hp] at h; cases h
    | ok n => exact ⟨n, rfl⟩
  have hfiles : d.validateFiles model artifact = .ok () := by
    by_cases hne : artifact.expectedSize ≠ ""
    · obtain ⟨n, hn⟩ := hsize hne
      rw [if_pos hne, hn] at h
      exact h
    · rw [if_neg hne] at h
      exact h
  unfold validateFiles at hfiles
  simp only [bind, Except.bind, throw, throwThe, MonadExceptOf.throw] at hfiles
  repeat' split at hfiles
  all_goals cases hfiles
  · rename_i hr hf _ ht
    simp only [Bool.not_eq_true, Bool.or_eq_false_iff, Bool.not_eq_false', bne_eq_false_iff_eq]
      at ht
    exact ⟨hsize, fun _ => hr, fun _ => hf, fun _ _ => ⟨ht.1.1.1, ht.1.1.2, ht.1.2⟩⟩
  · rename_i hr hf ht
    exact ⟨hsize, fun _ => hr, fun _ => hf, fun _ hne => absurd hne ht⟩
  · rename_i hf
    exact ⟨hsize, fun h => absurd h hf, fun h => absurd h hf, fun h => absurd h hf⟩

/-- The size an artifact declares, zero if it declares none. -/
def declaredSize (artifact : ArtifactSpec) : Int :=
  match parseSize artifact.expectedSize with
  | .ok n => n
  | .error _ => 0

theorem declaredSize_eq_zero {artifact : ArtifactSpec} (h : artifact.expectedSize = "") :
    declaredSize artifact = 0 := by
  delta declaredSize
  rw [h]
  rfl

/-- The specification of a model's artifact. -/
def cacheSpecOf (d : RuntimeDriver) (model : LLMModel) (artifact : Option ArtifactSpec) :
    CacheSpec where
  kind := cacheManagerKind d.cacheFormat
  repoID := if d.cacheFormat = .gguf then model.spec.model.artifactRepository
    else model.spec.model.name
  revision := model.spec.model.revision
  size := (artifact.map declaredSize).getD 0
  files := (artifact.map ArtifactSpec.files).getD []
  materializationTarget := (artifact.map ArtifactSpec.materializationTarget).getD ""

/-- A validated model has a cache request, unless it has nothing to cache. -/
theorem cacheRequest_of_validate (h : d.validate model = .ok ()) :
    d.cacheRequest model = .ok (if d.cacheFormat ≠ .huggingFace ∧ model.spec.artifact = none
      then none
      else some ⟨model.spec.model.name, d.kind.text, d.cacheSpecOf model model.spec.artifact⟩) := by
  unfold cacheRequest
  rw [h]
  dsimp only [bind, Except.bind]
  split
  · rfl
  · cases ha : model.spec.artifact with
    | none => rfl
    | some artifact =>
      by_cases hne : artifact.expectedSize ≠ ""
      · obtain ⟨n, hn⟩ := (checkedArtifact h ha).size hne
        have hsize : declaredSize artifact = n := by
          delta declaredSize
          rw [hn]
        simp only [if_pos hne, hn, cacheSpecOf, Option.map_some, Option.getD_some, hsize]
        rfl
      · have hsize := declaredSize_eq_zero (not_not.mp hne)
        simp only [if_neg hne, cacheSpecOf, Option.map_some, Option.getD_some, hsize]
        rfl

/-- The cache request of a validated model, if there is one. -/
theorem cacheRequest_eq_some {req : CacheRequest} (h : d.validate model = .ok ())
    (hreq : d.cacheRequest model = .ok (some req)) :
    (d.cacheFormat = .huggingFace ∨ model.spec.artifact ≠ none) ∧
      req = ⟨model.spec.model.name, d.kind.text, d.cacheSpecOf model model.spec.artifact⟩ := by
  rw [cacheRequest_of_validate h] at hreq
  split at hreq
  · cases hreq
  · rename_i hcached
    cases hreq
    exact ⟨by tauto, rfl⟩

/-- Sizes are 64-bit integers. -/
theorem declaredSize_bounds (artifact : ArtifactSpec) :
    -2 ^ 63 ≤ declaredSize artifact ∧ declaredSize artifact < 2 ^ 63 := by
  delta declaredSize
  split
  · rename_i n hn
    unfold parseSize parseSizeIn at hn
    simp only [bind, Except.bind, pure, Except.pure] at hn
    split at hn
    · cases hn
    · split at hn
      · cases hn
      · cases hn
        exact ⟨Int.le_bmod (by decide), Int.bmod_lt (by decide)⟩
  · decide

end RuntimeDriver

/-! ## The compiled-in drivers -/

def vllmDriver : RuntimeDriver where
  kind := .vllm
  toolCallParser := true
  reasoningParser := true
  chatTemplate := true
  cacheFormat := .huggingFace
  healthPath := "/health"
  injectedFlags := ["--model", "--revision", "--served-model-name"]
  toolCallFlag := "--tool-call-parser"
  reasoningFlag := "--reasoning-parser"
  chatTemplateFlags := ["--chat-template"]
  build model args :=
    args ++ ["--model", model.spec.model.source] ++
      (if model.spec.model.revision ≠ "" then ["--revision", model.spec.model.revision] else []) ++
      ["--served-model-name", model.spec.model.name]

def llamaCPPDriver : RuntimeDriver where
  kind := .llamaCpp
  toolCallParser := false
  reasoningParser := false
  chatTemplate := true
  cacheFormat := .gguf
  healthPath := "/health"
  injectedFlags := ["-m", "--model", "--alias"]
  toolCallFlag := ""
  reasoningFlag := ""
  chatTemplateFlags := ["--chat-template-file", "--jinja"]
  build model args :=
    args ++ ["-m", model.spec.model.source, "--alias", model.spec.model.name]

def sglangDriver : RuntimeDriver where
  kind := .sglang
  toolCallParser := true
  reasoningParser := true
  chatTemplate := false
  cacheFormat := .huggingFace
  healthPath := "/health_generate"
  injectedFlags := ["--model-path", "--revision", "--served-model-name"]
  toolCallFlag := "--tool-call-parser"
  reasoningFlag := "--reasoning-parser"
  chatTemplateFlags := []
  build model args :=
    args ++ ["--model-path", model.spec.model.source] ++
      (if model.spec.model.revision ≠ "" then ["--revision", model.spec.model.revision] else []) ++
      ["--served-model-name", model.spec.model.name]

/-- `DefaultRegistry().Driver(kind)`. -/
def driverFor : BackendType → Except Err RuntimeDriver
  | .vllm => .ok vllmDriver
  | .llamaCpp => .ok llamaCPPDriver
  | .sglang => .ok sglangDriver
  | .other s => .error (.other ("unsupported backend type " ++ quote s))

/-- `effectiveArgs` of the controllers: the bare arguments when there is no driver. -/
def effectiveArgs (model : LLMModel) : List String :=
  match driverFor model.spec.serving.backend with
  | .error _ => model.spec.serving.args
  | .ok driver => driver.effectiveArgs model

theorem RuntimeDriver.effectiveArgs_congr {kind : BackendType} (hd : driverFor kind = .ok d)
    {model' : LLMModel} (h : model.spec = model'.spec) :
    d.effectiveArgs model = d.effectiveArgs model' := by
  have hbuild : d.build model = d.build model' := by
    funext args
    cases kind <;> cases hd <;> simp only [vllmDriver, llamaCPPDriver, sglangDriver, h]
  unfold RuntimeDriver.effectiveArgs
  rw [hbuild, h]

theorem effectiveArgs_congr {model' : LLMModel} (h : model.spec = model'.spec) :
    effectiveArgs model = effectiveArgs model' := by
  unfold effectiveArgs
  rw [h]
  split
  · rfl
  · rename_i hd
    exact RuntimeDriver.effectiveArgs_congr hd h

end LlmOperator.Backend
