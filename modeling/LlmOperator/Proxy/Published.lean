import LlmOperator.Data.Schema
import LlmOperator.Proxy.Backends
import LlmOperator.Proxy.Registry

/-!
# Which catalogs are published

The API server stores the LLMModels that the schema of the custom resource and the validating
webhook accept. The proxy reads the stored objects once more, with rules of its own, and a
refresh publishes all of them or nothing. `catalog_published_iff` says what is asked of accepted
models, of the overlays and of the status ConfigMap beyond acceptance.
-/

namespace LlmOperator.Proxy

open Api Data Data.GoString Interaction Interaction.Prog Backend

/-! ## Accepted models -/

/-- Letters, digits, dots, underscores, slashes and hyphens, at least one of them. -/
def modelNamePattern (s : String) : Bool :=
  s ≠ "" && s.toList.all fun c => c.isAlphanum || c = '.' || c = '_' || c = '/' || c = '-'

/-- Sixty-four hexadecimal digits in lower case. -/
def sha256Pattern (s : String) : Bool :=
  s.toList.length == 64 && s.toList.all fun c => ('a' ≤ c && c ≤ 'f') || ('0' ≤ c && c ≤ '9')

/-- The schema of the spec of an LLMModel. -/
def llmModelSpecSchema : Schema :=
  .object
    [("artifact", false, .object
      [("expectedSize", false, .text), ("files", false, .array .text),
        ("materializationTarget", false, .text)]),
    ("backendRef", false, .object [("name", false, .text)]),
    ("model", true, .object
      [("artifactRepository", false, .text), ("name", true, .string modelNamePattern),
        ("revision", false, .text), ("source", true, .string fun s => s ≠ "")]),
    ("serving", true, .object
      [("args", true, .array .text),
        ("backend", true, .string fun s => s = "vllm" || s = "sglang" || s = "llama-cpp"),
        ("chatTemplate", false, .object
          [("configMapKeyRef", true, .object [("key", true, .text), ("name", false, .text)]),
            ("sha256", true, .string sha256Pattern)]),
        ("displayName", true, .text), ("maxModelLen", true, .integer 1),
        ("reasoningParser", false, .text), ("toolCallParser", false, .text)])]

def llmModelSchema : Schema := .object [("spec", false, llmModelSpecSchema)]

/-- The API server and the webhook have accepted the model, the latter in the namespace as it was
then. -/
structure StoredModel.Accepted (m : StoredModel) : Prop where
  schema : llmModelSchema.accepts m.object = true
  admitted : ∃ ns : Namespace, ns.admitModel m.model = .ok ()

/-- What the proxy asks of an accepted model beyond that. -/
structure StoredModel.Publishable (parseQuantity : String → Except Err Int) (m : StoredModel) :
    Prop where
  backend : m.model.spec.serving.backend = .vllm ∨ m.model.spec.serving.backend = .llamaCpp
  source : trimSpace m.model.spec.model.source ≠ ""
  displayName : trimSpace (optionalString m.object ["spec", "serving", "displayName"]) ≠ ""
  args : m.model.spec.serving.args ≠ []
  eachArg : ∀ arg ∈ m.model.spec.serving.args, trimSpace arg ≠ ""
  /-- A revision is the hash of a commit, and comes with an artifact for llama.cpp. -/
  revision : m.model.spec.model.revision ≠ "" → isCommitSHA m.model.spec.model.revision = true
  size : m.model.spec.model.revision ≠ "" → ∀ artifact, m.model.spec.artifact = some artifact →
    artifact.expectedSize ≠ "" → ∃ n, parseQuantity artifact.expectedSize = .ok n ∧ 1 ≤ n
  artifact : m.model.spec.model.revision ≠ "" → m.model.spec.serving.backend = .llamaCpp →
    m.model.spec.artifact ≠ none

variable {cfg : CatalogModel}

section Accepted

variable {m : StoredModel}

theorem driver_of_admitModel {ns : Namespace} {model : LLMModel}
    (h : ns.admitModel model = .ok ()) :
    ∃ d, driverFor model.spec.serving.backend = .ok d ∧ d.validate model = .ok () := by
  unfold Namespace.admitModel at h
  obtain ⟨d, hd, h⟩ := ok_of_bind h
  obtain ⟨_, hvalid, -⟩ := ok_of_bind h
  exact ⟨d, hd, hvalid⟩

theorem StoredModel.Accepted.driver (h : m.Accepted) :
    ∃ d, driverFor m.model.spec.serving.backend = .ok d ∧ d.validate m.model = .ok () := by
  obtain ⟨ns, hns⟩ := h.admitted
  exact driver_of_admitModel hns

theorem StoredModel.decoded (m : StoredModel) : Decoded m.object m.model.spec :=
  decoded_of_decodeModelSpec m.spec

/-- An accepted model has a spec, and the schema holds of it. -/
theorem StoredModel.Accepted.exists_spec (h : m.Accepted) :
    ∃ fields spec, m.object = .obj fields ∧ Json.lookup fields "spec" = some spec ∧
      llmModelSpecSchema.accepts spec = true := by
  have hschema := h.schema
  cases hobject : m.object with
  | obj fields =>
    rw [hobject, llmModelSchema, Schema.accepts] at hschema
    rcases Schema.of_acceptsAll (f := "spec") hschema rfl with ⟨hnone, -⟩ | ⟨spec, hspec, haccepts⟩
    · -- without a spec there is no runtime, and so no driver
      have hbackend := m.decoded.backend
      rw [hobject] at hbackend
      simp only [Json.stringAt, hnone, Except.ok.injEq] at hbackend
      obtain ⟨d, hd, -⟩ := h.driver
      rw [m.decoded.backendType, ← hbackend] at hd
      cases hd
    · exact ⟨fields, spec, rfl, hspec, haccepts⟩
  | _ => rw [hobject] at hschema; simp [llmModelSchema, Schema.accepts] at hschema

/-! What the schema of the spec says about the object. -/

theorem StoredModel.Accepted.holdsAt (h : m.Accepted) {path : List String} {required : Bool}
    {t : Schema} (hpath : llmModelSpecSchema.find path = some (required, t)) :
    t.HoldsAt m.object ("spec" :: path) required := by
  obtain ⟨fields, spec, hobject, hspec, haccepts⟩ := h.exists_spec
  rw [Schema.HoldsAt, hobject, Json.nestedField, hspec]
  exact Schema.nestedField_of_accepts haccepts hpath

/-- What has to be there is refused only when it is blank. -/
theorem StoredModel.Accepted.foundString (h : m.Accepted) (path : List String)
    {check : String → Bool} (hpath : llmModelSpecSchema.find path = some (true, .string check))
    {s : String} (hs : m.object.stringAt ("spec" :: path) = .ok s) :
    check s = true ∧ m.object.nestedString ("spec" :: path) = .ok (some s) := by
  obtain ⟨t, ht, ⟨hfound, hcheck⟩ | ⟨-, -, hfalse⟩⟩ := (h.holdsAt hpath).nestedString
  · rw [hs] at ht
    cases ht
    exact ⟨hcheck, hfound⟩
  · cases hfalse

theorem isSpace_of_isAlphanum {c : Char} (h : c.isAlphanum = true) : isSpace c = false := by
  have hn : 48 ≤ c.toNat ∧ c.toNat ≤ 122 := by
    delta Char.isAlphanum Char.isAlpha Char.isUpper Char.isLower Char.isDigit at h
    simp only [Bool.or_eq_true, Bool.and_eq_true, decide_eq_true_eq, ge_iff_le,
      UInt32.le_iff_toNat_le,
      show 'A'.val.toNat = 65 from rfl, show 'Z'.val.toNat = 90 from rfl,
      show 'a'.val.toNat = 97 from rfl, show 'z'.val.toNat = 122 from rfl,
      show '0'.val.toNat = 48 from rfl, show '9'.val.toNat = 57 from rfl] at h
    have hval : c.toNat = c.val.toNat := rfl
    omega
  simp only [isSpace, Bool.or_eq_false_iff, Bool.and_eq_false_iff, decide_eq_false_iff_not,
    beq_eq_false_iff_ne]
  omega

theorem isSpace_of_nameChar {c : Char}
    (h : (c.isAlphanum || c = '.' || c = '_' || c = '/' || c = '-') = true) :
    isSpace c = false := by
  simp only [Bool.or_eq_true, decide_eq_true_eq] at h
  rcases h with (((h | rfl) | rfl) | rfl) | rfl
  · exact isSpace_of_isAlphanum h
  all_goals rfl

section

variable (h : m.Accepted)
include h

/-- The canonical name is never refused. -/
theorem StoredModel.Accepted.name :
    requiredString m.object ["spec", "model", "name"] "spec.model.name is required" =
      .ok m.model.spec.model.name := by
  obtain ⟨hcheck, hfound⟩ := h.foundString ["model", "name"] rfl m.decoded.name
  simp only [modelNamePattern, Bool.and_eq_true, decide_eq_true_eq, List.all_eq_true] at hcheck
  have htrim : trimSpace m.model.spec.model.name = m.model.spec.model.name :=
    trimSpace_eq_self fun c hc => isSpace_of_nameChar (hcheck.2 c hc)
  rw [requiredString, hfound]
  simp only [htrim, hcheck.1, if_false]

theorem StoredModel.Accepted.source :
    m.object.nestedString ["spec", "model", "source"] = .ok (some m.model.spec.model.source) :=
  (h.foundString ["model", "source"] rfl m.decoded.source).2

theorem StoredModel.Accepted.backend :
    m.object.nestedString ["spec", "serving", "backend"] =
      .ok (some m.model.spec.serving.backend.text) :=
  (h.foundString ["serving", "backend"] rfl m.decoded.backend).2

theorem StoredModel.Accepted.displayName :
    m.object.nestedString ["spec", "serving", "displayName"] =
      .ok (some (optionalString m.object ["spec", "serving", "displayName"])) := by
  obtain ⟨t, -, ⟨hfound, -⟩ | ⟨-, -, hfalse⟩⟩ :=
    (h.holdsAt (show llmModelSpecSchema.find ["serving", "displayName"] = _ from rfl)).nestedString
  · rw [optionalString, hfound]
  · cases hfalse

theorem StoredModel.Accepted.backendRef : ∃ ref, parseBackendRef m.object = .ok ref := by
  obtain ⟨t, -, ⟨hfound, -⟩ | ⟨hfound, -⟩⟩ :=
    (h.holdsAt (show llmModelSpecSchema.find ["backendRef", "name"] = _ from rfl)).nestedString
  · exact ⟨t, by rw [parseBackendRef, hfound]; rfl⟩
  · exact ⟨"", by rw [parseBackendRef, hfound]; rfl⟩

theorem StoredModel.Accepted.maxModelLen : ∃ n, parseMaxModelLen m.object = .ok n := by
  obtain ⟨n, hn, hlow, hhigh⟩ :=
    (h.holdsAt (show llmModelSpecSchema.find ["serving", "maxModelLen"] = _ from rfl)).nestedInt64
  refine ⟨n, ?_⟩
  rw [parseMaxModelLen, hn]
  exact if_neg (by omega)

theorem StoredModel.Accepted.args :
    m.object.nestedStringSlice ["spec", "serving", "args"] =
      .ok (some m.model.spec.serving.args) := by
  obtain ⟨ts, hts, hfound | ⟨-, -, hfalse⟩⟩ :=
    (h.holdsAt (show llmModelSpecSchema.find ["serving", "args"] = _ from rfl)).nestedStringSlice
  · rw [m.decoded.args] at hts
    cases hts
    exact hfound
  · cases hfalse

end

/-- The arguments that the proxy keeps for itself are injected by the driver. -/
theorem mem_injectedFlags {backend : BackendType} {d : RuntimeDriver}
    (hd : driverFor backend = .ok d) {arg : String} (h : arg ∈ reservedArgs backend.text) :
    arg ∈ d.injectedFlags := by
  cases backend with
  | vllm =>
    cases hd
    exact h
  | llamaCpp =>
    cases hd
    exact h
  | sglang => cases h
  | other s => cases hd

/-- The files of an accepted llama.cpp model are there when the artifact is. -/
theorem StoredModel.Accepted.files (h : m.Accepted)
    (hbackend : m.model.spec.serving.backend = .llamaCpp) :
    (∃ files, parseFiles m.object = .ok files) ↔ m.model.spec.artifact ≠ none := by
  have hfind : llmModelSpecSchema.find ["artifact", "files"] = some (false, .array .text) := rfl
  obtain ⟨ts, hts, hfound⟩ := (h.holdsAt hfind).nestedStringSlice
  constructor
  · rintro ⟨files, hfiles⟩ hnone
    have hartifact := m.decoded.artifact
    rw [hnone] at hartifact
    have hmissing := Json.nestedField_of_objectAt (of_decodeArtifact_none hartifact) "files"
    rw [show ["spec", "artifact"] ++ ["files"] = ["spec", "artifact", "files"] from rfl] at hmissing
    rw [parseFiles, Json.nestedStringSlice, hmissing] at hfiles
    cases hfiles
  · intro hsome
    obtain ⟨artifact, hartifact⟩ := Option.ne_none_iff_exists'.mp hsome
    obtain ⟨d, hd, hvalid⟩ := h.driver
    rw [hbackend] at hd
    cases hd
    have hne := (RuntimeDriver.checkedArtifact hvalid hartifact).files rfl
    have hdecoded := m.decoded.artifact
    rw [hartifact] at hdecoded
    rw [(of_decodeArtifact_some hdecoded).2] at hts
    cases hts
    rcases hfound with hfound | ⟨-, hnil, -⟩
    · cases hfiles : artifact.files with
      | nil => exact absurd hfiles hne
      | cons file rest =>
        refine ⟨file :: rest, ?_⟩
        rw [parseFiles, show m.object.nestedStringSlice _ = _ from hfound, hfiles]
    · exact absurd hnil hne

theorem StoredModel.Accepted.publishable {parseQuantity : String → Except Err Int} (h : m.Accepted)
    (hcfg : parseLLMModel parseQuantity m.object = .ok cfg) : m.Publishable parseQuantity := by
  have hparsed := parsed_of_parseLLMModel hcfg
  have hsame := sameModel m.decoded hparsed
  have hcache := checkedCache hparsed.cache
  have hrevision : cfg.cache.revision = m.model.spec.model.revision :=
    hcache.revision.trans (optionalString_eq m.decoded.revision)
  have hdisplay := requiredString_ok_iff.mp hparsed.displayName
  obtain ⟨hargs, hne, hblank, -⟩ := parseArgs_ok_iff.mp hparsed.args
  have hsameArgs : m.model.spec.serving.args = cfg.args :=
    Option.some.inj (Except.ok.inj (h.args.symm.trans hargs))
  refine
    { backend := ?_
      source := hsame.source ▸ (requiredString_ok_iff.mp hparsed.source).2
      displayName := ?_
      args := hsameArgs ▸ hne
      eachArg := hsameArgs ▸ hblank
      revision := fun hset => hrevision ▸ hcache.commit (hrevision ▸ hset)
      size := ?_
      artifact := ?_ }
  · rw [m.decoded.backendType, ← hsame.backend]
    rcases (parseBackend_ok hparsed.backend).2 with hb | hb <;> rw [hb]
    · exact Or.inl rfl
    · exact Or.inr rfl
  · rw [optionalString, hdisplay.1]
    exact hdisplay.2
  · intro hset artifact hartifact
    have hsize := parseExpectedSize_ok_iff.mp (hcache.size (hrevision ▸ hset))
    rw [expectedSize_eq m.decoded.artifact, hartifact] at hsize
    exact hsize
  · intro hset hbackend
    refine (h.files hbackend).mp ⟨_, hcache.files (hrevision ▸ hset) ?_⟩
    rw [hsame.backend, hbackend]
    rfl

theorem StoredModel.Accepted.exists_config {parseQuantity : String → Except Err Int}
    (h : m.Accepted) (hp : m.Publishable parseQuantity) :
    ∃ cfg, parseLLMModel parseQuantity m.object = .ok cfg := by
  obtain ⟨d, hd, hvalid⟩ := h.driver
  obtain ⟨ref, href⟩ := h.backendRef
  obtain ⟨len, hlen⟩ := h.maxModelLen
  have hsource : requiredString m.object ["spec", "model", "source"]
      "spec.model.source is required" = .ok m.model.spec.model.source :=
    requiredString_ok_iff.mpr ⟨h.source, hp.source⟩
  have hdisplay : requiredString m.object ["spec", "serving", "displayName"]
      "spec.serving.displayName is required" =
        .ok (optionalString m.object ["spec", "serving", "displayName"]) :=
    requiredString_ok_iff.mpr ⟨h.displayName, hp.displayName⟩
  have hbackend : parseBackend m.object = .ok m.model.spec.serving.backend.text := by
    rw [parseBackend, h.backend]
    rcases hp.backend with hb | hb <;> rw [hb] <;> rfl
  have hargs : parseArgs m.object m.model.spec.serving.backend.text =
      .ok m.model.spec.serving.args :=
    parseArgs_ok_iff.mpr ⟨h.args, hp.args, hp.eachArg, fun arg harg =>
      RuntimeDriver.notMem_of_validateArgs (RuntimeDriver.checkedServing hvalid).args
        (mem_injectedFlags hd harg)⟩
  have hrevision := optionalString_eq m.decoded.revision
  obtain ⟨cache, hcache⟩ : ∃ cache, parseCacheSpec parseQuantity m.object
      m.model.spec.model.source m.model.spec.serving.backend.text = .ok cache := by
    apply exists_parseCacheSpec
    rw [hrevision]
    intro hset
    refine ⟨hp.revision hset, parseExpectedSize_ok_iff.mpr ?_, ?_⟩
    · rw [expectedSize_eq m.decoded.artifact]
      cases hartifact : m.model.spec.artifact with
      | none => exact fun hne => absurd rfl hne
      | some artifact => exact hp.size hset artifact hartifact
    · intro htext
      rcases hp.backend with hb | hb
      · rw [hb] at htext
        exact absurd htext (by decide)
      · exact (h.files hb).mpr (hp.artifact hset hb)
  simp only [parseLLMModel, h.name, hsource, hbackend, href, hdisplay, hlen, hargs, hcache,
    Bind.bind, Except.bind]
  exact ⟨_, rfl⟩

end Accepted

/-! ## One refresh -/

/-- What a refresh reads. -/
structure CatalogSite where
  models : List StoredModel
  overlays : List Json
  /-- The data of the status ConfigMap, if it exists. -/
  status : Option (FMap String String)

namespace CatalogSite

def data (site : CatalogSite) : FMap String String := site.status.getD ∅

/-- The canonical names of the models. -/
def names (site : CatalogSite) : List String :=
  site.models.map fun m => m.model.spec.model.name

/-- The reads go well. -/
def Answers (site : CatalogSite) : Event CatalogApi → Prop
  | ⟨.listModels, a⟩ => a = .ok (site.models.map StoredModel.object)
  | ⟨.listOverlays, a⟩ => a = .ok site.overlays
  | ⟨.getStatus, a⟩ =>
    match site.status with
    | some data => a = .ok data
    | none => ∃ message, a = .error (.notFound message)
  | ⟨.range models, l⟩ => models.Ranges l
  | _ => True

/-- What the lists come to. -/
def loadLists (parseQuantity : String → Except Err Int) (site : CatalogSite) :
    Except Err (FMap String CatalogModel × FMap String CatalogOverlay) := do
  let models ← loadModels parseQuantity (site.models.map StoredModel.object)
  let overlays ← loadOverlays models site.overlays
  return (models, overlays)

/-- What comes out of the reads when the models are visited in this order. -/
def load (parseQuantity : String → Except Err Int) (site : CatalogSite)
    (order : List CatalogModel) : Except Err Catalog := do
  let (_, overlays) ← site.loadLists parseQuantity
  let entries ← withStatuses site.data order
  return ⟨entries, overlays⟩

variable {parseQuantity : String → Except Err Int} {site : CatalogSite}
  {t : List (Event CatalogApi)} {models : FMap String CatalogModel} {order : List CatalogModel}

theorem runs_readStatus {x : Except Err (FMap String String)} (h : readStatus.Runs t x)
    (ha : ∀ e ∈ t, site.Answers e) : x = .ok site.data := by
  obtain ⟨a, u, rfl, hrest⟩ := runs_call h
  have hstatus := ha _ List.mem_cons_self
  unfold data
  simp only [Answers] at hstatus
  cases hs : site.status with
  | some data =>
    rw [hs] at hstatus
    subst hstatus
    exact (runs_pure hrest).2.symm
  | none =>
    rw [hs] at hstatus
    obtain ⟨message, rfl⟩ := hstatus
    exact (runs_pure hrest).2.symm

theorem runs_loadCRDRegistry
    {x : Except Err (FMap String CatalogModel × FMap String CatalogOverlay)}
    (h : (loadCRDRegistry parseQuantity).Runs t x) (ha : ∀ e ∈ t, site.Answers e) :
    x = site.loadLists parseQuantity := by
  obtain ⟨a, u, rfl, hrest⟩ := runs_call h
  obtain rfl : a = .ok (site.models.map StoredModel.object) := ha _ List.mem_cons_self
  unfold loadLists
  dsimp only [Prog.bind] at hrest
  cases hmodels : loadModels parseQuantity (site.models.map StoredModel.object) with
  | error e =>
    rw [hmodels] at hrest
    exact (runs_pure hrest).2.symm
  | ok models =>
    rw [hmodels] at hrest
    obtain ⟨b, v, rfl, hlast⟩ := runs_call hrest
    obtain rfl : b = .ok site.overlays :=
      ha _ (List.mem_cons_of_mem _ List.mem_cons_self)
    dsimp only [Prog.bind] at hlast
    cases hoverlays : loadOverlays models site.overlays with
    | error e =>
      rw [hoverlays] at hlast
      exact (runs_pure hlast).2.symm.trans (by simp only [hoverlays, Bind.bind, Except.bind])
    | ok overlays =>
      rw [hoverlays] at hlast
      exact (runs_pure hlast).2.symm.trans (by simp only [hoverlays, Bind.bind, Except.bind]; rfl)

/-- What a run of the reads comes to, and the order it has visited the models in. -/
theorem runs_loadCatalog {x : Except Err Catalog} (h : (loadCatalog parseQuantity).Runs t x)
    (ha : ∀ e ∈ t, site.Answers e) :
    ∃ order, x = site.load parseQuantity order ∧ ∀ models overlays,
      site.loadLists parseQuantity = .ok (models, overlays) → models.Ranges order := by
  obtain ⟨y, u, v, rfl, hu, hv⟩ := runs_bind h
  have hy := runs_loadCRDRegistry hu fun e he => ha e (List.mem_append_left v he)
  replace ha : ∀ e ∈ v, site.Answers e := fun e he => ha e (List.mem_append_right u he)
  unfold load
  cases hlists : site.loadLists parseQuantity with
  | error e =>
    rw [hy, hlists] at hv
    exact ⟨[], (runs_pure hv).2.symm, nofun⟩
  | ok lists =>
    obtain ⟨models, overlays⟩ := lists
    rw [hy, hlists] at hv
    obtain ⟨z, u', v', rfl, hu', hv'⟩ := runs_bind hv
    obtain rfl := runs_readStatus hu' fun e he => ha e (List.mem_append_left v' he)
    obtain ⟨order, w, rfl, hlast⟩ := runs_call hv'
    have horder : models.Ranges order := ha _ (List.mem_append_right u' List.mem_cons_self)
    refine ⟨order, ?_, ?_⟩
    · dsimp only [Prog.bind] at hlast
      cases hstatus : withStatuses site.data order with
      | error e =>
        rw [hstatus] at hlast
        exact (runs_pure hlast).2.symm
      | ok entries =>
        rw [hstatus] at hlast
        exact (runs_pure hlast).2.symm
    · intro models' overlays' hsame
      cases hsame
      exact horder

/-- A refresh publishes what the reads come to, or nothing. -/
theorem runs_refreshCatalog {r : Option Err} (h : (refreshCatalog parseQuantity).Runs t r)
    (ha : ∀ e ∈ t, site.Answers e) :
    ∃ order, (∀ models overlays, site.loadLists parseQuantity = .ok (models, overlays) →
        models.Ranges order) ∧
      ∀ next, ⟨.publish next, ()⟩ ∈ t ↔ site.load parseQuantity order = .ok next := by
  obtain ⟨x, u, v, rfl, hu, hv⟩ := runs_bind h
  obtain ⟨order, hx, horder⟩ := runs_loadCatalog hu fun e he => ha e (List.mem_append_left v he)
  have hreads := ((only_loadCatalog parseQuantity).steps hu).1
  refine ⟨order, horder, ?_⟩
  intro next
  rw [← hx, List.mem_append]
  cases x with
  | error e =>
    obtain ⟨rfl, -⟩ := runs_pure hv
    constructor
    · rintro (hmem | hmem)
      · exact (hreads _ hmem).elim
      · cases hmem
    · intro hok
      cases hok
  | ok published =>
    obtain ⟨_, w, rfl, hw⟩ := runs_call hv
    constructor
    · rintro (hmem | hmem)
      · exact (hreads _ hmem).elim
      · rcases List.mem_cons.mp hmem with hsame | hmem
        · cases hsame
          rfl
        · exact ((only_finishRefresh.steps hw).1 _ hmem).elim
    · intro hok
      cases hok
      exact Or.inr List.mem_cons_self

/-! ## What the lists come to -/

theorem name_of_parse {m : StoredModel} (h : parseLLMModel parseQuantity m.object = .ok cfg) :
    cfg.name = m.model.spec.model.name :=
  (sameModel m.decoded (parsed_of_parseLLMModel h)).name

theorem exists_loadModels_iff (haccepted : ∀ m ∈ site.models, m.Accepted)
    (hdistinct : site.names.Nodup) :
    (∃ models, loadModels parseQuantity (site.models.map StoredModel.object) = .ok models) ↔
      ∀ m ∈ site.models, m.Publishable parseQuantity := by
  unfold loadModels
  rw [(checks_loadModel parseQuantity).exists_foldlM_iff, List.forall_mem_map]
  constructor
  · rintro ⟨hread, -⟩ m hm
    obtain ⟨cfg, hcfg, -⟩ := hread m hm
    exact (haccepted m hm).publishable hcfg
  · intro hpublishable
    refine ⟨?_, ?_⟩
    · intro m hm
      obtain ⟨cfg, hcfg⟩ := (haccepted m hm).exists_config (hpublishable m hm)
      exact ⟨cfg, hcfg, Finmap.lookup_empty _⟩
    · refine List.pairwise_map.mpr ((List.pairwise_map.mp hdistinct).imp ?_)
      intro m m' hne c c' hc hc'
      dsimp only
      rw [name_of_parse hc, name_of_parse hc']
      exact hne

/-- The loaded models are the listed ones, each under its canonical name. -/
theorem lookup_models_iff
    (h : loadModels parseQuantity (site.models.map StoredModel.object) = .ok models)
    {name : String} :
    models.lookup name = some cfg ↔
      ∃ m ∈ site.models, m.model.spec.model.name = name ∧
        parseLLMModel parseQuantity m.object = .ok cfg := by
  rw [lookup_loadModels_iff h]
  constructor
  · rintro ⟨hname, object, hobject, hcfg⟩
    obtain ⟨m, hm, rfl⟩ := List.mem_map.mp hobject
    exact ⟨m, hm, (name_of_parse hcfg).symm.trans hname, hcfg⟩
  · rintro ⟨m, hm, hname, hcfg⟩
    exact ⟨(name_of_parse hcfg).trans hname, m.object, List.mem_map_of_mem hm, hcfg⟩

theorem mem_names_iff
    (h : loadModels parseQuantity (site.models.map StoredModel.object) = .ok models)
    {name : String} :
    (models.lookup name).isSome = true ↔ name ∈ site.names := by
  rw [Option.isSome_iff_exists]
  unfold names
  rw [List.mem_map]
  constructor
  · rintro ⟨cfg, hcfg⟩
    obtain ⟨m, hm, hname, -⟩ := (lookup_models_iff h).mp hcfg
    exact ⟨m, hm, hname⟩
  · rintro ⟨m, hm, hname⟩
    obtain ⟨cfg, hcfg, -⟩ := lookup_loadModels h (List.mem_map_of_mem hm)
    exact ⟨cfg, (lookup_models_iff h).mpr ⟨m, hm, hname, hcfg⟩⟩

/-- What is asked of an overlay, among models of these names. -/
structure OverlayFits (names : List String) (object : Json) : Prop where
  name : objectName object ∉ names
  displayName : ∃ s, object.nestedString ["spec", "displayName"] = .ok (some s) ∧ trimSpace s ≠ ""
  baseModel : ∃ s, object.nestedString ["spec", "baseModel"] = .ok (some s) ∧ trimSpace s ≠ "" ∧
    s ∈ names
  requestDefaults : ∃ fields,
    object.nestedField ["spec", "requestDefaults"] = .ok (some (.obj fields)) ∧
      Json.lookup fields "model" = none

theorem exists_loadOverlays_iff
    (h : loadModels parseQuantity (site.models.map StoredModel.object) = .ok models) :
    (∃ overlays, loadOverlays models site.overlays = .ok overlays) ↔
      (∀ object ∈ site.overlays, OverlayFits site.names object) ∧
        (site.overlays.map objectName).Nodup := by
  have hgood : ∀ object, (∃ cfg, parseLLMModelOverlay object = .ok cfg ∧
      models.lookup cfg.name = none ∧ (models.lookup cfg.baseModel).isSome = true) ↔
        OverlayFits site.names object := by
    intro object
    constructor
    · rintro ⟨cfg, hcfg, hname, hbase⟩
      have hread := parseLLMModelOverlay_ok_iff.mp hcfg
      obtain ⟨fields, hfields, hmodel, -⟩ := parseRequestDefaults_ok_iff.mp hread.requestDefaults
      obtain ⟨hfound, hblank⟩ := requiredString_ok_iff.mp hread.baseModel
      refine ⟨?_, ⟨_, requiredString_ok_iff.mp hread.displayName⟩,
        ⟨_, hfound, hblank, (mem_names_iff h).mp hbase⟩, fields, hfields, hmodel⟩
      rw [← hread.name, ← mem_names_iff h, hname]
      exact nofun
    · rintro ⟨hname, ⟨displayName, hdisplay⟩, ⟨baseModel, hfound, hblank, hmem⟩, fields, hfields,
        hmodel⟩
      refine ⟨⟨objectName object, displayName, baseModel, .obj fields, "crd/" ++ objectName object⟩,
        parseLLMModelOverlay_ok_iff.mpr ⟨requiredString_ok_iff.mpr hdisplay,
          requiredString_ok_iff.mpr ⟨hfound, hblank⟩,
          parseRequestDefaults_ok_iff.mpr ⟨fields, hfields, hmodel, rfl⟩, rfl, rfl⟩, ?_,
        (mem_names_iff h).mpr hmem⟩
      rw [← mem_names_iff h] at hname
      simpa using hname
  unfold loadOverlays
  rw [(checks_loadOverlay models).exists_foldlM_iff]
  constructor
  · rintro ⟨hread, hdistinct⟩
    have hfits : ∀ object ∈ site.overlays, OverlayFits site.names object := by
      intro object ho
      obtain ⟨cfg, hcfg, -⟩ := hread object ho
      exact (hgood object).mp ⟨cfg, hcfg⟩
    refine ⟨hfits, List.pairwise_map.mpr (hdistinct.imp_of_mem ?_)⟩
    intro object object' ho ho' hne
    obtain ⟨c, hc⟩ := (hgood object).mpr (hfits object ho)
    obtain ⟨d, hd⟩ := (hgood object').mpr (hfits object' ho')
    rw [← (parseLLMModelOverlay_ok_iff.mp hc.1).name, ← (parseLLMModelOverlay_ok_iff.mp hd.1).name]
    exact hne c d hc hd
  · rintro ⟨hfits, hdistinct⟩
    refine ⟨?_, (List.pairwise_map.mp hdistinct).imp ?_⟩
    · intro object ho
      obtain ⟨cfg, hcfg⟩ := (hgood object).mpr (hfits object ho)
      exact ⟨cfg, hcfg, Finmap.lookup_empty _⟩
    · intro object object' hne c d hc hd
      dsimp only
      rw [(parseLLMModelOverlay_ok_iff.mp hc.1).name, (parseLLMModelOverlay_ok_iff.mp hd.1).name]
      exact hne

/-- What is asked of a catalog of accepted models. -/
structure Publishable (parseQuantity : String → Except Err Int) (site : CatalogSite) : Prop where
  models : ∀ m ∈ site.models, m.Publishable parseQuantity
  overlays : ∀ object ∈ site.overlays, OverlayFits site.names object
  overlayNames : (site.overlays.map objectName).Nodup
  /-- What is stored about a listed model is valid JSON. -/
  status : ∀ m ∈ site.models, Readable site.data (runtimeKey ("crd/" ++ objectName m.object)) ∧
    Readable site.data (modelCardKey ("crd/" ++ objectName m.object))

theorem source_of_parse {object : Json} (h : parseLLMModel parseQuantity object = .ok cfg) :
    cfg.source = "crd/" ++ objectName object :=
  (parsed_of_parseLLMModel h).origin

theorem loadLists_ok_iff {overlays : FMap String CatalogOverlay} :
    site.loadLists parseQuantity = .ok (models, overlays) ↔
      loadModels parseQuantity (site.models.map StoredModel.object) = .ok models ∧
        loadOverlays models site.overlays = .ok overlays := by
  unfold loadLists
  constructor
  · intro h
    obtain ⟨models', hmodels, h⟩ := ok_of_bind h
    obtain ⟨overlays', hoverlays, h⟩ := ok_of_bind h
    cases h
    exact ⟨hmodels, hoverlays⟩
  · rintro ⟨hmodels, hoverlays⟩
    simp only [hmodels, hoverlays, Bind.bind, Except.bind]
    rfl

theorem load_ok_iff {next : Catalog} :
    site.load parseQuantity order = .ok next ↔
      ∃ models, site.loadLists parseQuantity = .ok (models, next.overlays) ∧
        withStatuses site.data order = .ok next.models := by
  unfold load
  constructor
  · intro h
    obtain ⟨⟨models, overlays⟩, hlists, h⟩ := ok_of_bind h
    obtain ⟨entries, hentries, h⟩ := ok_of_bind h
    cases h
    exact ⟨models, hlists, hentries⟩
  · rintro ⟨models, hlists, hentries⟩
    simp only [hlists, hentries, Bind.bind, Except.bind]
    rfl

/-- The reads of a catalog of accepted models succeed when it is publishable. -/
theorem exists_load_iff (haccepted : ∀ m ∈ site.models, m.Accepted) (hdistinct : site.names.Nodup)
    (horder : ∀ models overlays,
      site.loadLists parseQuantity = .ok (models, overlays) → models.Ranges order) :
    (∃ next, site.load parseQuantity order = .ok next) ↔ site.Publishable parseQuantity := by
  constructor
  · rintro ⟨next, hnext⟩
    obtain ⟨models, hlists, hentries⟩ := load_ok_iff.mp hnext
    obtain ⟨hmodels, hoverlays⟩ := loadLists_ok_iff.mp hlists
    obtain ⟨hfits, hnames⟩ := (exists_loadOverlays_iff hmodels).mp ⟨_, hoverlays⟩
    refine ⟨(exists_loadModels_iff haccepted hdistinct).mp ⟨models, hmodels⟩, hfits, hnames, ?_⟩
    intro m hm
    obtain ⟨cfg, hcfg, -⟩ := lookup_loadModels hmodels (List.mem_map_of_mem hm)
    rw [← source_of_parse hcfg]
    exact (exists_withStatuses_iff (horder models _ hlists)).mp ⟨_, hentries⟩ _ cfg
      ((lookup_models_iff hmodels).mpr ⟨m, hm, rfl, hcfg⟩)
  · intro hpublishable
    obtain ⟨models, hmodels⟩ :=
      (exists_loadModels_iff haccepted hdistinct).mpr hpublishable.models
    obtain ⟨overlays, hoverlays⟩ := (exists_loadOverlays_iff hmodels).mpr
      ⟨hpublishable.overlays, hpublishable.overlayNames⟩
    have hlists := loadLists_ok_iff.mpr ⟨hmodels, hoverlays⟩
    obtain ⟨entries, hentries⟩ : ∃ entries, withStatuses site.data order = .ok entries := by
      refine (exists_withStatuses_iff (horder models _ hlists)).mpr ?_
      intro name cfg hname
      obtain ⟨m, hm, -, hcfg⟩ := (lookup_models_iff hmodels).mp hname
      rw [source_of_parse hcfg]
      exact hpublishable.status m hm
    exact ⟨⟨entries, overlays⟩, load_ok_iff.mpr ⟨models, hlists, hentries⟩⟩

/-- A registry that was loaded holds every listed model. -/
theorem mem_of_load (horder : ∀ models overlays,
      site.loadLists parseQuantity = .ok (models, overlays) → models.Ranges order) {next : Catalog}
    (h : site.load parseQuantity order = .ok next) {m : StoredModel} (hm : m ∈ site.models) :
    ∃ e, next.models.lookup m.model.spec.model.name = some e ∧
      e.source = "crd/" ++ objectName m.object := by
  obtain ⟨models, hlists, hentries⟩ := load_ok_iff.mp h
  obtain ⟨hmodels, -⟩ := loadLists_ok_iff.mp hlists
  obtain ⟨cfg, hcfg, -⟩ := lookup_loadModels hmodels (List.mem_map_of_mem hm)
  have hlookup := (lookup_models_iff hmodels).mpr ⟨m, hm, rfl, hcfg⟩
  have hrange := horder models _ hlists
  have hreadable := (exists_withStatuses_iff hrange).mp ⟨_, hentries⟩ _ cfg hlookup
  have hkey : ∀ name cfg, models.lookup name = some cfg → cfg.name = name :=
    fun _ _ hcfg => ((lookup_loadModels_iff hmodels).mp hcfg).1
  refine ⟨_, (lookup_withStatuses_iff hkey hrange hentries).mpr
    ⟨cfg, hlookup, withStatus_ok_iff.mpr ⟨hreadable, rfl⟩⟩, ?_⟩
  exact source_of_parse hcfg

theorem exists_answer (site : CatalogSite) (c : CatalogCall) : ∃ a, site.Answers ⟨c, a⟩ := by
  cases c with
  | listModels => exact ⟨_, rfl⟩
  | listOverlays => exact ⟨_, rfl⟩
  | getStatus =>
    simp only [Answers]
    cases site.status with
    | some data => exact ⟨_, rfl⟩
    | none => exact ⟨.error (.notFound ""), "", rfl⟩
  | range models => exact ⟨_, FMap.ranges_values models⟩
  | publish next => exact ⟨(), trivial⟩
  | finish => exact ⟨.ok none, trivial⟩
  | cardFallback source => exact ⟨none, trivial⟩
  | createStatus data => exact ⟨.ok (), trivial⟩
  | patchStatus data => exact ⟨.ok (), trivial⟩
  | setFallback name source metadata => exact ⟨(), trivial⟩

end CatalogSite

/-- **When a catalog of accepted models is published.** Let every listed LLMModel have been
accepted, with canonical names that differ, and let the reads of a refresh go well. Every such
refresh publishes a registry with every listed model exactly when the models are publishable, the
overlays fit them, and what the status ConfigMap has about them is valid JSON. -/
theorem catalog_published_iff (parseQuantity : String → Except Err Int) (site : CatalogSite)
    (haccepted : ∀ m ∈ site.models, m.Accepted) (hdistinct : site.names.Nodup) :
    (∀ t r, (refreshCatalog parseQuantity).Runs t r → (∀ e ∈ t, site.Answers e) →
      ∃ next, ⟨.publish next, ()⟩ ∈ t ∧ ∀ m ∈ site.models, ∃ e,
        next.models.lookup m.model.spec.model.name = some e ∧
          e.source = "crd/" ++ objectName m.object) ↔
      site.Publishable parseQuantity := by
  constructor
  · intro hpublishes
    obtain ⟨t, r, hruns, hanswers⟩ := exists_runs site.exists_answer (refreshCatalog parseQuantity)
    obtain ⟨order, horder, hpublish⟩ := CatalogSite.runs_refreshCatalog hruns hanswers
    obtain ⟨next, hnext, -⟩ := hpublishes t r hruns hanswers
    exact (CatalogSite.exists_load_iff haccepted hdistinct horder).mp
      ⟨next, (hpublish next).mp hnext⟩
  · intro hpublishable t r hruns hanswers
    obtain ⟨order, horder, hpublish⟩ := CatalogSite.runs_refreshCatalog hruns hanswers
    obtain ⟨next, hnext⟩ := (CatalogSite.exists_load_iff haccepted hdistinct horder).mpr
      hpublishable
    exact ⟨next, (hpublish next).mpr hnext, fun m hm => CatalogSite.mem_of_load horder hnext hm⟩

/-! ## A catalog that is kept from being published -/

namespace Unpublished

open MixedRegistry

/-- A model of the third runtime of the schema. -/
def third : StoredModel :=
  ⟨object "third" "sglang" [], model "third" .sglang none, by decide +kernel⟩

/-- Models with no overlay, and this text stored about `base`. -/
def site (models : List StoredModel) (text : String) : CatalogSite :=
  ⟨models, [], some (Finmap.singleton (modelCardKey "crd/base") text)⟩

theorem accepted_base : base.Accepted := ⟨by decide +kernel, namespaceOf [base], by decide +kernel⟩

theorem accepted_muse : muse.Accepted := ⟨by decide +kernel, namespaceOf [base], by decide +kernel⟩

theorem accepted_third : third.Accepted :=
  ⟨by decide +kernel, namespaceOf [base], by decide +kernel⟩

/-- When the reads of a refresh cannot succeed, it goes through them and publishes nothing. -/
theorem exists_unpublished {parseQuantity : String → Except Err Int} {site : CatalogSite}
    (h : ∀ order next, (∀ models overlays, site.loadLists parseQuantity = .ok (models, overlays) →
      models.Ranges order) → site.load parseQuantity order ≠ .ok next) :
    ∃ t r, (refreshCatalog parseQuantity).Runs t r ∧ (∀ e ∈ t, site.Answers e) ∧
      ∀ next, ⟨.publish next, ()⟩ ∉ t := by
  obtain ⟨t, r, hruns, hanswers⟩ := exists_runs site.exists_answer (refreshCatalog parseQuantity)
  obtain ⟨order, horder, hpublish⟩ := CatalogSite.runs_refreshCatalog hruns hanswers
  exact ⟨t, r, hruns, hanswers, fun next hmem => h order next horder ((hpublish next).mp hmem)⟩

end Unpublished

section Demonstration

open MixedRegistry Unpublished

/-- The catalog of one model of the generic vLLM runtime, with an object stored about it. -/
theorem catalog_published_alone :
    (∀ t r, (refreshCatalog fun _ => .ok 1).Runs t r →
      (∀ e ∈ t, (site [base] "\x7b\x7d").Answers e) →
      ∃ next, ⟨.publish next, ()⟩ ∈ t ∧ ∀ m ∈ [base], ∃ e,
        next.models.lookup m.model.spec.model.name = some e ∧
          e.source = "crd/" ++ objectName m.object) ↔
      (site [base] "\x7b\x7d").Publishable fun _ => .ok 1 :=
  catalog_published_iff (fun _ => .ok 1) (site [base] "\x7b\x7d")
    (by simp [site, accepted_base]) (by decide +kernel)

/-- An accepted model of the third runtime keeps the proxy from publishing the other model, and so
does a malformed entry of the status ConfigMap. -/
theorem catalog_unpublished :
    base.Accepted ∧ muse.Accepted ∧ third.Accepted ∧
      (∃ t r, (refreshCatalog fun _ => .ok 1).Runs t r ∧
        (∀ e ∈ t, (site [base, third] "\x7b\x7d").Answers e) ∧
          ∀ next, ⟨.publish next, ()⟩ ∉ t) ∧
      ∃ t r, (refreshCatalog fun _ => .ok 1).Runs t r ∧
        (∀ e ∈ t, (site [base, muse] "\x7b").Answers e) ∧ ∀ next, ⟨.publish next, ()⟩ ∉ t := by
  refine ⟨accepted_base, accepted_muse, accepted_third, exists_unpublished ?_,
    exists_unpublished ?_⟩
  · intro order next _ hload
    obtain ⟨models, hlists, -⟩ := CatalogSite.load_ok_iff.mp hload
    obtain ⟨hmodels, -⟩ := CatalogSite.loadLists_ok_iff.mp hlists
    obtain ⟨cfg, hcfg, -⟩ := lookup_loadModels hmodels (List.mem_map_of_mem
      (List.mem_cons_of_mem base (List.mem_singleton_self third)))
    rcases (accepted_third.publishable hcfg).backend with hbackend | hbackend <;> cases hbackend
  · intro order next horder hload
    obtain ⟨models, hlists, hentries⟩ := CatalogSite.load_ok_iff.mp hload
    obtain ⟨hmodels, -⟩ := CatalogSite.loadLists_ok_iff.mp hlists
    obtain ⟨cfg, hcfg, -⟩ := lookup_loadModels hmodels
      (List.mem_map_of_mem (List.mem_cons_self (a := base)))
    have hreadable := (exists_withStatuses_iff (horder models _ hlists)).mp ⟨_, hentries⟩ _ cfg
      ((CatalogSite.lookup_models_iff hmodels).mpr ⟨base, List.mem_cons_self, rfl, hcfg⟩)
    rw [CatalogSite.source_of_parse hcfg] at hreadable
    exact absurd hreadable.2 (by decide +kernel)

end Demonstration

end LlmOperator.Proxy
