import LlmOperator.Data.JsonScan
import LlmOperator.Interaction.Safety
import LlmOperator.Proxy.Catalog

/-!
# Loading and updating the registry

`refresh` lists the models and the overlays, joins what the status ConfigMap knows about the
models, and puts the new registry in force; then it stores the runtime metadata of the active model
in the status ConfigMap, with a model card if there is none. `persistModelCardMetadata` stores a
model card in the status ConfigMap and then in the registry that is in force at that time.

Both are programs over the calls to the API server and the sections under `stateMu`. What a
refresh does between putting the registry in force and that store (`syncActiveDeployment`, and
collecting the runtime metadata) is one call, `finish`; the discovery of model cards is started in
other goroutines. A raw JSON message that was encoded from a value is kept as the value.
-/

namespace LlmOperator.Proxy

open Api Data Data.GoString Interaction

/-! ## Overlays -/

/-- `overlayConfig`, with what the catalog needs. -/
structure CatalogOverlay where
  name : String
  displayName : String
  baseModel : String
  requestDefaults : Json
  source : String

section

variable (models : FMap String CatalogModel) (data : FMap String String)

def parseRequestDefaults (object : Json) : Except Err Json :=
  match object.nestedField ["spec", "requestDefaults"] with
  | .ok (some (.obj fields)) =>
    if (Json.lookup fields "model").isSome then
      .error (.other "spec.requestDefaults must not set model")
    else .ok (.obj fields)
  | .ok (some _) => .error (.other "spec.requestDefaults must be a JSON object")
  | _ => .error (.other "spec.requestDefaults is required")

/-- The name of an object. -/
def objectName (object : Json) : String := optionalString object ["metadata", "name"]

def parseLLMModelOverlay (object : Json) : Except Err CatalogOverlay := do
  let displayName ← requiredString object ["spec", "displayName"] "spec.displayName is required"
  let baseModel ← requiredString object ["spec", "baseModel"] "spec.baseModel is required"
  let requestDefaults ← parseRequestDefaults object
  return ⟨objectName object, displayName, baseModel, requestDefaults, "crd/" ++ objectName object⟩

/-- One overlay of the list. -/
def loadOverlay (overlays : FMap String CatalogOverlay) (object : Json) :
    Except Err (FMap String CatalogOverlay) :=
  match parseLLMModelOverlay object with
  | .error e => .error (.wrap ("LLMModelOverlay " ++ objectName object) e)
  | .ok cfg =>
    if (models.lookup cfg.name).isSome then
      .error (.other ("LLMModelOverlay " ++ objectName object ++ " conflicts with base model " ++
        quote cfg.name))
    else if (overlays.lookup cfg.name).isSome then
      .error (.other ("duplicate LLMModelOverlay name " ++ quote cfg.name))
    else if (models.lookup cfg.baseModel).isNone then
      .error
        (.other ("LLMModelOverlay " ++ objectName object ++ " references unknown base model " ++
        quote cfg.baseModel))
    else .ok (overlays.insert cfg.name cfg)

/-- The overlays of `loadCRDRegistry`. -/
def loadOverlays (objects : List Json) : Except Err (FMap String CatalogOverlay) :=
  objects.foldlM (loadOverlay models) ∅

/-! ## What the status ConfigMap adds -/

/-- A model of the registry with its stored metadata, empty where there is none. -/
structure CatalogEntry extends CatalogModel where
  runtime : String
  fallback : String
  deriving DecidableEq

def statusDataKey (source suffix : String) : String :=
  String.ofList (source.toList.flatMap fun c => if c = '/' then ['_', '_'] else [c]) ++ suffix

def runtimeKey (source : String) : String := statusDataKey source ".runtime_metadata.json"

def modelCardKey (source : String) : String := statusDataKey source ".model_card_metadata.json"

/-- The data stored under a key, checked unless it is empty. -/
def storedMetadata (key : String) (refused : String) : Except Err String :=
  let value := (data.lookup key).getD ""
  if value ≠ "" ∧ JsonScan.valid value = false then .error (.other refused) else .ok value

def withStatus (cfg : CatalogModel) : Except Err CatalogEntry := do
  let runtime ← storedMetadata data (runtimeKey cfg.source)
    ("invalid runtime metadata for " ++ cfg.source)
  let fallback ← storedMetadata data (modelCardKey cfg.source)
    ("invalid model-card metadata for " ++ cfg.source)
  return { cfg with runtime := runtime, fallback := fallback }

/-- The models with their metadata, in the order in which they are visited. -/
def withStatuses (order : List CatalogModel) : Except Err (FMap String CatalogEntry) :=
  order.foldlM (fun entries cfg => do return entries.insert cfg.name (← withStatus data cfg)) ∅

theorem parseRequestDefaults_ok_iff {object v : Json} :
    parseRequestDefaults object = .ok v ↔
      ∃ fields, object.nestedField ["spec", "requestDefaults"] = .ok (some (.obj fields)) ∧
        Json.lookup fields "model" = none ∧ v = .obj fields := by
  unfold parseRequestDefaults
  split
  · rename_i fields hfields
    rw [hfields]
    split
    · rename_i hmodel
      constructor
      · intro h
        cases h
      · rintro ⟨_, hsame, hnone, -⟩
        cases hsame
        rw [hnone] at hmodel
        cases hmodel
    · rename_i hmodel
      constructor
      · intro h
        cases h
        exact ⟨fields, rfl, by simpa using hmodel, rfl⟩
      · rintro ⟨_, hsame, -, rfl⟩
        cases hsame
        rfl
  · rename_i w hobject hw
    constructor
    · intro h
      cases h
    · rintro ⟨fields, hfields, -⟩
      rw [hw] at hfields
      cases hfields
      exact (hobject fields rfl).elim
  · rename_i hnone
    constructor
    · intro h
      cases h
    · rintro ⟨fields, hfields, -⟩
      exact absurd hfields (hnone _)

/-- What is read of an overlay. -/
structure ReadOverlay (object : Json) (cfg : CatalogOverlay) : Prop where
  displayName : requiredString object ["spec", "displayName"] "spec.displayName is required" =
    .ok cfg.displayName
  baseModel : requiredString object ["spec", "baseModel"] "spec.baseModel is required" =
    .ok cfg.baseModel
  requestDefaults : parseRequestDefaults object = .ok cfg.requestDefaults
  name : cfg.name = objectName object
  source : cfg.source = "crd/" ++ objectName object

theorem parseLLMModelOverlay_ok_iff {object : Json} {cfg : CatalogOverlay} :
    parseLLMModelOverlay object = .ok cfg ↔ ReadOverlay object cfg := by
  unfold parseLLMModelOverlay
  constructor
  · intro h
    obtain ⟨displayName, hdisplay, h⟩ := ok_of_bind h
    obtain ⟨baseModel, hbase, h⟩ := ok_of_bind h
    obtain ⟨requestDefaults, hdefaults, h⟩ := ok_of_bind h
    cases h
    exact ⟨hdisplay, hbase, hdefaults, rfl, rfl⟩
  · intro h
    obtain ⟨name, displayName, baseModel, requestDefaults, source⟩ := cfg
    obtain rfl := h.name
    obtain rfl := h.source
    simp only [h.displayName, h.baseModel, h.requestDefaults, bind, Except.bind]
    rfl

/-- An overlay is taken when it can be read, its name is new among the models and the overlays,
and its base model is there. -/
theorem checks_loadOverlay :
    Loading.Checks (loadOverlay models) (fun cfg => cfg.name) fun object cfg =>
      parseLLMModelOverlay object = .ok cfg ∧ models.lookup cfg.name = none ∧
        (models.lookup cfg.baseModel).isSome = true where
  ok_iff overlays object next := by
    unfold loadOverlay
    cases hcfg : parseLLMModelOverlay object with
    | error e => simp
    | ok cfg =>
      dsimp only
      simp only [Except.ok.injEq]
      constructor
      · intro h
        split at h
        · cases h
        · rename_i hmodel
          split at h
          · cases h
          · rename_i hoverlay
            split at h
            · cases h
            · rename_i hbase
              cases h
              exact ⟨cfg, ⟨rfl, by simpa using hmodel,
                by simpa [Option.isSome_iff_ne_none] using hbase⟩,
                by simpa using hoverlay, rfl⟩
      · rintro ⟨_, ⟨rfl, hmodel, hbase⟩, hoverlay, rfl⟩
        rw [if_neg (by simp [hmodel]), if_neg (by simp [hoverlay]),
          if_neg (by simpa [Option.isSome_iff_ne_none] using hbase)]
  unique object c d hc hd := Except.ok.inj (hc.1.symm.trans hd.1)

/-- Stored data that is empty or valid. -/
def Readable (key : String) : Prop :=
  (data.lookup key).getD "" ≠ "" → JsonScan.valid ((data.lookup key).getD "") = true

end

instance (data : FMap String String) (key : String) : Decidable (Readable data key) :=
  inferInstanceAs (Decidable (_ → _))

theorem storedMetadata_ok_iff {data : FMap String String} {key refused value : String} :
    storedMetadata data key refused = .ok value ↔
      value = (data.lookup key).getD "" ∧ Readable data key := by
  unfold storedMetadata Readable
  dsimp only
  split
  · rename_i h
    constructor
    · intro h
      cases h
    · rintro ⟨-, hvalid⟩
      rw [hvalid h.1] at h
      cases h.2
  · rename_i h
    constructor
    · intro hok
      cases hok
      refine ⟨rfl, fun hne => ?_⟩
      simpa using fun hinvalid => h ⟨hne, hinvalid⟩
    · rintro ⟨rfl, -⟩
      rfl

theorem withStatus_ok_iff {data : FMap String String} {cfg : CatalogModel} {e : CatalogEntry} :
    withStatus data cfg = .ok e ↔
      (Readable data (runtimeKey cfg.source) ∧ Readable data (modelCardKey cfg.source)) ∧
        e = { cfg with
          runtime := (data.lookup (runtimeKey cfg.source)).getD ""
          fallback := (data.lookup (modelCardKey cfg.source)).getD "" } := by
  unfold withStatus
  constructor
  · intro h
    obtain ⟨runtime, hruntime, h⟩ := ok_of_bind h
    obtain ⟨fallback, hfallback, h⟩ := ok_of_bind h
    obtain ⟨rfl, hreadable⟩ := storedMetadata_ok_iff.mp hruntime
    obtain ⟨rfl, hreadable'⟩ := storedMetadata_ok_iff.mp hfallback
    cases h
    exact ⟨⟨hreadable, hreadable'⟩, rfl⟩
  · rintro ⟨⟨hruntime, hfallback⟩, rfl⟩
    simp only [storedMetadata_ok_iff.mpr ⟨rfl, hruntime⟩,
      storedMetadata_ok_iff.mpr ⟨rfl, hfallback⟩,
      bind, Except.bind]
    rfl

section Statuses

variable {data : FMap String String} {models : FMap String CatalogModel} {order : List CatalogModel}

theorem reads_withStatus (data : FMap String String) :
    Loading.Reads
      (fun entries cfg => do return entries.insert cfg.name (← withStatus data cfg))
      (fun e : CatalogEntry => e.name) fun cfg e => withStatus data cfg = .ok e where
  ok entries cfg next h := by
    obtain ⟨e, he, h⟩ := ok_of_bind h
    cases h
    obtain ⟨-, rfl⟩ := withStatus_ok_iff.mp he
    exact ⟨_, he, rfl⟩
  unique cfg d e hd he := Except.ok.inj (hd.symm.trans he)

/-- Every loaded model is there, with what is stored about it. -/
theorem lookup_withStatuses_iff (hkey : ∀ name cfg, models.lookup name = some cfg → cfg.name = name)
    (hrange : models.Ranges order) {entries : FMap String CatalogEntry}
    (h : withStatuses data order = .ok entries) {name : String} {e : CatalogEntry} :
    entries.lookup name = some e ↔
      ∃ cfg, models.lookup name = some cfg ∧ withStatus data cfg = .ok e := by
  have hdistinct : Loading.Distinct (fun cfg e => withStatus data cfg = .ok e)
      (fun e : CatalogEntry => e.name) order := by
    refine (List.pairwise_map.mp (hrange.nodup_map hkey)).imp ?_
    intro c d hne e e' he he'
    obtain ⟨-, rfl⟩ := withStatus_ok_iff.mp he
    obtain ⟨-, rfl⟩ := withStatus_ok_iff.mp he'
    exact hne
  rw [(reads_withStatus data).lookup_iff h hdistinct fun _ _ _ _ => Finmap.lookup_empty _]
  constructor
  · rintro (hnone | ⟨hname, cfg, hcfg, he⟩)
    · simp at hnone
    · obtain ⟨name', hname'⟩ := (hrange.mem_iff cfg).mp hcfg
      obtain ⟨-, rfl⟩ := withStatus_ok_iff.mp he
      rw [← hkey name' cfg hname'] at hname'
      exact ⟨cfg, hname ▸ hname', he⟩
  · rintro ⟨cfg, hcfg, he⟩
    obtain ⟨-, rfl⟩ := withStatus_ok_iff.mp he
    exact Or.inr ⟨hkey name cfg hcfg, cfg, (hrange.mem_iff cfg).mpr ⟨name, hcfg⟩, he⟩

/-- The metadata is joined when all of it can be read. -/
theorem exists_withStatuses_iff (hrange : models.Ranges order) :
    (∃ entries, withStatuses data order = .ok entries) ↔
      ∀ name cfg, models.lookup name = some cfg →
        Readable data (runtimeKey cfg.source) ∧ Readable data (modelCardKey cfg.source) := by
  have hstep : ∀ (entries : FMap String CatalogEntry) (cfg : CatalogModel),
      (∃ next, (do return entries.insert cfg.name (← withStatus data cfg) :
        Except Err (FMap String CatalogEntry)) = .ok next) ↔
      Readable data (runtimeKey cfg.source) ∧ Readable data (modelCardKey cfg.source) := by
    intro entries cfg
    constructor
    · rintro ⟨next, h⟩
      obtain ⟨e, he, -⟩ := ok_of_bind h
      exact (withStatus_ok_iff.mp he).1
    · intro hreadable
      exact ⟨_, by simp only [withStatus_ok_iff.mpr ⟨hreadable, rfl⟩, bind, Except.bind]; rfl⟩
  unfold withStatuses
  rw [Loading.exists_foldlM_iff_forall hstep]
  constructor
  · intro h name cfg hcfg
    exact h cfg ((hrange.mem_iff cfg).mpr ⟨name, hcfg⟩)
  · intro h cfg hcfg
    obtain ⟨name, hname⟩ := (hrange.mem_iff cfg).mp hcfg
    exact h name cfg hname

end Statuses

/-! ## The programs -/

/-- `registry`. -/
structure Catalog where
  models : FMap String CatalogEntry
  overlays : FMap String CatalogOverlay

inductive CatalogCall where
  | listModels
  | listOverlays
  /-- The data of the status ConfigMap. -/
  | getStatus
  /-- Ranging over the loaded models. -/
  | range (models : FMap String CatalogModel)
  /-- The section of `refresh` under `stateMu`. -/
  | publish (next : Catalog)
  /-- What `refresh` does after that: the source of the active model and its runtime metadata, if
  that is missing and could be collected. -/
  | finish
  /-- `modelCardFallback` of the active model, without its error. -/
  | cardFallback (source : String)
  | createStatus (data : List (String × String))
  | patchStatus (data : List (String × String))
  /-- The section of `persistModelCardMetadata` under `stateMu`. -/
  | setFallback (name source metadata : String)

@[reducible] def CatalogCall.Answer : CatalogCall → Type
  | listModels => Except Err (List Json)
  | listOverlays => Except Err (List Json)
  | getStatus => Except Err (FMap String String)
  | range _ => List CatalogModel
  | publish _ => Unit
  | finish => Except Err (Option (String × String))
  | cardFallback _ => Option String
  | createStatus _ => Except Err Unit
  | patchStatus _ => Except Err Unit
  | setFallback _ _ _ => Unit

abbrev CatalogApi : Sig := ⟨CatalogCall, CatalogCall.Answer⟩

def ask (c : CatalogCall) : Prog CatalogApi c.Answer := Prog.perform (S := CatalogApi) c

section Refresh

variable (parseQuantity : String → Except Err Int)

/-- `loadCRDRegistry`. A resource that the API server does not know leaves nothing to load. -/
def loadCRDRegistry :
    Prog CatalogApi (Except Err (FMap String CatalogModel × FMap String CatalogOverlay)) := do
  match ← ask .listModels with
  | .error e =>
    if e.isNotFound then return .ok (∅, ∅)
    else return .error (.wrap "list LLMModels" e)
  | .ok objects =>
    match loadModels parseQuantity objects with
    | .error e => return .error e
    | .ok models =>
      match ← ask .listOverlays with
      | .error e =>
        if e.isNotFound then return .ok (models, ∅)
        else return .error (.wrap "list LLMModelOverlays" e)
      | .ok objects =>
        match loadOverlays models objects with
        | .error e => return .error e
        | .ok overlays => return .ok (models, overlays)

/-- The data of the status ConfigMap, none if there is no such ConfigMap. -/
def readStatus : Prog CatalogApi (Except Err (FMap String String)) := do
  match ← ask .getStatus with
  | .ok data => return .ok data
  | .error e =>
    if e.isNotFound then return .ok ∅
    else return .error (.wrap "get model status ConfigMap" e)

/-- The part of `refresh` that reads. -/
def loadCatalog : Prog CatalogApi (Except Err Catalog) := do
  match ← loadCRDRegistry parseQuantity with
  | .error e => return .error e
  | .ok (models, overlays) =>
    match ← readStatus with
    | .error e => return .error e
    | .ok data =>
      match withStatuses data (← ask (.range models)) with
      | .error e => return .error e
      | .ok entries => return .ok ⟨entries, overlays⟩

/-- The text under a key of the status ConfigMap, empty if there is none. -/
def cardAt (data : FMap String String) (key : String) : String := (data.lookup key).getD ""

/-- What `persistRuntimeMetadata` stores, beside this status. -/
def runtimeData (source metadata : String) (status : FMap String String) :
    Prog CatalogApi (List (String × String)) := do
  if cardAt status (modelCardKey source) = "" then
    match ← ask (.cardFallback source) with
    | some fallback => return [(runtimeKey source, metadata), (modelCardKey source, fallback)]
    | none => return [(runtimeKey source, metadata)]
  else return [(runtimeKey source, metadata)]

/-- `persistRuntimeMetadata`, with the metadata that was collected. -/
def persistRuntimeMetadata (source metadata : String) : Prog CatalogApi (Option Err) := do
  match ← ask .getStatus with
  | .error e =>
    if e.isNotFound then
      match ← ask (.createStatus (← runtimeData source metadata ∅)) with
      | .error e => return some (.wrap "create model status ConfigMap" e)
      | .ok () => return none
    else return some (.wrap "read model status ConfigMap" e)
  | .ok status =>
    match ← ask (.patchStatus (← runtimeData source metadata status)) with
    | .error e => return some (.wrap "persist model status" e)
    | .ok () => return none

/-- The part of `refresh` after the registry is in force. -/
def finishRefresh : Prog CatalogApi (Option Err) := do
  match ← ask .finish with
  | .error e => return some e
  | .ok none => return none
  | .ok (some (source, metadata)) =>
    return (← persistRuntimeMetadata source metadata).map (.wrap "persist active runtime metadata")

def refreshCatalog : Prog CatalogApi (Option Err) := do
  match ← loadCatalog parseQuantity with
  | .error e => return some e
  | .ok next =>
    ask (.publish next)
    finishRefresh

end Refresh

def persistModelCardMetadata (cfg : CatalogModel) (metadata : String) :
    Prog CatalogApi (Option Err) := do
  let key := modelCardKey cfg.source
  match ← ask .getStatus with
  | .error e =>
    if e.isNotFound then
      match ← ask (.createStatus [(key, metadata)]) with
      | .error e => return some (.wrap "create model status ConfigMap" e)
      | .ok () =>
        ask (.setFallback cfg.name cfg.source metadata)
        return none
    else return some (.wrap "read model status ConfigMap" e)
  | .ok _ =>
    match ← ask (.patchStatus [(key, metadata)]) with
    | .error e => return some (.wrap "persist model-card metadata" e)
    | .ok () =>
      ask (.setFallback cfg.name cfg.source metadata)
      return none

/-! ## What a refresh does before it publishes -/

/-- The calls of `loadCatalog`. -/
def IsLoad : CatalogCall → Prop
  | .listModels => True
  | .listOverlays => True
  | .getStatus => True
  | .range _ => True
  | _ => False

abbrev OnlyLoads {α : Type} (p : Prog CatalogApi α) : Prop := p.Only IsLoad

theorem only_loadCRDRegistry (parseQuantity : String → Except Err Int) :
    OnlyLoads (loadCRDRegistry parseQuantity) := by
  refine ⟨trivial, ?_⟩
  intro a
  cases a with
  | error e =>
    show OnlyLoads (if e.isNotFound then _ else _)
    split <;> trivial
  | ok objects =>
    show OnlyLoads (match loadModels parseQuantity objects with | .error e => _ | .ok m => _)
    split
    · trivial
    · refine ⟨trivial, ?_⟩
      intro b
      cases b with
      | error e =>
        show OnlyLoads (if e.isNotFound then _ else _)
        split <;> trivial
      | ok objects =>
        show OnlyLoads (match loadOverlays _ objects with | .error e => _ | .ok m => _)
        split <;> trivial

theorem only_readStatus : OnlyLoads readStatus := by
  refine ⟨trivial, ?_⟩
  intro a
  cases a with
  | error e =>
    show OnlyLoads (if e.isNotFound then _ else _)
    split <;> trivial
  | ok data => trivial

theorem only_loadCatalog (parseQuantity : String → Except Err Int) :
    OnlyLoads (loadCatalog parseQuantity) := by
  refine Prog.only_bind (only_loadCRDRegistry parseQuantity) ?_
  intro x
  cases x with
  | error e => trivial
  | ok lists =>
    refine Prog.only_bind only_readStatus ?_
    intro y
    cases y with
    | error e => trivial
    | ok data =>
      refine ⟨trivial, ?_⟩
      intro order
      show OnlyLoads (match withStatuses data order with | .error e => _ | .ok m => _)
      split <;> trivial

/-- The calls of `finishRefresh`. -/
def IsFinish : CatalogCall → Prop
  | .finish => True
  | .getStatus => True
  | .cardFallback _ => True
  | .createStatus _ => True
  | .patchStatus _ => True
  | _ => False

theorem only_runtimeData (source metadata : String) (status : FMap String String) :
    (runtimeData source metadata status).Only IsFinish := by
  unfold runtimeData
  split
  · refine ⟨trivial, ?_⟩
    intro fallback
    cases fallback <;> trivial
  · trivial

theorem only_persistRuntimeMetadata (source metadata : String) :
    (persistRuntimeMetadata source metadata).Only IsFinish := by
  refine ⟨trivial, ?_⟩
  intro a
  cases a with
  | error e =>
    show Prog.Only (S := CatalogApi) IsFinish (if e.isNotFound then _ else _)
    split
    · refine Prog.only_bind (only_runtimeData source metadata ∅) fun data => ⟨trivial, fun b => ?_⟩
      cases b <;> trivial
    · trivial
  | ok status =>
    show Prog.Only (S := CatalogApi) IsFinish (runtimeData source metadata status >>= _)
    refine Prog.only_bind (only_runtimeData source metadata status) fun data =>
      ⟨trivial, fun b => ?_⟩
    cases b <;> trivial

theorem only_finishRefresh : finishRefresh.Only IsFinish := by
  refine ⟨trivial, ?_⟩
  rintro (e | _ | ⟨source, metadata⟩)
  · trivial
  · trivial
  · show Prog.Only (S := CatalogApi) IsFinish (persistRuntimeMetadata source metadata >>= _)
    exact Prog.only_bind (only_persistRuntimeMetadata source metadata) fun _ => trivial

/-- What `persistModelCardMetadata` does under `stateMu`. -/
def Catalog.setFallback (c : Catalog) (name source metadata : String) : Catalog :=
  match c.models.lookup name with
  | some current =>
    if current.source = source then
      { c with models := c.models.insert name { current with fallback := metadata } }
    else c
  | none => c

theorem Catalog.setFallback_overlays (c : Catalog) (name source metadata : String) :
    (c.setFallback name source metadata).overlays = c.overlays := by
  unfold Catalog.setFallback
  split
  · split <;> rfl
  · rfl

/-- Only the fallback of that name and source changes. -/
theorem Catalog.lookup_setFallback (c : Catalog) (name source metadata name' : String) :
    (c.setFallback name source metadata).models.lookup name' =
      (c.models.lookup name').map fun e =>
        if name' = name ∧ e.source = source then { e with fallback := metadata } else e := by
  unfold Catalog.setFallback
  by_cases hname : name' = name
  · subst hname
    cases hlookup : c.models.lookup name' with
    | none => exact hlookup
    | some current =>
      dsimp only
      by_cases hsource : current.source = source
      · rw [if_pos hsource, Finmap.lookup_insert]
        simp [hsource]
      · rw [if_neg hsource, hlookup]
        simp [hsource]
  · have hsame : (c.models.lookup name').map (fun e : CatalogEntry =>
        if name' = name ∧ e.source = source then { e with fallback := metadata } else e) =
          c.models.lookup name' := by
      simp [hname]
    rw [hsame]
    split
    · split
      · exact Finmap.lookup_insert_of_ne _ hname
      · rfl
    · rfl

/-- An entry has the new fallback, or it has another name or source and is as before. -/
theorem Catalog.exists_of_setFallback {c : Catalog} {name source metadata name' : String}
    {e : CatalogEntry} (h : (c.setFallback name source metadata).models.lookup name' = some e) :
    ∃ e', c.models.lookup name' = some e' ∧
      (name' = name ∧ e'.source = source ∧ e = { e' with fallback := metadata } ∨
        ¬ (name' = name ∧ e'.source = source) ∧ e = e') := by
  rw [Catalog.lookup_setFallback] at h
  obtain ⟨e', he', rfl⟩ := Option.map_eq_some_iff.mp h
  refine ⟨e', he', ?_⟩
  split
  · rename_i hsame
    exact Or.inl ⟨hsame.1, hsame.2, rfl⟩
  · rename_i hother
    exact Or.inr ⟨hother, rfl⟩

end LlmOperator.Proxy
