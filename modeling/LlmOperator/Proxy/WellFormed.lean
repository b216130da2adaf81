import LlmOperator.Interaction.Interleave
import LlmOperator.Proxy.Backends
import LlmOperator.Proxy.Registry

/-!
# The registry in force is well formed

Refreshes and updates of model cards run side by side. Whatever the API server answers them, the
registry that is in force at any time is well formed: `registry_wellFormed`. A refresh publishes
only what it has loaded as a whole, and an update of a model card changes one field of an entry
that is there.
-/

namespace LlmOperator.Proxy

open Api Data Data.GoString Interaction Interaction.Prog

/-! ## Well-formed registries -/

/-- A digit of a hash in lower case. -/
def IsHexDigit (c : Char) : Prop := '0' ≤ c ∧ c ≤ '9' ∨ 'a' ≤ c ∧ c ≤ 'f'

structure CatalogModel.WellFormed (m : CatalogModel) : Prop where
  name : trimSpace m.name ≠ ""
  source : trimSpace m.modelSource ≠ ""
  displayName : trimSpace m.displayName ≠ ""
  backend : m.backend = "vllm" ∨ m.backend = "llama-cpp"
  maxModelLen : 1 ≤ m.maxModelLen
  args : m.args ≠ []
  reserved : ∀ arg ∈ reservedArgs m.backend, arg ∉ m.args
  revision : m.cache.revision ≠ "" → m.cache.revision.toList.length = 40 ∧
    ∀ c ∈ m.cache.revision.toList, IsHexDigit c
  files : m.cache.revision ≠ "" → m.backend = "llama-cpp" → m.cache.files ≠ []

/-- An overlay among models. -/
structure CatalogOverlay.WellFormed (models : FMap String CatalogEntry) (o : CatalogOverlay) :
    Prop where
  name : models.lookup o.name = none
  baseModel : (models.lookup o.baseModel).isSome = true
  requestDefaults : ∃ fields, o.requestDefaults = .obj fields ∧ Json.lookup fields "model" = none

structure Catalog.WellFormed (c : Catalog) : Prop where
  modelKey : ∀ name e, c.models.lookup name = some e → e.name = name
  model : ∀ name e, c.models.lookup name = some e → e.toCatalogModel.WellFormed
  overlayKey : ∀ name o, c.overlays.lookup name = some o → o.name = name
  overlay : ∀ name o, c.overlays.lookup name = some o → o.WellFormed c.models

section Parsing

variable {parseQuantity : String → Except Err Int}

theorem hexDigits_of_isCommitSHA {s : String} (h : isCommitSHA s = true) :
    s.toList.length = 40 ∧ ∀ c ∈ s.toList, IsHexDigit c := by
  simp only [isCommitSHA, Bool.and_eq_true, beq_iff_eq, List.all_eq_true, Bool.or_eq_true,
    decide_eq_true_eq] at h
  exact h

theorem one_le_of_parseMaxModelLen {object : Json} {n : Int} (h : parseMaxModelLen object = .ok n) :
    1 ≤ n := by
  unfold parseMaxModelLen at h
  split at h
  · split at h
    · cases h
    · cases h
      omega
  · cases h

theorem wellFormed_of_parseLLMModel {object : Json} {cfg : CatalogModel}
    (h : parseLLMModel parseQuantity object = .ok cfg) : cfg.WellFormed := by
  have hparsed := parsed_of_parseLLMModel h
  obtain ⟨-, hargs, -, hreserved⟩ := parseArgs_ok_iff.mp hparsed.args
  have hcache := checkedCache hparsed.cache
  exact
    { name := (requiredString_ok_iff.mp hparsed.name).2
      source := (requiredString_ok_iff.mp hparsed.source).2
      displayName := (requiredString_ok_iff.mp hparsed.displayName).2
      backend := (parseBackend_ok hparsed.backend).2
      maxModelLen := one_le_of_parseMaxModelLen hparsed.maxModelLen
      args := hargs
      reserved := hreserved
      revision := fun hset => hexDigits_of_isCommitSHA (hcache.commit hset)
      files := fun hset hbackend => parseFiles_ne_nil (hcache.files hset hbackend) }

end Parsing

/-! ## What a refresh has loaded -/

/-- What the status ConfigMap held when it was read. -/
def StatusRead (y : Except Err (FMap String String)) (data : FMap String String) : Prop :=
  y = .ok data ∨ ∃ e, y = .error e ∧ e.isNotFound = true ∧ data = ∅

/-- The reads behind a registry that was loaded. -/
structure Loads (parseQuantity : String → Except Err Int) (t : List (Event CatalogApi))
    (next : Catalog) (models : FMap String CatalogModel) (data : FMap String String)
    (order : List CatalogModel) : Prop where
  listed : ∃ x, ⟨.listModels, x⟩ ∈ t
  modelObjects : ∃ objects, loadModels parseQuantity objects = .ok models
  overlayObjects : ∃ objects, loadOverlays models objects = .ok next.overlays
  read : ∃ y, ⟨.getStatus, y⟩ ∈ t ∧ StatusRead y data
  ranged : ⟨.range models, order⟩ ∈ t
  entries : withStatuses data order = .ok next.models

section Loading

variable {parseQuantity : String → Except Err Int} {t : List (Event CatalogApi)} {next : Catalog}

theorem runs_loadCRDRegistry_ok {models : FMap String CatalogModel}
    {overlays : FMap String CatalogOverlay}
    (h : (loadCRDRegistry parseQuantity).Runs t (.ok (models, overlays))) :
    (∃ x, ⟨.listModels, x⟩ ∈ t) ∧ (∃ objects, loadModels parseQuantity objects = .ok models) ∧
      ∃ objects, loadOverlays models objects = .ok overlays := by
  obtain ⟨a, u, rfl, hrest⟩ := runs_call h
  refine ⟨⟨a, List.mem_cons_self⟩, ?_⟩
  cases a with
  | error e =>
    dsimp only [Prog.bind] at hrest
    split at hrest
    · cases (runs_pure hrest).2
      exact ⟨⟨[], rfl⟩, [], rfl⟩
    · cases (runs_pure hrest).2
  | ok objects =>
    dsimp only [Prog.bind] at hrest
    cases hmodels : loadModels parseQuantity objects with
    | error e =>
      rw [hmodels] at hrest
      cases (runs_pure hrest).2
    | ok models' =>
      rw [hmodels] at hrest
      obtain ⟨b, v, rfl, hlast⟩ := runs_call hrest
      cases b with
      | error e =>
        dsimp only [Prog.bind] at hlast
        split at hlast
        · cases (runs_pure hlast).2
          exact ⟨⟨objects, hmodels⟩, [], rfl⟩
        · cases (runs_pure hlast).2
      | ok overlayObjects =>
        dsimp only [Prog.bind] at hlast
        cases hoverlays : loadOverlays models' overlayObjects with
        | error e =>
          rw [hoverlays] at hlast
          cases (runs_pure hlast).2
        | ok overlays' =>
          rw [hoverlays] at hlast
          cases (runs_pure hlast).2
          exact ⟨⟨objects, hmodels⟩, overlayObjects, hoverlays⟩

theorem runs_readStatus_ok {data : FMap String String} (h : readStatus.Runs t (.ok data)) :
    ∃ y, ⟨.getStatus, y⟩ ∈ t ∧ StatusRead y data := by
  obtain ⟨a, u, rfl, hrest⟩ := runs_call h
  refine ⟨a, List.mem_cons_self, ?_⟩
  cases a with
  | ok data' =>
    cases (runs_pure hrest).2
    exact Or.inl rfl
  | error e =>
    dsimp only [Prog.bind] at hrest
    split at hrest
    · rename_i hmissing
      cases (runs_pure hrest).2
      exact Or.inr ⟨e, rfl, hmissing, rfl⟩
    · cases (runs_pure hrest).2

theorem exists_loads (h : (loadCatalog parseQuantity).Runs t (.ok next)) :
    ∃ models data order, Loads parseQuantity t next models data order := by
  obtain ⟨x, u, v, rfl, hu, hv⟩ := runs_bind h
  cases x with
  | error e => cases (runs_pure hv).2
  | ok lists =>
    obtain ⟨models, overlays⟩ := lists
    obtain ⟨⟨x, hx⟩, hmodels, hoverlays⟩ := runs_loadCRDRegistry_ok hu
    obtain ⟨z, u', v', rfl, hu', hv'⟩ := runs_bind hv
    cases z with
    | error e => cases (runs_pure hv').2
    | ok data =>
      obtain ⟨y, hy, hread⟩ := runs_readStatus_ok hu'
      obtain ⟨order, w, rfl, hlast⟩ := runs_call hv'
      dsimp only [Prog.bind] at hlast
      cases hstatus : withStatuses data order with
      | error e =>
        rw [hstatus] at hlast
        cases (runs_pure hlast).2
      | ok entries =>
        rw [hstatus] at hlast
        cases (runs_pure hlast).2
        exact ⟨models, data, order,
          { listed := ⟨x, List.mem_append_left _ hx⟩
            modelObjects := hmodels
            overlayObjects := hoverlays
            read := ⟨y, List.mem_append_right _ (List.mem_append_left _ hy), hread⟩
            ranged := List.mem_append_right _ (List.mem_append_right _ List.mem_cons_self)
            entries := hstatus }⟩

/-- A refresh that is about to publish has loaded what it publishes. -/
theorem runs_of_steps_publish {k : Unit → Prog CatalogApi (Option Err)}
    (h : (refreshCatalog parseQuantity).Steps t (.call (.publish next) k)) :
    (loadCatalog parseQuantity).Runs t (.ok next) := by
  rcases steps_bind h with ⟨op, k', hsteps, hcall⟩ | ⟨x, u, v, rfl, hu, hv⟩
  · -- no call of the loading part publishes
    cases hcall
    exact (((only_loadCatalog parseQuantity).steps hsteps).2.1).elim
  · cases x with
    | error e => cases hv
    | ok loaded =>
      cases hv with
      | nil => simpa using hu
      | cons hv => exact ((only_finishRefresh.steps hv).2.1).elim

variable {models : FMap String CatalogModel} {data : FMap String String} {order : List CatalogModel}

section

variable (h : Loads parseQuantity t next models data order) (hrange : models.Ranges order)
include h hrange

/-- The entries of the registry are the models that were listed, with what was read about them. -/
theorem Loads.lookup_iff {name : String} {e : CatalogEntry} :
    next.models.lookup name = some e ↔
      ∃ cfg, models.lookup name = some cfg ∧ withStatus data cfg = .ok e := by
  obtain ⟨objects, hmodels⟩ := h.modelObjects
  exact lookup_withStatuses_iff (fun _ _ hcfg => ((lookup_loadModels_iff hmodels).mp hcfg).1) hrange
    h.entries

theorem Loads.isSome_iff {name : String} :
    (next.models.lookup name).isSome = true ↔ (models.lookup name).isSome = true := by
  simp only [Option.isSome_iff_exists]
  constructor
  · rintro ⟨e, he⟩
    obtain ⟨cfg, hcfg, -⟩ := (h.lookup_iff hrange).mp he
    exact ⟨cfg, hcfg⟩
  · rintro ⟨cfg, hcfg⟩
    have hreadable := (exists_withStatuses_iff hrange).mp ⟨_, h.entries⟩ name cfg hcfg
    exact ⟨_, (h.lookup_iff hrange).mpr ⟨cfg, hcfg, withStatus_ok_iff.mpr ⟨hreadable, rfl⟩⟩⟩

/-- A registry that was loaded is well formed. -/
theorem Loads.wellFormed : next.WellFormed := by
  obtain ⟨objects, hmodels⟩ := h.modelObjects
  obtain ⟨overlayObjects, hoverlays⟩ := h.overlayObjects
  have hmodel : ∀ name e, next.models.lookup name = some e →
      e.name = name ∧ e.toCatalogModel.WellFormed := by
    intro name e he
    obtain ⟨cfg, hcfg, hstatus⟩ := (h.lookup_iff hrange).mp he
    obtain ⟨hname, object, -, hobject⟩ := (lookup_loadModels_iff hmodels).mp hcfg
    obtain ⟨-, rfl⟩ := withStatus_ok_iff.mp hstatus
    exact ⟨hname, wellFormed_of_parseLLMModel hobject⟩
  have hoverlay : ∀ name o, next.overlays.lookup name = some o →
      o.name = name ∧ o.WellFormed next.models := by
    intro name o ho
    rcases ((checks_loadOverlay models).lookup_iff hoverlays name o).mp ho with hnone |
      ⟨hname, object, -, hread, hnew, hbase⟩
    · simp at hnone
    · have hobject := parseLLMModelOverlay_ok_iff.mp hread
      obtain ⟨fields, -, hmissing, hfields⟩ :=
        parseRequestDefaults_ok_iff.mp hobject.requestDefaults
      refine ⟨hname, ?_, (h.isSome_iff hrange).mpr hbase, fields, hfields, hmissing⟩
      rw [← Option.not_isSome_iff_eq_none, h.isSome_iff hrange, hnew]
      exact Bool.false_ne_true
  exact ⟨fun name e he => (hmodel name e he).1, fun name e he => (hmodel name e he).2,
    fun name o ho => (hoverlay name o ho).1, fun name o ho => (hoverlay name o ho).2⟩

end

end Loading

/-! ## Updates -/

theorem Catalog.WellFormed.setFallback {c : Catalog} (h : c.WellFormed)
    (name source metadata : String) : (c.setFallback name source metadata).WellFormed := by
  have hentry : ∀ name' e, (c.setFallback name source metadata).models.lookup name' = some e →
      ∃ e', c.models.lookup name' = some e' ∧ e.toCatalogModel = e'.toCatalogModel := by
    intro name' e he
    obtain ⟨e', he', ⟨-, -, rfl⟩ | ⟨-, rfl⟩⟩ := Catalog.exists_of_setFallback he
    · exact ⟨e', he', rfl⟩
    · exact ⟨_, he', rfl⟩
  have hsome : ∀ name', ((c.setFallback name source metadata).models.lookup name').isSome =
      (c.models.lookup name').isSome := by
    intro name'
    rw [Catalog.lookup_setFallback, Option.isSome_map]
  refine ⟨?_, ?_, ?_, ?_⟩
  · intro name' e he
    obtain ⟨e', he', hsame⟩ := hentry name' e he
    rw [hsame]
    exact h.modelKey name' e' he'
  · intro name' e he
    obtain ⟨e', he', hsame⟩ := hentry name' e he
    rw [hsame]
    exact h.model name' e' he'
  · rw [Catalog.setFallback_overlays]
    exact h.overlayKey
  · rw [Catalog.setFallback_overlays]
    intro name' o ho
    have ho' := h.overlay name' o ho
    refine ⟨?_, ?_, ho'.requestDefaults⟩
    · rw [← Option.not_isSome_iff_eq_none, hsome, ho'.name]
      exact Bool.false_ne_true
    · rw [hsome]
      exact ho'.baseModel

theorem Catalog.wellFormed_empty : Catalog.WellFormed ⟨∅, ∅⟩ := by
  refine ⟨?_, ?_, ?_, ?_⟩ <;> intro name x hx <;> simp at hx

/-! ## Side by side -/

/-- The goroutines that change the registry. -/
inductive CatalogWorker where
  | refresh
  | persist (cfg : CatalogModel) (metadata : String)

def CatalogWorker.program (parseQuantity : String → Except Err Int) :
    CatalogWorker → Prog CatalogApi (Option Err)
  | .refresh => refreshCatalog parseQuantity
  | .persist cfg metadata => persistModelCardMetadata cfg metadata

/-- What a call does to the registry in force. The API server may answer anything; ranging over a
map visits each of its values once. -/
def Catalog.exec (c : Catalog) : (op : CatalogCall) → op.Answer → Catalog → Prop
  | .range models, order, c' => models.Ranges order ∧ c' = c
  | .publish next, _, c' => c' = next
  | .setFallback name source metadata, _, c' => c' = c.setFallback name source metadata
  | _, _, c' => c' = c

/-- The calls of `persistModelCardMetadata`. -/
def IsPersist : CatalogCall → Prop
  | .getStatus => True
  | .createStatus _ => True
  | .patchStatus _ => True
  | .setFallback _ _ _ => True
  | _ => False

theorem only_persistModelCardMetadata (cfg : CatalogModel) (metadata : String) :
    (persistModelCardMetadata cfg metadata).Only IsPersist := by
  refine ⟨trivial, ?_⟩
  intro a
  cases a with
  | error e =>
    show Prog.Only (S := CatalogApi) IsPersist (if e.isNotFound then _ else _)
    split
    · refine ⟨trivial, ?_⟩
      intro b
      cases b with
      | error e => trivial
      | ok _ => exact ⟨trivial, fun _ => trivial⟩
    · trivial
  | ok data =>
    refine ⟨trivial, ?_⟩
    intro b
    cases b with
    | error e => trivial
    | ok _ => exact ⟨trivial, fun _ => trivial⟩

/-- Whoever is about to publish is a refresh that has loaded the registry. -/
theorem CatalogWorker.runs_of_steps_publish {parseQuantity : String → Except Err Int}
    {w : CatalogWorker} {t : List (Event CatalogApi)} {next : Catalog}
    {k : Unit → Prog CatalogApi (Option Err)}
    (h : (w.program parseQuantity).Steps t (.call (.publish next) k)) :
    w = .refresh ∧ (loadCatalog parseQuantity).Runs t (.ok next) := by
  cases w with
  | refresh => exact ⟨rfl, Proxy.runs_of_steps_publish h⟩
  | persist cfg metadata =>
    exact (((only_persistModelCardMetadata cfg metadata).steps h).2.1).elim

/-- A call of the loading part leaves the registry alone. -/
theorem Catalog.exec_eq_of_isLoad {c c' : Catalog} {op : CatalogCall} {r : op.Answer}
    (hload : IsLoad op) (h : c.exec op r c') : c' = c := by
  cases op with
  | listModels => exact h
  | listOverlays => exact h
  | getStatus => exact h
  | range models => exact h.2
  | _ => exact hload.elim

theorem Catalog.WellFormed.exec {parseQuantity : String → Except Err Int} {w : CatalogWorker}
    {t : List (Event CatalogApi)} {op : CatalogCall} {k : op.Answer → Prog CatalogApi (Option Err)}
    {r : op.Answer} {c c' : Catalog} (hc : c.WellFormed)
    (hsteps : (w.program parseQuantity).Steps t (.call op k))
    (hanswers : ∀ e ∈ t, ∃ c₁ c₂ : Catalog, c₁.exec e.1 e.2 c₂) (h : c.exec op r c') :
    c'.WellFormed := by
  cases op with
  | publish next =>
    obtain ⟨-, hruns⟩ := CatalogWorker.runs_of_steps_publish hsteps
    obtain ⟨models, data, order, hloads⟩ := exists_loads hruns
    obtain ⟨c₁, c₂, hrange, -⟩ := hanswers _ hloads.ranged
    obtain rfl : c' = next := h
    exact hloads.wellFormed hrange
  | setFallback name source metadata =>
    obtain rfl : c' = c.setFallback name source metadata := h
    exact hc.setFallback name source metadata
  | range models =>
    obtain rfl : c' = c := h.2
    exact hc
  | _ =>
    obtain rfl : c' = c := h
    exact hc

/-- **The registry in force is well formed.** Any number of refreshes and updates of model cards
run in any interleaving, with any answers of the API server. The registry they leave in force is
well formed. A refresh that fails while it loads ends with that, and none of its calls changes the
registry. -/
theorem registry_wellFormed {ι : Type} [DecidableEq ι] (parseQuantity : String → Except Err Int)
    (worker : ι → CatalogWorker) (log : List (ι × Event CatalogApi))
    (c : Threads CatalogApi Catalog ι (Option Err))
    (h : Interleaving Catalog.exec (fun i => (worker i).program parseQuantity) ⟨∅, ∅⟩ log c) :
    c.state.WellFormed ∧
      ∀ u e v r, (loadCatalog parseQuantity).Runs u (.error e) →
        (refreshCatalog parseQuantity).Runs (u ++ v) r →
        r = some e ∧ ∀ event ∈ u ++ v, ∀ before after : Catalog,
          before.exec event.1 event.2 after → after = before := by
  refine ⟨h.invariant Catalog.wellFormed_empty ?_, ?_⟩
  · intro i t op k r c₁ c₂ hc₁ hsteps hanswers hexec
    exact hc₁.exec hsteps hanswers hexec
  · intro u e v r hload hruns
    have hrest := runs_after hload hruns
    obtain ⟨rfl, hr⟩ := runs_pure hrest
    refine ⟨hr.symm, ?_⟩
    rw [List.append_nil]
    intro event hevent before after hexec
    exact Catalog.exec_eq_of_isLoad (((only_loadCatalog parseQuantity).steps hload).1 event hevent)
      hexec

namespace CatalogRun

def overlay : Json :=
  .obj [("metadata", .obj [("name", .str "base-chat")]),
    ("spec", .obj [("displayName", .str "Chat"), ("baseModel", .str "base"),
      ("requestDefaults", .obj [("temperature", .num 0)])])]

/-- A cluster with these models, overlays and status, in which no metadata is collected. -/
def answer (models overlays : List Json) (status : Except Err (FMap String String)) (c : Catalog) :
    (op : CatalogCall) → op.Answer × Catalog
  | .listModels => (.ok models, c)
  | .listOverlays => (.ok overlays, c)
  | .getStatus => (status, c)
  | .range models => (models.values, c)
  | .publish next => ((), next)
  | .finish => (.ok none, c)
  | .cardFallback _ => (none, c)
  | .createStatus _ => (.ok (), c)
  | .patchStatus _ => (.ok (), c)
  | .setFallback name source metadata => ((), c.setFallback name source metadata)

theorem exec_answer (models overlays : List Json) (status : Except Err (FMap String String))
    (c : Catalog) (op : CatalogCall) :
    c.exec op (answer models overlays status c op).1 (answer models overlays status c op).2 := by
  cases op with
  | range models => exact ⟨FMap.ranges_values models, rfl⟩
  | _ => rfl

/-- A cluster with one model, one overlay and no status ConfigMap. -/
theorem exec_unstored (_ : Unit) (c : Catalog) (op : CatalogCall) :
    c.exec op (answer [MixedRegistry.base.object] [overlay] (.error (.notFound "")) c op).1
      (answer [MixedRegistry.base.object] [overlay] (.error (.notFound "")) c op).2 :=
  exec_answer _ _ _ c op

/-- One refresh, and the update of a model card. -/
def worker : Bool → CatalogWorker
  | false => .refresh
  | true => .persist MixedRegistry.baseConfig "card"

end CatalogRun

section Demonstration

open CatalogRun

/-- The card of the model is stored in the registry that was published before. -/
theorem registry_wellFormed_updated :
    ∃ log c, Interleaving Catalog.exec
        (fun i => (worker i).program fun _ => .ok 1) ⟨∅, ∅⟩ log c ∧
      ((c.state.models.lookup "base").map CatalogEntry.fallback = some "card" ∧
        (c.state.overlays.lookup "base-chat").isSome = true) ∧ c.state.WellFormed := by
  obtain ⟨log, c, hrun, hfound⟩ := exists_interleaving Catalog.exec
    (fun i => (worker i).program fun _ => .ok 1) ⟨∅, ∅⟩
    exec_unstored
    ([false, false, true, false, false, false, true, true].map fun i => ((), i))
    (fun _ c => (c.state.models.lookup "base").map CatalogEntry.fallback = some "card" ∧
      (c.state.overlays.lookup "base-chat").isSome = true) (by decide +kernel)
  exact ⟨log, c, hrun, hfound, (registry_wellFormed (fun _ => .ok 1) worker log c hrun).1⟩

end Demonstration

end LlmOperator.Proxy
