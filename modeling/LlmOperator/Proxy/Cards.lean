import LlmOperator.Proxy.Hermes
import LlmOperator.Proxy.WellFormed
import Mathlib.Data.String.Basic

/-!
# What the proxy shows of its registry

The catalog (`/v1/models`), one model of it (`/v1/models/{id}`) and the configuration for Hermes
(`/vllm-proxy/config/{target}`), in every registry that refreshes and updates of model cards leave
in force. The first two agree; the third is what `fetchHermesConfig` takes at the other end.
-/

namespace LlmOperator.Proxy

open Api Data Data.GoString Interaction

/-! ## Cards -/

/-- Beside the registry: what a text decodes to, and when the object behind a source was created. -/
structure CardInput where
  unmarshal : String → Option Json
  created : String → Int

structure ModelCard where
  id : String
  object : String
  created : Int
  ownedBy : String
  metadata : FMap String Json

/-- What `sort.Slice` does by a key. Two elements with one key may end up in either order. -/
structure KeySort {α : Type} (key : α → String) where
  sort : List α → List α
  perm : ∀ l, (sort l).Perm l
  sorted : ∀ l, (sort l).Pairwise fun a b => ¬key b < key a

abbrev EntrySort : Type := KeySort fun e : CatalogEntry => e.name

/-- An answer of `openAIError`. -/
structure OpenAIError where
  status : Nat
  type : String
  message : String

def hasArgument (args : List String) (flag : String) : Bool :=
  args.any fun arg => arg == flag || hasPrefix arg (flag ++ "=")

/-- What a look-up finds where there is no model. -/
def zeroEntry : CatalogEntry :=
  ⟨⟨⟨"", "", ""⟩, "", "", 0, [], "", ⟨"", "", "", 0, [], ""⟩⟩, "", ""⟩

section Endpoints

variable (io : CardInput)

def mergeJSONMetadata (destination : FMap String Json) (raw : String) : FMap String Json :=
  if raw = "" then destination
  else match io.unmarshal raw with
    | some (.obj values) => values.foldl (fun m e => m.insert e.1 e.2) destination
    | _ => destination

def metadataInputModalities (raw : String) : Option (List String) :=
  let fields : Json.Fields (List String) := [("input_modalities", Json.setStrings fun v _ => v)]
  match (io.unmarshal raw).bind fun v => (fields.decode [] v).toOption with
  | none | some [] => none
  | some modalities => some (if "image" ∈ modalities then ["text", "image"] else ["text"])

def inputModalities (cfg : CatalogEntry) : List String :=
  if cfg.backend = "llama-cpp" ∧
      (hasArgument cfg.args "--mmproj" || hasArgument cfg.args "--mmproj-url") then
    ["text", "image"]
  else ((metadataInputModalities io cfg.fallback).or
    (metadataInputModalities io cfg.runtime)).getD ["text"]

/-- The source of a card, where there is one. -/
def withSource (source : String) (metadata : FMap String Json) : FMap String Json :=
  if source ≠ "" then metadata.insert "config_source" (.str source) else metadata

def modelCard (cfg : CatalogEntry) : ModelCard where
  id := cfg.name
  object := "model"
  created := io.created cfg.source
  ownedBy := "vllm-proxy"
  metadata :=
    let metadata := withSource cfg.source
      (((∅ : FMap String Json).insert "context_length" (.num cfg.maxModelLen)).insert "source"
        (.str "manual_config") |>.insert "backend" (.str cfg.backend))
    (mergeJSONMetadata io (mergeJSONMetadata io metadata cfg.fallback) cfg.runtime).insert
      "input_modalities" (.arr ((inputModalities io cfg).map .str))

def overlayModelCard (overlay : CatalogOverlay) (base : CatalogEntry) : ModelCard where
  id := overlay.name
  object := "model"
  created := io.created overlay.source
  ownedBy := "vllm-proxy"
  metadata :=
    let metadata := withSource overlay.source
      (((∅ : FMap String Json).insert "context_length" (.num base.maxModelLen)).insert "source"
        (.str "model_overlay") |>.insert "overlay" (.bool true) |>.insert "base_model"
        (.str overlay.baseModel))
    (mergeJSONMetadata io (mergeJSONMetadata io metadata base.fallback) base.runtime).insert
      "overlay" (.bool true) |>.insert "base_model" (.str overlay.baseModel) |>.insert
      "input_modalities" (.arr ((inputModalities io base).map .str))

variable (c : Catalog)

/-- The card of an overlay of the registry. -/
def overlayCard (overlay : CatalogOverlay) : ModelCard :=
  overlayModelCard io overlay ((c.models.lookup overlay.baseModel).getD zeroEntry)

/-- `GET /v1/models`, with the maps in the order in which they are visited. -/
def models (slice : KeySort ModelCard.id) (order : List CatalogEntry)
    (overlayOrder : List CatalogOverlay) : List ModelCard :=
  slice.sort (order.map (modelCard io) ++ overlayOrder.map (overlayCard io c))

/-- `GET /v1/models/{id}`. -/
def model (id : String) : Except OpenAIError ModelCard :=
  match c.models.lookup id, c.overlays.lookup id with
  | none, none => .error ⟨404, "model_not_found", "The requested model is not configured."⟩
  | _, some overlay => .ok (overlayCard io c overlay)
  | some cfg, none => .ok (modelCard io cfg)

/-- The models of the provider, with their context lengths. -/
def providerModels (slice : EntrySort) (order : List CatalogEntry) : FMap String Int :=
  (slice.sort order).foldl (fun m e => m.insert e.name e.maxModelLen) ∅

/-- `GET /vllm-proxy/config/{target}`. The metadata is written in the order of its keys. -/
def hermesConfig (slice : EntrySort) (order : List CatalogEntry)
    (active publicBaseURL target : String) : Except OpenAIError HermesConfigResponse :=
  match c.models.lookup active with
  | none => .error ⟨503, "server_error", "No active model is available."⟩
  | some cfg =>
    let metadata := (modelCard io cfg).metadata
    .ok
      { object := "vllm_proxy.hermes_config"
        target := target
        config :=
          { model := ⟨cfg.name, "custom:llm-proxy", ""⟩
            customProviders := [⟨"llm-proxy", publicBaseURL, "chat_completions",
              providerModels slice order⟩] }
        metadata := metadata.sortedKeys.filterMap fun k => (metadata.lookup k).map (k, ·) }

end Endpoints

/-! ## The configuration on the wire -/

/-- `json.Marshal` of the models of a provider. -/
def encodeModels (models : FMap String Int) : Json :=
  .obj (models.sortedKeys.map fun id =>
    (id, .obj [("context_length", .num ((models.lookup id).getD 0))]))

def encodeProvider (p : HermesCustomProvider) : Json :=
  .obj [("name", .str p.name), ("base_url", .str p.baseURL), ("api_mode", .str p.apiMode),
    ("models", encodeModels p.models)]

/-- `json.Marshal` of a response. -/
def encodeHermesResponse (r : HermesConfigResponse) : Json :=
  .obj [("object", .str r.object), ("target", .str r.target),
    ("config", .obj
      [("model", .obj [("default", .str r.config.model.default),
        ("provider", .str r.config.model.provider), ("base_url", .str r.config.model.baseURL)]),
      ("custom_providers", .arr (r.config.customProviders.map encodeProvider))]),
    ("metadata", .obj r.metadata)]

/-- The context lengths are integers of Go. -/
def FitsInt64 (models : FMap String Int) : Prop :=
  ∀ id, -2 ^ 63 ≤ (models.lookup id).getD 0 ∧ (models.lookup id).getD 0 < 2 ^ 63

/-- A map that is built from a list has what the list says. -/
theorem lookup_foldl_insert {α : Type} {key : α → String} {value : α → Int}
    {f : String → Option Int} {l : List α} (h : ∀ a ∈ l, f (key a) = some (value a))
    {m : FMap String Int} (hm : ∀ id, id ∉ l.map key → m.lookup id = f id) (id : String) :
    (l.foldl (fun m a => m.insert (key a) (value a)) m).lookup id = f id := by
  induction l generalizing m with
  | nil => exact hm id List.not_mem_nil
  | cons a l ih =>
    refine ih (fun b hb => h b (List.mem_cons_of_mem a hb)) fun id hid => ?_
    by_cases hkey : id = key a
    · rw [hkey, Finmap.lookup_insert, h a List.mem_cons_self]
    · rw [Finmap.lookup_insert_of_ne _ hkey, hm id (by simp_all)]

theorem setTextMap_encodeModels {α : Type} {models : FMap String Int} (h : FitsInt64 models)
    {get : α → FMap String Int} {a : α} (ha : get a = ∅) (set : FMap String Int → α → α) :
    setTextMap (contextLengthFields.decode 0) get set a (encodeModels models) =
      .ok (set models a) := by
  have hitem : ∀ id, contextLengthFields.decode 0
      (.obj [("context_length", .num ((models.lookup id).getD 0))]) =
        .ok ((models.lookup id).getD 0) := by
    intro id
    simp [contextLengthFields, Json.Fields.decode, Json.Fields.entry, equalFold, foldChar,
      Json.setInt64, -Int.reduceNeg, -Int.reducePow, h id]
  have hmodels : models.sortedKeys.foldl (fun m id => m.insert id ((models.lookup id).getD 0)) ∅ =
      models := by
    refine Finmap.ext_lookup (lookup_foldl_insert (fun id hid => ?_) fun id hid => ?_)
    · obtain ⟨n, hn⟩ := Finmap.mem_iff.mp (FMap.mem_sortedKeys.mp hid)
      simp [hn]
    · rw [List.map_id', FMap.mem_sortedKeys] at hid
      simp [Finmap.lookup_eq_none.mpr hid]
  rw [encodeModels, setTextMap, List.foldlM_map, ha]
  simp only [hitem]
  exact congrArg (fun x => x >>= fun m => Except.ok (set m a))
    (List.foldlM_pure.trans (congrArg Except.ok hmodels))

theorem mapM_encodeProvider {providers : List HermesCustomProvider}
    (h : ∀ p ∈ providers, FitsInt64 p.models) :
    (providers.map encodeProvider).mapM (hermesProviderFields.decode ⟨"", "", "", ∅⟩) =
      .ok providers := by
  induction providers with
  | nil => rfl
  | cons p rest ih =>
    have hp : hermesProviderFields.decode ⟨"", "", "", ∅⟩ (encodeProvider p) = .ok p := by
      simp [hermesProviderFields, encodeProvider, Json.Fields.decode, Json.Fields.entry, equalFold,
        foldChar, Json.setString, setTextMap_encodeModels (h p List.mem_cons_self), bind,
        Except.bind, pure, Except.pure]
    rw [List.map_cons, List.mapM_cons, hp, ih fun q hq => h q (List.mem_cons_of_mem p hq)]
    rfl

/-- What the client decodes is what the proxy has encoded. -/
theorem decode_encodeHermesResponse {r : HermesConfigResponse}
    (h : ∀ p ∈ r.config.customProviders, FitsInt64 p.models) :
    decodeHermesResponse (encodeHermesResponse r) = .ok r := by
  simp [decodeHermesResponse, encodeHermesResponse, hermesResponseFields, hermesPayloadFields,
    hermesModelFields, Json.Fields.decode, Json.Fields.entry, equalFold, foldChar, Json.setString,
    setStruct, Json.setArray, setAnyMap, mapM_encodeProvider h, bind, Except.bind, pure,
    Except.pure]

/-- The client's request gets a response of the proxy, whole. -/
def answered (sent : String → String) (catalog : Except Err HttpReply) (r : HermesConfigResponse) :
    Served :=
  ⟨fun url => .ok (sent url), .ok ⟨200, "200 OK", .ok (encodeHermesResponse r)⟩, catalog⟩

/-- A valid response is taken as it is, and another is not rebuilt without a URL of its own. -/
theorem fetched_answered_iff {r : HermesConfigResponse} (hurl : r.config.model.baseURL = "")
    (hfits : ∀ p ∈ r.config.customProviders, FitsInt64 p.models) {sent : String → String}
    {proxyURL target : String} {catalog : Except Err HttpReply}
    {x : HermesConfigResponse × String} :
    (answered sent catalog r).fetched proxyURL target = .ok x ↔
      validateHermesConfig r.config = .ok () ∧
        x = (r, sent (trimSuffix proxyURL "/" ++ "/vllm-proxy/config/" ++ pathEscape target)) := by
  have hdecode : (Except.ok (encodeHermesResponse r)).bind decodeHermesResponse = .ok r :=
    decode_encodeHermesResponse hfits
  have hfetch : ∀ url, (fetchDocument "proxy config" decodeHermesResponse url).prog.eval
      (answered sent catalog r).answer 0 = (.ok r, 1) := by
    intro url
    simp only [fetchDocument, Flow.prog, ExceptT.run_mk, Prog.eval_call, Served.answer, if_true,
      answered, ne_eq, not_true_eq_false, if_false, hdecode]
    rfl
  by_cases hok : validateHermesConfig r.config = .ok ()
  · rw [Served.fetched, fetchHermesConfig, Flow.prog_bind, Prog.eval_bind]
    -- the URL is as it was sent
    show (Prog.eval _ (_ >>= _ : Flow _ _ _).prog 0).1 = _ ↔ _
    rw [Flow.prog_bind, Prog.eval_bind, hfetch]
    dsimp only
    rw [hok]
    exact ⟨fun hx => ⟨rfl, (Except.ok.inj hx).symm⟩, fun hx => hx.2 ▸ rfl⟩
  · refine ⟨fun hx => ?_, fun hx => absurd hx.1 hok⟩
    obtain ⟨first, hfirst, hcase⟩ := Served.fetched_cases hx
    obtain rfl : r = first := by
      simpa [Served.document, answered, hdecode, Except.toOption] using hfirst
    rcases hcase with ⟨hvalid, -⟩ | ⟨-, -, hown, -⟩
    · exact absurd hvalid hok
    · exact absurd hurl hown

section Reachable

variable {io : CardInput} {c : Catalog}

/-! ## The catalog and its models -/

/-- What ranging over a map visits, by the keys that the values have. -/
theorem mem_ranges_iff {ν : Type} {m : FMap String ν} {l : List ν} (h : m.Ranges l)
    {key : ν → String} (hkey : ∀ k v, m.lookup k = some v → key v = k) {v : ν} :
    v ∈ l ↔ m.lookup (key v) = some v := by
  rw [h.mem_iff]
  constructor
  · rintro ⟨k, hk⟩
    rwa [hkey k v hk]
  · exact fun hv => ⟨_, hv⟩

theorem Catalog.WellFormed.not_both (hc : c.WellFormed) {id : String} {e : CatalogEntry}
    {o : CatalogOverlay} (he : c.models.lookup id = some e) : c.overlays.lookup id ≠ some o := by
  intro ho
  have hname := (hc.overlay id o ho).name
  rw [hc.overlayKey id o ho, he] at hname
  cases hname

theorem model_eq_ok_iff (hc : c.WellFormed) {id : String} {card : ModelCard} :
    model io c id = .ok card ↔ (∃ e, c.models.lookup id = some e ∧ modelCard io e = card) ∨
        ∃ o, c.overlays.lookup id = some o ∧ overlayCard io c o = card := by
  unfold model
  cases he : c.models.lookup id with
  | none => cases ho : c.overlays.lookup id <;> simp
  | some e =>
    have ho : c.overlays.lookup id = none :=
      Option.eq_none_iff_forall_ne_some.mpr fun o => hc.not_both he
    simp [ho]

section Orders

variable {order : List CatalogEntry} {overlayOrder : List CatalogOverlay}
  (hc : c.WellFormed) (hm : c.models.Ranges order) (ho : c.overlays.Ranges overlayOrder)
include hc hm ho

theorem nodup_names :
    (order.map (fun e => e.name) ++ overlayOrder.map CatalogOverlay.name).Nodup := by
  refine List.nodup_append.mpr ⟨hm.nodup_map hc.modelKey, ho.nodup_map hc.overlayKey, ?_⟩
  intro a ha b hb hab
  obtain ⟨e, he, rfl⟩ := List.mem_map.mp ha
  obtain ⟨o, ho', rfl⟩ := List.mem_map.mp hb
  rw [mem_ranges_iff hm hc.modelKey, hab] at he
  exact hc.not_both he ((mem_ranges_iff ho hc.overlayKey).mp ho')

theorem mem_models_iff (slice : KeySort ModelCard.id) {id : String} {card : ModelCard} :
    card ∈ models io c slice order overlayOrder ∧ card.id = id ↔ model io c id = .ok card := by
  rw [model_eq_ok_iff hc, models, (slice.perm _).mem_iff, List.mem_append, List.mem_map,
    List.mem_map]
  constructor
  · rintro ⟨⟨e, he, rfl⟩ | ⟨o, ho', rfl⟩, rfl⟩
    · exact .inl ⟨e, (mem_ranges_iff hm hc.modelKey).mp he, rfl⟩
    · exact .inr ⟨o, (mem_ranges_iff ho hc.overlayKey).mp ho', rfl⟩
  · rintro (⟨e, he, rfl⟩ | ⟨o, ho', rfl⟩)
    · exact ⟨.inl ⟨e, (hm.mem_iff e).mpr ⟨id, he⟩, rfl⟩, hc.modelKey id e he⟩
    · exact ⟨.inr ⟨o, (ho.mem_iff o).mpr ⟨id, ho'⟩, rfl⟩, hc.overlayKey id o ho'⟩

theorem sorted_models (slice : KeySort ModelCard.id) :
    (models io c slice order overlayOrder).Pairwise fun a b => a.id < b.id := by
  have hids : ((models io c slice order overlayOrder).map ModelCard.id).Nodup := by
    rw [models, ((slice.perm _).map ModelCard.id).nodup_iff]
    simpa [Function.comp_def, modelCard, overlayCard, overlayModelCard] using nodup_names hc hm ho
  refine ((slice.sorted _).and (List.pairwise_map.mp hids)).imp fun {a b} h => ?_
  exact lt_of_le_of_ne (not_lt.mp h.1) h.2

end Orders

/-! ## Overlays -/

theorem lookup_insert_congr {m m' : FMap String Json} {key : String}
    (h : m.lookup key = m'.lookup key) (k : String) (v : Json) :
    (m.insert k v).lookup key = (m'.insert k v).lookup key := by
  by_cases hk : key = k
  · subst hk
    simp
  · simp [Finmap.lookup_insert_of_ne _ hk, h]

/-- Metadata that is merged into two maps leaves them alike where they are alike. -/
theorem lookup_mergeJSONMetadata {m m' : FMap String Json} {key : String}
    (h : m.lookup key = m'.lookup key) (raw : String) :
    (mergeJSONMetadata io m raw).lookup key = (mergeJSONMetadata io m' raw).lookup key := by
  unfold mergeJSONMetadata
  split
  · exact h
  split
  · rename_i values hvalues
    clear hvalues
    induction values generalizing m m' with
    | nil => exact h
    | cons e values ih => exact ih (lookup_insert_congr h e.1 e.2)
  · exact h

/-- What an overlay says of itself. -/
def identityKeys : List String := ["overlay", "base_model", "source", "config_source", "backend"]

theorem lookup_overlayModelCard {o : CatalogOverlay} {base : CatalogEntry} {key : String}
    (hkey : key ∉ identityKeys) :
    (overlayModelCard io o base).metadata.lookup key = (modelCard io base).metadata.lookup key := by
  simp only [identityKeys, List.mem_cons, List.not_mem_nil, or_false, not_or] at hkey
  obtain ⟨hoverlay, hbase, hsource, hconfig, hbackend⟩ := hkey
  have hown : ∀ (source : String) (m : FMap String Json),
      (withSource source m).lookup key = m.lookup key := by
    intro source m
    unfold withSource
    split
    · exact Finmap.lookup_insert_of_ne _ hconfig
    · rfl
  refine lookup_insert_congr ?_ _ _
  rw [Finmap.lookup_insert_of_ne _ hbase, Finmap.lookup_insert_of_ne _ hoverlay]
  refine lookup_mergeJSONMetadata (lookup_mergeJSONMetadata ?_ _) _
  simp only [hown, Finmap.lookup_insert_of_ne _ hbase, Finmap.lookup_insert_of_ne _ hoverlay,
    Finmap.lookup_insert_of_ne _ hsource, Finmap.lookup_insert_of_ne _ hbackend]

end Reachable

section Runs

variable {ι : Type} [DecidableEq ι] (parseQuantity : String → Except Err Int)
  (worker : ι → CatalogWorker) (log : List (ι × Event CatalogApi))
  (c : Threads CatalogApi Catalog ι (Option Err)) (io : CardInput)

/-- Refreshes and updates of model cards, from an empty registry. -/
def Reaches : Prop :=
  Interleaving Catalog.exec (fun i => (worker i).program parseQuantity) ⟨∅, ∅⟩ log c

variable {parseQuantity worker log c}

theorem Reaches.wellFormed (h : Reaches parseQuantity worker log c) : c.state.WellFormed :=
  Interleaving.invariant h Catalog.wellFormed_empty
    fun _ _ _ _ _ _ _ hc₁ hsteps hanswers hexec => hc₁.exec hsteps hanswers hexec

/-- In whatever order the maps are visited and equal elements are sorted, the catalog is strictly
sorted by the names, and what it has under a name is what is shown of the model with that name. An
overlay is shown as its base, with its own identity whatever is stored about the base. -/
theorem catalog_consistent (h : Reaches parseQuantity worker log c) (slice : KeySort ModelCard.id)
    {order : List CatalogEntry} {overlayOrder : List CatalogOverlay}
    (hm : c.state.models.Ranges order) (ho : c.state.overlays.Ranges overlayOrder) :
    ((models io c.state slice order overlayOrder).Pairwise fun a b => a.id < b.id) ∧
      (∀ id card, card ∈ models io c.state slice order overlayOrder ∧ card.id = id ↔
        model io c.state id = .ok card) ∧
      ∀ o ∈ overlayOrder, ∃ card base,
        model io c.state o.name = .ok card ∧ model io c.state o.baseModel = .ok base ∧
        card.metadata.lookup "overlay" = some (.bool true) ∧
        card.metadata.lookup "base_model" = some (.str o.baseModel) ∧
        ∀ key ∉ identityKeys, card.metadata.lookup key = base.metadata.lookup key := by
  have hc := h.wellFormed
  refine ⟨sorted_models hc hm ho slice, fun _ _ => mem_models_iff hc hm ho slice, fun o hmem => ?_⟩
  have hname := (mem_ranges_iff ho hc.overlayKey).mp hmem
  obtain ⟨base, hbase⟩ := Option.isSome_iff_exists.mp (hc.overlay _ o hname).baseModel
  refine ⟨_, _, (model_eq_ok_iff hc).mpr (.inr ⟨o, hname, rfl⟩),
    (model_eq_ok_iff hc).mpr (.inl ⟨base, hbase, rfl⟩), ?_, ?_, fun key hkey => ?_⟩
  · simp [overlayCard, overlayModelCard, Finmap.lookup_insert_of_ne]
  · simp [overlayCard, overlayModelCard, Finmap.lookup_insert_of_ne]
  · rw [overlayCard, hbase, Option.getD_some, lookup_overlayModelCard hkey]

/-- The models of the provider are those of the registry. -/
theorem lookup_providerModels {c : Catalog} (hc : c.WellFormed) {order : List CatalogEntry}
    (hm : c.models.Ranges order) (slice : EntrySort) (id : String) :
    (providerModels slice order).lookup id = (c.models.lookup id).map fun e => e.maxModelLen := by
  refine lookup_foldl_insert (f := fun id => (c.models.lookup id).map _) (fun e he => ?_)
    (fun id hid => ?_) id
  · rw [(mem_ranges_iff hm hc.modelKey).mp ((slice.perm order).mem_iff.mp he)]
    rfl
  · cases he : c.models.lookup id with
    | none => rfl
    | some e =>
      exact absurd (List.mem_map.mpr ⟨e, (slice.perm order).mem_iff.mpr
        ((hm.mem_iff e).mpr ⟨id, he⟩), hc.modelKey id e he⟩) hid

theorem validate_provider (url : String) {active : String} {models : FMap String Int}
    (hactive : active ∈ models)
    (hmodels : ∀ id ∈ models, trimSpace id ≠ "" ∧ 1 ≤ (models.lookup id).getD 0) :
    validateHermesConfig ⟨⟨active, "custom:llm-proxy", ""⟩,
      [⟨"llm-proxy", url, "chat_completions", models⟩]⟩ = .ok () ↔ url ≠ "" := by
  have hname : trimPrefix "custom:llm-proxy" "custom:" = "llm-proxy" := by decide +kernel
  have hcustom : hasPrefix "custom:llm-proxy" "custom:" = true := by decide +kernel
  have hnonempty : active ≠ "" := by
    rintro rfl
    exact (hmodels _ hactive).1 (by decide +kernel)
  have hprovider : validateHermesProvider active ⟨"llm-proxy", url, "chat_completions", models⟩ =
      .ok () ↔ url ≠ "" := by
    rw [validateHermesProvider_eq_ok]
    exact ⟨fun h => h.1.1, fun hne => ⟨⟨hne, rfl⟩, (hmodels _ hactive).2,
      fun id hid => hmodels id (FMap.mem_sortedKeys.mp hid)⟩⟩
  simpa [validateHermesConfig, HermesConfigPayload.providerName, hnonempty, hname, hcustom]
    using hprovider

/-- The client takes the configuration of the active model as it is served, with all models of the
registry, unless the proxy has no public URL: then the client refuses it. -/
theorem hermesConfig_fetched (h : Reaches parseQuantity worker log c)
    (slice : EntrySort) {order : List CatalogEntry}
    (hm : c.state.models.Ranges order) (hfits : ∀ e ∈ order, e.maxModelLen < 2 ^ 63)
    {active : String} (hactive : active ∈ c.state.models) (publicBaseURL target proxyURL : String)
    (sent : String → String) (catalog : Except Err HttpReply) :
    ∃ r, hermesConfig io c.state slice order active publicBaseURL target = .ok r ∧
      r.config.model.default = active ∧
      (∃ p ∈ r.config.customProviders, ∀ id,
        p.models.lookup id = (c.state.models.lookup id).map fun e => e.maxModelLen) ∧
      ∀ x, (answered sent catalog r).fetched proxyURL target = .ok x ↔ publicBaseURL ≠ "" ∧
        x = (r, sent (trimSuffix proxyURL "/" ++ "/vllm-proxy/config/" ++ pathEscape target)) := by
  have hc := h.wellFormed
  obtain ⟨cfg, hcfg⟩ := Finmap.mem_iff.mp hactive
  obtain rfl := hc.modelKey active cfg hcfg
  have hlookup := lookup_providerModels hc hm slice
  have hmem : ∀ id, id ∈ providerModels slice order ↔ id ∈ c.state.models := fun id => by
    simp [Finmap.mem_iff, hlookup]
  have hfit : FitsInt64 (providerModels slice order) := by
    intro id
    rw [hlookup]
    cases hid : c.state.models.lookup id with
    | none => decide
    | some e =>
      exact ⟨le_trans (by decide) (hc.model id e hid).maxModelLen,
        hfits e ((hm.mem_iff e).mpr ⟨id, hid⟩)⟩
  have hvalid := validate_provider publicBaseURL ((hmem _).mpr hactive) (by
    intro id hid
    obtain ⟨e, he⟩ := Finmap.mem_iff.mp ((hmem id).mp hid)
    rw [hlookup, he]
    exact ⟨hc.modelKey id e he ▸ (hc.model id e he).name, (hc.model id e he).maxModelLen⟩)
  refine ⟨_, by rw [hermesConfig, hcfg], rfl, ⟨_, List.mem_singleton_self _, hlookup⟩, fun x => ?_⟩
  refine (fetched_answered_iff rfl ?_).trans (and_congr_left' hvalid)
  intro p hp
  rw [List.mem_singleton.mp hp]
  exact hfit

end Runs

/-! ## A run -/

def KeySort.insertion {α : Type} (key : α → String) : KeySort key where
  sort := List.insertionSort (Order.Preimage key (· ≤ ·))
  perm := List.perm_insertionSort _
  sorted l := (List.pairwise_insertionSort _ l).imp not_lt.mpr

/-- The run with one model and one overlay, whose model card is stored. -/
theorem CatalogRun.reaches : ∃ log c, Reaches (fun _ => .ok 1) worker log c ∧
    "base" ∈ c.state.models ∧ (∀ e ∈ c.state.models.values, e.maxModelLen < 2 ^ 63) ∧
      c.state.overlays.values.map CatalogOverlay.name = ["base-chat"] := by
  refine exists_interleaving _ _ _ exec_unstored
    ([false, false, true, false, false, false, true, true].map fun i => ((), i)) (fun _ c => _) ?_
  decide +kernel

def bare : CardInput := ⟨fun _ => none, fun _ => 0⟩

theorem catalog_consistent_chat : ∃ (c : Catalog) (card : ModelCard),
    model bare c "base-chat" = .ok card ∧ card.metadata.lookup "overlay" = some (.bool true) := by
  obtain ⟨log, c, hrun, -, -, hnames⟩ := CatalogRun.reaches
  obtain ⟨o, ho, hname⟩ := List.mem_map.mp (hnames ▸ List.mem_singleton_self "base-chat")
  obtain ⟨card, base, hcard, -, hoverlay, -⟩ := (catalog_consistent bare hrun (.insertion _)
    (FMap.ranges_values _) (FMap.ranges_values _)).2.2 o ho
  exact ⟨c.state, card, hname ▸ hcard, hoverlay⟩

theorem hermesConfig_fetched_base : ∃ (r : HermesConfigResponse) (x : _),
    r.config.model.default = "base" ∧
      (answered id (.error .canceled) r).fetched "" "default" = .ok x := by
  obtain ⟨log, c, hrun, hbase, hfits, -⟩ := CatalogRun.reaches
  obtain ⟨r, -, hdefault, -, hx⟩ := hermesConfig_fetched bare hrun (.insertion _)
    (FMap.ranges_values _) hfits hbase "http://llm-proxy:8080/v1" "default" "" id (.error .canceled)
  exact ⟨r, _, hdefault, (hx _).mpr ⟨by decide, rfl⟩⟩

end LlmOperator.Proxy
