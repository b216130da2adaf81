import LlmOperator.Cache.Files
import LlmOperator.Data.Value
import LlmOperator.Proxy.Hermes

/-!
# Synchronising the Hermes configuration

`writeHermesConfig` of `cmd/llm-proxy/main.go`. The configuration belongs to the user: it is a tree
in which everything may be absent or of any type. The proxy owns the providers with its name, and
the model as long as the user has not chosen another provider.

The tree is what `yaml.v3` decodes a document into. A map whose keys are all texts is a
`map[string]any`, and only that is a mapping to the code: one with another key is a value of another
type, as numbers and times are.
-/

namespace LlmOperator.Proxy.HermesSync

open Api Cache Data Data.GoString Interaction
open Data.Value hiding Path
open FileSystem hiding Same

/-- What a tree holds besides nulls, truth values, texts, lists and mappings. -/
inductive Scalar (ω : Type) where
  | int (n : Int)
  | other (v : ω)

abbrev Tree (ω : Type) : Type := Value (Scalar ω)

/-- A `map[string]any`. -/
abbrev HermesConfig (ω : Type) : Type := Object (Scalar ω)

variable {B ω : Type} {providers : List (Tree ω)} {x : Option (Tree ω)}

/-- Decoding and encoding by `yaml.v3`. A document that is null is decoded into a nil map. What is
encoded is decoded into the same tree. -/
structure Yaml (B ω : Type) where
  empty : B
  decode : B → Except String (Option (HermesConfig ω))
  encode : HermesConfig ω → Except String B
  roundTrip : ∀ {config b}, encode config = .ok b →
    ∃ config', decode b = .ok (some config') ∧ Same config'.value config.value

/-! ## The model -/

/-- `v.(string)`, or the empty text. -/
def textOf : Option (Tree ω) → String
  | some (.str s) => s
  | _ => ""

/-- `shouldSyncHermesModel`. -/
def shouldSyncHermesModel (proxyProvider : String) : Option (Tree ω) → Bool
  | none | some .null => true
  | some (.str sentinel) => trimSpace sentinel == ""
  | some (.obj model) =>
    let provider := textOf (lookup "provider" model)
    provider == "" || provider == proxyProvider
  | some _ => false

/-- `v.(map[string]any)`, or an empty map. -/
def mappingOf : Option (Tree ω) → Entries (Scalar ω)
  | some (.obj fields) => fields
  | _ => []

/-- What is set and removed in the model. -/
def syncedModel (remote : HermesModelConfig) (model : Entries (Scalar ω)) : Entries (Scalar ω) :=
  erase "api_mode" (erase "api_key" (erase "base_url"
    (assign "provider" (.str remote.provider) (assign "default" (.str remote.default) model))))

def syncModel (remote : HermesModelConfig) (config : Entries (Scalar ω)) : Entries (Scalar ω) :=
  if shouldSyncHermesModel remote.provider (lookup "model" config) then
    assign "model" (.obj (syncedModel remote (mappingOf (lookup "model" config)))) config
  else config

/-! ## The providers -/

def customProviders (config : Entries (Scalar ω)) : Except Err (List (Tree ω)) :=
  match lookup "custom_providers" config with
  | none => .ok []
  | some (.arr providers) => .ok providers
  | some _ => .error (.other "custom_providers must be a YAML list")

/-- `entry["name"] == providerName`. -/
def named (providerName : String) (entry : Entries (Scalar ω)) : Bool :=
  match lookup "name" entry with
  | some (.str name) => name == providerName
  | _ => false

/-- The providers of other names. -/
def keepOthers (providerName : String) : List (Tree ω) → Except Err (List (Tree ω))
  | [] => .ok []
  | .obj entry :: providers => do
      let kept ← keepOthers providerName providers
      return if named providerName entry then kept else .obj entry :: kept
  | _ :: _ => .error (.other "custom_providers entries must be YAML mappings")

def modelEntry (contextLength : Int) : Tree ω :=
  .obj [("context_length", .num (.int contextLength))]

def providerEntry (provider : HermesCustomProvider) : Entries (Scalar ω) :=
  [("name", .str provider.name), ("base_url", .str provider.baseURL),
    ("api_mode", .str provider.apiMode),
    ("models", .obj (provider.models.sortedKeys.map fun id =>
      (id, modelEntry ((provider.models.lookup id).getD 0))))]

/-- The providers of the proxy. -/
def ownProviders (remote : HermesConfigPayload) : List (Entries (Scalar ω)) :=
  (remote.customProviders.filter fun provider => provider.name == remote.providerName).map
    providerEntry

def updatedProviders (remote : HermesConfigPayload) (config : Entries (Scalar ω)) :
    Except Err (List (Tree ω)) := do
  let providers ← customProviders config
  let kept ← keepOthers remote.providerName providers
  return kept ++ (ownProviders remote).map .obj

/-! Every map that is made is one: no key is repeated. -/

theorem keepOthers_eq_ok {providerName : String} {kept : List (Tree ω)} :
    keepOthers providerName providers = .ok kept ↔
      ∃ entries : List (Entries (Scalar ω)), providers = entries.map .obj ∧
        kept = (entries.filter fun entry => !named providerName entry).map .obj := by
  induction providers generalizing kept with
  | nil =>
    constructor
    · rintro ⟨⟩
      exact ⟨[], rfl, rfl⟩
    · rintro ⟨entries, hnil, rfl⟩
      obtain rfl := List.map_eq_nil_iff.mp hnil.symm
      rfl
  | cons provider providers ih =>
    cases provider with
    | obj entry =>
      rw [keepOthers]
      constructor
      · intro h
        obtain ⟨rest, hrest, h⟩ := ok_of_bind h
        obtain ⟨entries, rfl, rfl⟩ := ih.mp hrest
        refine ⟨entry :: entries, rfl, ?_⟩
        cases h
        cases hname : named providerName entry <;> simp [hname]
      · rintro ⟨entries, heq, rfl⟩
        cases entries with
        | nil => cases heq
        | cons entry' entries =>
          obtain ⟨hhead, htail⟩ := List.cons.inj heq
          cases hhead
          rw [ih.mpr ⟨entries, htail, rfl⟩]
          cases hname : named providerName entry <;> simp [hname]
    | _ =>
      refine ⟨nofun, ?_⟩
      rintro ⟨entries, heq, -⟩
      cases entries with
      | nil => cases heq
      | cons entry' entries => cases (List.cons.inj heq).1

theorem distinct_modelEntry (n : Int) : (modelEntry n : Tree ω).Distinct := by
  refine distinct_obj (by simp [keys]) fun e he => ?_
  obtain rfl := List.mem_singleton.mp he
  exact distinct_num _

theorem distinct_providerEntry (provider : HermesCustomProvider) :
    (Value.obj (providerEntry provider : Entries (Scalar ω))).Distinct := by
  refine distinct_obj (by simp [keys, providerEntry]) fun e he => ?_
  simp only [providerEntry, List.mem_cons, List.not_mem_nil, or_false] at he
  rcases he with rfl | rfl | rfl | rfl
  · exact distinct_str _
  · exact distinct_str _
  · exact distinct_str _
  · refine distinct_obj ?_ fun e he => ?_
    · rw [keys, List.map_map]
      exact (List.map_id _).symm ▸ provider.models.nodup_sortedKeys
    · obtain ⟨id, -, rfl⟩ := List.mem_map.mp he
      exact distinct_modelEntry _

theorem distinct_updatedProviders {remote : HermesConfigPayload} {config : Entries (Scalar ω)}
    (hconfig : (Value.obj config).Distinct) (h : updatedProviders remote config = .ok providers) :
    (Value.arr providers).Distinct := by
  obtain ⟨existing, hexisting, h⟩ := ok_of_bind h
  obtain ⟨kept, hkept, h⟩ := ok_of_bind h
  obtain ⟨entries, rfl, rfl⟩ := keepOthers_eq_ok.mp hkept
  cases h
  refine distinct_arr fun v hv => ?_
  rcases List.mem_append.mp hv with hv | hv
  · unfold customProviders at hexisting
    split at hexisting
    · cases entries with
      | nil => cases hv
      | cons entry entries => cases hexisting
    · rename_i items hlookup
      cases hexisting
      obtain ⟨entry, hentry, rfl⟩ := List.mem_map.mp hv
      exact (hconfig.entry hlookup).item (List.mem_map_of_mem (List.mem_filter.mp hentry).1)
    · cases hexisting
  · obtain ⟨entry, hentry, rfl⟩ := List.mem_map.mp hv
    obtain ⟨provider, -, rfl⟩ := List.mem_map.mp hentry
    exact distinct_providerEntry provider

theorem distinct_mappingOf (h : ∀ v, x = some v → v.Distinct) :
    (Value.obj (mappingOf x)).Distinct := by
  unfold mappingOf
  split
  · exact h _ rfl
  · exact Object.empty.distinct

theorem distinct_syncModel (remote : HermesModelConfig) {config : Entries (Scalar ω)}
    (h : (Value.obj config).Distinct) : (Value.obj (syncModel remote config)).Distinct := by
  unfold syncModel
  split
  · have hmodel := distinct_mappingOf (x := lookup "model" config) fun v hv => h.entry hv
    exact h.assign _
      (((((hmodel.assign _ (distinct_str _)).assign _ (distinct_str _)).erase _).erase
      _).erase _)
  · exact h

/-- The new configuration of `writeHermesConfig`. -/
def syncHermesConfig (remote : HermesConfigPayload) (config : HermesConfig ω) :
    Except Err (HermesConfig ω) :=
  match h : updatedProviders remote (syncModel remote.model config.fields) with
  | .error e => .error e
  | .ok providers => .ok ⟨assign "custom_providers" (.arr providers)
      (syncModel remote.model config.fields),
      have hmodel := distinct_syncModel remote.model config.distinct
      hmodel.assign _ (distinct_updatedProviders hmodel h)⟩

/-! ## The file -/

/-- The configuration that is there; a missing file is an empty one. -/
def readHermesConfig (yaml : Yaml B ω) (path : Path) :
    Flow (Fs B) Err (Option (HermesConfig ω)) := do
  match ← (liftM (readFile path).prog : Flow (Fs B) Err (Except PathError B)) with
  | .ok body =>
    match yaml.decode body with
    | .ok config => return config
    | .error e => throw (.wrap "parse Hermes config" (.other e))
  | .error e => if e.errno = .enoent then return some Object.empty else throw (pathErr e)

def storeHermesConfig (yaml : Yaml B ω) (path : Path) (config : HermesConfig ω) :
    Flow (Fs B) Err Unit := do
  match yaml.encode config with
  | .error e => throw (.other e)
  | .ok body =>
    os (mkdirAll path.dropLast)
    os (writeFile path yaml.empty body)

/-- `writeHermesConfig`. -/
def writeHermesConfig (yaml : Yaml B ω) (path : Path) (remote : HermesConfigPayload) :
    Flow (Fs B) Err Unit := do
  match ← readHermesConfig yaml path with
  -- The model is always set in a nil map.
  | none => throw (.other "assignment to entry in nil map")
  | some config =>
    match syncHermesConfig remote config with
    | .error e => throw e
    | .ok config => storeHermesConfig yaml path config

/-! ## What a synchronisation changes -/

/-- The model is the user's: its provider is another one, or it is no mapping and not left empty. -/
def KeepsModel (provider : String) : Option (Tree ω) → Prop
  | some (.obj model) =>
    ∃ chosen, lookup "provider" model = some (.str chosen) ∧ chosen ≠ "" ∧ chosen ≠ provider
  | some (.str sentinel) => trimSpace sentinel ≠ ""
  | none | some .null => False
  | some _ => True

/-- What a name of the model has once it is set. -/
def modelValue (remote : HermesModelConfig) (model : Entries (Scalar ω)) (key : String) :
    Option (Tree ω) :=
  if key = "default" then some (.str remote.default)
  else if key = "provider" then some (.str remote.provider)
  else if key ∈ ["base_url", "api_key", "api_mode"] then none
  else lookup key model

/-- The providers of a configuration, where these are a list of mappings. -/
def ProvidersAre (config : Entries (Scalar ω)) (entries : List (Entries (Scalar ω))) : Prop :=
  lookup "custom_providers" config = none ∧ entries = [] ∨
    lookup "custom_providers" config = some (.arr (entries.map .obj))

def HasName (name : String) (entry : Entries (Scalar ω)) : Prop :=
  lookup "name" entry = some (.str name)

theorem named_iff {name : String} {entry : Entries (Scalar ω)} :
    named name entry = true ↔ HasName name entry := by
  unfold named HasName
  split <;> simp_all

instance (name : String) : DecidablePred (HasName (ω := ω) name) :=
  fun _ => decidable_of_iff _ named_iff

theorem not_named_eq (name : String) :
    (fun entry : Entries (Scalar ω) => !named name entry) =
      fun entry => decide (¬ HasName name entry) := by
  funext entry
  rw [decide_not, Bool.not_inj_iff, Bool.eq_iff_iff, named_iff, decide_eq_true_iff]

/-- An entry that says what a provider of the payload is, and nothing else. -/
structure Represents (provider : HermesCustomProvider) (entry : Entries (Scalar ω)) : Prop where
  name : lookup "name" entry = some (.str provider.name)
  baseURL : lookup "base_url" entry = some (.str provider.baseURL)
  apiMode : lookup "api_mode" entry = some (.str provider.apiMode)
  models : ∃ models, lookup "models" entry = some (.obj models) ∧ ∀ id, lookup id models =
    (provider.models.lookup id).map fun n => .obj [("context_length", .num (.int n))]
  nothingElse : ∀ key, key ∉ ["name", "base_url", "api_mode", "models"] → lookup key entry = none

theorem represents_providerEntry (provider : HermesCustomProvider) :
    Represents provider (providerEntry provider : Entries (Scalar ω)) := by
  refine ⟨rfl, rfl, rfl, ⟨_, rfl, fun id => ?_⟩, fun key hkey => ?_⟩
  · cases hid : provider.models.lookup id with
    | none =>
      rw [Option.map_none, lookup_eq_none_iff, keys, List.map_map]
      simp [Function.comp_def, FMap.mem_sortedKeys, Finmap.lookup_eq_none.mp hid]
    | some n =>
      refine lookup_of_mem ?_ (List.mem_map.mpr ⟨id, ?_, ?_⟩)
      · rw [keys, List.map_map]
        exact (List.map_id _).symm ▸ provider.models.nodup_sortedKeys
      · exact FMap.mem_sortedKeys.mpr (Finmap.mem_of_lookup_eq_some hid)
      · rw [hid]
        rfl
  · rw [lookup_eq_none_iff]
    simpa [keys, providerEntry] using hkey

/-- What a configuration has become, with these entries for the providers of the payload. -/
structure Synced (own : List (Entries (Scalar ω))) (remote : HermesConfigPayload)
    (config config' : HermesConfig ω) : Prop where
  others : ∀ key, key ≠ "model" → key ≠ "custom_providers" →
    Alike (lookup key config'.fields) (lookup key config.fields)
  /-- The providers of other names stay as they are and in order; those of the proxy are last. -/
  providers : ∃ entries, ProvidersAre config.fields entries ∧
    Alike (lookup "custom_providers" config'.fields)
      (some (.arr ((entries.filter (fun entry => ¬ HasName remote.providerName entry) ++
        own).map .obj)))
  kept : KeepsModel remote.model.provider (lookup "model" config.fields) →
    Alike (lookup "model" config'.fields) (lookup "model" config.fields)
  set : ¬ KeepsModel remote.model.provider (lookup "model" config.fields) →
    ∃ model, lookup "model" config'.fields = some (.obj model) ∧ ∀ key,
      Alike (lookup key model)
        (modelValue remote.model (mappingOf (lookup "model" config.fields)) key)

section Synced

variable {own : List (Entries (Scalar ω))} {remote : HermesConfigPayload}
  {config config' : HermesConfig ω}

theorem shouldSync_eq_false {provider : String} :
    shouldSyncHermesModel provider x = false ↔ KeepsModel provider x := by
  match x with
  | none => exact ⟨nofun, False.elim⟩
  | some .null => exact ⟨nofun, False.elim⟩
  | some (.bool _) => exact ⟨fun _ => trivial, fun _ => rfl⟩
  | some (.num _) => exact ⟨fun _ => trivial, fun _ => rfl⟩
  | some (.arr _) => exact ⟨fun _ => trivial, fun _ => rfl⟩
  | some (.str s) => simp [shouldSyncHermesModel, KeepsModel]
  | some (.obj model) =>
    rw [shouldSyncHermesModel, KeepsModel]
    constructor
    · intro h
      simp only [Bool.or_eq_false_iff, beq_eq_false_iff_ne] at h
      unfold textOf at h
      split at h
      · rename_i chosen hchosen
        exact ⟨chosen, hchosen, h⟩
      · exact absurd rfl h.1
    · rintro ⟨chosen, hchosen, h⟩
      simpa [textOf, hchosen] using h

theorem lookup_syncedModel (remote : HermesModelConfig) (model : Entries (Scalar ω))
    (key : String) :
    lookup key (syncedModel remote model) = modelValue remote model key := by
  unfold syncedModel modelValue
  simp only [lookup_erase, lookup_assign, List.mem_cons, List.not_mem_nil, or_false]
  by_cases hdefault : key = "default"
  · subst hdefault
    simp
  · by_cases hprovider : key = "provider"
    · subst hprovider
      simp
    · simp only [hdefault, hprovider, if_false]
      grind

theorem syncModel_of_keeps {remote : HermesModelConfig} {config : Entries (Scalar ω)}
    (h : KeepsModel remote.provider (lookup "model" config)) :
    syncModel remote config = config := by
  rw [syncModel, shouldSync_eq_false.mpr h, if_neg Bool.false_ne_true]

theorem syncModel_of_not_keeps {remote : HermesModelConfig} {config : Entries (Scalar ω)}
    (h : ¬ KeepsModel remote.provider (lookup "model" config)) :
    syncModel remote config =
      assign "model" (.obj (syncedModel remote (mappingOf (lookup "model" config)))) config := by
  rw [syncModel, if_pos]
  rwa [← shouldSync_eq_false, Bool.not_eq_false] at h

theorem lookup_syncModel {key : String} (remote : HermesModelConfig) (config : Entries (Scalar ω))
    (h : key ≠ "model") : lookup key (syncModel remote config) = lookup key config := by
  unfold syncModel
  split
  · rw [lookup_assign, if_neg h]
  · rfl

theorem customProviders_eq_ok {config : Entries (Scalar ω)} :
    customProviders config = .ok providers ↔
      lookup "custom_providers" config = none ∧ providers = [] ∨
        lookup "custom_providers" config = some (.arr providers) := by
  unfold customProviders
  generalize lookup "custom_providers" config = x
  match x with
  | none => simp [eq_comm]
  | some (.arr items) => simp
  | some .null | some (.bool _) | some (.num _) | some (.str _) | some (.obj _) => simp

/-- The new providers, when the old ones are a list of mappings. -/
theorem updatedProviders_eq_ok {config : Entries (Scalar ω)} :
    updatedProviders remote config = .ok providers ↔
      ∃ entries, ProvidersAre config entries ∧
        providers = (entries.filter (fun entry => ¬ HasName remote.providerName entry) ++
          ownProviders remote).map .obj := by
  rw [← not_named_eq]
  constructor
  · intro h
    obtain ⟨existing, hexisting, h⟩ := ok_of_bind h
    obtain ⟨kept, hkept, h⟩ := ok_of_bind h
    obtain ⟨entries, rfl, rfl⟩ := keepOthers_eq_ok.mp hkept
    cases h
    refine ⟨entries, ?_, List.map_append.symm⟩
    simpa [customProviders_eq_ok, ProvidersAre] using hexisting
  · rintro ⟨entries, hentries, rfl⟩
    have hexisting : customProviders config = .ok (entries.map .obj) := by
      simpa [customProviders_eq_ok, ProvidersAre] using hentries
    rw [updatedProviders, hexisting]
    show (keepOthers _ _ >>= _) = _
    rw [keepOthers_eq_ok.mpr ⟨entries, rfl, rfl⟩, List.map_append]
    rfl

theorem syncHermesConfig_eq_ok :
    syncHermesConfig remote config = .ok config' ↔
      ∃ providers, updatedProviders remote (syncModel remote.model config.fields) = .ok providers ∧
        config'.fields = assign "custom_providers" (.arr providers)
          (syncModel remote.model config.fields) := by
  unfold syncHermesConfig
  split
  · rename_i e he
    refine ⟨nofun, ?_⟩
    rintro ⟨providers, hproviders, -⟩
    cases he.symm.trans hproviders
  · rename_i providers hproviders
    constructor
    · rintro ⟨⟩
      exact ⟨providers, hproviders, rfl⟩
    · rintro ⟨providers', hproviders', hfields⟩
      cases hproviders.symm.trans hproviders'
      obtain ⟨fields, hdistinct⟩ := config'
      cases hfields
      rfl

/-- Only the shape of the providers stops a synchronisation. -/
theorem exists_providersAre (h : syncHermesConfig remote config = .ok config') :
    ∃ entries, ProvidersAre config.fields entries := by
  obtain ⟨providers, hproviders, -⟩ := syncHermesConfig_eq_ok.mp h
  obtain ⟨entries, hentries, -⟩ := updatedProviders_eq_ok.mp hproviders
  rw [ProvidersAre, lookup_syncModel _ _ (by decide)] at hentries
  exact ⟨entries, hentries⟩

theorem synced_of_sync (h : syncHermesConfig remote config = .ok config') :
    Synced (ownProviders remote) remote config config' := by
  obtain ⟨providers, hproviders, hfields⟩ := syncHermesConfig_eq_ok.mp h
  obtain ⟨entries, hentries, rfl⟩ := updatedProviders_eq_ok.mp hproviders
  rw [ProvidersAre, lookup_syncModel _ _ (by decide)] at hentries
  have hmodel : lookup "model" config'.fields =
      lookup "model" (syncModel remote.model config.fields) := by
    rw [hfields, lookup_assign, if_neg (by decide)]
  refine ⟨fun key hkey hkey' => ?_, ⟨entries, hentries, ?_⟩, fun hkeeps => ?_, fun hkeeps => ?_⟩
  · rw [hfields, lookup_assign, if_neg hkey', lookup_syncModel _ _ hkey]
    exact .refl _
  · rw [hfields, lookup_assign, if_pos rfl]
    exact .refl _
  · rw [hmodel, syncModel_of_keeps hkeeps]
    exact .refl _
  · refine ⟨syncedModel remote.model (mappingOf (lookup "model" config.fields)), ?_, fun key => ?_⟩
    · rw [hmodel, syncModel_of_not_keeps hkeeps, lookup_assign, if_pos rfl]
    · rw [lookup_syncedModel]
      exact .refl _

/-- What the configuration has become may be looked at in any order. -/
theorem Synced.of_same {config'' : HermesConfig ω} (h : Synced own remote config config')
    (hsame : Same config''.value config'.value) : Synced own remote config config'' := by
  have hkey := same_obj_iff.mp hsame
  refine ⟨fun key hne hne' => (hkey key).trans (h.others key hne hne'), ?_,
    fun hkeeps => (hkey _).trans (h.kept hkeeps), fun hkeeps => ?_⟩
  · obtain ⟨entries, hentries, hproviders⟩ := h.providers
    exact ⟨entries, hentries, (hkey _).trans hproviders⟩
  · obtain ⟨model, hmodel, hvalues⟩ := h.set hkeeps
    have hlookup := hkey "model"
    rw [hmodel] at hlookup
    obtain ⟨v, hv, hmodels⟩ := hlookup.exists_same
    obtain ⟨model', rfl⟩ := hmodels.eq_obj
    exact ⟨model', hv, fun key => (same_obj_iff.mp hmodels key).trans (hvalues key)⟩

/-! ## Once more -/

theorem keepsModel_congr {provider : String} {y : Option (Tree ω)} (h : Alike x y)
    (hx : KeepsModel provider y) : KeepsModel provider x := by
  cases y with
  | none => exact hx.elim
  | some w =>
    obtain ⟨v, rfl, hsame⟩ := h.exists_same
    cases w with
    | obj model =>
      obtain ⟨model', rfl⟩ := hsame.eq_obj
      obtain ⟨chosen, hchosen, hne⟩ := hx
      have hprovider := same_obj_iff.mp hsame "provider"
      rw [hchosen] at hprovider
      obtain ⟨u, hu, hstr⟩ := hprovider.exists_same
      exact ⟨chosen, hu.trans (congrArg some hstr.eq_str), hne⟩
    | str s => exact hsame.eq_str ▸ hx
    | null => exact hx.elim
    | _ =>
      have hshape := hsame.shape
      cases v <;> trivial

theorem HasName.of_same {name : String} {entry entry' : Entries (Scalar ω)}
    (h : Same (.obj entry) (.obj entry')) (hname : HasName name entry') : HasName name entry := by
  have hlookup := same_obj_iff.mp h "name"
  rw [show lookup "name" entry' = some (.str name) from hname] at hlookup
  obtain ⟨v, hv, hsame⟩ := hlookup.exists_same
  exact hv.trans (congrArg some hsame.eq_str)

/-- A list that is the same as a list of mappings is one. -/
theorem entries_of_forall₂ {items : List (Tree ω)} {entries : List (Entries (Scalar ω))}
    (h : List.Forall₂ Same items (entries.map .obj)) :
    ∃ entries', items = entries'.map .obj ∧
      List.Forall₂ (fun e e' => Same (.obj e) (.obj e')) entries' entries := by
  induction entries generalizing items with
  | nil =>
    cases h
    exact ⟨[], rfl, .nil⟩
  | cons entry entries ih =>
    cases h with
    | cons hhead htail =>
      obtain ⟨entry', rfl⟩ := hhead.eq_obj
      obtain ⟨entries', rfl, hrest⟩ := ih htail
      exact ⟨entry' :: entries', rfl, .cons hhead hrest⟩

/-- Without the providers of the proxy only the others are left, which are those there were. -/
theorem filter_synced (remote : HermesConfigPayload) (entries : List (Entries (Scalar ω))) :
    (entries.filter (fun entry => ¬ HasName remote.providerName entry) ++
        ownProviders remote).filter (fun entry => ¬ HasName remote.providerName entry) =
      entries.filter fun entry => ¬ HasName remote.providerName entry := by
  have hown : (ownProviders remote).filter
      (fun entry : Entries (Scalar ω) => ¬ HasName remote.providerName entry) = [] := by
    rw [List.filter_eq_nil_iff]
    intro entry hentry
    obtain ⟨provider, hprovider, rfl⟩ := List.mem_map.mp hentry
    have hname : provider.name = remote.providerName := by
      simpa using (List.mem_filter.mp hprovider).2
    have hentry : HasName remote.providerName (providerEntry provider : Entries (Scalar ω)) :=
      hname ▸ (represents_providerEntry provider).name
    simpa using hentry
  rw [List.filter_append, hown, List.append_nil, List.filter_filter]
  simp only [Bool.and_self]

/-- A name of the model that is not set keeps its value. -/
theorem modelValue_cases (remote : HermesModelConfig) (model base : Entries (Scalar ω))
    (key : String) :
    modelValue remote model key = modelValue remote base key ∨
      modelValue remote model key = lookup key model := by
  unfold modelValue
  split
  · exact .inl rfl
  · split
    · exact .inl rfl
    · split
      · exact .inl rfl
      · exact .inr rfl

theorem syncedModel_same {remote : HermesModelConfig} {model base : Entries (Scalar ω)}
    (h : ∀ key, Alike (lookup key model) (modelValue remote base key)) :
    Same (.obj (syncedModel remote model)) (.obj model) := by
  refine same_obj_iff.mpr fun key => ?_
  rw [lookup_syncedModel]
  rcases modelValue_cases remote model base key with heq | heq
  · rw [heq]
    exact (h key).symm
  · rw [heq]
    exact .refl _

theorem syncModel_synced (h : Synced own remote config config') :
    Same (.obj (syncModel remote.model config'.fields)) config'.value := by
  by_cases hkeeps : KeepsModel remote.model.provider (lookup "model" config.fields)
  · rw [syncModel_of_keeps (keepsModel_congr (h.kept hkeeps) hkeeps)]
    exact .refl _
  · obtain ⟨model, hmodel, hvalues⟩ := h.set hkeeps
    have hprovider : lookup "provider" model = some (.str remote.model.provider) := by
      obtain ⟨v, hv, hsame⟩ := (hvalues "provider").exists_same
      rw [hv, hsame.eq_str]
    have hagain : ¬ KeepsModel remote.model.provider (lookup "model" config'.fields) := by
      rw [hmodel]
      rintro ⟨chosen, hchosen, -, hne⟩
      rw [hprovider] at hchosen
      cases hchosen
      exact hne rfl
    rw [syncModel_of_not_keeps hagain, hmodel]
    refine same_obj_iff.mpr fun key => ?_
    rw [lookup_assign]
    split
    · rename_i hkey
      rw [hkey, hmodel]
      exact alike_some.mpr (syncedModel_same hvalues)
    · exact .refl _

/-- A configuration that was synchronised is the same when it is synchronised again. -/
theorem resync (h : Synced (ownProviders remote) remote config config') :
    ∃ again, syncHermesConfig remote config' = .ok again ∧ Same again.value config'.value := by
  obtain ⟨entries, -, hproviders⟩ := h.providers
  obtain ⟨v, hv, hitems⟩ := hproviders.exists_same
  obtain ⟨items, rfl⟩ := hitems.eq_arr
  obtain ⟨entries', rfl, hentries⟩ := entries_of_forall₂ (same_arr_iff.mp hitems)
  have hupdated : updatedProviders remote (syncModel remote.model config'.fields) =
      .ok ((entries'.filter (fun entry => ¬ HasName remote.providerName entry) ++
        ownProviders remote).map .obj) :=
    updatedProviders_eq_ok.mpr ⟨entries', .inr ((lookup_syncModel _ _ (by decide)).trans hv), rfl⟩
  have hmodel := distinct_syncModel remote.model config'.distinct
  refine ⟨⟨_, hmodel.assign _ (distinct_updatedProviders hmodel hupdated)⟩,
    syncHermesConfig_eq_ok.mpr ⟨_, hupdated, rfl⟩, same_obj_iff.mpr fun key => ?_⟩
  rw [lookup_assign]
  split
  · -- The others are those of the list that was written, and the proxy's own are put back.
    rename_i hkey
    rw [hkey, hv, alike_some]
    refine (same_arr_iff.mpr ?_).trans hitems.symm
    rw [List.map_append, List.map_append]
    refine List.rel_append ?_ (List.forall₂_same.mpr fun v _ => .refl v)
    rw [List.forall₂_map_left_iff, List.forall₂_map_right_iff, ← filter_synced remote entries]
    refine List.rel_filter ?_ hentries
    intro e e' hsame
    simp only [decide_eq_true_iff]
    exact not_congr ⟨.of_same hsame.symm, .of_same hsame⟩
  · exact same_obj_iff.mp (syncModel_synced h) key

end Synced

/-! ## Runs -/

section Runs

variable {yaml : Yaml B ω} {F : Chances B} {path : Path} {remote : HermesConfigPayload}
  {t t' : FileTree B} {config config' : HermesConfig ω}

variable (yaml) in
/-- The configuration in the file that a path leads to; where there is no file it is empty. -/
def Reads (t : FileTree B) (path : Path) (config : HermesConfig ω) : Prop :=
  (∃ q b, t.resolve path = .ok (q, .file b) ∧ yaml.decode b = .ok (some config)) ∨
    t.resolve path = .error .enoent ∧ config = Object.empty

theorem ends_readHermesConfig {x : Except Err (Option (HermesConfig ω))}
    (h : (readHermesConfig yaml path).prog.Ends (fun t => t.Exec F) t x t') :
    t' = t ∧ match x with
      | .ok (some config) => Reads yaml t path config
      | .ok none => ∀ config, ¬ Reads yaml t path config
      | .error _ => True := by
  obtain ⟨r, t₁, hread, hrest⟩ := Flow.ends_lift_bind.mp h
  obtain ⟨rfl, hread⟩ := ends_readFile hread
  cases r with
  | ok b =>
    obtain ⟨q, hq⟩ := hread
    dsimp only at hrest
    cases hdecode : yaml.decode b with
    | error e =>
      rw [hdecode] at hrest
      obtain ⟨rfl, rfl⟩ := hrest
      exact ⟨rfl, trivial⟩
    | ok config =>
      rw [hdecode] at hrest
      obtain ⟨rfl, rfl⟩ := hrest
      refine ⟨rfl, ?_⟩
      cases config with
      | some config => exact .inl ⟨q, b, hq, hdecode⟩
      | none =>
        rintro config (⟨q', b', hq', hdecode'⟩ | ⟨hnone, -⟩)
        · cases hq.symm.trans hq'
          cases hdecode.symm.trans hdecode'
        · cases hq.symm.trans hnone
  | error e =>
    dsimp only at hrest
    split at hrest
    · rename_i henoent
      obtain ⟨rfl, rfl⟩ := hrest
      exact ⟨rfl, .inr ⟨hread henoent, rfl⟩⟩
    · obtain ⟨rfl, rfl⟩ := hrest
      exact ⟨rfl, trivial⟩

theorem Reads.unique (h : Reads yaml t path config) (h' : Reads yaml t path config') :
    config = config' := by
  rcases h with ⟨q, b, hq, hdecode⟩ | ⟨hnone, rfl⟩ <;>
    rcases h' with ⟨q', b', hq', hdecode'⟩ | ⟨hnone', rfl⟩
  · cases hq.symm.trans hq'
    cases hdecode.symm.trans hdecode'
    rfl
  · cases hq.symm.trans hnone'
  · cases hq'.symm.trans hnone
  · rfl

theorem ends_storeHermesConfig
    (h : (storeHermesConfig yaml path config).prog.Ends (fun t => t.Exec F) t (.ok ()) t') :
    ∃ config', Reads yaml t' path config' ∧ Same config'.value config.value := by
  unfold storeHermesConfig at h
  cases hencode : yaml.encode config with
  | error e =>
    rw [hencode] at h
    cases h.1
  | ok body =>
    rw [hencode] at h
    obtain ⟨-, t₁, -, hwrite⟩ := Flow.ends_bind_ok.mp h
    obtain ⟨q, hq⟩ := ends_writeFile (ends_os hwrite)
    obtain ⟨config', hdecode, hsame⟩ := yaml.roundTrip hencode
    exact ⟨config', .inl ⟨q, body, hq, hdecode⟩, hsame⟩

/-- What follows the reading gets the configuration that is there. -/
theorem ends_of_reads {α : Type} {k : Option (HermesConfig ω) → Flow (Fs B) Err α}
    {x : Except Err α} (hreads : Reads yaml t path config)
    (h : (readHermesConfig yaml path >>= k).prog.Ends (fun t => t.Exec F) t x t') :
    t' = t ∨ (k (some config)).prog.Ends (fun t => t.Exec F) t x t' := by
  rcases Flow.ends_bind.mp h with ⟨e, rfl, hread⟩ | ⟨x', t₁, hread, h⟩
  · exact .inl (ends_readHermesConfig hread).1
  · obtain ⟨rfl, hread⟩ := ends_readHermesConfig hread
    cases x' with
    | none => exact absurd hreads (hread config)
    | some config' => exact .inr (hreads.unique hread ▸ h)

/-- A run that goes well reads a configuration, and what can be read after it is that
configuration synchronised. -/
theorem ends_writeHermesConfig
    (h : (writeHermesConfig yaml path remote).prog.Ends (fun t => t.Exec F) t (.ok ()) t') :
    ∃ config new config', Reads yaml t path config ∧ syncHermesConfig remote config = .ok new ∧
      Reads yaml t' path config' ∧ Same config'.value new.value := by
  obtain ⟨x, t₁, hread, h⟩ := Flow.ends_bind_ok.mp h
  obtain ⟨rfl, hread⟩ := ends_readHermesConfig hread
  cases x with
  | none => cases h.1
  | some config =>
    dsimp only at h
    cases hsync : syncHermesConfig remote config with
    | error e =>
      rw [hsync] at h
      cases h.1
    | ok new =>
      rw [hsync] at h
      obtain ⟨config', hreads', hsame⟩ := ends_storeHermesConfig h
      exact ⟨config, new, config', hread, hsync, hreads', hsame⟩

/-- A configuration that cannot be synchronised is left alone. -/
theorem ends_of_misshapen {x : Except Err Unit} (hreads : Reads yaml t path config)
    (hshape : ∀ entries, ¬ ProvidersAre config.fields entries)
    (h : (writeHermesConfig yaml path remote).prog.Ends (fun t => t.Exec F) t x t') : t' = t := by
  rcases ends_of_reads hreads h with heq | h
  · exact heq
  · dsimp only at h
    cases hsync : syncHermesConfig remote config with
    | error e =>
      rw [hsync] at h
      exact h.2
    | ok config' =>
      obtain ⟨entries, hentries⟩ := exists_providersAre hsync
      exact absurd hentries (hshape entries)

variable (yaml F path remote t) in
/-- The synchronisation touches what the proxy owns: a run that goes well changes the configuration
as `Synced` says, with one entry for each provider of the payload that has the name of the proxy's
own, and one after it with the same payload changes nothing. Where the providers of the
configuration are no list of mappings, no file is changed. -/
theorem writeHermesConfig_owns :
    (∀ t', (writeHermesConfig yaml path remote).prog.Ends (fun t => t.Exec F) t (.ok ()) t' →
      ∃ config config' own, Reads yaml t path config ∧ Reads yaml t' path config' ∧
        List.Forall₂ Represents
          (remote.customProviders.filter fun provider => provider.name = remote.providerName) own ∧
        Synced own remote config config' ∧
        (∃ entries, ProvidersAre config'.fields entries) ∧
        ∀ t'', (writeHermesConfig yaml path remote).prog.Ends (fun t => t.Exec F) t' (.ok ()) t'' →
          ∃ config'', Reads yaml t'' path config'' ∧ Same config''.value config'.value) ∧
    ∀ config, Reads yaml t path config → (∀ entries, ¬ ProvidersAre config.fields entries) →
      ∀ x t', (writeHermesConfig yaml path remote).prog.Ends (fun t => t.Exec F) t x t' →
        t' = t := by
  refine ⟨fun t' h => ?_, fun config hreads hshape x t' h => ends_of_misshapen hreads hshape h⟩
  obtain ⟨config, new, config', hreads, hsync, hreads', hsame⟩ := ends_writeHermesConfig h
  have hsynced := (synced_of_sync hsync).of_same hsame
  obtain ⟨again, hagain, hsame_again⟩ := resync hsynced
  have hown : List.Forall₂ Represents
      (remote.customProviders.filter fun provider => provider.name = remote.providerName)
      (ownProviders remote : List (Entries (Scalar ω))) :=
    List.forall₂_map_right_iff.mpr (List.forall₂_same.mpr fun p _ => represents_providerEntry p)
  refine ⟨config, config', _, hreads, hreads', hown, hsynced, exists_providersAre hagain,
    fun t'' h' => ?_⟩
  obtain ⟨config₂, new', config'', hreads₂, hsync', hreads'', hsame'⟩ := ends_writeHermesConfig h'
  obtain rfl := hreads'.unique hreads₂
  cases hagain.symm.trans hsync'
  exact ⟨config'', hreads'', hsame'.trans hsame_again⟩

end Runs

/-- Files that hold trees. -/
def treeFiles : Yaml (HermesConfig Empty) Empty where
  empty := Object.empty
  decode b := .ok (some b)
  encode := .ok
  roundTrip h := ⟨_, rfl, Except.ok.inj h ▸ .refl _⟩

/-- A user with a theme, a provider and no model. -/
def themed : HermesConfig Empty where
  fields := [("theme", .str "dark"),
    ("custom_providers", .arr [.obj [("name", .str "local")]])]
  distinct := by
    refine distinct_obj (by decide) fun e he => ?_
    simp only [List.mem_cons, List.not_mem_nil, or_false] at he
    rcases he with rfl | rfl
    · exact distinct_str _
    · refine distinct_arr fun v hv => ?_
      obtain rfl := List.mem_singleton.mp hv
      refine distinct_obj (by decide) fun e he => ?_
      obtain rfl := List.mem_singleton.mp he
      exact distinct_str _

def proxyPayload : HermesConfigPayload where
  model := ⟨"qwen3", "custom:llm-proxy", ""⟩
  customProviders := [⟨"llm-proxy", "http://llm-proxy/v1", "chat_completions",
    Finmap.singleton "qwen3" 32768⟩]

theorem nested_themed : FileTree.Nested [(["config.yaml"], Node.file themed)] := by decide

theorem writeHermesConfig_owns_themed :
    ∃ t', (writeHermesConfig treeFiles ["config.yaml"] proxyPayload).prog.Ends
        (fun t => t.Exec (.sound _)) (FileTree.ofEntries _ nested_themed) (.ok ()) t' ∧
      ∃ config config' entry,
        Reads treeFiles (FileTree.ofEntries _ nested_themed) ["config.yaml"] config ∧
        Reads treeFiles t' ["config.yaml"] config' ∧ HasName "llm-proxy" entry ∧
        Synced [entry] proxyPayload config config' := by
  have hrun := ends_apply (writeHermesConfig treeFiles ["config.yaml"] proxyPayload).prog
    (FileTree.ofEntries _ nested_themed)
  rw [show (Prog.eval _ _ _).1 = Except.ok () by decide +kernel] at hrun
  obtain ⟨config, config', own, hreads, hreads', hown, hsynced, -⟩ :=
    (writeHermesConfig_owns treeFiles (.sound _) _ _ _).1 _ hrun
  have hfilter : (proxyPayload.customProviders.filter
      fun provider => provider.name = proxyPayload.providerName) =
        proxyPayload.customProviders := by
    decide +kernel
  rw [hfilter] at hown
  obtain ⟨entry, _, hentry, hnil, rfl⟩ := List.forall₂_cons_left_iff.mp hown
  obtain rfl := List.forall₂_nil_left_iff.mp hnil
  exact ⟨_, hrun, config, config', entry, hreads, hreads', hentry.name, hsynced⟩

end LlmOperator.Proxy.HermesSync
