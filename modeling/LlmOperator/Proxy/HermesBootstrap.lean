import LlmOperator.Proxy.HermesSync

/-!
# Bootstrapping the Hermes configuration

`bootstrapHermesConfig` of `cmd/llm-proxy/main.go` adds to the configuration of a user what Hermes
needs to find the proxy: a provider of its name, unless there is one, and the model, unless there is
one. Everything that the user has chosen stays; a null counts as nothing chosen, and so does a blank
text where a text is asked for.
-/

namespace LlmOperator.Proxy.HermesSync

open Api Cache Data Data.GoString Interaction
open Data.Value hiding Path
open FileSystem hiding Same

variable {B ω : Type} {remote : HermesConfigPayload} {providers : List (Tree ω)}
  {x y : Option (Tree ω)} {fields model : Entries (Scalar ω)} {config config' : HermesConfig ω}

/-! ## The code -/

def isMapping : Tree ω → Bool
  | .obj _ => true
  | _ => false

/-- `hermesProviderEntries`. -/
def hermesProviderEntries : Option (Tree ω) → Except Err (List (Tree ω))
  | none | some .null => .ok []
  | some (.arr providers) =>
    if providers.all isMapping then .ok providers
    else .error (.other "custom_providers entries must be YAML mappings")
  | some _ => .error (.other "custom_providers must be a YAML list")

/-- `hasHermesProvider`. -/
def hasHermesProvider (providers : List (Tree ω)) (name : String) : Bool :=
  providers.any fun provider => named name (mappingOf (some provider))

/-- The provider that is added. -/
def discoveringEntry (source : HermesCustomProvider) : Entries (Scalar ω) :=
  [("name", .str source.name), ("base_url", .str source.baseURL),
    ("api_mode", .str source.apiMode), ("discover_models", .bool true)]

def addedProvider (remote : HermesConfigPayload) (providers : List (Tree ω)) :
    Except Err (Option (Entries (Scalar ω))) :=
  if hasHermesProvider providers remote.providerName then .ok none
  else
    match remote.customProviders.find? fun provider => provider.name == remote.providerName with
    | none => .error (.other ("custom provider " ++ quote remote.providerName ++ " is missing"))
    | some source => .ok (some (discoveringEntry source))

def chosenModel (remote : HermesModelConfig) : Entries (Scalar ω) :=
  [("provider", .str remote.provider), ("default", .str remote.default)]

/-- `bootstrapHermesModel`, with nothing for a model that is not changed. -/
def bootstrapHermesModel (remote : HermesModelConfig) :
    Option (Tree ω) → Except Err (Option (Entries (Scalar ω)))
  | none | some .null => .ok (some (chosenModel remote))
  | some (.str legacy) =>
    if trimSpace legacy = "" then .ok (some (chosenModel remote)) else .ok none
  | some (.obj model) =>
    let provider := trimSpace (textOf (lookup "provider" model))
    let default := trimSpace (textOf (lookup "default" model))
    if provider ≠ "" ∧ provider ≠ remote.provider then .ok none
    else if provider = remote.provider ∧ default = "" then
      .ok (some (assign "default" (.str remote.default) model))
    else if provider = "" ∧ default = "" then
      .ok (some (assign "default" (.str remote.default)
        (assign "provider" (.str remote.provider) model)))
    else .ok none
  | some _ => .error (.other "model must be a YAML mapping")

def assignSome (key : String) (x : Option (Tree ω)) (fields : Entries (Scalar ω)) :
    Entries (Scalar ω) :=
  x.elim fields fun v => assign key v fields

/-- The tree that is to be written, or nothing if there is nothing to change. -/
def bootstrapTree (remote : HermesConfigPayload) (fields : Entries (Scalar ω)) :
    Except Err (Option (Entries (Scalar ω))) := do
  let providers ← hermesProviderEntries (lookup "custom_providers" fields)
  let added ← addedProvider remote providers
  let model ← bootstrapHermesModel remote.model (lookup "model" fields)
  return if added.isNone && model.isNone then none
    else some (assignSome "model" (model.map .obj) (assignSome "custom_providers"
      (added.map fun entry => .arr (providers ++ [.obj entry])) fields))

/-! ## The providers -/

/-- These are the providers: there is a list of mappings, or nothing or a null in its place. -/
def ProvidersIn (entries : List (Entries (Scalar ω))) (x : Option (Tree ω)) : Prop :=
  (x = none ∨ x = some .null) ∧ entries = [] ∨ x = some (.arr (entries.map .obj))

theorem hermesProviderEntries_eq_ok (h : hermesProviderEntries x = .ok providers) :
    ∃ entries : List (Entries (Scalar ω)), providers = entries.map .obj ∧
      ProvidersIn entries x := by
  unfold hermesProviderEntries at h
  split at h
  · cases h
    exact ⟨[], rfl, .inl ⟨.inl rfl, rfl⟩⟩
  · cases h
    exact ⟨[], rfl, .inl ⟨.inr rfl, rfl⟩⟩
  · split at h
    · rename_i hall
      cases h
      have hmap : (providers.map fun p => mappingOf (some p)).map Value.obj = providers := by
        rw [List.map_map]
        refine (List.map_congr_left fun p hp => ?_).trans (List.map_id providers)
        have hmapping := List.all_eq_true.mp hall p hp
        cases p with
        | obj fields => rfl
        | _ => cases hmapping
      exact ⟨_, hmap.symm, .inr (by rw [hmap])⟩
    · cases h
  · cases h

theorem hermesProviderEntries_of_in {entries : List (Entries (Scalar ω))}
    (h : ProvidersIn entries x) : hermesProviderEntries x = .ok (entries.map .obj) := by
  rcases h with ⟨rfl | rfl, rfl⟩ | rfl
  · rfl
  · rfl
  · rw [hermesProviderEntries, if_pos]
    simp [isMapping]

theorem hasHermesProvider_map {entries : List (Entries (Scalar ω))} {name : String} :
    hasHermesProvider (entries.map .obj) name = true ↔ ∃ entry ∈ entries, HasName name entry := by
  simp [hasHermesProvider, mappingOf, named_iff]

theorem addedProvider_eq_ok {entries : List (Entries (Scalar ω))}
    {added : Option (Entries (Scalar ω))}
    (h : addedProvider remote (entries.map .obj) = .ok added) :
    ((∃ entry ∈ entries, HasName remote.providerName entry) ∧ added = none) ∨
      ((∀ entry ∈ entries, ¬ HasName remote.providerName entry) ∧
        ∃ source ∈ remote.customProviders, source.name = remote.providerName ∧
          added = some (discoveringEntry source)) := by
  unfold addedProvider at h
  split at h
  · rename_i hhas
    cases h
    exact .inl ⟨hasHermesProvider_map.mp hhas, rfl⟩
  · rename_i hmissing
    split at h
    · cases h
    · rename_i source hfind
      cases h
      refine .inr ⟨fun entry hentry hname => hmissing ?_, source, List.mem_of_find?_eq_some hfind,
        by simpa using List.find?_some hfind, rfl⟩
      exact hasHermesProvider_map.mpr ⟨entry, hentry, hname⟩

theorem distinct_discoveringEntry (source : HermesCustomProvider) :
    (Value.obj (discoveringEntry source : Entries (Scalar ω))).Distinct := by
  refine distinct_obj (by simp [keys, discoveringEntry]) fun e he => ?_
  simp only [discoveringEntry, List.mem_cons, List.not_mem_nil, or_false] at he
  rcases he with rfl | rfl | rfl | rfl
  · exact distinct_str _
  · exact distinct_str _
  · exact distinct_str _
  · exact distinct_bool _

/-! ## The model -/

theorem textOf_congr (h : Alike x y) : textOf x = textOf y := by
  cases y with
  | none => rw [alike_none.mp h]
  | some w =>
    obtain ⟨v, rfl, hsame⟩ := h.exists_same
    have hshape := hsame.shape
    cases w with
    | str s => rw [hsame.eq_str]
    | _ => cases v <;> first | rfl | cases hshape

/-- The model has a text under the key that is not blank: it counts as chosen. -/
def Chosen (model : Entries (Scalar ω)) (key : String) : Prop :=
  ∃ text, lookup key model = some (.str text) ∧ trimSpace text ≠ ""

theorem chosen_iff {key : String} :
    Chosen model key ↔ trimSpace (textOf (lookup key model)) ≠ "" := by
  unfold Chosen textOf
  split
  · rename_i text htext
    simp [htext]
  · rename_i hother
    refine iff_of_false ?_ (not_not.mpr rfl)
    rintro ⟨text, htext, -⟩
    exact hother text htext

theorem not_chosen {key : String} (h : trimSpace (textOf (lookup key model)) = "") :
    ¬ Chosen model key :=
  fun hchosen => chosen_iff.mp hchosen h

/-- A model is left alone if it is a text, or a mapping with another provider or with a default. -/
theorem bootstrapHermesModel_eq_none {remote : HermesModelConfig} :
    bootstrapHermesModel remote x = .ok none ↔
      (∃ chosen, x = some (.str chosen) ∧ trimSpace chosen ≠ "") ∨
        ∃ model, x = some (.obj model) ∧ (Chosen model "default" ∨ Chosen model "provider" ∧
          trimSpace (textOf (lookup "provider" model)) ≠ remote.provider) := by
  simp only [chosen_iff]
  unfold bootstrapHermesModel
  split
  · simp
  · simp
  · simp
  · grind
  · simp_all

theorem bootstrapHermesModel_congr {remote : HermesModelConfig} (hxy : Alike x y)
    (h : bootstrapHermesModel remote y = .ok none) : bootstrapHermesModel remote x = .ok none := by
  rw [bootstrapHermesModel_eq_none] at h ⊢
  rcases h with ⟨chosen, rfl, hne⟩ | ⟨model, rfl, hmodel⟩
  · obtain ⟨v, rfl, hsame⟩ := hxy.exists_same
    exact .inl ⟨chosen, by rw [hsame.eq_str], hne⟩
  · obtain ⟨v, rfl, hsame⟩ := hxy.exists_same
    obtain ⟨model', rfl⟩ := hsame.eq_obj
    refine .inr ⟨model', rfl, ?_⟩
    have hkey := same_obj_iff.mp hsame
    rw [chosen_iff, chosen_iff] at hmodel ⊢
    rwa [textOf_congr (hkey "provider"), textOf_congr (hkey "default")]

theorem distinct_chosenModel (remote : HermesModelConfig) :
    (Value.obj (chosenModel remote : Entries (Scalar ω))).Distinct := by
  refine distinct_obj (by simp [keys, chosenModel]) fun e he => ?_
  simp only [chosenModel, List.mem_cons, List.not_mem_nil, or_false] at he
  rcases he with rfl | rfl
  · exact distinct_str _
  · exact distinct_str _

/-- What a model that is changed becomes: a mapping in which only a provider and a default were set
that had not been chosen. -/
theorem bootstrapHermesModel_eq_some {remote : HermesModelConfig} {model' : Entries (Scalar ω)}
    (h : bootstrapHermesModel remote x = .ok (some model')) :
    lookup "default" model' = some (.str remote.default) ∧
      ((x = none ∨ x = some .null ∨ ∃ legacy, x = some (.str legacy) ∧ trimSpace legacy = "") ∨
        ∃ model, x = some (.obj model) ∧ ¬ Chosen model "default" ∧
          ∀ key, (key ≠ "provider" ∧ key ≠ "default") ∨ Chosen model key →
            lookup key model' = lookup key model) ∧
      ((∀ v, x = some v → v.Distinct) → (Value.obj model').Distinct) := by
  unfold bootstrapHermesModel at h
  split at h
  · cases h
    exact ⟨rfl, .inl (.inl rfl), fun _ => distinct_chosenModel remote⟩
  · cases h
    exact ⟨rfl, .inl (.inr (.inl rfl)), fun _ => distinct_chosenModel remote⟩
  · rename_i legacy
    split at h
    · rename_i hblank
      cases h
      exact ⟨rfl, .inl (.inr (.inr ⟨legacy, rfl, hblank⟩)), fun _ => distinct_chosenModel remote⟩
    · cases h
  · rename_i model
    dsimp only at h
    split at h
    · cases h
    · split at h
      · rename_i hset
        cases h
        refine ⟨by simp, .inr ⟨model, rfl, not_chosen hset.2, fun key hkey => ?_⟩,
          fun hx => (hx _ rfl).assign _ (distinct_str _)⟩
        have hne : key ≠ "default" := hkey.elim And.right fun hc he => not_chosen hset.2 (he ▸ hc)
        rw [lookup_assign, if_neg hne]
      · split at h
        · rename_i hset
          cases h
          refine ⟨by simp, .inr ⟨model, rfl, not_chosen hset.2, fun key hkey => ?_⟩,
            fun hx => ((hx _ rfl).assign _ (distinct_str _)).assign _ (distinct_str _)⟩
          have hne : key ≠ "provider" ∧ key ≠ "default" :=
            hkey.elim id fun hc =>
              ⟨fun he => not_chosen hset.1 (he ▸ hc), fun he => not_chosen hset.2 (he ▸ hc)⟩
          rw [lookup_assign, if_neg hne.2, lookup_assign, if_neg hne.1]
        · cases h
  · cases h

/-! ## The tree -/

theorem lookup_assignSome (key key' : String) :
    lookup key' (assignSome key x fields) =
      if key' = key then x.or (lookup key' fields) else lookup key' fields := by
  cases x <;> simp [assignSome]

theorem bootstrapTree_eq_ok {result : Option (Entries (Scalar ω))}
    (h : bootstrapTree remote fields = .ok result) :
    ∃ providers added model,
      hermesProviderEntries (lookup "custom_providers" fields) = .ok providers ∧
      addedProvider remote providers = .ok added ∧
      bootstrapHermesModel remote.model (lookup "model" fields) = .ok model ∧
      (result = none ↔ added = none ∧ model = none) ∧
      result.getD fields = assignSome "model" (model.map .obj) (assignSome "custom_providers"
        (added.map fun entry => .arr (providers ++ [.obj entry])) fields) := by
  obtain ⟨providers, hproviders, h⟩ := ok_of_bind h
  obtain ⟨added, hadded, h⟩ := ok_of_bind h
  obtain ⟨model, hmodel, h⟩ := ok_of_bind h
  obtain rfl := Except.ok.inj h
  refine ⟨providers, added, model, hproviders, hadded, hmodel, ?_, ?_⟩ <;>
    cases added <;> cases model <;> simp [assignSome]

theorem distinct_bootstrapTree {new : Entries (Scalar ω)} (hfields : (Value.obj fields).Distinct)
    (h : bootstrapTree remote fields = .ok (some new)) : (Value.obj new).Distinct := by
  obtain ⟨providers, added, model, hproviders, hadded, hmodel, -, hnew⟩ := bootstrapTree_eq_ok h
  rw [show new = _ from hnew]
  have hset : (Value.obj (assignSome "custom_providers"
      (added.map fun entry => .arr (providers ++ [.obj entry])) fields)).Distinct := by
    obtain ⟨entries, rfl, hin⟩ := hermesProviderEntries_eq_ok hproviders
    rcases addedProvider_eq_ok hadded with ⟨_, rfl⟩ | ⟨_, source, _, _, rfl⟩
    · exact hfields
    · refine hfields.assign _ (distinct_arr fun v hv => ?_)
      rcases List.mem_append.mp hv with hv | hv
      · rcases hin with ⟨_, rfl⟩ | hlookup
        · cases hv
        · exact (hfields.entry hlookup).item hv
      · rw [List.mem_singleton.mp hv]
        exact distinct_discoveringEntry source
  cases model with
  | none => exact hset
  | some model =>
    exact hset.assign _ ((bootstrapHermesModel_eq_some hmodel).2.2 fun v hv => hfields.entry hv)

/-- The configuration that is to be written. -/
def bootstrapped (remote : HermesConfigPayload) (config : HermesConfig ω) :
    Except Err (Option (HermesConfig ω)) :=
  match h : bootstrapTree remote config.fields with
  | .error e => .error e
  | .ok none => .ok none
  | .ok (some fields) => .ok (some ⟨fields, distinct_bootstrapTree config.distinct h⟩)

theorem bootstrapped_eq_none :
    bootstrapped remote config = .ok none ↔ bootstrapTree remote config.fields = .ok none := by
  unfold bootstrapped
  split <;> simp_all

theorem bootstrapped_eq_some {new : HermesConfig ω}
    (h : bootstrapped remote config = .ok (some new)) :
    bootstrapTree remote config.fields = .ok (some new.fields) := by
  unfold bootstrapped at h
  split at h
  · cases h
  · cases h
  · rename_i fields hfields
    cases h
    exact hfields

/-- `bootstrapHermesConfig`. -/
def bootstrapHermesConfig (yaml : Yaml B ω) (path : Path) (remote : HermesConfigPayload) :
    Flow (Fs B) Err Bool := do
  match validateHermesConfig remote with
  | .error e => throw e
  | .ok _ =>
    match ← readHermesConfig yaml path with
    -- The provider is always added to a nil map.
    | none => throw (.other "assignment to entry in nil map")
    | some config =>
      match bootstrapped remote config with
      | .error e => throw e
      | .ok none => return false
      | .ok (some config) =>
        storeHermesConfig yaml path config
        return true

/-! ## What a bootstrap changes -/

/-- An entry that tells Hermes where a provider of the payload is, and to ask it for its models. -/
structure Announces (source : HermesCustomProvider) (entry : Entries (Scalar ω)) : Prop where
  name : lookup "name" entry = some (.str source.name)
  baseURL : lookup "base_url" entry = some (.str source.baseURL)
  apiMode : lookup "api_mode" entry = some (.str source.apiMode)
  discover : lookup "discover_models" entry = some (.bool true)
  nothingElse : ∀ key, key ∉ ["name", "base_url", "api_mode", "discover_models"] →
    lookup key entry = none

theorem announces_discoveringEntry (source : HermesCustomProvider) :
    Announces source (discoveringEntry source : Entries (Scalar ω)) := by
  refine ⟨rfl, rfl, rfl, rfl, fun key hkey => ?_⟩
  rw [lookup_eq_none_iff]
  simpa [keys, discoveringEntry] using hkey

/-- What a configuration has become. A list of providers with one of the name is left alone, and
any other gets one as its last; a model that is a text stays if it is not blank, and one that is a
mapping stays but for a provider and a default that were not chosen. -/
structure Bootstrapped (remote : HermesConfigPayload) (config config' : HermesConfig ω) : Prop where
  others : ∀ key, key ≠ "model" → key ≠ "custom_providers" →
    Alike (lookup key config'.fields) (lookup key config.fields)
  providers : ∃ entries added : List (Entries (Scalar ω)),
    ProvidersIn entries (lookup "custom_providers" config.fields) ∧
    Alike (lookup "custom_providers" config'.fields) (some (.arr ((entries ++ added).map .obj))) ∧
    ((∃ entry ∈ entries, HasName remote.providerName entry) ∧ added = [] ∨
      (∀ entry ∈ entries, ¬ HasName remote.providerName entry) ∧
        ∃ source ∈ remote.customProviders, source.name = remote.providerName ∧
          ∃ own, added = [own] ∧ Announces source own)
  text : ∀ chosen, lookup "model" config.fields = some (.str chosen) → trimSpace chosen ≠ "" →
    Alike (lookup "model" config'.fields) (some (.str chosen))
  model : ∀ model, lookup "model" config.fields = some (.obj model) →
    ∃ model', lookup "model" config'.fields = some (.obj model') ∧
      ∀ key, (key ≠ "provider" ∧ key ≠ "default") ∨ Chosen model key →
        Alike (lookup key model') (lookup key model)

/-- The shapes that are not refused. -/
structure WellShaped (config : HermesConfig ω) : Prop where
  providers : ∃ entries, ProvidersIn entries (lookup "custom_providers" config.fields)
  model : ∀ v, lookup "model" config.fields = some v →
    v = .null ∨ (∃ text, v = .str text) ∨ ∃ fields, v = .obj fields

/-- A tree that comes out of a bootstrap. -/
theorem bootstrapped_of_tree {result : Option (Entries (Scalar ω))}
    (h : bootstrapTree remote config.fields = .ok result)
    (hsame : Same config'.value (.obj (result.getD config.fields))) :
    Bootstrapped remote config config' := by
  obtain ⟨providers, added, new, hproviders, hadded, hnew, -, htree⟩ := bootstrapTree_eq_ok h
  rw [htree] at hsame
  have hkey := same_obj_iff.mp hsame
  simp only [lookup_assignSome] at hkey
  have hmodel : Alike _ ((new.map Value.obj).or (lookup "model" config.fields)) := hkey "model"
  obtain ⟨entries, rfl, hentries⟩ := hermesProviderEntries_eq_ok hproviders
  refine ⟨fun key hm hp => by simpa [hm, hp] using hkey key, ?_, fun chosen hchosen hne => ?_,
    fun model hm => ?_⟩
  · have hcp := hkey "custom_providers"
    rcases addedProvider_eq_ok hadded with ⟨hhas, rfl⟩ | ⟨hmissing, source, hsource, hname, rfl⟩
    · refine ⟨entries, [], hentries, ?_, .inl ⟨hhas, rfl⟩⟩
      rcases hentries with ⟨_, rfl⟩ | hlookup
      · obtain ⟨entry, hentry, -⟩ := hhas
        cases hentry
      · rw [List.append_nil]
        rwa [hlookup] at hcp
    · exact ⟨entries, [discoveringEntry source], hentries, by simpa using hcp,
        .inr ⟨hmissing, source, hsource, hname, _, rfl, announces_discoveringEntry source⟩⟩
  · cases new with
    | none => exact hchosen ▸ hmodel
    | some new =>
      rcases (bootstrapHermesModel_eq_some hnew).2.1 with (h | h | ⟨_, h, hblank⟩) | ⟨_, h, _⟩ <;>
        rw [hchosen] at h <;> cases h
      exact absurd hblank hne
  · rw [hm] at hmodel hnew
    cases new with
    | none =>
      obtain ⟨v, hv, hmodels⟩ := hmodel.exists_same
      obtain ⟨model', rfl⟩ := hmodels.eq_obj
      exact ⟨model', hv, fun key _ => same_obj_iff.mp hmodels key⟩
    | some new =>
      obtain ⟨v, hv, hmodels⟩ := hmodel.exists_same
      obtain ⟨model', rfl⟩ := hmodels.eq_obj
      refine ⟨model', hv, fun key hchosen => ?_⟩
      rcases (bootstrapHermesModel_eq_some hnew).2.1 with (h | h | ⟨_, h, _⟩) | ⟨_, h, _, hall⟩ <;>
        cases h
      exact hall key hchosen ▸ same_obj_iff.mp hmodels key

/-- A configuration that is not refused has one of the shapes. -/
theorem wellShaped_of_tree {result : Option (Entries (Scalar ω))}
    (h : bootstrapTree remote config.fields = .ok result) : WellShaped config := by
  obtain ⟨providers, added, new, hproviders, -, hnew, -, -⟩ := bootstrapTree_eq_ok h
  obtain ⟨entries, -, hentries⟩ := hermesProviderEntries_eq_ok hproviders
  refine ⟨⟨entries, hentries⟩, fun v hv => ?_⟩
  rw [hv] at hnew
  cases v with
  | null => exact .inl rfl
  | str text => exact .inr (.inl ⟨text, rfl⟩)
  | obj fields => exact .inr (.inr ⟨fields, rfl⟩)
  | bool _ => cases hnew
  | num _ => cases hnew
  | arr _ => cases hnew

/-! ## Once more -/

theorem default_chosen (h : validateHermesConfig remote = .ok ()) :
    trimSpace remote.model.default ≠ "" := by
  unfold validateHermesConfig at h
  by_cases hrequired : remote.model.default = "" ∨ remote.model.provider = ""
  · rw [if_pos hrequired] at h
    cases h
  rw [if_neg hrequired] at h
  by_cases hprefix : (!hasPrefix remote.model.provider "custom:") = true
  · rw [if_pos hprefix] at h
    cases h
  rw [if_neg hprefix] at h
  dsimp only at h
  split at h
  · obtain ⟨-, hactive, hids⟩ := validateHermesProvider_eq_ok.mp h
    refine (hids _ (FMap.mem_sortedKeys.mpr ?_)).1
    by_contra hmissing
    rw [Finmap.lookup_eq_none.mpr hmissing] at hactive
    exact absurd hactive (by decide)
  · cases h

theorem chosen_default (hvalid : validateHermesConfig remote = .ok ())
    (h : Alike (lookup "default" model) (some (.str remote.model.default))) :
    Chosen model "default" := by
  rw [chosen_iff, textOf_congr h]
  exact default_chosen hvalid

theorem hasName_of_forall₂ {entries entries' : List (Entries (Scalar ω))} {name : String}
    (h : List.Forall₂ (fun e e' => Same (.obj e) (.obj e')) entries' entries)
    (hname : ∃ entry ∈ entries, HasName name entry) : ∃ entry ∈ entries', HasName name entry := by
  induction h with
  | nil => exact hname
  | cons hhead _ ih =>
    rw [List.exists_mem_cons_iff] at hname ⊢
    exact hname.imp (.of_same hhead) ih

/-- A configuration that was bootstrapped has the provider, so that none is added. -/
theorem Bootstrapped.addedProvider (h : Bootstrapped remote config config') : ∃ providers,
    hermesProviderEntries (lookup "custom_providers" config'.fields) = .ok providers ∧
      addedProvider remote providers = .ok none := by
  obtain ⟨entries, added, -, hproviders, hadded⟩ := h.providers
  obtain ⟨v, hv, hitems⟩ := hproviders.exists_same
  obtain ⟨items, rfl⟩ := hitems.eq_arr
  obtain ⟨entries', rfl, hentries⟩ := entries_of_forall₂ (same_arr_iff.mp hitems)
  have hnamed : ∃ entry ∈ entries ++ added, HasName remote.providerName entry := by
    rcases hadded with ⟨⟨entry, hentry, hname⟩, -⟩ | ⟨-, source, -, hname, own, rfl, hown⟩
    · exact ⟨entry, List.mem_append_left _ hentry, hname⟩
    · exact ⟨own, by simp, hname ▸ hown.name⟩
  refine ⟨entries'.map .obj, hermesProviderEntries_of_in (.inr hv), ?_⟩
  rw [HermesSync.addedProvider, if_pos]
  exact hasHermesProvider_map.mpr (hasName_of_forall₂ hentries hnamed)

/-- A tree that was changed is another one, and it is not changed again. -/
theorem changed_once {new : Entries (Scalar ω)} (hvalid : validateHermesConfig remote = .ok ())
    (h : bootstrapTree remote config.fields = .ok (some new))
    (hsame : Same config'.value (.obj new)) :
    ¬ Same config'.value config.value ∧ bootstrapTree remote config'.fields = .ok none := by
  have hboot : Bootstrapped remote config config' := bootstrapped_of_tree h hsame
  obtain ⟨providers, added, model, hproviders, hadded, hmodel, hchanged, htree⟩ :=
    bootstrapTree_eq_ok h
  obtain ⟨entries, rfl, hentries⟩ := hermesProviderEntries_eq_ok hproviders
  rw [show new = _ from htree] at hsame
  have hkey := same_obj_iff.mp hsame
  simp only [lookup_assignSome] at hkey
  have hm : Alike _ ((model.map Value.obj).or (lookup "model" config.fields)) := hkey "model"
  constructor
  · intro hback
    have hback := same_obj_iff.mp hback
    cases model with
    | none =>
      have hcp := (hback "custom_providers").symm.trans (hkey "custom_providers")
      rcases addedProvider_eq_ok hadded with ⟨_, rfl⟩ | ⟨_, source, _, _, rfl⟩
      · cases hchanged.mpr ⟨rfl, rfl⟩
      · -- The list is longer, or there was none.
        rcases hentries with ⟨hnone | hnull, -⟩ | hlist
        · rw [hnone] at hcp
          cases hcp []
        · rw [hnull] at hcp
          cases hcp []
        · rw [hlist] at hcp
          have hlength := (same_arr_iff.mp (alike_some.mp hcp)).length_eq
          simp at hlength
    | some m =>
      obtain ⟨hdefault, hraw, -⟩ := bootstrapHermesModel_eq_some hmodel
      have hmodels := (hback "model").symm.trans hm
      rcases hraw with (h | h | ⟨_, h, _⟩) | ⟨m₀, h, hnot, _⟩ <;> rw [h] at hmodels
      · cases hmodels []
      · cases hmodels []
      · cases hmodels []
      · refine hnot (chosen_default hvalid ?_)
        rw [← hdefault]
        exact same_obj_iff.mp (alike_some.mp hmodels) "default"
  · obtain ⟨providers', hproviders', hadded'⟩ := hboot.addedProvider
    have hmodel' :
        bootstrapHermesModel remote.model (lookup "model" config'.fields) = .ok none := by
      cases model with
      | none => exact bootstrapHermesModel_congr hm hmodel
      | some m =>
        obtain ⟨v, hv, hmodels⟩ := hm.exists_same
        obtain ⟨m', rfl⟩ := hmodels.eq_obj
        refine bootstrapHermesModel_eq_none.mpr (.inr ⟨m', hv, .inl (chosen_default hvalid ?_)⟩)
        rw [← (bootstrapHermesModel_eq_some hmodel).1]
        exact same_obj_iff.mp hmodels "default"
    rw [bootstrapTree, hproviders']
    show (addedProvider remote providers' >>= _) = _
    rw [hadded']
    show (bootstrapHermesModel _ _ >>= _) = _
    rw [hmodel']
    rfl

/-! ## Runs -/

section Runs

variable {yaml : Yaml B ω} {F : Chances B} {path : Path} {t t' : FileTree B}

/-- A run that goes well: the payload is valid, and the configuration is left alone, or one that was
bootstrapped can be read. -/
theorem ends_bootstrapHermesConfig {changed : Bool}
    (h : (bootstrapHermesConfig yaml path remote).prog.Ends (fun t => t.Exec F) t (.ok changed)
      t') :
    validateHermesConfig remote = .ok () ∧ ∃ config, Reads yaml t path config ∧
      ((bootstrapped remote config = .ok none ∧ changed = false ∧ t' = t) ∨
        ∃ new config', bootstrapped remote config = .ok (some new) ∧ changed = true ∧
          Reads yaml t' path config' ∧ Same config'.value new.value) := by
  unfold bootstrapHermesConfig at h
  cases hvalid : validateHermesConfig remote with
  | error e =>
    rw [hvalid] at h
    cases h.1
  | ok _ =>
    rw [hvalid] at h
    refine ⟨rfl, ?_⟩
    obtain ⟨x, t₁, hread, h⟩ := Flow.ends_bind_ok.mp h
    obtain ⟨rfl, hread⟩ := ends_readHermesConfig hread
    cases x with
    | none => cases h.1
    | some config =>
      refine ⟨config, hread, ?_⟩
      dsimp only at h
      cases hboot : bootstrapped remote config with
      | error e =>
        rw [hboot] at h
        cases h.1
      | ok result =>
        rw [hboot] at h
        cases result with
        | none => exact .inl ⟨rfl, Except.ok.inj h.1, h.2⟩
        | some new =>
          obtain ⟨_, t₂, hstore, h⟩ := Flow.ends_bind_ok.mp h
          obtain ⟨config', hreads', hsame⟩ := ends_storeHermesConfig hstore
          obtain rfl := h.2
          exact .inr ⟨new, config', rfl, Except.ok.inj h.1, hreads', hsame⟩

/-- A payload that is not valid, or a configuration of another shape, is refused. -/
theorem ends_of_refused {x : Except Err Bool}
    (hrefused : validateHermesConfig remote ≠ .ok () ∨
      ∃ config, Reads yaml t path config ∧ ¬ WellShaped config)
    (h : (bootstrapHermesConfig yaml path remote).prog.Ends (fun t => t.Exec F) t x t') :
    (∃ e, x = .error e) ∧ t' = t := by
  constructor
  · cases x with
    | error e => exact ⟨e, rfl⟩
    | ok changed =>
      obtain ⟨hvalid, config, hreads, hrun⟩ := ends_bootstrapHermesConfig h
      obtain ⟨config', hreads', hshape⟩ := hrefused.resolve_left (fun hne => hne hvalid)
      obtain rfl := hreads.unique hreads'
      rcases hrun with ⟨hnone, -⟩ | ⟨new, -, hnew, -⟩
      · exact absurd (wellShaped_of_tree (bootstrapped_eq_none.mp hnone)) hshape
      · exact absurd (wellShaped_of_tree (bootstrapped_eq_some hnew)) hshape
  · unfold bootstrapHermesConfig at h
    cases hvalid : validateHermesConfig remote with
    | error e =>
      rw [hvalid] at h
      exact h.2
    | ok _ =>
      rw [hvalid] at h
      obtain ⟨config, hreads, hshape⟩ := hrefused.resolve_left (fun hne => hne hvalid)
      rcases ends_of_reads hreads h with heq | h
      · exact heq
      · dsimp only at h
        cases hboot : bootstrapped remote config with
        | error e =>
          rw [hboot] at h
          exact h.2
        | ok result =>
          cases result with
          | none => exact absurd (wellShaped_of_tree (bootstrapped_eq_none.mp hboot)) hshape
          | some new => exact absurd (wellShaped_of_tree (bootstrapped_eq_some hboot)) hshape

/-- Nothing has to fail when a configuration is read that is there. -/
theorem ends_read_of_reads (h : Reads yaml t path config) :
    (readHermesConfig yaml path).prog.Ends (fun t => t.Exec F) t (.ok (some config)) t := by
  rcases h with ⟨q, b, hq, hdecode⟩ | ⟨hnone, rfl⟩
  · have hread : (readFile path).prog.Ends (fun t => t.Exec F) t (.ok b) t := by
      refine Flow.ends_bind_ok.mpr ⟨⟨q, some b⟩, t,
        ends_attempt.mpr ⟨.ok ⟨q, some b⟩, .inl ?_, rfl⟩,
        ends_attempt.mpr ⟨.ok b, .inl ⟨rfl, b, rfl, fun _ => rfl⟩, rfl⟩⟩
      show _ = t.apply (.openFile path)
      rw [FileTree.apply, hq]
    refine Flow.ends_lift_bind.mpr ⟨.ok b, t, hread, ?_⟩
    dsimp only
    rw [hdecode]
    exact ⟨rfl, rfl⟩
  · have hread : (readFile path).prog.Ends (fun t => t.Exec F) t
        (.error ⟨"open", path, .enoent⟩) t := by
      refine Flow.ends_bind.mpr (.inl ⟨_, rfl, ends_attempt.mpr ⟨.error .enoent, .inl ?_, rfl⟩⟩)
      show _ = t.apply (.openFile path)
      rw [FileTree.apply, hnone]
    exact Flow.ends_lift_bind.mpr ⟨_, t, hread, rfl, rfl⟩

/-- With nothing left to change a run changes nothing, and there is one that says so. -/
theorem ends_of_none (hvalid : validateHermesConfig remote = .ok ())
    (hreads : Reads yaml t path config) (hnone : bootstrapped remote config = .ok none) :
    (bootstrapHermesConfig yaml path remote).prog.Ends (fun t => t.Exec F) t (.ok false) t ∧
      ∀ x t', (bootstrapHermesConfig yaml path remote).prog.Ends (fun t => t.Exec F) t x t' →
        x ≠ .ok true ∧ t' = t := by
  constructor
  · unfold bootstrapHermesConfig
    rw [hvalid]
    refine Flow.ends_bind_ok.mpr ⟨some config, t, ends_read_of_reads hreads, ?_⟩
    dsimp only
    rw [hnone]
    exact ⟨rfl, rfl⟩
  · refine fun x t' h => ⟨?_, ?_⟩
    · rintro rfl
      obtain ⟨-, config', hreads', ⟨_, hfalse, _⟩ | ⟨new, _, hnew, _⟩⟩ :=
        ends_bootstrapHermesConfig h
      · cases hfalse
      · obtain rfl := hreads.unique hreads'
        cases hnone.symm.trans hnew
    · unfold bootstrapHermesConfig at h
      rw [hvalid] at h
      rcases ends_of_reads hreads h with heq | h
      · exact heq
      · dsimp only at h
        rw [hnone] at h
        exact h.2

variable (yaml F path remote t) in
/-- A bootstrap keeps what was chosen: a run that goes well changes the configuration as
`Bootstrapped` says and reports whether it is another one. Run again it changes nothing and, unless
the file cannot be read, reports that. Where the payload or the shape of the configuration is
refused, no file is changed. -/
theorem bootstrapHermesConfig_conserves :
    (∀ changed t',
      (bootstrapHermesConfig yaml path remote).prog.Ends (fun t => t.Exec F) t (.ok changed) t' →
      ∃ config config', Reads yaml t path config ∧ Reads yaml t' path config' ∧
        Bootstrapped remote config config' ∧
        (changed = false ↔ Same config'.value config.value) ∧ (changed = false → t' = t) ∧
        (bootstrapHermesConfig yaml path remote).prog.Ends (fun t => t.Exec F) t' (.ok false) t' ∧
        ∀ x t'', (bootstrapHermesConfig yaml path remote).prog.Ends (fun t => t.Exec F) t' x t'' →
          x ≠ .ok true ∧ t'' = t') ∧
    ((validateHermesConfig remote ≠ .ok () ∨
        ∃ config, Reads yaml t path config ∧ ¬ WellShaped config) →
      ∀ x t', (bootstrapHermesConfig yaml path remote).prog.Ends (fun t => t.Exec F) t x t' →
        (∃ e, x = .error e) ∧ t' = t) := by
  refine ⟨fun changed t' h => ?_, fun hrefused x t' h => ends_of_refused hrefused h⟩
  obtain ⟨hvalid, config, hreads, hrun⟩ := ends_bootstrapHermesConfig h
  rcases hrun with ⟨hnone, rfl, rfl⟩ | ⟨new, config', hnew, rfl, hreads', hsame⟩
  · exact ⟨config, config, hreads, hreads,
      bootstrapped_of_tree (bootstrapped_eq_none.mp hnone) (.refl _),
      ⟨fun _ => .refl _, fun _ => rfl⟩, fun _ => rfl, ends_of_none hvalid hreads hnone⟩
  · have htree := bootstrapped_eq_some hnew
    obtain ⟨hother, honce⟩ := changed_once hvalid htree hsame
    exact ⟨config, config', hreads, hreads', bootstrapped_of_tree htree hsame,
      ⟨fun h => Bool.noConfusion h, fun h => absurd h hother⟩, fun h => Bool.noConfusion h,
      ends_of_none hvalid hreads' (bootstrapped_eq_none.mpr honce)⟩

end Runs

/-- A user with a theme and another provider gets that of the proxy, and the model. -/
theorem bootstrapHermesConfig_conserves_themed :
    ∃ t', (bootstrapHermesConfig treeFiles ["config.yaml"] proxyPayload).prog.Ends
        (fun t => t.Exec (.sound _)) (FileTree.ofEntries _ nested_themed) (.ok true) t' ∧
      ∃ config config',
        Reads treeFiles (FileTree.ofEntries _ nested_themed) ["config.yaml"] config ∧
        Reads treeFiles t' ["config.yaml"] config' ∧ Bootstrapped proxyPayload config config' ∧
        ¬ Same config'.value config.value := by
  have hrun := ends_apply (bootstrapHermesConfig treeFiles ["config.yaml"] proxyPayload).prog
    (FileTree.ofEntries _ nested_themed)
  rw [show (Prog.eval _ _ _).1 = Except.ok true by decide +kernel] at hrun
  obtain ⟨config, config', hreads, hreads', hboot, hchanged, -⟩ :=
    (bootstrapHermesConfig_conserves _ treeFiles (.sound _) _ _).1 _ _ hrun
  exact ⟨_, hrun, config, config', hreads, hreads', hboot,
    fun hsame => Bool.noConfusion (hchanged.mpr hsame)⟩

/-- A user who left the list of providers empty. -/
def nullProviders : HermesConfig Empty where
  fields := [("custom_providers", .null)]
  distinct := by
    refine distinct_obj (by decide) fun e he => ?_
    obtain rfl := List.mem_singleton.mp he
    exact distinct_null

theorem nested_nullProviders : FileTree.Nested [(["config.yaml"], Node.file nullProviders)] := by
  decide

/-- The null is not there any more. -/
theorem null_providers_replaced :
    validateHermesConfig proxyPayload = .ok () ∧
      lookup "custom_providers" nullProviders.fields = some .null ∧
      ∃ t' config', (bootstrapHermesConfig treeFiles ["config.yaml"] proxyPayload).prog.Ends
          (fun t => t.Exec (.sound _)) (FileTree.ofEntries _ nested_nullProviders) (.ok true) t' ∧
        Reads treeFiles (FileTree.ofEntries _ nested_nullProviders) ["config.yaml"] nullProviders ∧
        Reads treeFiles t' ["config.yaml"] config' ∧
        ∃ items, lookup "custom_providers" config'.fields = some (.arr items) := by
  have hrun := ends_apply (bootstrapHermesConfig treeFiles ["config.yaml"] proxyPayload).prog
    (FileTree.ofEntries _ nested_nullProviders)
  rw [show (Prog.eval _ _ _).1 = Except.ok true by decide +kernel] at hrun
  have hread : Reads treeFiles (FileTree.ofEntries _ nested_nullProviders) ["config.yaml"]
      nullProviders := .inl ⟨["config.yaml"], nullProviders, rfl, rfl⟩
  obtain ⟨-, config, hreads, ⟨-, hfalse, -⟩ | ⟨new, config', hnew, -, hreads', hsame⟩⟩ :=
    ends_bootstrapHermesConfig hrun
  · cases hfalse
  obtain rfl := hread.unique hreads
  refine ⟨by decide +kernel, rfl, _, config', hrun, hread, hreads', ?_⟩
  have hboot := bootstrapped_of_tree (bootstrapped_eq_some hnew) hsame
  obtain ⟨entries, added, -, hproviders, -⟩ := hboot.providers
  obtain ⟨v, hv, hitems⟩ := hproviders.exists_same
  obtain ⟨items, rfl⟩ := hitems.eq_arr
  exact ⟨items, hv⟩

end LlmOperator.Proxy.HermesSync
