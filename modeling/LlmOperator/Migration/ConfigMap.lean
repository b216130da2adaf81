import LlmOperator.Api.Types
import Mathlib.Data.List.Forall2
import Mathlib.Data.Prod.Lex
import Mathlib.Data.String.Basic

/-!
# The migration of ConfigMaps

Before there were custom resources, models and overlays were ConfigMaps with a label. The migration
command converts them, in the order of their namespaces and names, into the custom resources, and
stops at the first that it cannot convert. ConfigMaps without a label are left out.
-/

namespace LlmOperator.Migration

open Api Data

def modelConfigLabel : String := "llm.cogito.dev/model-config"
def modelOverlayLabel : String := "llm.cogito.dev/model-overlay"
def migratedFromAnnotation : String := "llm.cogito.dev/migrated-from-configmap"
def groupVersion : String := "llm.cogito.dev/v1alpha1"

/-- The parts of a ConfigMap that the migration reads. -/
structure ConfigMap where
  namespaceName : String
  name : String
  labels : FMap String String
  data : FMap String String

structure TypeMeta where
  apiVersion : String
  kind : String

structure ObjectMeta where
  name : String
  namespaceName : String
  annotations : FMap String String

structure LLMModelOverlaySpec where
  displayName : String
  baseModel : String
  requestDefaults : String

inductive ObjectSpec where
  | model (spec : LLMModelSpec)
  | overlay (spec : LLMModelOverlaySpec)

structure MigratedObject where
  typeMeta : TypeMeta
  objectMeta : ObjectMeta
  spec : ObjectSpec

structure LegacyModel where
  model : LLMModelRef
  artifact : Option ArtifactSpec
  serving : ServingSpec

/-- The decoders of YAML, for a model and for any value, and the encoder of such a value. -/
structure Codec where
  Any : Type
  unmarshalModel : String → Except Err LegacyModel
  unmarshal : String → Except Err Any
  marshal : Any → Except Err String

namespace ConfigMap

/-- `namespace/name`. -/
def title (c : ConfigMap) : String := c.namespaceName ++ "/" ++ c.name

/-- The entry of the data, empty where there is none. -/
def entry (c : ConfigMap) (key : String) : String := (c.data.lookup key).getD ""

def isModel (c : ConfigMap) : Bool := c.labels.lookup modelConfigLabel = some "true"

def isOverlay (c : ConfigMap) : Bool := c.labels.lookup modelOverlayLabel = some "true"

/-- The order of the migration. -/
def less (a b : ConfigMap) : Bool :=
  if a.namespaceName = b.namespaceName then a.name < b.name else a.namespaceName < b.namespaceName

end ConfigMap

/-! ## The conversion -/

/-- `migratedObjectMeta`. -/
def migratedObjectMeta (c : ConfigMap) (name : String) : ObjectMeta :=
  ⟨name, c.namespaceName, Finmap.singleton migratedFromAnnotation c.name⟩

section Conversion

variable (codec : Codec)

/-- `convertModel`. -/
def convertModel (c : ConfigMap) : Except Err MigratedObject :=
  if c.entry "model.yaml" = "" then
    .error (.other ("model ConfigMap " ++ c.title ++ " is missing data.model.yaml"))
  else
    match codec.unmarshalModel (c.entry "model.yaml") with
    | .error e => .error (.wrap ("decode model ConfigMap " ++ c.title) e)
    | .ok legacy =>
      if legacy.model.name = "" ∨ legacy.model.source = "" ∨ legacy.serving.backend.text = "" then
        .error (.other ("model ConfigMap " ++ c.title ++
          " is missing model.name, model.source, or serving.backend"))
      else
        .ok ⟨⟨groupVersion, "LLMModel"⟩, migratedObjectMeta c c.name,
          .model ⟨legacy.model, legacy.artifact, legacy.serving, none⟩⟩

/-- `convertOverlay`. -/
def convertOverlay (c : ConfigMap) : Except Err MigratedObject :=
  if c.entry "model_name" = "" ∨ c.entry "display_name" = "" ∨ c.entry "base_model" = "" ∨
      c.entry "request_defaults.json" = "" then
    .error (.other ("overlay ConfigMap " ++ c.title ++
      " is missing model_name, display_name, base_model, or request_defaults.json"))
  else
    match codec.unmarshal (c.entry "request_defaults.json") with
    | .error e => .error (.wrap ("decode request defaults in overlay ConfigMap " ++ c.title) e)
    | .ok value =>
      match codec.marshal value with
      | .error e => .error (.wrap ("encode request defaults in overlay ConfigMap " ++ c.title) e)
      | .ok bytes =>
        .ok ⟨⟨groupVersion, "LLMModelOverlay"⟩, migratedObjectMeta c (c.entry "model_name"),
          .overlay ⟨c.entry "display_name", c.entry "base_model", bytes⟩⟩

/-- One pass of the loop: nothing for a ConfigMap without a label. -/
def convertConfigMap (c : ConfigMap) : Except Err (Option MigratedObject) :=
  if !c.isModel && !c.isOverlay then .ok none
  else if c.isModel && c.isOverlay then
    .error (.other ("ConfigMap " ++ c.title ++ " has both migration labels"))
  else if c.isModel then (convertModel codec c).map some
  else (convertOverlay codec c).map some

/-- The loop. -/
def convertSorted : List ConfigMap → Except Err (List MigratedObject)
  | [] => .ok []
  | c :: rest => do
    let object ← convertConfigMap codec c
    let objects ← convertSorted rest
    return object.toList ++ objects

/-- What `sort.Slice` does to the ConfigMaps. Two of the same namespace and name may end up in
either order. -/
structure SortSlice where
  sort : List ConfigMap → List ConfigMap
  perm : ∀ l, (sort l).Perm l
  sorted : ∀ l, (sort l).Pairwise fun a b => b.less a = false

/-- `ConvertConfigMaps`. -/
def convertConfigMaps (slice : SortSlice) (configMaps : List ConfigMap) :
    Except Err (List MigratedObject) :=
  convertSorted codec (slice.sort configMaps)

end Conversion

/-! ## The order -/

namespace ConfigMap

/-- What the order looks at. -/
def key (c : ConfigMap) : String ×ₗ String := toLex (c.namespaceName, c.name)

theorem less_iff {a b : ConfigMap} : a.less b = true ↔ a.key < b.key := by
  unfold less key
  rw [Prod.Lex.toLex_lt_toLex]
  by_cases h : a.namespaceName = b.namespaceName
  · simp [h]
  · simp [h]

theorem less_eq_false_iff {a b : ConfigMap} : a.less b = false ↔ b.key ≤ a.key := by
  rw [← Bool.not_eq_true, less_iff, not_lt]

end ConfigMap

section Order

variable {l l' : List ConfigMap}

/-- With distinct names there is one order only. -/
theorem SortSlice.sort_eq (s s' : SortSlice) (hdistinct : (l.map ConfigMap.key).Nodup)
    (hperm : l'.Perm l) : s'.sort l' = s.sort l := by
  have hall : (s'.sort l').Perm (s.sort l) := (s'.perm l').trans (hperm.trans (s.perm l).symm)
  refine List.Perm.eq_of_pairwise (fun a b ha hb hab hba => ?_) (s'.sorted l') (s.sorted l) hall
  rw [ConfigMap.less_eq_false_iff] at hab hba
  have hmem : ∀ c ∈ s.sort l, c ∈ l := fun c hc => (s.perm l).mem_iff.mp hc
  exact List.inj_on_of_nodup_map hdistinct (hmem a (hall.mem_iff.mp ha)) (hmem b hb)
    (le_antisymm hab hba)

theorem SortSlice.sorted_lt (s : SortSlice) (hdistinct : (l.map ConfigMap.key).Nodup) :
    (s.sort l).Pairwise fun a b => a.less b = true := by
  have hne : (s.sort l).Pairwise fun a b => a.key ≠ b.key :=
    List.pairwise_map.mp (((s.perm l).map _).nodup_iff.mpr hdistinct)
  refine ((s.sorted l).and hne).imp fun {a b} h => ?_
  rw [ConfigMap.less_eq_false_iff] at h
  exact ConfigMap.less_iff.mpr (lt_of_le_of_ne h.1 h.2)

end Order

/-! ## The result -/

/-- The ConfigMap takes part in the migration. -/
def Labelled (c : ConfigMap) : Bool := c.isModel || c.isOverlay

/-- The object of a ConfigMap. -/
structure MigratedFrom (c : ConfigMap) (o : MigratedObject) : Prop where
  namespaceName : o.objectMeta.namespaceName = c.namespaceName
  annotation : o.objectMeta.annotations.lookup migratedFromAnnotation = some c.name
  kind : (c.isModel = true ∧ c.isOverlay = false ∧ o.typeMeta.kind = "LLMModel") ∨
    (c.isModel = false ∧ c.isOverlay = true ∧ o.typeMeta.kind = "LLMModelOverlay")

/-- The ConfigMap has both labels, or its own conversion fails. -/
def Refused (codec : Codec) (c : ConfigMap) : Prop :=
  (c.isModel = true ∧ c.isOverlay = true) ∨
    (c.isModel = true ∧ ∃ e, convertModel codec c = .error e) ∨
    (c.isOverlay = true ∧ ∃ e, convertOverlay codec c = .error e)

section Result

variable {codec : Codec} {c : ConfigMap}

theorem convertModel_ok {o : MigratedObject} (h : convertModel codec c = .ok o) :
    o.objectMeta = migratedObjectMeta c c.name ∧ o.typeMeta.kind = "LLMModel" := by
  unfold convertModel at h
  split at h
  · cases h
  · split at h
    · cases h
    · split at h
      · cases h
      · cases h
        exact ⟨rfl, rfl⟩

theorem convertOverlay_ok {o : MigratedObject} (h : convertOverlay codec c = .ok o) :
    o.objectMeta = migratedObjectMeta c (c.entry "model_name") ∧
      o.typeMeta.kind = "LLMModelOverlay" := by
  unfold convertOverlay at h
  split at h
  · cases h
  · split at h
    · cases h
    · split at h
      · cases h
      · cases h
        exact ⟨rfl, rfl⟩

theorem lookup_migratedFrom (c : ConfigMap) (name : String) :
    (migratedObjectMeta c name).annotations.lookup migratedFromAnnotation = some c.name :=
  Finmap.lookup_singleton_eq

/-- What one pass comes to. -/
theorem convertConfigMap_cases (codec : Codec) (c : ConfigMap) :
    (Labelled c = false ∧ convertConfigMap codec c = .ok none) ∨
      (Refused codec c ∧ ∃ e, convertConfigMap codec c = .error e) ∨
      (Labelled c = true ∧ ¬ Refused codec c ∧
        ∃ o, convertConfigMap codec c = .ok (some o) ∧ MigratedFrom c o) := by
  unfold convertConfigMap Labelled Refused
  cases hm : c.isModel with
  | false =>
    cases ho : c.isOverlay with
    | false => exact .inl ⟨rfl, rfl⟩
    | true =>
      cases hc : convertOverlay codec c with
      | error e => exact .inr (.inl ⟨by simp, e, rfl⟩)
      | ok o =>
        obtain ⟨hmeta, hkind⟩ := convertOverlay_ok hc
        refine .inr (.inr ⟨rfl, by simp, o, rfl, ?_, ?_, .inr ⟨hm, ho, hkind⟩⟩)
        · rw [hmeta]
          rfl
        · rw [hmeta, lookup_migratedFrom]
  | true =>
    cases ho : c.isOverlay with
    | true => exact .inr (.inl ⟨by simp, _, rfl⟩)
    | false =>
      cases hc : convertModel codec c with
      | error e => exact .inr (.inl ⟨by simp, e, rfl⟩)
      | ok o =>
        obtain ⟨hmeta, hkind⟩ := convertModel_ok hc
        refine .inr (.inr ⟨rfl, by simp, o, rfl, ?_, ?_, .inl ⟨hm, ho, hkind⟩⟩)
        · rw [hmeta]
          rfl
        · rw [hmeta, lookup_migratedFrom]

/-- The loop makes one object after the other, or stops at a ConfigMap that is refused. -/
theorem convertSorted_cases (codec : Codec) (l : List ConfigMap) :
    ((∃ c ∈ l, Refused codec c) ∧ ∃ e, convertSorted codec l = .error e) ∨
      ((∀ c ∈ l, ¬ Refused codec c) ∧ ∃ objects, convertSorted codec l = .ok objects ∧
        List.Forall₂ MigratedFrom (l.filter Labelled) objects) := by
  induction l with
  | nil => exact .inr ⟨by simp, [], rfl, .nil⟩
  | cons c l ih =>
    have hunlabelled : Labelled c = false → ¬ Refused codec c := by
      intro h hr
      simp only [Labelled, Bool.or_eq_false_iff] at h
      rcases hr with hr | hr | hr
      · simp [h.1] at hr
      · simp [h.1] at hr
      · simp [h.2] at hr
    rcases convertConfigMap_cases codec c with ⟨hl, hc⟩ | ⟨hr, e, hc⟩ | ⟨hl, hr, o, hc, ho⟩
    · rcases ih with ⟨⟨c', hc', hr⟩, e, he⟩ | ⟨hall, objects, hok, hobjects⟩
      · refine .inl ⟨⟨c', List.mem_cons_of_mem c hc', hr⟩, e, ?_⟩
        rw [convertSorted, hc, he]
        rfl
      · refine .inr ⟨List.forall_mem_cons.mpr ⟨hunlabelled hl, hall⟩, objects, ?_, ?_⟩
        · rw [convertSorted, hc, hok]
          rfl
        · rwa [List.filter_cons_of_neg (by simp [hl])]
    · refine .inl ⟨⟨c, List.mem_cons_self, hr⟩, e, ?_⟩
      rw [convertSorted, hc]
      rfl
    · rcases ih with ⟨⟨c', hc', hr'⟩, e, he⟩ | ⟨hall, objects, hok, hobjects⟩
      · refine .inl ⟨⟨c', List.mem_cons_of_mem c hc', hr'⟩, e, ?_⟩
        rw [convertSorted, hc, he]
        rfl
      · refine .inr ⟨List.forall_mem_cons.mpr ⟨hr, hall⟩, o :: objects, ?_, ?_⟩
        · rw [convertSorted, hc, hok]
          rfl
        · rw [List.filter_cons_of_pos hl]
          exact .cons ho hobjects

end Result

/-- The order of the input does not matter, nor how it is sorted; a migration that succeeds has one
object for each ConfigMap with a label, in order; and it fails only for one that is refused. -/
theorem convertConfigMaps_complete (codec : Codec) (s : SortSlice) {l : List ConfigMap}
    (hdistinct : (l.map ConfigMap.key).Nodup) :
    (∀ (s' : SortSlice) (l' : List ConfigMap), l'.Perm l →
      convertConfigMaps codec s' l' = convertConfigMaps codec s l) ∧
    (∀ objects, convertConfigMaps codec s l = .ok objects →
      ∃ sources : List ConfigMap, sources.Perm (l.filter Labelled) ∧
        sources.Pairwise (fun a b => a.less b = true) ∧ List.Forall₂ MigratedFrom sources objects) ∧
    ((∃ e, convertConfigMaps codec s l = .error e) ↔ ∃ c ∈ l, Refused codec c) := by
  have hcases := convertSorted_cases codec (s.sort l)
  have hmem : ∀ c, c ∈ s.sort l ↔ c ∈ l := fun c => (s.perm l).mem_iff
  simp only [hmem] at hcases
  unfold convertConfigMaps
  refine ⟨fun s' l' hperm => ?_, fun objects hok => ?_, ⟨?_, ?_⟩⟩
  · rw [s.sort_eq s' hdistinct hperm]
  · rcases hcases with ⟨_, e, he⟩ | ⟨_, objects', hok', hobjects⟩
    · rw [he] at hok
      cases hok
    · rw [hok'] at hok
      cases hok
      exact ⟨_, (s.perm l).filter _, (s.sorted_lt hdistinct).filter _, hobjects⟩
  · rintro ⟨e, he⟩
    rcases hcases with ⟨hr, _⟩ | ⟨_, objects, hok, _⟩
    · exact hr
    · rw [hok] at he
      cases he
  · rintro ⟨c, hc, hr⟩
    rcases hcases with ⟨_, he⟩ | ⟨hall, _⟩
    · exact he
    · exact absurd hr (hall c hc)

/-! ## A catalog of two ConfigMaps -/

instance : Std.Total fun a b : ConfigMap => b.less a = false where
  total a b := by
    simp only [ConfigMap.less_eq_false_iff]
    exact le_total a.key b.key

instance : IsTrans ConfigMap fun a b => b.less a = false where
  trans a b c hab hbc := by
    rw [ConfigMap.less_eq_false_iff] at *
    exact hab.trans hbc

def insertionSlice : SortSlice where
  sort := List.insertionSort fun a b => b.less a = false
  perm := List.perm_insertionSort _
  sorted := List.pairwise_insertionSort _

/-- A codec for which the text of a model is its name. -/
def nameCodec : Codec where
  Any := String
  unmarshalModel s := .ok ⟨⟨s, "google/" ++ s, "", ""⟩, none, ⟨.vllm, "", "", none, []⟩⟩
  unmarshal s := .ok s
  marshal s := .ok s

def gemmaModel : ConfigMap :=
  ⟨"llm", "gemma", Finmap.singleton modelConfigLabel "true", Finmap.singleton "model.yaml" "gemma"⟩

def notes : ConfigMap := ⟨"llm", "notes", ∅, ∅⟩

theorem convertConfigMaps_complete_gemma : ([gemmaModel, notes].map ConfigMap.key).Nodup ∧
    convertConfigMaps nameCodec insertionSlice [notes, gemmaModel] =
      convertConfigMaps nameCodec insertionSlice [gemmaModel, notes] := by
  have hdistinct : ([gemmaModel, notes].map ConfigMap.key).Nodup := by decide +kernel
  exact ⟨hdistinct, (convertConfigMaps_complete nameCodec insertionSlice hdistinct).1
    insertionSlice _
    (List.Perm.swap _ _ _)⟩

end LlmOperator.Migration
