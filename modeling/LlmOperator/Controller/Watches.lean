import LlmOperator.Controller.ModelReconcile
import LlmOperator.Data.Json
import Mathlib.Data.List.Perm.Basic
import Mathlib.Logic.Function.Basic

/-!
# What wakes a controller

A controller reconciles an object when one of its watches reports an event that passes the
predicate of the controller and that the mapping of the watch takes to the object. For an update
the mapping is evaluated on the old and on the new object. Against this stands what the reconcile
of the object depends on.

`LLMModelOverlayReconciler` looks for its base model by the canonical name in the spec, and its
watch takes a model to the overlays that name the model's object. `LLMModelReconciler` depends on
the ConfigMap that a chat template names, and so does the mapping of its watch; but its predicate
lets no update of a ConfigMap through.
-/

namespace LlmOperator.Controller

open Api Data Data.GoString Interaction Interaction.Prog

/-! ## Events -/

/-- What a watch reports. -/
inductive WatchEvent (α : Type) where
  | created (obj : α)
  | updated (old new : α)
  | deleted (obj : α)

namespace WatchEvent

variable {α : Type}

/-- The objects on which a mapping is evaluated. -/
def objects : WatchEvent α → List α
  | created obj => [obj]
  | updated old new => [old, new]
  | deleted obj => [obj]

/-- An update leaves something as it was. -/
def Keeps {β : Type} (f : α → β) : WatchEvent α → Prop
  | updated old new => f new = f old
  | _ => True

/-- The objects before the event, with the others of their kind. -/
def before (rest : List α) : WatchEvent α → List α
  | created _ => rest
  | updated old _ => old :: rest
  | deleted obj => obj :: rest

def after (rest : List α) : WatchEvent α → List α
  | created obj => obj :: rest
  | updated _ new => new :: rest
  | deleted _ => rest

/-- The names of the objects that an event enqueues. -/
def enqueued (passes : WatchEvent α → Bool) (requests : α → List String) (e : WatchEvent α) :
    List String :=
  if passes e then e.objects.flatMap requests else []

/-- `predicate.GenerationChangedPredicate`. -/
def generationChanged (generation : α → Nat) : WatchEvent α → Bool
  | updated old new => generation old != generation new
  | _ => true

end WatchEvent

/-! ## The overlay controller -/

/-- The bytes of an `apiextensionsv1.JSON`: none, a text that cannot be parsed, or a document. -/
inductive RawJson where
  | empty
  | malformed (message : String)
  | document (body : Json)

structure LLMModelOverlaySpec where
  baseModel : String
  requestDefaults : RawJson

structure LLMModelOverlayStatus where
  resolvedBaseModel : String
  conditions : List Condition
  observedGeneration : Nat
  deriving DecidableEq

/-- An LLMModelOverlay; its display name is not read here. -/
structure LLMModelOverlay where
  name : String
  generation : Nat
  spec : LLMModelOverlaySpec
  status : LLMModelOverlayStatus

inductive OverlayCall where
  | getOverlay (name : String)
  | listModels
  | updateOverlayStatus (obj : LLMModelOverlay)

def OverlayCall.Answer : OverlayCall → Type
  | getOverlay _ => Except Err LLMModelOverlay
  | listModels => Except Err (List LLMModel)
  | updateOverlayStatus _ => Except Err Unit

abbrev OverlayKube : Sig := ⟨OverlayCall, OverlayCall.Answer⟩

def overlayValidCondition : String := "OverlayValid"

/-- `validateRequestDefaults`. -/
def validateRequestDefaults : RawJson → Except Err Unit
  | .empty => .ok ()
  | .malformed message => .error (.wrap "requestDefaults is not valid JSON" (.other message))
  | .document .null => .ok ()
  | .document (.obj fields) =>
    if fields.any fun e => e.1 == "model" then
      .error (.other "requestDefaults must not contain a 'model' key")
    else .ok ()
  | .document _ => .error (.wrap "requestDefaults is not valid JSON"
      (.other (Json.typeError "map[string]json.RawMessage")))

section

variable (models : List LLMModel) (o : LLMModelOverlay)

/-- `setOverlayCondition`. -/
def setOverlayCondition (statusVal : ConditionStatus) (reason message : String) : LLMModelOverlay :=
  { o with status :=
    { o.status with
      conditions := putCondition ⟨overlayValidCondition, statusVal, reason, message⟩
        o.status.conditions } }

/-- `r.Status().Update`, at the end of a reconcile. -/
def writeOverlayStatus : Prog OverlayKube Outcome :=
  .call (.updateOverlayStatus o) fun
    | .error e => .pure (.error e)
    | .ok _ => .pure .done

def observeOverlay : LLMModelOverlay :=
  { o with status := { o.status with observedGeneration := o.generation } }

/-- The overlay whose base model is among the models, or is not. -/
def resolveBaseModel : LLMModelOverlay :=
  match models.find? fun m => m.spec.model.name == o.spec.baseModel with
  | some m => setOverlayCondition
      { o with status := { o.status with resolvedBaseModel := m.spec.model.name } }
      .true "Valid" "Overlay is valid"
  | none =>
    let o := setOverlayCondition o .false "BaseModelNotFound"
      ("no LLMModel with name " ++ quote o.spec.baseModel ++ " found")
    { o with status := { o.status with resolvedBaseModel := "" } }

/-- `LLMModelOverlayReconciler.Reconcile`. -/
def reconcileOverlay (name : String) : Prog OverlayKube Outcome :=
  .call (.getOverlay name) fun
    | .error e => .pure (if e.isNotFound then .done else .error e)
    | .ok stored =>
      let o := observeOverlay stored
      match validateRequestDefaults o.spec.requestDefaults with
      | .error e => writeOverlayStatus
          (setOverlayCondition o .false "InvalidRequestDefaults" e.error)
      | .ok () => .call .listModels fun
          | .error _ => .pure (.result false 5)
          | .ok models => writeOverlayStatus (resolveBaseModel models o)

/-- The answers to the calls, with the overlay that is stored. -/
def overlayAnswer (stored : LLMModelOverlay) : (c : OverlayCall) → c.Answer × LLMModelOverlay
  | .getOverlay _ => (.ok stored, stored)
  | .listModels => (.ok models, stored)
  | .updateOverlayStatus obj => (.ok (), { stored with status := obj.status })

/-- The status of an overlay when it has been reconciled among these models. -/
def endOverlayStatus : LLMModelOverlayStatus :=
  ((reconcileOverlay o.name).eval (overlayAnswer models) o).2.status

end

/-- The mapping of the watch on models. -/
def overlayRequests (overlays : List LLMModelOverlay) (obj : LLMModel) : List String :=
  (overlays.filter fun o => o.spec.baseModel == obj.name).map LLMModelOverlay.name

/-! ### What the status depends on -/

section Overlay

variable {models models' : List LLMModel} {o : LLMModelOverlay}

theorem endOverlayStatus_eq (models : List LLMModel) (o : LLMModelOverlay) :
    endOverlayStatus models o =
      match validateRequestDefaults o.spec.requestDefaults with
      | .error e => (setOverlayCondition (observeOverlay o) .false "InvalidRequestDefaults"
          e.error).status
      | .ok () => (resolveBaseModel models (observeOverlay o)).status := by
  unfold endOverlayStatus reconcileOverlay
  rw [eval_call]
  show (Prog.eval _ (match validateRequestDefaults o.spec.requestDefaults with
    | .error e => _ | .ok () => _) o).2.status = _
  cases validateRequestDefaults o.spec.requestDefaults with
  | error e => rfl
  | ok _ => rfl

theorem resolveBaseModel_found (base : LLMModelOverlay)
    (h : ∃ m ∈ models, m.spec.model.name = base.spec.baseModel) :
    resolveBaseModel models base = setOverlayCondition
      { base with status := { base.status with resolvedBaseModel := base.spec.baseModel } }
      .true "Valid" "Overlay is valid" := by
  unfold resolveBaseModel
  cases hfind : models.find? fun m => m.spec.model.name == base.spec.baseModel with
  | some m =>
    have hname : m.spec.model.name = base.spec.baseModel := by simpa using List.find?_some hfind
    dsimp only
    rw [hname]
  | none =>
    obtain ⟨m, hm, hname⟩ := h
    exact absurd (List.find?_eq_none.mp hfind m hm) (by simp [hname])

theorem resolveBaseModel_missing (base : LLMModelOverlay)
    (h : ¬ ∃ m ∈ models, m.spec.model.name = base.spec.baseModel) :
    (resolveBaseModel models base).status =
      { base.status with
        resolvedBaseModel := ""
        conditions := putCondition ⟨overlayValidCondition, .false, "BaseModelNotFound",
          "no LLMModel with name " ++ quote base.spec.baseModel ++ " found"⟩
          base.status.conditions } := by
  have hfind : (models.find? fun m => m.spec.model.name == base.spec.baseModel) = none :=
    List.find?_eq_none.mpr fun m hm hname => h ⟨m, hm, by simpa using hname⟩
  unfold resolveBaseModel
  rw [hfind]
  rfl

/-- The status depends only on whether one of the models has the name. -/
theorem endOverlayStatus_congr
    (h : (∃ m ∈ models, m.spec.model.name = o.spec.baseModel) ↔
      ∃ m ∈ models', m.spec.model.name = o.spec.baseModel) :
    endOverlayStatus models o = endOverlayStatus models' o := by
  rw [endOverlayStatus_eq, endOverlayStatus_eq]
  cases validateRequestDefaults o.spec.requestDefaults with
  | error e => rfl
  | ok _ =>
    by_cases hfound : ∃ m ∈ models, m.spec.model.name = o.spec.baseModel
    · exact congrArg LLMModelOverlay.status
        ((resolveBaseModel_found (observeOverlay o) hfound).trans
          (resolveBaseModel_found (observeOverlay o) (h.mp hfound)).symm)
    · exact (resolveBaseModel_missing (observeOverlay o) hfound).trans
        (resolveBaseModel_missing (observeOverlay o) fun h' => hfound (h.mpr h')).symm

theorem mem_overlayRequests {overlays : List LLMModelOverlay} {obj : LLMModel} (ho : o ∈ overlays)
    (h : o.spec.baseModel = obj.name) : o.name ∈ overlayRequests overlays obj :=
  List.mem_map_of_mem (List.mem_filter.mpr ⟨ho, by simpa using h⟩)

end Overlay

/-- A new overlay of a model. -/
def overlayOf (baseModel : String) : LLMModelOverlay :=
  ⟨"overlay", 1, ⟨baseModel, .empty⟩, ⟨"", [], 0⟩⟩

/-- Whether the base model is there shows in its status. -/
theorem endOverlayStatus_ne {models models' : List LLMModel} (baseModel : String)
    (h : ∃ m ∈ models, m.spec.model.name = baseModel)
    (h' : ¬ ∃ m ∈ models', m.spec.model.name = baseModel) :
    endOverlayStatus models (overlayOf baseModel) ≠ endOverlayStatus models'
      (overlayOf baseModel) := by
  rw [endOverlayStatus_eq, endOverlayStatus_eq]
  show (resolveBaseModel models (observeOverlay (overlayOf baseModel))).status ≠
    (resolveBaseModel models' (observeOverlay (overlayOf baseModel))).status
  rw [resolveBaseModel_found (observeOverlay (overlayOf baseModel)) h,
    resolveBaseModel_missing (observeOverlay (overlayOf baseModel)) h']
  intro heq
  have hconditions := congrArg LLMModelOverlayStatus.conditions heq
  cases hconditions

/-! ### Wake-ups -/

/-- Whatever else is in the namespace, an overlay whose status changes with the event is
enqueued. Lists come in any order. -/
def WakesOverlays (e : WatchEvent LLMModel) : Prop :=
  ∀ (rest before after : List LLMModel) (overlays : List LLMModelOverlay), ∀ o ∈ overlays,
    before.Perm (e.before rest) → after.Perm (e.after rest) →
    endOverlayStatus before o ≠ endOverlayStatus after o →
      o.name ∈ e.enqueued (fun _ => true) (overlayRequests overlays)

/-- The canonical name of the model is the name of its object, and no update changes it. -/
def NamedAlike : WatchEvent LLMModel → Prop
  | .created m => m.spec.model.name = m.name
  | .updated old new => new.spec.model.name = old.spec.model.name
  | .deleted m => m.spec.model.name = m.name

theorem exists_perm {models models' : List LLMModel} (h : models.Perm models') (name : String) :
    (∃ m ∈ models, m.spec.model.name = name) ↔ ∃ m ∈ models', m.spec.model.name = name := by
  simp only [h.mem_iff]

theorem wakesOverlays_of_namedAlike {e : WatchEvent LLMModel} (h : NamedAlike e) :
    WakesOverlays e := by
  intro rest before after overlays o ho hbefore hafter hstatus
  by_contra hmissed
  refine hstatus (endOverlayStatus_congr ?_)
  rw [exists_perm hbefore, exists_perm hafter]
  -- An overlay that the mapping misses does not name the object, so not the model either.
  have hother : ∀ obj, e.objects = [obj] → obj.spec.model.name = obj.name →
      obj.spec.model.name ≠ o.spec.baseModel := by
    intro obj hobjects hobj hname
    refine hmissed ?_
    unfold WatchEvent.enqueued
    rw [if_pos rfl, hobjects, List.flatMap_singleton]
    exact mem_overlayRequests ho (hname.symm.trans hobj)
  cases e with
  | created m => simp [WatchEvent.before, WatchEvent.after, hother m rfl h]
  | deleted m => simp [WatchEvent.before, WatchEvent.after, hother m rfl h]
  | updated old new =>
    have hname : new.spec.model.name = old.spec.model.name := h
    simp [WatchEvent.before, WatchEvent.after, hname]

/-- An overlay that names a model by its canonical name only. -/
theorem not_wakesOverlays {e : WatchEvent LLMModel} (baseModel : String)
    (hobjects : ∀ obj ∈ e.objects, obj.name ≠ baseModel)
    (hstatus : endOverlayStatus (e.before []) (overlayOf baseModel) ≠
      endOverlayStatus (e.after []) (overlayOf baseModel)) : ¬ WakesOverlays e := by
  intro hwakes
  have hmem := hwakes [] _ _ [overlayOf baseModel] _ (List.mem_singleton.mpr rfl) (.refl _)
    (.refl _)
    hstatus
  unfold WatchEvent.enqueued at hmem
  rw [if_pos rfl, List.mem_flatMap] at hmem
  obtain ⟨obj, hobj, hrequest⟩ := hmem
  have hne : (overlayOf baseModel).spec.baseModel ≠ obj.name := fun h => hobjects obj hobj h.symm
  simp [overlayRequests, hne] at hrequest

/-- The overlays that depend on a model are woken by it exactly when its canonical name is the
name of its object, and by an update exactly when the canonical name stays. -/
theorem overlays_woken_iff (e : WatchEvent LLMModel) (hname : e.Keeps LLMModel.name) :
    WakesOverlays e ↔ NamedAlike e := by
  refine ⟨fun hwakes => ?_, wakesOverlays_of_namedAlike⟩
  by_contra halike
  revert hwakes
  cases e with
  | created m =>
    refine not_wakesOverlays m.spec.model.name ?_ (Ne.symm ?_)
    · intro obj hobj
      rw [List.mem_singleton.mp hobj]
      exact Ne.symm halike
    · exact endOverlayStatus_ne _ ⟨m, List.mem_singleton.mpr rfl, rfl⟩ (by simp [WatchEvent.before])
  | deleted m =>
    refine not_wakesOverlays m.spec.model.name ?_ ?_
    · intro obj hobj
      rw [List.mem_singleton.mp hobj]
      exact Ne.symm halike
    · exact endOverlayStatus_ne _ ⟨m, List.mem_singleton.mpr rfl, rfl⟩ (by simp [WatchEvent.after])
  | updated old new =>
    have hobject : new.name = old.name := hname
    have hchanged : new.spec.model.name ≠ old.spec.model.name := halike
    -- The object has one name, so it is not that of both models.
    by_cases hold : old.name = old.spec.model.name
    · refine not_wakesOverlays new.spec.model.name ?_ (Ne.symm ?_)
      · intro obj hobj
        have hobj' : obj.name = old.name := by
          rcases List.mem_pair.mp hobj with rfl | rfl
          · rfl
          · exact hobject
        rw [hobj', hold]
        exact Ne.symm hchanged
      · refine endOverlayStatus_ne _ ⟨new, List.mem_singleton.mpr rfl, rfl⟩ ?_
        simpa [WatchEvent.before] using Ne.symm hchanged
    · refine not_wakesOverlays old.spec.model.name ?_ ?_
      · intro obj hobj
        have hobj' : obj.name = old.name := by
          rcases List.mem_pair.mp hobj with rfl | rfl
          · rfl
          · exact hobject
        rw [hobj']
        exact hold
      · refine endOverlayStatus_ne _ ⟨old, List.mem_singleton.mpr rfl, rfl⟩ ?_
        simpa [WatchEvent.after] using hchanged

/-- A model that has not been reconciled, with its chat template. -/
def newModel (name canonical : String) (chatTemplate : Option ChatTemplateSpec) : LLMModel where
  name := name
  generation := 1
  resourceVersion := 1
  spec := ⟨⟨canonical, canonical, "main", ""⟩, none, ⟨.vllm, "", "", chatTemplate, []⟩, none⟩
  status := ⟨.none, false, none, none, [], 0⟩

theorem overlays_woken_qwen : WakesOverlays (.created (newModel "qwen3" "qwen3" none)) :=
  (overlays_woken_iff (.created (newModel "qwen3" "qwen3" none)) trivial).mpr rfl

/-- An overlay of a model with a repository in its name stays invalid when the model appears. -/
theorem overlay_of_repository_sleeps :
    endOverlayStatus [] (overlayOf "Qwen/Qwen3-8B") ≠
        endOverlayStatus [newModel "qwen3" "Qwen/Qwen3-8B" none] (overlayOf "Qwen/Qwen3-8B") ∧
      WatchEvent.enqueued (fun _ => true) (overlayRequests [overlayOf "Qwen/Qwen3-8B"])
        (.created (newModel "qwen3" "Qwen/Qwen3-8B" none)) = [] ∧
      ¬ WakesOverlays (.created (newModel "qwen3" "Qwen/Qwen3-8B" none)) := by
  have hstatus : endOverlayStatus [] (overlayOf "Qwen/Qwen3-8B") ≠
      endOverlayStatus [newModel "qwen3" "Qwen/Qwen3-8B" none] (overlayOf "Qwen/Qwen3-8B") :=
    (endOverlayStatus_ne "Qwen/Qwen3-8B" ⟨_, List.mem_singleton.mpr rfl, rfl⟩ (by simp)).symm
  refine ⟨hstatus, by decide +kernel, not_wakesOverlays "Qwen/Qwen3-8B" ?_ hstatus⟩
  intro obj hobj
  rw [List.mem_singleton.mp hobj]
  decide

/-! ## The model controller -/

/-- A ConfigMap as it is stored: the API server gives it a name and no empty keys. -/
structure StoredConfigMap extends ConfigMap where
  generation : Nat
  named : name ≠ ""
  keyed : data.lookup "" = none

/-- How the API server answers for a ConfigMap of the namespace. -/
def findConfigMap (configMaps : String → Option StoredConfigMap) (name : String) :
    Except Err ConfigMap :=
  match configMaps name with
  | some configMap => .ok configMap.toConfigMap
  | none => .error (.notFound ("configmaps " ++ quote name ++ " not found"))

/-- What `validateChatTemplate` reads, from the ConfigMaps of the namespace by name. -/
def configMapReads (configMaps : String → Option StoredConfigMap) : (c : Call) → c.Answer
  | .getConfigMap name => findConfigMap configMaps name
  | c => c.someAnswer

/-- The result of `validateChatTemplate` for a model in a namespace. -/
def templateResult (sha256Hex : String → String) (configMaps : String → Option StoredConfigMap)
    (model : LLMModel) : Except Err Unit :=
  asked (configMapReads configMaps) (validateChatTemplateBy sha256Hex model)

/-- The mapping of the watch on ConfigMaps. -/
def templateRequests (models : List LLMModel) (obj : StoredConfigMap) : List String :=
  (models.filter fun m =>
    match m.spec.serving.chatTemplate with
    | some template => template.configMapName == obj.name
    | none => false).map LLMModel.name

/-- The ConfigMaps before an event, with the others by name. -/
def configMapsBefore (rest : String → Option StoredConfigMap) :
    WatchEvent StoredConfigMap → String → Option StoredConfigMap
  | .created obj => Function.update rest obj.name none
  | .updated old _ => Function.update rest old.name (some old)
  | .deleted obj => Function.update rest obj.name (some obj)

def configMapsAfter (rest : String → Option StoredConfigMap) :
    WatchEvent StoredConfigMap → String → Option StoredConfigMap
  | .created obj => Function.update rest obj.name (some obj)
  | .updated _ new => Function.update rest new.name (some new)
  | .deleted obj => Function.update rest obj.name none

/-! ### What the result depends on -/

section Template

variable {sha256Hex : String → String} {template : ChatTemplateSpec}

/-- The last part of `validateChatTemplate`, from the digest of what the ConfigMap holds. -/
def digestResult (configMapName : String) (template : ChatTemplateSpec) :
    Option String → Except Err Unit
  | none => .error (.other ("chat template ConfigMap " ++ quote configMapName ++
      " does not contain key " ++ quote template.configMapKey))
  | some digest =>
    if digest ≠ template.sha256 then
      .error (.other ("chat template digest mismatch: got " ++ digest ++ ", want " ++
        template.sha256))
    else .ok ()

theorem digestResult_ok_iff {configMapName : String} {d : Option String} :
    digestResult configMapName template d = .ok () ↔ d = some template.sha256 := by
  cases d with
  | none => exact ⟨nofun, nofun⟩
  | some digest =>
    unfold digestResult
    by_cases h : digest = template.sha256
    · simp [h]
    · simp [h]

theorem digestResult_mismatch {configMapName digest : String} (h : digest ≠ template.sha256) :
    digestResult configMapName template (some digest) =
      .error (.other ("chat template digest mismatch: got " ++ digest ++ ", want " ++
        template.sha256)) :=
  if_pos h

/-- Digests give results of their own. -/
theorem digestResult_injective (configMapName : String) (template : ChatTemplateSpec) :
    Function.Injective (digestResult configMapName template) := by
  intro d d' heq
  by_cases hd : digestResult configMapName template d = .ok ()
  · have hd' : digestResult configMapName template d' = .ok () := heq ▸ hd
    rw [digestResult_ok_iff.mp hd, digestResult_ok_iff.mp hd']
  have hd' : digestResult configMapName template d' ≠ .ok () := heq ▸ hd
  rw [Ne, digestResult_ok_iff] at hd'
  rw [digestResult_ok_iff] at hd
  cases d with
  | none =>
    cases d' with
    | none => rfl
    | some digest' =>
      rw [digestResult_mismatch fun h => hd' (congrArg some h)] at heq
      have htext := congrArg String.toList (Err.other.inj (Except.error.inj heq))
      simp [String.toList_append] at htext
  | some digest =>
    rw [digestResult_mismatch fun h => hd (congrArg some h)] at heq
    cases d' with
    | none =>
      have htext := congrArg String.toList (Err.other.inj (Except.error.inj heq))
      simp [String.toList_append] at htext
    | some digest' =>
      rw [digestResult_mismatch fun h => hd' (congrArg some h)] at heq
      have htext := congrArg String.toList (Err.other.inj (Except.error.inj heq))
      simp only [String.toList_append] at htext
      have hdigest := List.append_cancel_left
        (List.append_cancel_right (List.append_cancel_right htext))
      rw [String.toList_injective hdigest]

/-- What there is to find out about a template, from the ConfigMap it names. -/
def templateCheck (sha256Hex : String → String) (template : ChatTemplateSpec)
    (found : Option StoredConfigMap) : Except Err Unit :=
  if template.configMapName = "" ∨ template.configMapKey = "" then
    .error (.other "chatTemplate.configMapKeyRef.name and key are required")
  else if template.sha256.utf8ByteSize ≠ 64 then
    .error (.other "chatTemplate.sha256 must be a lowercase hexadecimal SHA-256 digest")
  else match found with
    | none => .error (.wrap ("get chat template ConfigMap " ++ quote template.configMapName)
        (.notFound ("configmaps " ++ quote template.configMapName ++ " not found")))
    | some configMap => digestResult configMap.name template
        ((configMap.data.lookup template.configMapKey).map sha256Hex)

theorem templateResult_eq (configMaps : String → Option StoredConfigMap) (model : LLMModel) :
    templateResult sha256Hex configMaps model =
      match model.spec.serving.chatTemplate with
      | none => .ok ()
      | some template => templateCheck sha256Hex template (configMaps template.configMapName) := by
  unfold templateResult asked validateChatTemplateBy
  cases model.spec.serving.chatTemplate with
  | none => rfl
  | some template =>
    unfold templateCheck
    dsimp only
    split
    · rfl
    split
    · rfl
    have hread : (getConfigMap template.configMapName).eval
        (fun (s : Unit) c => (configMapReads configMaps c, s)) () =
          (findConfigMap configMaps template.configMapName, ()) := rfl
    rw [eval_bind, hread]
    unfold findConfigMap
    cases configMaps template.configMapName with
    | none => rfl
    | some configMap =>
      dsimp only
      cases configMap.data.lookup template.configMapKey with
      | none => rfl
      | some content =>
        dsimp only [Option.map_some, digestResult]
        split <;> rfl

/-- A model that does not name any of the ConfigMaps that differ has the same result. -/
theorem templateResult_congr {configMaps configMaps' : String → Option StoredConfigMap}
    {model : LLMModel}
    (h : ∀ template, model.spec.serving.chatTemplate = some template →
      templateCheck sha256Hex template (configMaps template.configMapName) =
        templateCheck sha256Hex template (configMaps' template.configMapName)) :
    templateResult sha256Hex configMaps model = templateResult sha256Hex configMaps' model := by
  rw [templateResult_eq, templateResult_eq]
  cases htemplate : model.spec.serving.chatTemplate with
  | none => rfl
  | some template => exact h template htemplate

theorem mem_templateRequests {models : List LLMModel} {m : LLMModel} {obj : StoredConfigMap}
    (hm : m ∈ models) (htemplate : m.spec.serving.chatTemplate = some template)
    (hname : template.configMapName = obj.name) : m.name ∈ templateRequests models obj := by
  refine List.mem_map_of_mem (List.mem_filter.mpr ⟨hm, ?_⟩)
  simp [htemplate, hname]

end Template

/-! ### Wake-ups -/

/-- Whatever else is in the namespace, a model whose template changes its result with the event
is enqueued. -/
def WakesModels (sha256Hex : String → String) (e : WatchEvent StoredConfigMap) : Prop :=
  ∀ (rest : String → Option StoredConfigMap) (models : List LLMModel), ∀ m ∈ models,
    templateResult sha256Hex (configMapsBefore rest e) m ≠
        templateResult sha256Hex (configMapsAfter rest e) m →
      m.name ∈ e.enqueued (WatchEvent.generationChanged StoredConfigMap.generation)
        (templateRequests models)

/-- An update changes no digest. -/
def KeepsDigests (sha256Hex : String → String) : WatchEvent StoredConfigMap → Prop
  | .updated old new => ∀ key,
      (new.data.lookup key).map sha256Hex = (old.data.lookup key).map sha256Hex
  | _ => True

section Wakes

variable {sha256Hex : String → String}

/-- A ConfigMap that appears or vanishes reaches every model that names it. -/
theorem wakesModels_of_single {e : WatchEvent StoredConfigMap} {obj : StoredConfigMap}
    (hobjects : e.objects = [obj])
    (hpasses : e.generationChanged StoredConfigMap.generation = true)
    (hothers : ∀ rest name, name ≠ obj.name →
      configMapsBefore rest e name = configMapsAfter rest e name) : WakesModels sha256Hex e := by
  intro rest models m hm hresult
  by_contra hmissed
  refine hresult (templateResult_congr fun template htemplate => ?_)
  rw [hothers rest]
  intro hname
  refine hmissed ?_
  unfold WatchEvent.enqueued
  rw [if_pos hpasses, hobjects, List.flatMap_singleton]
  exact mem_templateRequests hm htemplate hname

theorem wakesModels_of_keepsDigests {old new : StoredConfigMap} (hname : new.name = old.name)
    (h : KeepsDigests sha256Hex (.updated old new)) :
    WakesModels sha256Hex (.updated old new) := by
  intro rest models m hm hresult
  refine absurd (templateResult_congr fun template htemplate => ?_) hresult
  show templateCheck _ _ (Function.update rest old.name (some old) _) =
    templateCheck _ _ (Function.update rest new.name (some new) _)
  rw [hname]
  by_cases hnamed : template.configMapName = old.name
  · rw [hnamed, Function.update_self, Function.update_self]
    unfold templateCheck
    dsimp only
    rw [hname, h]
  · rw [Function.update_of_ne hnamed, Function.update_of_ne hnamed]

/-- A digest of the right length. -/
def zeroDigest : String := String.ofList (List.replicate 64 '0')

theorem size_zeroDigest : zeroDigest.utf8ByteSize = 64 := by decide +kernel

/-- A model that takes its template from a key of a ConfigMap. -/
def templated (configMapName configMapKey : String) : LLMModel :=
  newModel "model" "model" (some ⟨configMapName, configMapKey, zeroDigest⟩)

theorem templateResult_templated {configMaps : String → Option StoredConfigMap}
    {configMap : StoredConfigMap} {key : String} (hkey : key ≠ "")
    (h : configMaps configMap.name = some configMap) :
    templateResult sha256Hex configMaps (templated configMap.name key) =
      digestResult configMap.name ⟨configMap.name, key, zeroDigest⟩
        ((configMap.data.lookup key).map sha256Hex) := by
  rw [templateResult_eq]
  show templateCheck sha256Hex ⟨configMap.name, key, zeroDigest⟩ (configMaps configMap.name) = _
  unfold templateCheck
  rw [if_neg (not_or.mpr ⟨configMap.named, hkey⟩), if_neg (not_not.mpr size_zeroDigest), h]

/-- A digest that changes with an update changes the result of a model that is not enqueued. -/
theorem not_wakesModels {old new : StoredConfigMap} (hname : new.name = old.name)
    (hgeneration : new.generation = old.generation) {key : String}
    (h : (new.data.lookup key).map sha256Hex ≠ (old.data.lookup key).map sha256Hex) :
    ¬ WakesModels sha256Hex (.updated old new) := by
  intro hwakes
  have hkey : key ≠ "" := by
    rintro rfl
    rw [new.keyed, old.keyed] at h
    exact h rfl
  have hbefore : configMapsBefore (fun _ => none) (.updated old new) old.name = some old := by
    show Function.update (fun _ : String => (none : Option StoredConfigMap)) _ _ _ = _
    rw [Function.update_self]
  have hafter : configMapsAfter (fun _ => none) (.updated old new) new.name = some new := by
    show Function.update (fun _ : String => (none : Option StoredConfigMap)) _ _ _ = _
    rw [Function.update_self]
  have hmem := hwakes (fun _ => none) [templated old.name key] _ (List.mem_singleton.mpr rfl) ?_
  · have hdropped : (WatchEvent.updated old new).generationChanged StoredConfigMap.generation =
        false := by
      simp [WatchEvent.generationChanged, hgeneration]
    simp [WatchEvent.enqueued, hdropped] at hmem
  · rw [templateResult_templated hkey hbefore, ← hname, templateResult_templated hkey hafter]
    intro heq
    exact h (digestResult_injective _ _ heq).symm

end Wakes

/-- A change of a ConfigMap wakes the models whose template it decides exactly when it is not an
update that changes the digest of a key. -/
theorem templates_wake_iff (sha256Hex : String → String) (e : WatchEvent StoredConfigMap)
    (hname : e.Keeps fun obj => obj.name) (hgeneration : e.Keeps StoredConfigMap.generation) :
    WakesModels sha256Hex e ↔ KeepsDigests sha256Hex e := by
  cases e with
  | created obj =>
    refine iff_of_true (wakesModels_of_single rfl rfl fun rest name hne => ?_) trivial
    exact (Function.update_of_ne hne ..).trans (Function.update_of_ne hne ..).symm
  | deleted obj =>
    refine iff_of_true (wakesModels_of_single rfl rfl fun rest name hne => ?_) trivial
    exact (Function.update_of_ne hne ..).trans (Function.update_of_ne hne ..).symm
  | updated old new =>
    refine ⟨fun hwakes key => ?_, wakesModels_of_keepsDigests hname⟩
    by_contra hchanged
    exact not_wakesModels hname hgeneration hchanged hwakes

/-- A ConfigMap with one template. -/
def templatesWith (content : String) : StoredConfigMap where
  name := "templates"
  data := Finmap.singleton "chat.jinja" content
  generation := 0
  named := by decide
  keyed := by
    rw [Finmap.lookup_eq_none, Finmap.mem_singleton]
    decide

theorem lookup_templatesWith (content : String) :
    (templatesWith content).data.lookup "chat.jinja" = some content :=
  Finmap.lookup_singleton_eq

theorem templates_wake_created :
    WakesModels (fun content => content) (.created (templatesWith "{{ messages }}")) :=
  (templates_wake_iff _ (.created (templatesWith "{{ messages }}")) trivial trivial).mpr
    trivial

/-- An edit of a template is not noticed. -/
theorem template_edit_unnoticed :
    ¬ WakesModels id (.updated (templatesWith "old") (templatesWith "new")) ∧
      WatchEvent.enqueued (WatchEvent.generationChanged StoredConfigMap.generation)
        (templateRequests [templated "templates" "chat.jinja"])
        (.updated (templatesWith "old") (templatesWith "new")) = [] := by
  have hchanged : ((templatesWith "new").data.lookup "chat.jinja").map id ≠
      ((templatesWith "old").data.lookup "chat.jinja").map id := by
    rw [lookup_templatesWith, lookup_templatesWith]
    decide
  exact ⟨not_wakesModels rfl rfl hchanged, rfl⟩

end LlmOperator.Controller
