import LlmOperator.Backend.Driver

/-!
# What the controllers make of a Deployment

The pure parts of `internal/controller`: the names of a backend's workload
(`backend_workload.go`), and how `LLMActiveModel` compares and rewrites the runtime
container of a Deployment (`activateDeployment`, `deploymentMatchesModel`,
`applyChatTemplate`, `chatTemplateMounted`). Reading and writing the Deployment is the
business of `Controller/ActiveModel.lean`.

A Deployment is written by merge patches. `DeploymentPatch.diff` is
`client.MergeFrom(base)` against the changed object, and `DeploymentPatch.apply` is what the
API server does with it.
-/

namespace LlmOperator.Controller

open Api Data Backend

/-! ## Names -/

def activeModelAnno : String := "llm.cogito.dev/active-model"

def switchedAtAnno : String := "llm.cogito.dev/switched-at"

def chatTemplateAnno : String := "llm.cogito.dev/chat-template-sha256"

def chatTemplateVolumeName : String := "llm-chat-template"

def chatTemplateMountDir : String := "/etc/llm-templates"

def chatTemplateMountFile : String := "chat-template.jinja"

section

variable (volumes : List Volume) (mounts : List VolumeMount) (backend : LLMBackend)
  (model : LLMModel)

def backendDeploymentName : String :=
  match backend.spec.workload with
  | some workload =>
    if workload.deployment.name ≠ "" then workload.deployment.name else backend.name
  | none => backend.spec.deploymentRef

def backendServiceName : String :=
  match backend.spec.workload with
  | some workload => if workload.service.name ≠ "" then workload.service.name else backend.name
  | none => backend.spec.serviceRef

def backendContainerName : String :=
  match backend.spec.workload with
  | some workload => workload.containerName
  | none => backend.spec.containerName

def backendPort : Nat :=
  match backend.spec.workload with
  | some workload => workload.service.port
  | none => backend.spec.port

/-! ## Containers -/

/-- The first container of that name, which is the one the loops of the source act on. -/
def findContainer (name : String) (containers : List Container) : Option Container :=
  containers.find? fun c => c.name == name

/-- Change the first container of that name. -/
def updateContainer (name : String) (f : Container → Container) : List Container → List Container
  | [] => []
  | c :: cs => if c.name == name then f c :: cs else c :: updateContainer name f cs

theorem findContainer_updateContainer {name : String} {f : Container → Container}
    {cs : List Container} {c : Container} (hf : (f c).name = c.name)
    (h : findContainer name cs = some c) :
    findContainer name (updateContainer name f cs) = some (f c) := by
  induction cs with
  | nil => simp [findContainer] at h
  | cons d ds ih =>
    unfold findContainer at h ih ⊢
    rw [List.find?_cons] at h
    cases hd : d.name == name with
    | true =>
      simp only [hd, Option.some.injEq] at h
      subst h
      have hfd : ((f d).name == name) = true := by rw [hf]; exact hd
      simp [updateContainer, hd, hfd]
    | false =>
      simp only [hd] at h
      simp only [updateContainer, hd, Bool.false_eq_true, if_false, List.find?_cons]
      exact ih h

/-- Only the container that is found matters for what an update does. -/
theorem updateContainer_congr {name : String} {f g : Container → Container} {cs : List Container}
    (h : ∀ c, findContainer name cs = some c → f c = g c) :
    updateContainer name f cs = updateContainer name g cs := by
  induction cs with
  | nil => rfl
  | cons d ds ih =>
    unfold findContainer at h ih
    cases hd : d.name == name with
    | true => simp [updateContainer, hd, h d (List.find?_cons_of_pos hd)]
    | false =>
      rw [List.find?_cons_of_neg (by rw [hd]; exact Bool.false_ne_true)] at h
      simp [updateContainer, hd, ih h]

theorem updateContainer_updateContainer {name : String} {f : Container → Container}
    (hf : ∀ c, (f c).name = c.name) (g : Container → Container) (cs : List Container) :
    updateContainer name g (updateContainer name f cs) =
      updateContainer name (fun c => g (f c)) cs := by
  induction cs with
  | nil => rfl
  | cons d ds ih => cases hd : d.name == name <;> simp [updateContainer, hd, hf, ih]

/-! ## Chat templates -/

/-- The reserved volume of a chat template. -/
def chatTemplateVolume (template : ChatTemplateSpec) : Volume where
  name := chatTemplateVolumeName
  source := .configMap template.configMapName
    [⟨template.configMapKey, chatTemplateMountFile⟩] none

/-- The reserved mount of a chat template. -/
def chatTemplateMount : VolumeMount where
  name := chatTemplateVolumeName
  mountPath := chatTemplateMountDir
  readOnly := true
  subPath := ""

/-- The controller-owned part of a ConfigMap volume: fields which Kubernetes may default
are not compared. -/
def volumeHolds (volume : Volume) (template : ChatTemplateSpec) : Bool :=
  match volume.source with
  | .configMap name [item] _ => name == template.configMapName &&
      item.key == template.configMapKey && item.path == chatTemplateMountFile
  | _ => false

/-- `chatTemplateMounted`. -/
def chatTemplateMounted : Option ChatTemplateSpec → Bool
  | none => (volumes.all fun v => v.name != chatTemplateVolumeName) &&
      mounts.all fun m => m.name != chatTemplateVolumeName
  | some template =>
    match volumes.filter fun v => v.name == chatTemplateVolumeName with
    | [volume] => volumeHolds volume template &&
        match mounts.find? fun m => m.name == chatTemplateVolumeName with
        | some mount => mount.mountPath == chatTemplateMountDir && mount.readOnly
        | none => false
    | _ => false

/-- `applyChatTemplate`. The source also returns whether the result differs from what it
was given. -/
def applyChatTemplate (template : Option ChatTemplateSpec) : List Volume × List VolumeMount :=
  if template.isSome ∧ chatTemplateMounted volumes mounts template then (volumes, mounts)
  else
    let volumes := volumes.filter fun v => v.name != chatTemplateVolumeName
    let mounts := mounts.filter fun m => m.name != chatTemplateVolumeName
    match template with
    | none => (volumes, mounts)
    | some template => (volumes ++ [chatTemplateVolume template], mounts ++ [chatTemplateMount])

theorem chatTemplateMounted_applyChatTemplate (template : Option ChatTemplateSpec) :
    chatTemplateMounted (applyChatTemplate volumes mounts template).1
      (applyChatTemplate volumes mounts template).2 template = true := by
  unfold applyChatTemplate
  split
  · rename_i h
    exact h.2
  · cases template with
    | none => simp [chatTemplateMounted]
    | some t =>
      have hnone : ∀ (vs : List Volume),
          (vs.filter fun v => v.name != chatTemplateVolumeName).filter
            (fun v => v.name == chatTemplateVolumeName) = [] := by
        intro vs
        simp
      have hmount : ∀ (ms : List VolumeMount),
          ((ms.filter fun m => m.name != chatTemplateVolumeName) ++ [chatTemplateMount]).find?
            (fun m => m.name == chatTemplateVolumeName) = some chatTemplateMount := by
        intro ms
        rw [List.find?_append, List.find?_eq_none.mpr (by simp)]
        simp [chatTemplateMount]
      simp only [chatTemplateMounted, List.filter_append, hnone, hmount]
      simp [chatTemplateVolume, chatTemplateMount, volumeHolds]

/-! ## Activation -/

/-- The digest of the model's chat template, empty when it has none. -/
def templateDigest : String :=
  match model.spec.serving.chatTemplate with
  | some template => template.sha256
  | none => ""

/-- A Go map lookup: the empty text for a missing key. -/
def annotation (annotations : FMap String String) (key : String) : String :=
  (annotations.lookup key).getD ""

/-- Whether `activateDeployment` rewrites the runtime container and its annotations. -/
def runtimeChanged (template : PodTemplateSpec) (c : Container) : Bool :=
  c.args != effectiveArgs model ||
    (template.annotations == ∅ ||
      annotation template.annotations activeModelAnno != model.spec.model.name) ||
    applyChatTemplate template.spec.volumes c.volumeMounts model.spec.serving.chatTemplate !=
      (template.spec.volumes, c.volumeMounts) ||
    annotation template.annotations chatTemplateAnno != templateDigest model

/-- The annotations of a Deployment switched to `model`. -/
def switchAnnotations (switchedAt : String) (annotations : FMap String String) :
    FMap String String :=
  let annotations := (annotations.insert activeModelAnno model.spec.model.name).insert
    switchedAtAnno switchedAt
  if templateDigest model = "" then annotations.erase chatTemplateAnno
  else annotations.insert chatTemplateAnno (templateDigest model)

/-- The Deployment `activateDeployment` asks for, from the one it has read and the runtime
container `c` in it. -/
def activated (switchedAt : String) (d : Deployment) (c : Container) : Deployment :=
  let template := d.spec.template
  let (volumes, mounts) :=
    applyChatTemplate template.spec.volumes c.volumeMounts model.spec.serving.chatTemplate
  let changed := runtimeChanged model template c
  { d with spec :=
    { d.spec with
      replicas := some 1
      template :=
        { template with
          annotations :=
            if changed then switchAnnotations model switchedAt template.annotations
            else template.annotations
          spec :=
            { template.spec with
              volumes := volumes
              containers := updateContainer c.name
                (fun c => { c with
                  volumeMounts := mounts
                  args := if changed then effectiveArgs model else c.args })
                template.spec.containers } } } }

/-- What `deploymentMatchesModel` compares, for the runtime container `c` of a Deployment
with this template. The number of replicas is not looked at. -/
def templateMatches (template : PodTemplateSpec) (c : Container) : Bool :=
  c.args == effectiveArgs model &&
    annotation template.annotations activeModelAnno == model.spec.model.name &&
    chatTemplateMounted template.spec.volumes c.volumeMounts model.spec.serving.chatTemplate &&
    annotation template.annotations chatTemplateAnno == templateDigest model

end

section Congruence

/-! Only the spec of the model matters for what is activated and compared. -/

variable {model model' : LLMModel} (h : model.spec = model'.spec)

include h

theorem templateDigest_congr : templateDigest model = templateDigest model' := by
  simp only [templateDigest, h]

theorem runtimeChanged_congr : runtimeChanged model = runtimeChanged model' := by
  funext template c
  simp only [runtimeChanged, effectiveArgs_congr h, templateDigest_congr h, h]

theorem templateMatches_congr : templateMatches model = templateMatches model' := by
  funext template c
  simp only [templateMatches, effectiveArgs_congr h, templateDigest_congr h, h]

theorem activated_congr : activated model = activated model' := by
  funext switchedAt d c
  have hswitch : switchAnnotations model switchedAt = switchAnnotations model' switchedAt := by
    funext annotations
    simp only [switchAnnotations, templateDigest_congr h, h]
  simp only [activated, runtimeChanged_congr h, hswitch, effectiveArgs_congr h, h]

end Congruence

/-! ## Patches -/

/-- A merge patch of a Deployment. Labels, annotations and selectors are objects, which are left
out when they are empty; the containers, the volumes and the owner references are arrays. -/
structure DeploymentPatch where
  labels : Option (FMap String (Option String))
  ownerReferences : Option (List String)
  replicas : Option (Option Int)
  selector : Option (FMap String (Option String))
  strategy : Option String
  other : FMap String (Option String)
  templateLabels : Option (FMap String (Option String))
  templateAnnotations : Option (FMap String (Option String))
  containers : Option (List Container)
  volumes : Option (List Volume)
  podOther : FMap String (Option String)

namespace DeploymentPatch

open MergePatch

/-- The patch `client.MergeFrom(base)` of a changed object. -/
def diff (base next : Deployment) : DeploymentPatch where
  labels := diffObject base.labels next.labels
  ownerReferences := diffLeaf base.ownerReferences next.ownerReferences
  replicas := diffLeaf base.spec.replicas next.spec.replicas
  selector := diffObject base.spec.selector next.spec.selector
  strategy := diffLeaf base.spec.strategy next.spec.strategy
  other := diffMap base.spec.other next.spec.other
  templateLabels := diffObject base.spec.template.labels next.spec.template.labels
  templateAnnotations := diffObject base.spec.template.annotations next.spec.template.annotations
  containers := diffLeaf base.spec.template.spec.containers next.spec.template.spec.containers
  volumes := diffLeaf base.spec.template.spec.volumes next.spec.template.spec.volumes
  podOther := diffMap base.spec.template.spec.other next.spec.template.spec.other

/-- The spec after a patch. -/
def applySpec (p : DeploymentPatch) (spec : DeploymentSpec) : DeploymentSpec where
  replicas := applyLeaf p.replicas spec.replicas
  selector := applyObject p.selector spec.selector
  strategy := applyLeaf p.strategy spec.strategy
  other := applyMap p.other spec.other
  template :=
    { labels := applyObject p.templateLabels spec.template.labels
      annotations := applyObject p.templateAnnotations spec.template.annotations
      spec :=
        { containers := applyLeaf p.containers spec.template.spec.containers
          volumes := applyLeaf p.volumes spec.template.spec.volumes
          other := applyMap p.podOther spec.template.spec.other } }

/-- The patch applied by the API server, which counts changes of the spec. -/
def apply (p : DeploymentPatch) (d : Deployment) : Deployment :=
  { d with
    labels := applyObject p.labels d.labels
    ownerReferences := applyLeaf p.ownerReferences d.ownerReferences
    spec := p.applySpec d.spec
    generation := if p.applySpec d.spec = d.spec then d.generation else d.generation + 1 }

variable (p : DeploymentPatch)

@[simp] theorem apply_spec (d : Deployment) : (p.apply d).spec = p.applySpec d.spec := rfl

/-- Nobody has written in between: the patch gives the object it was computed for. -/
@[simp] theorem applySpec_diff_self (base next : Deployment) :
    (diff base next).applySpec base.spec = next.spec := by
  simp only [applySpec, diff, applyLeaf_diffLeaf_self, applyMap_diffMap_self,
    applyObject_diffObject_self]

/-- A patch that asks for no change of the spec makes none. -/
theorem applySpec_diff_of_spec_eq {base next : Deployment} (h : base.spec = next.spec)
    (spec : DeploymentSpec) : (diff base next).applySpec spec = spec := by
  have hleaf : ∀ {α : Type} [DecidableEq α] (a b : α), applyLeaf (diffLeaf a a) b = b := by
    intro α _ a b
    rw [applyLeaf_diffLeaf, if_pos rfl]
  have hmap : ∀ a b : FMap String String, applyMap (diffMap a a) b = b := by
    intro a b
    apply Finmap.ext_lookup
    intro key
    rw [lookup_applyMap_diffMap, if_pos rfl]
  have hobject : ∀ a b : FMap String String, applyObject (diffObject a a) b = b := by
    intro a b
    rw [diffObject, if_neg fun h => h.1 h.2]
    exact hmap a b
  simp only [applySpec, diff, h, hleaf, hmap, hobject]

/-- The raw patch of `scaleDeployment`. -/
def scale (replicas : Int) : DeploymentPatch where
  labels := some ∅
  ownerReferences := none
  replicas := some (some replicas)
  selector := some ∅
  strategy := none
  other := ∅
  templateLabels := some ∅
  templateAnnotations := some ∅
  containers := none
  volumes := none
  podOther := ∅

theorem applyMap_empty (m : FMap String String) :
    applyMap (∅ : FMap String (Option String)) m = m := by
  apply Finmap.ext_lookup
  intro k
  rw [lookup_applyMap]
  rfl

/-- Scaling changes the number of replicas and nothing else in the spec. -/
theorem applySpec_scale (replicas : Int) (spec : DeploymentSpec) :
    (scale replicas).applySpec spec = { spec with replicas := some replicas } := by
  simp only [applySpec, scale, applyObject, applyMap_empty, applyLeaf, Option.getD_none,
    Option.getD_some]

end DeploymentPatch

end LlmOperator.Controller
