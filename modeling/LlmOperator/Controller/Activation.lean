import LlmOperator.Controller.Cluster
import LlmOperator.Controller.RuntimeView

/-!
# Activation and matching agree

`activateDeployment` edits the pod template and compares before and after;
`deploymentMatchesModel` inspects the fields and passes over what the API server may have
defaulted. Here both run against an API server that stores one Deployment and is written by
nobody else: what the one leaves the other accepts, and what the other accepts the one leaves
alone, apart from the number of replicas.

`Framed` is the rest of the Deployment, which an activation does not touch.
-/

namespace LlmOperator.Controller

open Api Data Backend Interaction

/-! ## A Deployment by itself -/

/-- An API server that stores this Deployment and answers every call. -/
def soleDeployment (d : Deployment) : (c : Call) → c.Answer → Deployment → Prop
  | .getDeployment name, .ok stored, d' => name = d.name ∧ stored = d ∧ d' = d
  | .getDeployment name, .error _, d' => name ≠ d.name ∧ d' = d
  | .patchDeployment base next, .ok (), d' => d' = (DeploymentPatch.diff base next).apply d
  | .patchDeployment _ _, .error _, _ => False
  | _, _, d' => d' = d

/-- The Deployment after an activation at a moment written `switchedAt`. -/
def afterActivation (model : LLMModel) (switchedAt : String) (d : Deployment) (c : Container) :
    Deployment :=
  (DeploymentPatch.diff d (activated model switchedAt d c)).apply d

section Running

variable {r : LLMActiveModelReconciler} {model : LLMModel} {backend : LLMBackend}
  {d d' : Deployment} {c : Container}

/-- A patch that changes nothing in the spec leaves an activated Deployment as it is. -/
theorem afterActivation_of_spec_eq {switchedAt : String}
    (h : d.spec = (activated model switchedAt d c).spec) :
    afterActivation model switchedAt d c = d := by
  have hnext : activated model switchedAt d c = d :=
    calc activated model switchedAt d c =
        { d with spec := (activated model switchedAt d c).spec } :=
          rfl
      _ = d := by rw [← h]
  have hleaf : MergePatch.applyLeaf (MergePatch.diffLeaf d.ownerReferences d.ownerReferences)
      d.ownerReferences = d.ownerReferences := MergePatch.applyLeaf_diffLeaf_self ..
  simp only [afterActivation, hnext, DeploymentPatch.apply, DeploymentPatch.applySpec_diff_self,
    if_true]
  simp only [DeploymentPatch.diff, MergePatch.applyObject_diffObject_self, hleaf]

theorem ends_getDeployment {α : Type} {k : Except Err Deployment → Go α} {a : α} {name : String}
    (hname : name = d.name) :
    (getDeployment name >>= k).Ends soleDeployment d a d' ↔
      (k (.ok d)).Ends soleDeployment d a d' := by
  constructor
  · rintro ⟨x, s₁, hx, hk⟩
    cases x with
    | ok stored =>
      obtain ⟨-, rfl, rfl⟩ := hx
      exact hk
    | error e => exact absurd hname hx.1
  · intro hk
    exact ⟨.ok d, d, ⟨hname, rfl, rfl⟩, hk⟩

section

variable (hname : backendDeploymentName backend = d.name)
  (hc : findContainer (backendContainerName backend) d.spec.template.spec.containers = some c)
include hname hc

/-- What `activateDeployment` does: it ends well, and the Deployment is activated. -/
theorem ends_activateDeployment {res : Except Err Unit} :
    (activateDeployment r model backend).Ends soleDeployment d res d' ↔
      res = .ok () ∧ ∃ switchedAt, (runtimeChanged model d.spec.template c = true →
        ∃ t, switchedAt = r.rfc3339Nano t) ∧ (runtimeChanged model d.spec.template c = false →
          switchedAt = "") ∧ d' = afterActivation model switchedAt d c := by
  have hpatch : ∀ switchedAt, (if d.spec = (activated model switchedAt d c).spec then
      (pure (.ok ()) : Go (Except Err Unit)) else
        patchDeployment d (activated model switchedAt d c)).Ends soleDeployment d res d' ↔
      res = .ok () ∧ d' = afterActivation model switchedAt d c := by
    intro switchedAt
    split
    · rename_i hspec
      rw [afterActivation_of_spec_eq hspec]
      exact Iff.rfl
    · constructor
      · rintro ⟨x, s₁, hx, rfl, rfl⟩
        cases res with
        | ok u => exact ⟨rfl, hx⟩
        | error e => exact hx.elim
      · rintro ⟨rfl, rfl⟩
        exact ⟨.ok (), _, rfl, rfl, rfl⟩
  unfold activateDeployment
  rw [ends_getDeployment hname]
  simp only [hc]
  cases hchanged : runtimeChanged model d.spec.template c with
  | true =>
    constructor
    · rintro ⟨t, s₁, rfl, h⟩
      obtain ⟨hres, hd'⟩ := (hpatch _).mp h
      exact ⟨hres, _, fun _ => ⟨t, rfl⟩, nofun, hd'⟩
    · rintro ⟨hres, switchedAt, hswitched, -, hd'⟩
      obtain ⟨t, rfl⟩ := hswitched rfl
      exact ⟨t, d, rfl, (hpatch _).mpr ⟨hres, hd'⟩⟩
  | false =>
    constructor
    · intro h
      obtain ⟨hres, hd'⟩ := (hpatch "").mp h
      exact ⟨hres, "", nofun, fun _ => rfl, hd'⟩
    · rintro ⟨hres, switchedAt, -, hswitched, hd'⟩
      exact (hpatch "").mpr ⟨hres, hswitched rfl ▸ hd'⟩

/-- What `deploymentMatchesModel` answers. -/
theorem ends_deploymentMatchesModel {res : Except Err Bool} :
    (deploymentMatchesModel model backend).Ends soleDeployment d res d' ↔
      res = .ok (runs model (backendContainerName backend) d.spec) ∧ d' = d := by
  unfold deploymentMatchesModel
  rw [ends_getDeployment hname, runs_of_findContainer hc]
  simp only [hc]
  exact Iff.rfl

end

end Running

/-! ## What an activation leaves alone -/

section

variable (volumes : List Volume) (mounts : List VolumeMount)

/-- The volumes that are not reserved, in their order. -/
def ownVolumes : List Volume :=
  volumes.filter fun v => v.name != chatTemplateVolumeName

/-- The mounts that are not reserved, in their order. -/
def ownMounts : List VolumeMount :=
  mounts.filter fun m => m.name != chatTemplateVolumeName

/-- Two containers that differ in their arguments and the reserved mounts at most. -/
structure SameContainer (c c' : Container) : Prop where
  name : c'.name = c.name
  env : c'.env = c.env
  mounts : ownMounts c'.volumeMounts = ownMounts c.volumeMounts
  other : c'.other = c.other

/-- Nothing but the first container of that name differs, and that one only in what the
operator owns. -/
def OtherContainersSame (containerName : String) (cs cs' : List Container) : Prop :=
  ∃ front c c' back, cs = front ++ c :: back ∧ cs' = front ++ c' :: back ∧
    (∀ x ∈ front, x.name ≠ containerName) ∧ c.name = containerName ∧ SameContainer c c'

/-- `d'` is `d` with another operator's part: the replicas, the reserved volumes, the
arguments and reserved mounts of the runtime container, and the three annotations. -/
structure Framed (containerName : String) (d d' : Deployment) : Prop where
  name : d'.name = d.name
  labels : d'.labels = d.labels
  ownerReferences : d'.ownerReferences = d.ownerReferences
  status : d'.status = d.status
  selector : d'.spec.selector = d.spec.selector
  strategy : d'.spec.strategy = d.spec.strategy
  other : d'.spec.other = d.spec.other
  templateLabels : d'.spec.template.labels = d.spec.template.labels
  podOther : d'.spec.template.spec.other = d.spec.template.spec.other
  annotations : ∀ key, key ∉ operatorAnnos →
    d'.spec.template.annotations.lookup key = d.spec.template.annotations.lookup key
  volumes : ownVolumes d'.spec.template.spec.volumes = ownVolumes d.spec.template.spec.volumes
  containers : OtherContainersSame containerName d.spec.template.spec.containers
    d'.spec.template.spec.containers

theorem ownVolumes_applyChatTemplate (template : Option ChatTemplateSpec) :
    ownVolumes (applyChatTemplate volumes mounts template).1 = ownVolumes volumes := by
  unfold applyChatTemplate
  split
  · rfl
  · cases template with
    | none => simp [ownVolumes]
    | some t => simp [ownVolumes, chatTemplateVolume]

theorem ownMounts_applyChatTemplate (template : Option ChatTemplateSpec) :
    ownMounts (applyChatTemplate volumes mounts template).2 = ownMounts mounts := by
  unfold applyChatTemplate
  split
  · rfl
  · cases template with
    | none => simp [ownMounts]
    | some t => simp [ownMounts, chatTemplateMount]

end

theorem lookup_switchAnnotations {model : LLMModel} {switchedAt key : String}
    (h : key ∉ operatorAnnos) (annotations : FMap String String) :
    (switchAnnotations model switchedAt annotations).lookup key = annotations.lookup key := by
  simp only [operatorAnnos, List.mem_cons, List.not_mem_nil, or_false, not_or] at h
  obtain ⟨hactive, hswitched, hdigest⟩ := h
  unfold switchAnnotations
  dsimp only
  split
  · rw [Finmap.lookup_erase_ne hdigest, Finmap.lookup_insert_of_ne _ hswitched,
      Finmap.lookup_insert_of_ne _ hactive]
  · rw [Finmap.lookup_insert_of_ne _ hdigest, Finmap.lookup_insert_of_ne _ hswitched,
      Finmap.lookup_insert_of_ne _ hactive]

/-- Where the first container of that name stands, and what changing it does. -/
theorem exists_split_of_findContainer {name : String} {cs : List Container} {c : Container}
    (h : findContainer name cs = some c) :
    ∃ front back, cs = front ++ c :: back ∧ (∀ x ∈ front, x.name ≠ name) ∧
      ∀ f, updateContainer name f cs = front ++ f c :: back := by
  induction cs with
  | nil => cases h
  | cons x xs ih =>
    unfold findContainer at h
    rw [List.find?_cons] at h
    cases hx : x.name == name with
    | true =>
      rw [hx] at h
      cases h
      exact ⟨[], xs, rfl, nofun, fun f => by simp [updateContainer, hx]⟩
    | false =>
      rw [hx] at h
      obtain ⟨front, back, rfl, hfront, hupdate⟩ := ih h
      refine ⟨x :: front, back, rfl, ?_, ?_⟩
      · exact List.forall_mem_cons.mpr ⟨by simpa using hx, hfront⟩
      · intro f
        simp [updateContainer, hx, hupdate]

theorem otherContainersSame_updateContainer {name : String} {cs : List Container} {c : Container}
    (h : findContainer name cs = some c) {f : Container → Container} (hf : SameContainer c (f c)) :
    OtherContainersSame name cs (updateContainer name f cs) := by
  obtain ⟨front, back, hcs, hfront, hupdate⟩ := exists_split_of_findContainer h
  exact ⟨front, c, f c, back, hcs, hupdate f, hfront, findContainer_name h, hf⟩

section Activation

variable {model : LLMModel} {switchedAt containerName : String} {d : Deployment} {c : Container}

@[simp] theorem spec_afterActivation :
    (afterActivation model switchedAt d c).spec = (activated model switchedAt d c).spec := by
  rw [afterActivation, DeploymentPatch.apply_spec, DeploymentPatch.applySpec_diff_self]

theorem framed_afterActivation
    (hc : findContainer containerName d.spec.template.spec.containers = some c) :
    Framed containerName d (afterActivation model switchedAt d c) where
  name := rfl
  labels := MergePatch.applyObject_diffObject_self d.labels d.labels
  ownerReferences := MergePatch.applyLeaf_diffLeaf_self d.ownerReferences d.ownerReferences
  status := rfl
  selector := by rw [spec_afterActivation]; rfl
  strategy := by rw [spec_afterActivation]; rfl
  other := by rw [spec_afterActivation]; rfl
  templateLabels := by rw [spec_afterActivation]; rfl
  podOther := by rw [spec_afterActivation]; rfl
  annotations key hkey := by
    rw [spec_afterActivation]
    show (if runtimeChanged model d.spec.template c then _ else _ : FMap String String).lookup
      key = _
    split
    · exact lookup_switchAnnotations hkey _
    · rfl
  volumes := by
    rw [spec_afterActivation]
    exact ownVolumes_applyChatTemplate _ _ _
  containers := by
    rw [spec_afterActivation]
    have hname := findContainer_name hc
    subst hname
    exact otherContainersSame_updateContainer hc ⟨rfl, rfl, ownMounts_applyChatTemplate _ _ _, rfl⟩

/-- A template that is in place stays as it is. -/
theorem applyChatTemplate_of_mounted {volumes : List Volume} {mounts : List VolumeMount}
    {template : Option ChatTemplateSpec} (h : chatTemplateMounted volumes mounts template = true) :
    applyChatTemplate volumes mounts template = (volumes, mounts) := by
  unfold applyChatTemplate
  split
  · rfl
  · rename_i hnot
    cases template with
    | some t => exact absurd ⟨rfl, h⟩ hnot
    | none =>
      simp only [chatTemplateMounted, Bool.and_eq_true, List.all_eq_true] at h
      simp only [List.filter_eq_self.mpr h.1, List.filter_eq_self.mpr h.2]

/-- Where the model is already in place, nothing is switched. -/
theorem runtimeChanged_of_templateMatches (hmodel : model.spec.model.name ≠ "")
    (h : templateMatches model d.spec.template c = true) :
    runtimeChanged model d.spec.template c = false := by
  simp only [templateMatches, Bool.and_eq_true, beq_iff_eq] at h
  obtain ⟨⟨⟨hargs, hactive⟩, hmounted⟩, hdigest⟩ := h
  have hannotations : d.spec.template.annotations ≠ ∅ := by
    intro hempty
    rw [hempty] at hactive
    exact hmodel hactive.symm
  simp only [runtimeChanged, hargs, hactive, hdigest, applyChatTemplate_of_mounted hmounted,
    bne_self_eq_false, beq_eq_false_iff_ne.mpr hannotations, Bool.or_self]

section

variable (hmodel : model.spec.model.name ≠ "")
  (hc : findContainer containerName d.spec.template.spec.containers = some c)
include hmodel hc

/-- Where the model is already in place, only the number of replicas is set. -/
theorem spec_activated_of_runs (h : runs model containerName d.spec = true) :
    (activated model switchedAt d c).spec = { d.spec with replicas := some 1 } := by
  rw [runs_of_findContainer hc] at h
  have hchanged := runtimeChanged_of_templateMatches hmodel h
  have hmounted : chatTemplateMounted d.spec.template.spec.volumes c.volumeMounts
      model.spec.serving.chatTemplate = true := by
    simp only [templateMatches, Bool.and_eq_true] at h
    exact h.1.2
  have hcontainers : ∀ f : Container → Container, f c = c →
      updateContainer c.name f d.spec.template.spec.containers =
        d.spec.template.spec.containers := by
    intro f hf
    have hname := findContainer_name hc
    subst hname
    obtain ⟨front, back, hcs, -, hupdate⟩ := exists_split_of_findContainer hc
    rw [hupdate f, hf, hcs]
  simp only [activated, hchanged, applyChatTemplate_of_mounted hmounted, Bool.false_eq_true,
    if_false]
  rw [hcontainers _ rfl]

/-- An activation of an activated Deployment changes nothing. -/
theorem afterActivation_idem (hruns : runs model containerName d.spec = true)
    (hreplicas : d.spec.replicas = some 1) : afterActivation model switchedAt d c = d := by
  refine afterActivation_of_spec_eq ?_
  rw [spec_activated_of_runs hmodel hc hruns, ← hreplicas]

end

end Activation

/-- **Activation and matching agree.** For a Deployment `d` of the backend with its runtime
container, activating a model that has a name ends well, and however it ends:

* the result is one replica that runs the model, and the rest of `d` is left alone;
* a second activation changes nothing, whenever it is made;
* if `d` did run the model, at most the number of replicas is changed. -/
theorem activation_agrees (r : LLMActiveModelReconciler) (model : LLMModel) (backend : LLMBackend)
    (d : Deployment) (hname : backendDeploymentName backend = d.name)
    (hmodel : model.spec.model.name ≠ "")
    (hcontainer : ∃ c, findContainer (backendContainerName backend)
      d.spec.template.spec.containers = some c) :
    (∃ d', (activateDeployment r model backend).Ends soleDeployment d (.ok ()) d') ∧
    ∀ res d', (activateDeployment r model backend).Ends soleDeployment d res d' →
      res = .ok () ∧
      (∀ answer d'', (deploymentMatchesModel model backend).Ends soleDeployment d' answer d'' →
        answer = .ok true) ∧
      d'.spec.replicas = some 1 ∧
      (∀ res d'', (activateDeployment r model backend).Ends soleDeployment d' res d'' →
        res = .ok () ∧ d'' = d') ∧
      ((deploymentMatchesModel model backend).Ends soleDeployment d (.ok true) d →
        d'.spec = { d.spec with replicas := some 1 }) ∧
      Framed (backendContainerName backend) d d' := by
  obtain ⟨c, hc⟩ := hcontainer
  refine ⟨?_, ?_⟩
  · refine ⟨afterActivation model (if runtimeChanged model d.spec.template c then
      r.rfc3339Nano 0 else "") d c, (ends_activateDeployment hname hc).mpr ⟨rfl, _, ?_, ?_, rfl⟩⟩
    · intro hchanged
      exact ⟨0, if_pos hchanged⟩
    · intro hchanged
      rw [hchanged]
      rfl
  intro res d' hends
  obtain ⟨hres, switchedAt, -, -, rfl⟩ := (ends_activateDeployment hname hc).mp hends
  -- the activated Deployment has the runtime container too, and runs the model
  have hname' : backendDeploymentName backend = (afterActivation model switchedAt d c).name := hname
  obtain ⟨c', hc'⟩ : ∃ c', findContainer (backendContainerName backend)
      (afterActivation model switchedAt d c).spec.template.spec.containers = some c' := by
    rw [spec_afterActivation]
    exact ⟨_, findContainer_activated hc⟩
  have hruns : runs model (backendContainerName backend)
      (afterActivation model switchedAt d c).spec = true := by
    rw [spec_afterActivation]
    exact runs_activated hc
  have hreplicas : (afterActivation model switchedAt d c).spec.replicas = some 1 := by
    rw [spec_afterActivation]
    rfl
  refine ⟨hres, ?_, hreplicas, ?_, ?_, framed_afterActivation hc⟩
  · intro answer d'' hanswer
    rw [((ends_deploymentMatchesModel hname' hc').mp hanswer).1, hruns]
  · intro res' d'' hends'
    obtain ⟨hres', switchedAt', -, -, rfl⟩ := (ends_activateDeployment hname' hc').mp hends'
    exact ⟨hres', afterActivation_idem hmodel hc' hruns hreplicas⟩
  · intro hmatches
    have hd : runs model (backendContainerName backend) d.spec = true := by
      have := ((ends_deploymentMatchesModel hname hc).mp hmatches).1
      exact (Except.ok.inj this).symm
    rw [spec_afterActivation, spec_activated_of_runs hmodel hc hd]

/-- The Deployment of one model, scaled down, switched to another one. -/
theorem activation_agrees_switch :
    ∃ d', (activateDeployment Demo.reconciler (Demo.model "b" false) (Demo.backend "a")).Ends
        soleDeployment (Demo.deployment "a" 0) (.ok ()) d' ∧
      d'.spec.replicas = some 1 ∧ Framed "runtime" (Demo.deployment "a" 0) d' := by
  obtain ⟨⟨d', hends⟩, hall⟩ := activation_agrees Demo.reconciler (Demo.model "b" false)
    (Demo.backend "a") (Demo.deployment "a" 0) rfl (by decide) ⟨_, rfl⟩
  obtain ⟨-, -, hreplicas, -, -, hframed⟩ := hall _ d' hends
  exact ⟨d', hends, hreplicas, hframed⟩

end LlmOperator.Controller
