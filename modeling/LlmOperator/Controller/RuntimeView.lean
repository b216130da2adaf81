import LlmOperator.Controller.Deployments

/-!
# The operator's part of a Deployment

A Deployment of a backend has two writers. The pod template belongs to the backend; the
number of replicas, the arguments and the reserved mount of the runtime container, the
reserved volume and three annotations belong to the active model. `runtimeView` is that
second part.

`runtimeView_applySpec_diff` is the rule for merge patches: a patch made from an object with
the same view as the stored one leaves the view it was made for, whatever else the two
objects disagree on. `runs_activated` says that an activated Deployment runs the model, in the
sense of `deploymentMatchesModel`, and `runs_congr` that this is a matter of the view.
-/

namespace LlmOperator.Controller

open Api Data Backend

/-- The annotations the active model owns. -/
def operatorAnnos : List String := [activeModelAnno, switchedAtAnno, chatTemplateAnno]

/-- The reserved volumes among those of a pod. -/
def reservedVolumes (volumes : List Volume) : List Volume :=
  volumes.filter fun v => v.name == chatTemplateVolumeName

/-- The reserved mount of a container, the first one of that name. -/
def reservedMount (mounts : List VolumeMount) : Option VolumeMount :=
  mounts.find? fun m => m.name == chatTemplateVolumeName

theorem reservedVolumes_filter_append (volumes : List Volume) {v : Volume}
    (h : v.name = chatTemplateVolumeName) :
    reservedVolumes ((volumes.filter fun v => v.name != chatTemplateVolumeName) ++ [v]) = [v] := by
  simp [reservedVolumes, h]

theorem reservedMount_filter_append (mounts : List VolumeMount) {m : VolumeMount}
    (h : m.name = chatTemplateVolumeName) :
    reservedMount ((mounts.filter fun m => m.name != chatTemplateVolumeName) ++ [m]) = some m := by
  have hnone : (mounts.filter fun m => m.name != chatTemplateVolumeName).find?
      (fun m => m.name == chatTemplateVolumeName) = none := by
    rw [List.find?_eq_none]
    simp
  rw [reservedMount, List.find?_append, hnone, Option.none_or]
  simp [h]

/-- The operator's part of the runtime container. -/
structure RuntimeContainer where
  args : List String
  mount : Option VolumeMount
  deriving DecidableEq

structure RuntimeView where
  replicas : Option Int
  container : Option RuntimeContainer
  volumes : List Volume
  annotations : List (Option String)
  deriving DecidableEq

def runtimeContainer (containerName : String) (containers : List Container) :
    Option RuntimeContainer :=
  (findContainer containerName containers).map fun c => ⟨c.args, reservedMount c.volumeMounts⟩

theorem runtimeContainer_of_findContainer {containerName : String} {containers : List Container}
    {c : Container} (h : findContainer containerName containers = some c) :
    runtimeContainer containerName containers = some ⟨c.args, reservedMount c.volumeMounts⟩ := by
  rw [runtimeContainer, h, Option.map_some]

def viewAnnotations (annotations : FMap String String) : List (Option String) :=
  operatorAnnos.map fun key => annotations.lookup key

/-- The operator's part of a Deployment whose runtime container has that name. -/
def runtimeView (containerName : String) (spec : DeploymentSpec) : RuntimeView where
  replicas := spec.replicas
  container := runtimeContainer containerName spec.template.spec.containers
  volumes := reservedVolumes spec.template.spec.volumes
  annotations := viewAnnotations spec.template.annotations

theorem viewAnnotations_eq_iff {a b : FMap String String} :
    viewAnnotations a = viewAnnotations b ↔ ∀ key ∈ operatorAnnos, a.lookup key = b.lookup key :=
  List.map_inj_left

theorem runtimeView_eq_iff {containerName : String} {a b : DeploymentSpec} :
    runtimeView containerName a = runtimeView containerName b ↔
      a.replicas = b.replicas ∧
      runtimeContainer containerName a.template.spec.containers =
        runtimeContainer containerName b.template.spec.containers ∧
      reservedVolumes a.template.spec.volumes = reservedVolumes b.template.spec.volumes ∧
      ∀ key ∈ operatorAnnos,
        a.template.annotations.lookup key = b.template.annotations.lookup key := by
  rw [← viewAnnotations_eq_iff]
  simp only [runtimeView, RuntimeView.mk.injEq]

/-! ## Patches -/

section Patches

open MergePatch DeploymentPatch

variable {α β : Type}

/-- A patched leaf, seen through `f`, when the target looked like the base. -/
theorem apply_applyLeaf_diffLeaf [DecidableEq α] (f : α → β) {old new target : α}
    (h : f target = f old) : f (applyLeaf (diffLeaf old new) target) = f new := by
  rw [applyLeaf_diffLeaf]
  split
  · rename_i heq
    rw [h, heq]
  · rfl

theorem lookup_applyObject_diffObject_of_eq {old new target : FMap String String} {key : String}
    (h : target.lookup key = old.lookup key) :
    (applyObject (diffObject old new) target).lookup key = new.lookup key := by
  rw [lookup_applyObject_diffObject]
  split
  · rename_i hempty
    rw [hempty.2]
    rfl
  · split
    · rename_i heq
      rw [h, heq]
    · rfl

theorem runtimeView_applySpec_diff {containerName : String} {base next : Deployment}
    {current : DeploymentSpec}
    (h : runtimeView containerName current = runtimeView containerName base.spec) :
    runtimeView containerName ((diff base next).applySpec current) =
      runtimeView containerName next.spec := by
  obtain ⟨hreplicas, hcontainer, hvolumes, hannotations⟩ := runtimeView_eq_iff.mp h
  refine runtimeView_eq_iff.mpr ⟨?_, ?_, ?_, ?_⟩
  · exact apply_applyLeaf_diffLeaf id hreplicas
  · exact apply_applyLeaf_diffLeaf (runtimeContainer containerName) hcontainer
  · exact apply_applyLeaf_diffLeaf reservedVolumes hvolumes
  · intro key hkey
    exact lookup_applyObject_diffObject_of_eq (hannotations key hkey)

end Patches

section Overlap

/-! Two patches made from one object. The second one leaves of the first what it does not
itself change. -/

open MergePatch DeploymentPatch

variable {α β : Type}

theorem applyLeaf_diffLeaf_eq_target_iff [DecidableEq α] (f : α → β) (old new target : α) :
    f (applyLeaf (diffLeaf old new) target) = f target ↔ new = old ∨ f new = f target := by
  rw [applyLeaf_diffLeaf]
  split
  · rename_i heq
    exact ⟨fun _ => Or.inl heq.symm, fun _ => rfl⟩
  · rename_i hne
    exact ⟨Or.inr, fun h => h.resolve_left fun heq => hne heq.symm⟩

theorem lookup_applyObject_diffObject_eq_target_iff (old new target : FMap String String)
    (key : String) :
    (applyObject (diffObject old new) target).lookup key = target.lookup key ↔
      if old ≠ ∅ ∧ new = ∅ then target.lookup key = none
      else new.lookup key = old.lookup key ∨ new.lookup key = target.lookup key := by
  rw [lookup_applyObject_diffObject]
  split
  · exact eq_comm
  · split
    · rename_i heq
      exact ⟨fun _ => Or.inl heq.symm, fun _ => rfl⟩
    · rename_i hne
      exact ⟨Or.inr, fun h => h.resolve_left fun heq => hne heq.symm⟩

/-- A patch from `base` to `next` that does not undo `first`, which was itself made from
`base`: what it changes of the operator's part is already so. -/
structure Spares (containerName : String) (base next first : DeploymentSpec) : Prop where
  replicas : next.replicas = base.replicas ∨ next.replicas = first.replicas
  containers : next.template.spec.containers = base.template.spec.containers ∨
    runtimeContainer containerName next.template.spec.containers =
      runtimeContainer containerName first.template.spec.containers
  volumes : next.template.spec.volumes = base.template.spec.volumes ∨
    reservedVolumes next.template.spec.volumes = reservedVolumes first.template.spec.volumes
  annotations : ∀ key ∈ operatorAnnos,
    if base.template.annotations ≠ ∅ ∧ next.template.annotations = ∅ then
      first.template.annotations.lookup key = none
    else
      next.template.annotations.lookup key = base.template.annotations.lookup key ∨
        next.template.annotations.lookup key = first.template.annotations.lookup key

variable {containerName : String} {base next : Deployment} {first : DeploymentSpec}

theorem runtimeView_eq_first_iff :
    runtimeView containerName ((diff base next).applySpec first) = runtimeView containerName first ↔
      Spares containerName base.spec next.spec first := by
  rw [runtimeView_eq_iff]
  constructor
  · rintro ⟨hr, hc, hv, ha⟩
    exact ⟨(applyLeaf_diffLeaf_eq_target_iff id _ _ _).mp hr,
      (applyLeaf_diffLeaf_eq_target_iff (runtimeContainer containerName) _ _ _).mp hc,
      (applyLeaf_diffLeaf_eq_target_iff reservedVolumes _ _ _).mp hv,
      fun key hkey => (lookup_applyObject_diffObject_eq_target_iff _ _ _ _).mp (ha key hkey)⟩
  · intro h
    exact ⟨(applyLeaf_diffLeaf_eq_target_iff id _ _ _).mpr h.replicas,
      (applyLeaf_diffLeaf_eq_target_iff (runtimeContainer containerName) _ _ _).mpr h.containers,
      (applyLeaf_diffLeaf_eq_target_iff reservedVolumes _ _ _).mpr h.volumes,
      fun key hkey => (lookup_applyObject_diffObject_eq_target_iff _ _ _ _).mpr
        (h.annotations key hkey)⟩

end Overlap

/-! ## Running a model -/

/-- What `deploymentMatchesModel` answers about a Deployment with this spec. -/
def runs (model : LLMModel) (containerName : String) (spec : DeploymentSpec) : Bool :=
  match findContainer containerName spec.template.spec.containers with
  | some c => templateMatches model spec.template c
  | none => false

theorem runs_of_findContainer {model : LLMModel} {containerName : String} {spec : DeploymentSpec}
    {c : Container} (h : findContainer containerName spec.template.spec.containers = some c) :
    runs model containerName spec = templateMatches model spec.template c := by
  unfold runs
  rw [h]

theorem all_name_ne_eq (volumes : List Volume) :
    (volumes.all fun v => v.name != chatTemplateVolumeName) =
      (reservedVolumes volumes).isEmpty := by
  rw [Bool.eq_iff_iff]
  simp [reservedVolumes, List.filter_eq_nil_iff]

theorem all_mount_name_ne_eq (mounts : List VolumeMount) :
    (mounts.all fun m => m.name != chatTemplateVolumeName) = (reservedMount mounts).isNone := by
  rw [Bool.eq_iff_iff]
  simp [reservedMount]

/-- `chatTemplateMounted` looks at the reserved volumes and the reserved mount. -/
theorem chatTemplateMounted_congr {volumes volumes' : List Volume}
    {mounts mounts' : List VolumeMount}
    (hv : reservedVolumes volumes = reservedVolumes volumes')
    (hm : reservedMount mounts = reservedMount mounts') (template : Option ChatTemplateSpec) :
    chatTemplateMounted volumes mounts template =
      chatTemplateMounted volumes' mounts' template := by
  cases template with
  | none =>
    simp only [chatTemplateMounted, all_name_ne_eq, all_mount_name_ne_eq, hv, hm]
  | some t =>
    unfold reservedVolumes at hv
    unfold reservedMount at hm
    simp only [chatTemplateMounted, hv, hm]

/-- The reserved volume and the reserved mount come together. -/
inductive Coherent (containerName : String) (spec : DeploymentSpec) : Prop
  | mounted {c : Container} {v : Volume} {m : VolumeMount}
      (hc : findContainer containerName spec.template.spec.containers = some c)
      (hv : reservedVolumes spec.template.spec.volumes = [v])
      (hm : reservedMount c.volumeMounts = some m)
  | bare {c : Container}
      (hc : findContainer containerName spec.template.spec.containers = some c)
      (hv : reservedVolumes spec.template.spec.volumes = [])
      (hm : reservedMount c.volumeMounts = none)

theorem Coherent.mount_eq_none_iff {containerName : String} {spec : DeploymentSpec} {c : Container}
    (h : Coherent containerName spec)
    (hc : findContainer containerName spec.template.spec.containers = some c) :
    reservedMount c.volumeMounts = none ↔ reservedVolumes spec.template.spec.volumes = [] := by
  cases h with
  | mounted hc' hv hm =>
    cases hc.symm.trans hc'
    simp [hv, hm]
  | bare hc' hv hm =>
    cases hc.symm.trans hc'
    simp [hv, hm]

/-- The reserved volumes and the reserved mount that `applyChatTemplate` leaves. -/
theorem reserved_applyChatTemplate (volumes : List Volume) (mounts : List VolumeMount)
    (template : Option ChatTemplateSpec) :
    reservedVolumes (applyChatTemplate volumes mounts template).1 =
        (if chatTemplateMounted volumes mounts template then reservedVolumes volumes
          else (template.map chatTemplateVolume).toList) ∧
      reservedMount (applyChatTemplate volumes mounts template).2 =
        if chatTemplateMounted volumes mounts template then reservedMount mounts
        else template.map fun _ => chatTemplateMount := by
  cases template with
  | none =>
    have hempty : reservedVolumes (applyChatTemplate volumes mounts none).1 = [] ∧
        reservedMount (applyChatTemplate volumes mounts none).2 = none := by
      simp [applyChatTemplate, reservedVolumes, reservedMount]
    rw [hempty.1, hempty.2]
    split
    · rename_i h
      simp only [chatTemplateMounted, all_name_ne_eq, all_mount_name_ne_eq, Bool.and_eq_true,
        List.isEmpty_iff, Option.isNone_iff_eq_none] at h
      exact ⟨h.1.symm, h.2.symm⟩
    · exact ⟨rfl, rfl⟩
  | some t =>
    by_cases h : chatTemplateMounted volumes mounts (some t) = true
    · simp [applyChatTemplate, h]
    · simp only [applyChatTemplate, Option.isSome_some, h, and_false, Bool.false_eq_true, if_false]
      exact ⟨reservedVolumes_filter_append _ rfl, reservedMount_filter_append _ rfl⟩

section Together

variable {volumes : List Volume} {mounts : List VolumeMount}
  (h : reservedMount mounts = none ↔ reservedVolumes volumes = [])

include h

theorem chatTemplateMounted_none_iff :
    chatTemplateMounted volumes mounts none = true ↔ reservedVolumes volumes = [] := by
  simp only [chatTemplateMounted, all_name_ne_eq, all_mount_name_ne_eq, Bool.and_eq_true,
    List.isEmpty_iff, Option.isNone_iff_eq_none, h, and_self]

/-- When an activation leaves the reserved mount as it is. -/
theorem reservedMount_eq_applied_iff (template : Option ChatTemplateSpec) :
    reservedMount mounts = reservedMount (applyChatTemplate volumes mounts template).2 ↔
      chatTemplateMounted volumes mounts template = true ∨
        template.isSome ∧ reservedMount mounts = some chatTemplateMount := by
  rw [(reserved_applyChatTemplate volumes mounts template).2]
  by_cases hmounted : chatTemplateMounted volumes mounts template = true
  · simp [hmounted]
  · cases template with
    | none => simpa [hmounted, h] using mt (chatTemplateMounted_none_iff h).mpr hmounted
    | some t => simp [hmounted]

/-- When an activation leaves the reserved volumes as they are. -/
theorem reservedVolumes_eq_applied_iff (template : Option ChatTemplateSpec) :
    reservedVolumes volumes = reservedVolumes (applyChatTemplate volumes mounts template).1 ↔
      chatTemplateMounted volumes mounts template = true ∨
        ∃ t, template = some t ∧ reservedVolumes volumes = [chatTemplateVolume t] := by
  rw [(reserved_applyChatTemplate volumes mounts template).1]
  by_cases hmounted : chatTemplateMounted volumes mounts template = true
  · simp [hmounted]
  · cases template with
    | none => simpa [hmounted] using mt (chatTemplateMounted_none_iff h).mpr hmounted
    | some t => simp [hmounted]

end Together

theorem Coherent.of_runs {model : LLMModel} {containerName : String} {spec : DeploymentSpec}
    (h : runs model containerName spec = true) : Coherent containerName spec := by
  unfold runs at h
  split at h
  · rename_i c hc
    simp only [templateMatches, Bool.and_eq_true] at h
    have hmounted := h.1.2
    cases ht : model.spec.serving.chatTemplate with
    | none =>
      simp only [ht, chatTemplateMounted, all_name_ne_eq, all_mount_name_ne_eq, Bool.and_eq_true,
        List.isEmpty_iff, Option.isNone_iff_eq_none] at hmounted
      exact .bare hc hmounted.1 hmounted.2
    | some t =>
      rw [ht] at hmounted
      unfold chatTemplateMounted at hmounted
      dsimp only at hmounted
      split at hmounted
      · rename_i v hv
        rw [Bool.and_eq_true] at hmounted
        have hmount := hmounted.2
        split at hmount
        · rename_i m hm
          exact .mounted hc hv hm
        · cases hmount
      · cases hmounted
  · cases h

/-- Whether a Deployment runs a model is a matter of the operator's part of it. -/
theorem runs_congr {containerName : String} {spec spec' : DeploymentSpec} (model : LLMModel)
    (h : runtimeView containerName spec = runtimeView containerName spec') :
    runs model containerName spec = runs model containerName spec' := by
  obtain ⟨-, hcontainer, hvolumes, hannotations⟩ := runtimeView_eq_iff.mp h
  have hactive := hannotations activeModelAnno (by decide)
  have hdigest := hannotations chatTemplateAnno (by decide)
  unfold runtimeContainer at hcontainer
  unfold runs
  cases hc : findContainer containerName spec.template.spec.containers with
  | none =>
    rw [hc, Option.map_none, eq_comm, Option.map_eq_none_iff] at hcontainer
    rw [hcontainer]
  | some c =>
    rw [hc, Option.map_some, eq_comm, Option.map_eq_some_iff] at hcontainer
    obtain ⟨c', hc', heq⟩ := hcontainer
    obtain ⟨hargs, hmount⟩ := (RuntimeContainer.mk.injEq ..).mp heq
    rw [hc']
    simp only [templateMatches, annotation, hargs, hactive, hdigest,
      chatTemplateMounted_congr hvolumes hmount.symm]

/-! ## Activation -/

section Activation

variable {model : LLMModel} {switchedAt containerName : String} {d : Deployment} {c : Container}

theorem findContainer_name {containers : List Container}
    (h : findContainer containerName containers = some c) : c.name = containerName := by
  simpa using List.find?_some h

/-- The runtime container of an activated Deployment. -/
theorem findContainer_activated
    (h : findContainer containerName d.spec.template.spec.containers = some c) :
    findContainer containerName (activated model switchedAt d c).spec.template.spec.containers =
      some { c with
        volumeMounts := (applyChatTemplate d.spec.template.spec.volumes c.volumeMounts
          model.spec.serving.chatTemplate).2
        args :=
          if runtimeChanged model d.spec.template c then effectiveArgs model else c.args } := by
  have hname := findContainer_name h
  subst hname
  exact findContainer_updateContainer rfl h

theorem annotation_switchAnnotations_active (annotations : FMap String String) :
    annotation (switchAnnotations model switchedAt annotations) activeModelAnno =
      model.spec.model.name := by
  have hswitched : activeModelAnno ≠ switchedAtAnno := by decide
  have hdigest : activeModelAnno ≠ chatTemplateAnno := by decide
  unfold annotation switchAnnotations
  dsimp only
  split
  · rw [Finmap.lookup_erase_ne hdigest, Finmap.lookup_insert_of_ne _ hswitched,
      Finmap.lookup_insert, Option.getD_some]
  · rw [Finmap.lookup_insert_of_ne _ hdigest, Finmap.lookup_insert_of_ne _ hswitched,
      Finmap.lookup_insert, Option.getD_some]

theorem annotation_switchAnnotations_digest (annotations : FMap String String) :
    annotation (switchAnnotations model switchedAt annotations) chatTemplateAnno =
      templateDigest model := by
  unfold annotation switchAnnotations
  dsimp only
  split
  · rename_i h
    rw [Finmap.lookup_erase, h, Option.getD_none]
  · rw [Finmap.lookup_insert, Option.getD_some]

/-- Without a change the container and the annotations were already those of the model. -/
theorem of_runtimeChanged_eq_false {template : PodTemplateSpec}
    (h : runtimeChanged model template c = false) :
    c.args = effectiveArgs model ∧
      annotation template.annotations activeModelAnno = model.spec.model.name ∧
      annotation template.annotations chatTemplateAnno = templateDigest model := by
  simp only [runtimeChanged, Bool.or_eq_false_iff, bne_eq_false_iff_eq] at h
  exact ⟨h.1.1.1, h.1.1.2.2, h.2⟩

theorem runs_activated
    (h : findContainer containerName d.spec.template.spec.containers = some c) :
    runs model containerName (activated model switchedAt d c).spec = true := by
  rw [runs_of_findContainer (findContainer_activated h)]
  have hmounted := chatTemplateMounted_applyChatTemplate d.spec.template.spec.volumes c.volumeMounts
    model.spec.serving.chatTemplate
  cases hchanged : runtimeChanged model d.spec.template c with
  | true =>
    simp only [templateMatches, activated, hchanged, hmounted, if_true,
      annotation_switchAnnotations_active, annotation_switchAnnotations_digest, beq_self_eq_true,
      Bool.and_self]
  | false =>
    obtain ⟨hargs, hactive, hdigest⟩ := of_runtimeChanged_eq_false hchanged
    simp only [templateMatches, activated, hchanged, hmounted, Bool.false_eq_true, if_false,
      hargs, hactive, hdigest, beq_self_eq_true, Bool.and_self]

end Activation

end LlmOperator.Controller
