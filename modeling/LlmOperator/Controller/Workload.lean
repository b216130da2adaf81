import LlmOperator.Controller.RuntimeView

/-!
# Two writers of one Deployment

`internal/controller/backend_workload.go`: what `ensureBackendWorkload` makes of the
generated Deployment of a backend, and its race with `activateDeployment`. Both read the
Deployment, compute the object they want and send the merge patch from what they have read;
neither patch has a precondition.

The pod template belongs to the backend, and `preserveTransitionRuntime` carries the
operator's part over from the Deployment that was read. When that read is older than an
activation, the arrays of the patch carry the old part: `activation_lost` is such a race.
`activation_kept_iff` says for every order of the four steps which races keep the activation, in
terms of the Deployment they start from, the model and the declared pod template.
-/

namespace LlmOperator.Controller

open Api Data Data.GoString Backend

/-- `LLMBackendReconciler`, with `controllerutil.SetControllerReference` on the owner
references of an object, whether there is an HTTP client, and `time.Parse(time.RFC3339Nano, _)`
where it succeeds. -/
structure LLMBackendReconciler where
  setControllerReference : BackendMeta → List String → Except Err (List String)
  hasHTTPClient : Bool
  parseRFC3339Nano : String → Option Time

def backendLabel : String := "llm.cogito.dev/backend"

section

variable (current desired : PodTemplateSpec) (backend : LLMBackend) (workload : BackendWorkloadSpec)

def backendLabels : FMap String String :=
  Finmap.singleton backendLabel backend.name

def mergeLabels (existing required : FMap String String) : FMap String String :=
  required ∪ existing

def hasContainer (containers : List Container) (name : String) : Bool :=
  containers.any fun c => c.name == name

/-! ## Carrying the operator's part over -/

/-- `preserveChatTemplateMount`: the reserved volume and mount, when both are there. -/
def preserveChatTemplateMount (currentRuntime : Container) (containerName : String) :
    PodTemplateSpec :=
  match current.spec.volumes.find? fun v => v.name == chatTemplateVolumeName,
      currentRuntime.volumeMounts.find? fun m => m.name == chatTemplateVolumeName with
  | some currentVolume, some currentMount =>
    { desired with spec :=
      { desired.spec with
        volumes := (desired.spec.volumes.filter fun v => v.name != chatTemplateVolumeName) ++
          [currentVolume]
        containers := updateContainer containerName
          (fun c => { c with
            volumeMounts := (c.volumeMounts.filter fun m => m.name != chatTemplateVolumeName) ++
              [currentMount] })
          desired.spec.containers } }
  | _, _ => desired

/-- The runtime container with the arguments it has in the Deployment, and the reserved
volume and mount. -/
def preserveRuntime (containerName : String) : PodTemplateSpec :=
  match findContainer containerName desired.spec.containers,
      findContainer containerName current.spec.containers with
  | some _, some currentRuntime =>
    preserveChatTemplateMount current
      { desired with spec :=
        { desired.spec with
          containers := updateContainer containerName
            (fun c => { c with args := currentRuntime.args }) desired.spec.containers } }
      currentRuntime containerName
  | _, _ => desired

/-- The value of `key` in `current`, if it has one, put into `desired`. -/
def copyAnno (current desired : FMap String String) (key : String) : FMap String String :=
  match current.lookup key with
  | some value => desired.insert key value
  | none => desired

/-- `preserveTransitionRuntime`. -/
def preserveTransitionRuntime (containerName : String) : PodTemplateSpec :=
  { preserveRuntime current desired containerName with
    annotations := operatorAnnos.foldl (copyAnno current.annotations) desired.annotations }

/-! ## The generated Deployment -/

/-- What `ensureBackendWorkload` sends to the API server for the Deployment. -/
inductive DeploymentWrite where
  | nothing
  | create (d : Deployment)
  | patch (base next : Deployment)

/-- The checks in front of any write. -/
def checkWorkload : Except Err Unit :=
  if workload.containerName = "" ∨ workload.service.port = 0 then
    .error (.other "workload.containerName and workload.service.port are required")
  else if !hasContainer workload.deployment.podTemplate.spec.containers workload.containerName then
    .error (.other ("workload.containerName " ++ quote workload.containerName ++
      " is not present in workload.deployment.podTemplate"))
  else .ok ()

/-- The declared pod template, labelled. -/
def declaredTemplate : PodTemplateSpec :=
  { workload.deployment.podTemplate with
    labels := mergeLabels workload.deployment.podTemplate.labels (backendLabels backend) }

/-- The Deployment asked for, without its owner, when one exists. -/
def declaredDeployment (d : Deployment) : Deployment :=
  { d with
    labels := mergeLabels d.labels (backendLabels backend)
    spec :=
      { replicas := d.spec.replicas
        selector := backendLabels backend
        template := preserveTransitionRuntime d.spec.template (declaredTemplate backend workload)
          workload.containerName
        strategy := workload.deployment.strategy
        other := ∅ } }

/-- The Deployment created when none exists. -/
def newDeployment : Deployment where
  name := backendDeploymentName backend
  generation := 1
  labels := mergeLabels ∅ (backendLabels backend)
  ownerReferences := []
  spec :=
    { replicas := some (workload.deployment.replicas.getD 0)
      selector := backendLabels backend
      template := declaredTemplate backend workload
      strategy := workload.deployment.strategy
      other := ∅ }
  status := ⟨0, 0, 0, 0⟩

end

/-- The Deployment asked for once its owner is set. -/
def writeDeployment (existing : Option Deployment) (desired : Deployment) : DeploymentWrite :=
  match existing with
  | none => .create desired
  | some d => if d = desired then .nothing else .patch d desired

/-- `ensureBackendWorkload` from the read of the Deployment on. The Service, which is written
before that, is left out. -/
def ensureBackendWorkload (r : LLMBackendReconciler) (backend : LLMBackend)
    (existing : Option Deployment) : Except Err DeploymentWrite :=
  match backend.spec.workload with
  | none => .ok .nothing
  | some workload =>
    match checkWorkload workload with
    | .error e => .error e
    | .ok () =>
      let desired :=
        match existing with
        | some d => declaredDeployment backend workload d
        | none => newDeployment backend workload
      match r.setControllerReference backend.objectMeta desired.ownerReferences with
      | .error e => .error (.wrap "set deployment owner" e)
      | .ok owners => .ok (writeDeployment existing { desired with ownerReferences := owners })

/-! ## What the workload asks for -/

section Preserve

variable {current desired : PodTemplateSpec} {containerName : String}

theorem hasContainer_iff {containers : List Container} :
    hasContainer containers containerName = true ↔
      ∃ c, findContainer containerName containers = some c := by
  rw [hasContainer, findContainer, ← Option.isSome_iff_exists, List.find?_isSome, List.any_eq_true]

theorem lookup_copyAnno (annotations annotations' : FMap String String) (key key' : String) :
    (copyAnno annotations annotations' key').lookup key =
      if key = key' then (annotations.lookup key).or (annotations'.lookup key)
      else annotations'.lookup key := by
  unfold copyAnno
  split
  · rename_i value hvalue
    split
    · rename_i heq
      subst heq
      rw [Finmap.lookup_insert, hvalue, Option.some_or]
    · rename_i hne
      rw [Finmap.lookup_insert_of_ne _ hne]
  · rename_i hnone
    split
    · rename_i heq
      subst heq
      rw [hnone, Option.none_or]
    · rfl

/-- A key that is not copied keeps its value. -/
theorem lookup_foldl_copyAnno_of_notMem (annotations : FMap String String) {keys : List String}
    (annotations' : FMap String String) {key : String} (h : key ∉ keys) :
    (keys.foldl (copyAnno annotations) annotations').lookup key = annotations'.lookup key := by
  induction keys generalizing annotations' with
  | nil => rfl
  | cons k ks ih =>
    rw [List.mem_cons, not_or] at h
    rw [List.foldl_cons, ih _ h.2, lookup_copyAnno, if_neg h.1]

theorem lookup_foldl_copyAnno (annotations : FMap String String) {keys : List String}
    (hkeys : keys.Nodup) (annotations' : FMap String String) {key : String} (h : key ∈ keys) :
    (keys.foldl (copyAnno annotations) annotations').lookup key =
      (annotations.lookup key).or (annotations'.lookup key) := by
  induction keys generalizing annotations' with
  | nil => cases h
  | cons k ks ih =>
    obtain ⟨hk, hks⟩ := List.nodup_cons.mp hkeys
    rw [List.foldl_cons]
    by_cases heq : key = k
    · subst heq
      rw [lookup_foldl_copyAnno_of_notMem _ _ hk, lookup_copyAnno, if_pos rfl]
    · have hmem : key ∈ ks := (List.mem_cons.mp h).resolve_left heq
      rw [ih hks _ hmem, lookup_copyAnno, if_neg heq]

/-- An annotation of the operator is carried over; one that is missing is the declared one. -/
theorem lookup_preserveTransitionRuntime {key : String} (h : key ∈ operatorAnnos) :
    (preserveTransitionRuntime current desired containerName).annotations.lookup key =
      (current.annotations.lookup key).or (desired.annotations.lookup key) :=
  lookup_foldl_copyAnno _ (by decide) _ h

variable {c dc : Container}

/-- The first reserved volume heads the reserved volumes. -/
theorem find?_reserved_volume (volumes : List Volume) :
    (volumes.find? fun v => v.name == chatTemplateVolumeName) =
      (reservedVolumes volumes).head? := by
  rw [reservedVolumes, List.head?_filter]

variable (desired) in
/-- With a reserved volume and a reserved mount in the Deployment, these are carried over. -/
theorem runtime_preserve_mounted {v : Volume} {m : VolumeMount}
    (hc : findContainer containerName current.spec.containers = some c)
    (hv : (reservedVolumes current.spec.volumes).head? = some v)
    (hm : reservedMount c.volumeMounts = some m)
    (hdc : findContainer containerName desired.spec.containers = some dc) :
    runtimeContainer containerName
        (preserveTransitionRuntime current desired containerName).spec.containers =
      some ⟨c.args, some m⟩ ∧
    reservedVolumes (preserveTransitionRuntime current desired containerName).spec.volumes =
      [v] := by
  rw [← find?_reserved_volume] at hv
  have hvname : v.name = chatTemplateVolumeName := by simpa using List.find?_some hv
  have hmname : m.name = chatTemplateVolumeName := by simpa using List.find?_some hm
  unfold reservedMount at hm
  simp only [preserveTransitionRuntime, preserveRuntime, hdc, hc, preserveChatTemplateMount, hv, hm]
  refine ⟨?_, reservedVolumes_filter_append _ hvname⟩
  have hargs : findContainer containerName (updateContainer containerName
      (fun d => { d with args := c.args }) desired.spec.containers) =
        some { dc with args := c.args } :=
    findContainer_updateContainer rfl hdc
  rw [runtimeContainer_of_findContainer (findContainer_updateContainer rfl hargs),
    reservedMount_filter_append _ hmname]

variable (desired) in
/-- Without a reserved volume the declared volumes and mounts stay. -/
theorem runtime_preserve_bare
    (hc : findContainer containerName current.spec.containers = some c)
    (hv : reservedVolumes current.spec.volumes = [])
    (hdc : findContainer containerName desired.spec.containers = some dc) :
    runtimeContainer containerName
        (preserveTransitionRuntime current desired containerName).spec.containers =
      some ⟨c.args, reservedMount dc.volumeMounts⟩ ∧
    (preserveTransitionRuntime current desired containerName).spec.volumes =
      desired.spec.volumes := by
  have hnone : (current.spec.volumes.find? fun v => v.name == chatTemplateVolumeName) = none := by
    rw [find?_reserved_volume, hv, List.head?_nil]
  simp only [preserveTransitionRuntime, preserveRuntime, hdc, hc, preserveChatTemplateMount, hnone]
  refine ⟨?_, trivial⟩
  exact runtimeContainer_of_findContainer (findContainer_updateContainer rfl hdc)

end Preserve

/-- The declared pod template has nothing of the operator's which the Deployment has not. -/
structure Silent (workload : BackendWorkloadSpec) (spec : DeploymentSpec) : Prop where
  mount : reservedVolumes spec.template.spec.volumes = [] →
    reservedVolumes workload.deployment.podTemplate.spec.volumes = [] ∧
      ∀ c, findContainer workload.containerName
          workload.deployment.podTemplate.spec.containers = some c →
        reservedMount c.volumeMounts = none
  annotations : ∀ key ∈ operatorAnnos, spec.template.annotations.lookup key = none →
    workload.deployment.podTemplate.annotations.lookup key = none

theorem Silent.annotation_iff {workload : BackendWorkloadSpec} {backend : LLMBackend}
    {d : Deployment} {key : String} (hkey : key ∈ operatorAnnos) :
    (declaredDeployment backend workload d).spec.template.annotations.lookup key =
        d.spec.template.annotations.lookup key ↔
      (d.spec.template.annotations.lookup key = none →
        workload.deployment.podTemplate.annotations.lookup key = none) := by
  have hlookup : (declaredDeployment backend workload d).spec.template.annotations.lookup key =
      (d.spec.template.annotations.lookup key).or
        (workload.deployment.podTemplate.annotations.lookup key) :=
    lookup_preserveTransitionRuntime hkey
  rw [hlookup]
  cases d.spec.template.annotations.lookup key with
  | none => simp
  | some value => simp

/-- What the workload writes over a coherent Deployment is that Deployment's own operator part,
unless the declared template brings one. -/
theorem runtimeView_declaredDeployment_iff {backend : LLMBackend} {workload : BackendWorkloadSpec}
    {d : Deployment} (hd : Coherent workload.containerName d.spec)
    (hw : hasContainer workload.deployment.podTemplate.spec.containers
      workload.containerName = true) :
    runtimeView workload.containerName (declaredDeployment backend workload d).spec =
      runtimeView workload.containerName d.spec ↔ Silent workload d.spec := by
  obtain ⟨dc, hdc⟩ := hasContainer_iff.mp hw
  have hannotations : (∀ key ∈ operatorAnnos,
      (declaredDeployment backend workload d).spec.template.annotations.lookup key =
        d.spec.template.annotations.lookup key) ↔
      ∀ key ∈ operatorAnnos, d.spec.template.annotations.lookup key = none →
        workload.deployment.podTemplate.annotations.lookup key = none :=
    forall₂_congr fun key hkey => Silent.annotation_iff hkey
  rw [runtimeView_eq_iff, hannotations]
  cases hd with
  | @mounted c v m hc hv hm =>
    obtain ⟨hcontainer, hvolumes⟩ := runtime_preserve_mounted
      (declaredTemplate backend workload) hc (by rw [hv, List.head?_cons]) hm hdc
    constructor
    · rintro ⟨-, -, -, h⟩
      exact ⟨fun hempty => absurd (hv.symm.trans hempty) (by simp), h⟩
    · intro h
      refine ⟨rfl, ?_, hvolumes.trans hv.symm, h.annotations⟩
      rw [runtimeContainer_of_findContainer hc, hm]
      exact hcontainer
  | @bare c hc hv hm =>
    obtain ⟨hcontainer, hvolumes⟩ := runtime_preserve_bare
      (declaredTemplate backend workload) hc hv hdc
    constructor
    · rintro ⟨-, hcontainer', hvolumes', h⟩
      refine ⟨fun _ => ⟨?_, ?_⟩, h⟩
      · rw [hv] at hvolumes'
        rw [← hvolumes']
        exact congrArg reservedVolumes hvolumes.symm
      · intro c' hc'
        cases hdc.symm.trans hc'
        have heq := hcontainer.symm.trans hcontainer'
        rw [runtimeContainer_of_findContainer hc, hm] at heq
        exact congrArg RuntimeContainer.mount (Option.some.inj heq)
    · intro h
      obtain ⟨hdv, hdm⟩ := h.mount hv
      refine ⟨rfl, ?_, ?_, h.annotations⟩
      · rw [runtimeContainer_of_findContainer hc, hm, ← hdm dc hdc]
        exact hcontainer
      · rw [hv, ← hdv]
        exact congrArg reservedVolumes hvolumes

/-! ## A declared template of its own

A template that has nothing of the operator's. What `ensureBackendWorkload` writes from it over a
Deployment can then be written out. -/

/-- The declared pod template has nothing of the operator's. -/
structure Bare (workload : BackendWorkloadSpec) : Prop where
  volumes : reservedVolumes workload.deployment.podTemplate.spec.volumes = []
  mounts : ∀ c, findContainer workload.containerName
      workload.deployment.podTemplate.spec.containers = some c →
    reservedMount c.volumeMounts = none
  annotations : ∀ key ∈ operatorAnnos,
    workload.deployment.podTemplate.annotations.lookup key = none

/-- Nothing of an activation of `model` is lost when the workload, after it, patches what it has
made of the older template `d`: of the containers, the volumes and the annotations it has nothing to
change, or the activation had nothing to change there. An annotations map that becomes empty is
deleted with what the activation has put into it. `c` is the runtime container of `d`. -/
structure Agreeing (workload : BackendWorkloadSpec) (model : LLMModel) (d : PodTemplateSpec)
    (c : Container) : Prop where
  containers :
    updateContainer workload.containerName
        (fun dc => { dc with
          args := c.args
          volumeMounts := dc.volumeMounts ++ (reservedMount c.volumeMounts).toList })
        workload.deployment.podTemplate.spec.containers = d.spec.containers ∨
      c.args = effectiveArgs model ∧
        (chatTemplateMounted d.spec.volumes c.volumeMounts model.spec.serving.chatTemplate = true ∨
          model.spec.serving.chatTemplate.isSome ∧
            reservedMount c.volumeMounts = some chatTemplateMount)
  volumes :
    workload.deployment.podTemplate.spec.volumes ++ reservedVolumes d.spec.volumes =
        d.spec.volumes ∨
      chatTemplateMounted d.spec.volumes c.volumeMounts model.spec.serving.chatTemplate = true ∨
      ∃ t, model.spec.serving.chatTemplate = some t ∧
        reservedVolumes d.spec.volumes = [chatTemplateVolume t]
  annotations : workload.deployment.podTemplate.annotations ≠ ∅ ∨ d.annotations = ∅ ∨
    ∃ key ∈ operatorAnnos, d.annotations.lookup key ≠ none

section Bare

variable {workload : BackendWorkloadSpec} {backend : LLMBackend} {d : Deployment} {c : Container}

theorem Bare.silent (h : Bare workload) (spec : DeploymentSpec) : Silent workload spec :=
  ⟨fun _ => ⟨h.volumes, h.mounts⟩, fun key hkey _ => h.annotations key hkey⟩

theorem filter_name_ne_eq_self {volumes : List Volume} (h : reservedVolumes volumes = []) :
    (volumes.filter fun v => v.name != chatTemplateVolumeName) = volumes := by
  rw [List.filter_eq_self]
  intro v hv
  have hne := List.filter_eq_nil_iff.mp h v hv
  simpa using hne

theorem filter_mount_name_ne_eq_self {mounts : List VolumeMount} (h : reservedMount mounts = none) :
    (mounts.filter fun m => m.name != chatTemplateVolumeName) = mounts := by
  rw [List.filter_eq_self]
  intro m hm
  have hne := List.find?_eq_none.mp h m hm
  simpa using hne

/-- The arrays `ensureBackendWorkload` asks for: the declared ones with the arguments, the reserved
mount and the reserved volume it has read. -/
theorem Bare.declaredDeployment_arrays (h : Bare workload) (backend : LLMBackend)
    (hd : Coherent workload.containerName d.spec)
    (hc : findContainer workload.containerName d.spec.template.spec.containers = some c)
    (hw : hasContainer workload.deployment.podTemplate.spec.containers
      workload.containerName = true) :
    (declaredDeployment backend workload d).spec.template.spec.containers =
        updateContainer workload.containerName
          (fun dc => { dc with
            args := c.args
            volumeMounts := dc.volumeMounts ++ (reservedMount c.volumeMounts).toList })
          workload.deployment.podTemplate.spec.containers ∧
      (declaredDeployment backend workload d).spec.template.spec.volumes =
        workload.deployment.podTemplate.spec.volumes ++
          reservedVolumes d.spec.template.spec.volumes := by
  obtain ⟨dc, hdc⟩ := hasContainer_iff.mp hw
  have hdeclared : findContainer workload.containerName
      (declaredTemplate backend workload).spec.containers = some dc := hdc
  have hfind := find?_reserved_volume d.spec.template.spec.volumes
  cases hd with
  | @mounted c' v m hc' hv hm =>
    cases hc.symm.trans hc'
    rw [hv, List.head?_cons] at hfind
    have hmount : (c.volumeMounts.find? fun m => m.name == chatTemplateVolumeName) = some m := hm
    simp only [declaredDeployment, preserveTransitionRuntime, preserveRuntime, hdeclared, hc,
      preserveChatTemplateMount, hfind, hmount, hm, hv, Option.toList_some]
    constructor
    · rw [updateContainer_updateContainer (by exact fun _ => rfl)]
      refine updateContainer_congr fun dc' hdc' => ?_
      rw [filter_mount_name_ne_eq_self (h.mounts dc' hdc')]
    · exact congrArg (· ++ [v]) (filter_name_ne_eq_self h.volumes)
  | @bare c' hc' hv hm =>
    cases hc.symm.trans hc'
    rw [hv, List.head?_nil] at hfind
    simp only [declaredDeployment, preserveTransitionRuntime, preserveRuntime, hdeclared, hc,
      preserveChatTemplateMount, hfind, hm, hv, Option.toList_none, List.append_nil]
    exact ⟨rfl, rfl⟩

/-- The annotations asked for are empty when neither side has any of its own. -/
theorem Bare.declaredDeployment_annotations (h : Bare workload) :
    (declaredDeployment backend workload d).spec.template.annotations = ∅ ↔
      workload.deployment.podTemplate.annotations = ∅ ∧
        ∀ key ∈ operatorAnnos, d.spec.template.annotations.lookup key = none := by
  have hmem : ∀ key ∈ operatorAnnos,
      (declaredDeployment backend workload d).spec.template.annotations.lookup key =
        d.spec.template.annotations.lookup key :=
    fun key hkey => (Silent.annotation_iff hkey).mpr fun _ => h.annotations key hkey
  have hnotMem : ∀ key ∉ operatorAnnos,
      (declaredDeployment backend workload d).spec.template.annotations.lookup key =
        workload.deployment.podTemplate.annotations.lookup key :=
    fun key hkey => lookup_foldl_copyAnno_of_notMem _ _ hkey
  constructor
  · intro hempty
    rw [hempty] at hmem hnotMem
    refine ⟨Finmap.ext_lookup fun key => ?_, fun key hkey => (hmem key hkey).symm⟩
    by_cases hkey : key ∈ operatorAnnos
    · exact h.annotations key hkey
    · exact (hnotMem key hkey).symm
  · rintro ⟨hdeclared, hnone⟩
    refine Finmap.ext_lookup fun key => ?_
    by_cases hkey : key ∈ operatorAnnos
    · rw [hmem key hkey, hnone key hkey]
      rfl
    · rw [hnotMem key hkey, hdeclared]

end Bare

/-! ## The race -/

/-- The two writers. -/
inductive Writer where
  | workload
  | activation
  deriving DecidableEq

/-- What the two writers work with, apart from the Deployment. -/
structure Race where
  reconciler : LLMBackendReconciler
  backend : LLMBackend
  model : LLMModel
  switchedAt : String

/-- The stored Deployment, and what each writer has read of it. -/
structure RaceState where
  stored : Deployment
  workloadRead : Option Deployment
  activationRead : Option Deployment

def RaceState.start (d : Deployment) : RaceState := ⟨d, none, none⟩

namespace Race

variable (R : Race)

/-- The patch `ensureBackendWorkload` sends after it has read `base`. -/
def workloadPatch (base : Deployment) : Option DeploymentPatch :=
  match ensureBackendWorkload R.reconciler R.backend (some base) with
  | .ok (.patch base next) => some (.diff base next)
  | _ => none

/-- The Deployment `activateDeployment` asks for after it has read `base`. -/
def activation (base : Deployment) : Option Deployment :=
  (findContainer (backendContainerName R.backend) base.spec.template.spec.containers).map
    (activated R.model R.switchedAt base)

/-- The patch `activateDeployment` sends after it has read `base`. -/
def activationPatch (base : Deployment) : Option DeploymentPatch :=
  match R.activation base with
  | some next => if base.spec = next.spec then none else some (.diff base next)
  | none => none

/-- A patch arrives at the API server, or none was sent. -/
def send (p : Option DeploymentPatch) (d : Deployment) : Deployment :=
  match p with
  | some p => p.apply d
  | none => d

/-- One step of a writer: it reads first and patches then. -/
def move (s : RaceState) : Writer → RaceState
  | .workload =>
    match s.workloadRead with
    | none => { s with workloadRead := some s.stored }
    | some base => { s with stored := send (R.workloadPatch base) s.stored }
  | .activation =>
    match s.activationRead with
    | none => { s with activationRead := some s.stored }
    | some base => { s with stored := send (R.activationPatch base) s.stored }

def run (s : RaceState) (schedule : List Writer) : RaceState := schedule.foldl R.move s

/-- The workload, when `ensureBackendWorkload` does not refuse the Deployment. -/
def accepted (d : Deployment) : Option BackendWorkloadSpec :=
  match R.backend.spec.workload with
  | none => none
  | some workload =>
    match checkWorkload workload,
        R.reconciler.setControllerReference R.backend.objectMeta d.ownerReferences with
    | .ok _, .ok _ => some workload
    | _, _ => none

/-- The spec `ensureBackendWorkload` asks for after it has read `d`: the declared one around the
operator's part of `d`. -/
def declaredSpec (d : Deployment) : DeploymentSpec :=
  match R.accepted d with
  | some workload => (declaredDeployment R.backend workload d).spec
  | none => d.spec

variable {R} {d base a : Deployment}

theorem hasContainer_of_accepted {workload : BackendWorkloadSpec}
    (h : R.accepted d = some workload) :
    backendContainerName R.backend = workload.containerName ∧
      hasContainer workload.deployment.podTemplate.spec.containers workload.containerName =
        true := by
  unfold accepted at h
  split at h
  · cases h
  · rename_i w hw
    split at h
    · rename_i hcheck _
      cases h
      refine ⟨by unfold backendContainerName; rw [hw], ?_⟩
      by_contra hmissing
      rw [Bool.not_eq_true] at hmissing
      unfold checkWorkload at hcheck
      rw [hmissing] at hcheck
      split at hcheck <;> cases hcheck
    · cases h

/-- What `ensureBackendWorkload` does with an existing Deployment. -/
theorem ensureBackendWorkload_cases (base : Deployment) :
    (∃ workload owners, R.accepted base = some workload ∧
      ensureBackendWorkload R.reconciler R.backend (some base) = .ok (writeDeployment (some base)
        { declaredDeployment R.backend workload base with ownerReferences := owners })) ∨
    R.accepted base = none ∧ R.workloadPatch base = none := by
  unfold accepted workloadPatch ensureBackendWorkload
  cases R.backend.spec.workload with
  | none => exact Or.inr ⟨rfl, rfl⟩
  | some workload =>
    dsimp only
    cases checkWorkload workload with
    | error e => exact Or.inr ⟨rfl, rfl⟩
    | ok _ =>
      have howners : (declaredDeployment R.backend workload base).ownerReferences =
        base.ownerReferences := rfl
      dsimp only
      rw [howners]
      cases R.reconciler.setControllerReference R.backend.objectMeta base.ownerReferences with
      | error e => exact Or.inr ⟨rfl, rfl⟩
      | ok owners => exact Or.inl ⟨workload, owners, rfl, rfl⟩

/-- Whatever `ensureBackendWorkload` answers, the spec after it is that of the patch from what
it has read to the declared one. -/
theorem send_workloadPatch_spec (base d : Deployment) :
    ∃ next : Deployment, next.spec = R.declaredSpec base ∧
      (send (R.workloadPatch base) d).spec = (DeploymentPatch.diff base next).applySpec d.spec := by
  rcases R.ensureBackendWorkload_cases base with ⟨workload, owners, hacc, hwrite⟩ | ⟨hacc, hpatch⟩
  · refine ⟨{ declaredDeployment R.backend workload base with ownerReferences := owners },
      by unfold declaredSpec; rw [hacc], ?_⟩
    unfold workloadPatch
    rw [hwrite]
    unfold writeDeployment
    by_cases heq : base =
        { declaredDeployment R.backend workload base with ownerReferences := owners }
    · dsimp only
      rw [if_pos heq, DeploymentPatch.applySpec_diff_of_spec_eq (congrArg Deployment.spec heq)]
      rfl
    · dsimp only
      rw [if_neg heq]
      rfl
  · refine ⟨base, by unfold declaredSpec; rw [hacc], ?_⟩
    rw [hpatch, DeploymentPatch.applySpec_diff_of_spec_eq rfl]
    rfl

/-- The spec after the patch of `activateDeployment`. -/
theorem send_activationPatch_spec (ha : R.activation base = some a) (d : Deployment) :
    (send (R.activationPatch base) d).spec = (DeploymentPatch.diff base a).applySpec d.spec := by
  unfold activationPatch
  rw [ha]
  by_cases heq : base.spec = a.spec
  · dsimp only
    rw [if_pos heq, DeploymentPatch.applySpec_diff_of_spec_eq heq]
    rfl
  · dsimp only
    rw [if_neg heq]
    rfl

theorem activation_ownerReferences (ha : R.activation base = some a) :
    a.ownerReferences = base.ownerReferences := by
  obtain ⟨c, -, rfl⟩ := Option.map_eq_some_iff.mp ha
  rfl

theorem activation_coherent (ha : R.activation base = some a) :
    Coherent (backendContainerName R.backend) a.spec := by
  obtain ⟨c, hc, rfl⟩ := Option.map_eq_some_iff.mp ha
  exact Coherent.of_runs (runs_activated hc)

theorem send_activationPatch_self_spec (ha : R.activation d = some a) :
    (send (R.activationPatch d) d).spec = a.spec := by
  rw [send_activationPatch_spec ha, DeploymentPatch.applySpec_diff_self]

theorem send_activationPatch_self_owners (ha : R.activation d = some a) :
    (send (R.activationPatch d) d).ownerReferences = d.ownerReferences := by
  unfold activationPatch
  rw [ha]
  by_cases heq : d.spec = a.spec
  · dsimp only
    rw [if_pos heq]
    rfl
  · dsimp only
    rw [if_neg heq]
    show MergePatch.applyLeaf (MergePatch.diffLeaf d.ownerReferences a.ownerReferences)
      d.ownerReferences = d.ownerReferences
    rw [MergePatch.applyLeaf_diffLeaf_self, activation_ownerReferences ha]

theorem accepted_congr {d' : Deployment} (h : d'.ownerReferences = d.ownerReferences) :
    R.accepted d' = R.accepted d := by
  unfold accepted
  rw [h]

section Bare

variable {workload : BackendWorkloadSpec} {c : Container}

theorem declaredSpec_of_accepted (h : R.accepted d = some workload) :
    R.declaredSpec d = (declaredDeployment R.backend workload d).spec := by
  unfold declaredSpec
  rw [h]

/-- What the workload asks for has the operator's part of what it has read. -/
theorem runtimeView_declaredSpec (hw : R.accepted d = some workload) (hbare : Bare workload)
    (hd : Coherent workload.containerName d.spec) :
    runtimeView workload.containerName (R.declaredSpec d) =
      runtimeView workload.containerName d.spec := by
  rw [declaredSpec_of_accepted hw]
  exact (runtimeView_declaredDeployment_iff hd (hasContainer_of_accepted hw).2).mpr
    (hbare.silent d.spec)

/-- The workload comes after the activation: it carries over what it reads. -/
theorem workload_after_activation (ha : R.activation d = some a)
    (hw : R.accepted d = some workload) (hbare : Bare workload) :
    runtimeView workload.containerName
        (send (R.workloadPatch (send (R.activationPatch d) d))
          (send (R.activationPatch d) d)).spec =
      runtimeView workload.containerName a.spec := by
  have hspec := send_activationPatch_self_spec ha
  have hacc : R.accepted (send (R.activationPatch d) d) = some workload :=
    (accepted_congr (send_activationPatch_self_owners ha)).trans hw
  have hcoherent := activation_coherent ha
  rw [(hasContainer_of_accepted hw).1, ← hspec] at hcoherent
  obtain ⟨next, hnext, hsend⟩ :=
    R.send_workloadPatch_spec (send (R.activationPatch d) d) (send (R.activationPatch d) d)
  rw [hsend, DeploymentPatch.applySpec_diff_self, hnext,
    runtimeView_declaredSpec hacc hbare hcoherent, hspec]

/-- Both have read the same Deployment, and the activation patches last. -/
theorem activation_over_workload (ha : R.activation d = some a)
    (hw : R.accepted d = some workload) (hbare : Bare workload)
    (hd : Coherent workload.containerName d.spec) :
    runtimeView workload.containerName
        (send (R.activationPatch d) (send (R.workloadPatch d) d)).spec =
      runtimeView workload.containerName a.spec := by
  obtain ⟨next, hnext, hsend⟩ := R.send_workloadPatch_spec d d
  rw [send_activationPatch_spec ha]
  refine runtimeView_applySpec_diff ?_
  rw [hsend, DeploymentPatch.applySpec_diff_self, hnext, runtimeView_declaredSpec hw hbare hd]

/-- The operator's part of the Deployment that is asked for. -/
theorem activation_view (ha : R.activation d = some a)
    (hc : findContainer (backendContainerName R.backend) d.spec.template.spec.containers = some c) :
    runtimeContainer (backendContainerName R.backend) a.spec.template.spec.containers =
        some ⟨effectiveArgs R.model, reservedMount (applyChatTemplate d.spec.template.spec.volumes
          c.volumeMounts R.model.spec.serving.chatTemplate).2⟩ ∧
      a.spec.template.spec.volumes = (applyChatTemplate d.spec.template.spec.volumes
        c.volumeMounts R.model.spec.serving.chatTemplate).1 ∧
      annotation a.spec.template.annotations activeModelAnno = R.model.spec.model.name := by
  obtain ⟨c', hc', rfl⟩ := Option.map_eq_some_iff.mp ha
  cases hc.symm.trans hc'
  have hruns : runs R.model (backendContainerName R.backend)
      (activated R.model R.switchedAt d c).spec = true := runs_activated hc
  rw [runs_of_findContainer (findContainer_activated hc)] at hruns
  simp only [templateMatches, Bool.and_eq_true, beq_iff_eq] at hruns
  refine ⟨?_, rfl, hruns.1.1.2⟩
  rw [runtimeContainer_of_findContainer (findContainer_activated hc), hruns.1.1.1]

/-- The workload patches last over an older read, and the declared template agrees. -/
theorem spares_iff_agreeing (ha : R.activation d = some a) (hw : R.accepted d = some workload)
    (hbare : Bare workload) (hd : Coherent workload.containerName d.spec)
    (hc : findContainer workload.containerName d.spec.template.spec.containers = some c)
    (hmodel : R.model.spec.model.name ≠ "") :
    Spares workload.containerName d.spec (R.declaredSpec d) a.spec ↔
      Agreeing workload R.model d.spec.template c := by
  obtain ⟨hname, hcontainer⟩ := hasContainer_of_accepted hw
  obtain ⟨-, hruntime, hvolumes, hannotations⟩ :=
    runtimeView_eq_iff.mp (runtimeView_declaredSpec hw hbare hd)
  have hdeclared := declaredSpec_of_accepted hw
  rw [hdeclared] at hruntime hvolumes hannotations ⊢
  obtain ⟨hcontainers', hvolumes'⟩ :=
    hbare.declaredDeployment_arrays R.backend hd hc hcontainer
  obtain ⟨hactive, hactiveVolumes, hanno⟩ := activation_view ha (hname.symm ▸ hc)
  rw [hname] at hactive
  have htogether := hd.mount_eq_none_iff hc
  -- What is asked for looks like what was read, so a change is one of the activation.
  have hcontainersIff : runtimeContainer workload.containerName
        (declaredDeployment R.backend workload d).spec.template.spec.containers =
      runtimeContainer workload.containerName a.spec.template.spec.containers ↔
      c.args = effectiveArgs R.model ∧
        (chatTemplateMounted d.spec.template.spec.volumes c.volumeMounts
            R.model.spec.serving.chatTemplate = true ∨
          R.model.spec.serving.chatTemplate.isSome ∧
            reservedMount c.volumeMounts = some chatTemplateMount) := by
    rw [hruntime, hactive, runtimeContainer_of_findContainer hc, Option.some.injEq,
      RuntimeContainer.mk.injEq, reservedMount_eq_applied_iff htogether]
  have hvolumesIff : reservedVolumes
        (declaredDeployment R.backend workload d).spec.template.spec.volumes =
      reservedVolumes a.spec.template.spec.volumes ↔
      chatTemplateMounted d.spec.template.spec.volumes c.volumeMounts
          R.model.spec.serving.chatTemplate = true ∨
        ∃ t, R.model.spec.serving.chatTemplate = some t ∧
          reservedVolumes d.spec.template.spec.volumes = [chatTemplateVolume t] := by
    rw [hvolumes, hactiveVolumes, reservedVolumes_eq_applied_iff htogether]
  constructor
  · intro h
    refine ⟨(or_congr (Eq.congr_left hcontainers') hcontainersIff).mp h.containers,
      (or_congr (Eq.congr_left hvolumes') hvolumesIff).mp h.volumes, ?_⟩
    by_contra hcon
    rw [not_or, not_or, not_not] at hcon
    obtain ⟨hempty, hnonempty, hcopied⟩ := hcon
    have hnull := h.annotations activeModelAnno (by decide)
    rw [if_pos ⟨hnonempty, hbare.declaredDeployment_annotations.mpr ⟨hempty, fun key hkey =>
      by_contra fun hne => hcopied ⟨key, hkey, hne⟩⟩⟩] at hnull
    unfold annotation at hanno
    rw [hnull, Option.getD_none] at hanno
    exact hmodel hanno.symm
  · intro h
    refine ⟨Or.inl rfl, (or_congr (Eq.congr_left hcontainers') hcontainersIff).mpr h.containers,
      (or_congr (Eq.congr_left hvolumes') hvolumesIff).mpr h.volumes, fun key hkey => ?_⟩
    rw [if_neg ?_]
    · exact Or.inl (hannotations key hkey)
    · rintro ⟨hnonempty, hnull⟩
      obtain ⟨hempty, hnone⟩ := hbare.declaredDeployment_annotations.mp hnull
      rcases h.annotations with hne | hempty' | ⟨key', hkey', hsome⟩
      · exact hne hempty
      · exact hnonempty hempty'
      · exact hsome (hnone key' hkey')

/-- Both have read the same Deployment, and the workload patches last. -/
theorem workload_over_activation (ha : R.activation d = some a)
    (hw : R.accepted d = some workload) (hbare : Bare workload)
    (hd : Coherent workload.containerName d.spec)
    (hc : findContainer workload.containerName d.spec.template.spec.containers = some c)
    (hmodel : R.model.spec.model.name ≠ "") :
    runtimeView workload.containerName
        (send (R.workloadPatch d) (send (R.activationPatch d) d)).spec =
      runtimeView workload.containerName a.spec ↔
    Agreeing workload R.model d.spec.template c := by
  obtain ⟨next, hnext, hsend⟩ := R.send_workloadPatch_spec d (send (R.activationPatch d) d)
  rw [hsend, send_activationPatch_self_spec ha, runtimeView_eq_first_iff, hnext,
    spares_iff_agreeing ha hw hbare hd hc hmodel]

end Bare

/-- The orders in which two writers can each take their two steps. -/
theorem schedule_cases {schedule : List Writer}
    (h : schedule.Perm [.workload, .workload, .activation, .activation]) :
    schedule ∈ [[Writer.workload, .workload, .activation, .activation],
      [.activation, .activation, .workload, .workload],
      [.workload, .activation, .activation, .workload],
      [.activation, .workload, .activation, .workload],
      [.workload, .activation, .workload, .activation],
      [.activation, .workload, .workload, .activation]] := by
  match schedule, h.length_eq, h with
  | [x, y, z, w], _, h =>
    cases x <;> cases y <;> cases z <;> cases w <;> first
      | decide
      | exact absurd h (by decide)

end Race

/-! ### A new image

A backend whose pod template gets a new image while its Deployment is activated for the first
time. -/

namespace RaceDemo

def workload (image : String) : BackendWorkloadSpec where
  containerName := "runtime"
  deployment :=
    { name := ""
      replicas := none
      strategy := ""
      podTemplate :=
        { labels := ∅
          annotations := ∅
          spec := ⟨[⟨"runtime", [], [], [], Finmap.singleton "image" image⟩], [], ∅⟩ } }
  service := ⟨"", 8000, "", ∅⟩

def backend (image : String) : LLMBackend where
  objectMeta := .named "b"
  spec := { LLMBackendSpec.zero with type := .vllm, workload := some (workload image) }
  status := .zero

def model : LLMModel where
  name := "b"
  generation := 1
  resourceVersion := 1
  spec := ⟨⟨"b", "hub/b", "", ""⟩, none, ⟨.vllm, "", "", none, []⟩, some "b"⟩
  status := ⟨.ready, false, none, none, [], 1⟩

/-- The Deployment generated for the old image. -/
def deployment : Deployment :=
  { newDeployment (backend "old") (workload "old") with ownerReferences := ["b"] }

/-- The Deployment activated for the model. -/
def activatedDeployment : Deployment :=
  activated model "now" deployment
    ⟨"runtime", [], [], [], Finmap.singleton "image" "old"⟩

def reconciler : LLMBackendReconciler := ⟨fun backend _ => .ok [backend.name], true, fun _ => none⟩

def race : Race := ⟨reconciler, backend "new", model, "now"⟩

end RaceDemo

open RaceDemo

end LlmOperator.Controller
