import LlmOperator.Controller.BackendReconcile
import LlmOperator.Controller.Activation

/-!
# What a backend reconcile keeps of a Deployment

`ensureBackendWorkload` builds the pod template from the declared one and grafts the operator's
part of the existing Deployment onto it. `CarriedOver` says what comes out: the operator's part
of the Deployment, and the declared template in everything else.

A second run on the result changes nothing as long as grafting is done once. It is done a second
time when the declared template itself brings a reserved volume and mount which the Deployment
did not have: the first run keeps them where they were declared, the second one moves them to the
end. `workload_kept_iff` has the exact condition.
-/

namespace LlmOperator.Controller

open Api Data Backend Interaction

/-! ## The reserved pair -/

/-- The first reserved volume and the first reserved mount, if there are both. -/
def reservedPair (volumes : List Volume) (mounts : List VolumeMount) :
    Option (Volume × VolumeMount) :=
  match volumes.find? fun v => v.name == chatTemplateVolumeName,
      mounts.find? fun m => m.name == chatTemplateVolumeName with
  | some v, some m => some (v, m)
  | _, _ => none

/-- The pair in place of all that is reserved, or everything as it is. -/
def graft (pair : Option (Volume × VolumeMount)) (volumes : List Volume)
    (mounts : List VolumeMount) : List Volume × List VolumeMount :=
  match pair with
  | some (v, m) => (ownVolumes volumes ++ [v], ownMounts mounts ++ [m])
  | none => (volumes, mounts)

variable {v : Volume} {m : VolumeMount} {service : Service} (volumes : List Volume)

theorem reservedPair_eq_some {volumes : List Volume} {mounts : List VolumeMount} :
    reservedPair volumes mounts = some (v, m) ↔
      (volumes.find? fun v => v.name == chatTemplateVolumeName) = some v ∧
        reservedMount mounts = some m := by
  unfold reservedPair reservedMount
  split
  · rename_i v' m' hv hm
    rw [hv, hm]
    simp
  · rename_i hnone
    constructor
    · intro h
      cases h
    · rintro ⟨hv, hm⟩
      exact (hnone v m hv hm).elim

theorem find?_ownVolumes_append (h : v.name = chatTemplateVolumeName) :
    ((ownVolumes volumes ++ [v]).find? fun v => v.name == chatTemplateVolumeName) = some v := by
  rw [find?_reserved_volume, ownVolumes, reservedVolumes_filter_append volumes h, List.head?_cons]

theorem names_of_reservedPair {volumes : List Volume} {mounts : List VolumeMount}
    (h : reservedPair volumes mounts = some (v, m)) :
    v.name = chatTemplateVolumeName ∧ m.name = chatTemplateVolumeName := by
  obtain ⟨hv, hm⟩ := reservedPair_eq_some.mp h
  exact ⟨by simpa using List.find?_some hv, by simpa using List.find?_some hm⟩

/-- A grafted pair is found again. -/
theorem reservedPair_graft (hv : v.name = chatTemplateVolumeName)
    (hm : m.name = chatTemplateVolumeName) (volumes : List Volume) (mounts : List VolumeMount) :
    reservedPair (graft (some (v, m)) volumes mounts).1 (graft (some (v, m)) volumes mounts).2 =
      some (v, m) :=
  reservedPair_eq_some.mpr ⟨find?_ownVolumes_append volumes hv,
    reservedMount_filter_append mounts hm⟩

/-- The reserved volume and mount of a declared template are out of the way: there are not both,
or there is one of each and it comes last. -/
def PairLast (volumes : List Volume) (mounts : List VolumeMount) : Prop :=
  reservedPair volumes mounts = none ∨
    (∃ v, volumes = ownVolumes volumes ++ [v]) ∧ ∃ m, mounts = ownMounts mounts ++ [m]

/-- Grafting its own pair onto a template leaves it alone exactly when the pair is last. -/
theorem graft_self_iff (mounts : List VolumeMount) :
    graft (reservedPair volumes mounts) volumes mounts = (volumes, mounts) ↔
      PairLast volumes mounts := by
  unfold PairLast
  cases hpair : reservedPair volumes mounts with
  | none => exact ⟨fun _ => Or.inl rfl, fun _ => rfl⟩
  | some pair =>
    obtain ⟨v, m⟩ := pair
    obtain ⟨hv, hm⟩ := reservedPair_eq_some.mp hpair
    simp only [graft, Prod.mk.injEq, reduceCtorEq, false_or]
    constructor
    · rintro ⟨hvolumes, hmounts⟩
      exact ⟨⟨v, hvolumes.symm⟩, m, hmounts.symm⟩
    · -- the last one is the reserved one, since the others are not
      rintro ⟨⟨v', hv'⟩, m', hm'⟩
      have hvmem : v ∈ ownVolumes volumes ++ [v'] := hv' ▸ List.mem_of_find?_eq_some hv
      have hmmem : m ∈ ownMounts mounts ++ [m'] := hm' ▸ List.mem_of_find?_eq_some hm
      have hnames := names_of_reservedPair hpair
      have hveq : v = v' := by
        rcases List.mem_append.mp hvmem with hown | hlast
        · have hne := (List.mem_filter.mp hown).2
          simp [hnames.1] at hne
        · exact List.mem_singleton.mp hlast
      have hmeq : m = m' := by
        rcases List.mem_append.mp hmmem with hown | hlast
        · have hne := (List.mem_filter.mp hown).2
          simp [hnames.2] at hne
        · exact List.mem_singleton.mp hlast
      rw [hveq, hmeq]
      exact ⟨hv'.symm, hm'.symm⟩

/-- Grafting twice: the pair of what came out, onto the same template. -/
theorem graft_graft_iff (current : Option (Volume × VolumeMount)) (volumes : List Volume)
    (mounts : List VolumeMount)
    (hnames : ∀ v m, current = some (v, m) →
      v.name = chatTemplateVolumeName ∧ m.name = chatTemplateVolumeName) :
    graft (reservedPair (graft current volumes mounts).1 (graft current volumes mounts).2) volumes
        mounts = graft current volumes mounts ↔
      current ≠ none ∨ PairLast volumes mounts := by
  cases current with
  | none => simpa [graft] using graft_self_iff volumes mounts
  | some pair =>
    obtain ⟨v, m⟩ := pair
    obtain ⟨hv, hm⟩ := hnames v m rfl
    rw [reservedPair_graft hv hm]
    simp

/-! ## The template -/

section Template

variable {current desired : PodTemplateSpec} {containerName : String} {c dc : Container}

/-- The volumes and the mounts of the runtime container in the template that is written. -/
def carriedPair (current desired : PodTemplateSpec) (c dc : Container) :
    List Volume × List VolumeMount :=
  graft (reservedPair current.spec.volumes c.volumeMounts) desired.spec.volumes dc.volumeMounts

variable {front back : List Container}

theorem findContainer_middle (hfront : ∀ x ∈ front, x.name ≠ containerName)
    (hname : dc.name = containerName) :
    findContainer containerName (front ++ dc :: back) = some dc := by
  have hnone : front.find? (fun x => x.name == containerName) = none := by
    rw [List.find?_eq_none]
    intro x hx
    simpa using hfront x hx
  rw [findContainer, List.find?_append, hnone, Option.none_or]
  exact List.find?_cons_of_pos (by simpa using hname)

theorem updateContainer_middle (hfront : ∀ x ∈ front, x.name ≠ containerName)
    (hname : dc.name = containerName) (f : Container → Container) :
    updateContainer containerName f (front ++ dc :: back) = front ++ f dc :: back := by
  induction front with
  | nil => simp [updateContainer, hname]
  | cons y ys ih =>
    obtain ⟨hy, hys⟩ := List.forall_mem_cons.mp hfront
    have hne : (y.name == containerName) = false := by simpa using hy
    simp [updateContainer, hne, ih hys]

/-- The template that is written, around the runtime container. -/
theorem spec_preserveTransitionRuntime
    (hc : findContainer containerName current.spec.containers = some c)
    (hcs : desired.spec.containers = front ++ dc :: back)
    (hfront : ∀ x ∈ front, x.name ≠ containerName) (hname : dc.name = containerName) :
    (preserveTransitionRuntime current desired containerName).spec =
      { desired.spec with
        containers := front ++ { dc with
          args := c.args, volumeMounts := (carriedPair current desired c dc).2 } :: back
        volumes := (carriedPair current desired c dc).1 } := by
  unfold preserveTransitionRuntime preserveRuntime carriedPair
  simp only [hcs, hc, findContainer_middle hfront hname, updateContainer_middle hfront hname]
  unfold preserveChatTemplateMount reservedPair
  cases hv : current.spec.volumes.find? fun v => v.name == chatTemplateVolumeName with
  | none => rfl
  | some v =>
    cases hm : c.volumeMounts.find? fun m => m.name == chatTemplateVolumeName with
    | none => rfl
    | some m =>
      have hname' : { dc with args := c.args }.name = containerName := hname
      simp only [graft]
      rw [updateContainer_middle hfront hname']
      rfl

theorem annotations_preserveTransitionRuntime_idem :
    (preserveTransitionRuntime (preserveTransitionRuntime current desired containerName) desired
        containerName).annotations =
      (preserveTransitionRuntime current desired containerName).annotations := by
  have hother : ∀ (t : PodTemplateSpec) (key : String), key ∉ operatorAnnos →
      (preserveTransitionRuntime t desired containerName).annotations.lookup key =
        desired.annotations.lookup key := fun t key hkey =>
    lookup_foldl_copyAnno_of_notMem _ _ hkey
  apply Finmap.ext_lookup
  intro key
  by_cases hkey : key ∈ operatorAnnos
  · rw [lookup_preserveTransitionRuntime hkey, lookup_preserveTransitionRuntime hkey,
      Option.or_assoc, Option.or_self]
  · rw [hother _ key hkey, hother _ key hkey]

@[simp] theorem labels_preserveTransitionRuntime :
    (preserveTransitionRuntime current desired containerName).labels = desired.labels := by
  unfold preserveTransitionRuntime preserveRuntime preserveChatTemplateMount
  dsimp only
  split
  · split <;> rfl
  · rfl

section

variable (hc : findContainer containerName current.spec.containers = some c)
  (hdc : findContainer containerName desired.spec.containers = some dc)
include hc hdc

/-- The runtime container in the template that is written. -/
theorem findContainer_preserveTransitionRuntime :
    findContainer containerName
        (preserveTransitionRuntime current desired containerName).spec.containers =
      some { dc with args := c.args, volumeMounts := (carriedPair current desired c dc).2 } := by
  obtain ⟨front, back, hcs, hfront, -⟩ := exists_split_of_findContainer hdc
  have hname := findContainer_name hdc
  rw [spec_preserveTransitionRuntime hc hcs hfront hname]
  exact findContainer_middle hfront hname

/-- When carrying over from what was written changes nothing. -/
theorem preserveTransitionRuntime_idem_iff :
    preserveTransitionRuntime (preserveTransitionRuntime current desired containerName) desired
        containerName = preserveTransitionRuntime current desired containerName ↔
      reservedPair current.spec.volumes c.volumeMounts ≠ none ∨
        PairLast desired.spec.volumes dc.volumeMounts := by
  obtain ⟨front, back, hcs, hfront, -⟩ := exists_split_of_findContainer hdc
  have hname := findContainer_name hdc
  have hspec := spec_preserveTransitionRuntime hc hcs hfront hname
  have hc' := findContainer_preserveTransitionRuntime hc hdc
  have hspec' := spec_preserveTransitionRuntime hc' hcs hfront hname
  rw [← graft_graft_iff _ _ _ fun v m h => names_of_reservedPair h]
  have hpair : carriedPair (preserveTransitionRuntime current desired containerName) desired
      { dc with args := c.args, volumeMounts := (carriedPair current desired c dc).2 } dc =
        graft (reservedPair (carriedPair current desired c dc).1
          (carriedPair current desired c dc).2)
          desired.spec.volumes dc.volumeMounts := by
    unfold carriedPair
    rw [hspec]
    rfl
  constructor
  · intro heq
    have hsame := congrArg PodTemplateSpec.spec heq
    rw [hspec', hspec, PodSpec.mk.injEq] at hsame
    obtain ⟨hcontainers, hvolumes, -⟩ := hsame
    have hruntime := List.head_eq_of_cons_eq (List.append_cancel_left hcontainers)
    have hmounts := congrArg Container.volumeMounts hruntime
    rw [hpair] at hvolumes hmounts
    exact Prod.ext hvolumes hmounts
  · intro hgraft
    have hsame : carriedPair (preserveTransitionRuntime current desired containerName) desired
        { dc with args := c.args, volumeMounts := (carriedPair current desired c dc).2 } dc =
          carriedPair current desired c dc := hpair.trans hgraft
    have hspecs : (preserveTransitionRuntime (preserveTransitionRuntime current desired
        containerName) desired containerName).spec =
          (preserveTransitionRuntime current desired containerName).spec := by
      rw [hspec', hspec, hsame]
    have hlabels : (preserveTransitionRuntime current desired containerName).labels =
        desired.labels := labels_preserveTransitionRuntime
    calc preserveTransitionRuntime (preserveTransitionRuntime current desired containerName) desired
          containerName
        = ⟨desired.labels, _, _⟩ := by rw [← labels_preserveTransitionRuntime]
      _ = preserveTransitionRuntime current desired containerName := by
          rw [annotations_preserveTransitionRuntime_idem, hspecs, ← hlabels]

end

end Template

/-! ## The objects that are written -/

/-- The Service asked for, once its owner is set. -/
def ownedService (r : LLMBackendReconciler) (backend : LLMBackend) (workload : BackendWorkloadSpec)
    (existing : Option Service) : Except Err Service :=
  let desired := declaredService backend workload
    (existing.getD (bareService (backendServiceName backend)))
  match r.setControllerReference backend.objectMeta desired.ownerReferences with
  | .error e => .error (.wrap "set service owner" e)
  | .ok owners => .ok { desired with ownerReferences := owners }

/-- The Deployment asked for, once its owner is set. -/
def ownedDeployment (r : LLMBackendReconciler) (backend : LLMBackend)
    (workload : BackendWorkloadSpec)
    (d : Deployment) : Except Err Deployment :=
  match r.setControllerReference backend.objectMeta d.ownerReferences with
  | .error e => .error (.wrap "set deployment owner" e)
  | .ok owners => .ok { declaredDeployment backend workload d with ownerReferences := owners }

/-- The Deployment after the patch to `next`. -/
def afterPatch (d next : Deployment) : Deployment := (DeploymentPatch.diff d next).apply d

section Patched

variable {d next : Deployment}

@[simp] theorem spec_afterPatch : (afterPatch d next).spec = next.spec := by
  rw [afterPatch, DeploymentPatch.apply_spec, DeploymentPatch.applySpec_diff_self]

@[simp] theorem labels_afterPatch : (afterPatch d next).labels = next.labels :=
  MergePatch.applyObject_diffObject_self d.labels next.labels

@[simp] theorem ownerReferences_afterPatch :
    (afterPatch d next).ownerReferences = next.ownerReferences :=
  MergePatch.applyLeaf_diffLeaf_self d.ownerReferences next.ownerReferences

/-- A patch leaves the Deployment as it is exactly when it asks for nothing new. -/
theorem afterPatch_eq_self_iff : afterPatch d next = d ↔
    next.labels = d.labels ∧ next.ownerReferences = d.ownerReferences ∧ next.spec = d.spec := by
  constructor
  · intro h
    refine ⟨?_, ?_, ?_⟩
    · rw [← labels_afterPatch (d := d), h]
    · rw [← ownerReferences_afterPatch (d := d), h]
    · rw [← spec_afterPatch (d := d), h]
  · rintro ⟨hlabels, howners, hspec⟩
    have hgeneration : (afterPatch d next).generation = d.generation := by
      show (if (DeploymentPatch.diff d next).applySpec d.spec = d.spec then _ else _) = _
      rw [DeploymentPatch.applySpec_diff_self, if_pos hspec]
    have hparts : (afterPatch d next).labels = next.labels ∧
        (afterPatch d next).ownerReferences = next.ownerReferences ∧
        (afterPatch d next).spec = next.spec :=
      ⟨labels_afterPatch, ownerReferences_afterPatch, spec_afterPatch⟩
    calc afterPatch d next
        = { afterPatch d next with
            labels := next.labels, ownerReferences := next.ownerReferences,
            spec := next.spec } := by
          rw [← hparts.1, ← hparts.2.1, ← hparts.2.2]
      _ = { d with generation := (afterPatch d next).generation } := by
          rw [hlabels, howners, hspec]
          rfl
      _ = d := by rw [hgeneration]

end Patched

namespace BackendCluster

variable {r : LLMBackendReconciler} {s : BackendCluster} {workload : BackendWorkloadSpec}
  {d : Deployment}

/-- Every call is answered. -/
def Calm (s : BackendCluster) : Prop := ∀ c, s.fault c = none

theorem eval_perform_of_calm (hcalm : s.Calm) (c : BackendCall) :
    (perform c).eval answer s = s.serve c :=
  answer_of_fault_none (hcalm c)

/-- The stored objects have the names they are stored under. -/
structure Named (s : BackendCluster) : Prop where
  service : ∀ name service, s.services name = some service → service.name = name
  deployment : ∀ name d, s.deployments name = some d → d.name = name

theorem Named.updateDeployment (h : s.Named) {name : String} {d : Deployment}
    (hname : d.name = name) :
    Named { s with deployments := Function.update s.deployments name (some d) } := by
  refine ⟨h.service, ?_⟩
  intro name' d' hd
  by_cases heq : name' = name
  · subst heq
    simp only [Function.update_self, Option.some.injEq] at hd
    rw [← hd, hname]
  · simp only [Function.update_of_ne heq] at hd
    exact h.deployment _ _ hd

theorem Named.updateService (h : s.Named) {name : String} (hname : service.name = name) :
    Named { s with services := Function.update s.services name (some service) } := by
  refine ⟨?_, h.deployment⟩
  intro name' service' hservice
  by_cases heq : name' = name
  · subst heq
    simp only [Function.update_self, Option.some.injEq] at hservice
    rw [← hservice, hname]
  · simp only [Function.update_of_ne heq] at hservice
    exact h.service _ _ hservice

theorem name_ownedService (h : s.Named) {backend : LLMBackend}
    (hservice : ownedService r backend workload (s.services (backendServiceName backend)) =
      .ok service) : service.name = backendServiceName backend := by
  unfold ownedService at hservice
  dsimp only at hservice
  split at hservice
  · cases hservice
  · cases hservice
    cases hexisting : s.services (backendServiceName backend) with
    | none => rfl
    | some before => exact h.service _ before hexisting

/-- What `ensureService` does where every call is answered. -/
theorem eval_ensureService (hcalm : s.Calm) (hnamed : s.Named) (backend : LLMBackend) :
    (ensureService r backend workload).eval answer s =
      match ownedService r backend workload (s.services (backendServiceName backend)) with
      | .error e => (.error e, s)
      | .ok next => (.ok (), { s with
          services := Function.update s.services (backendServiceName backend) (some next) }) := by
  have hwrite : ∀ existing, s.services (backendServiceName backend) = existing →
      (writeService r backend workload existing).eval answer s =
        match ownedService r backend workload existing with
        | .error e => (.error e, s)
        | .ok next => (.ok (), { s with
            services := Function.update s.services (backendServiceName backend) (some next) }) := by
    intro existing hexisting
    unfold writeService ownedService
    dsimp only
    cases r.setControllerReference backend.objectMeta _ with
    | error e => rfl
    | ok owners =>
      dsimp only
      cases existing with
      | none =>
        dsimp only
        rw [eval_wrapError, show (createService _).eval answer s = _ from
          eval_perform_of_calm hcalm _]
        rfl
      | some before =>
        have hname : before.name = backendServiceName backend := hnamed.service _ _ hexisting
        dsimp only [Option.getD_some]
        split
        · rename_i hsame
          rw [← hsame, ← hexisting, Function.update_eq_self]
          rfl
        · rw [eval_wrapError, show (patchService _ _).eval answer s = _ from
            eval_perform_of_calm hcalm _]
          show (_, { s with services := Function.update s.services before.name _ }) = _
          rw [hname]
          rfl
  unfold ensureService
  rw [Prog.eval_bind, show (fetchService (backendServiceName backend)).eval answer s = _ from
    eval_perform_of_calm hcalm _]
  dsimp only [serve]
  cases hexisting : s.services (backendServiceName backend) with
  | none => exact hwrite none hexisting
  | some service => exact hwrite (some service) hexisting

section

variable {backend : LLMBackend} (hcalm : s.Calm) (hnamed : s.Named)
  (hworkload : backend.spec.workload = some workload)
include hcalm hnamed hworkload

/-- What `ensureDeployment` does to a Deployment that exists. -/
theorem eval_ensureDeployment (hvalid : checkWorkload workload = .ok ())
    (hd : s.deployments (backendDeploymentName backend) = some d) :
    (ensureDeployment r backend).eval answer s =
      match ownedDeployment r backend workload d with
      | .error e => (.error e, s)
      | .ok next => (.ok (), { s with
          deployments := Function.update s.deployments (backendDeploymentName backend)
            (some (afterPatch d next)) }) := by
  have hname : d.name = backendDeploymentName backend := hnamed.deployment _ _ hd
  unfold ensureDeployment
  rw [Prog.eval_bind, show (fetchDeployment (backendDeploymentName backend)).eval answer s = _ from
    eval_perform_of_calm hcalm _]
  dsimp only [serve]
  rw [hd]
  dsimp only [found]
  unfold ensureBackendWorkload ownedDeployment
  rw [hworkload]
  dsimp only
  rw [hvalid]
  dsimp only
  rw [show (declaredDeployment backend workload d).ownerReferences = d.ownerReferences from rfl]
  cases r.setControllerReference backend.objectMeta d.ownerReferences with
  | error e => rfl
  | ok owners =>
    dsimp only [writeDeployment]
    split
    · rename_i hsame
      have hkept : afterPatch d { declaredDeployment backend workload d with
          ownerReferences := owners } = d := by
        rw [← hsame]
        exact afterPatch_eq_self_iff.mpr ⟨rfl, rfl, rfl⟩
      rw [hkept, ← hd, Function.update_eq_self]
      rfl
    · unfold sendDeployment
      dsimp only
      rw [eval_wrapError, show (patchGenerated d _).eval answer s = _ from
        eval_perform_of_calm hcalm _]
      show (_, { s with
        deployments := Function.update s.deployments d.name ((s.deployments d.name).map _) }) = _
      rw [hname, hd]
      rfl

/-- What the whole of `ensureBackendWorkload` does, once the workload is valid. -/
theorem eval_ensureBackendObjects (hvalid : checkWorkload workload = .ok ())
    (hd : s.deployments (backendDeploymentName backend) = some d)
    (hservice : ownedService r backend workload (s.services (backendServiceName backend)) =
      .ok service) :
    (ensureBackendObjects r backend).eval answer s =
      match ownedDeployment r backend workload d with
      | .error e => (.error e, { s with
          services := Function.update s.services (backendServiceName backend) (some service) })
      | .ok next => (.ok (), { s with
          services := Function.update s.services (backendServiceName backend) (some service)
          deployments := Function.update s.deployments (backendDeploymentName backend)
            (some (afterPatch d next)) }) := by
  unfold ensureBackendObjects
  rw [hworkload]
  dsimp only
  rw [hvalid]
  dsimp only
  rw [Prog.eval_bind, eval_ensureService hcalm hnamed, hservice]
  exact eval_ensureDeployment (s := { s with
    services := Function.update s.services (backendServiceName backend) (some service) })
    hcalm (hnamed.updateService (name_ownedService hnamed hservice)) hworkload hvalid hd

/-- A run that ends well has passed the checks and set both owners. -/
theorem of_ensureBackendObjects_ok (hd : s.deployments (backendDeploymentName backend) = some d)
    (hok : ((ensureBackendObjects r backend).eval answer s).1 = .ok ()) :
    checkWorkload workload = .ok () ∧
    ∃ service next, ownedService r backend workload (s.services (backendServiceName backend)) =
      .ok service ∧ ownedDeployment r backend workload d = .ok next := by
  cases hvalid : checkWorkload workload with
  | error e =>
    unfold ensureBackendObjects at hok
    rw [hworkload] at hok
    dsimp only at hok
    rw [hvalid] at hok
    cases hok
  | ok _ =>
    refine ⟨rfl, ?_⟩
    cases hservice : ownedService r backend workload (s.services (backendServiceName backend)) with
    | error e =>
      unfold ensureBackendObjects at hok
      rw [hworkload] at hok
      dsimp only at hok
      rw [hvalid] at hok
      dsimp only at hok
      rw [Prog.eval_bind, eval_ensureService hcalm hnamed, hservice] at hok
      cases hok
    | ok service =>
      rw [eval_ensureBackendObjects hcalm hnamed hworkload hvalid hd hservice] at hok
      cases hnext : ownedDeployment r backend workload d with
      | error e =>
        rw [hnext] at hok
        cases hok
      | ok next => exact ⟨service, next, rfl, rfl⟩

end

end BackendCluster

/-! ## What is carried over -/

/-- The Deployment `d'` that was written over `d`: the operator's part of `d` in the declared
template. -/
structure CarriedOver (backend : LLMBackend) (workload : BackendWorkloadSpec) (d d' : Deployment) :
    Prop where
  replicas : d'.spec.replicas = d.spec.replicas
  args : (findContainer workload.containerName d'.spec.template.spec.containers).map
      Container.args =
    (findContainer workload.containerName d.spec.template.spec.containers).map Container.args
  annotations : ∀ key ∈ operatorAnnos, ∀ value,
    d.spec.template.annotations.lookup key = some value →
      d'.spec.template.annotations.lookup key = some value
  /-- With a reserved volume and a reserved mount in `d`, these are the only ones. -/
  mounted : ∀ c c' v m, findContainer workload.containerName d.spec.template.spec.containers =
      some c →
    findContainer workload.containerName d'.spec.template.spec.containers = some c' →
    reservedPair d.spec.template.spec.volumes c.volumeMounts = some (v, m) →
      reservedVolumes d'.spec.template.spec.volumes = [v] ∧
        c'.volumeMounts.filter (fun m => m.name == chatTemplateVolumeName) = [m]
  /-- Without them, the volumes and the mounts are the declared ones. -/
  unmounted : ∀ c c' dc, findContainer workload.containerName d.spec.template.spec.containers =
      some c →
    findContainer workload.containerName d'.spec.template.spec.containers = some c' →
    findContainer workload.containerName workload.deployment.podTemplate.spec.containers = some dc →
    reservedPair d.spec.template.spec.volumes c.volumeMounts = none →
      d'.spec.template.spec.volumes = workload.deployment.podTemplate.spec.volumes ∧
        c'.volumeMounts = dc.volumeMounts
  labels : d'.spec.template.labels =
    mergeLabels workload.deployment.podTemplate.labels (backendLabels backend)
  otherAnnotations : ∀ key, key ∉ operatorAnnos ∨ d.spec.template.annotations.lookup key = none →
    d'.spec.template.annotations.lookup key =
      workload.deployment.podTemplate.annotations.lookup key
  volumes : ownVolumes d'.spec.template.spec.volumes =
    ownVolumes workload.deployment.podTemplate.spec.volumes
  containers : OtherContainersSame workload.containerName
    workload.deployment.podTemplate.spec.containers d'.spec.template.spec.containers
  podOther : d'.spec.template.spec.other = workload.deployment.podTemplate.spec.other
  selector : d'.spec.selector = backendLabels backend
  selected : ∀ key value, d'.spec.selector.lookup key = some value →
    d'.spec.template.labels.lookup key = some value

theorem ownVolumes_graft {pair : Option (Volume × VolumeMount)}
    (hnames : ∀ v m, pair = some (v, m) →
      v.name = chatTemplateVolumeName ∧ m.name = chatTemplateVolumeName)
    (volumes : List Volume) (mounts : List VolumeMount) :
    ownVolumes (graft pair volumes mounts).1 = ownVolumes volumes ∧
      ownMounts (graft pair volumes mounts).2 = ownMounts mounts := by
  cases pair with
  | none => exact ⟨rfl, rfl⟩
  | some p =>
    obtain ⟨v, m⟩ := p
    obtain ⟨hv, hm⟩ := hnames v m rfl
    simp [graft, ownVolumes, ownMounts, hv, hm]

section Carried

variable {backend : LLMBackend} {workload : BackendWorkloadSpec} {d d' : Deployment}
  {c dc : Container}

theorem carriedOver_of_spec
    (hc : findContainer workload.containerName d.spec.template.spec.containers = some c)
    (hdc : findContainer workload.containerName
      workload.deployment.podTemplate.spec.containers = some dc)
    (hspec : d'.spec = (declaredDeployment backend workload d).spec) :
    CarriedOver backend workload d d' := by
  have htemplate : d'.spec.template = preserveTransitionRuntime d.spec.template
      (declaredTemplate backend workload) workload.containerName := by
    rw [hspec]
    rfl
  have hdeclared : findContainer workload.containerName
      (declaredTemplate backend workload).spec.containers = some dc := hdc
  have hc' := findContainer_preserveTransitionRuntime hc hdeclared
  rw [← htemplate] at hc'
  obtain ⟨front, back, hcs, hfront, -⟩ := exists_split_of_findContainer hdeclared
  have hname := findContainer_name hdc
  have hpod := spec_preserveTransitionRuntime hc hcs hfront hname
  rw [← htemplate] at hpod
  obtain ⟨hownVolumes, hownMounts⟩ := ownVolumes_graft
    (fun v m (h : reservedPair d.spec.template.spec.volumes c.volumeMounts = some (v, m)) =>
      names_of_reservedPair h) workload.deployment.podTemplate.spec.volumes dc.volumeMounts
  refine ⟨?_, ?_, ?_, ?_, ?_, ?_, ?_, ?_, ?_, ?_, ?_, ?_⟩
  · rw [hspec]
    rfl
  · rw [hc', hc]
    rfl
  · intro key hkey value hvalue
    rw [htemplate, lookup_preserveTransitionRuntime hkey, hvalue, Option.some_or]
  · intro c₁ c₂ v m hc₁ hc₂ hpair
    cases hc.symm.trans hc₁
    cases hc'.symm.trans hc₂
    obtain ⟨hv, hm⟩ := names_of_reservedPair hpair
    rw [hpod]
    simp only [carriedPair, hpair, graft]
    refine ⟨reservedVolumes_filter_append _ hv, ?_⟩
    simp [ownMounts, hm]
  · intro c₁ c₂ dc₁ hc₁ hc₂ hdc₁ hpair
    cases hc.symm.trans hc₁
    cases hc'.symm.trans hc₂
    cases hdc.symm.trans hdc₁
    rw [hpod]
    simp only [carriedPair, hpair, graft]
    exact ⟨rfl, trivial⟩
  · rw [htemplate, labels_preserveTransitionRuntime]
    rfl
  · rintro key hkey
    rw [htemplate]
    by_cases hmem : key ∈ operatorAnnos
    · rw [lookup_preserveTransitionRuntime hmem, hkey.resolve_left (not_not.mpr hmem),
        Option.none_or]
      rfl
    · exact lookup_foldl_copyAnno_of_notMem _ _ hmem
  · rw [hpod]
    exact hownVolumes
  · rw [hpod]
    exact ⟨front, dc, _, back, hcs, rfl, hfront, hname, rfl, rfl, hownMounts, rfl⟩
  · rw [hpod]
    rfl
  · rw [hspec]
    rfl
  · intro key value hvalue
    rw [hspec] at hvalue
    rw [htemplate, labels_preserveTransitionRuntime]
    show Finmap.lookup key (backendLabels backend ∪ _) = _
    rw [FMap.lookup_union, show (backendLabels backend).lookup key = some value from hvalue,
      Option.some_or]

end Carried

/-! ## A second run -/

/-- Setting the owner of an object that has it already changes nothing. -/
def LLMBackendReconciler.Settles (r : LLMBackendReconciler) : Prop :=
  ∀ owner refs owners, r.setControllerReference owner refs = .ok owners →
    r.setControllerReference owner owners = .ok owners

theorem mergeLabels_idem (existing required : FMap String String) :
    mergeLabels (mergeLabels existing required) required = mergeLabels existing required := by
  apply Finmap.ext_lookup
  intro key
  simp only [mergeLabels, FMap.lookup_union]
  cases required.lookup key <;> rfl

section Again

variable {r : LLMBackendReconciler} {backend : LLMBackend} {workload : BackendWorkloadSpec}

theorem declaredService_again (service : Service) (owners : List String) :
    declaredService backend workload
        { declaredService backend workload service with ownerReferences := owners } =
      { declaredService backend workload service with ownerReferences := owners } := by
  simp only [declaredService, mergeLabels_idem]

theorem ownedService_idem (hsettles : r.Settles) {existing : Option Service}
    (h : ownedService r backend workload existing = .ok service) :
    ownedService r backend workload (some service) = .ok service := by
  unfold ownedService at h ⊢
  dsimp only at h ⊢
  split at h
  · cases h
  · rename_i owners howners
    cases h
    rw [Option.getD_some, declaredService_again, hsettles _ _ _ howners]

theorem ownedDeployment_again (hsettles : r.Settles) {d next : Deployment}
    (h : ownedDeployment r backend workload d = .ok next) :
    next.spec = (declaredDeployment backend workload d).spec ∧
    ∃ again, ownedDeployment r backend workload (afterPatch d next) = .ok again ∧
      again.labels = next.labels ∧ again.ownerReferences = next.ownerReferences ∧
      again.spec = (declaredDeployment backend workload (afterPatch d next)).spec := by
  unfold ownedDeployment at h
  split at h
  · cases h
  · rename_i owners howners
    cases h
    refine ⟨rfl, { declaredDeployment backend workload (afterPatch d _) with
      ownerReferences := owners }, ?_, ?_, rfl, rfl⟩
    · unfold ownedDeployment
      rw [ownerReferences_afterPatch, hsettles _ _ _ howners]
    · show mergeLabels (afterPatch d _).labels _ = _
      rw [labels_afterPatch]
      exact mergeLabels_idem _ _

/-- A written Deployment is asked for again as it is when its template is. -/
theorem declaredDeployment_spec_again_iff {d next : Deployment}
    (hspec : next.spec = (declaredDeployment backend workload d).spec) :
    (declaredDeployment backend workload (afterPatch d next)).spec = next.spec ↔
      preserveTransitionRuntime
          (preserveTransitionRuntime d.spec.template (declaredTemplate backend workload)
            workload.containerName)
          (declaredTemplate backend workload) workload.containerName =
        preserveTransitionRuntime d.spec.template (declaredTemplate backend workload)
          workload.containerName := by
  have htemplate : (declaredDeployment backend workload (afterPatch d next)).spec =
      { next.spec with
        template := preserveTransitionRuntime next.spec.template
          (declaredTemplate backend workload) workload.containerName } := by
    show DeploymentSpec.mk _ _ _ _ _ = _
    rw [spec_afterPatch, hspec]
    rfl
  rw [htemplate, hspec]
  constructor
  · intro h
    exact congrArg DeploymentSpec.template h
  · intro h
    exact congrArg (fun t => { (declaredDeployment backend workload d).spec with template := t }) h

end Again

/-- **What a backend reconcile keeps.** Where every call is answered, let `ensureBackendWorkload`
end well on an existing Deployment `d` with the runtime container. The Deployment that is written
carries the operator's part of `d` over, and a second run changes nothing, exactly when `d` has
the reserved volume and mount, or the declared template has not both, or it has one of each and
they come last. -/
theorem workload_kept_iff (r : LLMBackendReconciler) (hsettles : r.Settles) (s : BackendCluster)
    (hcalm : s.Calm) (hnamed : s.Named) (workload : BackendWorkloadSpec)
    (hworkload : s.backend.spec.workload = some workload) (d : Deployment)
    (hd : s.deployments (backendDeploymentName s.backend) = some d) (c dc : Container)
    (hc : findContainer workload.containerName d.spec.template.spec.containers = some c)
    (hdc : findContainer workload.containerName
      workload.deployment.podTemplate.spec.containers = some dc)
    (hok : ((ensureBackendObjects r s.backend).eval BackendCluster.answer s).1 = .ok ()) :
    (∃ d', ((ensureBackendObjects r s.backend).eval BackendCluster.answer s).2.deployments
          (backendDeploymentName s.backend) = some d' ∧ CarriedOver s.backend workload d d' ∧
        ((ensureBackendObjects r s.backend).eval BackendCluster.answer
            ((ensureBackendObjects r s.backend).eval BackendCluster.answer s).2).2 =
          ((ensureBackendObjects r s.backend).eval BackendCluster.answer s).2) ↔
      reservedPair d.spec.template.spec.volumes c.volumeMounts ≠ none ∨
        PairLast workload.deployment.podTemplate.spec.volumes dc.volumeMounts := by
  obtain ⟨hvalid, service, next, hservice, hnext⟩ :=
    BackendCluster.of_ensureBackendObjects_ok hcalm hnamed hworkload hd hok
  obtain ⟨hspec, again, hagain, hlabels, howners, hagainSpec⟩ :=
    ownedDeployment_again hsettles hnext
  rw [BackendCluster.eval_ensureBackendObjects hcalm hnamed hworkload hvalid hd hservice, hnext]
  dsimp only
  rw [Function.update_self]
  have hcarried : CarriedOver s.backend workload d (afterPatch d next) :=
    carriedOver_of_spec hc hdc (spec_afterPatch.trans hspec)
  -- the second run starts from the objects the first one wrote
  let written : BackendCluster := { s with
    services := Function.update s.services (backendServiceName s.backend) (some service)
    deployments := Function.update s.deployments (backendDeploymentName s.backend)
      (some (afterPatch d next)) }
  have hwritten : written.Named :=
    (hnamed.updateService (BackendCluster.name_ownedService hnamed hservice)).updateDeployment
      (d := afterPatch d next) (hnamed.deployment _ d hd)
  have hrun := BackendCluster.eval_ensureBackendObjects (s := written) (r := r) hcalm hwritten
    hworkload hvalid (Function.update_self _ _ _)
    ((congrArg _ (Function.update_self _ _ _)).trans (ownedService_idem hsettles hservice))
  rw [hagain] at hrun
  rw [show (ensureBackendObjects r s.backend).eval BackendCluster.answer _ = _ from hrun]
  have hsame : afterPatch (afterPatch d next) again = afterPatch d next ↔
      reservedPair d.spec.template.spec.volumes c.volumeMounts ≠ none ∨
        PairLast workload.deployment.podTemplate.spec.volumes dc.volumeMounts := by
    rw [afterPatch_eq_self_iff, labels_afterPatch, ownerReferences_afterPatch, spec_afterPatch,
      hagainSpec, declaredDeployment_spec_again_iff hspec, and_iff_right hlabels,
      and_iff_right howners]
    exact preserveTransitionRuntime_idem_iff hc
      (show findContainer _ (declaredTemplate s.backend workload).spec.containers = _ from hdc)
  rw [← hsame]
  constructor
  · rintro ⟨d', -, -, heq⟩
    have := congrArg (fun t => t.deployments (backendDeploymentName s.backend)) heq
    simpa [written] using this
  · intro heq
    refine ⟨_, rfl, hcarried, ?_⟩
    dsimp only
    rw [heq]
    simp only [written, Function.update_idem]

namespace KeptDemo

/-- A workload that declares a reserved mount, and these volumes. -/
def workload (volumes : List Volume) : BackendWorkloadSpec :=
  { RaceDemo.workload "image" with
    deployment :=
      { name := ""
        replicas := none
        strategy := ""
        podTemplate :=
          { labels := ∅
            annotations := ∅
            spec := ⟨[⟨"runtime", [], [], [⟨chatTemplateVolumeName, "/template", true, ""⟩],
              Finmap.singleton "image" "image"⟩], volumes, ∅⟩ } } }

def reserved : Volume := ⟨chatTemplateVolumeName, .other "emptyDir"⟩

def cache : Volume := ⟨"cache", .other "emptyDir"⟩

/-- The backend with these declared volumes; its Deployment has none yet. -/
def cluster (volumes : List Volume) : BackendCluster where
  backend :=
    ⟨.named "b", { LLMBackendSpec.zero with type := .vllm, workload := some (workload volumes) },
      .zero⟩
  before := []
  after := []
  models := []
  activeModels := []
  services _ := none
  deployments name := if name = "b" then some RaceDemo.deployment else none
  health _ _ := .ok ()
  fault _ := none

theorem cluster_named : (cluster volumes).Named := by
  refine ⟨?_, ?_⟩
  · intro name service h
    cases h
  · intro name d h
    simp only [cluster] at h
    split at h
    · rename_i hname
      cases h
      exact hname.symm
    · cases h

/-- A reconcile of that backend. -/
def reconciled (volumes : List Volume) (s : BackendCluster) : Except Err Unit × BackendCluster :=
  (ensureBackendObjects RaceDemo.reconciler (cluster volumes).backend).eval BackendCluster.answer s

end KeptDemo

open KeptDemo

/-- The reserved volume is declared last: a second run changes nothing. -/
theorem workload_kept_iff_last :
    (reconciled [cache, reserved] (cluster [cache, reserved])).1 = .ok () ∧
      ∃ d', (reconciled [cache, reserved] (cluster [cache, reserved])).2.deployments "b" = some d' ∧
        CarriedOver (cluster [cache, reserved]).backend (workload [cache, reserved])
          RaceDemo.deployment d' ∧
        (reconciled [cache, reserved]
          (reconciled [cache, reserved] (cluster [cache, reserved])).2).2 =
          (reconciled [cache, reserved] (cluster [cache, reserved])).2 :=
  ⟨by decide, (workload_kept_iff RaceDemo.reconciler (fun _ _ _ h => h)
    (cluster [cache, reserved]) (fun _ => rfl) (cluster_named _) (workload [cache, reserved]) rfl
    RaceDemo.deployment (by decide) _ _ rfl rfl (by decide)).mpr
      (Or.inr (Or.inr ⟨⟨reserved, by decide⟩, _, rfl⟩))⟩

/-- The reserved volume is declared before another one: the second run moves it behind. -/
theorem workload_moved :
    (reconciled [reserved, cache] (cluster [reserved, cache])).1 = .ok () ∧
      (reconciled [reserved, cache]
        (reconciled [reserved, cache] (cluster [reserved, cache])).2).2 ≠
        (reconciled [reserved, cache] (cluster [reserved, cache])).2 := by
  refine ⟨by decide, fun h => ?_⟩
  exact absurd (congrArg (fun s => s.deployments "b") h) (by decide)

end LlmOperator.Controller
