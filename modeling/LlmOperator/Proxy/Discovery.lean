import LlmOperator.Proxy.Routing

/-!
# Finding the active backend

`syncActiveDeployment` reads the Deployment of every observed backend, in whatever order the
maps are visited, and then writes the proxy's state in one locked section. When nobody else acts
in between, what it does depends on the Deployments and the registry only: the order decides at
most which error is reported, and the state is either left as it was or taken over as a whole.

The loop ends early only with an error. So it ends without one when every Deployment can be
read, at most one is active and an active one is annotated, and this can be said without
the order (`scan_eq_none_iff`, `scan_eq_some_iff`).

The backends are told apart by their names, as in the comparison that the source makes.
-/

namespace LlmOperator.Proxy

open Api Data Interaction Controller

/-! ## The locked section and the time -/

/-- The state of the proxy, with the time since which the active model is active. -/
structure TimedState extends ProxyState where
  activeSince : Time
  deriving DecidableEq

variable {model : String} {backend : BackendConfig}

section Locked

variable {Body : Type} (p : ProxyConfig Body)

/-- The locked section of `syncActiveDeployment`, at the time `now`. -/
def installActive (s : TimedState) (model : String) (active : BackendConfig) (now : Time) :
    Option Err × TimedState :=
  match checkActive p s.toProxyState model active with
  | some e => (some e, s)
  | none =>
    let s := if s.active ≠ model then { s with active := model, activeSince := now } else s
    (none, { s with backend := active.url, backendName := active.name })

/-- The annotated model is configured, for a backend of this name. -/
def ConfiguredFor (s : ProxyState) (model : String) (active : BackendConfig) : Prop :=
  ∃ cfg configured, s.registry.models.lookup model = some cfg ∧
    backendFor p s.backend cfg = .ok configured ∧ configured.name = active.name

theorem checkActive_eq_none_iff {s : ProxyState} {active : BackendConfig} :
    checkActive p s model active = none ↔ ConfiguredFor p s model active := by
  unfold checkActive ConfiguredFor
  cases s.registry.models.lookup model with
  | none => simp
  | some cfg =>
    cases hbackend : backendFor p s.backend cfg with
    | error e => simp [hbackend]
    | ok configured => simp [hbackend]

theorem installActive_of_configuredFor {s : TimedState} {active : BackendConfig}
    (h : ConfiguredFor p s.toProxyState model active) (now : Time) :
    installActive p s model active now = (none,
      { registry := s.registry, active := model, backend := active.url, backendName := active.name,
        activeSince := if s.active = model then s.activeSince else now }) := by
  rw [installActive, (checkActive_eq_none_iff p).mpr h]
  by_cases hactive : s.active = model
  · simp [hactive]
  · simp [hactive]

theorem installActive_of_not_configuredFor {s : TimedState} {active : BackendConfig}
    (h : ¬ ConfiguredFor p s.toProxyState model active) (now : Time) :
    ∃ e, installActive p s model active now = (some e, s) := by
  rw [← checkActive_eq_none_iff, ← ne_eq, Option.ne_none_iff_exists'] at h
  obtain ⟨e, he⟩ := h
  exact ⟨e, by rw [installActive, he]⟩

end Locked

/-! ## A sync on its own -/

/-- What reading each Deployment gives, and the time. -/
structure Sight where
  read : String → Except Err Deployment
  now : Time

/-- An order in which the maps are visited. -/
structure MapOrder where
  models : FMap String ModelConfig → List ModelConfig
  backends : FMap String BackendConfig → List BackendConfig
  ranges_models : ∀ m : FMap String ModelConfig, m.Ranges (models m)
  ranges_backends : ∀ m : FMap String BackendConfig, m.Ranges (backends m)

section Sync

variable {Body : Type} (p : ProxyConfig Body) (view : Sight) (order : MapOrder) (s : TimedState)

/-- The answers when nobody else acts. -/
def soloAnswer (s : TimedState) (op : Serving.Op) : Serving.Ans op × TimedState :=
  match op with
  | .inl (.getDeployment name) => (view.read name, s)
  | .inl c => (c.someAnswer, s)
  | .inr (.overlay name) => (s.registry.overlays.lookup name, s)
  | .inr (.model name) => (s.registry.models.lookup name, s)
  | .inr (.coalescedOperatorTransition _) => (none, s)
  | .inr .models => (order.models s.registry.models, s)
  | .inr (.range backends) => (order.backends backends, s)
  | .inr .backendURL => (s.backend, s)
  | .inr (.publishActive model active) => installActive p s model active view.now
  | .inr .active => (s.active, s)
  | .inr .anySwitchInFlight => (false, s)
  | .inr .reverseProxy => (s.backend, s)
  | .inr .loadRegistry => (.ok s.registry, s)
  | .inr (.setRegistry next) => ((), { s with registry := next })

/-- What `syncActiveDeployment` returns, and the state it leaves. -/
def sync (s : TimedState) : Option Err × TimedState :=
  (syncActiveDeployment p).eval (soloAnswer p view order) s

/-- The backends in the order in which they are looked at. -/
def visited (s : ProxyState) : List BackendConfig :=
  let backends := registeredBackends p (order.models s.registry.models)
  if backends = ∅ then [singleBackend p s.backend] else order.backends backends

theorem perm_visited (s : ProxyState) : (visited p order s).Perm (observed p s) := by
  unfold visited observed
  rw [registeredBackends_of_ranges p (order.ranges_models s.registry.models)]
  simp only
  split
  · exact List.Perm.refl _
  · apply Multiset.coe_eq_coe.mp
    exact (order.ranges_backends _).trans (FMap.ranges_values _).symm

/-- What the loop over the backends ends with. -/
def scan : List BackendConfig → Option (BackendConfig × String) →
    Except Err (Option (BackendConfig × String))
  | [], found => .ok found
  | backend :: rest, found =>
    match view.read backend.deployment with
    | .error e => .error (.wrap ("get " ++ backend.name ++ " backend Deployment") e)
    | .ok d =>
      match lookAt backend found d with
      | .error e => .error e
      | .ok found => scan rest found

theorem eval_findActive (backends : List BackendConfig) (found : Option (BackendConfig × String)) :
    (findActive backends found).eval (soloAnswer p view order) s =
      (scan view backends found, s) := by
  induction backends generalizing found with
  | nil => rfl
  | cons backend backends ih =>
    have hread : (api (.getDeployment backend.deployment)).eval (soloAnswer p view order) s =
        (view.read backend.deployment, s) := rfl
    rw [findActive, Prog.eval_bind, hread, scan]
    cases view.read backend.deployment with
    | error e => rfl
    | ok d =>
      simp only
      cases lookAt backend found d with
      | error e => rfl
      | ok found' => exact ih found'

theorem eval_rangeBackends :
    (rangeBackends p (registeredBackends p (order.models s.registry.models))).eval
        (soloAnswer p view order) s = (visited p order s.toProxyState, s) := by
  unfold rangeBackends visited
  simp only
  split <;> rfl

theorem sync_eq :
    sync p view order s =
      match scan view (visited p order s.toProxyState) none with
      | .error e => (some e, s)
      | .ok none => (none, s)
      | .ok (some (backend, model)) => installActive p s model backend view.now := by
  have hmodels : (memory .models).eval (soloAnswer p view order) s =
      (order.models s.registry.models, s) := rfl
  unfold sync syncActiveDeployment
  rw [Prog.eval_bind, hmodels, Prog.eval_bind, eval_rangeBackends, Prog.eval_bind, eval_findActive]
  cases scan view (visited p order s.toProxyState) none with
  | error e => rfl
  | ok found =>
    cases found with
    | none => rfl
    | some x => rfl

end Sync

/-! ## What the loop finds -/

namespace Sight

variable (view : Sight) {backends : List BackendConfig} {name : String} {other : BackendConfig}

/-- The Deployment of the backend can be read, and asks for another number of replicas than one. -/
def Idle (backend : BackendConfig) : Prop :=
  ∃ d, view.read backend.deployment = .ok d ∧ d.spec.replicas ≠ none ∧ d.spec.replicas ≠ some 1

/-- The Deployment of the backend asks for one replica, or for no number, and is annotated with
the model. -/
def Carries (backend : BackendConfig) (model : String) : Prop :=
  ∃ d, view.read backend.deployment = .ok d ∧
    (d.spec.replicas = none ∨ d.spec.replicas = some 1) ∧
    d.spec.template.annotations.lookup activeModelAnno = some model ∧ model ≠ ""

/-- Of the backends just this one is active, and it is annotated with the model. -/
structure Alone (backends : List BackendConfig) (backend : BackendConfig) (model : String) :
    Prop where
  mem : backend ∈ backends
  carries : view.Carries backend model
  idle : ∀ other ∈ backends, other ≠ backend → view.Idle other

variable {view}

theorem Carries.not_idle (h : view.Carries backend model) : ¬ view.Idle backend := by
  rintro ⟨d, hread, hnone, hone⟩
  obtain ⟨d', hread', hactive, -⟩ := h
  cases hread.symm.trans hread'
  exact hactive.elim hnone hone

theorem scan_cons_of_idle (h : view.Idle backend) (rest : List BackendConfig)
    (found : Option (BackendConfig × String)) :
    scan view (backend :: rest) found = scan view rest found := by
  obtain ⟨d, hread, hnone, hone⟩ := h
  simp [scan, hread, lookAt, isActive, hnone, hone]

theorem scan_cons_of_carries (h : view.Carries backend model) (rest : List BackendConfig) :
    scan view (backend :: rest) none = scan view rest (some (backend, model)) := by
  obtain ⟨d, hread, hactive, hanno, hne⟩ := h
  simp [scan, hread, lookAt, isActive, hactive, annotation, hanno, hne]

/-- A second active Deployment ends the loop. -/
theorem scan_cons_some_of_not_idle (h : ¬ view.Idle backend) (rest : List BackendConfig)
    (x : BackendConfig × String) : ∃ e, scan view (backend :: rest) (some x) = .error e := by
  unfold scan
  cases hread : view.read backend.deployment with
  | error e => exact ⟨_, rfl⟩
  | ok d =>
    have hactive : d.spec.replicas = none ∨ d.spec.replicas = some 1 := by
      by_contra hne
      exact h ⟨d, hread, not_or.mp hne⟩
    simp [lookAt, isActive, hactive]

/-- So does a Deployment that cannot be read, or is active without an annotation. -/
theorem scan_cons_none_of_not_idle (h : ¬ view.Idle backend)
    (hcarries : ∀ model, ¬ view.Carries backend model) (rest : List BackendConfig) :
    ∃ e, scan view (backend :: rest) none = .error e := by
  unfold scan
  cases hread : view.read backend.deployment with
  | error e => exact ⟨_, rfl⟩
  | ok d =>
    have hactive : d.spec.replicas = none ∨ d.spec.replicas = some 1 := by
      by_contra hne
      exact h ⟨d, hread, not_or.mp hne⟩
    cases hanno : d.spec.template.annotations.lookup activeModelAnno with
    | none => simp [lookAt, isActive, hactive, annotation, hanno]
    | some model =>
      have hempty : model = "" := by
        by_contra hne
        exact hcarries model ⟨d, hread, hactive, hanno, hne⟩
      simp [lookAt, isActive, hactive, annotation, hanno, hempty]

/-- Once a backend is found, all others have to be idle. -/
theorem scan_some_eq_ok_iff {x : BackendConfig × String} {found : Option (BackendConfig × String)} :
    scan view backends (some x) = .ok found ↔
      (∀ backend ∈ backends, view.Idle backend) ∧ found = some x := by
  induction backends with
  | nil =>
    rw [scan]
    simp [eq_comm]
  | cons backend rest ih =>
    by_cases hidle : view.Idle backend
    · rw [scan_cons_of_idle hidle, ih]
      simp [hidle]
    · obtain ⟨e, herr⟩ := scan_cons_some_of_not_idle hidle rest x
      rw [herr]
      simp [hidle]

theorem scan_eq_none_iff :
    scan view backends none = .ok none ↔ ∀ backend ∈ backends, view.Idle backend := by
  induction backends with
  | nil => simp [scan]
  | cons backend rest ih =>
    by_cases hidle : view.Idle backend
    · rw [scan_cons_of_idle hidle, ih]
      simp [hidle]
    · refine iff_of_false ?_ fun h => hidle (h backend List.mem_cons_self)
      by_cases hcarries : ∃ model, view.Carries backend model
      · obtain ⟨model, hmodel⟩ := hcarries
        rw [scan_cons_of_carries hmodel, scan_some_eq_ok_iff]
        simp
      · obtain ⟨e, herr⟩ := scan_cons_none_of_not_idle hidle (not_exists.mp hcarries) rest
        rw [herr]
        simp

/-- The first backend is the one that is found. -/
theorem alone_cons_of_carries {rest : List BackendConfig} (hnew : backend ∉ rest)
    (h : view.Carries backend model) :
    view.Alone (backend :: rest) other name ↔
      (∀ b ∈ rest, view.Idle b) ∧ (other, name) = (backend, model) := by
  constructor
  · intro halone
    have heq : backend = other := by
      by_contra hne
      exact h.not_idle (halone.idle backend List.mem_cons_self hne)
    subst heq
    obtain ⟨d, hread, -, hanno, -⟩ := halone.carries
    obtain ⟨d', hread', -, hanno', -⟩ := h
    cases hread.symm.trans hread'
    cases hanno.symm.trans hanno'
    refine ⟨fun b hb => halone.idle b (List.mem_cons_of_mem _ hb) ?_, rfl⟩
    rintro rfl
    exact hnew hb
  · rintro ⟨hidle, heq⟩
    cases heq
    refine ⟨List.mem_cons_self, h, fun b hb hne => ?_⟩
    exact hidle b ((List.mem_cons.mp hb).resolve_left hne)

theorem alone_cons_of_idle {rest : List BackendConfig} (h : view.Idle backend) :
    view.Alone (backend :: rest) other name ↔ view.Alone rest other name := by
  constructor
  · intro halone
    refine ⟨(List.mem_cons.mp halone.mem).resolve_left ?_, halone.carries,
      fun b hb => halone.idle b (List.mem_cons_of_mem _ hb)⟩
    rintro rfl
    exact halone.carries.not_idle h
  · intro halone
    refine ⟨List.mem_cons_of_mem _ halone.mem, halone.carries, fun b hb hne => ?_⟩
    cases List.mem_cons.mp hb with
    | inl heq => exact heq ▸ h
    | inr hrest => exact halone.idle b hrest hne

theorem scan_eq_some_iff (hnodup : backends.Nodup) :
    scan view backends none = .ok (some (other, name)) ↔ view.Alone backends other name := by
  induction backends with
  | nil =>
    refine iff_of_false (by simp [scan]) fun h => ?_
    exact List.not_mem_nil h.mem
  | cons backend rest ih =>
    obtain ⟨hnew, hrest⟩ := List.nodup_cons.mp hnodup
    by_cases hidle : view.Idle backend
    · rw [scan_cons_of_idle hidle, ih hrest, alone_cons_of_idle hidle]
    · by_cases hcarries : ∃ model, view.Carries backend model
      · obtain ⟨model, hmodel⟩ := hcarries
        rw [scan_cons_of_carries hmodel, scan_some_eq_ok_iff, alone_cons_of_carries hnew hmodel,
          Option.some_inj]
      · obtain ⟨e, herr⟩ := scan_cons_none_of_not_idle hidle (not_exists.mp hcarries) rest
        rw [herr]
        refine iff_of_false (by simp) fun h => ?_
        by_cases heq : backend = other
        · exact hcarries ⟨name, heq ▸ h.carries⟩
        · exact hidle (h.idle backend List.mem_cons_self heq)

/-- Neither condition depends on the order of the backends. -/
theorem Alone.perm {backends' : List BackendConfig} (h : backends.Perm backends')
    (halone : view.Alone backends backend model) : view.Alone backends' backend model :=
  ⟨h.mem_iff.mp halone.mem, halone.carries,
    fun other hother => halone.idle other (h.mem_iff.mpr hother)⟩

end Sight

/-! ## The outcome -/

section Outcome

variable {Body : Type} (p : ProxyConfig Body) (view : Sight)

theorem sync_of_idle {s : TimedState}
    (h : ∀ backend ∈ observed p s.toProxyState, view.Idle backend) (order : MapOrder) :
    sync p view order s = (none, s) := by
  have hscan : scan view (visited p order s.toProxyState) none = .ok none := by
    rw [Sight.scan_eq_none_iff]
    intro backend hmem
    exact h backend ((perm_visited p order s.toProxyState).mem_iff.mp hmem)
  rw [sync_eq, hscan]

section Distinct

variable {s : TimedState} (hnames : ((observed p s.toProxyState).map (·.name)).Nodup)
include hnames

theorem nodup_visited (order : MapOrder) : (visited p order s.toProxyState).Nodup :=
  (perm_visited p order s.toProxyState).nodup_iff.mpr hnames.of_map

theorem sync_of_alone (h : view.Alone (observed p s.toProxyState) backend model)
    (order : MapOrder) :
    sync p view order s = installActive p s model backend view.now := by
  have hscan : scan view (visited p order s.toProxyState) none = .ok (some (backend, model)) :=
    (Sight.scan_eq_some_iff (nodup_visited p hnames order)).mpr
      (h.perm (perm_visited p order s.toProxyState).symm)
  rw [sync_eq, hscan]

theorem sync_of_neither (hidle : ¬ ∀ backend ∈ observed p s.toProxyState, view.Idle backend)
    (halone : ¬ ∃ backend model, view.Alone (observed p s.toProxyState) backend model)
    (order : MapOrder) : ∃ e, sync p view order s = (some e, s) := by
  have hperm := perm_visited p order s.toProxyState
  rw [sync_eq]
  cases hscan : scan view (visited p order s.toProxyState) none with
  | error e => exact ⟨e, rfl⟩
  | ok found =>
    cases found with
    | none =>
      rw [Sight.scan_eq_none_iff] at hscan
      exact absurd (fun backend hmem => hscan backend (hperm.mem_iff.mpr hmem)) hidle
    | some x =>
      rw [Sight.scan_eq_some_iff (nodup_visited p hnames order)] at hscan
      exact absurd ⟨x.1, x.2, hscan.perm hperm⟩ halone

/-- A sync takes over the model and the backend that it finds as a whole, or nothing. -/
theorem sync_outcome (order : MapOrder) :
    (∃ e, sync p view order s = (some e, s) ∧
        (¬ ∀ backend ∈ observed p s.toProxyState, view.Idle backend) ∧
        ¬ ∃ backend model, view.Alone (observed p s.toProxyState) backend model ∧
          ConfiguredFor p s.toProxyState model backend) ∨
      (sync p view order s = (none, s) ∧
        ∀ backend ∈ observed p s.toProxyState, view.Idle backend) ∨
      ∃ backend model, view.Alone (observed p s.toProxyState) backend model ∧
        ConfiguredFor p s.toProxyState model backend ∧
        sync p view order s = (none,
          { registry := s.registry, active := model, backend := backend.url,
            backendName := backend.name,
            activeSince := if s.active = model then s.activeSince else view.now }) := by
  by_cases hidle : ∀ backend ∈ observed p s.toProxyState, view.Idle backend
  · exact .inr (.inl ⟨sync_of_idle p view hidle order, hidle⟩)
  by_cases hfound : ∃ backend model, view.Alone (observed p s.toProxyState) backend model ∧
      ConfiguredFor p s.toProxyState model backend
  · obtain ⟨backend, model, halone, hconfigured⟩ := hfound
    refine .inr (.inr ⟨backend, model, halone, hconfigured, ?_⟩)
    rw [sync_of_alone p view hnames halone order, installActive_of_configuredFor p hconfigured]
  · refine .inl ?_
    have herr : ∃ e, sync p view order s = (some e, s) := by
      by_cases halone : ∃ backend model, view.Alone (observed p s.toProxyState) backend model
      · obtain ⟨backend, model, halone⟩ := halone
        rw [sync_of_alone p view hnames halone order]
        exact installActive_of_not_configuredFor p (fun h => hfound ⟨backend, model, halone, h⟩) _
      · exact sync_of_neither p view hnames hidle halone order
    obtain ⟨e, he⟩ := herr
    exact ⟨e, he, hidle, hfound⟩

/-- The order decides at most which error is reported. -/
theorem sync_order (order order' : MapOrder) :
    (sync p view order' s).1.isSome = (sync p view order s).1.isSome ∧
      (sync p view order' s).2 = (sync p view order s).2 := by
  by_cases hidle : ∀ backend ∈ observed p s.toProxyState, view.Idle backend
  · rw [sync_of_idle p view hidle order, sync_of_idle p view hidle order']
    exact ⟨rfl, rfl⟩
  by_cases halone : ∃ backend model, view.Alone (observed p s.toProxyState) backend model
  · obtain ⟨backend, model, halone⟩ := halone
    rw [sync_of_alone p view hnames halone order, sync_of_alone p view hnames halone order']
    exact ⟨rfl, rfl⟩
  · obtain ⟨e, he⟩ := sync_of_neither p view hnames hidle halone order
    obtain ⟨e', he'⟩ := sync_of_neither p view hnames hidle halone order'
    rw [he, he']
    exact ⟨rfl, rfl⟩

end Distinct

end Outcome

/-- By the keys. -/
def MapOrder.byKey : MapOrder where
  models := FMap.values
  backends := FMap.values
  ranges_models := FMap.ranges_values
  ranges_backends := FMap.ranges_values

/-- By the keys, from the last to the first. -/
def MapOrder.reversed : MapOrder where
  models m := m.values.reverse
  backends m := m.values.reverse
  ranges_models m := (Multiset.coe_reverse _).trans (FMap.ranges_values m)
  ranges_backends m := (Multiset.coe_reverse _).trans (FMap.ranges_values m)

namespace Demo

/-- The operator has switched from the first model to the second. -/
def switched : Sight where
  read name :=
    match (serving "b").deployments.find? fun d => d.name == name with
    | some d => .ok d
    | none => .error (.notFound name)
  now := 9

def timed : TimedState := { site.proxy with activeSince := 3 }

end Demo

end LlmOperator.Proxy
