import LlmOperator.Controller.Cluster
import LlmOperator.Proxy.Inference

/-!
# Where a request is forwarded to

Requests, refreshes of the registry and Deployment watches run at the same time, while the
operator changes the `LLMActiveModel` and the Deployments. A request for a model should be
forwarded only at a moment when that model is the active one and the proxy's backend is its
backend.

Before it is forwarded, a request makes sure that the operator reports its model stable, and then
takes over whatever Deployment is active. It does not look at the outcome. So it reaches its
model when the Deployments serve that model from the one moment to the other and nobody
else writes the proxy's state in between.
-/

namespace LlmOperator.Proxy

open Api Data Interaction Controller

/-! ## The system -/

/-- The proxy and what it sees of the cluster. -/
structure Site where
  proxy : ProxyState
  object : LLMActiveModel
  deployment : String → Option Deployment

/-- What the proxy's goroutines are for. -/
inductive Goroutine (Body : Type) where
  | request (r : Request Body)
  | refresh
  | watch

inductive Ended (Body : Type) where
  | answered (response : Response Body)
  | synced (err : Option Err)

section System

variable {Body : Type} (p : ProxyConfig Body)

def Site.ApiExec (s : Site) : (c : ProxyCall) → c.Answer → Site → Prop
  | .getActive, .ok am, s' => am = s.object ∧ s' = s
  | .getDeployment name, .ok d, s' => s.deployment name = some d ∧ s' = s
  | _, _, s' => s' = s

/-- What the sections under the lock answer and do. How a switch ends, whether one is under way
and what the API server lists is left open. -/
def Site.MemoryExec (s : Site) : (c : MemoryCall) → c.Answer → Site → Prop
  | .overlay name, a, s' => a = s.proxy.registry.overlays.lookup name ∧ s' = s
  | .model name, a, s' => a = s.proxy.registry.models.lookup name ∧ s' = s
  | .coalescedOperatorTransition _, _, s' => s' = s
  | .models, l, s' => s.proxy.registry.models.Ranges l ∧ s' = s
  | .range backends, l, s' => backends.Ranges l ∧ s' = s
  | .backendURL, url, s' => url = s.proxy.backend ∧ s' = s
  | .publishActive model active, e, s' =>
    (e, s') = ((publishActive p s.proxy model active).1,
      { s with proxy := (publishActive p s.proxy model active).2 })
  | .active, a, s' => a = s.proxy.active ∧ s' = s
  | .anySwitchInFlight, _, s' => s' = s
  | .reverseProxy, url, s' => url = s.proxy.backend ∧ s' = s
  | .loadRegistry, _, s' => s' = s
  | .setRegistry next, _, s' => s' = { s with proxy := { s.proxy with registry := next } }

def Site.Exec (s : Site) (op : Serving.Op) (a : Serving.Ans op) (s' : Site) : Prop :=
  match op, a with
  | .inl c, a => s.ApiExec c a s'
  | .inr c, a => s.MemoryExec p c a s'

/-- Any requests, refreshes and watches, and anything happening to the cluster. -/
def routingSystem {τ : Type} (role : τ → Goroutine Body) : System Serving Site τ (Ended Body) where
  exec s op a s' := s.Exec p op a s'
  env s s' := s'.proxy = s.proxy
  program i :=
    match role i with
    | .request r => inference p r >>= fun response => .pure (.answered response)
    | .refresh => refresh p >>= fun e => .pure (.synced e)
    | .watch => syncActiveDeployment p >>= fun e => .pure (.synced e)

end System

/-! ## The observed backends -/

variable {models : List ModelConfig} {t : List (Event Serving)}

section Observed

variable {Body : Type} (p : ProxyConfig Body)

/-- The backends that `syncActiveDeployment` looks at. -/
def observed (q : ProxyState) : List BackendConfig :=
  let backends := registeredBackends p q.registry.models.values
  if backends = ∅ then [singleBackend p q.backend] else backends.values

theorem registeredBackends_of_ranges {q : ProxyState} (h : q.registry.models.Ranges models) :
    registeredBackends p models = registeredBackends p q.registry.models.values :=
  registeredBackends_congr p fun cfg =>
    (h.mem_iff cfg).trans ((FMap.ranges_values q.registry.models).mem_iff cfg).symm

/-- In whatever order the backends are visited, they are the observed ones. -/
theorem mem_observed_of_ranges {q : ProxyState} {backends : List BackendConfig}
    (hmodels : q.registry.models.Ranges models) (hne : registeredBackends p models ≠ ∅)
    (h : (registeredBackends p models).Ranges backends) (b : BackendConfig) :
    b ∈ backends ↔ b ∈ observed p q := by
  rw [registeredBackends_of_ranges p hmodels] at hne h
  rw [h.mem_iff, observed, if_neg hne, (FMap.ranges_values _).mem_iff]

end Observed

/-! ## Conditions on a run -/

section Conditions

variable {Body : Type} (p : ProxyConfig Body)

/-- Looking for an overlay of the name in the body: the base model counts if there is one. -/
def namesModel : Event Serving → Option String
  | ⟨.inr (.overlay name), none⟩ => some name
  | ⟨.inr (.overlay _), some overlay⟩ => some overlay.baseModel
  | _ => none

/-- The model that a request names, from the first thing it does. -/
def named (t : List (Event Serving)) : Option String := t.head?.bind namesModel

/-- The configuration that a request has looked up. -/
def lookedUp : Event Serving → Option ModelConfig
  | ⟨.inr (.model _), some cfg⟩ => some cfg
  | _ => none

/-- The operator reports the model stable, or the switch to it went well. -/
def settles (cfg : ModelConfig) : Event Serving → Bool
  | ⟨.inl .getActive, .ok am⟩ => am.status.modelName = cfg.name ∧ am.status.phase = .stable
  | ⟨.inr (.coalescedOperatorTransition _), none⟩ => true
  | _ => false

/-- The model a request names, once the request has seen it settled. -/
def settled (t : List (Event Serving)) : Option String :=
  match t.findSome? lookedUp with
  | some cfg => if t.any (settles cfg) then named t else none
  | none => none

/-- The cluster serves the model as the proxy's registry has it: the Deployment of its backend is
active and annotated with it, and no other observed Deployment is active. -/
def Serves (s : Site) (model : String) : Prop :=
  ∃ cfg ∈ s.proxy.registry.models.lookup model,
    ∃ b ∈ (backendFor p s.proxy.backend cfg).toOption, b ∈ observed p s.proxy ∧
      (∀ d ∈ s.deployment b.deployment, isActive d = true ∧
        annotation d.spec.template.annotations activeModelAnno = model) ∧
      ∀ b' ∈ observed p s.proxy, b' ≠ b → ∀ d ∈ s.deployment b'.deployment, isActive d = false

def isForward : Serving.Op → Bool
  | .inr .reverseProxy => true
  | _ => false

/-- After a request has seen its model settled, the cluster serves the model at each of its steps
until it is forwarded, and nobody else writes the proxy's state. -/
def routingConditions : Conditions Serving Site where
  env s t s' := ∀ _model ∈ settled t, s'.proxy = s.proxy
  call s t e := isForward e.1 = false → ∀ model ∈ settled t, Serves p s model

instance (s : Site) (model : String) : Decidable (Serves p s model) :=
  inferInstanceAs (Decidable (∃ cfg ∈ s.proxy.registry.models.lookup model, _))

instance (s : Site) (t : List (Event Serving)) (s' : Site) :
    Decidable ((routingConditions p).env s t s') :=
  inferInstanceAs (Decidable (∀ _model ∈ settled t, _))

instance (s : Site) (t : List (Event Serving)) (e : Event Serving) :
    Decidable ((routingConditions p).call s t e) :=
  inferInstanceAs (Decidable (_ → _))

/-- The proxy is set to the model and to the backend of the model. -/
def Routed (q : ProxyState) (model : String) : Prop :=
  q.active = model ∧ ∃ cfg ∈ q.registry.models.lookup model,
    ∃ b ∈ (backendFor p q.backend cfg).toOption, q.backend = b.url

instance (q : ProxyState) (model : String) : Decidable (Routed p q model) :=
  inferInstanceAs (Decidable (_ ∧ _))

end Conditions

/-! ## The walk of a request -/

theorem named_append (h : t ≠ []) (u : List (Event Serving)) : named (t ++ u) = named t := by
  cases t with
  | nil => exact absurd rfl h
  | cons e t => rfl

theorem settled_eq_some_iff {model : String} :
    settled t = some model ↔ named t = some model ∧
      ∃ cfg, t.findSome? lookedUp = some cfg ∧ ∃ e ∈ t, settles cfg e = true := by
  unfold settled
  cases t.findSome? lookedUp with
  | none => simp
  | some cfg =>
    simp only [Option.some.injEq, exists_eq_left', ← List.any_eq_true]
    by_cases h : t.any (settles cfg) = true
    · rw [if_pos h]
      exact (and_iff_left h).symm
    · rw [if_neg h]
      exact ⟨nofun, fun hx => absurd hx.2 h⟩

/-- What is settled stays settled. -/
theorem settled_append {model : String} (h : settled t = some model) (u : List (Event Serving)) :
    settled (t ++ u) = some model := by
  obtain ⟨hnamed, cfg, hcfg, e, he, hsettles⟩ := settled_eq_some_iff.mp h
  have hne : t ≠ [] := List.ne_nil_of_mem he
  refine settled_eq_some_iff.mpr ⟨(named_append hne u).trans hnamed, cfg, ?_, e,
    List.mem_append_left _ he, hsettles⟩
  rw [List.findSome?_append, hcfg, Option.some_or]

section Walk

variable {Body : Type} (p : ProxyConfig Body) {found : Option (BackendConfig × String)}

/-- The world of a request among everything else. It owes that it is forwarded to the model it
names. -/
def routingWorld : World Serving (Site × List (Event Serving)) where
  exec x op a y := x.1.Exec p op a y.1 ∧ y.2 = x.2 ++ [⟨op, a⟩] ∧
    (routingConditions p).call x.1 x.2 ⟨op, a⟩
  rely x y := y.2 = x.2 ∧ (routingConditions p).env x.1 x.2 y.1
  guar x op _ _ := op = .inr .reverseProxy → ∀ model ∈ named x.2, model ≠ "" →
    Routed p x.1.proxy model
  rely_refl _ := ⟨rfl, fun _ _ => rfl⟩
  rely_trans h h' := ⟨h'.1.trans h.1, fun m hm => (h'.2 m (h.1 ▸ hm)).trans (h.2 m hm)⟩

/-- The calls that only read. -/
def isRead : Serving.Op → Bool
  | .inl _ => true
  | .inr (.publishActive _ _) => false
  | .inr (.setRegistry _) => false
  | .inr .reverseProxy => false
  | .inr _ => true

theorem Site.Exec.proxy_eq {s s' : Site} {op : Serving.Op} {a : Serving.Ans op}
    (hop : isRead op = true) (h : s.Exec p op a s') : s'.proxy = s.proxy := by
  have hsame : ∀ {P : Prop}, P ∧ s' = s → s'.proxy = s.proxy := fun h => by rw [h.2]
  cases op with
  | inl c =>
    cases c with
    | getActive =>
      cases a with
      | ok am => exact hsame h
      | error e => exact congrArg Site.proxy h
    | getDeployment name =>
      cases a with
      | ok d => exact hsame h
      | error e => exact congrArg Site.proxy h
    | patchActive modelName => exact congrArg Site.proxy h
    | withTimeout => exact congrArg Site.proxy h
  | inr c =>
    cases c with
    | publishActive model active => cases hop
    | setRegistry next => cases hop
    | reverseProxy => cases hop
    | coalescedOperatorTransition modelName => exact congrArg Site.proxy h
    | anySwitchInFlight => exact congrArg Site.proxy h
    | loadRegistry => exact congrArg Site.proxy h
    | _ => exact hsame h

/-- The request has seen its model settled, and the proxy's state is `q` since. -/
structure Settling (model : String) (q : ProxyState) (x : Site × List (Event Serving)) : Prop where
  settled : settled x.2 = some model
  proxy : x.1.proxy = q

variable {p} {model : String} {q : ProxyState} {cfg : ModelConfig} {b : BackendConfig}
  {x y : Site × List (Event Serving)}

theorem Settling.rely (hx : Settling model q x) (h : (routingWorld p).rely x y) :
    Settling model q y := by
  refine ⟨?_, (h.2 model hx.settled).trans hx.proxy⟩
  rw [h.1]
  exact hx.settled

theorem Settling.serves (hx : Settling model q x) {op : Serving.Op} {a : Serving.Ans op}
    (h : (routingWorld p).exec x op a y) (hop : isForward op = false) : Serves p x.1 model :=
  h.2.2 hop model hx.settled

theorem Settling.keeps (p : ProxyConfig Body) (model : String) (q : ProxyState) :
    (routingWorld p).Keeps (fun op => isRead op = true) (Settling model q) where
  rely _ _ hx h := hx.rely h
  call x op a y hop hx h := by
    refine ⟨fun heq => ?_, ?_, (h.1.proxy_eq p hop).trans hx.proxy⟩
    · rw [heq] at hop
      cases hop
    · rw [h.2.1]
      exact settled_append hx.settled _

/-- What the cluster looks like while it serves the model, for the registry at that time. -/
theorem Serves.spec {s : Site} (h : Serves p s model) (hq : s.proxy = q)
    (hcfg : q.registry.models.lookup model = some cfg) (hb : backendFor p q.backend cfg = .ok b) :
    (∀ d ∈ s.deployment b.deployment, isActive d = true ∧
        annotation d.spec.template.annotations activeModelAnno = model) ∧
      ∀ b' ∈ observed p q, b' ≠ b → ∀ d ∈ s.deployment b'.deployment, isActive d = false := by
  subst hq
  obtain ⟨cfg', hcfg', b', hb', -, hactive, hothers⟩ := h
  cases Option.some.inj (hcfg.symm.trans hcfg')
  rw [hb] at hb'
  cases Option.some.inj hb'
  exact ⟨hactive, hothers⟩

theorem lookAt_of_inactive {d : Deployment} (h : isActive d = false) :
    lookAt b found d = .ok found := by
  rw [lookAt, if_neg (by rw [h]; exact Bool.false_ne_true)]

theorem lookAt_of_active {found' : Option (BackendConfig × String)} {d : Deployment}
    (h : isActive d = true) (hanno : annotation d.spec.template.annotations activeModelAnno = model)
    (hlook : lookAt b found d = .ok found') : found' = some (b, model) := by
  rw [lookAt, if_pos h, hanno] at hlook
  split at hlook
  · cases hlook
  · split at hlook
    · cases hlook
    · exact (Except.ok.inj hlook).symm

/-- Looking at the Deployments of observed backends finds the backend of the model, if it is
among them. -/
theorem safe_findActive (hcfg : q.registry.models.lookup model = some cfg)
    (hb : backendFor p q.backend cfg = .ok b) {backends : List BackendConfig}
    (hobserved : ∀ b' ∈ backends, b' ∈ observed p q) (hx : Settling model q x) :
    Safe (routingWorld p) (findActive backends found) (fun res y => Settling model q y ∧
      ∀ res', res = .ok res' → b ∈ backends ∨ found = some (b, model) →
        res' = some (b, model)) x := by
  induction backends generalizing found x with
  | nil =>
    refine ⟨hx, ?_⟩
    rintro res' hres (hmem | hfound)
    · cases hmem
    · cases hres
      exact hfound
  | cons b' backends ih =>
    refine (Settling.keeps p model q).safe_call (.inl (.getDeployment b'.deployment)) rfl hx ?_
    intro x₁ a y hrely hx₁ hexec hy
    cases a with
    | error e => exact ⟨hy, nofun⟩
    | ok d =>
      have hd : d ∈ x₁.1.deployment b'.deployment := hexec.1.1
      obtain ⟨hown, hothers⟩ := (hx₁.serves hexec rfl).spec hx₁.proxy hcfg hb
      have hrest : ∀ b'' ∈ backends, b'' ∈ observed p q :=
        fun b'' h => hobserved b'' (List.mem_cons_of_mem _ h)
      dsimp only [Prog.bind]
      by_cases hbb : b' = b
      · -- The model's own backend is active, with the model in its annotation.
        subst hbb
        obtain ⟨hactive, hanno⟩ := hown d hd
        cases hlook : lookAt b' found d with
        | error e => exact ⟨hy, nofun⟩
        | ok found' =>
          refine (ih hrest hy).mono ?_
          rintro res z ⟨hz, hres⟩
          exact ⟨hz, fun res' heq _ => hres res' heq
            (Or.inr (lookAt_of_active hactive hanno hlook))⟩
      · have hinactive := hothers b' (hobserved b' List.mem_cons_self) hbb d hd
        rw [lookAt_of_inactive hinactive]
        refine (ih hrest hy).mono ?_
        rintro res z ⟨hz, hres⟩
        refine ⟨hz, fun res' heq hor => hres res' heq (hor.imp_left fun hmem => ?_)⟩
        exact (List.mem_cons.mp hmem).resolve_left (Ne.symm hbb)

/-- The backends that are looked at are the observed ones. -/
theorem safe_rangeBackends (hmodels : q.registry.models.Ranges models) (hx : Settling model q x) :
    Safe (routingWorld p) (rangeBackends p (registeredBackends p models)) (fun backends y =>
      Settling model q y ∧ ∀ b, b ∈ backends ↔ b ∈ observed p q) x := by
  unfold rangeBackends
  by_cases hempty : registeredBackends p models = ∅
  · rw [if_pos hempty]
    refine (Settling.keeps p model q).safe_call (.inr .backendURL) rfl hx ?_
    intro x₁ url y _ hx₁ hexec hy
    have hurl : url = q.backend := by rw [hexec.1.1, hx₁.proxy]
    refine ⟨hy, fun b => ?_⟩
    rw [registeredBackends_of_ranges p hmodels] at hempty
    rw [observed, if_pos hempty, hurl]
  · rw [if_neg hempty]
    refine (Settling.keeps p model q).safe_call (.inr (.range _)) rfl hx ?_
    intro x₁ backends y _ _ hexec hy
    exact ⟨hy, mem_observed_of_ranges p hmodels hempty hexec.1.1⟩

/-- The model has a configuration and an observed backend while the cluster serves it. -/
theorem Serves.exists_backend {s : Site} (h : Serves p s model) (hq : s.proxy = q) :
    ∃ cfg b, q.registry.models.lookup model = some cfg ∧ backendFor p q.backend cfg = .ok b ∧
      b ∈ observed p q := by
  subst hq
  obtain ⟨cfg, hcfg, b, hb, hmem, -⟩ := h
  refine ⟨cfg, b, hcfg, ?_, hmem⟩
  cases hbackend : backendFor p s.proxy.backend cfg with
  | error e =>
    rw [hbackend] at hb
    cases hb
  | ok b' =>
    rw [hbackend] at hb
    exact congrArg Except.ok (Option.some.inj hb)

theorem runtimeBackend_url {url name : String} (h : runtimeBackend p url name = .ok b) :
    ∃ b', runtimeBackend p b.url name = .ok b' ∧ b.url = b'.url := by
  unfold runtimeBackend at h ⊢
  cases hlookup : p.backends.lookup name with
  | some b' =>
    rw [hlookup] at h
    exact ⟨b, h, rfl⟩
  | none =>
    simp only [hlookup] at h
    split at h
    · rename_i hname
      cases h
      exact ⟨_, if_pos hname, rfl⟩
    · cases h

/-- Once the proxy is set to the URL of a model's backend, that is the URL of the model's
backend. -/
theorem backendFor_url {url : String} (h : backendFor p url cfg = .ok b) :
    ∃ b', backendFor p b.url cfg = .ok b' ∧ b.url = b'.url := by
  unfold backendFor at h ⊢
  split at h
  · rename_i href
    exact ⟨b, by rw [if_pos href, h], rfl⟩
  · rename_i href
    rw [if_neg href]
    exact runtimeBackend_url h

theorem publishActive_served (hcfg : q.registry.models.lookup model = some cfg)
    (hb : backendFor p q.backend cfg = .ok b) :
    publishActive p q model b =
      (none, { q with active := model, backend := b.url, backendName := b.name }) := by
  simp [publishActive, checkActive, hcfg, hb]

theorem routed_published (hcfg : q.registry.models.lookup model = some cfg)
    (hb : backendFor p q.backend cfg = .ok b) :
    Routed p { q with active := model, backend := b.url, backendName := b.name } model := by
  obtain ⟨b', hb', hurl⟩ := backendFor_url hb
  exact ⟨rfl, cfg, hcfg, b', by rw [hb']; rfl, hurl⟩

/-- A request that has seen its model settled sets the proxy to it. -/
theorem safe_syncActiveDeployment (hx : Settling model q x) :
    Safe (routingWorld p) (syncActiveDeployment p) (fun res y => res = none →
      ∃ q', Settling model q' y ∧ Routed p q' model) x := by
  refine (Settling.keeps p model q).safe_call (.inr .models) rfl hx ?_
  intro x₁ models x₂ _ hx₁ hexec hx₂
  obtain ⟨cfg, b, hcfg, hb, hmem⟩ := (hx₁.serves hexec rfl).exists_backend hx₁.proxy
  have hmodels : q.registry.models.Ranges models := hx₁.proxy ▸ hexec.1.1
  show Safe (routingWorld p) (rangeBackends p (registeredBackends p models) >>= _) _ x₂
  refine Safe.bind ((safe_rangeBackends hmodels hx₂).mono ?_)
  rintro backends y ⟨hy, hbackends⟩
  refine Safe.bind ((safe_findActive hcfg hb (fun b' h => (hbackends b').mp h) hy).mono ?_)
  rintro res z ⟨hz, hres⟩
  cases res with
  | error e => exact nofun
  | ok found =>
    rw [hres found rfl (Or.inl ((hbackends b).mpr hmem))]
    intro z₁ hz₁ e w hexec
    refine ⟨nofun, fun _ => ?_⟩
    have hsettling := hz.rely hz₁
    have hw : (e, w.1) = ((publishActive p z₁.1.proxy model b).1,
        { z₁.1 with proxy := (publishActive p z₁.1.proxy model b).2 }) := hexec.1
    rw [hsettling.proxy, publishActive_served hcfg hb] at hw
    refine ⟨_, ⟨?_, congrArg Site.proxy (Prod.mk.inj hw).2⟩, routed_published hcfg hb⟩
    rw [hexec.2.1]
    exact settled_append hsettling.settled _

/-- A request that names the model, before it has looked up the configuration. -/
theorem safe_ensureActive (hnamed : named x.2 = some model)
    (hlookedUp : x.2.findSome? lookedUp = none) :
    Safe (routingWorld p) (ensureActive p model) (fun res y => res = none →
      ∃ q, Settling model q y ∧ Routed p q model) x := by
  have hne : x.2 ≠ [] := by
    intro h
    rw [h] at hnamed
    cases hnamed
  intro x₁ hx₁ a y hexec
  refine ⟨nofun, ?_⟩
  obtain ⟨-, hy, -⟩ := hexec
  rw [hx₁.1] at hy
  cases a with
  | none => exact nofun
  | some cfg =>
    have hcfg : y.2.findSome? lookedUp = some cfg := by
      rw [hy, List.findSome?_append, hlookedUp]
      rfl
    have hnamed₁ : named y.2 = some model := by
      rw [hy, named_append hne, hnamed]
    have hne₁ : y.2 ≠ [] := by
      rw [hy]
      simp
    -- Whatever settles the model is the next event.
    have hsettle : ∀ {t : List (Event Serving)} {e : Event Serving} {s : Site}, y.2 <+: t →
        settles cfg e = true → Settling model s.proxy (s, t ++ [e]) := by
      rintro _ e s ⟨u, rfl⟩ he
      refine ⟨settled_eq_some_iff.mpr ⟨?_, cfg, ?_, e, ?_, he⟩, rfl⟩
      · rw [List.append_assoc, named_append hne₁, hnamed₁]
      · rw [List.append_assoc, List.findSome?_append, hcfg, Option.some_or]
      · simp
    intro y₁ hy₁ r z hexec'
    refine ⟨nofun, ?_⟩
    obtain ⟨-, hz, -⟩ := hexec'
    rw [hy₁.1] at hz
    obtain ⟨s, t⟩ := z
    cases hz
    cases r with
    | error e => exact nofun
    | ok am =>
      show Safe (routingWorld p) (if am.status.modelName = cfg.name ∧ am.status.phase = .stable
        then _ else _) _ _
      split
      · rename_i hstable
        exact safe_syncActiveDeployment (hsettle List.prefix_rfl (decide_eq_true hstable))
      · intro z₁ hz₁ res w hexec''
        refine ⟨nofun, ?_⟩
        obtain ⟨-, hw, -⟩ := hexec''
        rw [hz₁.1] at hw
        obtain ⟨s', t'⟩ := w
        cases hw
        cases res with
        | some e => exact nofun
        | none => exact safe_syncActiveDeployment (hsettle (List.prefix_append _ _) rfl)

/-- Forwarding, for a request that names no model or has set the proxy to it. -/
theorem safe_forward (body : Option Body)
    (hx : ∀ model ∈ named x.2, model ≠ "" → ∃ q, Settling model q x ∧ Routed p q model) :
    Safe (routingWorld p) (forward body) (fun _ _ => True) x := by
  intro x₁ hx₁ url y hexec
  refine ⟨fun _ model hmodel hne => ?_, trivial⟩
  rw [hx₁.1] at hmodel
  obtain ⟨q, hsettling, hrouted⟩ := hx model hmodel hne
  rw [(hsettling.rely hx₁).proxy]
  exact hrouted

/-- A call that neither names a model nor forwards. -/
def Unnaming (op : Serving.Op) : Prop :=
  op ≠ .inr .reverseProxy ∧ ∀ a, namesModel ⟨op, a⟩ = none

theorem unnamed_keeps (p : ProxyConfig Body) :
    (routingWorld p).Keeps Unnaming (fun x => ∀ model ∈ named x.2, model = "") where
  rely x y hx h := by
    rw [h.1]
    exact hx
  call x op a y hop hx h := by
    refine ⟨fun heq => absurd heq hop.1, ?_⟩
    rw [h.2.1]
    by_cases hnil : x.2 = []
    · rw [hnil]
      intro model hmodel
      cases (hop.2 a).symm.trans hmodel
    · rw [named_append hnil]
      exact hx

theorem only_isAvailable : isAvailable.Only Unnaming := by
  refine ⟨⟨nofun, fun _ => rfl⟩, fun (active : String) => ?_⟩
  show Prog.Only _ (if active = "" then _ else _)
  split
  · trivial
  · exact ⟨⟨nofun, fun _ => rfl⟩, fun _ => trivial⟩

theorem safe_serve {requested : String} (body : Option Body)
    (hnamed : ∀ model ∈ named x.2, model = requested)
    (hrequested : requested ≠ "" → named x.2 = some requested)
    (hlookedUp : x.2.findSome? lookedUp = none) :
    Safe (routingWorld p) (serve p requested body) (fun _ _ => True) x := by
  unfold serve
  split
  · rename_i hne
    refine Safe.bind ((safe_ensureActive (hrequested hne) hlookedUp).mono ?_)
    intro res y hy
    cases res with
    | some e => trivial
    | none =>
      obtain ⟨q, hsettling, hrouted⟩ := hy rfl
      refine safe_forward body ?_
      intro model hmodel _
      obtain ⟨hnamed', -⟩ := settled_eq_some_iff.mp hsettling.settled
      cases Option.some.inj (hnamed'.symm.trans hmodel)
      exact ⟨q, hsettling, hrouted⟩
  · rename_i hempty
    rw [not_not] at hempty
    have hunnamed : ∀ model ∈ named x.2, model = "" := by
      rw [← hempty]
      exact hnamed
    refine Safe.bind (((unnamed_keeps p).safe only_isAvailable hunnamed).mono ?_)
    rintro available y ⟨-, hy⟩
    cases available with
    | true => exact safe_forward body fun model hmodel hne => absurd (hy model hmodel) hne
    | false => trivial

theorem safe_inference (r : Request Body) (s : Site) :
    Safe (routingWorld p) (inference p r) (fun _ _ => True) (s, []) := by
  unfold inference
  split
  · exact safe_serve r.body nofun (fun h => absurd rfl h) rfl
  · split
    · trivial
    · rename_i body _
      intro x₁ hx₁ a y hexec
      refine ⟨nofun, ?_⟩
      obtain ⟨-, hy, -⟩ := hexec
      rw [hx₁.1] at hy
      obtain ⟨s', t⟩ := y
      cases hy
      cases a with
      | none =>
        refine safe_serve (some body) ?_ (fun _ => rfl) rfl
        rintro model hmodel
        exact (Option.some.inj hmodel).symm
      | some overlay =>
        dsimp only [Prog.bind]
        split
        · trivial
        · cases p.applyOverlay body overlay with
          | error e => trivial
          | ok body' =>
            refine safe_serve (some body') ?_ (fun _ => rfl) rfl
            rintro model hmodel
            exact (Option.some.inj hmodel).symm

/-! ## The watches -/

/-- A call that does not forward. -/
def Unforwarding (op : Serving.Op) : Prop := op ≠ .inr .reverseProxy

theorem only_findActive (backends : List BackendConfig) (found : Option (BackendConfig × String)) :
    (findActive backends found).Only Unforwarding := by
  induction backends generalizing found with
  | nil => trivial
  | cons b backends ih =>
    refine ⟨nofun, fun a => ?_⟩
    cases a with
    | error e => trivial
    | ok d =>
      dsimp only [Prog.bind]
      cases lookAt b found d with
      | error e => trivial
      | ok found' => exact ih found'

theorem only_syncActiveDeployment (p : ProxyConfig Body) :
    (syncActiveDeployment p).Only Unforwarding := by
  refine ⟨nofun, fun models => ?_⟩
  show Prog.Only _ (rangeBackends p (registeredBackends p models) >>= _)
  refine Prog.only_bind ?_ fun backends => ?_
  · unfold rangeBackends
    by_cases hempty : registeredBackends p models = ∅
    · rw [if_pos hempty]
      exact ⟨nofun, fun _ => trivial⟩
    · rw [if_neg hempty]
      exact ⟨nofun, fun _ => trivial⟩
  · refine Prog.only_bind (only_findActive backends none) fun res => ?_
    rcases res with e | (_ | ⟨backend, model⟩)
    · trivial
    · trivial
    · exact ⟨nofun, fun _ => trivial⟩

theorem only_refresh (p : ProxyConfig Body) : (refresh p).Only Unforwarding := by
  refine ⟨nofun, fun a => ?_⟩
  cases a with
  | error e => trivial
  | ok next => exact ⟨nofun, fun _ => only_syncActiveDeployment p⟩

theorem unforwarding_keeps (p : ProxyConfig Body) :
    (routingWorld p).Keeps Unforwarding fun _ => True where
  rely _ _ _ _ := trivial
  call _ _ _ _ hop _ _ := ⟨fun heq => absurd heq hop, trivial⟩

end Walk

/-! ## The result -/

section Result

variable {Body τ : Type}

theorem routingSystem_fits (p : ProxyConfig Body) (role : τ → Goroutine Body) :
    (routingSystem p role).Fits (routingConditions p) (routingWorld p) fun _ => True where
  env _ _ _ _ := ⟨fun _ h => ⟨rfl, h⟩, trivial⟩
  call _ _ _ _ _ _ h hc := ⟨h, rfl, hc⟩
  others _ _ _ _ _ _ _ _ _ _ _ h _ := ⟨rfl, h⟩
  guar _ _ _ _ _ _ _ _ := trivial
  start i s _ := by
    show Safe (routingWorld p) (match role i with
      | .request r => _
      | .refresh => _
      | .watch => _) _ _
    cases role i with
    | request r => exact Safe.bind (safe_inference r s)
    | refresh => exact Safe.bind ((unforwarding_keeps p).safe_only (only_refresh p) trivial)
    | watch =>
      exact Safe.bind ((unforwarding_keeps p).safe_only (only_syncActiveDeployment p) trivial)

/-- **Requests reach the model they name**, in every run that meets `routingConditions`. Whenever a
request that names a model, or an overlay of it, is about to be forwarded, the model is the active
one and the proxy's backend is the backend of the model. -/
theorem requests_reach_named [DecidableEq τ] (p : ProxyConfig Body) (role : τ → Goroutine Body)
    (s₀ : Site) (c : Config Serving Site τ (Ended Body))
    (hreach : (routingSystem p role).Reach (routingConditions p) (.idle s₀) c) (i : τ)
    (t : List (Event Serving)) (k : String → Prog Serving (Ended Body))
    (hjob : c.job i = some ⟨t, .call (.inr .reverseProxy) k⟩)
    (model : String) (hnamed : named t = some model) (hne : model ≠ "") :
    Routed p c.state.proxy model := by
  obtain ⟨-, hsafe⟩ := hreach.safe (routingSystem_fits p role) trivial (Config.idle_allSafe _ _)
  have hexec : (routingWorld p).exec (c.state, t) (.inr .reverseProxy) c.state.proxy.backend
      (c.state, t ++ [⟨.inr .reverseProxy, c.state.proxy.backend⟩]) := ⟨⟨rfl, rfl⟩, rfl, nofun⟩
  exact hsafe.guar hjob hexec rfl model hnamed hne

end Result

/-! ## Runs -/

section Runs

/-- The operator has switched: the object and the Deployments are new. -/
structure Switch where
  object : LLMActiveModel
  deployments : List Deployment

def Site.switch (s : Site) (e : Switch) : Site :=
  { s with
    object := e.object
    deployment := fun name => e.deployments.find? fun d => d.name == name }

variable {Body τ : Type} (p : ProxyConfig Body)

/-- Switches always go well, and nothing new is listed. -/
def Site.answer (s : Site) : (op : Serving.Op) → Serving.Ans op × Site
  | .inl .getActive => (.ok s.object, s)
  | .inl (.patchActive _) => (.error .canceled, s)
  | .inl (.getDeployment name) =>
    match s.deployment name with
    | some d => (.ok d, s)
    | none => (.error (.notFound name), s)
  | .inl .withTimeout => (⟨0, false⟩, s)
  | .inr (.overlay name) => (s.proxy.registry.overlays.lookup name, s)
  | .inr (.model name) => (s.proxy.registry.models.lookup name, s)
  | .inr (.coalescedOperatorTransition _) => (none, s)
  | .inr .models => (s.proxy.registry.models.values, s)
  | .inr (.range backends) => (backends.values, s)
  | .inr .backendURL => (s.proxy.backend, s)
  | .inr (.publishActive model active) =>
    let x := publishActive p s.proxy model active
    (x.1, { s with proxy := x.2 })
  | .inr .active => (s.proxy.active, s)
  | .inr .anySwitchInFlight => (false, s)
  | .inr .reverseProxy => (s.proxy.backend, s)
  | .inr .loadRegistry => (.error .canceled, s)
  | .inr (.setRegistry next) => ((), { s with proxy := { s.proxy with registry := next } })

def sitePlayer : Player Serving Site Switch where
  edit e s := s.switch e
  answer s op := s.answer p op

theorem sitePlayer_sound (role : τ → Goroutine Body) :
    (sitePlayer p).Sound (routingSystem p role) where
  edit _ _ := rfl
  answer s op := by
    cases op with
    | inl c =>
      cases c with
      | getDeployment name =>
        simp only [sitePlayer, Site.answer]
        cases hd : s.deployment name with
        | some d => exact ⟨hd, rfl⟩
        | none => rfl
      | getActive => exact ⟨rfl, rfl⟩
      | patchActive modelName => rfl
      | withTimeout => rfl
    | inr c =>
      cases c with
      | models => exact ⟨FMap.ranges_values _, rfl⟩
      | range backends => exact ⟨FMap.ranges_values _, rfl⟩
      | _ => first | rfl | exact ⟨rfl, rfl⟩

end Runs

namespace Demo

/-- The body is the name of the model. -/
def proxy : ProxyConfig String where
  deployment := "llm-vllm"
  container := "vllm"
  backends := ∅
  parseURL url := .ok url
  headerModel body := some body
  applyOverlay _ overlay := .ok overlay.baseModel

/-- The cluster while it serves the model. -/
def serving (model : String) : Switch where
  object := Controller.Demo.activeModel model
  deployments := ["a", "b"].map fun name =>
    Controller.Demo.deployment name (if name = model then 1 else 0)

/-- Two models with a backend each, and an overlay of the first one, which is served. -/
def site : Site where
  proxy :=
    { registry :=
        { models := (Finmap.singleton "a" ⟨"a", "vllm", "a"⟩).insert "b" ⟨"b", "vllm", "b"⟩
          overlays := Finmap.singleton "a-chat" ⟨"a-chat", "a", ""⟩ }
      active := "a"
      backend := "http://a:8000"
      backendName := "a" }
  object := (serving "a").object
  deployment name := (serving "a").deployments.find? fun d => d.name == name

def role (model : String) : Unit → Goroutine String :=
  fun _ => .request ⟨"POST", "/v1/chat/completions", some model⟩

end Demo

/-- The request of the job is about to be forwarded. -/
def aboutToForward {α : Type} (j : Job Serving α) : Bool :=
  match j.rest with
  | .call op _ => isForward op
  | .pure _ => false

theorem exists_of_aboutToForward {α : Type} {j : Job Serving α} (h : aboutToForward j = true) :
    ∃ k, j = ⟨j.trace, .call (.inr .reverseProxy) k⟩ := by
  obtain ⟨t, rest⟩ := j
  match rest, h with
  | .call (.inr .reverseProxy) k, _ => exact ⟨k, rfl⟩

/-- A request for the overlay of a model that is served. -/
theorem requests_reach_named_overlay :
    ∃ c, (routingSystem Demo.proxy (Demo.role "a-chat")).Reach (routingConditions Demo.proxy)
        (.idle Demo.site) c ∧
      ∃ j ∈ c.job (), aboutToForward j = true ∧ named j.trace = some "a" ∧
        Routed Demo.proxy c.state.proxy "a" := by
  obtain ⟨c, hreach, j, hj, hforward, hnamed⟩ :=
    (sitePlayer_sound Demo.proxy (Demo.role "a-chat")).exists_reach (routingConditions Demo.proxy)
      [.start (), .run () 8] (.idle Demo.site)
      (fun c => ∃ j ∈ c.job (), aboutToForward j = true ∧ named j.trace = some "a")
      (by decide +kernel)
  obtain ⟨k, hk⟩ := exists_of_aboutToForward hforward
  exact ⟨c, hreach, j, hj, hforward, hnamed, requests_reach_named Demo.proxy (Demo.role "a-chat")
    Demo.site c hreach () j.trace k (hj.trans (congrArg some hk)) "a" hnamed (by decide)⟩

/-- A request finds its model stable. Before it looks at the Deployments, the operator switches to
another model. The request makes that the active model and is forwarded to its backend. -/
theorem request_misrouted :
    ∃ c, (routingSystem Demo.proxy (Demo.role "a")).Reach (.none _ _) (.idle Demo.site) c ∧
      ∃ j ∈ c.job (), aboutToForward j = true ∧ named j.trace = some "a" ∧
        ¬ Routed Demo.proxy c.state.proxy "a" ∧ c.state.proxy.active = "b" ∧
        c.state.proxy.backend = "http://b:8000" :=
  (sitePlayer_sound Demo.proxy (Demo.role "a")).exists_reach (.none _ _)
    [.start (), .run () 3, .edit (Demo.serving "b"), .run () 5] (.idle Demo.site) _
    (by decide +kernel)

end LlmOperator.Proxy
