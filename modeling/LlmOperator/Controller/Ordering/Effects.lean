import LlmOperator.Controller.Footprint
import Mathlib.Data.List.Infix

/-!
# The order of a transition's effects

What `Reconcile` does to its surroundings, whatever it is answered: at most one write of
the status of the `LLMActiveModel`, or a part of the nine steps of a transition in their
order, each but the first preceded by a fresh check that the transition is still the
current one, and possibly a final write of phase `Failed`. The target Deployment is patched
only behind all the guards.

A trace is any sequence of calls with any answers, cut at any point. `Staged` is built along
the trace and says how far the transition has got; the statements about whole traces are
read off it.
-/

namespace LlmOperator.Controller

open Api Data Backend Interaction Interaction.Prog

abbrev Trace : Type := List (Event Kube)

/-- The effects of a trace, in order. -/
def mutations (t : Trace) : List Call :=
  (t.map fun e : Event Kube => (e.1 : Call)).filter Call.isMutation

/-- No effect. -/
def Quiet (t : Trace) : Prop := ∀ e ∈ t, Call.IsRead e.1

/-- Some part of the trace is a complete run of `p` with the result `a`. -/
def Performed {α : Type} (p : Go α) (a : α) (t : Trace) : Prop := ∃ u, u <:+: t ∧ p.Runs u a

/-! ## The effects of a transition -/

inductive Stage where
  | token
  | scaleDown
  | cacheEnsure
  | cacheStatus
  | targetPatch
  | activeStatus
  | previousInactive
  | stable
  deriving DecidableEq

namespace Stage

def order : List Stage :=
  [token, scaleDown, cacheEnsure, cacheStatus, targetPatch, activeStatus, previousInactive, stable]

def index : Stage → Nat
  | token => 0
  | scaleDown => 1
  | cacheEnsure => 2
  | cacheStatus => 3
  | targetPatch => 4
  | activeStatus => 5
  | previousInactive => 6
  | stable => 7

theorem take_order_succ (s : Stage) : order.take (s.index + 1) = order.take s.index ++ [s] := by
  cases s <;> rfl

theorem sublist_take_succ {stages : List Stage} {k : Nat} {s : Stage}
    (h : stages.Sublist (order.take k)) (hk : k ≤ s.index) :
    (stages ++ [s]).Sublist (order.take (s.index + 1)) := by
  rw [take_order_succ]
  exact (h.trans (List.take_prefix_take_left hk).sublist).append_right [s]

end Stage

/-- The switch a reconcile has embarked on: the object it has read, with the generation it
observes, the target model and the target backend. -/
structure Switch where
  am : LLMActiveModel
  model : LLMModel
  backend : LLMBackend

namespace Switch

section

variable (r : LLMActiveModelReconciler) (w : Switch)

/-- The model switched from: the one of the token, which may be there already. -/
def transitionFrom : String :=
  if needsToken w.am then w.am.status.modelName else w.am.status.transitionFrom

/-- Which call is which step of the transition. -/
def IsStage : Stage → Call → Prop
  | .token, .updateActiveStatus obj =>
    obj.name = w.am.name ∧ obj.status.phase = .transitioning ∧
      obj.status.transitionFrom = w.transitionFrom ∧
      obj.status.transitionGeneration = w.am.generation
  | .scaleDown, .scaleDeployment name replicas =>
    name ≠ backendDeploymentName w.backend ∧ replicas = 0
  | .cacheEnsure, .cacheEnsure request =>
    ∃ driver, driverFor w.model.spec.serving.backend = .ok driver ∧
      driver.cacheRequest w.model = .ok (some request)
  | .cacheStatus, .updateModelStatus model =>
    ∃ result hydrated, model = withCacheState w.model result hydrated
  | .targetPatch, .patchDeployment base next =>
    ∃ c switchedAt, findContainer (backendContainerName w.backend)
      base.spec.template.spec.containers = some c ∧ next = activated w.model switchedAt base c
  | .activeStatus, .updateModelStatus model =>
    model.name = w.model.name ∧ model.status.active = true ∧ model.status.phase = .active
  | .previousInactive, .updateModelStatus model =>
    model.spec.model.name = w.transitionFrom ∧ w.transitionFrom ≠ w.model.spec.model.name ∧
      model.status.active = false ∧ model.status.phase = .ready
  | .stable, .updateActiveStatus obj =>
    obj.name = w.am.name ∧ obj.status.phase = .stable ∧
      obj.status.modelName = w.model.spec.model.name ∧
      obj.status.observedGeneration = w.am.generation
  | _, _ => False

/-- The status write that ends a failed transition. -/
def IsFailure : Call → Prop
  | .updateActiveStatus obj => obj.name = w.am.name ∧ obj.status.phase = .failed
  | _ => False

/-- How the trace has led to this switch. -/
structure Found (name : String) (w : Switch) (t : Trace) : Prop where
  read : ∃ stored, Performed (getActive name) (.ok stored) t ∧ w.am = observe stored
  model : Performed (findModel w.am.spec.modelName) (.ok w.model) t
  backend : Performed (findBackendOf w.model) (.ok w.backend) t

/-- The object in the course of the transition: the token is set. -/
structure Carries (am : LLMActiveModel) : Prop where
  name : am.name = w.am.name
  generation : am.generation = w.am.generation
  spec : am.spec = w.am.spec
  observed : am.status.observedGeneration = w.am.generation
  backendType : am.status.backendType = w.am.status.backendType
  transitionFrom : am.status.transitionFrom = w.transitionFrom

/-- The previous Deployment, when there is one and it is not the target, was scaled to zero
and then seen without replicas. -/
def PreviousDown (previous : Option LLMBackend) (t : Trace) : Prop :=
  ∀ b, previous = some b → backendDeploymentName b ≠ backendDeploymentName w.backend →
    ∃ before after d,
      t = before ++ ⟨.scaleDeployment (backendDeploymentName b) 0, .ok ()⟩ :: after ∧
      ⟨.getDeployment (backendDeploymentName b), .ok d⟩ ∈ after ∧
      d.status.replicas = 0 ∧ d.status.availableReplicas = 0

/-- What `Reconcile` has made sure of before it starts a transition. -/
structure Admitted (t : Trace) : Prop where
  owner : Performed singletonOwner (.ok w.am.name) t
  enabled : r.transitionsEnabled = true
  allowed : r.allowedTransitionModels = [] ∨
    w.model.spec.model.name ∈ r.allowedTransitionModels

/-- What a transition has made sure of before it turns to the target. -/
structure Prepared (t : Trace) : Prop
    extends Admitted r w t where
  valid : ∃ driver, driverFor w.model.spec.serving.backend = .ok driver ∧
    driver.validate w.model = .ok ()
  template : Performed (validateChatTemplate r w.model) (.ok ()) t
  previous : ∃ am previous, w.Carries am ∧
    Performed (resolvePrevious am w.model).prog (.ok previous) t ∧ w.PreviousDown previous t

/-- The guards in front of the patch of the target Deployment, `t` being the trace up to
it. A backend in offline mode is patched only with its snapshot in the hot cache. -/
structure Guards (base : Deployment) (t : Trace) :
    Prop extends Prepared r w t where
  offline : ∃ offline, Performed (backendOfflineMode w.backend) (.ok offline) t ∧
    (offline = true → ∃ request, ⟨.cacheEnsure request, .ok cacheHot⟩ ∈ t)
  target : ⟨.getDeployment (backendDeploymentName w.backend), .ok base⟩ ∈ t

/-- What must have happened in front of a call. -/
def Justified (t : Trace) : Call → Prop
  | .scaleDeployment name _ => ∃ am b, w.Carries am ∧
      Performed (resolvePrevious am w.model).prog (.ok (some b)) t ∧ name = backendDeploymentName b
  | .patchDeployment base _ => w.Guards r base t
  | _ => True

end

end Switch

/-- The trace of a reconcile that has embarked on a switch. -/
structure SwitchTrace (r : LLMActiveModelReconciler) (name : String) (w : Switch) (t : Trace) :
    Prop where
  found : w.Found name t
  ordered : ∃ stages, stages.Sublist Stage.order ∧
    (List.Forall₂ w.IsStage stages (mutations t) ∨
      ∃ calls failure, mutations t = calls ++ [failure] ∧ w.IsFailure failure ∧
        List.Forall₂ w.IsStage stages calls)
  checked : ∀ pre e mid e' post, t = pre ++ e :: (mid ++ e' :: post) → ¬ Call.IsRead e.1 →
    ¬ Call.IsRead e'.1 → Quiet mid → ¬ w.IsFailure e'.1 →
    Performed (checkCurrent w.am w.model) (.ok ()) mid
  justified : ∀ pre e post, t = pre ++ e :: post → w.Justified r pre e.1

/-- The trace of a reconcile that has done nothing but write one status. -/
def AtMostOneStatusWrite (t : Trace) : Prop :=
  mutations t = [] ∨ ∃ obj, mutations t = [.updateActiveStatus obj]

/-! ## Lists of events -/

theorem mutations_append (t u : Trace) : mutations (t ++ u) = mutations t ++ mutations u := by
  simp [mutations]

theorem mutations_quiet {t : Trace} (h : Quiet t) : mutations t = [] := by
  rw [mutations, List.filter_eq_nil_iff]
  intro c hc
  obtain ⟨e, he, rfl⟩ := List.mem_map.mp hc
  rw [h e he]
  exact Bool.false_ne_true

variable {e : Event Kube} {c : Call}

theorem mutations_concat (t : Trace) (he : ¬ Call.IsRead e.1) :
    mutations (t ++ [e]) = mutations t ++ [e.1] := by
  rw [mutations_append]
  congr 1
  have : Call.isMutation e.1 = true := by
    unfold Call.IsRead at he
    exact Bool.eq_true_of_not_eq_false he
  simp [mutations, this]

theorem Quiet.append {t u : Trace} (ht : Quiet t) (hu : Quiet u) : Quiet (t ++ u) := by
  intro e he
  rcases List.mem_append.mp he with h | h
  · exact ht e h
  · exact hu e h

theorem Performed.append_right {α : Type} {p : Go α} {a : α} {t : Trace} (h : Performed p a t)
    (u : Trace) : Performed p a (t ++ u) := by
  obtain ⟨v, hv, hr⟩ := h
  exact ⟨v, hv.trans (List.prefix_append t u).isInfix, hr⟩

theorem performed_append_of_runs {α : Type} {p : Go α} {a : α} {u : Trace} (h : p.Runs u a)
    (t : Trace) : Performed p a (t ++ u) :=
  ⟨u, (List.suffix_append t u).isInfix, h⟩

/-- An effect in a trace with a quiet end comes before that end. -/
theorem split_append_quiet {t u pre post : Trace} (hu : Quiet u) (he : ¬ Call.IsRead e.1)
    (h : t ++ u = pre ++ e :: post) : ∃ post', t = pre ++ e :: post' ∧ post = post' ++ u := by
  rcases List.append_eq_append_iff.mp h with ⟨a, rfl, ha⟩ | ⟨c, rfl, hc⟩
  · exact absurd (hu e (by rw [ha]; simp)) he
  · cases c with
    | nil => exact absurd (hu e (by rw [List.nil_append] at hc; rw [← hc]; simp)) he
    | cons x xs =>
      obtain ⟨rfl, rfl⟩ := List.cons.inj hc
      exact ⟨xs, rfl, rfl⟩

theorem split_concat {t pre post : Trace} {f : Event Kube} (h : t ++ [f] = pre ++ e :: post) :
    (pre = t ∧ e = f ∧ post = []) ∨ ∃ post', t = pre ++ e :: post' ∧ post = post' ++ [f] := by
  rcases List.eq_nil_or_concat post with rfl | ⟨post', g, rfl⟩
  · have := List.append_inj' h rfl
    exact Or.inl ⟨this.1.symm, (List.cons.inj this.2).1.symm, rfl⟩
  · rw [List.concat_eq_append] at h ⊢
    rw [← List.cons_append, ← List.append_assoc] at h
    have := List.append_inj' h rfl
    refine Or.inr ⟨post', this.1, ?_⟩
    rw [(List.cons.inj this.2).1]

/-! ## How far a transition has got -/

/-- `Staged r name w k checked t`: along `t` the switch `w` was found, then steps of the
transition below the `k`-th were taken, and since the last of them the transition was found
to be current if `checked`. -/
inductive Staged (r : LLMActiveModelReconciler) (name : String) (w : Switch) :
    Nat → Bool → Trace → Prop
  | found {t : Trace} (ht : Quiet t) (hw : w.Found name t) : Staged r name w 0 true t
  | quiet {k : Nat} {b : Bool} {t u : Trace} (h : Staged r name w k b t) (hu : Quiet u) :
      Staged r name w k b (t ++ u)
  | check {k : Nat} {b : Bool} {t u : Trace} (h : Staged r name w k b t) (hu : Quiet u)
      (hc : (checkCurrent w.am w.model).Runs u (.ok ())) : Staged r name w k true (t ++ u)
  | effect {k : Nat} {t : Trace} {s : Stage} {c : Call} (h : Staged r name w k true t)
      (hk : k ≤ s.index) (hs : w.IsStage s c) (hj : w.Justified r t c) (a : c.Answer) :
      Staged r name w (s.index + 1) false (t ++ [⟨c, a⟩])

theorem Switch.Found.append {name : String} {w : Switch} {t : Trace} (h : w.Found name t)
    (u : Trace) : w.Found name (t ++ u) := by
  obtain ⟨stored, hread, ham⟩ := h.read
  exact ⟨⟨stored, hread.append_right u, ham⟩, h.model.append_right u, h.backend.append_right u⟩

theorem Switch.PreviousDown.append {w : Switch} {previous : Option LLMBackend} {t : Trace}
    (h : w.PreviousDown previous t) (u : Trace) : w.PreviousDown previous (t ++ u) := by
  intro b hb hne
  obtain ⟨before, after, d, rfl, hmem, hd⟩ := h b hb hne
  exact ⟨before, after ++ u, d, by simp, List.mem_append_left u hmem, hd⟩

theorem Switch.Admitted.append {r : LLMActiveModelReconciler} {w : Switch} {t : Trace}
    (h : w.Admitted r t) (u : Trace) : w.Admitted r (t ++ u) :=
  ⟨h.owner.append_right u, h.enabled, h.allowed⟩

theorem Switch.Prepared.append {r : LLMActiveModelReconciler} {w : Switch} {t : Trace}
    (h : w.Prepared r t) (u : Trace) : w.Prepared r (t ++ u) := by
  obtain ⟨am, previous, ham, hprev, hdown⟩ := h.previous
  exact ⟨h.toAdmitted.append u, h.valid, h.template.append_right u,
    am, previous, ham, hprev.append_right u, hdown.append u⟩

theorem Switch.not_isRead_of_isStage {w : Switch} {s : Stage} (h : w.IsStage s c) : ¬ c.IsRead := by
  intro hread
  cases c <;> first | exact Bool.noConfusion hread | (cases s <;> exact h)

theorem Switch.not_isRead_of_isFailure {w : Switch} (h : w.IsFailure c) : ¬ c.IsRead := by
  intro hread
  cases c <;> first | exact Bool.noConfusion hread | exact h

theorem Switch.justified_of_isRead (r : LLMActiveModelReconciler) (w : Switch) (t : Trace)
    (h : c.IsRead) : w.Justified r t c := by
  cases c <;> first | exact Bool.noConfusion h | trivial

namespace Staged

variable {r : LLMActiveModelReconciler} {name : String} {w : Switch} {k : Nat} {b : Bool}
  {t : Trace}

section

variable (h : Staged r name w k b t)
include h

theorem hasFound : w.Found name t := by
  induction h with
  | found _ hw => exact hw
  | quiet _ _ ih => exact ih.append _
  | check _ _ _ ih => exact ih.append _
  | effect _ _ _ _ _ ih => exact ih.append _

theorem stages :
    ∃ stages, stages.Sublist (Stage.order.take k) ∧
      List.Forall₂ w.IsStage stages (mutations t) := by
  induction h with
  | found ht _ => exact ⟨[], List.nil_sublist _, by rw [mutations_quiet ht]; exact .nil⟩
  | quiet _ hu ih => simpa only [mutations_append, mutations_quiet hu, List.append_nil] using ih
  | check _ hu _ ih => simpa only [mutations_append, mutations_quiet hu, List.append_nil] using ih
  | @effect k t s c _ hk hs _ a ih =>
    obtain ⟨stages, hsub, hall⟩ := ih
    refine ⟨stages ++ [s], Stage.sublist_take_succ hsub hk, ?_⟩
    rw [mutations_concat (e := ⟨c, a⟩) t (Switch.not_isRead_of_isStage hs)]
    exact List.rel_append hall (.cons hs .nil)

/-- After the last effect the transition was checked, if it is so recorded. -/
theorem checked_last (hb : b = true) {pre mid : Trace} (ht : t = pre ++ e :: mid)
    (he : ¬ Call.IsRead e.1) : Performed (checkCurrent w.am w.model) (.ok ()) mid := by
  induction h generalizing pre mid with
  | found hq _ => exact absurd (hq e (by rw [ht]; simp)) he
  | quiet _ hu ih =>
    obtain ⟨mid', rfl, rfl⟩ := split_append_quiet hu he ht
    exact (ih hb rfl).append_right _
  | check _ hu hc _ =>
    obtain ⟨mid', rfl, rfl⟩ := split_append_quiet hu he ht
    exact performed_append_of_runs hc mid'
  | effect _ _ _ _ _ _ => exact Bool.noConfusion hb

theorem checked {pre mid post : Trace} {e' : Event Kube} (ht : t = pre ++ e :: (mid ++ e' :: post))
    (he : ¬ Call.IsRead e.1) (he' : ¬ Call.IsRead e'.1) :
    Performed (checkCurrent w.am w.model) (.ok ()) mid := by
  have hassoc : ∀ post, pre ++ e :: (mid ++ e' :: post) = (pre ++ e :: mid) ++ e' :: post := by
    intro post
    simp
  rw [hassoc] at ht
  induction h generalizing post with
  | found hq _ => exact absurd (hq e (by rw [ht]; simp)) he
  | quiet _ hu ih =>
    obtain ⟨post', hpost, -⟩ := split_append_quiet hu he' ht
    exact ih hpost
  | check _ hu _ ih =>
    obtain ⟨post', hpost, -⟩ := split_append_quiet hu he' ht
    exact ih hpost
  | effect h _ _ _ _ ih =>
    rcases split_concat ht with ⟨hpre, -, -⟩ | ⟨post', hpost, -⟩
    · exact h.checked_last rfl hpre.symm he
    · exact ih hpost

theorem justified {pre post : Trace} (ht : t = pre ++ e :: post) : w.Justified r pre e.1 := by
  by_cases he : Call.IsRead e.1
  · exact Switch.justified_of_isRead r w pre he
  · induction h generalizing post with
    | found hq _ => exact absurd (hq e (by rw [ht]; simp)) he
    | quiet _ hu ih =>
      obtain ⟨post', hpost, -⟩ := split_append_quiet hu he ht
      exact ih hpost
    | check _ hu _ ih =>
      obtain ⟨post', hpost, -⟩ := split_append_quiet hu he ht
      exact ih hpost
    | effect _ _ _ hj _ ih =>
      rcases split_concat ht with ⟨rfl, rfl, -⟩ | ⟨post', hpost, -⟩
      · exact hj
      · exact ih hpost

end

theorem sublist_order {stages : List Stage} (h : stages.Sublist (Stage.order.take k)) :
    stages.Sublist Stage.order :=
  h.trans (List.take_sublist k _)

theorem switchTrace (h : Staged r name w k b t) : SwitchTrace r name w t where
  found := h.hasFound
  ordered := by
    obtain ⟨stages, hsub, hall⟩ := h.stages
    exact ⟨stages, sublist_order hsub, Or.inl hall⟩
  checked := by
    intro pre e mid e' post ht he he' _ _
    exact h.checked ht he he'
  justified := fun _ _ _ ht => h.justified ht

/-- A failure ends the transition. -/
theorem switchTrace_failed (h : Staged r name w k b t) (hc : w.IsFailure c) (a : c.Answer) :
    SwitchTrace r name w (t ++ [⟨c, a⟩]) where
  found := h.hasFound.append _
  ordered := by
    obtain ⟨stages, hsub, hall⟩ := h.stages
    refine ⟨stages, sublist_order hsub, Or.inr ⟨mutations t, c, ?_, hc, hall⟩⟩
    exact mutations_concat (e := ⟨c, a⟩) t (Switch.not_isRead_of_isFailure hc)
  checked := by
    intro pre e mid e' post ht he he' _ hfail
    rw [show pre ++ e :: (mid ++ e' :: post) = (pre ++ e :: mid) ++ e' :: post by simp] at ht
    rcases split_concat ht with ⟨-, rfl, -⟩ | ⟨post', hpost, -⟩
    · exact absurd hc hfail
    · have ht' : t = pre ++ e :: (mid ++ e' :: post') := by rw [hpost]; simp
      exact h.checked ht' he he'
  justified := by
    intro pre e post ht
    rcases split_concat ht with ⟨-, rfl, -⟩ | ⟨post', hpost, -⟩
    · cases c <;> first | exact hc.elim | trivial
    · exact h.justified hpost

end Staged

end LlmOperator.Controller
