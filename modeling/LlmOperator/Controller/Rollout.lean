import LlmOperator.Controller.Cluster
import LlmOperator.Controller.Footprint
import Mathlib.Logic.Relation

/-!
# When a rollout is accepted

`waitForRollout` polls the status of the patched Deployment and accepts it when one replica is
updated and one is available. Both numbers are sums: during a rolling update the available
replica may be one of the previous template.

The Deployment controller and the ReplicaSet controller are not part of the operator. What they
may do to the pods of one Deployment with one replica is `Rollout.Step`: a strategy decides when
the ReplicaSets are scaled, and pods come, go and change their availability in between.

`rollout_sound_iff` says for which strategies and starts an accepted rollout is a finished one.
-/

namespace LlmOperator.Controller

open Api Interaction Interaction.Prog Relation

/-! ## Rollouts -/

/-- The replicas asked of ReplicaSets, their pods and the available ones among these. Pods that
are being deleted do not count. -/
structure ReplicaSet where
  desired : Nat
  total : Nat
  available : Nat
  available_le : available ≤ total

/-- What may happen to the pods of a ReplicaSet. -/
inductive ReplicaSet.Step (rs rs' : ReplicaSet) : Prop
  | created (h : rs.total < rs.desired) (hdesired : rs'.desired = rs.desired)
      (htotal : rs'.total = rs.total + 1) (havailable : rs'.available = rs.available)
  /-- A pod is deleted or lost. -/
  | gone (hdesired : rs'.desired = rs.desired) (htotal : rs'.total + 1 = rs.total)
  /-- Pods become available, or stop being so. -/
  | turned (hdesired : rs'.desired = rs.desired) (htotal : rs'.total = rs.total)

/-- The ReplicaSets of the previous templates, taken together, and that of the new one. -/
structure Rollout where
  old : ReplicaSet
  updated : ReplicaSet

/-- The strategy of a Deployment. Of the two numbers one is positive, also after rounding. -/
inductive Strategy where
  | recreate
  | rollingUpdate (maxSurge maxUnavailable : Nat) (h : 0 < maxSurge + maxUnavailable)

/-- The new ReplicaSet may be scaled up to the one replica of the Deployment. -/
def Strategy.MayScaleUp : Strategy → Rollout → Prop
  | .recreate, x => x.old.desired = 0 ∧ x.old.total = 0
  | .rollingUpdate maxSurge _ _, x => x.old.desired + x.updated.desired < 1 + maxSurge

/-- The old ReplicaSets may be scaled down to `n`. In a rolling update what goes are replicas
that are not available, or as many as the available ones can spare; a Deployment that had more
replicas than one is scaled first. -/
def Strategy.MayScaleDown : Strategy → Rollout → Nat → Prop
  | .recreate, _, _ => True
  | .rollingUpdate _ maxUnavailable _, x, n =>
    n = 1 ∨
    (1 - maxUnavailable) + (x.updated.desired - x.updated.available) + (x.old.desired - n) ≤
        x.old.desired + x.updated.desired ∧
      (x.old.desired - n ≤ x.old.desired - x.old.available ∨
        (1 - maxUnavailable) + (x.old.desired - n) ≤ x.old.available + x.updated.available)

inductive Rollout.Step (strategy : Strategy) (x : Rollout) : Rollout → Prop
  | old {rs : ReplicaSet} (h : x.old.Step rs) : Step strategy x { x with old := rs }
  | updated {rs : ReplicaSet} (h : x.updated.Step rs) : Step strategy x { x with updated := rs }
  | scaleDown (n : Nat) (hn : n ≤ x.old.desired) (h : strategy.MayScaleDown x n) :
      Step strategy x { x with old := { x.old with desired := n } }
  | scaleUp (h : strategy.MayScaleUp x) :
      Step strategy x { x with updated := { x.updated with desired := 1 } }

/-- What the API server may answer about the Deployment. Before the patch has been observed,
the numbers are those of the template before. -/
structure Rollout.Reports (x : Rollout) (d : Deployment) : Prop where
  observed : d.status.observedGeneration ≤ d.generation
  replicas : d.status.observedGeneration = d.generation →
    d.status.replicas = x.old.total + x.updated.total
  updatedReplicas : d.status.observedGeneration = d.generation →
    d.status.updatedReplicas = x.updated.total
  availableReplicas : d.status.observedGeneration = d.generation →
    d.status.availableReplicas = x.old.available + x.updated.available

/-- An answer that is right about the Deployment `name`. -/
def Rollout.Answers (x : Rollout) (name : String) : (c : Call) → c.Answer → Prop
  | .getDeployment n, r => n = name → ∀ d, r = Except.ok d → x.Reports d
  | _, _ => True

/-- The rollout goes on, and then the call is answered. Other calls may be answered anyhow. -/
def rollingOut (strategy : Strategy) (name : String) (x : Rollout) (c : Call) (r : c.Answer)
    (x' : Rollout) : Prop :=
  ReflTransGen (Rollout.Step strategy) x x' ∧ x'.Answers name c r

/-- The template has been patched and there is no pod of it yet. -/
structure Rollout.Patched (x : Rollout) : Prop where
  desired : x.updated.desired = 0
  total : x.updated.total = 0

/-- There is nothing of a previous template, and nothing of it comes back. -/
structure Rollout.Cleared (x : Rollout) : Prop where
  desired : x.old.desired = 0
  total : x.old.total = 0

/-- The updated pod is available and none of a previous template is. -/
structure Rollout.Finished (x : Rollout) : Prop where
  updated : x.updated.available = 1
  old : x.old.available = 0

/-! ## Pods of one template at a time -/

/-- Nothing of the old templates is left, or nothing of the new one has begun. -/
def Rollout.Apart (strategy : Strategy) (x : Rollout) : Prop :=
  x.Cleared ∨ strategy = .recreate ∧ x.Patched

variable {strategy : Strategy} {x : Rollout}

theorem Rollout.Step.apart {x' : Rollout} (h : x.Step strategy x') (hx : x.Apart strategy) :
    x'.Apart strategy := by
  cases h with
  | old h =>
    rcases hx with ⟨hdesired, htotal⟩ | ⟨hstrategy, hpatched⟩
    · left
      cases h <;> constructor <;> simp only <;> omega
    · exact Or.inr ⟨hstrategy, hpatched.desired, hpatched.total⟩
  | updated h =>
    rcases hx with hcleared | ⟨hstrategy, hdesired, htotal⟩
    · exact Or.inl ⟨hcleared.desired, hcleared.total⟩
    · refine Or.inr ⟨hstrategy, ?_⟩
      cases h <;> constructor <;> simp only <;> omega
  | scaleDown n hn h =>
    rcases hx with hcleared | ⟨hstrategy, hpatched⟩
    · refine Or.inl ⟨?_, hcleared.total⟩
      have hdesired := hcleared.desired
      show n = 0
      omega
    · exact Or.inr ⟨hstrategy, hpatched.desired, hpatched.total⟩
  | scaleUp h =>
    left
    rcases hx with hcleared | ⟨rfl, hpatched⟩
    · exact ⟨hcleared.desired, hcleared.total⟩
    · exact ⟨h.1, h.2⟩

theorem apart_rollingOut {name : String} {x' : Rollout} {c : Call} {r : c.Answer}
    (h : rollingOut strategy name x c r x') (hx : x.Apart strategy) : x'.Apart strategy := by
  obtain ⟨hsteps, -⟩ := h
  induction hsteps with
  | refl => exact hx
  | tail _ hstep ih => exact hstep.apart ih

/-- An accepted status of pods that are apart is that of a finished rollout. -/
theorem Rollout.Apart.finished {d : Deployment} (hx : x.Apart strategy) (hd : x.Reports d)
    (haccepted : isRolledOut d = true) : x.Finished := by
  simp only [isRolledOut, Bool.and_eq_true, decide_eq_true_eq, beq_iff_eq] at haccepted
  obtain ⟨⟨hgeneration, hupdated⟩, havailable⟩ := haccepted
  have hobserved : d.status.observedGeneration = d.generation :=
    Nat.le_antisymm hd.observed hgeneration
  rw [hd.updatedReplicas hobserved] at hupdated
  rw [hd.availableReplicas hobserved] at havailable
  rcases hx with hcleared | ⟨-, hpatched⟩
  · have hold := x.old.available_le
    have htotal := hcleared.total
    exact ⟨by omega, by omega⟩
  · have htotal := hpatched.total
    omega

/-- A poll that ends well ends with the read it accepts. -/
theorem ends_pollDeployment {σ : Type} {exec : σ → (c : Call) → c.Answer → σ → Prop}
    {I : σ → Prop} (hI : ∀ s c r s', exec s c r s' → I s → I s') {reached : Deployment → Bool}
    {name : String} {check : Go (Except Err Unit)} {expired : Err} {polls left : Nat} {s s' : σ}
    (h : (pollDeployment reached name check expired polls).Ends exec s (.ok left) s') (hs : I s) :
    ∃ d s₁, I s₁ ∧ exec s₁ (.getDeployment name) (Except.ok d) s' ∧ reached d = true := by
  induction polls generalizing s with
  | zero => cases h.1
  | succ polls ih =>
    obtain ⟨x, s₁, hx, h⟩ := ends_bind.mp h
    have hs₁ := hx.keeps hI hs
    cases x with
    | error e => cases h.1
    | ok _ =>
      obtain ⟨y, s₂, hy, h⟩ := h
      cases y with
      | error e => cases h.1
      | ok d =>
        change (if reached d then _ else _ : Go (Except Err Nat)).Ends exec s₂ (.ok left) s' at h
        split at h
        · rename_i hd
          obtain ⟨-, rfl⟩ := h
          exact ⟨d, s₁, hs₁, hy, hd⟩
        · exact ih h (hI _ _ _ _ hy hs₁)

/-! ## A rolling update -/

/-- The status of a rollout that has been observed. -/
def Rollout.report (x : Rollout) : Deployment where
  name := ""
  generation := 1
  labels := ∅
  ownerReferences := []
  spec := ⟨some 1, ∅, ⟨∅, ∅, ⟨[], [], ∅⟩⟩, "", ∅⟩
  status := ⟨1, x.old.total + x.updated.total, x.updated.total,
  x.old.available + x.updated.available⟩

theorem Rollout.reports_report (x : Rollout) : x.Reports x.report :=
  ⟨Nat.le_refl _, fun _ => rfl, fun _ => rfl, fun _ => rfl⟩

/-- The old pod is available, the new one is there and not available. -/
structure Rollout.Surging (x : Rollout) : Prop where
  old : x.old.available = 1
  updated : x.updated.total = 1
  pending : x.updated.available = 0

theorem Rollout.Surging.accepted (h : x.Surging) : isRolledOut x.report = true := by
  simp [isRolledOut, report, h.old, h.updated, h.pending]

/-- Pods of the old template, none of them available. -/
theorem exists_idle (strategy : Strategy) (hold : ¬ x.Cleared) :
    ∃ t, ReflTransGen (Rollout.Step strategy) x
      { x with old := ⟨x.old.desired, t + 1, 0, Nat.zero_le _⟩ } := by
  cases htotal : x.old.total with
  | zero =>
    have hdesired : x.old.desired ≠ 0 := fun hdesired => hold ⟨hdesired, htotal⟩
    have havailable := x.old.available_le
    refine ⟨0, ReflTransGen.single (.old (.created ?_ rfl ?_ ?_))⟩
    · omega
    · show 1 = _
      omega
    · show 0 = _
      omega
  | succ t => exact ⟨t, ReflTransGen.single (.old (.turned rfl htotal.symm))⟩

/-- The replicas that are not available go, as many as may. -/
theorem exists_scaledDown {maxSurge maxUnavailable : Nat} (h : 0 < maxSurge + maxUnavailable)
    (hpatched : x.Patched) (havailable : x.old.available = 0) :
    ∃ n, n ≤ 1 - maxUnavailable ∧
      ReflTransGen (Rollout.Step (.rollingUpdate maxSurge maxUnavailable h)) x
        { x with old := { x.old with desired := n } } := by
  by_cases hfew : x.old.desired ≤ 1 - maxUnavailable
  · exact ⟨x.old.desired, hfew, .refl⟩
  · refine ⟨1 - maxUnavailable, Nat.le_refl _,
      ReflTransGen.single (.scaleDown _ (by omega) (Or.inr ⟨?_, Or.inl ?_⟩))⟩
    · have hdesired := hpatched.desired
      omega
    · omega

/-- A rolling update that starts with a pod of the old template, or with one to come, may pass
through a state in which that one is available and the new one is not. -/
theorem exists_surging {maxSurge maxUnavailable : Nat} {h : 0 < maxSurge + maxUnavailable}
    (hpatched : x.Patched) (hold : ¬ x.Cleared) :
    ∃ x', ReflTransGen (Rollout.Step (.rollingUpdate maxSurge maxUnavailable h)) x x' ∧
      x'.Surging := by
  obtain ⟨t, hidle⟩ := exists_idle (.rollingUpdate maxSurge maxUnavailable h) hold
  obtain ⟨n, hn, hdown⟩ := exists_scaledDown h
    (x := { x with old := ⟨x.old.desired, t + 1, 0, Nat.zero_le _⟩ })
    ⟨hpatched.desired, hpatched.total⟩ rfl
  let down : Rollout := ⟨⟨n, t + 1, 0, Nat.zero_le _⟩, x.updated⟩
  let up : Rollout := { down with updated := { x.updated with desired := 1 } }
  let created : Rollout := { up with updated := ⟨1, 1, 0, Nat.zero_le _⟩ }
  have hdesired := hpatched.desired
  have htotal := hpatched.total
  have havailable := x.updated.available_le
  have hup : Rollout.Step (.rollingUpdate maxSurge maxUnavailable h) down up := by
    refine .scaleUp ?_
    show n + x.updated.desired < 1 + maxSurge
    omega
  have hcreated : Rollout.Step (.rollingUpdate maxSurge maxUnavailable h) up created := by
    refine .updated (.created ?_ rfl ?_ ?_) <;> simp only [up] <;> omega
  have hturned : Rollout.Step (.rollingUpdate maxSurge maxUnavailable h) created
      { created with old := ⟨n, t + 1, 1, Nat.le_add_left _ _⟩ } :=
    .old (.turned rfl rfl)
  exact ⟨_, (((hidle.trans hdown).tail hup).tail hcreated).tail hturned, rfl, rfl, rfl⟩

/-! ## Acceptance -/

/-- The transition may be found current. -/
theorem ends_checkCurrent {name : String} {am : LLMActiveModel} {model : LLMModel} :
    (checkCurrent am model).Ends (rollingOut strategy name) x (.ok ()) x := by
  let current : LLMActiveModel := { am with
    spec := { am.spec with modelName := model.spec.model.name }
    status := { am.status with transitionGeneration := am.generation } }
  refine ⟨Except.ok current, x, ⟨.refl, trivial⟩, ?_⟩
  show (if isCurrent current model.spec.model.name am.generation then _ else _ :
    Go (Except Err Unit)).Ends _ x _ x
  rw [if_pos (by simp [isCurrent, current])]
  exact ⟨rfl, rfl⟩

/-- **When an accepted rollout is finished.** Take the states that a rollout of the patched
template runs through, in any order the strategy permits, and let every read of the Deployment
report the state it finds. What `waitForRollout` accepts is always a finished rollout exactly when
the strategy is to recreate the pods, or there is no pod of a previous template from the start. -/
theorem rollout_sound_iff (strategy : Strategy) (start : Rollout) (hpatched : start.Patched)
    (name : String) (am : LLMActiveModel) (model : LLMModel) :
    (∀ deadline left x,
      (waitForRollout name (checkCurrent am model) deadline).Ends (rollingOut strategy name) start
        (.ok left) x → x.Finished) ↔
      strategy = .recreate ∨ start.Cleared := by
  constructor
  · intro hsound
    by_contra hcontra
    rw [not_or] at hcontra
    obtain ⟨hstrategy, hold⟩ := hcontra
    cases strategy with
    | recreate => exact hstrategy rfl
    | rollingUpdate maxSurge maxUnavailable h =>
      obtain ⟨x, hsteps, hx⟩ := exists_surging (h := h) hpatched hold
      -- one poll, which finds the surge
      have hfinished := hsound ⟨1, false⟩ 0 x (ends_bind.mpr
        ⟨.ok (), start, ends_checkCurrent, Except.ok x.report, x,
          ⟨hsteps, fun _ _ h => by cases h; exact x.reports_report⟩, ?_⟩)
      · have hpending := hx.pending
        have hupdated := hfinished.updated
        omega
      · show (if isRolledOut x.report then _ else _ : Go (Except Err Nat)).Ends _ x _ x
        rw [if_pos hx.accepted]
        exact ⟨rfl, rfl⟩
  · intro hcond deadline left x hends
    have hstart : start.Apart strategy := by
      rcases hcond with hstrategy | hcleared
      · exact Or.inr ⟨hstrategy, hpatched⟩
      · exact Or.inl hcleared
    obtain ⟨d, x₁, hx₁, hread, haccepted⟩ := ends_pollDeployment
      (fun _ _ _ _ hstep hx => apart_rollingOut hstep hx) hends hstart
    exact (apart_rollingOut hread hx₁).finished (hread.2 rfl d rfl) haccepted

/-- One pod of the previous template is serving. -/
def onePodServing : Rollout := ⟨⟨1, 1, 1, Nat.le_refl _⟩, ⟨0, 0, 0, Nat.le_refl _⟩⟩

theorem rollout_sound_iff_recreate :
    onePodServing.Patched ∧ ∀ deadline left x,
      (waitForRollout "b" (checkCurrent (Demo.activeModel "a") (Demo.model "a" false))
        deadline).Ends
        (rollingOut .recreate "b") onePodServing (.ok left) x → x.Finished :=
  ⟨⟨rfl, rfl⟩, (rollout_sound_iff .recreate onePodServing ⟨rfl, rfl⟩ "b" (Demo.activeModel "a")
    (Demo.model "a" false)).mpr (Or.inl rfl)⟩

/-- With the default strategy, which rounds to one more pod and none less, the first poll accepts
a new pod that is not available while the old one is. -/
theorem rollout_accepted_early :
    ∃ x, (waitForRollout "b" (checkCurrent (Demo.activeModel "a") (Demo.model "a" false))
        ⟨1, false⟩).Ends (rollingOut (.rollingUpdate 1 0 (by decide)) "b") onePodServing (.ok 0) x ∧
      x.old.available = 1 ∧ x.updated.available = 0 ∧ ¬ x.Finished := by
  let x : Rollout := ⟨⟨1, 1, 1, Nat.le_refl _⟩, ⟨1, 1, 0, Nat.zero_le _⟩⟩
  let up : Rollout := ⟨⟨1, 1, 1, Nat.le_refl _⟩, ⟨1, 0, 0, Nat.le_refl _⟩⟩
  have hup : Rollout.Step (.rollingUpdate 1 0 (by decide)) onePodServing up :=
    .scaleUp (show 1 + 0 < 1 + 1 by decide)
  have hcreated : Rollout.Step (.rollingUpdate 1 0 (by decide)) up x :=
    .updated (show up.updated.Step x.updated from .created Nat.one_pos rfl rfl rfl)
  have hsteps := (ReflTransGen.single hup).tail hcreated
  refine ⟨x, ends_bind.mpr ⟨.ok (), onePodServing, ends_checkCurrent, Except.ok x.report, x,
    ⟨hsteps, fun _ _ h => by cases h; exact x.reports_report⟩, rfl, rfl⟩, rfl, rfl, ?_⟩
  intro hfinished
  exact absurd hfinished.updated (by decide)

end LlmOperator.Controller
