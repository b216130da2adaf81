import LlmOperator.Controller.Cluster

/-!
# The active flags of the models

Every `LLMModel` has a flag in its status that says whether it is the active one. A transition
flags its target, unflags the model recorded as the one switched from, and then publishes; it
knows nothing of a flag that an earlier, interrupted transition has set.

`flags_stray` is such a run: a switch from `a` to `b` has flagged `b` when `c` is requested.
`flags_follow_active` gives conditions under which, whenever the object is in phase `Stable`,
exactly the published model is flagged: a model that is flagged when a reconcile starts is the
requested or the published one, and the model to be unflagged can be looked up.
-/

namespace LlmOperator.Controller

open Api Data Backend Interaction Interaction.Prog

/-! ## Flags -/

/-- A model: its object, its canonical name, and whether it is flagged. -/
structure Flag where
  object : String
  name : String
  active : Bool
  deriving DecidableEq

/-- The status of the object is written. -/
def setFlag (object : String) (active : Bool) (flags : List Flag) : List Flag :=
  flags.map fun e => if e.object = object then { e with active := active } else e

/-- Exactly the model of that name is flagged. -/
def Exactly (flags : List Flag) (modelName : String) : Prop :=
  (∃ e ∈ flags, e.active = true) ∧ ∀ e ∈ flags, e.active = true ↔ e.name = modelName

instance (flags : List Flag) (modelName : String) : Decidable (Exactly flags modelName) :=
  inferInstanceAs (Decidable (_ ∧ _))

/-- The API server keeps the objects apart, and admission the canonical names, which are not
empty. -/
structure WellNamed (flags : List Flag) : Prop where
  objects : ∀ e ∈ flags, ∀ e' ∈ flags, e.object = e'.object → e = e'
  names : ∀ e ∈ flags, ∀ e' ∈ flags, e.name = e'.name → e = e'
  nonempty : ∀ e ∈ flags, e.name ≠ ""

instance (flags : List Flag) : Decidable (WellNamed flags) :=
  decidable_of_iff (_ ∧ _ ∧ _)
    ⟨fun h => ⟨h.1, h.2.1, h.2.2⟩, fun h => ⟨h.objects, h.names, h.nonempty⟩⟩

variable {target : Flag} {s : Cluster}

section Flags

variable {flags : List Flag} {modelName object : String} {active : Bool} {e : Flag}

theorem mem_setFlag : e ∈ setFlag object active flags ↔
    ∃ e' ∈ flags, (if e'.object = object then { e' with active := active } else e') = e :=
  List.mem_map

theorem mem_setFlag_self (he : e ∈ flags) (h : e.object = object) :
    { e with active := active } ∈ setFlag object active flags :=
  mem_setFlag.mpr ⟨e, he, if_pos h⟩

theorem mem_setFlag_of_ne (he : e ∈ flags) (h : e.object ≠ object) :
    e ∈ setFlag object active flags :=
  mem_setFlag.mpr ⟨e, he, if_neg h⟩

/-- A flag that is already so changes nothing. -/
theorem setFlag_eq_self (hw : WellNamed flags) (he : e ∈ flags) :
    setFlag e.object e.active flags = flags := by
  unfold setFlag
  conv_rhs => rw [← List.map_id flags]
  refine List.map_congr_left ?_
  intro e' he'
  split
  · rename_i h
    cases hw.objects e' he' e he h
    rfl
  · rfl

theorem WellNamed.setFlag (h : WellNamed flags) (object : String) (active : Bool) :
    WellNamed (setFlag object active flags) := by
  have hshape : ∀ e ∈ Controller.setFlag object active flags, ∃ e' ∈ flags,
      e'.object = e.object ∧ e'.name = e.name ∧
        e = if e'.object = object then { e' with active := active } else e' := by
    intro e he
    obtain ⟨e', he', rfl⟩ := mem_setFlag.mp he
    refine ⟨e', he', ?_, ?_, rfl⟩ <;> split <;> rfl
  refine ⟨?_, ?_, ?_⟩
  · intro e he e' he' heq
    obtain ⟨e₁, he₁, ho, -, hdef⟩ := hshape e he
    obtain ⟨e₂, he₂, ho', -, hdef'⟩ := hshape e' he'
    rw [hdef, hdef', h.objects e₁ he₁ e₂ he₂ (by rw [ho, ho', heq])]
  · intro e he e' he' heq
    obtain ⟨e₁, he₁, -, hn, hdef⟩ := hshape e he
    obtain ⟨e₂, he₂, -, hn', hdef'⟩ := hshape e' he'
    rw [hdef, hdef', h.names e₁ he₁ e₂ he₂ (by rw [hn, hn', heq])]
  · intro e he
    obtain ⟨e₁, he₁, -, hn, -⟩ := hshape e he
    rw [← hn]
    exact h.nonempty e₁ he₁

theorem exactly_of_only (hw : WellNamed flags) (hsome : ∃ e ∈ flags, e.active = true)
    (honly : ∀ e ∈ flags, e.active = true → e.name = modelName) : Exactly flags modelName := by
  refine ⟨hsome, ?_⟩
  intro e he
  refine ⟨honly e he, ?_⟩
  intro hname
  obtain ⟨e', he', hactive⟩ := hsome
  rw [hw.names e he e' he' (hname.trans (honly e' he' hactive).symm)]
  exact hactive

/-- Flagging a model adds it to those that are flagged. -/
theorem active_setFlag_true (hw : WellNamed flags) (htarget : target ∈ flags)
    (he : e ∈ setFlag target.object true flags) (hactive : e.active = true) :
    e.name = target.name ∨ e ∈ flags := by
  obtain ⟨e', he', rfl⟩ := mem_setFlag.mp he
  split
  · rename_i h
    left
    rw [hw.objects e' he' target htarget h]
  · exact Or.inr he'

/-- Unflagging a model leaves the others. -/
theorem active_setFlag_false {previous : Flag} (he : e ∈ setFlag previous.object false flags)
    (hactive : e.active = true) : e ∈ flags ∧ e.object ≠ previous.object := by
  obtain ⟨e', he', rfl⟩ := mem_setFlag.mp he
  split at hactive
  · cases hactive
  · rename_i h
    rw [if_neg h]
    exact ⟨he', h⟩

end Flags

namespace Cluster

def flags (s : Cluster) : List Flag :=
  s.models.map fun m => ⟨m.name, m.spec.model.name, m.status.active⟩

theorem flags_putModelStatus (s : Cluster) (obj : LLMModel) (version : Nat) :
    (s.putModelStatus obj version).flags = setFlag obj.name obj.status.active s.flags := by
  unfold flags putModelStatus setFlag
  rw [List.map_map, List.map_map]
  refine List.map_congr_left ?_
  intro m _
  simp only [Function.comp_apply]
  split <;> rfl

/-- A model that was looked up is among those that have flags. -/
theorem mem_flags_of_modelNamed {modelName : String} {m : LLMModel}
    (h : modelNamed s.models modelName = some m) :
    ⟨m.name, modelName, m.status.active⟩ ∈ s.flags := by
  have hname := modelNamed_name h
  subst hname
  exact List.mem_map.mpr ⟨m, List.mem_of_find?_eq_some h, rfl⟩

theorem name_ne_of_modelNamed_eq_none {modelName : String}
    (h : modelNamed s.models modelName = none) : ∀ e ∈ s.flags, e.name ≠ modelName := by
  intro e he
  obtain ⟨m, hm, rfl⟩ := List.mem_map.mp he
  simpa using List.find?_eq_none.mp h m hm

/-- What holds between any two steps of a run. -/
structure Tidy (s : Cluster) : Prop where
  named : WellNamed s.flags
  someone : ∃ e ∈ s.flags, e.active = true
  token : TokenInOrder s.active.current
  follows : s.active.current.status.phase = .stable →
    Exactly s.flags s.active.current.status.modelName

end Cluster

/-! ## Conditions on a run -/

/-- The others request models, write models without changing names or flags, and write
Deployments. -/
def flagsEnv (s s' : Cluster) : Prop :=
  s.Requested s' ∨ s.ModelsEdited s' ∧ s'.flags = s.flags ∨ s.DeploymentsWritten s'

/-- The condition on the read a reconcile starts with: whatever is flagged is the requested or
the published model. -/
def StartsFlagged (s : Cluster) (t : List (Event Kube)) (e : Event Kube) : Prop :=
  (activeRead e).isSome = true → t = [] → ∀ e ∈ s.flags, e.active = true →
    e.name = s.active.current.spec.modelName ∨ e.name = s.active.current.status.modelName

/-- The listing in which the transition looks up the model to unflag, the only one after a model
was written, does not fail. -/
def UnflagAnswered (t : List (Event Kube)) (e : Event Kube) : Prop :=
  listingFailed e = true → ∀ e ∈ t, isModelWrite e.1 = false

def flagsConditions : Conditions Kube Cluster where
  env _ _ _ := True
  call s t e := StartsFlagged s t e ∧ UnflagAnswered t e

instance (s : Cluster) (t : List (Event Kube)) (s' : Cluster) :
    Decidable (flagsConditions.env s t s') :=
  .isTrue trivial

instance (s : Cluster) (t : List (Event Kube)) (e : Event Kube) :
    Decidable (flagsConditions.call s t e) :=
  inferInstanceAs (Decidable ((_ → _) ∧ (_ → _)))

/-! ## The world of a reconcile -/

/-- What the others leave alone while a reconcile is under way. -/
structure FlagsUndisturbed (x y : Cluster × List (Event Kube)) : Prop where
  trace : y.2 = x.2
  active : x.1.active.Grows y.1.active
  token : TokenInOrder x.1.active.current → TokenInOrder y.1.active.current
  status : y.1.active.current.status = x.1.active.current.status
  flags : y.1.flags = x.1.flags

def flagsWorld : World Kube (Cluster × List (Event Kube)) where
  exec x c a y := x.1.Exec c a y.1 ∧ y.2 = x.2 ++ [⟨c, a⟩] ∧ flagsConditions.call x.1 x.2 ⟨c, a⟩
  rely := FlagsUndisturbed
  guar _ _ _ y := y.1.Tidy
  rely_refl x := ⟨rfl, x.1.active.grows_refl, id, rfl, rfl⟩
  rely_trans h h' := ⟨h'.trace.trans h.trace, h.active.trans h'.active, h'.token ∘ h.token,
    h'.status.trans h.status, h'.flags.trans h.flags⟩

theorem onCluster_flagsWorld : OnCluster flagsWorld := fun _ _ _ _ h => h.1

/-- The assertion carried through a reconcile: `am` is its copy of the object `stored` it has read,
the models are flagged as in `flags`, and the stored phase is `Stable` only if it `may` be. -/
structure Flagging (stored am : LLMActiveModel) (may : Prop) (flags : List Flag)
    (x : Cluster × List (Event Kube)) : Prop where
  first : firstRead x.2 = some stored
  copy : x.1.active.Known am
  phase : x.1.active.current.status.phase = .stable → may
  flags : x.1.flags = flags
  tidy : x.1.Tidy

section Walk

variable {r : LLMActiveModelReconciler} {stored am : LLMActiveModel} {may : Prop}
  {flags : List Flag} {model : LLMModel} {x y : Cluster × List (Event Kube)} {α : Type}

theorem Cluster.Tidy.congr {s' : Cluster} (h : s.Tidy) (htoken : TokenInOrder s'.active.current)
    (hstatus : s'.active.current.status = s.active.current.status) (hflags : s'.flags = s.flags) :
    s'.Tidy := by
  refine ⟨hflags ▸ h.named, hflags ▸ h.someone, htoken, ?_⟩
  rw [hstatus, hflags]
  exact h.follows

section

variable (h : Flagging stored am may flags x)
include h

/-- A step that leaves the status and the flags alone. -/
theorem Flagging.update (ht : ∃ u, y.2 = x.2 ++ u) (hgrows : x.1.active.Grows y.1.active)
    (htoken : TokenInOrder y.1.active.current)
    (hstatus : y.1.active.current.status = x.1.active.current.status)
    (hflags : y.1.flags = x.1.flags) : Flagging stored am may flags y := by
  obtain ⟨u, hu⟩ := ht
  refine ⟨?_, h.copy.grows hgrows, ?_, hflags.trans h.flags, h.tidy.congr htoken hstatus hflags⟩
  · rw [hu]
    exact firstRead_append h.first u
  · rw [hstatus]
    exact h.phase

theorem Flagging.rely (hs : flagsWorld.rely x y) : Flagging stored am may flags y :=
  h.update ⟨[], by rw [List.append_nil]; exact hs.trace⟩ hs.active (hs.token h.tidy.token) hs.status
    hs.flags

theorem Flagging.same (ht : ∃ u, y.2 = x.2 ++ u) (hactive : y.1.active = x.1.active)
    (hflags : y.1.flags = x.1.flags) : Flagging stored am may flags y := by
  refine h.update ht ?_ ?_ ?_ hflags <;> rw [hactive]
  · exact x.1.active.grows_refl
  · exact h.tidy.token

theorem Flagging.weaken {may' : Prop} (hmay : may → may') : Flagging stored am may' flags x :=
  { h with phase := hmay ∘ h.phase }

end

/-- Calls that change no flag; `Stable` is written only where it may be, for the model that is
flagged. -/
def Mild (am : LLMActiveModel) (may : Prop) (flags : List Flag) : Call → Prop
  | .updateModelStatus obj => setFlag obj.name obj.status.active flags = flags
  | .updateActiveStatus obj => StatusOf TokenInOrder am obj ∧
      (obj.status.phase = .stable → may ∧ Exactly flags obj.status.modelName)
  | _ => True

theorem mild_of_isRead {c : Call} (h : c.IsRead) : Mild am may flags c := by
  cases c <;> first | exact Bool.noConfusion h | trivial

theorem tolerates_mild (h : TokenInOrder am) (may : Prop) (flags : List Flag) :
    Tolerates (Mild am may flags) am where
  read _ hc := mild_of_isRead hc
  failed reason message := ⟨⟨rfl, rfl, rfl, h.refused reason message⟩, fun h => nomatch h⟩

/-- A status write of the object. -/
theorem Flagging.wrote {obj : LLMActiveModel} {a : Call.Answer (.updateActiveStatus obj)}
    (h : Flagging stored am may flags x) (hobj : StatusOf TokenInOrder am obj)
    (hstable : obj.status.phase = .stable → may ∧ Exactly flags obj.status.modelName)
    (hexec : flagsWorld.exec x (.updateActiveStatus obj) a y) :
    Flagging stored am may flags y := by
  obtain ⟨⟨active, hactive, hy⟩, ht, -⟩ := hexec
  have htoken : TokenInOrder y.1.active.current := by
    rw [hy]
    exact tokenInOrder_exec hobj h.copy h.tidy.token hactive
  have hflags : y.1.flags = x.1.flags := by rw [hy]; rfl
  rcases hactive.cases with heq | ⟨obj', hobj', -, version, hf, hput⟩
  · refine h.same ⟨_, ht⟩ ?_ hflags
    rw [hy]
    exact heq
  · cases hobj'
    have hstatus : y.1.active.current.status = obj.status := by
      rw [hy, hput]
      rfl
    refine ⟨?_, ?_, ?_, hflags.trans h.flags, ?_⟩
    · rw [ht]
      exact firstRead_append h.first _
    · refine h.copy.grows ?_
      rw [hy]
      exact hactive.grows
    · rw [hstatus]
      exact fun hphase => (hstable hphase).1
    · refine ⟨hflags ▸ h.tidy.named, hflags ▸ h.tidy.someone, htoken, ?_⟩
      rw [hstatus, hflags, h.flags]
      exact fun hphase => (hstable hphase).2

theorem Flagging.call {c : Call} {a : c.Answer} (hc : Mild am may flags c)
    (h : Flagging stored am may flags x) (hexec : flagsWorld.exec x c a y) :
    Flagging stored am may flags y := by
  have ht := hexec.2.1
  have hstate := hexec.1
  have hsame : y.1 = x.1 → Flagging stored am may flags y := by
    intro heq
    exact h.same ⟨_, ht⟩ (by rw [heq]) (by rw [heq])
  by_cases hread : c.IsRead
  · exact hsame (hstate.of_isRead hread)
  · cases c with
    | updateActiveStatus obj => exact h.wrote hc.1 hc.2 hexec
    | updateModelStatus obj =>
      have hput : ∀ version, y.1 = x.1.putModelStatus obj version →
          Flagging stored am may flags y := by
        intro version hy
        refine h.same ⟨_, ht⟩ (by rw [hy]; rfl) ?_
        rw [hy, Cluster.flags_putModelStatus, h.flags]
        exact hc
      cases a with
      | ok version => exact hput version hstate.2
      | error e =>
        rcases hstate with heq | ⟨-, version, hy⟩
        · exact hsame heq
        · exact hput version hy
    | scaleDeployment name replicas =>
      have hpatched : y.1 = x.1.patched name (.scale replicas) →
          Flagging stored am may flags y := by
        intro hy
        exact h.same ⟨_, ht⟩ (by rw [hy]; rfl) (by rw [hy]; rfl)
      cases a with
      | ok _ => exact hpatched hstate.2
      | error e => exact hstate.elim hsame hpatched
    | patchDeployment base next =>
      have hpatched : y.1 = x.1.patched base.name (.diff base next) →
          Flagging stored am may flags y := by
        intro hy
        exact h.same ⟨_, ht⟩ (by rw [hy]; rfl) (by rw [hy]; rfl)
      cases a with
      | ok _ => exact hpatched hstate.2
      | error e => exact hstate.elim hsame hpatched
    | cacheEnsure => exact hsame hstate
    | _ => exact absurd rfl hread

theorem Flagging.keeps (stored am : LLMActiveModel) (may : Prop) (flags : List Flag) :
    flagsWorld.Keeps (Mild am may flags) (Flagging stored am may flags) where
  rely _ _ h hs := h.rely hs
  call x c a y hc h hexec := by
    have hy := h.call hc hexec
    exact ⟨hy.tidy, hy⟩

/-! ### The token -/

theorem phase_ne_stable_of_not_needsToken (h : ¬ needsToken am) : am.status.phase ≠ .stable := by
  intro hphase
  apply h
  simp [needsToken, hphase]

/-- After the token write, or without one, the stored phase is not `Stable`. -/
theorem Flagging.stays_beginTransition
    (h : Flagging stored am (am.status.phase = .stable) flags x) (htoken : TokenInOrder am) :
    Safe flagsWorld (beginTransition am).prog (Safe.Stays fun am' y =>
      Flagging stored am' False flags y ∧ TokenInOrder am' ∧ am'.spec = am.spec ∧
        (am'.status.transitionFrom = am.status.modelName ∨
          am.status.modelName = am.spec.modelName)) x := by
  unfold beginTransition
  split
  · refine Safe.stays_bind ((Flagging.keeps stored am _ flags).stays (p := liftM now)
      (Q := fun _ => True) ⟨trivial, fun _ => trivial⟩ h) ?_
    rintro started y ⟨-, hy⟩
    refine stays_orError (Safe.bind ?_)
    have hwrite : StatusOf TokenInOrder am (withToken am started) :=
      ⟨rfl, rfl, rfl, TokenInOrder.withToken am started⟩
    refine (Flagging.keeps stored am _ flags).safe_call (Call.updateActiveStatus _)
      ⟨hwrite, fun h => nomatch h⟩ hy ?_
    intro x₁ a x₂ _ h₁ hexec h₂
    cases a with
    | error e => exact fun am' h => nomatch h
    | ok version =>
      rintro am' ham'
      cases ham'
      obtain ⟨⟨active, ⟨hacc, hfresh, hactive⟩, hx₂⟩, -, -⟩ := hexec
      have hk : x₁.1.active.Known (withToken am started) := h₁.copy
      have hcopy : x₂.1.active.Known { withToken am started with resourceVersion := version } := by
        rw [hx₂, hactive]
        exact hk.putStatus hacc hfresh
      have hphase : x₂.1.active.current.status.phase = .transitioning := by
        rw [hx₂, hactive]
        rfl
      refine ⟨⟨h₂.first, hcopy, ?_, h₂.flags, h₂.tidy⟩, ⟨le_rfl, fun _ => Or.inl rfl⟩, rfl,
        Or.inl rfl⟩
      rw [hphase]
      exact fun h => nomatch h
  · rename_i hneeds
    exact ⟨h.weaken (phase_ne_stable_of_not_needsToken hneeds), htoken, rfl,
      needsToken_origin htoken hneeds⟩

/-! ### Flagging and unflagging -/

/-- A model was written. -/
def Written (t : List (Event Kube)) : Prop := ∃ e ∈ t, isModelWrite e.1 = true

theorem Flagging.keeps_written (stored am : LLMActiveModel) (may : Prop) (flags : List Flag) :
    flagsWorld.Keeps (Mild am may flags) fun y => Flagging stored am may flags y ∧ Written y.2 where
  rely _ _ h hs := ⟨h.1.rely hs, hs.trace ▸ h.2⟩
  call x c a y hc h hexec := by
    have hy := h.1.call hc hexec
    obtain ⟨e, he, hwrite⟩ := h.2
    refine ⟨hy.tidy, hy, e, ?_, hwrite⟩
    rw [hexec.2.1]
    exact List.mem_append_left _ he

/-- While the phase is not `Stable` a flag may be changed. -/
theorem Flagging.safe_writeModel (obj : LLMModel) (h : Flagging stored am False flags x)
    (hsome : ∃ e ∈ setFlag obj.name obj.status.active flags, e.active = true) :
    Safe flagsWorld (writeModel obj) (fun res y => ∀ m, res = .ok m →
      (∃ v, m = { obj with resourceVersion := v }) ∧
        Flagging stored am False (setFlag obj.name obj.status.active flags) y ∧ Written y.2) x := by
  intro x₁ hx₁ a y hexec
  have h₁ := h.rely hx₁
  obtain ⟨hstate, ht, -⟩ := hexec
  have hput : ∀ version, y.1 = x₁.1.putModelStatus obj version →
      Flagging stored am False (setFlag obj.name obj.status.active flags) y := by
    intro version hy
    have hactive : y.1.active = x₁.1.active := by rw [hy]; rfl
    have hflags : y.1.flags = setFlag obj.name obj.status.active flags := by
      rw [hy, Cluster.flags_putModelStatus, h₁.flags]
    refine ⟨?_, ?_, ?_, hflags, ?_, ?_, ?_, ?_⟩
    · rw [ht]
      exact firstRead_append h₁.first _
    · rw [hactive]
      exact h₁.copy
    · rw [hactive]
      exact h₁.phase
    · rw [hflags, ← h₁.flags]
      exact h₁.tidy.named.setFlag _ _
    · rw [hflags]
      exact hsome
    · rw [hactive]
      exact h₁.tidy.token
    · rw [hactive]
      exact fun hphase => (h₁.phase hphase).elim
  cases a with
  | error e =>
    refine ⟨?_, fun m h => nomatch h⟩
    rcases hstate with heq | ⟨-, version, hy⟩
    · show y.1.Tidy
      rw [heq]
      exact h₁.tidy
    · exact (hput version hy).tidy
  | ok version =>
    refine ⟨(hput version hstate.2).tidy, ?_⟩
    intro m hm
    cases hm
    refine ⟨⟨version, rfl⟩, hput version hstate.2,
      ⟨⟨.updateModelStatus obj, .ok version⟩, ?_, rfl⟩⟩
    rw [ht]
    exact List.mem_append_right _ List.mem_cons_self

/-- A listing made after a model was written does not fail. -/
theorem not_exec_error_of_written {e : Err} (h : Written x.2) :
    ¬ flagsWorld.exec x .listModels (.error e) y := by
  rintro ⟨-, -, -, hanswered⟩
  obtain ⟨e', he', hwrite⟩ := h
  rw [hanswered rfl e' he'] at hwrite
  cases hwrite

/-- Unflagging `previous` leaves the target as the only flagged model. -/
theorem exactly_of_unflagged {previous : Flag} {target : String} (hw : WellNamed flags)
    (hprevious : previous ∈ flags) (hne : previous.name ≠ target)
    (honly : ∀ e ∈ flags, e.active = true → e.name = target ∨ e.name = previous.name)
    (htarget : ∃ e ∈ flags, e.name = target ∧ e.active = true) :
    Exactly (setFlag previous.object false flags) target := by
  refine exactly_of_only (hw.setFlag _ _) ?_ ?_
  · obtain ⟨e, he, hname, hactive⟩ := htarget
    refine ⟨e, mem_setFlag_of_ne he ?_, hactive⟩
    intro hobject
    rw [hw.objects e he previous hprevious hobject] at hname
    exact hne hname
  · intro e he hactive
    obtain ⟨hmem, hobject⟩ := active_setFlag_false he hactive
    refine (honly e hmem hactive).resolve_right ?_
    intro hname
    exact hobject (congrArg Flag.object (hw.names e hmem previous hprevious hname))

/-- Step 8: whatever was flagged besides the target is the model switched from, and is now
unflagged. -/
theorem Flagging.stays_deactivatePrevious (h : Flagging stored am False flags x)
    (hwritten : Written x.2)
    (honly : ∀ e ∈ flags, e.active = true →
      e.name = model.spec.model.name ∨ e.name = am.status.transitionFrom)
    (htarget : ∃ e ∈ flags, e.name = model.spec.model.name ∧ e.active = true) :
    Safe flagsWorld (deactivatePrevious am model).prog (Safe.Stays fun _ y =>
      ∃ flags', Flagging stored am False flags' y ∧ Exactly flags' model.spec.model.name) x := by
  have hw : WellNamed flags := h.flags ▸ h.tidy.named
  have hsome : ∃ e ∈ flags, e.active = true := h.flags ▸ h.tidy.someone
  unfold deactivatePrevious
  split
  · rename_i hne
    refine Safe.stays_bind (Safe.stays_lift (onCluster_flagsWorld.safe_findModel
      (Flagging.keeps_written stored am False flags) (mild_of_isRead rfl) ⟨h, hwritten⟩
      am.status.transitionFrom)) ?_
    rintro res y ⟨⟨hy, -⟩, x₁, a, ⟨-, hwritten₁⟩, hexec, hres⟩
    cases res with
    | error e =>
      -- The model switched from does not exist, so it is not flagged either.
      refine ⟨flags, hy, exactly_of_only hw hsome ?_⟩
      rcases hres with hnone | ⟨e, rfl⟩
      · intro e he hactive
        refine (honly e he hactive).resolve_right ?_
        exact Cluster.name_ne_of_modelNamed_eq_none hnone e (hy.flags.symm ▸ he)
      · exact absurd hexec (not_exec_error_of_written hwritten₁)
    | ok previous =>
      have hmem : ⟨previous.name, am.status.transitionFrom, previous.status.active⟩ ∈ flags :=
        hy.flags ▸ Cluster.mem_flags_of_modelNamed hres
      have hexactly := exactly_of_unflagged hw hmem hne.2 honly htarget
      refine Safe.stays_bind (Q := fun _ z =>
        Flagging stored am False (setFlag previous.name false flags) z)
        (stays_orLeave_pure ?_) fun _ z hz => ⟨_, hz, hexactly⟩
      exact (hy.safe_writeModel (markInactive previous) hexactly.1).mono
        fun res z hz m hm => (hz m hm).2.1
  · rename_i hskip
    refine ⟨flags, h, exactly_of_only hw hsome ?_⟩
    intro e he hactive
    rcases honly e he hactive with hname | hname
    · exact hname
    · by_contra hother
      exact hskip ⟨hname ▸ hw.nonempty e he, hname ▸ hother⟩

/-! ### The whole reconcile -/

section

variable (h : Flagging stored am False flags x) (htoken : TokenInOrder am)
  (hmodel : model.spec.model.name = am.spec.modelName) (htarget : target ∈ flags)
  (hobject : target.object = model.name) (hname : target.name = model.spec.model.name)
include h htoken hmodel htarget hobject hname

theorem Flagging.stays_publish {runtimeMeta : Option RuntimeMetadata}
    (honly : ∀ e ∈ flags, e.active = true →
      e.name = model.spec.model.name ∨ e.name = am.status.transitionFrom) :
    Safe flagsWorld (publish am model runtimeMeta).prog (Safe.Stays fun _ _ => True) x := by
  have hw : WellNamed flags := h.flags ▸ h.tidy.named
  have hflagged : { target with active := true } ∈ setFlag model.name true flags :=
    mem_setFlag_self htarget hobject
  have honly' : ∀ e ∈ setFlag model.name true flags, e.active = true →
      e.name = model.spec.model.name ∨ e.name = am.status.transitionFrom := by
    intro e he hactive
    rw [← hobject] at he
    rcases active_setFlag_true hw htarget he hactive with heq | hmem
    · exact Or.inl (heq.trans hname)
    · exact honly e hmem hactive
  refine Safe.stays_bind (Q := fun m y => (∃ v, m = { markActive model runtimeMeta with
      resourceVersion := v }) ∧ Flagging stored am False (setFlag model.name true flags) y ∧
      Written y.2) (stays_orLeave_pure ?_) ?_
  · exact h.safe_writeModel (markActive model runtimeMeta) ⟨_, hflagged, rfl⟩
  rintro _ y ⟨⟨v, rfl⟩, h, hwritten⟩
  have hP := tolerates_mild htoken False (setFlag model.name true flags)
  refine Safe.stays_bind ((Flagging.keeps_written stored am False _).stays hP.yields_guardCurrent
    ⟨h, hwritten⟩) ?_
  rintro _ y ⟨-, h, hwritten⟩
  refine Safe.stays_bind (h.stays_deactivatePrevious hwritten honly' ⟨_, hflagged, hname, rfl⟩) ?_
  rintro _ y ⟨flags', h, hexactly⟩
  refine Safe.stays_bind ((Flagging.keeps stored am False flags').stays
    (tolerates_mild htoken False flags').yields_guardCurrent h) ?_
  rintro _ y ⟨-, h⟩
  refine ((Flagging.keeps stored am True flags').stays
    ((tolerates_mild htoken True flags').yields_markStable fun duration => ?_)
    (h.weaken fun _ => trivial)).stays_mono fun _ _ _ => trivial
  exact ⟨⟨rfl, rfl, rfl, htoken.published hmodel duration⟩, fun _ => ⟨trivial, hexactly⟩⟩

theorem Flagging.stays_driveTransition {backend : LLMBackend} {deadline : Deadline}
    (hactive : target.active = model.status.active) (honly : ∀ e ∈ flags, e.active = true →
      e.name = model.spec.model.name ∨ e.name = am.status.transitionFrom) :
    Safe flagsWorld (driveTransition r am model backend deadline).prog
      (Safe.Stays fun _ _ => True) x := by
  have hw : WellNamed flags := h.flags ▸ h.tidy.named
  have hP := tolerates_mild htoken False flags
  have hJ := Flagging.keeps stored am False flags
  -- The cache state is written with the flag the model already has.
  have hcache : setFlag model.name model.status.active flags = flags := by
    rw [← hobject, ← hactive]
    exact setFlag_eq_self hw htarget
  refine Safe.stays_bind (hJ.stays hP.yields_guardCurrent h) ?_
  rintro _ y ⟨-, h⟩
  refine Safe.stays_bind (hJ.stays (hP.yields_validateTarget r) h) ?_
  rintro driver y ⟨-, h⟩
  refine Safe.stays_bind (hJ.stays hP.yields_resolvePrevious h) ?_
  rintro previous y ⟨-, h⟩
  refine Safe.stays_bind (hJ.stays
    (hP.yields_scaleDownPrevious backend (fun _ _ => trivial) previous
    deadline) h) ?_
  rintro polls y ⟨-, h⟩
  refine Safe.stays_bind (hJ.stays hP.yields_guardCurrent h) ?_
  rintro _ y ⟨-, h⟩
  refine Safe.stays_bind (hJ.stays (hP.yields_ensureCached r backend driver (fun _ => trivial)
    fun _ _ => hcache) h) ?_
  rintro cached y ⟨⟨hcname, hcspec⟩, h⟩
  refine Safe.stays_bind (hJ.stays hP.yields_guardCurrent h) ?_
  rintro _ y ⟨-, h⟩
  refine Safe.stays_bind (hJ.stays (hP.yields_activateTarget r backend fun _ _ => trivial) h) ?_
  rintro _ y ⟨-, h⟩
  refine Safe.stays_bind (hJ.stays hP.yields_guardCurrent h) ?_
  rintro _ y ⟨-, h⟩
  refine Safe.stays_bind (hJ.stays (hP.yields_awaitServing backend _) h) ?_
  rintro runtimeMeta y ⟨-, h⟩
  rw [← hcspec] at hmodel hname honly
  rw [← hcname] at hobject
  exact h.stays_publish htoken hmodel htarget hobject hname honly

end

theorem safe_getActive_flags (h : x.1.Tidy) (ht : x.2 = []) (name : String) :
    Safe flagsWorld (getActive name) (fun res y => ∀ stored, res = .ok stored →
      TokenInOrder stored ∧ ∃ flags, Flagging stored (observe stored)
          ((observe stored).status.phase = .stable) flags y ∧
        ∀ e ∈ flags, e.active = true →
          e.name = stored.spec.modelName ∨ e.name = stored.status.modelName) x := by
  intro x₁ hx₁ a x₂ hexec
  obtain ⟨hstate, htrace, hwithin, -⟩ := hexec
  have htrace₁ : x₁.2 = [] := hx₁.trace.trans ht
  have htidy : x₁.1.Tidy := h.congr (hx₁.token h.token) hx₁.status hx₁.flags
  have hsame : x₂.1 = x₁.1 := hstate.of_isRead rfl
  have htidy₂ : x₂.1.Tidy := hsame ▸ htidy
  refine ⟨htidy₂, ?_⟩
  rintro stored rfl
  obtain ⟨rfl, -, -⟩ := hstate
  refine ⟨htidy.token, x₁.1.flags, ⟨?_, ?_, ?_, ?_, htidy₂⟩, hwithin rfl htrace₁⟩
  · rw [htrace, htrace₁]
    rfl
  · have hk : x₁.1.active.Known x₁.1.active.current :=
      ActiveStore.known_of_mem List.mem_cons_self
    rw [hsame]
    exact hk
  · rw [hsame]
    exact id
  · rw [hsame]

/-- The fast path publishes the model that is flagged alone. -/
theorem Flagging.stays_stableFastPath {backend : LLMBackend}
    (h : Flagging stored am may flags x) (htoken : TokenInOrder am)
    (honly : ∀ e ∈ flags, e.active = true →
      e.name = am.spec.modelName ∨ e.name = am.status.modelName) :
    Safe flagsWorld (stableFastPath am model backend).prog
      (Safe.Stays fun _ y => Flagging stored am may flags y) x := by
  have hw : WellNamed flags := h.flags ▸ h.tidy.named
  have hsome : ∃ e ∈ flags, e.active = true := h.flags ▸ h.tidy.someone
  unfold stableFastPath
  split
  · rename_i hname
    have hexactly : Exactly flags am.status.modelName := by
      refine exactly_of_only hw hsome ?_
      intro e he hactive
      rcases honly e he hactive with heq | heq
      · exact heq.trans hname.1.symm
      · exact heq
    have hP := tolerates_mild htoken may flags
    refine Safe.stays_bind ((Flagging.keeps stored am may flags).stays (hP.yields_orLeave
      (readOnly_deploymentMatchesModel model backend) fun _ => trivial) h) ?_
    rintro isMatch y ⟨-, hy⟩
    refine Safe.stays_bind (Q := fun _ z => Flagging stored am may flags z)
      (stays_leaveIf (fun _ => ?_) fun _ => hy) ?_
    · refine (Flagging.keeps stored am True flags).safe_only (only_writeActiveThen ?_)
        (hy.weaken fun _ => trivial)
      exact ⟨⟨rfl, rfl, rfl, htoken.le, fun _ => Or.inr hname.1⟩, fun _ => ⟨trivial, hexactly⟩⟩
    · intro _ z hz
      exact stays_leaveIf (fun _ => trivial) fun _ => hz
  · exact h

theorem safe_reconcile_flags (r : LLMActiveModelReconciler) (name : String) (hs : s.Tidy) :
    Safe flagsWorld (reconcile r name) (fun _ _ => True) (s, []) := by
  refine Safe.exit_of_stays ?_
  refine Safe.stays_bind (stays_orLeave_pure (safe_getActive_flags hs rfl name)) ?_
  rintro stored y ⟨htoken, flags, h, honly⟩
  have htoken : TokenInOrder (observe stored) := ⟨htoken.le, htoken.origin⟩
  have hP := tolerates_mild htoken ((observe stored).status.phase = .stable) flags
  have hJ := Flagging.keeps stored (observe stored) ((observe stored).status.phase = .stable) flags
  refine Safe.stays_bind (hJ.stays
    (hP.yields_orLeave readOnly_singletonOwner fun _ => trivial) h) ?_
  rintro owner y ⟨-, h⟩
  refine Safe.stays_bind (hJ.stays (yields_leaveIf (only_writeActiveThen (hP.failed _ _))) h) ?_
  rintro _ y ⟨-, h⟩
  refine Safe.stays_bind (Q := fun model y =>
    Flagging stored (observe stored) ((observe stored).status.phase = .stable) flags y ∧
      model.spec.model.name = stored.spec.modelName ∧
      ⟨model.name, stored.spec.modelName, model.status.active⟩ ∈ flags) ?_ ?_
  · refine stays_orLeave ((onCluster_flagsWorld.safe_findModel hJ (mild_of_isRead rfl) h
      stored.spec.modelName).mono ?_)
    rintro res y ⟨hy, x₁, a, -, -, hres⟩
    cases res with
    | error e => exact hJ.safe_only (only_writeActiveIgnoring (hP.failed _ _)) hy
    | ok model =>
      exact ⟨hy, modelNamed_name hres, hy.flags ▸ Cluster.mem_flags_of_modelNamed hres⟩
  rintro model y ⟨h, hmodel, htarget⟩
  refine Safe.stays_bind (hJ.stays (hP.yields_orLeave (readOnly_findBackend _ _)
    fun e => only_writeActiveIgnoring (hP.failed _ _)) h) ?_
  rintro backend y ⟨-, h⟩
  refine Safe.stays_bind (h.stays_stableFastPath htoken honly) ?_
  intro _ y h
  refine Safe.stays_bind (hJ.stays (hP.yields_transitionGates r
    fun _ _ _ => ⟨⟨rfl, rfl, rfl, htoken.le, htoken.origin⟩, fun h => nomatch h⟩) h) ?_
  rintro _ y ⟨-, h⟩
  refine Safe.stays_bind (hJ.stays (p := liftM withTimeout) (Q := fun _ => True)
    ⟨trivial, fun _ => trivial⟩ h) ?_
  rintro deadline y ⟨-, h⟩
  refine Safe.stays_bind (h.stays_beginTransition htoken) ?_
  rintro am y ⟨h, htoken', hspec, hfrom⟩
  refine h.stays_driveTransition htoken' ?_ htarget rfl hmodel.symm rfl ?_
  · rw [hmodel, hspec]
    rfl
  · intro e he hactive
    rw [hmodel]
    rcases honly e he hactive with heq | heq
    · exact Or.inl heq
    · rcases hfrom with hfrom | hsame
      · exact Or.inr (heq.trans hfrom.symm)
      · exact Or.inl (heq.trans hsame)

end Walk

/-! ## Runs -/

theorem Cluster.Tidy.env {s s' : Cluster} (h : s.Tidy) (henv : flagsEnv s s') :
    s.active.Grows s'.active ∧ s'.active.current.status = s.active.current.status ∧
      s'.flags = s.flags ∧ s'.Tidy := by
  rcases henv with ⟨active, hactive, rfl⟩ | ⟨⟨models, rfl⟩, hflags⟩ | ⟨deployments, rfl⟩
  · have hstatus : active.current.status = s.active.current.status := by
      obtain ⟨spec, version, hf, rfl⟩ := hactive
      rfl
    exact ⟨hactive.grows, hstatus, rfl, h.congr (h.token.edited hactive) hstatus rfl⟩
  · exact ⟨s.active.grows_refl, rfl, hflags, h.congr h.token rfl hflags⟩
  · exact ⟨s.active.grows_refl, rfl, rfl, h.congr h.token rfl rfl⟩

theorem clusterSystem_fits_flags (r : LLMActiveModelReconciler) (name : String) :
    (clusterSystem r name flagsEnv).Fits flagsConditions flagsWorld Cluster.Tidy where
  env s s' hs henv := by
    obtain ⟨hgrows, hstatus, hflags, hs'⟩ := hs.env henv
    exact ⟨fun t _ => ⟨rfl, hgrows, fun _ => hs'.token, hstatus, hflags⟩, hs'⟩
  call _ _ _ _ _ _ h hc := ⟨h, rfl, hc⟩
  others i i' hi := absurd rfl hi
  guar _ _ _ _ _ _ _ h := h
  start _ _ hs := safe_reconcile_flags r name hs

/-- **The flags follow the active model, under conditions.** In every run of the controller
whose steps meet `flagsConditions`, whenever the stored object is in phase `Stable` exactly the
model its status names is flagged. The run starts with exactly that model flagged, with models
that are well named, and with the transition token, if there is one, in order. -/
theorem flags_follow_active (r : LLMActiveModelReconciler) (name : String) (s₀ : Cluster)
    (hnamed : WellNamed s₀.flags)
    (hexactly : Exactly s₀.flags s₀.active.current.status.modelName)
    (htoken : TokenInOrder s₀.active.current) (c : Config Kube Cluster Unit Outcome)
    (hreach : (clusterSystem r name flagsEnv).Reach flagsConditions (.idle s₀) c)
    (hstable : c.state.active.current.status.phase = .stable) :
    Exactly c.state.flags c.state.active.current.status.modelName :=
  (hreach.safe (clusterSystem_fits_flags r name) ⟨hnamed, hexactly.1, htoken, fun _ => hexactly⟩
    (Config.idle_allSafe _ _)).1.follows hstable

/-- What happens to the namespace in the runs below: models are not edited. -/
def flagsPlayer : Player Kube Cluster (Option String) where
  edit e s := s.edit (e.elim .settle .request)
  answer s c := s.answer c

theorem player_sound_flags (r : LLMActiveModelReconciler) (name : String) :
    flagsPlayer.Sound (clusterSystem r name flagsEnv) where
  edit e s := by
    cases e with
    | some modelName => exact Or.inl (s.requested_edit modelName)
    | none => exact Or.inr (Or.inr ⟨_, rfl⟩)
  answer s c := s.exec_answer c

/-- A switch to `b`, up to the write that flags `b`. -/
def Demo.flagB : List (Cmd (Option String) Unit) :=
  [.edit (some "b"), .start (), .run () 13, .edit none, .run () 7, .edit none, .run () 10]

/-- A completed switch from `a` to `b` that meets the conditions. -/
theorem flags_follow_active_switch :
    ∃ c, (clusterSystem Demo.reconciler "main" flagsEnv).Reach flagsConditions
        (.idle Demo.cluster) c ∧
      c.state.active.current.status.phase = .stable ∧
      c.state.active.current.status.modelName = "b" ∧
      Exactly c.state.flags c.state.active.current.status.modelName := by
  obtain ⟨c, hreach, hstable, hname⟩ :=
    (player_sound_flags Demo.reconciler "main").exists_reach flagsConditions
      (Demo.flagB ++ [.run () 6]) (.idle Demo.cluster)
      (fun c => c.state.active.current.status.phase = .stable ∧
        c.state.active.current.status.modelName = "b") (by decide +kernel)
  exact ⟨c, hreach, hstable, hname, flags_follow_active Demo.reconciler "main" Demo.cluster
    (by decide) (by decide) (by decide) c hreach hstable⟩

/-- The switch to `b` has flagged `b` when `c` is requested. The switch to `c` unflags `a`, which is
still the published model, and `b` stays flagged beside `c`. -/
theorem flags_stray :
    WellNamed Demo.cluster.flags ∧
      Exactly Demo.cluster.flags Demo.cluster.active.current.status.modelName ∧
      ∃ c, (clusterSystem Demo.reconciler "main" flagsEnv).Reach (.none _ _)
        (.idle Demo.cluster) c ∧ c.state.active.current.status.phase = .stable ∧
        ¬ Exactly c.state.flags c.state.active.current.status.modelName := by
  refine ⟨by decide, by decide, ?_⟩
  exact (player_sound_flags Demo.reconciler "main").exists_reach (.none _ _)
    (Demo.flagB ++ [.edit (some "c"), .run () 1, .stop (), .start (), .run () 13, .edit none,
      .run () 7, .edit none, .run () 16]) _
    (fun c => c.state.active.current.status.phase = .stable ∧
      ¬ Exactly c.state.flags c.state.active.current.status.modelName) (by decide +kernel)

end LlmOperator.Controller
