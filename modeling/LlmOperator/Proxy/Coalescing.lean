import LlmOperator.Interaction.Machine
import LlmOperator.Proxy.Transition

/-!
# Coalesced switching

`coalescedOperatorTransition` lets all callers who ask for one model at the same time share
one patch and one wait. The first of them registers a `switchWait` and becomes the leader;
the others find it and wait for its channel to be closed.

The calls run concurrently. A section under `switchMu` is one step, and so is every other
access to what the calls share: the leader's calls to the API server, the removal of the
entry, the publication of the error, the closing of the channel, and the two ways out of a
follower's `select`. A `switchWait` is known by the call that allocated it. A call's context
may end at any moment.
-/

namespace LlmOperator.Proxy

open Api Data Interaction Controller

/-! ## The machine -/

/-- How far a call has come. `wait` is the local variable of that name. -/
inductive Phase (ι : Type) where
  | idle
  /-- In the `select` on the leader's channel. -/
  | following (wait : ι)
  /-- The channel was found closed. -/
  | released (wait : ι)
  /-- Registered, with this part of the patch and the wait still to be done. -/
  | leading (rest : Prog ProxyApi (Option Err))
  /-- The entry is deleted. -/
  | removed (err : Option Err)
  /-- `wait.err` is written. -/
  | published (err : Option Err)
  /-- `wait.done` is closed. -/
  | closed (err : Option Err)
  | returned (wait : ι) (err : Option Err)

structure SwitchWait where
  done : Bool
  err : Option Err

structure Switching (ι : Type) where
  switchWaiters : FMap String ι
  wait : ι → SwitchWait
  phase : ι → Phase ι
  /-- What the call has sent to the API server, with the answers. -/
  sent : ι → List (Event ProxyApi)
  /-- `ctx.Err()` of the call's own context. -/
  ctx : ι → Option Err

inductive Action where
  | enter
  | cancel (e : Err)
  | call (event : Event ProxyApi)
  | remove
  | publish
  | close
  | receive
  | read
  | giveUp
  | finish

structure Label (ι : Type) where
  caller : ι
  action : Action

namespace Switching

def init (ι : Type) : Switching ι where
  switchWaiters := ∅
  wait _ := ⟨false, none⟩
  phase _ := .idle
  sent _ := []
  ctx _ := none

/-- `anySwitchInFlight`: the map has an entry. -/
def anySwitchInFlight {ι : Type} (s : Switching ι) : Bool := 0 < s.switchWaiters.keys.card

variable {ι : Type} [DecidableEq ι]

def goto (s : Switching ι) (i : ι) (p : Phase ι) : Switching ι :=
  { s with phase := Function.update s.phase i p }

@[simp] theorem goto_phase_self (s : Switching ι) (i : ι) (p : Phase ι) :
    (s.goto i p).phase i = p :=
  Function.update_self ..

theorem goto_phase_of_ne (s : Switching ι) {i j : ι} (p : Phase ι) (h : j ≠ i) :
    (s.goto i p).phase j = s.phase j :=
  Function.update_of_ne h ..

end Switching

variable {ι : Type} [DecidableEq ι] {err : Option Err}

/-- The steps of the calls. Call `i` asks for `modelName i`. -/
inductive Step (configured : Bool) (modelName : ι → String) :
    Switching ι → Label ι → Switching ι → Prop
  | cancel {s : Switching ι} {i : ι} (e : Err) (h : s.ctx i = none) :
      Step configured modelName s ⟨i, .cancel e⟩
        { s with ctx := Function.update s.ctx i (some e) }
  | follow {s : Switching ι} {i w : ι} (h : s.phase i = .idle)
      (hw : s.switchWaiters.lookup (modelName i) = some w) :
      Step configured modelName s ⟨i, .enter⟩ (s.goto i (.following w))
  | lead {s : Switching ι} {i : ι} (h : s.phase i = .idle)
      (hw : s.switchWaiters.lookup (modelName i) = none) :
      Step configured modelName s ⟨i, .enter⟩
        { s.goto i (.leading (patchAndWait configured (modelName i))) with
          switchWaiters := s.switchWaiters.insert (modelName i) i }
  | call {s : Switching ι} {i : ι} {op : ProxyCall} {k : op.Answer → Prog ProxyApi (Option Err)}
      (h : s.phase i = .leading (.call op k)) (r : op.Answer) :
      Step configured modelName s ⟨i, .call ⟨op, r⟩⟩
        { s.goto i (.leading (k r)) with
          sent := Function.update s.sent i (s.sent i ++ [⟨op, r⟩]) }
  | remove {s : Switching ι} {i : ι} {err : Option Err} (h : s.phase i = .leading (.pure err)) :
      Step configured modelName s ⟨i, .remove⟩
        { s.goto i (.removed err) with switchWaiters := s.switchWaiters.erase (modelName i) }
  | publish {s : Switching ι} {i : ι} {err : Option Err} (h : s.phase i = .removed err) :
      Step configured modelName s ⟨i, .publish⟩
        { s.goto i (.published err) with
          wait := Function.update s.wait i { s.wait i with err := err } }
  | close {s : Switching ι} {i : ι} {err : Option Err} (h : s.phase i = .published err) :
      Step configured modelName s ⟨i, .close⟩
        { s.goto i (.closed err) with
          wait := Function.update s.wait i { s.wait i with done := true } }
  | receive {s : Switching ι} {i w : ι} (h : s.phase i = .following w)
      (hdone : (s.wait w).done = true) :
      Step configured modelName s ⟨i, .receive⟩ (s.goto i (.released w))
  | read {s : Switching ι} {i w : ι} (h : s.phase i = .released w) :
      Step configured modelName s ⟨i, .read⟩ (s.goto i (.returned w (s.wait w).err))
  | giveUp {s : Switching ι} {i w : ι} {e : Err} (h : s.phase i = .following w)
      (hctx : s.ctx i = some e) :
      Step configured modelName s ⟨i, .giveUp⟩ (s.goto i (.returned w (some e)))
  /-- The leader's own context is looked at when everything is done. -/
  | finish {s : Switching ι} {i : ι} {err : Option Err} (h : s.phase i = .closed err) :
      Step configured modelName s ⟨i, .finish⟩ (s.goto i (.returned i ((s.ctx i).or err)))

/-! ## Roles -/

def Phase.isLeading : Phase ι → Bool
  | .leading _ => true
  | _ => false

namespace Switching

/-- The call is a leader between its registration and the removal of its entry. -/
def InFlight (s : Switching ι) (i : ι) : Prop := (s.phase i).isLeading = true

/-- The call is or was a leader. -/
def Leads (s : Switching ι) (i : ι) : Prop :=
  match s.phase i with
  | .leading _ | .removed _ | .published _ | .closed _ => True
  | .returned w _ => w = i
  | _ => False

end Switching

/-! ## What each call and the map say -/

section Invariant

variable {configured : Bool} {modelName : ι → String} {s s' : Switching ι} {l : Label ι} {i j : ι}

/-- Call `i` found the entry of call `w`. -/
structure Joined (modelName : ι → String) (s : Switching ι) (i w : ι) : Prop where
  ne : w ≠ i
  modelName_eq : modelName w = modelName i
  leads : s.Leads w

/-- What is known of a call at each of its phases. -/
def CallOk (configured : Bool) (modelName : ι → String) (s : Switching ι) (i : ι) : Prop :=
  match s.phase i with
  | .idle => s.sent i = [] ∧ (s.wait i).done = false
  | .following w => s.sent i = [] ∧ (s.wait i).done = false ∧ Joined modelName s i w
  | .released w => s.sent i = [] ∧ (s.wait i).done = false ∧ Joined modelName s i w ∧
      (s.wait w).done = true
  | .leading rest => (patchAndWait configured (modelName i)).Steps (s.sent i) rest ∧
      (s.wait i).done = false
  | .removed err => (patchAndWait configured (modelName i)).Runs (s.sent i) err ∧
      (s.wait i).done = false
  | .published err => (patchAndWait configured (modelName i)).Runs (s.sent i) err ∧
      s.wait i = ⟨false, err⟩
  | .closed err => (patchAndWait configured (modelName i)).Runs (s.sent i) err ∧
      s.wait i = ⟨true, err⟩
  | .returned w err =>
    (w = i ∧ (patchAndWait configured (modelName i)).Runs (s.sent i) (s.wait i).err ∧
        (s.wait i).done = true ∨
      s.sent i = [] ∧ (s.wait i).done = false ∧ Joined modelName s i w) ∧
    (s.ctx i = none → (s.wait w).done = true ∧ err = (s.wait w).err)

/-- The entries of the map are the leaders in flight. -/
def Entries (modelName : ι → String) (s : Switching ι) : Prop :=
  ∀ m w, s.switchWaiters.lookup m = some w ↔ s.InFlight w ∧ modelName w = m

structure Inv (configured : Bool) (modelName : ι → String) (s : Switching ι) : Prop where
  calls : ∀ i, CallOk configured modelName s i
  entries : Entries modelName s

/-- What a step of call `i` leaves alone. -/
structure Frame (s s' : Switching ι) (i : ι) : Prop where
  phase : ∀ j, j ≠ i → s'.phase j = s.phase j
  sent : ∀ j, j ≠ i → s'.sent j = s.sent j
  wait : ∀ j, j ≠ i → s'.wait j = s.wait j
  ctx : ∀ j, j ≠ i → s'.ctx j = s.ctx j
  leads : s.Leads i → s'.Leads i
  settled : (s.wait i).done = true → s'.wait i = s.wait i

theorem Frame.leads_of (h : Frame s s' i) (w : ι) (hw : s.Leads w) : s'.Leads w := by
  by_cases hwi : w = i
  · exact hwi ▸ h.leads (hwi ▸ hw)
  · unfold Switching.Leads
    rw [h.phase w hwi]
    exact hw

theorem Frame.settled_of (h : Frame s s' i) (w : ι) (hw : (s.wait w).done = true) :
    s'.wait w = s.wait w := by
  by_cases hwi : w = i
  · exact hwi ▸ h.settled (hwi ▸ hw)
  · exact h.wait w hwi

/-- The step of another call changes nothing of what is known of this one. -/
theorem CallOk.frame (h : CallOk configured modelName s j) (hf : Frame s s' i) (hj : j ≠ i) :
    CallOk configured modelName s' j := by
  unfold CallOk at h ⊢
  rw [hf.phase j hj, hf.sent j hj, hf.wait j hj, hf.ctx j hj]
  have hjoined : ∀ w, Joined modelName s j w → Joined modelName s' j w :=
    fun w hw => ⟨hw.ne, hw.modelName_eq, hf.leads_of w hw.leads⟩
  cases hp : s.phase j with
  | following w =>
    rw [hp] at h
    exact ⟨h.1, h.2.1, hjoined w h.2.2⟩
  | released w =>
    rw [hp] at h
    obtain ⟨hsent, hown, hw, hdone⟩ := h
    exact ⟨hsent, hown, hjoined w hw, by rw [hf.settled_of w hdone, hdone]⟩
  | returned w err =>
    rw [hp] at h
    refine ⟨h.1.imp_right fun hw => ⟨hw.1, hw.2.1, hjoined w hw.2.2⟩, ?_⟩
    intro hctx
    obtain ⟨hdone, herr⟩ := h.2 hctx
    rw [hf.settled_of w hdone]
    exact ⟨hdone, herr⟩
  | _ =>
    rw [hp] at h
    exact h

/-- A step that does nothing but move call `i` on. -/
theorem frame_goto {p : Phase ι} (hleads : s.Leads i → (s.goto i p).Leads i) :
    Frame s (s.goto i p) i where
  phase _ hj := s.goto_phase_of_ne p hj
  sent _ _ := rfl
  wait _ _ := rfl
  ctx _ _ := rfl
  leads := hleads
  settled _ := rfl

theorem leads_goto {p : Phase ι} :
    (s.goto i p).Leads i ↔ match p with
      | .leading _ | .removed _ | .published _ | .closed _ => True
      | .returned w _ => w = i
      | _ => False := by
  unfold Switching.Leads
  rw [s.goto_phase_self]

theorem Step.frame (h : Step configured modelName s l s')
    (hok : CallOk configured modelName s l.caller) : Frame s s' l.caller := by
  unfold CallOk at hok
  cases h with
  | cancel e h =>
    exact ⟨fun _ _ => rfl, fun _ _ => rfl, fun _ _ => rfl,
      fun j hj => Function.update_of_ne hj .., id, fun _ => rfl⟩
  | @follow i w h hw =>
    refine frame_goto fun hleads => ?_
    simp [Switching.Leads, h] at hleads
  | @lead i h hw =>
    exact ⟨fun j hj => s.goto_phase_of_ne _ hj, fun _ _ => rfl, fun _ _ => rfl, fun _ _ => rfl,
      fun _ => leads_goto.mpr trivial, fun _ => rfl⟩
  | @call i op k h r =>
    exact ⟨fun j hj => s.goto_phase_of_ne _ hj, fun j hj => Function.update_of_ne hj ..,
      fun _ _ => rfl, fun _ _ => rfl, fun _ => leads_goto.mpr trivial, fun _ => rfl⟩
  | @remove i err h =>
    exact ⟨fun j hj => s.goto_phase_of_ne _ hj, fun _ _ => rfl, fun _ _ => rfl, fun _ _ => rfl,
      fun _ => leads_goto.mpr trivial, fun _ => rfl⟩
  | @publish i err h =>
    refine ⟨fun j hj => s.goto_phase_of_ne _ hj, fun _ _ => rfl,
      fun j hj => Function.update_of_ne hj .., fun _ _ => rfl,
      fun _ => leads_goto.mpr trivial, fun hdone => ?_⟩
    simp only [h] at hok
    cases hok.2.symm.trans hdone
  | @close i err h =>
    refine ⟨fun j hj => s.goto_phase_of_ne _ hj, fun _ _ => rfl,
      fun j hj => Function.update_of_ne hj .., fun _ _ => rfl,
      fun _ => leads_goto.mpr trivial, fun hdone => ?_⟩
    simp only [h] at hok
    rw [hok.2] at hdone
    cases hdone
  | @receive i w h hdone =>
    refine frame_goto fun hleads => ?_
    simp [Switching.Leads, h] at hleads
  | @read i w h =>
    refine frame_goto fun hleads => ?_
    simp [Switching.Leads, h] at hleads
  | @giveUp i w e h hctx =>
    refine frame_goto fun hleads => ?_
    simp [Switching.Leads, h] at hleads
  | @finish i err h => exact frame_goto fun _ => leads_goto.mpr rfl

omit [DecidableEq ι] in
/-- The wait that was closed carries the result of its leader's patch and wait. -/
theorem Inv.outcome (h : Inv configured modelName s) {w : ι} (hdone : (s.wait w).done = true) :
    (patchAndWait configured (modelName w)).Runs (s.sent w) (s.wait w).err := by
  have hok := h.calls w
  unfold CallOk at hok
  cases hp : s.phase w with
  | closed err =>
    simp only [hp] at hok
    rw [hok.2]
    exact hok.1
  | returned w' err =>
    simp only [hp] at hok
    rcases hok.1 with ⟨-, hruns, -⟩ | ⟨-, hnot, -⟩
    · exact hruns
    · rw [hnot] at hdone
      cases hdone
  | published err =>
    simp only [hp] at hok
    rw [hok.2] at hdone
    cases hdone
  | idle => simp_all
  | following w' => simp_all
  | released w' => simp_all
  | leading rest => simp_all
  | removed err => simp_all

omit [DecidableEq ι] in
/-- Whoever finds an entry joins a leader. -/
theorem Entries.joined (h : Entries modelName s) {w : ι} (hi : s.phase i = .idle)
    (hw : s.switchWaiters.lookup (modelName i) = some w) : Joined modelName s i w := by
  obtain ⟨hflight, hname⟩ := (h _ _).mp hw
  unfold Switching.InFlight at hflight
  refine ⟨?_, hname, ?_⟩
  · rintro rfl
    simp [hi, Phase.isLeading] at hflight
  · unfold Switching.Leads
    cases hp : s.phase w with
    | leading rest => trivial
    | _ => simp [hp, Phase.isLeading] at hflight

/-- A call keeps what is known of it with each of its own steps. -/
theorem Step.callOk (h : Step configured modelName s l s')
    (hok : CallOk configured modelName s l.caller) (hentries : Entries modelName s) :
    CallOk configured modelName s' l.caller := by
  have hframe := h.frame hok
  have hjoined : ∀ w, Joined modelName s l.caller w → Joined modelName s' l.caller w :=
    fun w hw => ⟨hw.ne, hw.modelName_eq, hframe.leads_of w hw.leads⟩
  unfold CallOk at hok ⊢
  cases h with
  | @cancel i e h =>
    cases hp : s.phase i with
    | following w =>
      simp only [hp] at hok ⊢
      exact ⟨hok.1, hok.2.1, hjoined w hok.2.2⟩
    | released w =>
      simp only [hp] at hok ⊢
      exact ⟨hok.1, hok.2.1, hjoined w hok.2.2.1, hok.2.2.2⟩
    | returned w err =>
      simp only [hp] at hok ⊢
      refine ⟨hok.1.imp_right fun hw => ⟨hw.1, hw.2.1, hjoined w hw.2.2⟩, ?_⟩
      simp
    | _ =>
      simp only [hp] at hok ⊢
      exact hok
  | @follow i w h hw =>
    simp only [h, s.goto_phase_self] at hok ⊢
    exact ⟨hok.1, hok.2, hjoined w (hentries.joined h hw)⟩
  | @lead i h hw =>
    simp only [h, s.goto_phase_self] at hok ⊢
    refine ⟨?_, hok.2⟩
    show (patchAndWait configured (modelName i)).Steps (s.sent i) _
    rw [hok.1]
    exact .nil _
  | @call i op k h r =>
    simp only [h, s.goto_phase_self, Function.update_self] at hok ⊢
    exact ⟨hok.1.snoc r, hok.2⟩
  | @remove i err h =>
    simp only [h, s.goto_phase_self] at hok ⊢
    exact hok
  | @publish i err h =>
    simp only [h, s.goto_phase_self, Function.update_self] at hok ⊢
    exact ⟨hok.1, by rw [hok.2]⟩
  | @close i err h =>
    simp only [h, s.goto_phase_self, Function.update_self] at hok ⊢
    exact ⟨hok.1, by rw [hok.2]⟩
  | @receive i w h hdone =>
    simp only [h, s.goto_phase_self] at hok ⊢
    exact ⟨hok.1, hok.2.1, hjoined w hok.2.2, hdone⟩
  | @read i w h =>
    simp only [h, s.goto_phase_self] at hok ⊢
    obtain ⟨hsent, hown, hw, hdone⟩ := hok
    exact ⟨Or.inr ⟨hsent, hown, hjoined w hw⟩, fun _ => ⟨hdone, rfl⟩⟩
  | @giveUp i w e h hctx =>
    simp only [h, s.goto_phase_self] at hok ⊢
    refine ⟨Or.inr ⟨hok.1, hok.2.1, hjoined w hok.2.2⟩, fun hnone => ?_⟩
    cases hctx.symm.trans hnone
  | @finish i err h =>
    simp only [h, s.goto_phase_self] at hok ⊢
    obtain ⟨hruns, hwait⟩ := hok
    have hdone : (s.wait i).done = true := by rw [hwait]
    have herr : (s.wait i).err = err := by rw [hwait]
    refine ⟨Or.inl ⟨trivial, ?_, hdone⟩, fun hnone => ⟨hdone, ?_⟩⟩
    · show (patchAndWait configured (modelName i)).Runs (s.sent i) (s.wait i).err
      rw [herr]
      exact hruns
    · have hnone : s.ctx i = none := hnone
      show (s.ctx i).or err = (s.wait i).err
      rw [hnone, herr, Option.none_or]

omit [DecidableEq ι] in
/-- The entries stay right when the map and who is in flight stay the same. -/
theorem Entries.keep (h : Entries modelName s) (hmap : s'.switchWaiters = s.switchWaiters)
    (hflight : ∀ w, s'.InFlight w ↔ s.InFlight w) : Entries modelName s' := by
  intro m w
  rw [hmap, h m w, hflight w]

theorem inFlight_goto {p : Phase ι} (hp : p.isLeading = (s.phase i).isLeading) (w : ι) :
    (s.goto i p).InFlight w ↔ s.InFlight w := by
  unfold Switching.InFlight
  by_cases hw : w = i
  · rw [hw, s.goto_phase_self, hp]
  · rw [s.goto_phase_of_ne p hw]

theorem Step.entries (h : Step configured modelName s l s') (hentries : Entries modelName s) :
    Entries modelName s' := by
  cases h with
  | cancel e h => exact hentries.keep rfl fun _ => Iff.rfl
  | follow h hw => exact hentries.keep rfl (inFlight_goto (by rw [h]; rfl))
  | @lead i h hw =>
    intro m w
    show (s.switchWaiters.insert (modelName i) i).lookup m = some w ↔
      (s.goto i _).InFlight w ∧ modelName w = m
    unfold Switching.InFlight
    by_cases hwi : w = i
    · subst hwi
      rw [s.goto_phase_self]
      by_cases hm : m = modelName w
      · subst hm
        simp [Phase.isLeading]
      · rw [Finmap.lookup_insert_of_ne _ hm, hentries m w]
        simp [Switching.InFlight, h, Phase.isLeading, Ne.symm hm]
    · rw [s.goto_phase_of_ne _ hwi]
      by_cases hm : m = modelName i
      · subst hm
        -- Nobody else is in flight for this model: the map had no entry.
        have hnone : ¬ (s.InFlight w ∧ modelName w = modelName i) := by
          rw [← hentries, hw]
          exact nofun
        rw [Finmap.lookup_insert]
        simpa [Switching.InFlight, Ne.symm hwi] using hnone
      · rw [Finmap.lookup_insert_of_ne _ hm]
        exact hentries m w
  | call h r => exact hentries.keep rfl (inFlight_goto (by rw [h]; rfl))
  | @remove i err h =>
    intro m w
    show (s.switchWaiters.erase (modelName i)).lookup m = some w ↔
      (s.goto i _).InFlight w ∧ modelName w = m
    unfold Switching.InFlight
    have hown : s.switchWaiters.lookup (modelName i) = some i :=
      (hentries _ _).mpr ⟨by rw [Switching.InFlight, h]; rfl, rfl⟩
    by_cases hwi : w = i
    · subst hwi
      rw [s.goto_phase_self]
      by_cases hm : m = modelName w
      · subst hm
        simp [Phase.isLeading]
      · rw [Finmap.lookup_erase_ne hm, hentries m w]
        simp [Phase.isLeading, Ne.symm hm]
    · rw [s.goto_phase_of_ne _ hwi]
      by_cases hm : m = modelName i
      · subst hm
        have hnone : ¬ (s.InFlight w ∧ modelName w = modelName i) := by
          rw [← hentries, hown]
          exact fun heq => hwi (Option.some.inj heq).symm
        rw [Finmap.lookup_erase]
        simpa [Switching.InFlight] using hnone
      · rw [Finmap.lookup_erase_ne hm]
        exact hentries m w
  | publish h => exact hentries.keep rfl (inFlight_goto (by rw [h]; rfl))
  | close h => exact hentries.keep rfl (inFlight_goto (by rw [h]; rfl))
  | receive h hdone => exact hentries.keep rfl (inFlight_goto (by rw [h]; rfl))
  | read h => exact hentries.keep rfl (inFlight_goto (by rw [h]; rfl))
  | giveUp h hctx => exact hentries.keep rfl (inFlight_goto (by rw [h]; rfl))
  | finish h => exact hentries.keep rfl (inFlight_goto (by rw [h]; rfl))

theorem Inv.step (h : Inv configured modelName s) (hstep : Step configured modelName s l s') :
    Inv configured modelName s' where
  calls i := by
    by_cases hi : i = l.caller
    · exact hi ▸ hstep.callOk (h.calls l.caller) h.entries
    · exact (h.calls i).frame (hstep.frame (h.calls l.caller)) hi
  entries := hstep.entries h.entries

omit [DecidableEq ι] in
theorem inv_init : Inv configured modelName (Switching.init ι) where
  calls _ := ⟨rfl, rfl⟩
  entries m w := by simp [Switching.init, Switching.InFlight, Phase.isLeading]

theorem inv_of_run {ls : List (Label ι)}
    (h : Run (Step configured modelName) (Switching.init ι) ls s) : Inv configured modelName s :=
  h.invariant (fun _ _ _ hs hstep => hs.step hstep) inv_init

end Invariant

/-! ## Cancellation -/

section Cancellation

variable {configured : Bool} {modelName : ι → String} {s s' t : Switching ι} {c i : ι}

def Action.isCancellation : Action → Bool
  | .cancel _ => true
  | .giveUp => true
  | _ => false

/-- The step neither ends the context of `c` nor makes `c` return for it. -/
def keepsContext (c : ι) (l : Label ι) : Bool := !(l.caller = c && l.action.isCancellation)

/-- `t` is `s` as far as anyone but `c` can tell, and the context of `c` has not ended in it. In
`s` call `c` may have returned where in `t` it still follows its leader, or with another
result. -/
structure Alike (c : ι) (s t : Switching ι) : Prop where
  switchWaiters : t.switchWaiters = s.switchWaiters
  wait : t.wait = s.wait
  sent : t.sent = s.sent
  phase : ∀ i, i ≠ c → t.phase i = s.phase i
  ctx : ∀ i, i ≠ c → t.ctx i = s.ctx i
  live : t.ctx c = none
  own : t.phase c = s.phase c ∨ ∃ w err, s.phase c = .returned w err ∧
    (t.phase c = .following w ∨ ∃ err', t.phase c = .returned w err')

/-- Unless the call has returned, it is at the same place in both. -/
theorem Alike.phase_eq (h : Alike c s t) {p : Phase ι} (hi : s.phase i = p)
    (hp : ∀ w err, p ≠ .returned w err) : t.phase i = p := by
  by_cases hic : i = c
  · subst hic
    rcases h.own with heq | ⟨w, err, heq, -⟩
    · exact heq.trans hi
    · exact absurd (hi.symm.trans heq) (hp w err)
  · exact (h.phase i hic).trans hi

/-- Call `i` moves on in both, to the same place or, if it is `c`, to a return. -/
theorem Alike.goto (h : Alike c s t) {p p' : Phase ι}
    (hp : p' = p ∨ i = c ∧ ∃ w err err', p = .returned w err ∧ p' = .returned w err') :
    Alike c (s.goto i p) (t.goto i p') where
  switchWaiters := h.switchWaiters
  wait := h.wait
  sent := h.sent
  phase j hj := by
    by_cases hji : j = i
    · subst hji
      rw [t.goto_phase_self, s.goto_phase_self]
      exact hp.resolve_right fun hc => hj hc.1
    · rw [t.goto_phase_of_ne _ hji, s.goto_phase_of_ne _ hji, h.phase j hj]
  ctx := h.ctx
  live := h.live
  own := by
    by_cases hci : c = i
    · subst hci
      rw [t.goto_phase_self, s.goto_phase_self]
      rcases hp with rfl | ⟨-, w, err, err', rfl, rfl⟩
      · exact Or.inl rfl
      · exact Or.inr ⟨w, err, rfl, Or.inr ⟨err', rfl⟩⟩
    · rw [t.goto_phase_of_ne _ hci, s.goto_phase_of_ne _ hci]
      exact h.own

theorem Alike.step (h : Alike c s t) {l : Label ι} (hl : keepsContext c l = true)
    (hstep : Step configured modelName s l s') :
    ∃ t', Step configured modelName t l t' ∧ Alike c s' t' := by
  cases hstep with
  | @cancel i e hctx =>
    have hic : i ≠ c := by
      rintro rfl
      simp [keepsContext, Action.isCancellation] at hl
    refine ⟨_, .cancel e ((h.ctx i hic).trans hctx), ⟨h.switchWaiters, h.wait, h.sent, h.phase, ?_,
      ?_, h.own⟩⟩
    · intro j hj
      by_cases hji : j = i
      · subst hji
        simp
      · simp [Function.update_of_ne hji, h.ctx j hj]
    · simp [Function.update_of_ne (Ne.symm hic), h.live]
  | follow hi hw =>
    exact ⟨_, .follow (h.phase_eq hi nofun) (by rw [h.switchWaiters, hw]), h.goto (Or.inl rfl)⟩
  | @lead i hi hw =>
    refine ⟨_, .lead (h.phase_eq hi nofun) (by rw [h.switchWaiters, hw]), ?_⟩
    obtain ⟨-, h₂, h₃, h₄, h₅, h₆, h₇⟩ := h.goto (i := i) (Or.inl rfl)
    exact ⟨by rw [h.switchWaiters], h₂, h₃, h₄, h₅, h₆, h₇⟩
  | @call i op k hi r =>
    refine ⟨_, .call (h.phase_eq hi nofun) r, ?_⟩
    obtain ⟨h₁, h₂, -, h₄, h₅, h₆, h₇⟩ := h.goto (i := i) (Or.inl rfl)
    exact ⟨h₁, h₂, by rw [h.sent], h₄, h₅, h₆, h₇⟩
  | @remove i err hi =>
    refine ⟨_, .remove (h.phase_eq hi nofun), ?_⟩
    obtain ⟨-, h₂, h₃, h₄, h₅, h₆, h₇⟩ := h.goto (i := i) (Or.inl rfl)
    exact ⟨by rw [h.switchWaiters], h₂, h₃, h₄, h₅, h₆, h₇⟩
  | @publish i err hi =>
    refine ⟨_, .publish (h.phase_eq hi nofun), ?_⟩
    obtain ⟨h₁, -, h₃, h₄, h₅, h₆, h₇⟩ := h.goto (i := i) (Or.inl rfl)
    exact ⟨h₁, by rw [h.wait], h₃, h₄, h₅, h₆, h₇⟩
  | @close i err hi =>
    refine ⟨_, .close (h.phase_eq hi nofun), ?_⟩
    obtain ⟨h₁, -, h₃, h₄, h₅, h₆, h₇⟩ := h.goto (i := i) (Or.inl rfl)
    exact ⟨h₁, by rw [h.wait], h₃, h₄, h₅, h₆, h₇⟩
  | receive hi hdone =>
    exact ⟨_, .receive (h.phase_eq hi nofun) (by rw [h.wait, hdone]), h.goto (Or.inl rfl)⟩
  | read hi =>
    exact ⟨_, .read (h.phase_eq hi nofun), h.goto (Or.inl (by rw [h.wait]))⟩
  | @giveUp i w e hi hctx =>
    have hic : i ≠ c := by
      rintro rfl
      simp [keepsContext, Action.isCancellation] at hl
    exact ⟨_, .giveUp (h.phase_eq hi nofun) ((h.ctx i hic).trans hctx), h.goto (Or.inl rfl)⟩
  | @finish i err hi =>
    refine ⟨_, .finish (h.phase_eq hi nofun), h.goto ?_⟩
    by_cases hic : i = c
    · exact Or.inr ⟨hic, _, _, _, rfl, rfl⟩
    · exact Or.inl (by rw [h.ctx i hic])

/-- The end of the context of `c`, and its return for it, are seen by nobody else. -/
theorem Alike.skip (h : Alike c s t) {l : Label ι} (hl : keepsContext c l = false)
    (hstep : Step configured modelName s l s') : Alike c s' t := by
  simp only [keepsContext, Bool.not_eq_false', Bool.and_eq_true, decide_eq_true_eq] at hl
  obtain ⟨hcaller, haction⟩ := hl
  cases hstep with
  | cancel e hctx =>
    cases hcaller
    refine ⟨h.switchWaiters, h.wait, h.sent, h.phase, ?_, h.live, h.own⟩
    intro j hj
    simp [Function.update_of_ne hj, h.ctx j hj]
  | @giveUp i w e hi hctx =>
    cases hcaller
    refine ⟨h.switchWaiters, h.wait, h.sent, ?_, h.ctx, h.live, Or.inr ⟨w, some e, ?_, Or.inl ?_⟩⟩
    · intro j hj
      rw [s.goto_phase_of_ne _ hj, h.phase j hj]
    · exact s.goto_phase_self ..
    · exact h.phase_eq hi nofun
  | _ => cases haction

end Cancellation

/-! ## Progress -/

section Progress

variable {configured : Bool} {modelName : ι → String} {s s' : Switching ι} {i w : ι} {n : Nat}

def Action.isOwn : Action → Bool
  | .enter => false
  | .cancel _ => false
  | _ => true

/-- A step by which call `i`, once it was made, goes on. -/
def Own (i : ι) (l : Label ι) : Prop := l.caller = i ∧ l.action.isOwn = true

/-- Only its own steps move a call that was made. -/
theorem Step.phase_kept {l : Label ι} (h : Step configured modelName s l s')
    (hi : s.phase i ≠ .idle) (hl : ¬ Own i l) : s'.phase i = s.phase i := by
  by_cases hcaller : i = l.caller
  · subst hcaller
    cases h with
    | cancel e h => rfl
    | follow h hw => exact absurd h hi
    | lead h hw => exact absurd h hi
    | _ => exact absurd ⟨rfl, rfl⟩ hl
  · cases h with
    | cancel e h => rfl
    | _ => exact s.goto_phase_of_ne _ hcaller

/-- Where a call is after a step of its own. -/
theorem Step.next_phase {l : Label ι} (h : Step configured modelName s l s') (hl : Own i l) :
    match s.phase i with
    | .idle => False
    | .following w => s'.phase i = .released w ∨ ∃ e, s'.phase i = .returned w (some e)
    | .released w => s'.phase i = .returned w (s.wait w).err
    | .leading (.call _ k) => ∃ r, s'.phase i = .leading (k r)
    | .leading (.pure err) => s'.phase i = .removed err
    | .removed err => s'.phase i = .published err
    | .published err => s'.phase i = .closed err
    | .closed _ => ∃ err, s'.phase i = .returned i err
    | .returned _ _ => False := by
  obtain ⟨rfl, hown⟩ := hl
  cases h with
  | cancel e h => cases hown
  | follow h hw => cases hown
  | lead h hw => cases hown
  | call h r =>
    simp only [h]
    exact ⟨r, s.goto_phase_self ..⟩
  | receive h hdone =>
    simp only [h]
    exact Or.inl (s.goto_phase_self ..)
  | giveUp h hctx =>
    simp only [h]
    exact Or.inr ⟨_, s.goto_phase_self ..⟩
  | finish h =>
    simp only [h]
    exact ⟨_, s.goto_phase_self ..⟩
  | remove h => simp only [h, s.goto_phase_self]
  | publish h => simp only [h, s.goto_phase_self]
  | close h => simp only [h, s.goto_phase_self]
  | read h => simp only [h, s.goto_phase_self]

/-- Call `i` has returned, with the local variable `wait` as given. -/
def Switching.Returned (s : Switching ι) (i w : ι) : Prop := ∃ err, s.phase i = .returned w err

variable {b : Behaviour (Step configured modelName)}

section

variable (hfair : b.Fair (Own i))
include hfair

/-- A call at a place where it can always go on goes on. -/
theorem moves_on {p : Phase ι} {P : Switching ι → Prop} (hn : (b.state n).phase i = p)
    (hp : p ≠ .idle) (hPn : P (b.state n))
    (hP : ∀ s l s', P s → Step configured modelName s l s' → P s')
    (henabled : ∀ s, s.phase i = p → P s → ∃ a s', Action.isOwn a = true ∧
      Step configured modelName s ⟨i, a⟩ s') :
    ∃ k, n ≤ k ∧ (b.state k).phase i = p ∧
      ∃ l, Own i l ∧ Step configured modelName (b.state k) l (b.state (k + 1)) := by
  obtain ⟨k, hk, ⟨hphase, -⟩, hstep⟩ := hfair.moves (P := fun s => s.phase i = p ∧ P s)
    (fun s hs => by
      obtain ⟨a, s', ha, hstep⟩ := henabled s hs.1 hs.2
      exact ⟨_, s', ⟨rfl, ha⟩, hstep⟩)
    (fun s l s' hs hl hstep => ⟨(hstep.phase_kept (hs.1 ▸ hp) hl).trans hs.1, hP s l s' hs.2 hstep⟩)
    ⟨hn, hPn⟩
  exact ⟨k, hk, hphase, hstep⟩

/-- `moves_on` at a place where a step is possible whatever the others do. -/
theorem moves_on_freely {p : Phase ι} (hn : (b.state n).phase i = p) (hp : p ≠ .idle)
    (henabled : ∀ s, s.phase i = p → ∃ a s', Action.isOwn a = true ∧
      Step configured modelName s ⟨i, a⟩ s') :
    ∃ k, n ≤ k ∧ (b.state k).phase i = p ∧
      ∃ l, Own i l ∧ Step configured modelName (b.state k) l (b.state (k + 1)) :=
  moves_on hfair hn hp trivial (fun _ _ _ _ _ => trivial) fun s hs _ => henabled s hs

theorem returns_of_closed (hn : (b.state n).phase i = .closed err) :
    ∃ k, n ≤ k ∧ (b.state k).Returned i i := by
  obtain ⟨k, hk, hphase, l, hl, hstep⟩ := moves_on_freely hfair hn nofun
    fun s hs => ⟨_, _, rfl, .finish hs⟩
  have hnext := hstep.next_phase hl
  simp only [hphase] at hnext
  exact ⟨k + 1, by omega, hnext⟩

theorem returns_of_published (hn : (b.state n).phase i = .published err) :
    ∃ k, n ≤ k ∧ (b.state k).Returned i i := by
  obtain ⟨k, hk, hphase, l, hl, hstep⟩ := moves_on_freely hfair hn nofun
    fun s hs => ⟨_, _, rfl, .close hs⟩
  have hnext := hstep.next_phase hl
  simp only [hphase] at hnext
  obtain ⟨k', hk', hret⟩ := returns_of_closed hfair hnext
  exact ⟨k', by omega, hret⟩

theorem returns_of_removed (hn : (b.state n).phase i = .removed err) :
    ∃ k, n ≤ k ∧ (b.state k).Returned i i := by
  obtain ⟨k, hk, hphase, l, hl, hstep⟩ := moves_on_freely hfair hn nofun
    fun s hs => ⟨_, _, rfl, .publish hs⟩
  have hnext := hstep.next_phase hl
  simp only [hphase] at hnext
  obtain ⟨k', hk', hret⟩ := returns_of_published hfair hnext
  exact ⟨k', by omega, hret⟩

/-- A leader gets through its patch and its wait, by induction on what is left of them. -/
theorem returns_of_leading {rest : Prog ProxyApi (Option Err)}
    (hn : (b.state n).phase i = .leading rest) : ∃ k, n ≤ k ∧ (b.state k).Returned i i := by
  induction rest generalizing n with
  | pure err =>
    obtain ⟨k, hk, hphase, l, hl, hstep⟩ := moves_on_freely hfair hn nofun
      fun s hs => ⟨_, _, rfl, .remove hs⟩
    have hnext := hstep.next_phase hl
    simp only [hphase] at hnext
    obtain ⟨k', hk', hret⟩ := returns_of_removed hfair hnext
    exact ⟨k', by omega, hret⟩
  | call op k ih =>
    obtain ⟨m, hm, hphase, l, hl, hstep⟩ := moves_on_freely hfair hn nofun
      fun s hs => ⟨_, _, rfl, .call hs (ProxyCall.someAnswer op)⟩
    have hnext := hstep.next_phase hl
    simp only [hphase] at hnext
    obtain ⟨r, hr⟩ := hnext
    obtain ⟨k', hk', hret⟩ := ih r hr
    exact ⟨k', by omega, hret⟩

theorem returns_of_released (hn : (b.state n).phase i = .released w) :
    ∃ k, n ≤ k ∧ (b.state k).Returned i w := by
  obtain ⟨k, hk, hphase, l, hl, hstep⟩ := moves_on_freely hfair hn nofun
    fun s hs => ⟨_, _, rfl, .read hs⟩
  have hnext := hstep.next_phase hl
  simp only [hphase] at hnext
  exact ⟨k + 1, by omega, _, hnext⟩

end

/-- A leader returns. -/
theorem returns_of_leads (hfair : b.Fair (Own w)) (hn : (b.state n).Leads w) :
    ∃ k, n ≤ k ∧ (b.state k).Returned w w := by
  unfold Switching.Leads at hn
  cases hp : (b.state n).phase w with
  | leading rest => exact returns_of_leading hfair hp
  | removed err => exact returns_of_removed hfair hp
  | published err => exact returns_of_published hfair hp
  | closed err => exact returns_of_closed hfair hp
  | returned w' err =>
    simp only [hp] at hn
    exact ⟨n, le_rfl, err, hn ▸ hp⟩
  | _ => simp [hp] at hn

/-- A call that found the entry of `w` keeps it as its `wait`. -/
def Switching.Waits (s : Switching ι) (i w : ι) : Prop :=
  s.phase i = .following w ∨ s.phase i = .released w ∨ s.Returned i w

theorem Step.waits {l : Label ι} (hstep : Step configured modelName s l s') (h : s.Waits i w) :
    s'.Waits i w := by
  by_cases hl : Own i l
  · have hnext := hstep.next_phase hl
    rcases h with h | h | ⟨err, h⟩
    · simp only [h] at hnext
      rcases hnext with hrel | ⟨e, hret⟩
      · exact Or.inr (Or.inl hrel)
      · exact Or.inr (Or.inr ⟨_, hret⟩)
    · simp only [h] at hnext
      exact Or.inr (Or.inr ⟨_, hnext⟩)
    · simp only [h] at hnext
  · have hkept : s'.phase i = s.phase i := by
      refine hstep.phase_kept ?_ hl
      rcases h with h | h | ⟨err, h⟩ <;> rw [h] <;> exact nofun
    unfold Switching.Waits Switching.Returned
    rw [hkept]
    exact h

/-- A channel stays closed. -/
theorem Step.done_kept {l : Label ι} (hstep : Step configured modelName s l s')
    (h : (s.wait w).done = true) : (s'.wait w).done = true := by
  cases hstep with
  | @publish i err hi =>
    by_cases hw : w = i
    · subst hw
      simpa using h
    · simpa [Function.update_of_ne hw] using h
  | @close i err hi =>
    by_cases hw : w = i
    · subst hw
      simp
    · simpa [Function.update_of_ne hw] using h
  | _ => exact h

/-- A follower returns: its leader does, with its channel closed, and then nothing keeps the
follower in its `select`. -/
theorem returns_of_following (hfair : ∀ i, b.Fair (Own i))
    (hinv : ∀ n, Inv configured modelName (b.state n)) (hn : (b.state n).phase i = .following w) :
    ∃ k, n ≤ k ∧ (b.state k).Returned i w := by
  have hjoined : Joined modelName (b.state n) i w := by
    have hok := (hinv n).calls i
    simp only [CallOk, hn] at hok
    exact hok.2.2
  obtain ⟨k, hk, err, hret⟩ := returns_of_leads (hfair w) hjoined.leads
  have hdone : ((b.state k).wait w).done = true := by
    have hok := (hinv k).calls w
    simp only [CallOk, hret] at hok
    rcases hok.1 with ⟨-, -, hdone⟩ | ⟨-, -, hleads⟩
    · exact hdone
    · exact absurd rfl hleads.ne
  have hwaits : (b.state k).Waits i w :=
    b.stays (P := fun s => s.Waits i w) (fun _ _ _ h hstep => hstep.waits h) hk (Or.inl hn)
  rcases hwaits with hf | hr | hret
  · obtain ⟨k', hk', hphase, l, hl, hstep⟩ := moves_on (hfair i) hf nofun hdone
      (fun _ _ _ h hstep => hstep.done_kept h) fun s hs hdone => ⟨_, _, rfl, .receive hs hdone⟩
    have hnext := hstep.next_phase hl
    simp only [hphase] at hnext
    rcases hnext with hr | ⟨e, hret⟩
    · obtain ⟨k'', hk'', hret⟩ := returns_of_released (hfair i) hr
      exact ⟨k'', by omega, hret⟩
    · exact ⟨k' + 1, by omega, _, hret⟩
  · obtain ⟨k', hk', hret⟩ := returns_of_released (hfair i) hr
    exact ⟨k', by omega, hret⟩
  · exact ⟨k, hk, hret⟩

/-- Every call that is made returns. -/
theorem returns_of_made (hfair : ∀ i, b.Fair (Own i))
    (hinv : ∀ n, Inv configured modelName (b.state n)) (hn : (b.state n).phase i ≠ .idle) :
    ∃ k, n ≤ k ∧ ∃ w, (b.state k).Returned i w := by
  have hleads : ((b.state n).Leads i) → ∃ k, n ≤ k ∧ ∃ w, (b.state k).Returned i w := by
    intro h
    obtain ⟨k, hk, hret⟩ := returns_of_leads (hfair i) h
    exact ⟨k, hk, i, hret⟩
  unfold Switching.Leads at hleads
  cases hp : (b.state n).phase i with
  | idle => exact absurd hp hn
  | following w =>
    obtain ⟨k, hk, hret⟩ := returns_of_following hfair hinv hp
    exact ⟨k, hk, w, hret⟩
  | released w =>
    obtain ⟨k, hk, hret⟩ := returns_of_released (hfair i) hp
    exact ⟨k, hk, w, hret⟩
  | returned w err => exact ⟨n, le_rfl, w, err, hp⟩
  | _ =>
    rw [hp] at hleads
    exact hleads trivial

end Progress

/-! ## The result -/

/-- What holds at every moment. -/
structure Coalesced (configured : Bool) (modelName : ι → String) (s : Switching ι) : Prop where
  /-- The entries are the leaders between registration and removal. -/
  entry : ∀ m w, s.switchWaiters.lookup m = some w ↔ s.InFlight w ∧ modelName w = m
  unique : ∀ w w', s.InFlight w → s.InFlight w' → modelName w = modelName w' → w = w'
  /-- Only leaders patch, and each of them once at most. -/
  patches : ∀ i, patchCount (s.sent i) ≤ 1 ∧ (0 < patchCount (s.sent i) → s.Leads i)
  /-- Unless its own context has ended, a call returns what the patch and the wait of its leader
  gave. A leader is its own leader. -/
  results : ∀ i w err, s.phase i = .returned w err → s.ctx i = none →
    s.Leads w ∧ modelName w = modelName i ∧
      (patchAndWait configured (modelName i)).Runs (s.sent w) err
  inFlight : s.anySwitchInFlight = true ↔ ∃ w, s.InFlight w
  drained : (∀ i, s.phase i = .idle ∨ ∃ w, s.Returned i w) → s.switchWaiters = ∅

section Coalesced

variable {configured : Bool} {modelName : ι → String} {s : Switching ι}

omit [DecidableEq ι] in
/-- A call that has sent anything is a leader, and what it has sent is its patch and wait. -/
theorem Inv.sent (h : Inv configured modelName s) (i : ι) :
    s.sent i = [] ∨ s.Leads i ∧
      ∃ rest, (patchAndWait configured (modelName i)).Steps (s.sent i) rest := by
  have hok := h.calls i
  unfold CallOk at hok
  unfold Switching.Leads
  cases hp : s.phase i with
  | idle => exact Or.inl (by simp only [hp] at hok; exact hok.1)
  | following w => exact Or.inl (by simp only [hp] at hok; exact hok.1)
  | released w => exact Or.inl (by simp only [hp] at hok; exact hok.1)
  | returned w err =>
    simp only [hp] at hok
    rcases hok.1 with ⟨hw, hruns, -⟩ | ⟨hsent, -⟩
    · exact Or.inr ⟨hw, _, hruns⟩
    · exact Or.inl hsent
  | _ =>
    simp only [hp] at hok
    exact Or.inr ⟨trivial, _, hok.1⟩

omit [DecidableEq ι] in
theorem Inv.results (h : Inv configured modelName s) {i w : ι} (hi : s.phase i = .returned w err)
    (hctx : s.ctx i = none) :
    s.Leads w ∧ modelName w = modelName i ∧
      (patchAndWait configured (modelName i)).Runs (s.sent w) err := by
  have hok := h.calls i
  simp only [CallOk, hi] at hok
  obtain ⟨hdone, rfl⟩ := hok.2 hctx
  have hruns := h.outcome hdone
  rcases hok.1 with ⟨rfl, -, -⟩ | ⟨-, -, hjoined⟩
  · exact ⟨by simp only [Switching.Leads, hi], rfl, hruns⟩
  · rw [hjoined.modelName_eq] at hruns
    exact ⟨hjoined.leads, hjoined.modelName_eq, hruns⟩

omit [DecidableEq ι] in
theorem Inv.coalesced (h : Inv configured modelName s) : Coalesced configured modelName s where
  entry := h.entries
  unique w w' hw hw' heq := by
    have hlookup := (h.entries (modelName w') w).mpr ⟨hw, heq⟩
    rw [(h.entries (modelName w') w').mpr ⟨hw', rfl⟩] at hlookup
    exact (Option.some.inj hlookup).symm
  patches i := by
    rcases h.sent i with hnil | ⟨hleads, rest, hsteps⟩
    · rw [hnil]
      exact ⟨Nat.zero_le _, fun hpos => absurd hpos (lt_irrefl _)⟩
    · exact ⟨patchCount_le_one hsteps, fun _ => hleads⟩
  results _ _ _ := h.results
  inFlight := by
    rw [Switching.anySwitchInFlight, decide_eq_true_eq, Finset.card_pos]
    constructor
    · rintro ⟨m, hm⟩
      obtain ⟨w, hw⟩ := Finmap.mem_iff.mp (Finmap.mem_keys.mp hm)
      exact ⟨w, ((h.entries m w).mp hw).1⟩
    · rintro ⟨w, hw⟩
      exact ⟨modelName w, Finmap.mem_keys.mpr
        (Finmap.mem_iff.mpr ⟨w, (h.entries _ w).mpr ⟨hw, rfl⟩⟩)⟩
  drained hall := by
    refine Finmap.ext_lookup fun m => ?_
    rw [Finmap.lookup_empty, Option.eq_none_iff_forall_not_mem]
    intro w hw
    have hflight := ((h.entries m w).mp hw).1
    unfold Switching.InFlight at hflight
    rcases hall w with hidle | ⟨w', err, hret⟩
    · simp [hidle, Phase.isLeading] at hflight
    · simp [hret, Phase.isLeading] at hflight

end Coalesced

/-- **Coalesced switching**, for any callers and any interleaving of their steps.
At every moment the map, the patches, the results and `anySwitchInFlight` are as `Coalesced`
says. Leaving out that the context of some call ended, and that it returned for it, gives a
run in which every other call has done and returned the same. And when no call is put off
for ever, every call that is made returns. -/
theorem coalesced_switching (configured : Bool) (modelName : ι → String) :
    (∀ ls s, Run (Step configured modelName) (Switching.init ι) ls s →
      Coalesced configured modelName s ∧
      ∀ c, ∃ t, Run (Step configured modelName) (Switching.init ι) (ls.filter (keepsContext c)) t ∧
        t.ctx c = none ∧ t.switchWaiters = s.switchWaiters ∧
        ∀ i, i ≠ c → t.phase i = s.phase i ∧ t.sent i = s.sent i ∧ t.ctx i = s.ctx i) ∧
    ∀ b : Behaviour (Step configured modelName), b.state 0 = Switching.init ι →
      (∀ i, b.Fair (Own i)) → ∀ i n, (b.state n).phase i ≠ .idle →
        ∃ k, n ≤ k ∧ ∃ w err, (b.state k).phase i = .returned w err := by
  refine ⟨fun ls s hrun => ⟨(inv_of_run hrun).coalesced, fun c => ?_⟩, ?_⟩
  · have hinit : Alike c (Switching.init ι) (Switching.init ι) :=
      ⟨rfl, rfl, rfl, fun _ _ => rfl, fun _ _ => rfl, rfl, Or.inl rfl⟩
    obtain ⟨t, ht, halike⟩ := hrun.erase (fun _ _ _ _ h hl hstep => Alike.step h hl hstep)
      (fun _ _ _ _ h hl hstep => Alike.skip h hl hstep) hinit
    exact ⟨t, ht, halike.live, halike.switchWaiters,
      fun i hi => ⟨halike.phase i hi, congrFun halike.sent i, halike.ctx i hi⟩⟩
  · intro b h0 hfair i n hn
    refine returns_of_made hfair (fun n => ?_) hn
    obtain ⟨ls, hls⟩ := b.exists_run n
    rw [h0] at hls
    exact inv_of_run hls

/-! A run of three calls for one model: the first leads, the second follows, and the third
follows until its context ends. -/

section Example

/-- The object after the operator has made `qwen` the active model. -/
def stableObject : LLMActiveModel where
  name := activeModelName
  ns := "home-infra"
  creationTimestamp := 0
  generation := 2
  resourceVersion := 2
  spec := ⟨"qwen"⟩
  status := { LLMActiveModelStatus.zero with modelName := "qwen", phase := .stable }

theorem exists_shared_run :
    ∃ ls s, Run (Step true fun _ : Fin 3 => "qwen") (Switching.init (Fin 3)) ls s ∧
      s.phase 0 = .returned 0 none ∧ s.phase 1 = .returned 0 none ∧
      s.phase 2 = .returned 0 (some .canceled) ∧ s.ctx 1 = none ∧ patchCount (s.sent 0) = 1 := by
  have hinit : Run (Step true fun _ : Fin 3 => "qwen") (Switching.init (Fin 3)) [] _ := .nil
  have hentered := hinit
    |>.snoc (.lead (i := 0) rfl rfl) |>.snoc (.follow (i := 1) rfl rfl)
    |>.snoc (.follow (i := 2) rfl rfl) |>.snoc (.cancel (i := 2) .canceled rfl)
  have hled := hentered
    |>.snoc (.call (i := 0) rfl (show ProxyCall.Answer (.patchActive "qwen") from .ok stableObject))
    |>.snoc (.giveUp (i := 2) rfl rfl)
    |>.snoc (.call (i := 0) rfl (show ProxyCall.Answer .withTimeout from ⟨0, false⟩))
    |>.snoc (.call (i := 0) rfl (show ProxyCall.Answer .getActive from .ok stableObject))
  have h := hled
    |>.snoc (.remove (i := 0) rfl) |>.snoc (.publish (i := 0) rfl) |>.snoc (.close (i := 0) rfl)
    |>.snoc (.receive (i := 1) rfl rfl) |>.snoc (.read (i := 1) rfl) |>.snoc (.finish (i := 0) rfl)
  exact ⟨_, _, h, rfl, rfl, rfl, rfl, rfl⟩

/-- When every call has returned, nothing more is owed to anyone. -/
theorem fair_of_returned {configured : Bool} {modelName : ι → String} {s : Switching ι}
    {b : Behaviour (Step configured modelName)} {n : Nat} (hend : ∀ k, n ≤ k → b.state k = s)
    (hs : ∀ i, ∃ w, s.Returned i w) (i : ι) : b.Fair (Own i) := by
  intro m henabled
  obtain ⟨l, s', hl, hstep⟩ := henabled (max m n) (le_max_left _ _)
  rw [hend _ (le_max_right _ _)] at hstep
  obtain ⟨w, err, hret⟩ := hs i
  have hnext := hstep.next_phase hl
  simp only [hret] at hnext

/-- The second call returns what the first one's patch and wait gave, although the third one
returned for its own context. -/
theorem coalesced_switching_shared :
    ∃ b : Behaviour (Step true fun _ : Fin 3 => "qwen"), b.state 0 = Switching.init (Fin 3) ∧
      (∀ i, b.Fair (Own i)) ∧ ∃ n, (b.state n).phase 2 = .returned 0 (some .canceled) ∧
        (b.state n).phase 1 = .returned 0 none ∧
        (patchAndWait true "qwen").Runs ((b.state n).sent 0) none ∧
        (b.state n).switchWaiters = ∅ ∧ ∃ k, n ≤ k ∧ ∃ w err,
        (b.state k).phase 1 = .returned w err := by
  obtain ⟨ls, s, hrun, hphase0, hphase1, hphase2, hctx, -⟩ := exists_shared_run
  obtain ⟨b, h0, n, hend⟩ := hrun.exists_behaviour
  have hreturned : ∀ i : Fin 3, ∃ w, s.Returned i w := by
    intro i
    match i with
    | 0 => exact ⟨0, none, hphase0⟩
    | 1 => exact ⟨0, none, hphase1⟩
    | 2 => exact ⟨0, _, hphase2⟩
  have hfair := fair_of_returned (fun k hk => (hend k hk).1) hreturned
  obtain ⟨hsafe, hlive⟩ := coalesced_switching true fun _ : Fin 3 => "qwen"
  obtain ⟨hcoalesced, -⟩ := hsafe ls s hrun
  have hn := (hend n le_rfl).1
  refine ⟨b, h0, hfair, n, ?_, ?_, ?_, ?_, hlive b h0 hfair 1 n ?_⟩
  · rw [hn, hphase2]
  · rw [hn, hphase1]
  · rw [hn]
    exact (hcoalesced.results 1 0 none hphase1 hctx).2.2
  · rw [hn]
    exact hcoalesced.drained fun i => Or.inr (hreturned i)
  · rw [hn, hphase1]
    exact nofun

end Example

end LlmOperator.Proxy
