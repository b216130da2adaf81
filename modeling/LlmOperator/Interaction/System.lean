import LlmOperator.Interaction.Safety
import Mathlib.Logic.Function.Basic
import Mathlib.Data.Fintype.Basic

/-!
# Systems of interactive programs

Workers run programs over one shared state. A worker is started, makes its calls one by
one, and may be stopped anywhere, which is how it finishes and also how it crashes. Between
any two steps the environment may change the state.

A run may be restricted by `Conditions` on its steps. A condition on a change of the state is
asked for each worker that is under way and has not made the change itself, in terms of what
that worker has done so far, and a condition on a call in terms of what its own worker has
done.

`Reach.safe` is the proof rule: if every program is `Safe` in some world, the environment
and the other workers only do what that world relies on, and the guarantee keeps an
invariant, then the invariant holds and every worker stays safe in every configuration
reached. `play` carries out a run that is written down step by step.
-/

namespace LlmOperator.Interaction

open Relation

/-- A program under way. -/
structure Job (S : Sig) (α : Type) where
  trace : List (Event S)
  rest : Prog S α

structure Config (S : Sig) (σ τ α : Type) where
  state : σ
  job : τ → Option (Job S α)

/-- The shared state, and the program each worker runs. -/
structure System (S : Sig) (σ τ α : Type) where
  exec : σ → (op : S.Op) → S.Ans op → σ → Prop
  env : σ → σ → Prop
  program : τ → Prog S α

structure Conditions (S : Sig) (σ : Type) where
  /-- What anyone else may do to the state, the environment or another worker. -/
  env : σ → List (Event S) → σ → Prop
  call : σ → List (Event S) → Event S → Prop

/-- No condition. -/
def Conditions.none (S : Sig) (σ : Type) : Conditions S σ where
  env _ _ _ := True
  call _ _ _ := True

variable {S : Sig} {σ τ α : Type} [DecidableEq τ] {W : World S (σ × List (Event S))}
  {inv : σ → Prop}

/-- Nobody is at work. -/
def Config.idle (s : σ) : Config S σ τ α := ⟨s, fun _ => none⟩

/-- The state and one worker's job changed. -/
def Config.put (c : Config S σ τ α) (s : σ) (i : τ) (j : Option (Job S α)) : Config S σ τ α :=
  ⟨s, Function.update c.job i j⟩

@[simp] theorem Config.put_job_self (c : Config S σ τ α) (s : σ) (i : τ) (j : Option (Job S α)) :
    (c.put s i j).job i = j :=
  Function.update_self ..

theorem Config.put_job_of_ne (c : Config S σ τ α) (s : σ) {i i' : τ} (j : Option (Job S α))
    (h : i' ≠ i) : (c.put s i j).job i' = c.job i' :=
  Function.update_of_ne h ..

inductive System.Step (M : System S σ τ α) (cond : Conditions S σ) :
    Config S σ τ α → Config S σ τ α → Prop
  | env {c : Config S σ τ α} {s' : σ} (h : M.env c.state s')
      (hc : ∀ i j, c.job i = some j → cond.env c.state j.trace s') : Step M cond c ⟨s', c.job⟩
  | start {c : Config S σ τ α} {i : τ} (h : c.job i = none) :
      Step M cond c (c.put c.state i (some ⟨[], M.program i⟩))
  | call {c : Config S σ τ α} {i : τ} {t : List (Event S)} {op : S.Op}
      {k : S.Ans op → Prog S α} {r : S.Ans op} {s' : σ} (hj : c.job i = some ⟨t, .call op k⟩)
      (h : M.exec c.state op r s') (hc : cond.call c.state t ⟨op, r⟩)
      (ho : ∀ i' j', i' ≠ i → c.job i' = some j' → cond.env c.state j'.trace s') :
      Step M cond c (c.put s' i (some ⟨t ++ [⟨op, r⟩], k r⟩))
  | stop {c : Config S σ τ α} (i : τ) : Step M cond c (c.put c.state i none)

/-- The configurations of the runs from `c`. -/
def System.Reach (M : System S σ τ α) (cond : Conditions S σ) :
    Config S σ τ α → Config S σ τ α → Prop :=
  ReflTransGen (M.Step cond)

/-! ## The proof rule -/

/-- What ties a system and the conditions on its runs to a world in which its programs are
verified. The state of that world is the shared state with the worker's own past. -/
structure System.Fits (M : System S σ τ α) (cond : Conditions S σ)
    (W : World S (σ × List (Event S))) (inv : σ → Prop) : Prop where
  env : ∀ s s', inv s → M.env s s' → (∀ t, cond.env s t s' → W.rely (s, t) (s', t)) ∧
    inv s'
  call : ∀ s t op r s', inv s → M.exec s op r s' → cond.call s t ⟨op, r⟩ →
    W.exec (s, t) op r (s', t ++ [⟨op, r⟩])
  others : ∀ i i' : τ, i' ≠ i → ∀ s t op r s' t', inv s → M.exec s op r s' →
    cond.env s t' s' → W.guar (s, t) op r (s', t ++ [⟨op, r⟩]) → W.rely (s, t') (s', t')
  guar : ∀ s t op r s', inv s → M.exec s op r s' →
    W.guar (s, t) op r (s', t ++ [⟨op, r⟩]) → inv s'
  start : ∀ i s, inv s → Safe W (M.program i) (fun _ _ => True) (s, [])

/-- Every worker under way is safe. -/
def Config.AllSafe (W : World S (σ × List (Event S))) (c : Config S σ τ α) : Prop :=
  ∀ i j, c.job i = some j → Safe W j.rest (fun _ _ => True) (c.state, j.trace)

/-- Every worker under way is safe, and returns a result in `post`. -/
def Config.AllReturn (W : World S (σ × List (Event S))) (post : τ → α → Prop)
    (c : Config S σ τ α) : Prop :=
  ∀ i j, c.job i = some j → Safe W j.rest (fun a _ => post i a) (c.state, j.trace)

theorem Config.AllReturn.put {post : τ → α → Prop} {c : Config S σ τ α} (h : c.AllReturn W post)
    {s : σ} {i : τ} {j : Option (Job S α)}
    (hothers : ∀ i' j', i' ≠ i → c.job i' = some j' → W.rely (c.state, j'.trace) (s, j'.trace))
    (hj : ∀ j', j = some j' → Safe W j'.rest (fun a _ => post i a) (s, j'.trace)) :
    (c.put s i j).AllReturn W post := by
  intro i' j' hj'
  by_cases hi : i' = i
  · subst hi
    rw [c.put_job_self] at hj'
    exact hj j' hj'
  · rw [c.put_job_of_ne s j hi] at hj'
    exact (h i' j' hj').rely (hothers i' j' hi hj') fun _ _ _ h _ => h

theorem System.Fits.step {M : System S σ τ α} {cond : Conditions S σ} (hM : M.Fits cond W inv)
    {post : τ → α → Prop}
    (hstart : ∀ i s, inv s → Safe W (M.program i) (fun a _ => post i a) (s, []))
    {c c' : Config S σ τ α} (hstep : M.Step cond c c') (hinv : inv c.state)
    (hsafe : c.AllReturn W post) : inv c'.state ∧ c'.AllReturn W post := by
  cases hstep with
  | @env s' h hc =>
    obtain ⟨hrely, hinv'⟩ := hM.env c.state s' hinv h
    refine ⟨hinv', ?_⟩
    intro i j hj
    exact (hsafe i j hj).rely (hrely j.trace (hc i j hj)) fun _ _ _ h _ => h
  | @start i h =>
    refine ⟨hinv, hsafe.put (fun _ _ _ _ => W.rely_refl _) ?_⟩
    intro j hj
    cases hj
    exact hstart i c.state hinv
  | @call i t op k r s' hj h hc ho =>
    have hexec := hM.call c.state t op r s' hinv h hc
    obtain ⟨hguar, hrest⟩ := hsafe i _ hj (c.state, t) (W.rely_refl _) r _ hexec
    refine ⟨hM.guar c.state t op r s' hinv h hguar,
      hsafe.put (fun i' j' hi hj' => hM.others i i' hi c.state t op r s' j'.trace hinv h
        (ho i' j' hi hj') hguar) ?_⟩
    intro j hj'
    cases hj'
    exact hrest
  | stop i =>
    refine ⟨hinv, hsafe.put (fun _ _ _ _ => W.rely_refl _) ?_⟩
    intro j hj
    cases hj

/-- The invariant holds, every worker is safe and will return a result in `post`, in every
configuration reached. -/
theorem System.Reach.returns {M : System S σ τ α} {cond : Conditions S σ} (hM : M.Fits cond W inv)
    {post : τ → α → Prop}
    (hstart : ∀ i s, inv s → Safe W (M.program i) (fun a _ => post i a) (s, []))
    {c c' : Config S σ τ α} (h : M.Reach cond c c') (hinv : inv c.state)
    (hsafe : c.AllReturn W post) : inv c'.state ∧ c'.AllReturn W post := by
  induction h with
  | refl => exact ⟨hinv, hsafe⟩
  | tail _ hstep ih => exact hM.step hstart hstep ih.1 ih.2

/-- The invariant holds and every worker is safe in every configuration reached. -/
theorem System.Reach.safe {M : System S σ τ α} {cond : Conditions S σ} (hM : M.Fits cond W inv)
    {c c' : Config S σ τ α} (h : M.Reach cond c c') (hinv : inv c.state) (hsafe : c.AllSafe W) :
    inv c'.state ∧ c'.AllSafe W :=
  h.returns hM hM.start hinv hsafe

omit [DecidableEq τ] in
theorem Config.idle_allSafe (W : World S (σ × List (Event S))) (s : σ) :
    (Config.idle s : Config S σ τ α).AllSafe W := by
  intro i j hj
  cases hj

omit [DecidableEq τ] in
/-- A call about to be made keeps the guarantee. -/
theorem Config.AllSafe.guar {c : Config S σ τ α} (h : c.AllSafe W) {i : τ} {t : List (Event S)}
    {op : S.Op} {k : S.Ans op → Prog S α} (hj : c.job i = some ⟨t, .call op k⟩) {r : S.Ans op}
    {x : σ × List (Event S)} (hexec : W.exec (c.state, t) op r x) : W.guar (c.state, t) op r x :=
  (h i _ hj (c.state, t) (W.rely_refl _) r x hexec).1

/-- What is known of a worker under way: it holds at the start, the steps of others leave it,
and its own calls keep it. -/
theorem System.Reach.jobs {M : System S σ τ α} {cond : Conditions S σ}
    {T : τ → σ → Job S α → Prop} (hstart : ∀ i s, T i s ⟨[], M.program i⟩)
    (henv : ∀ i s s' j, T i s j → M.env s s' → T i s' j)
    (hothers : ∀ i s op r s' j, T i s j → M.exec s op r s' → T i s' j)
    (hown : ∀ i s op k r s' t, T i s ⟨t, .call op k⟩ → M.exec s op r s' →
      T i s' ⟨t ++ [⟨op, r⟩], k r⟩) {s : σ}
    {c : Config S σ τ α} (h : M.Reach cond (.idle s) c) (i : τ) (j : Job S α)
    (hj : c.job i = some j) : T i c.state j := by
  have hput : ∀ {c : Config S σ τ α} {s' : σ} {i' : τ} {o : Option (Job S α)},
      (∀ i j, c.job i = some j → T i s' j) → (∀ j, o = some j → T i' s' j) →
      ∀ i j, (c.put s' i' o).job i = some j → T i s' j := by
    intro c s' i' o hc ho i j hj
    by_cases hi : i = i'
    · subst hi
      rw [c.put_job_self] at hj
      exact ho j hj
    · rw [c.put_job_of_ne s' o hi] at hj
      exact hc i j hj
  induction h generalizing i j with
  | refl => cases hj
  | tail _ hstep ih =>
    cases hstep with
    | env h hc => exact henv i _ _ _ (ih i j hj) h
    | start h =>
      refine hput ih ?_ i j hj
      intro j hj
      cases hj
      exact hstart _ _
    | call hj' h hc ho =>
      refine hput (fun i j hj => hothers i _ _ _ _ _ (ih i j hj) h) ?_ i j hj
      intro j hj
      cases hj
      exact hown _ _ _ _ _ _ _ (ih _ _ hj') h
    | stop i' =>
      refine hput ih ?_ i j hj
      intro j hj
      cases hj

/-- What a worker has done is a trace of its program. -/
theorem System.Reach.steps {M : System S σ τ α} {cond : Conditions S σ} {s : σ}
    {c : Config S σ τ α} (h : M.Reach cond (.idle s) c) (i : τ) (j : Job S α)
    (hj : c.job i = some j) : (M.program i).Steps j.trace j.rest :=
  h.jobs (T := fun i _ j => (M.program i).Steps j.trace j.rest) (fun _ _ => .nil _)
    (fun _ _ _ _ hj _ => hj) (fun _ _ _ _ _ _ hj _ => hj) (fun _ _ _ _ r _ _ hj _ => hj.snoc r)
    i j hj

/-- The result of a job that has one. -/
def Job.result (j : Job S α) : Option α :=
  match j.rest with
  | .pure a => some a
  | .call _ _ => none

omit [DecidableEq τ] in
theorem Job.result_eq_some {j : Job S α} {a : α} (h : j.result = some a) : j.rest = .pure a := by
  unfold Job.result at h
  cases hrest : j.rest with
  | pure b =>
    rw [hrest] at h
    exact congrArg Prog.pure (Option.some.inj h)
  | call op k =>
    rw [hrest] at h
    cases h

/-! ## Runs written down -/

/-- A step of a written run. A worker's calls are taken several at a time. -/
inductive Cmd (ε τ : Type) where
  | edit (e : ε)
  | start (i : τ)
  | run (i : τ) (calls : Nat)
  | stop (i : τ)

/-- How the steps of a written run are carried out: what an edit does to the state, and how
a call is answered. -/
structure Player (S : Sig) (σ ε : Type) where
  edit : ε → σ → σ
  answer : σ → (op : S.Op) → S.Ans op × σ

/-- The steps of the player are steps of the system. -/
structure Player.Sound {ε : Type} (P : Player S σ ε) (M : System S σ τ α) : Prop where
  edit : ∀ e s, M.env s (P.edit e s)
  answer : ∀ s op, M.exec s op (P.answer s op).1 (P.answer s op).2

instance (s : σ) (t : List (Event S)) (s' : σ) : Decidable ((Conditions.none S σ).env s t s') :=
  .isTrue trivial

instance (s : σ) (t : List (Event S)) (e : Event S) :
    Decidable ((Conditions.none S σ).call s t e) :=
  .isTrue trivial

section Play

variable {ε : Type} (P : Player S σ ε) (M : System S σ τ α) (cond : Conditions S σ)
  [∀ s t e, Decidable (cond.call s t e)]

/-- The calls of one job, as many as asked for; it must neither return before nor break a
condition. `R` is what the other workers allow. -/
def Player.runJob (R : σ → σ → Prop) [∀ s s', Decidable (R s s')] :
    Nat → σ → Job S α → Option (σ × Job S α)
  | 0, s, j => some (s, j)
  | n + 1, s, ⟨t, .call op k⟩ =>
    let x := P.answer s op
    if cond.call s t ⟨op, x.1⟩ ∧ R s x.2 then
      Player.runJob R n x.2 ⟨t ++ [⟨op, x.1⟩], k x.1⟩
    else none
  | _ + 1, _, ⟨_, .pure _⟩ => none

variable {P M cond} in
theorem Player.Sound.reach_runJob (hP : P.Sound M) {n : Nat} {c : Config S σ τ α} {i : τ}
    {R : σ → σ → Prop} [∀ s s', Decidable (R s s')] {j j' : Job S α} {s' : σ}
    (hR : ∀ s s', R s s' → ∀ i' j', i' ≠ i → c.job i' = some j' → cond.env s j'.trace s')
    (hj : c.job i = some j) (h : P.runJob cond R n c.state j = some (s', j')) :
    M.Reach cond c (c.put s' i (some j')) := by
  induction n generalizing c j with
  | zero =>
    simp only [runJob, Option.some.injEq, Prod.mk.injEq] at h
    obtain ⟨rfl, rfl⟩ := h
    have hput : c.put c.state i (some j) = c := by
      rw [← hj, Config.put, Function.update_eq_self]
    rw [hput]
    exact .refl
  | succ n ih =>
    obtain ⟨t, rest⟩ := j
    cases rest with
    | pure a => cases h
    | call op k =>
      simp only [runJob] at h
      split at h
      · rename_i hc
        have hstep := System.Step.call hj (hP.answer c.state op) hc.1 (hR _ _ hc.2)
        have hput : ∀ x y, (c.put x i y).put s' i (some j') = c.put s' i (some j') := by
          intro x y
          simp [Config.put]
        have := ih (c := c.put _ i _) ?_ (c.put_job_self ..) h
        · rw [hput] at this
          exact ReflTransGen.head hstep this
        · intro s₁ s₂ h₁₂ i' j₁ hi hj₁
          rw [c.put_job_of_ne _ _ hi] at hj₁
          exact hR s₁ s₂ h₁₂ i' j₁ hi hj₁
      · cases h

variable [∀ s t s', Decidable (cond.env s t s')]

/-- One step of a written run. -/
def Player.step [Fintype τ] (c : Config S σ τ α) : Cmd ε τ → Option (Config S σ τ α)
  | .edit e =>
    if ∀ i, ∀ j ∈ c.job i, cond.env c.state j.trace (P.edit e c.state) then
      some ⟨P.edit e c.state, c.job⟩
    else none
  | .start i =>
    match c.job i with
    | none => some (c.put c.state i (some ⟨[], M.program i⟩))
    | some _ => none
  | .run i n =>
    match c.job i with
    | none => none
    | some j =>
      (P.runJob cond (fun s s' => ∀ i', i' ≠ i → ∀ j' ∈ c.job i', cond.env s j'.trace s') n
        c.state j).map fun x => c.put x.1 i (some x.2)
  | .stop i => some (c.put c.state i none)

def Player.play [Fintype τ] : List (Cmd ε τ) → Config S σ τ α → Option (Config S σ τ α)
  | [], c => some c
  | cmd :: cmds, c => (P.step M cond c cmd).bind (Player.play cmds)

variable {P M cond}

theorem Player.Sound.reach_step [Fintype τ] (hP : P.Sound M) {c c' : Config S σ τ α}
    {cmd : Cmd ε τ} (h : P.step M cond c cmd = some c') : M.Reach cond c c' := by
  cases cmd with
  | edit e =>
    simp only [step] at h
    split at h
    · rename_i hc
      cases h
      exact ReflTransGen.single (.env (hP.edit e c.state) fun i j hj => hc i j hj)
    · cases h
  | start i =>
    simp only [step] at h
    split at h
    · rename_i hj
      cases h
      exact ReflTransGen.single (.start hj)
    · cases h
  | run i n =>
    simp only [step] at h
    split at h
    · cases h
    · rename_i j hj
      obtain ⟨⟨s', j'⟩, hrun, rfl⟩ := Option.map_eq_some_iff.mp h
      exact hP.reach_runJob (fun _ _ h i' j' hi hj' => h i' hi j' hj') hj hrun
  | stop i =>
    cases h
    exact ReflTransGen.single (.stop i)

/-- A written run is a run. -/
theorem Player.Sound.reach_play [Fintype τ] (hP : P.Sound M) {cmds : List (Cmd ε τ)}
    {c c' : Config S σ τ α} (h : P.play M cond cmds c = some c') : M.Reach cond c c' := by
  induction cmds generalizing c with
  | nil =>
    cases h
    exact .refl
  | cons cmd cmds ih =>
    obtain ⟨c₁, h₁, h₂⟩ := Option.bind_eq_some_iff.mp h
    exact (hP.reach_step h₁).trans (ih h₂)

variable (cond) in
/-- What is found at the end of a written run is found in a run. -/
theorem Player.Sound.exists_reach [Fintype τ] (hP : P.Sound M) (cmds : List (Cmd ε τ))
    (c : Config S σ τ α) (Q : Config S σ τ α → Prop) (h : ∃ c' ∈ P.play M cond cmds c, Q c') :
    ∃ c', M.Reach cond c c' ∧ Q c' := by
  obtain ⟨c', hplay, hQ⟩ := h
  exact ⟨c', hP.reach_play hplay, hQ⟩

end Play

end LlmOperator.Interaction
