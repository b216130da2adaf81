import Mathlib.Order.Basic
import Mathlib.Data.Nat.Find

/-!
# Labelled machines

A machine is a step relation whose labels say who does what. A `Run` is a finite sequence
of steps, a `Behaviour` an infinite one in which nothing may happen for any length of time.

`Run.invariant` is the induction over a run, and `Run.split` cuts one in two. `Run.erase` follows a
run in another one that leaves some of the steps out. `Behaviour.Fair.moves` is the rule for
progress: a step that stays possible until it is taken is taken.
-/

namespace LlmOperator.Interaction

variable {σ Λ : Type} {step : σ → Λ → σ → Prop} {P : σ → Prop} {ls : List Λ}

/-! ## Runs -/

/-- `Run step s ls s'`: the steps with the labels `ls`, one after the other, lead from `s`
to `s'`. -/
inductive Run (step : σ → Λ → σ → Prop) (s : σ) : List Λ → σ → Prop
  | nil : Run step s [] s
  | snoc {ls : List Λ} {l : Λ} {s' s'' : σ} (h : Run step s ls s') (hstep : step s' l s'') :
      Run step s (ls ++ [l]) s''

/-- What every step keeps holds after every run. -/
theorem Run.invariant (hP : ∀ s l s', P s → step s l s' → P s') {s s' : σ} (h : Run step s ls s')
    (hs : P s) : P s' := by
  induction h with
  | nil => exact hs
  | snoc _ hstep ih => exact hP _ _ _ ih hstep

/-- A run goes through a state at each of its places. -/
theorem Run.split {a c : σ} {all ls' : List Λ} (h : Run step a all c) (hall : all = ls ++ ls') :
    ∃ b, Run step a ls b ∧ Run step b ls' c := by
  induction h generalizing ls' with
  | nil =>
    obtain ⟨rfl, rfl⟩ := List.append_eq_nil_iff.mp hall.symm
    exact ⟨a, .nil, .nil⟩
  | @snoc ls₁ l b c hrun hstep ih =>
    rcases List.eq_nil_or_concat ls' with rfl | ⟨ls₂, l₂, rfl⟩
    · rw [List.append_nil] at hall
      exact ⟨c, hall ▸ hrun.snoc hstep, .nil⟩
    · rw [List.concat_eq_append] at hall ⊢
      rw [← List.append_assoc] at hall
      obtain ⟨hinit, hlast⟩ := List.append_inj' hall rfl
      cases hlast
      obtain ⟨m, hm, hm'⟩ := ih hinit
      exact ⟨m, hm, hm'.snoc hstep⟩

theorem Run.head {a c : σ} {l : Λ} (h : Run step a (l :: ls) c) :
    ∃ b, step a l b ∧ Run step b ls c := by
  obtain ⟨b, hb, hrest⟩ : ∃ b, Run step a [l] b ∧ Run step b ls c := h.split rfl
  generalize hall : [l] = all at hb
  cases hb with
  | nil => cases hall
  | @snoc ls₁ l₁ a' _ hrun hstep =>
    cases hrun with
    | nil =>
      cases hall
      exact ⟨b, hstep, hrest⟩
    | snoc _ _ => exact absurd (congrArg List.length hall) (by simp)

/-- A run is followed, step by step, by one without the steps that are not kept. -/
theorem Run.erase {keep : Λ → Bool} {R : σ → σ → Prop}
    (hkept : ∀ s t l s', R s t → keep l = true → step s l s' → ∃ t', step t l t' ∧ R s' t')
    (hleft : ∀ s t l s', R s t → keep l = false → step s l s' → R s' t) {s s' t : σ}
    (h : Run step s ls s') (hR : R s t) : ∃ t', Run step t (ls.filter keep) t' ∧ R s' t' := by
  induction h with
  | nil => exact ⟨t, .nil, hR⟩
  | @snoc ls l s' s'' _ hstep ih =>
    obtain ⟨t', ht', hR'⟩ := ih
    cases hl : keep l with
    | true =>
      obtain ⟨t'', hstep', hR''⟩ := hkept _ _ _ _ hR' hl hstep
      refine ⟨t'', ?_, hR''⟩
      rw [List.filter_append, List.filter_cons_of_pos hl, List.filter_nil]
      exact ht'.snoc hstep'
    | false =>
      refine ⟨t', ?_, hleft _ _ _ _ hR' hl hstep⟩
      rwa [List.filter_append, List.filter_cons_of_neg (by rw [hl]; exact Bool.false_ne_true),
        List.filter_nil, List.append_nil]

/-! ## Behaviours -/

/-- An infinite run. The label at `n` is that of the step from `state n`, if there is one. -/
structure Behaviour (step : σ → Λ → σ → Prop) where
  state : Nat → σ
  label : Nat → Option Λ
  idle : ∀ n, label n = none → state (n + 1) = state n
  next : ∀ n l, label n = some l → step (state n) l (state (n + 1))

namespace Behaviour

variable (b : Behaviour step)

theorem exists_run (n : Nat) : ∃ ls, Run step (b.state 0) ls (b.state n) := by
  induction n with
  | zero => exact ⟨[], .nil⟩
  | succ n ih =>
    obtain ⟨ls, hls⟩ := ih
    cases hl : b.label n with
    | none => exact ⟨ls, b.idle n hl ▸ hls⟩
    | some l => exact ⟨ls ++ [l], hls.snoc (b.next n l hl)⟩

variable {b}

/-- What every step keeps holds from some moment on. -/
theorem stays (hP : ∀ s l s', P s → step s l s' → P s') {n k : Nat} (hk : n ≤ k)
    (hn : P (b.state n)) : P (b.state k) := by
  induction k, hk using Nat.le_induction with
  | base => exact hn
  | succ k _ ih =>
    cases hl : b.label k with
    | none => rwa [b.idle k hl]
    | some l => exact hP _ _ _ ih (b.next k l hl)

/-- The steps in `own` are not put off for ever: if one of them is possible at every moment
from some moment on, one of them is taken. -/
def Fair (b : Behaviour step) (own : Λ → Prop) : Prop :=
  ∀ n, (∀ k, n ≤ k → ∃ l s', own l ∧ step (b.state k) l s') →
    ∃ k, n ≤ k ∧ ∃ l, own l ∧ b.label k = some l

/-- While `P` holds a step in `own` is possible, and only such a step can end `P`. Then such a
step is taken while `P` holds. -/
theorem Fair.moves {own : Λ → Prop} (hfair : b.Fair own)
    (henabled : ∀ s, P s → ∃ l s', own l ∧ step s l s')
    (hothers : ∀ s l s', P s → ¬ own l → step s l s' → P s') {n : Nat} (hn : P (b.state n)) :
    ∃ k, n ≤ k ∧ P (b.state k) ∧ ∃ l, own l ∧ step (b.state k) l (b.state (k + 1)) := by
  by_contra hnever
  -- If no such step is ever taken, `P` holds for ever, and fairness provides one.
  have hforever : ∀ k, n ≤ k → P (b.state k) := by
    intro k hk
    induction k, hk using Nat.le_induction with
    | base => exact hn
    | succ k hk ih =>
      cases hl : b.label k with
      | none => rwa [b.idle k hl]
      | some l =>
        refine hothers _ l _ ih ?_ (b.next k l hl)
        exact fun hown => hnever ⟨k, hk, ih, l, hown, b.next k l hl⟩
  obtain ⟨k, hk, l, hown, hl⟩ := hfair n fun k hk => henabled _ (hforever k hk)
  exact hnever ⟨k, hk, hforever k hk, l, hown, b.next k l hl⟩

end Behaviour

/-- A run, with nothing happening after it. -/
theorem Run.exists_behaviour {s s' : σ} (h : Run step s ls s') :
    ∃ b : Behaviour step, b.state 0 = s ∧
      ∃ n, ∀ k, n ≤ k → b.state k = s' ∧ b.label k = none := by
  induction h with
  | nil =>
    exact ⟨⟨fun _ => s, fun _ => none, fun _ _ => rfl, fun _ _ h => nomatch h⟩, rfl, 0,
      fun _ _ => ⟨rfl, rfl⟩⟩
  | @snoc ls l s' s'' _ hstep ih =>
    obtain ⟨b, h0, n, hn⟩ := ih
    refine ⟨⟨fun k => if k ≤ n then b.state k else s'',
      fun k => if k < n then b.label k else if k = n then some l else none, ?_, ?_⟩, ?_, n + 1, ?_⟩
    · intro k hk
      rcases Nat.lt_trichotomy k n with h | h | h
      · rw [if_pos h] at hk
        rw [if_pos (Nat.succ_le_of_lt h), if_pos h.le]
        exact b.idle k hk
      · simp [h] at hk
      · rw [if_neg (by omega), if_neg (by omega)]
    · intro k l' hk
      rcases Nat.lt_trichotomy k n with h | h | h
      · rw [if_pos h] at hk
        rw [if_pos (Nat.succ_le_of_lt h), if_pos h.le]
        exact b.next k l' hk
      · subst h
        rw [if_neg (lt_irrefl k), if_pos rfl] at hk
        cases hk
        rw [if_pos le_rfl, if_neg (by omega), (hn k le_rfl).1]
        exact hstep
      · rw [if_neg (by omega), if_neg (by omega)] at hk
        cases hk
    · simpa using h0
    · intro k hk
      exact ⟨if_neg (by omega), (if_neg (by omega)).trans (if_neg (by omega))⟩

end LlmOperator.Interaction
