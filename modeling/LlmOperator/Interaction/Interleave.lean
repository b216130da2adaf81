import LlmOperator.Interaction.Machine
import LlmOperator.Interaction.Program
import Mathlib.Logic.Function.Basic

/-!
# Interleavings and their history

Any number of programs, each under a name of its own, share a state. At each step one of them
makes its next call. An `Interleaving` is a run of such steps; its labels are the history: who
has made which call, and how it was answered. A program that is never taken again has stopped.

What a program has done is its own part of the history, and that is a trace of it
(`Interleaving.steps`). So what is known of the traces of one program can be used at any place of
a history.
-/

namespace LlmOperator.Interaction

open Prog

/-- The shared state, and what each program has still to do. -/
structure Threads (S : Sig) (σ ι α : Type) where
  state : σ
  rest : ι → Prog S α

variable {S : Sig} {σ ι α β : Type} [DecidableEq ι]
  {exec : σ → (op : S.Op) → S.Ans op → σ → Prop} {program : ι → Prog S α} {s : σ}
  {log before after : List (ι × Event S)} {c : Threads S σ ι α} {i : ι} {e : Event S}

/-- One of the programs makes its next call. -/
def Threads.Step (exec : σ → (op : S.Op) → S.Ans op → σ → Prop) (c : Threads S σ ι α)
    (l : ι × Event S) (c' : Threads S σ ι α) : Prop :=
  ∃ k, c.rest l.1 = .call l.2.1 k ∧ exec c.state l.2.1 l.2.2 c'.state ∧
    c'.rest = Function.update c.rest l.1 (k l.2.2)

/-- A run of the programs from a state, with its history. -/
def Interleaving (exec : σ → (op : S.Op) → S.Ans op → σ → Prop) (program : ι → Prog S α) (s : σ)
    (log : List (ι × Event S)) (c : Threads S σ ι α) : Prop :=
  Run (Threads.Step exec) ⟨s, program⟩ log c

/-! ## The part of one program -/

/-- What one program has done. -/
def own (i : ι) (log : List (ι × Event S)) : List (Event S) :=
  log.filterMap fun l => if l.1 = i then some l.2 else none

theorem own_append (i : ι) (log log' : List (ι × Event S)) :
    own i (log ++ log') = own i log ++ own i log' :=
  List.filterMap_append

theorem own_singleton_self (i : ι) (e : Event S) : own i [(i, e)] = [e] := by
  simp [own]

theorem own_singleton_of_ne {i' : ι} (h : i' ≠ i) (e : Event S) : own i [(i', e)] = [] := by
  simp [own, h]

theorem mem_own_iff : e ∈ own i log ↔ (i, e) ∈ log := by
  unfold own
  rw [List.mem_filterMap]
  constructor
  · rintro ⟨⟨i', e'⟩, hmem, he⟩
    split at he
    · rename_i hi
      cases he
      exact (show i' = i from hi) ▸ hmem
    · cases he
  · intro h
    exact ⟨(i, e), h, if_pos rfl⟩

/-- What a program has done is a trace of it. -/
theorem Interleaving.steps (h : Interleaving exec program s log c) (i : ι) :
    (program i).Steps (own i log) (c.rest i) := by
  unfold Interleaving at h
  induction h with
  | nil => exact .nil _
  | @snoc log l c c' _ hstep ih =>
    obtain ⟨i', op, r⟩ := l
    obtain ⟨k, hrest, -, hrest'⟩ := hstep
    rw [own_append, hrest']
    by_cases hi : i' = i
    · subst hi
      dsimp only at hrest ⊢
      rw [own_singleton_self, Function.update_self]
      rw [hrest] at ih
      exact ih.snoc r
    · dsimp only
      rw [own_singleton_of_ne hi, List.append_nil, Function.update_of_ne (Ne.symm hi)]
      exact ih

/-! ## The places of a history -/

/-- What is said of every place of a list can be checked place by place. -/
theorem forall_places_iff {ξ : Type} {l : List ξ} {P : List ξ → ξ → List ξ → Prop} :
    (∀ before x after, l = before ++ x :: after → P before x after) ↔
      ∀ n : Fin l.length, P (l.take n) l[n] (l.drop (n + 1)) := by
  constructor
  · intro h n
    refine h _ _ _ ?_
    rw [Fin.getElem_fin, ← List.drop_eq_getElem_cons, List.take_append_drop]
  · rintro h before x after rfl
    simpa using h ⟨before.length, by simp⟩

/-- A call of a history: the runs up to it and after it. -/
theorem Interleaving.at_call (h : Interleaving exec program s (before ++ (i, e) :: after) c) :
    ∃ c₁ c₂ k, Interleaving exec program s before c₁ ∧ c₁.rest i = .call e.1 k ∧
      exec c₁.state e.1 e.2 c₂.state ∧ Run (Threads.Step exec) c₂ after c := by
  obtain ⟨c₁, hbefore, hrest⟩ := Run.split h rfl
  obtain ⟨c₂, ⟨k, hk, hexec, -⟩, hafter⟩ := Run.head hrest
  exact ⟨c₁, c₂, k, hbefore, hk, hexec, hafter⟩

/-- Before a call of a history, its program has got to that call. -/
theorem Interleaving.steps_before (h : Interleaving exec program s (before ++ (i, e) :: after) c) :
    ∃ k, (program i).Steps (own i before) (.call e.1 k) := by
  obtain ⟨c₁, c₂, k, hbefore, hk, -⟩ := h.at_call
  exact ⟨k, hk ▸ hbefore.steps i⟩

/-- Every call of a history was answered by the state. -/
theorem Interleaving.exec_of_mem (h : Interleaving exec program s log c) (hmem : (i, e) ∈ log) :
    ∃ s₁ s₂, exec s₁ e.1 e.2 s₂ := by
  obtain ⟨before, after, rfl⟩ := List.append_of_mem hmem
  obtain ⟨c₁, c₂, -, -, -, hexec, -⟩ := h.at_call
  exact ⟨_, _, hexec⟩

/-- What holds at the start and is kept by the calls that the programs can get to holds after
every run. -/
theorem Interleaving.invariant {inv : σ → Prop} (h : Interleaving exec program s log c)
    (hs : inv s) (hstep : ∀ i t op k r s₁ s₂, inv s₁ → (program i).Steps t (.call op k) →
      (∀ e ∈ t, ∃ s₁ s₂, exec s₁ e.1 e.2 s₂) → exec s₁ op r s₂ → inv s₂) : inv c.state := by
  unfold Interleaving at h
  induction h with
  | nil => exact hs
  | @snoc log l c c' hrun hcall ih =>
    obtain ⟨i, op, r⟩ := l
    obtain ⟨k, hrest, hexec, -⟩ := hcall
    refine hstep i (own i log) op k r _ _ ih ?_ ?_ hexec
    · exact hrest ▸ Interleaving.steps hrun i
    · exact fun e he => Interleaving.exec_of_mem hrun (mem_own_iff.mp he)

/-! ## Interleavings written down -/

section Play

variable {ε : Type} (answer : ε → σ → (op : S.Op) → S.Ans op × σ)

/-- The next call of one program. What it is answered may depend on the time. -/
def Threads.next (x : List (ι × Event S) × Threads S σ ι α) (l : ε × ι) :
    Option (List (ι × Event S) × Threads S σ ι α) :=
  match x.2.rest l.2 with
  | .pure _ => none
  | .call op k =>
    let a := answer l.1 x.2.state op
    some (x.1 ++ [(l.2, ⟨op, a.1⟩)], ⟨a.2, Function.update x.2.rest l.2 (k a.1)⟩)

def Threads.play (x : List (ι × Event S) × Threads S σ ι α) (order : List (ε × ι)) :
    Option (List (ι × Event S) × Threads S σ ι α) :=
  order.foldlM (Threads.next answer) x

variable {answer}

theorem Interleaving.play {order : List (ε × ι)}
    (hanswer : ∀ a s op, exec s op (answer a s op).1 (answer a s op).2)
    (h : Interleaving exec program s log c) {x : List (ι × Event S) × Threads S σ ι α}
    (hplay : Threads.play answer (log, c) order = some x) :
    Interleaving exec program s x.1 x.2 := by
  induction order generalizing log c with
  | nil =>
    cases hplay
    exact h
  | cons l order ih =>
    obtain ⟨y, hnext, hrest⟩ := Option.bind_eq_some_iff.mp hplay
    unfold Threads.next at hnext
    split at hnext
    · cases hnext
    · rename_i op k hcall
      cases hnext
      exact ih (Run.snoc h ⟨k, hcall, hanswer _ _ _, rfl⟩) hrest

/-- What is found at the end of an order in which the programs are taken is found in a run. -/
theorem exists_interleaving (exec : σ → (op : S.Op) → S.Ans op → σ → Prop)
    (program : ι → Prog S α) (s : σ)
    (hanswer : ∀ a s op, exec s op (answer a s op).1 (answer a s op).2) (order : List (ε × ι))
    (Q : List (ι × Event S) → Threads S σ ι α → Prop)
    (h : ∃ x ∈ Threads.play answer ([], ⟨s, program⟩) order, Q x.1 x.2) :
    ∃ log c, Interleaving exec program s log c ∧ Q log c := by
  obtain ⟨x, hplay, hQ⟩ := h
  exact ⟨x.1, x.2, Interleaving.play hanswer Run.nil hplay, hQ⟩

end Play

end LlmOperator.Interaction
