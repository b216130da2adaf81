import Mathlib.Logic.Relation
import Mathlib.Data.List.Basic

/-!
# Interactive programs

A program that talks to its surroundings is a tree: it either returns a value or makes
a call and goes on according to the answer. Nothing is said here about what a call does
or which answers are possible. That is supplied from outside, by a relation on states
(`Interaction/Safety.lean`) or by arbitrary answers (`Steps` below, where a trace is any
sequence of calls with any answers).

A loop of the source that polls until a deadline is a recursion on the number of polls
which the deadline leaves, and that number is itself the answer to a call. So every
program is a well-founded tree and no trace is lost.
-/

namespace LlmOperator.Interaction

/-- The calls a program can make, and the answers each of them may get. -/
structure Sig where
  Op : Type
  Ans : Op → Type

/-- A program over a signature: it returns, or makes a call and waits for the answer. -/
inductive Prog (S : Sig) (α : Type) where
  | pure (a : α)
  | call (op : S.Op) (k : S.Ans op → Prog S α)

/-- One call together with the answer it got. -/
abbrev Event (S : Sig) : Type := Sigma S.Ans

namespace Prog

variable {S : Sig} {α β γ : Type}

def bind (p : Prog S α) (f : α → Prog S β) : Prog S β :=
  match p with
  | .pure a => f a
  | .call op k => .call op fun r => (k r).bind f

instance : Monad (Prog S) where
  pure := .pure
  bind := .bind

/-- Make a single call and return its answer. -/
def perform (op : S.Op) : Prog S (S.Ans op) := .call op .pure

@[simp] theorem pure_eq (a : α) : (Pure.pure a : Prog S α) = .pure a := rfl

@[simp] theorem pure_bind (a : α) (f : α → Prog S β) :
    (Prog.pure a : Prog S α) >>= f = f a := rfl

@[simp] theorem call_bind (op : S.Op) (k : S.Ans op → Prog S α) (f : α → Prog S β) :
    Prog.call op k >>= f = .call op fun r => k r >>= f := rfl

theorem bind_assoc (p : Prog S α) (f : α → Prog S β) (g : β → Prog S γ) :
    (p >>= f) >>= g = p >>= fun a => f a >>= g := by
  induction p with
  | pure a => rfl
  | call op k ih =>
    simp only [call_bind]
    congr 1
    funext r
    exact ih r

theorem bind_pure (p : Prog S α) : p >>= .pure = p := by
  induction p with
  | pure a => rfl
  | call op k ih =>
    rw [call_bind]
    congr 1
    funext r
    exact ih r

instance : LawfulMonad (Prog S) :=
  LawfulMonad.mk' _ bind_pure (fun _ _ => rfl) bind_assoc

/-! ## Traces -/

/-- `Steps p t q`: with the calls and answers of `t`, the program `p` gets to `q`. The
answers are arbitrary, and `q` need not have returned: a trace may be cut anywhere. -/
inductive Steps : Prog S α → List (Event S) → Prog S α → Prop
  | nil (p : Prog S α) : Steps p [] p
  | cons {op : S.Op} {k : S.Ans op → Prog S α} {r : S.Ans op} {t : List (Event S)}
      {q : Prog S α} (h : Steps (k r) t q) : Steps (.call op k) (⟨op, r⟩ :: t) q

/-- A complete run: the trace ends with the program returning `a`. -/
def Runs (p : Prog S α) (t : List (Event S)) (a : α) : Prop := Steps p t (.pure a)

variable {p q : Prog S α} {f : α → Prog S β} {t u v : List (Event S)} {e : Event S} {a : α} {b : β}
  {op : S.Op} {k : S.Ans op → Prog S α} {P P' : S.Op → Prop} {Q Q' : α → Prop} {R : β → Prop}

theorem Steps.trans {r : Prog S α} (h : Steps p t q) (h' : Steps q u r) : Steps p (t ++ u) r := by
  induction h with
  | nil _ => exact h'
  | cons _ ih => exact .cons (ih h')

/-- One more answered call at the end of a trace. -/
theorem Steps.snoc (h : Steps p t (.call op k)) (r : S.Ans op) : Steps p (t ++ [⟨op, r⟩]) (k r) :=
  h.trans (.cons (.nil _))

theorem runs_pure {b : α} (h : (Prog.pure a : Prog S α).Runs t b) : t = [] ∧ a = b := by
  cases h
  exact ⟨rfl, rfl⟩

theorem runs_call {b : α} (h : (Prog.call op k).Runs t b) :
    ∃ r u, t = ⟨op, r⟩ :: u ∧ (k r).Runs u b := by
  cases h with
  | @cons _ _ r u _ h => exact ⟨r, u, rfl, h⟩

theorem runs_bind (h : (p >>= f).Runs t b) : ∃ a u v, t = u ++ v ∧ p.Runs u a ∧ (f a).Runs v b := by
  induction p generalizing t with
  | pure a => exact ⟨a, [], t, rfl, .nil _, h⟩
  | call op k ih =>
    obtain ⟨r, t', rfl, h'⟩ := runs_call h
    obtain ⟨a, u, v, rfl, hu, hv⟩ := ih r h'
    exact ⟨a, ⟨op, r⟩ :: u, v, rfl, .cons hu, hv⟩

/-- A trace of two programs in a row is cut in the first one, or goes through it. -/
theorem steps_bind {q : Prog S β} (h : (p >>= f).Steps t q) :
    (∃ op k, p.Steps t (.call op k) ∧ q = .call op fun r => k r >>= f) ∨
      ∃ a u v, t = u ++ v ∧ p.Runs u a ∧ (f a).Steps v q := by
  induction p generalizing t with
  | pure a => exact Or.inr ⟨a, [], t, rfl, .nil _, h⟩
  | call op k ih =>
    cases h with
    | nil => exact Or.inl ⟨op, k, .nil _, rfl⟩
    | @cons _ _ r t' _ h' =>
      rcases ih r h' with ⟨op', k', hsteps, hq⟩ | ⟨a, u, v, rfl, hu, hv⟩
      · exact Or.inl ⟨op', k', .cons hsteps, hq⟩
      · exact Or.inr ⟨a, ⟨op, r⟩ :: u, v, rfl, .cons hu, hv⟩

/-- Once the first of two programs has returned, the second one runs. -/
theorem runs_after (hp : p.Runs u a) (h : (p >>= f).Runs (u ++ v) b) : (f a).Runs v b := by
  induction p generalizing u with
  | pure a' =>
    obtain ⟨rfl, rfl⟩ := runs_pure hp
    exact h
  | call op k ih =>
    obtain ⟨r, u', rfl, hp'⟩ := runs_call hp
    obtain ⟨r', u'', heq, h'⟩ := runs_call h
    cases heq
    exact ih r hp' h'

/-- A run of two programs in a row, at one of its calls: the call is one of the first program, or
one of the second. -/
theorem runs_bind_at (h : (p >>= f).Runs (u ++ e :: v) b) :
    (∃ a w w', v = w ++ w' ∧ p.Runs (u ++ e :: w) a ∧ (f a).Runs w' b) ∨
      ∃ a w w', u = w ++ w' ∧ p.Runs w a ∧ (f a).Runs (w' ++ e :: v) b := by
  obtain ⟨a, t, t', heq, hp, hf⟩ := runs_bind h
  rcases List.append_eq_append_iff.mp heq with ⟨w, rfl, hw⟩ | ⟨w, rfl, hw⟩
  · cases w with
    | nil =>
      rw [List.append_nil] at hp
      rw [List.nil_append] at hw
      exact Or.inr ⟨a, u, [], (List.append_nil u).symm, hp, hw ▸ hf⟩
    | cons e' w =>
      cases hw
      exact Or.inl ⟨a, w, t', rfl, hp, hf⟩
  · exact Or.inr ⟨a, t, w, rfl, hp, hw ▸ hf⟩

/-- Before each call of a run the program waits to make a call. -/
theorem Runs.at_call (h : p.Runs (u ++ e :: v) a) : ∃ op k, p.Steps u (.call op k) := by
  induction u generalizing p with
  | nil =>
    cases h with
    | cons _ => exact ⟨_, _, .nil _⟩
  | cons e' u ih =>
    cases h with
    | cons h =>
      obtain ⟨op, k, hsteps⟩ := ih h
      exact ⟨op, k, .cons hsteps⟩

/-- A program that waits to make a call makes it before the next program starts. -/
theorem Steps.runs_bind (hp : p.Steps u (.call op k)) (h : (p >>= f).Runs (u ++ e :: v) b) :
    ∃ a w w', v = w ++ w' ∧ p.Runs (u ++ e :: w) a ∧ (f a).Runs w' b := by
  induction u generalizing p with
  | nil =>
    cases hp
    obtain ⟨r, t, heq, ht⟩ := runs_call h
    cases heq
    obtain ⟨a, w, w', rfl, hw, hw'⟩ := Prog.runs_bind ht
    exact ⟨a, w, w', rfl, .cons hw, hw'⟩
  | cons e' u ih =>
    cases hp with
    | cons hp =>
      obtain ⟨r, t, heq, ht⟩ := runs_call h
      cases heq
      obtain ⟨a, w, w', rfl, hw, hw'⟩ := ih hp ht
      exact ⟨a, w, w', rfl, .cons hw, hw'⟩

/-- A program runs to its end if every call can be answered. -/
theorem exists_runs {P : Event S → Prop} (h : ∀ op, ∃ r, P ⟨op, r⟩) (p : Prog S α) :
    ∃ t a, p.Runs t a ∧ ∀ e ∈ t, P e := by
  induction p with
  | pure a => exact ⟨[], a, .nil _, nofun⟩
  | call op k ih =>
    obtain ⟨r, hr⟩ := h op
    obtain ⟨t, a, ht, hall⟩ := ih r
    exact ⟨⟨op, r⟩ :: t, a, .cons ht, List.forall_mem_cons.mpr ⟨hr, hall⟩⟩

/-- The run of a program that is answered by a machine. -/
def record {σ : Type} (answer : σ → (op : S.Op) → S.Ans op × σ) :
    Prog S α → σ → List (Event S) × α
  | .pure a, _ => ([], a)
  | .call op k, s =>
    let (r, s') := answer s op
    let (t, a) := record answer (k r) s'
    (⟨op, r⟩ :: t, a)

theorem runs_record {σ : Type} (answer : σ → (op : S.Op) → S.Ans op × σ) (p : Prog S α) (s : σ) :
    p.Runs (p.record answer s).1 (p.record answer s).2 := by
  induction p generalizing s with
  | pure a => exact .nil _
  | call op k ih => exact .cons (ih _ _)

/-! ## Which calls a program can make -/

/-- Whatever the answers, every call of the program satisfies `P` and its result `Q`. -/
def Yields (P : S.Op → Prop) (Q : α → Prop) : Prog S α → Prop
  | .pure a => Q a
  | .call op k => P op ∧ ∀ r, (k r).Yields P Q

/-- Whatever the answers, every call of the program satisfies `P`. -/
abbrev Only (P : S.Op → Prop) (p : Prog S α) : Prop := p.Yields P fun _ => True

theorem Yields.bind (hp : p.Yields P Q) (hf : ∀ a, Q a → (f a).Yields P R) :
    (p >>= f).Yields P R := by
  induction p with
  | pure a => exact hf a hp
  | call op k ih => exact ⟨hp.1, fun r => ih r (hp.2 r)⟩

theorem Yields.mono (hp : p.Yields P Q) (hP : ∀ op, P op → P' op) (hQ : ∀ a, Q a → Q' a) :
    p.Yields P' Q' := by
  induction p with
  | pure a => exact hQ a hp
  | call op k ih => exact ⟨hP op hp.1, fun r => ih r (hp.2 r)⟩

/-- Two results about one program. -/
theorem Yields.and (hp : p.Yields P Q) (hp' : p.Yields P' Q') : p.Yields P fun a => Q a ∧ Q' a := by
  induction p with
  | pure a => exact ⟨hp, hp'⟩
  | call op k ih => exact ⟨hp.1, fun r => ih r (hp.2 r) (hp'.2 r)⟩

theorem only_true (p : Prog S α) : p.Only fun _ => True := by
  induction p with
  | pure a => trivial
  | call op k ih => exact ⟨trivial, ih⟩

/-- Every call of a trace satisfies `P`, and so does every call that is still to come. -/
theorem Yields.steps (hp : p.Yields P Q) (h : Steps p t q) : (∀ e ∈ t, P e.1) ∧ q.Yields P Q := by
  induction h with
  | nil p => exact ⟨fun e he => absurd he List.not_mem_nil, hp⟩
  | cons _ ih =>
    obtain ⟨hrest, hq⟩ := ih (hp.2 _)
    exact ⟨List.forall_mem_cons.mpr ⟨hp.1, hrest⟩, hq⟩

theorem only_bind (hp : p.Only P) (hf : ∀ a, (f a).Only P) : (p >>= f).Only P :=
  Yields.bind hp fun a _ => hf a

end Prog

/-! ## Leaving a function early -/

/-- The body of a function with early returns: `throw` leaves it with a result of type
`ρ`, the value of type `α` is what the statements after it go on with. -/
abbrev Flow (S : Sig) (ρ α : Type) : Type := ExceptT ρ (Prog S) α

namespace Flow

variable {S : Sig} {ρ α β : Type}

/-- The program behind a body. -/
abbrev prog (p : Flow S ρ α) : Prog S (Except ρ α) := ExceptT.run p

/-- A body that always leaves with a result, as a function returning it. -/
def exit (p : Flow S ρ ρ) : Prog S ρ := do
  match ← p.prog with
  | .ok a => return a
  | .error a => return a

/-- A loop over a list, left at the first iteration that leaves the function. -/
def forEach (body : α → Flow S ρ Unit) : List α → Flow S ρ Unit
  | [] => pure ()
  | a :: as => do
      body a
      forEach body as

/-- A loop that appends what its iterations find. -/
def collect (body : α → Flow S ρ (List β)) : List α → Flow S ρ (List β)
  | [] => pure []
  | a :: as => do
      let found ← body a
      let rest ← collect body as
      return found ++ rest

/-- A body after which, however it is left, `cleanup` is run: a deferred call. -/
def deferring (cleanup : Prog S β) (body : Flow S ρ α) : Flow S ρ α :=
  ExceptT.mk (do
    let result ← body.prog
    let _ ← cleanup
    return result)

theorem prog_bind (p : Flow S ρ α) (f : α → Flow S ρ β) :
    (p >>= f).prog = p.prog >>= fun x => match x with
      | .ok a => (f a).prog
      | .error e => .pure (.error e) := rfl

variable {P : S.Op → Prop} {E : ρ → Prop} {Q : α → Prop} {R : β → Prop} {p : Flow S ρ α}
  {f : α → Flow S ρ β}

theorem runs_exit {p : Flow S ρ ρ} {t : List (Event S)} {a : ρ} (h : p.exit.Runs t a) :
    p.prog.Runs t (.ok a) ∨ p.prog.Runs t (.error a) := by
  obtain ⟨x, u, v, rfl, hp, hv⟩ := Prog.runs_bind h
  cases x with
  | ok b =>
    obtain ⟨rfl, rfl⟩ := Prog.runs_pure hv
    exact Or.inl (by rwa [List.append_nil])
  | error b =>
    obtain ⟨rfl, rfl⟩ := Prog.runs_pure hv
    exact Or.inr (by rwa [List.append_nil])

/-- `Q` holds of the value the statements after a body go on with. -/
def OnOk (Q : α → Prop) : Except ρ α → Prop
  | .ok a => Q a
  | .error _ => True

theorem yields_bind (hp : p.prog.Yields P (OnOk Q)) (hf : ∀ a, Q a → (f a).prog.Yields P (OnOk R)) :
    (p >>= f).prog.Yields P (OnOk R) := by
  refine Prog.Yields.bind hp ?_
  intro x hx
  cases x with
  | ok a => exact hf a hx
  | error e => trivial

theorem yields_lift {p : Prog S α} (hp : p.Yields P Q) :
    (liftM p : Flow S ρ α).prog.Yields P (OnOk Q) :=
  Prog.Yields.bind hp fun _ ha => ha

theorem only_bind (hp : p.prog.Only P) (hf : ∀ a, (f a).prog.Only P) : (p >>= f).prog.Only P := by
  refine Prog.only_bind hp fun x => ?_
  cases x with
  | ok a => exact hf a
  | error e => trivial

theorem only_lift {p : Prog S α} (hp : p.Only P) : (liftM p : Flow S ρ α).prog.Only P :=
  Prog.only_bind hp fun _ => trivial

theorem prog_lift (p : Prog S α) : (liftM p : Flow S ρ α).prog = p >>= fun a => .pure (.ok a) :=
  rfl

/-- `Q` holds of the value the statements after a body go on with, and `E` of the result the
function is left with. -/
def OnExit (E : ρ → Prop) (Q : α → Prop) : Except ρ α → Prop
  | .ok a => Q a
  | .error e => E e

theorem exits_bind (hp : p.prog.Yields P (OnExit E Q))
    (hf : ∀ a, Q a → (f a).prog.Yields P (OnExit E R)) : (p >>= f).prog.Yields P (OnExit E R) := by
  refine Prog.Yields.bind hp ?_
  intro x hx
  cases x with
  | ok a => exact hf a hx
  | error e => exact hx

end Flow

end LlmOperator.Interaction
