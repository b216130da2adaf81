import LlmOperator.Interaction.Program

/-!
# Safety of interactive programs under interference

A `World` says what a call may answer and do to the shared state (`exec`), what others
may do to that state between two calls of the program (`rely`), and what the program
owes them at each of its own calls (`guar`). `Safe W p Q s` says that, started in `s`, every
call of `p` keeps the guarantee however its surroundings behave, and that `Q` holds of
the result and of the state in which it is returned.

The definition follows the program tree, so a program is verified call by call; `bind`,
`mono` and the rules of `World.Keeps`, for stretches of calls that keep an assertion, are what
the verification of larger programs uses.
-/

namespace LlmOperator.Interaction

open Prog

/-- The surroundings of a program. -/
structure World (S : Sig) (σ : Type) where
  exec : σ → (op : S.Op) → S.Ans op → σ → Prop
  rely : σ → σ → Prop
  guar : σ → (op : S.Op) → S.Ans op → σ → Prop
  rely_refl : ∀ s, rely s s
  rely_trans : ∀ {a b c}, rely a b → rely b c → rely a c

variable {S : Sig} {σ α β γ ρ : Type} {W : World S σ} {a : α} {p : Prog S α} {f : α → Prog S β}
  {h : List (Event S)}

/-- Others may act before each call. The call then happens at once, and the guarantee is
owed for it. -/
def Safe (W : World S σ) : Prog S α → (α → σ → Prop) → σ → Prop
  | .pure a, Q, s => Q a s
  | .call op k, Q, s => ∀ s₁, W.rely s s₁ → ∀ r s₂, W.exec s₁ op r s₂ →
      W.guar s₁ op r s₂ ∧ Safe W (k r) Q s₂

namespace Safe

variable {E E' : Prop} {Q Q' : α → σ → Prop} {R : β → σ → Prop} {s s' : σ}

theorem pure (h : Q a s) : Safe W (.pure a) Q s := h

theorem mono (h : Safe W p Q s) (hQ : ∀ a s, Q a s → Q' a s) : Safe W p Q' s := by
  induction p generalizing s with
  | pure a => exact hQ a s h
  | call op k ih =>
    intro s₁ hs₁ r s₂ hr
    obtain ⟨hg, hk⟩ := h s₁ hs₁ r s₂ hr
    exact ⟨hg, ih r hk⟩

theorem bind {Q : β → σ → Prop} (h : Safe W p (fun a s => Safe W (f a) Q s) s) :
    Safe W (p >>= f) Q s := by
  induction p generalizing s with
  | pure a => exact h
  | call op k ih =>
    intro s₁ hs₁ r s₂ hr
    obtain ⟨hg, hk⟩ := h s₁ hs₁ r s₂ hr
    exact ⟨hg, ih r hk⟩

/-- A statement of a function with early returns: after it the rest of the body runs, or
the function has left. -/
theorem flow_bind {p : Flow S ρ α} {f : α → Flow S ρ β} {Q : Except ρ β → σ → Prop}
    (h : Safe W p.prog (fun x s => match x with
      | .ok a => Safe W (f a).prog Q s
      | .error e => Q (.error e) s) s) : Safe W (p >>= f).prog Q s := by
  rw [Flow.prog_bind]
  refine bind (mono h ?_)
  intro x s hx
  cases x with
  | ok a => exact hx
  | error e => exact hx

/-- `flow_bind` with what is asked of both ways out given apart. -/
theorem except_bind {p : Flow S ρ α} {f : α → Flow S ρ β} {P : Except ρ α → σ → Prop}
    {R : Except ρ β → σ → Prop} (hp : Safe W p.prog P s)
    (hok : ∀ a s, P (.ok a) s → Safe W (f a).prog R s)
    (herror : ∀ e s, P (.error e) s → R (.error e) s) : Safe W (p >>= f).prog R s := by
  refine flow_bind (mono hp ?_)
  intro x s hx
  cases x with
  | ok a => exact hok a s hx
  | error e => exact herror e s hx

theorem except_mono {p : Prog S (Except ρ α)} {P R : Except ρ α → σ → Prop} (hp : Safe W p P s)
    (hok : ∀ a s, P (.ok a) s → R (.ok a) s) (herror : ∀ e s, P (.error e) s → R (.error e) s) :
    Safe W p R s := by
  refine mono hp ?_
  intro x s hx
  cases x with
  | ok a => exact hok a s hx
  | error e => exact herror e s hx

theorem flow_lift {Q : Except ρ α → σ → Prop} (h : Safe W p (fun a s => Q (.ok a) s) s) :
    Safe W (liftM p : Flow S ρ α).prog Q s := by
  rw [Flow.prog_lift]
  exact bind h

/-- `Q` is asked of a body only where the statements after it are reached. -/
def Stays (Q : α → σ → Prop) : Except ρ α → σ → Prop
  | .ok a, s => Q a s
  | .error _, _ => True

theorem stays_bind {p : Flow S ρ α} {f : α → Flow S ρ β} (hp : Safe W p.prog (Stays Q) s)
    (hf : ∀ a s, Q a s → Safe W (f a).prog (Stays R) s) : Safe W (p >>= f).prog (Stays R) s :=
  except_bind hp hf fun _ _ _ => trivial

theorem stays_lift (h : Safe W p Q s) : Safe W (liftM p : Flow S ρ α).prog (Stays Q) s :=
  flow_lift h

theorem stays_mono {p : Flow S ρ α} {R : α → σ → Prop} (hp : Safe W p.prog (Stays Q) s)
    (h : ∀ a s, Q a s → R a s) : Safe W p.prog (Stays R) s :=
  except_mono hp h fun _ _ _ => trivial

theorem exit {p : Flow S ρ ρ} {Q : ρ → σ → Prop} (h : Safe W p.prog (fun x s => match x with
      | .ok a => Q a s
      | .error a => Q a s) s) : Safe W p.exit Q s := by
  refine bind (mono h ?_)
  intro x s hx
  cases x with
  | ok a => exact hx
  | error a => exact hx

theorem exit_of_stays {p : Flow S ρ ρ} (h : Safe W p.prog (Stays fun _ _ => True) s) :
    Safe W p.exit (fun _ _ => True) s := by
  refine exit (mono h ?_)
  intro x s _
  cases x <;> trivial

/-- What holds however the others have acted so far still holds after they act again. -/
theorem rely (h : Safe W p Q s) (hs : W.rely s s') (hQ : ∀ a s s', Q a s → W.rely s s' → Q a s') :
    Safe W p Q s' := by
  cases p with
  | pure a => exact hQ a s s' h hs
  | call op k => exact fun s₁ hs₁ => h s₁ (W.rely_trans hs hs₁)

/-- Among fewer interferences and outcomes, with less owed. -/
theorem widen {W' : World S σ} (h : Safe W p Q s) (hrely : ∀ s s', W'.rely s s' → W.rely s s')
    (hexec : ∀ s op r s', W'.exec s op r s' → W.exec s op r s')
    (hguar : ∀ s op r s', W.guar s op r s' → W'.guar s op r s') : Safe W' p Q s := by
  induction p generalizing s with
  | pure a => exact h
  | call op k ih =>
    intro s₁ hs₁ r s₂ hr
    obtain ⟨hg, hk⟩ := h s₁ (hrely s s₁ hs₁) r s₂ (hexec s₁ op r s₂ hr)
    exact ⟨hguar s₁ op r s₂ hg, ih r hk⟩

/-- What every call guarantees and nobody else undoes holds between the beginning and the end. -/
theorem along {G : σ → σ → Prop} (hrefl : ∀ s, G s s) (htrans : ∀ a b c, G a b → G b c → G a c)
    (hrely : ∀ s s', W.rely s s' → G s s') (hguar : ∀ s op r s', W.guar s op r s' → G s s')
    (h : Safe W p Q s) : Safe W p (fun a s' => Q a s' ∧ G s s') s := by
  induction p generalizing s with
  | pure a => exact ⟨h, hrefl s⟩
  | call op k ih =>
    intro s₁ hs₁ r s₂ hr
    obtain ⟨hg, hk⟩ := h s₁ hs₁ r s₂ hr
    refine ⟨hg, (ih r hk).mono ?_⟩
    rintro a s' ⟨hQ, hG⟩
    exact ⟨hQ, htrans _ _ _ (hrely s s₁ hs₁) (htrans _ _ _ (hguar s₁ op r s₂ hg) hG)⟩

/-- `Q` is asked of a body where the statements after it are reached, and `E` where it is left. -/
def Exits (E : Prop) (Q : α → σ → Prop) : Except ρ α → σ → Prop
  | .ok a, s => Q a s
  | .error _, _ => E

theorem exits_bind {p : Flow S ρ α} {f : α → Flow S ρ β} (hp : Safe W p.prog (Exits E Q) s)
    (hf : ∀ a s, Q a s → Safe W (f a).prog (Exits E R) s) : Safe W (p >>= f).prog (Exits E R) s :=
  except_bind hp hf fun _ _ h => h

theorem exits_mono {p : Prog S (Except ρ α)} {R : α → σ → Prop} (hp : Safe W p (Exits E Q) s)
    (hE : E → E') (h : ∀ a s, Q a s → R a s) : Safe W p (Exits E' R) s :=
  except_mono hp h fun _ _ => hE

/-- A loop, by what holds after some of its iterations. -/
theorem exits_forEach {body : α → Flow S ρ Unit} {I : List α → σ → Prop} {all : List α}
    (hbody : ∀ done a rest, all = done ++ a :: rest → ∀ s, I done s →
      Safe W (body a).prog (Exits E fun _ s' => I (done ++ [a]) s') s) (h : I [] s) :
    Safe W (Flow.forEach body all).prog (Exits E fun _ s' => I all s') s := by
  have hloop : ∀ rest done s, all = done ++ rest → I done s →
      Safe W (Flow.forEach body rest).prog (Exits E fun _ s' => I all s') s := by
    intro rest
    induction rest with
    | nil =>
      intro done s hall hI
      rw [List.append_nil] at hall
      exact hall ▸ hI
    | cons a rest ih =>
      intro done s hall hI
      refine exits_bind (hbody done a rest hall s hI) fun _ s' hI' => ?_
      exact ih (done ++ [a]) s' (by rw [hall, List.append_assoc]; rfl) hI'
  exact hloop all [] s rfl h

/-- A loop that collects, by what holds of the things found after some of its iterations. -/
theorem exits_collect {body : α → Flow S ρ (List β)} {I : List α → List β → σ → Prop} {all : List α}
    (hbody : ∀ done a rest, all = done ++ a :: rest → ∀ found s, I done found s →
      Safe W (body a).prog (Exits E fun more s' => I (done ++ [a]) (found ++ more) s') s)
    (h : I [] [] s) :
    Safe W (Flow.collect body all).prog (Exits E fun found s' => I all found s') s := by
  have hloop : ∀ rest done found s, all = done ++ rest → I done found s →
      Safe W (Flow.collect body rest).prog (Exits E fun more s' => I all (found ++ more) s') s := by
    intro rest
    induction rest with
    | nil =>
      intro done found s hall hI
      rw [List.append_nil] at hall
      show I all (found ++ []) s
      rw [List.append_nil, hall]
      exact hI
    | cons a rest ih =>
      intro done found s hall hI
      refine exits_bind (hbody done a rest hall found s hI) fun more s' hI' => ?_
      have hrest := ih (done ++ [a]) (found ++ more) s' (by rw [hall, List.append_assoc]; rfl) hI'
      refine exits_bind hrest fun last s'' hI'' => ?_
      show I all (found ++ (more ++ last)) s''
      rwa [← List.append_assoc]
  exact exits_mono (hloop all [] [] s rfl h) id fun _ _ h => h

theorem exits_deferring {cleanup : Prog S β} {body : Flow S ρ α} {R : α → σ → Prop}
    (hbody : Safe W body.prog (Exits E Q) s) (hany : ∀ s, Safe W cleanup (fun _ _ => True) s)
    (hok : ∀ a s, Q a s → Safe W cleanup (fun _ s' => R a s') s) :
    Safe W (Flow.deferring cleanup body).prog (Exits E R) s :=
  bind (except_mono hbody (fun a s h => bind (hok a s h))
    fun _ s h => bind (mono (hany s) fun _ _ _ => h))

end Safe

/-- `J` is kept by the others and by every call in `P`, and such a call meets its guarantee. -/
structure World.Keeps (W : World S σ) (P : S.Op → Prop) (J : σ → Prop) : Prop where
  rely : ∀ s s', J s → W.rely s s' → J s'
  call : ∀ s op r s', P op → J s → W.exec s op r s' → W.guar s op r s' ∧ J s'

namespace World.Keeps

variable {P : S.Op → Prop} {J : σ → Prop} {s : σ}

/-- A program all of whose calls are in `P` keeps `J`. -/
theorem safe (h : W.Keeps P J) {Q : α → Prop} (hp : p.Yields P Q) (hJ : J s) :
    Safe W p (fun a s => Q a ∧ J s) s := by
  induction p generalizing s with
  | pure a => exact ⟨hp, hJ⟩
  | call op k ih =>
    intro s₁ hs₁ r s₂ hr
    obtain ⟨hg, hJ₂⟩ := h.call s₁ op r s₂ hp.1 (h.rely s s₁ hJ hs₁) hr
    exact ⟨hg, ih r (hp.2 r) hJ₂⟩

theorem safe_only (h : W.Keeps P J) (hp : p.Only P) (hJ : J s) : Safe W p (fun _ _ => True) s :=
  (h.safe hp hJ).mono fun _ _ _ => trivial

theorem stays (h : W.Keeps P J) {p : Flow S ρ α} {Q : α → Prop}
    (hp : p.prog.Yields P (Flow.OnOk Q)) (hJ : J s) :
    Safe W p.prog (Safe.Stays fun a s => Q a ∧ J s) s := by
  refine (h.safe hp hJ).mono ?_
  rintro x s ⟨hx, hs⟩
  cases x with
  | ok a => exact ⟨hx, hs⟩
  | error e => trivial

/-- A single call in `P`, with the moment at which it is made. -/
theorem safe_call (h : W.Keeps P J) (op : S.Op) (hop : P op) (hJ : J s)
    {k : S.Ans op → Prog S α} {Q : α → σ → Prop}
    (hk : ∀ s₁ r s₂, W.rely s s₁ → J s₁ → W.exec s₁ op r s₂ → J s₂ → Safe W (k r) Q s₂) :
    Safe W (.call op k) Q s := by
  intro s₁ hs₁ r s₂ hr
  have hJ₁ := h.rely s s₁ hJ hs₁
  obtain ⟨hg, hJ₂⟩ := h.call s₁ op r s₂ hop hJ₁ hr
  exact ⟨hg, hk s₁ r s₂ hs₁ hJ₁ hr hJ₂⟩

end World.Keeps

/-! ## Programs that run alone -/

/-- The program, running alone from `s`, ends with `a` in the state `s'`. -/
def Prog.Ends (exec : σ → (op : S.Op) → S.Ans op → σ → Prop) : Prog S α → σ → α → σ → Prop
  | .pure a, s, b, s' => b = a ∧ s' = s
  | .call op k, s, b, s' => ∃ r s₁, exec s op r s₁ ∧ Prog.Ends exec (k r) s₁ b s'

/-- What is safe among others is safe alone. -/
theorem Safe.ends {Q : α → σ → Prop} {s s' : σ} (h : Safe W p Q s) (he : p.Ends W.exec s a s') :
    Q a s' := by
  induction p generalizing s with
  | pure b =>
    obtain ⟨rfl, rfl⟩ := he
    exact h
  | call op k ih =>
    obtain ⟨r, s₁, hr, he⟩ := he
    exact ih r (h s (W.rely_refl s) r s₁ hr).2 he

namespace Prog

variable {exec exec' : σ → (op : S.Op) → S.Ans op → σ → Prop}

/-- A program ends if every call is answered. -/
theorem exists_ends (htotal : ∀ s op, ∃ r s', exec s op r s') (p : Prog S α) (s : σ) :
    ∃ a s', p.Ends exec s a s' := by
  induction p generalizing s with
  | pure a => exact ⟨a, s, rfl, rfl⟩
  | call op k ih =>
    obtain ⟨r, s₁, hr⟩ := htotal s op
    obtain ⟨a, s', he⟩ := ih r s₁
    exact ⟨a, s', r, s₁, hr, he⟩

theorem Ends.mono (h : ∀ s op r s', exec s op r s' → exec' s op r s') {s s' : σ}
    (he : p.Ends exec s a s') : p.Ends exec' s a s' := by
  induction p generalizing s with
  | pure b => exact he
  | call op k ih =>
    obtain ⟨r, s₁, hr, he⟩ := he
    exact ⟨r, s₁, h s op r s₁ hr, ih r he⟩

theorem ends_bind {s s' : σ} {b : β} :
    (p >>= f).Ends exec s b s' ↔ ∃ a s₁, p.Ends exec s a s₁ ∧ (f a).Ends exec s₁ b s' := by
  induction p generalizing s with
  | pure a =>
    constructor
    · intro h
      exact ⟨a, s, ⟨rfl, rfl⟩, h⟩
    · rintro ⟨_, _, ⟨rfl, rfl⟩, h⟩
      exact h
  | call op k ih =>
    constructor
    · rintro ⟨r, s₁, hr, h⟩
      obtain ⟨a, s₂, ha, h⟩ := (ih r).mp h
      exact ⟨a, s₂, ⟨r, s₁, hr, ha⟩, h⟩
    · rintro ⟨a, s₂, ⟨r, s₁, hr, ha⟩, h⟩
      exact ⟨r, s₁, hr, (ih r).mpr ⟨a, s₂, ha, h⟩⟩

theorem Ends.keeps {I : σ → Prop} (hI : ∀ s op r s', exec s op r s' → I s → I s') {s s' : σ}
    (h : p.Ends exec s a s') (hs : I s) : I s' := by
  induction p generalizing s with
  | pure b =>
    obtain ⟨-, rfl⟩ := h
    exact hs
  | call op k ih =>
    obtain ⟨r, s₁, hr, h⟩ := h
    exact ih r h (hI s op r s₁ hr hs)

/-! Where the state decides every answer, a program has one run. -/

variable {answer : σ → (op : S.Op) → S.Ans op × σ}

variable (answer) in
/-- The result of a program that runs alone, and the state it leaves. -/
def eval : Prog S α → σ → α × σ
  | .pure a, s => (a, s)
  | .call op k, s => eval (k (answer s op).1) (answer s op).2

@[simp] theorem eval_pure (a : α) (s : σ) : (Prog.pure a : Prog S α).eval answer s = (a, s) := rfl

@[simp] theorem eval_call (op : S.Op) (k : S.Ans op → Prog S α) (s : σ) :
    (Prog.call op k).eval answer s = (k (answer s op).1).eval answer (answer s op).2 := rfl

theorem eval_bind (p : Prog S α) (f : α → Prog S β) (s : σ) :
    (p >>= f).eval answer s = (f (p.eval answer s).1).eval answer (p.eval answer s).2 := by
  induction p generalizing s with
  | pure a => rfl
  | call op k ih => exact ih _ _

/-- The run in which every call has the answer of `answer`. -/
theorem ends_eval (h : ∀ s op, exec s op (answer s op).1 (answer s op).2) (p : Prog S α) (s : σ) :
    p.Ends exec s (p.eval answer s).1 (p.eval answer s).2 := by
  induction p generalizing s with
  | pure a => exact ⟨rfl, rfl⟩
  | call op k ih => exact ⟨_, _, h s op, ih _ _⟩

/-- `P` holds of each call of that run, in the state in which the program comes to it. -/
def Along (P : σ → S.Op → Prop) (answer : σ → (op : S.Op) → S.Ans op × σ) : Prog S α → σ → Prop
  | .pure _, _ => True
  | .call op k, s => P s op ∧ Along P answer (k (answer s op).1) (answer s op).2

section Along

variable {P : σ → S.Op → Prop} {s s' : σ}

instance Along.decidable [∀ s op, Decidable (P s op)] :
    (p : Prog S α) → (s : σ) → Decidable (p.Along P answer s)
  | .pure _, _ => .isTrue trivial
  | .call op k, s =>
    have := Along.decidable (k (answer s op).1) (answer s op).2
    inferInstanceAs (Decidable (P s op ∧ _))

theorem Along.bind (hp : p.Along P answer s)
    (hf : (f (p.eval answer s).1).Along P answer (p.eval answer s).2) :
    (p >>= f).Along P answer s := by
  induction p generalizing s with
  | pure a => exact hf
  | call op k ih => exact ⟨hp.1, ih _ hp.2 hf⟩

theorem Along.ends (h : ∀ s op, P s op → exec s op (answer s op).1 (answer s op).2)
    (hp : p.Along P answer s) : p.Ends exec s (p.eval answer s).1 (p.eval answer s).2 := by
  induction p generalizing s with
  | pure a => exact ⟨rfl, rfl⟩
  | call op k ih => exact ⟨_, _, h s op hp.1, ih _ hp.2⟩

end Along

/-- Each call of the program, as it comes to it, has just the answer of `answer`. -/
abbrev Fixed (exec : σ → (op : S.Op) → S.Ans op → σ → Prop)
    (answer : σ → (op : S.Op) → S.Ans op × σ) (p : Prog S α) (s : σ) : Prop :=
  p.Along (fun s op => ∀ r s', exec s op r s' → (r, s') = answer s op) answer s

/-- Such a program has one end. -/
theorem Fixed.ends {exec : σ → (op : S.Op) → S.Ans op → σ → Prop} {s s' : σ}
    (hp : p.Fixed exec answer s) (he : p.Ends exec s a s') : (a, s') = p.eval answer s := by
  induction p generalizing s with
  | pure b =>
    obtain ⟨rfl, rfl⟩ := he
    rfl
  | call op k ih =>
    obtain ⟨r, s₁, hr, he⟩ := he
    obtain ⟨rfl, rfl⟩ := Prod.mk.inj (hp.1 r s₁ hr)
    exact ih _ hp.2 he

/-- What every call of a program keeps holds when it has run. -/
theorem eval_keeps {P : S.Op → Prop} {I : σ → Prop} (hI : ∀ s op, P op → I s → I (answer s op).2)
    (hp : p.Only P) {s : σ} (hs : I s) : I (p.eval answer s).2 := by
  induction p generalizing s with
  | pure a => exact hs
  | call op k ih => exact ih _ (hp.2 _) (hI s op hp.1 hs)

/-- A change of the state that the calls of a program do not see commutes with its run. -/
theorem eval_comm {P : S.Op → Prop} {f : σ → σ}
    (hf : ∀ s op, P op → answer (f s) op = ((answer s op).1, f (answer s op).2)) (hp : p.Only P)
    (s : σ) : p.eval answer (f s) = ((p.eval answer s).1, f (p.eval answer s).2) := by
  induction p generalizing s with
  | pure a => rfl
  | call op k ih =>
    rw [eval_call, eval_call, hf s op hp.1]
    exact ih _ (hp.2 _) _

end Prog

/-- A function with early returns ends in the first part, or in the second. -/
theorem Flow.ends_bind {exec : σ → (op : S.Op) → S.Ans op → σ → Prop} {p : Flow S ρ α}
    {f : α → Flow S ρ β} {s s' : σ} {x : Except ρ β} :
    (p >>= f).prog.Ends exec s x s' ↔
      (∃ e, x = .error e ∧ p.prog.Ends exec s (.error e) s') ∨
        ∃ a s₁, p.prog.Ends exec s (.ok a) s₁ ∧ (f a).prog.Ends exec s₁ x s' := by
  rw [Flow.prog_bind, Prog.ends_bind]
  constructor
  · rintro ⟨y, s₁, hp, hf⟩
    cases y with
    | ok a => exact .inr ⟨a, s₁, hp, hf⟩
    | error e =>
      obtain ⟨rfl, rfl⟩ := hf
      exact .inl ⟨e, rfl, hp⟩
  · rintro (⟨e, rfl, hp⟩ | ⟨a, s₁, hp, hf⟩)
    · exact ⟨.error e, s', hp, rfl, rfl⟩
    · exact ⟨.ok a, s₁, hp, hf⟩

theorem Flow.ends_bind_ok {exec : σ → (op : S.Op) → S.Ans op → σ → Prop} {p : Flow S ρ α}
    {f : α → Flow S ρ β} {s s' : σ} {b : β} :
    (p >>= f).prog.Ends exec s (.ok b) s' ↔
      ∃ a s₁, p.prog.Ends exec s (.ok a) s₁ ∧ (f a).prog.Ends exec s₁ (.ok b) s' := by
  rw [Flow.ends_bind]
  exact or_iff_right fun ⟨_, h, _⟩ => nomatch h

/-- A program that does not return early, and what follows it. -/
theorem Flow.ends_lift_bind {exec : σ → (op : S.Op) → S.Ans op → σ → Prop} {p : Prog S α}
    {f : α → Flow S ρ β} {s s' : σ} {x : Except ρ β} :
    ((liftM p : Flow S ρ α) >>= f).prog.Ends exec s x s' ↔
      ∃ a s₁, p.Ends exec s a s₁ ∧ (f a).prog.Ends exec s₁ x s' := by
  rw [Flow.ends_bind]
  constructor
  · rintro (⟨e, -, hlift⟩ | ⟨a, s₁, hlift, h⟩)
    · obtain ⟨a, s₁, -, ha, -⟩ := Prog.ends_bind.mp hlift
      cases ha
    · obtain ⟨a', s₂, hp, ha, rfl⟩ := Prog.ends_bind.mp hlift
      cases ha
      exact ⟨a, s₁, hp, h⟩
  · rintro ⟨a, s₁, hp, h⟩
    exact .inr ⟨a, s₁, Prog.ends_bind.mpr ⟨a, s₁, hp, rfl, rfl⟩, h⟩

/-! ## Traces as states

Taking the calls made so far as the state, with arbitrary answers and nobody else acting,
`Safe` speaks about the traces of `Interaction/Program.lean`. -/

/-- Every answer is possible and every call is recorded; `P` is owed of each extended
record. -/
def traceWorld (S : Sig) (P : List (Event S) → Prop) : World S (List (Event S)) where
  exec h op r h' := h' = h ++ [⟨op, r⟩]
  rely h h' := h' = h
  guar _ _ _ h' := P h'
  rely_refl _ := rfl
  rely_trans h h' := h'.trans h

variable {P : List (Event S) → Prop} {Q : α → List (Event S) → Prop}

theorem safe_trace_call {op : S.Op} {k : S.Ans op → Prog S α}
    (hk : ∀ r, P (h ++ [⟨op, r⟩]) ∧ Safe (traceWorld S P) (k r) Q (h ++ [⟨op, r⟩])) :
    Safe (traceWorld S P) (.call op k) Q h := by
  rintro s₁ rfl r s₂ rfl
  exact hk r

/-- The record grows by a complete run of the program. -/
theorem Safe.runs (hs : Safe (traceWorld S P) p Q h) :
    Safe (traceWorld S P) p (fun a h' => Q a h' ∧ ∃ t, h' = h ++ t ∧ p.Runs t a) h := by
  induction p generalizing h with
  | pure a => exact ⟨hs, [], (List.append_nil h).symm, .nil _⟩
  | call op k ih =>
    refine safe_trace_call fun r => ?_
    obtain ⟨hP, hk⟩ := hs h rfl r _ rfl
    refine ⟨hP, (ih r hk).mono ?_⟩
    rintro a h' ⟨hQ, t, rfl, ht⟩
    exact ⟨hQ, ⟨op, r⟩ :: t, by simp, .cons ht⟩

/-- `stays_bind` with what is known of the record. -/
theorem Safe.stays_trace_bind {p : Flow S ρ α} {f : α → Flow S ρ β} {R : β → List (Event S) → Prop}
    (hp : Safe (traceWorld S P) p.prog (Stays Q) h)
    (hf : ∀ a t, p.prog.Runs t (.ok a) → Q a (h ++ t) →
      Safe (traceWorld S P) (f a).prog (Stays R) (h ++ t)) :
    Safe (traceWorld S P) (p >>= f).prog (Stays R) h := by
  refine flow_bind (hp.runs.mono ?_)
  rintro x h' ⟨hQ, t, rfl, ht⟩
  cases x with
  | ok a => exact hf a t ht hQ
  | error e => trivial

/-- What is owed of every record holds of every trace, and of every part of it from the
beginning. -/
theorem Safe.trace {q : Prog S α} {t : List (Event S)} (hs : Safe (traceWorld S P) p Q h) (hP : P h)
    (ht : Steps p t q) : P (h ++ t) ∧ Safe (traceWorld S P) q Q (h ++ t) := by
  induction ht generalizing h with
  | nil p => rw [List.append_nil]; exact ⟨hP, hs⟩
  | @cons op k r t q _ ih =>
    obtain ⟨hP', hs'⟩ := hs h rfl r _ rfl
    have := ih hs' hP'
    rwa [List.append_assoc] at this

end LlmOperator.Interaction
