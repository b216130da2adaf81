import LlmOperator.Interaction.Program

/-!
# Programs that stop when they are told to

A program may ask, again and again, whether what it does is still wanted. It heeds the answer when
it returns as soon as it hears that it is not. Some of its calls report a failure; a program that
has made one of them is on its way out and does not ask any more, so that a run that is called off
has not reported anything.
-/

namespace LlmOperator.Interaction

/-- How a program is called off: the answers that do it, the calls that can get them, and the
calls that report a failure. -/
structure Signal (S : Sig) where
  stops : Event S → Prop
  checks : S.Op → Prop
  fails : S.Op → Prop
  checks_of_stops : ∀ {e : Event S}, stops e → checks e.1
  not_fails : ∀ {op : S.Op}, checks op → ¬fails op

namespace Prog

variable {S : Sig} {α β : Type} {signal : Signal S} {P : S.Op → Prop}

/-- The calls of the program satisfy `P`. Called off, it returns at once with a result in
`stopped`; after a failure it makes no further check and returns a result in `left`. The results
are in `Q`. -/
def Heeds (signal : Signal S) (P : S.Op → Prop) (stopped left Q : α → Prop) : Prog S α → Prop
  | .pure a => Q a
  | .call op k => P op ∧ ∀ r,
      (signal.stops ⟨op, r⟩ → ∃ a, k r = .pure a ∧ stopped a) ∧
      (signal.fails op → (k r).Yields (fun op => ¬signal.checks op) left) ∧
      (k r).Heeds signal P stopped left Q

section Rules

variable {stopped left Q : α → Prop} {stopped' left' Q' : β → Prop}

theorem Heeds.bind {p : Prog S α} {f : α → Prog S β} (hp : p.Heeds signal P stopped left Q)
    (hstopped : ∀ a, stopped a → ∃ b, f a = .pure b ∧ stopped' b)
    (hleft : ∀ a, left a → (f a).Yields (fun op => ¬signal.checks op) left')
    (hf : ∀ a, Q a → (f a).Heeds signal P stopped' left' Q') :
    (p >>= f).Heeds signal P stopped' left' Q' := by
  induction p with
  | pure a => exact hf a hp
  | call op k ih =>
    refine ⟨hp.1, fun r => ?_⟩
    obtain ⟨hstop, hfail, hrest⟩ := hp.2 r
    refine ⟨fun hs => ?_, fun hs => (hfail hs).bind hleft, ih r hrest⟩
    obtain ⟨a, ha, hsa⟩ := hstop hs
    obtain ⟨b, hb, hsb⟩ := hstopped a hsa
    refine ⟨b, ?_, hsb⟩
    show k r >>= f = _
    rw [ha, pure_bind, hb]

theorem Heeds.mono {Q₁ : α → Prop} {p : Prog S α} (hp : p.Heeds signal P stopped left Q)
    (hQ : ∀ a, Q a → Q₁ a) : p.Heeds signal P stopped left Q₁ := by
  induction p with
  | pure a => exact hQ a hp
  | call op k ih =>
    refine ⟨hp.1, fun r => ?_⟩
    obtain ⟨hstop, hfail, hrest⟩ := hp.2 r
    exact ⟨hstop, hfail, ih r hrest⟩

/-- A program that neither checks nor fails. -/
theorem heeds_of_yields {p : Prog S α}
    (hp : p.Yields (fun op => P op ∧ ¬signal.checks op ∧ ¬signal.fails op) Q) :
    p.Heeds signal P stopped left Q := by
  induction p with
  | pure a => exact hp
  | call op k ih =>
    refine ⟨hp.1.1, fun r => ⟨fun hs => ?_, fun hs => absurd hs hp.1.2.2, ih r (hp.2 r)⟩⟩
    exact absurd (signal.checks_of_stops hs) hp.1.2.1

/-- A program that does not check and returns a result in `left` is free to fail. -/
theorem heeds_of_left {p : Prog S α} (hp : p.Yields (fun op => P op ∧ ¬signal.checks op) left)
    (hQ : ∀ a, left a → Q a) : p.Heeds signal P stopped left Q := by
  induction p with
  | pure a => exact hQ a hp
  | call op k ih =>
    refine ⟨hp.1.1, fun r => ⟨fun hs => ?_, fun _ => ?_, ih r (hp.2 r)⟩⟩
    · exact absurd (signal.checks_of_stops hs) hp.1.2
    · exact (hp.2 r).mono (fun _ h => h.2) fun _ h => h

/-! ## Runs -/

theorem Heeds.yields {p : Prog S α} (hp : p.Heeds signal P stopped left Q) : p.Yields P Q := by
  induction p with
  | pure a => exact hp
  | call op k ih => exact ⟨hp.1, fun r => ih r (hp.2 r).2.2⟩

/-- A run that has reported a failure ends in `left`. -/
theorem Heeds.left_of_fails {p : Prog S α} (hp : p.Heeds signal P stopped left Q)
    {t : List (Event S)} {a : α} (h : p.Runs t a) {e : Event S} (he : e ∈ t)
    (hfail : signal.fails e.1) : left a := by
  induction p generalizing t with
  | pure b =>
    obtain ⟨rfl, -⟩ := runs_pure h
    cases he
  | call op k ih =>
    obtain ⟨r, u, rfl, hu⟩ := runs_call h
    obtain ⟨-, hleft, hrest⟩ := hp.2 r
    rcases List.mem_cons.mp he with rfl | he
    · exact ((hleft hfail).steps hu).2
    · exact ih r hrest hu he

/-- A run that is called off ends there, and has not reported a failure. -/
theorem Heeds.runs {p : Prog S α} (hp : p.Heeds signal P stopped left Q) {u v : List (Event S)}
    {e : Event S} {a : α} (h : p.Runs (u ++ e :: v) a) (hstop : signal.stops e) :
    v = [] ∧ stopped a ∧ ∀ e' ∈ u ++ e :: v, ¬signal.fails e'.1 := by
  induction p generalizing u with
  | pure b => exact absurd (runs_pure h).1 (by simp)
  | call op k ih =>
    obtain ⟨r, t, heq, ht⟩ := runs_call h
    obtain ⟨hstopped, hleft, hrest⟩ := hp.2 r
    cases u with
    | nil =>
      cases heq
      obtain ⟨b, hb, hsb⟩ := hstopped hstop
      rw [hb] at ht
      obtain ⟨rfl, rfl⟩ := runs_pure ht
      refine ⟨rfl, hsb, ?_⟩
      intro e' he'
      rw [List.nil_append, List.mem_singleton] at he'
      rw [he']
      exact signal.not_fails (signal.checks_of_stops hstop)
    | cons e₀ u =>
      cases heq
      obtain ⟨hv, ha, hfails⟩ := ih r hrest ht
      refine ⟨hv, ha, List.forall_mem_cons.mpr ⟨fun hfail => ?_, hfails⟩⟩
      exact ((hleft hfail).steps ht).1 e (by simp) (signal.checks_of_stops hstop)

end Rules

end Prog

/-! ## Bodies -/

namespace Flow

variable {S : Sig} {ρ α β : Type} {signal : Signal S} {P : S.Op → Prop} {stop : ρ}

/-- A body that leaves with `stop` when it is called off, and leaves after a failure. -/
abbrev Heeds (signal : Signal S) (P : S.Op → Prop) (stop : ρ) (Q : α → Prop) (p : Flow S ρ α) :
    Prop :=
  p.prog.Heeds signal P (fun x => x = .error stop) (fun x => ∃ o, x = .error o) (OnOk Q)

theorem heeds_bind {Q : α → Prop} {R : β → Prop} {p : Flow S ρ α} {f : α → Flow S ρ β}
    (hp : p.Heeds signal P stop Q) (hf : ∀ a, Q a → (f a).Heeds signal P stop R) :
    (p >>= f).Heeds signal P stop R := by
  refine Prog.Heeds.bind hp ?_ ?_ ?_
  · rintro _ rfl
    exact ⟨_, rfl, rfl⟩
  · rintro _ ⟨o, rfl⟩
    exact ⟨o, rfl⟩
  · intro x hx
    cases x with
    | ok a => exact hf a hx
    | error o => trivial

theorem heeds_lift {Q : α → Prop} {p : Prog S α}
    (hp : p.Yields (fun op => P op ∧ ¬signal.checks op ∧ ¬signal.fails op) Q) :
    Heeds signal P stop Q (liftM p : Flow S ρ α) :=
  Prog.heeds_of_yields (yields_lift hp)

end Flow

end LlmOperator.Interaction
