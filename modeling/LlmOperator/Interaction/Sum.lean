import LlmOperator.Interaction.Safety

/-!
# Programs of two kinds in one system

Two signatures side by side, and the programs over either of them as programs over both. A
program that is safe in a world of its own is safe in a world of both that looks like its
own from where it stands.
-/

namespace LlmOperator.Interaction

/-- The calls of both signatures. -/
abbrev Sig.sum (S T : Sig) : Sig := ⟨S.Op ⊕ T.Op, Sum.elim S.Ans T.Ans⟩

variable {S T : Sig} {α σ ρ : Type}

/-- An event of the second kind. -/
def Event.inr (S : Sig) (e : Event T) : Event (S.sum T) := ⟨.inr e.1, e.2⟩

namespace Prog

def inl (T : Sig) : Prog S α → Prog (S.sum T) α
  | .pure a => .pure a
  | .call op k => .call (.inl op) fun r => (k r).inl T

def inr (S : Sig) : Prog T α → Prog (S.sum T) α
  | .pure a => .pure a
  | .call op k => .call (.inr op) fun r => (k r).inr S

/-- A run of a program of the second kind is one among the events of both. -/
theorem runs_inr {p : Prog T α} {t : List (Event (S.sum T))} {a : α} (h : (p.inr S).Runs t a) :
    ∃ u, t = u.map (Event.inr S) ∧ p.Runs u a := by
  induction p generalizing t with
  | pure b =>
    obtain ⟨rfl, rfl⟩ := runs_pure h
    exact ⟨[], rfl, .nil _⟩
  | call op k ih =>
    obtain ⟨r, v, rfl, h'⟩ := runs_call h
    obtain ⟨u, rfl, hu⟩ := ih r h'
    exact ⟨⟨op, r⟩ :: u, rfl, .cons hu⟩

/-- The calls of a program of the first kind. -/
theorem yields_inl {P : (S.sum T).Op → Prop} {Q : α → Prop} {p : Prog S α}
    (h : p.Yields (fun op => P (.inl op)) Q) : (p.inl T).Yields P Q := by
  induction p with
  | pure a => exact h
  | call op k ih => exact ⟨h.1, fun r => ih r (h.2 r)⟩

end Prog

/-- A program of the first kind is safe among both kinds, if what it sees of their states
through `f` is its own world. -/
theorem Safe.inl {W : World (S.sum T) σ} {V : World S ρ} (f : σ → ρ)
    (hrely : ∀ s s', W.rely s s' → V.rely (f s) (f s'))
    (hexec : ∀ s op r s', W.exec s (.inl op) r s' → V.exec (f s) op r (f s'))
    (hguar : ∀ s op r s', V.guar (f s) op r (f s') → W.guar s (.inl op) r s')
    {p : Prog S α} {Q : α → ρ → Prop} {s : σ} (h : Safe V p Q (f s)) :
    Safe W (p.inl T) (fun a s => Q a (f s)) s := by
  induction p generalizing s with
  | pure a => exact h
  | call op k ih =>
    intro s₁ hs₁ r s₂ hr
    obtain ⟨hg, hk⟩ := h (f s₁) (hrely s s₁ hs₁) r (f s₂) (hexec s₁ op r s₂ hr)
    exact ⟨hguar s₁ op r s₂ hg, ih r hk⟩

/-- Where nothing is owed of the calls of the second kind, their programs are safe. -/
theorem safe_inr {W : World (S.sum T) σ} (hguar : ∀ s op r s', W.guar s (.inr op) r s')
    (p : Prog T α) (s : σ) : Safe W (p.inr S) (fun _ _ => True) s := by
  induction p generalizing s with
  | pure a => trivial
  | call op k ih =>
    intro s₁ _ r s₂ _
    exact ⟨hguar s₁ op r s₂, ih r s₂⟩

end LlmOperator.Interaction
