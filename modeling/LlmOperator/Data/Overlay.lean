import Mathlib.Data.List.Basic

/-!
# Overlays

Changes of a record, written down as the aspects they set and the values they set them to. An
overlay is applied to a record seen as a function of its aspects; what it does not set stays.

`apply_eq_iff` is what overlays are for: two records become the same under an overlay exactly
when they were the same already in everything it does not set.
-/

namespace LlmOperator.Data

/-- The aspects that are set, with their values; the first entry for an aspect counts. -/
abbrev Overlay (κ ν : Type) : Type := List (κ × ν)

namespace Overlay

variable {κ ν σ : Type} [DecidableEq κ]

/-- The record `l` with the aspects of the overlay set. -/
def apply (o : Overlay κ ν) (l : κ → ν) (k : κ) : ν := (o.lookup k).getD (l k)

/-- The aspects that are set. -/
def keys (o : Overlay κ ν) : List κ := o.map Prod.fst

theorem lookup_eq_none_iff (o : Overlay κ ν) (k : κ) : o.lookup k = none ↔ k ∉ o.keys := by
  induction o with
  | nil => simp [keys]
  | cons e o ih =>
    obtain ⟨k', v⟩ := e
    rw [List.lookup_cons]
    cases hk : k == k' with
    | true => simp [keys, LawfulBEq.eq_of_beq hk]
    | false =>
      have hne : k ≠ k' := by simpa using hk
      rw [ih]
      simp [keys, hne]

/-- One overlay after another: the later one is in front. -/
theorem apply_append (o o' : Overlay κ ν) (l : κ → ν) :
    apply (o ++ o') l = apply o (apply o' l) := by
  funext k
  unfold apply
  rw [List.lookup_append]
  cases o.lookup k <;> rfl

theorem apply_eq_iff (o : Overlay κ ν) (l l' : κ → ν) :
    apply o l = apply o l' ↔ ∀ k, k ∉ o.keys → l k = l' k := by
  constructor
  · intro h k hk
    have hkey := congrFun h k
    rwa [apply, apply, (lookup_eq_none_iff o k).mpr hk] at hkey
  · intro h
    funext k
    unfold apply
    cases hk : o.lookup k with
    | none => exact h k ((lookup_eq_none_iff o k).mp hk)
    | some v => rfl

/-- A change of a state whose record is `view`: it is the overlay, whatever the state. -/
def Describes (view : σ → κ → ν) (f : σ → σ) (o : Overlay κ ν) : Prop :=
  ∀ s, view (f s) = apply o (view s)

variable {view : σ → κ → ν} {f g : σ → σ} {o o' : Overlay κ ν}

/-- A change of something that is not part of the record. -/
theorem describes_nil (h : ∀ s, view (f s) = view s) : Describes view f [] := h

theorem Describes.comp (hg : Describes view g o) (hf : Describes view f o') :
    Describes view (g ∘ f) (o ++ o') := by
  intro s
  rw [apply_append, ← hf s]
  exact hg (f s)

end Overlay

end LlmOperator.Data
