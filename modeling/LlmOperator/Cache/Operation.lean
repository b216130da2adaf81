import LlmOperator.Cache.Manager

/-!
# Reasoning about the cache manager

The state of the cache manager is the tree of its two roots, with the calls it has made besides file
operations. As for file operations, a program is verified in a world given by the paths `X` that
nobody else changes, by what the others may answer, and by what the program may do: the footprint
of its changes and the calls it may make.
-/

namespace LlmOperator.Cache

open Api Data FileSystem Interaction Safe

variable {B : Type}

/-! ## Worlds -/

@[ext]
structure ManagerState (B : Type) where
  tree : FileTree B
  calls : List ManagerCall

/-- What is not up to the manager: the chances of file operations, the use of the volume, and what
the commands for inventories and downloads answer and do. The texts of a request are part of both
commands, so that either may change the tree in any way. -/
structure Outside (B : Type) where
  chances : Chances B
  usage : FileTree B → Except Err (Int × Int) → Prop
  inventory : String → String → FileTree B → Except Err (Option Inventory) → FileTree B → Prop
  download : String → String → Path → List String → FileTree B → Except String Unit →
    FileTree B → Prop
  usage_total : ∀ t, ∃ a, usage t a
  inventory_total : ∀ repoID revision t, ∃ a t', inventory repoID revision t a t'
  download_total : ∀ repoID revision dir files t, ∃ a t', download repoID revision dir files t a t'

namespace Outside

/-- What a call besides file operations may answer and do. -/
def Answers (O : Outside B) (t : FileTree B) : (c : ManagerCall) → c.Answer → FileTree B → Prop
  | .usage, a, t' => O.usage t a ∧ t' = t
  | .arrange names, a, t' => List.Perm a names ∧ t' = t
  | .modTime _, _, t' => t' = t
  | .inventory repoID revision, a, t' => O.inventory repoID revision t a t'
  | .download repoID revision dir files, a, t' => O.download repoID revision dir files t a t'
  | .touch _, _, t' | .archive _, _, t' | .info .., _, t' => t' = t

theorem answers_total (O : Outside B) (t : FileTree B) (c : ManagerCall) :
    ∃ a t', O.Answers t c a t' := by
  cases c with
  | usage => exact (O.usage_total t).imp fun _ h => ⟨t, h, rfl⟩
  | arrange names => exact ⟨names, t, .refl names, rfl⟩
  | modTime p => exact ⟨none, t, rfl⟩
  | inventory repoID revision => exact O.inventory_total repoID revision t
  | download repoID revision dir files => exact O.download_total repoID revision dir files t
  | touch p => exact ⟨(), t, rfl⟩
  | archive r => exact ⟨(), t, rfl⟩
  | info message attrs => exact ⟨(), t, rfl⟩

end Outside

namespace ManagerState

/-- What a call may answer and do. -/
def Exec (O : Outside B) (s : ManagerState B) :
    (op : (Manager B).Op) → (Manager B).Ans op → ManagerState B → Prop
  | .inl c, a, s' => s.tree.Exec O.chances c a s'.tree ∧ s'.calls = s.calls
  | .inr c, a, s' => O.Answers s.tree c a s'.tree ∧ s'.calls = s.calls ++ [c]

/-- Every call is answered. -/
theorem exec_total (O : Outside B) (s : ManagerState B) (op : (Manager B).Op) :
    ∃ a s', Exec O s op a s' := by
  match op with
  | .inl c =>
    obtain ⟨a, t, h⟩ := s.tree.exec_total O.chances c
    exact ⟨a, ⟨t, s.calls⟩, h, rfl⟩
  | .inr c =>
    obtain ⟨a, t, h⟩ := O.answers_total s.tree c
    exact ⟨a, ⟨t, s.calls ++ [c]⟩, h, rfl⟩

end ManagerState

open ManagerState

/-! ## Executions -/

/-- A program on files, as part of the manager. -/
theorem ends_inl {α : Type} {O : Outside B} {p : Prog (Fs B) α} {s s' : ManagerState B} {a : α} :
    (p.inl ManagerSig).Ends (Exec O) s a s' ↔
      p.Ends (fun t => t.Exec O.chances) s.tree a s'.tree ∧ s'.calls = s.calls := by
  induction p generalizing s with
  | pure b =>
    constructor
    · rintro ⟨rfl, rfl⟩
      exact ⟨⟨rfl, rfl⟩, rfl⟩
    · rintro ⟨⟨rfl, htree⟩, hcalls⟩
      obtain ⟨t, calls⟩ := s'
      exact ⟨rfl, by cases htree; cases hcalls; rfl⟩
  | call op k ih =>
    constructor
    · rintro ⟨r, s₁, ⟨hexec, hcalls⟩, hk⟩
      obtain ⟨hends, hrest⟩ := (ih r).mp hk
      exact ⟨⟨r, s₁.tree, hexec, hends⟩, hrest.trans hcalls⟩
    · rintro ⟨⟨r, t₁, hexec, hends⟩, hcalls⟩
      exact ⟨r, ⟨t₁, s.calls⟩, ⟨hexec, rfl⟩, (ih r).mpr ⟨hends, hcalls⟩⟩

theorem ends_look {α ρ : Type} {O : Outside B} {p : Prog (Fs B) α} {s s' : ManagerState B}
    {x : Except ρ α} :
    (look p : Flow (Manager B) ρ α).prog.Ends (Exec O) s x s' ↔
      ∃ a, x = .ok a ∧ p.Ends (fun t => t.Exec O.chances) s.tree a s'.tree ∧
        s'.calls = s.calls := by
  unfold look
  rw [Flow.prog_lift, Prog.ends_bind]
  constructor
  · rintro ⟨a, s₁, ha, rfl, rfl⟩
    exact ⟨a, rfl, ends_inl.mp ha⟩
  · rintro ⟨a, rfl, ha⟩
    exact ⟨a, s', ends_inl.mpr ha, rfl, rfl⟩

theorem ends_onFiles {ρ α : Type} {O : Outside B} {p : Flow (Fs B) ρ α} {s s' : ManagerState B}
    {x : Except ρ α} :
    (onFiles p).prog.Ends (Exec O) s x s' ↔
      p.prog.Ends (fun t => t.Exec O.chances) s.tree x s'.tree ∧ s'.calls = s.calls :=
  ends_inl

/-- Asking for the use of the volume leaves the tree as it is. -/
theorem ends_cacheUsage {O : Outside B} {s s' : ManagerState B} {x : Except Err (Int × Int)}
    (h : cacheUsage.prog.Ends (Exec O) s x s') : s'.tree = s.tree := by
  obtain ⟨a, s₁, ⟨⟨-, htree⟩, -⟩, h⟩ := h
  have hs' : s' = s₁ := by cases a <;> exact h.2
  rw [hs', htree]

end LlmOperator.Cache
