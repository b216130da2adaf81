import LlmOperator.Cache.Operation

/-!
# Decided runs

Surroundings in which every answer is decided: no file operation fails, and what is asked of others
is a function of the tree. A program then has a run that can be computed.
-/

namespace LlmOperator.Cache

open Api Data FileSystem Interaction

variable {B : Type}

/-- What the others answer. -/
structure Script (B : Type) where
  usage : FileTree B → Except Err (Int × Int)
  modTime : Path → Option Int
  inventory : String → String → Except Err (Option Inventory)
  download : String → String → Path → List String → FileTree B → Except String Unit × FileTree B

namespace Script

variable (S : Script B)

def outside : Outside B where
  chances := .sound B
  usage t a := a = S.usage t
  inventory repoID revision t a t' := a = S.inventory repoID revision ∧ t' = t
  download repoID revision dir files t a t' := (a, t') = S.download repoID revision dir files t
  usage_total _ := ⟨_, rfl⟩
  inventory_total _ _ _ := ⟨_, _, rfl, rfl⟩
  download_total _ _ _ _ _ := ⟨_, _, rfl⟩

def answer (s : ManagerState B) : (op : (Manager B).Op) → (Manager B).Ans op × ManagerState B
  | .inl c => ((s.tree.apply c).1, ⟨(s.tree.apply c).2, s.calls⟩)
  | .inr .usage => (S.usage s.tree, ⟨s.tree, s.calls ++ [.usage]⟩)
  | .inr (.arrange names) => (names, ⟨s.tree, s.calls ++ [.arrange names]⟩)
  | .inr (.modTime p) => (S.modTime p, ⟨s.tree, s.calls ++ [.modTime p]⟩)
  | .inr (.inventory repoID revision) =>
    (S.inventory repoID revision, ⟨s.tree, s.calls ++ [.inventory repoID revision]⟩)
  | .inr (.download repoID revision dir files) =>
    ((S.download repoID revision dir files s.tree).1,
      ⟨(S.download repoID revision dir files s.tree).2,
        s.calls ++ [.download repoID revision dir files]⟩)
  | .inr (.touch p) => ((), ⟨s.tree, s.calls ++ [.touch p]⟩)
  | .inr (.archive r) => ((), ⟨s.tree, s.calls ++ [.archive r]⟩)
  | .inr (.info message attrs) => ((), ⟨s.tree, s.calls ++ [.info message attrs]⟩)

theorem exec_answer (s : ManagerState B) (op : (Manager B).Op) :
    ManagerState.Exec S.outside s op (S.answer s op).1 (S.answer s op).2 := by
  match op with
  | .inl c => exact ⟨s.tree.exec_apply _ c, rfl⟩
  | .inr .usage => exact ⟨⟨rfl, rfl⟩, rfl⟩
  | .inr (.arrange names) => exact ⟨⟨.refl names, rfl⟩, rfl⟩
  | .inr (.modTime p) => exact ⟨rfl, rfl⟩
  | .inr (.inventory repoID revision) => exact ⟨⟨rfl, rfl⟩, rfl⟩
  | .inr (.download repoID revision dir files) => exact ⟨rfl, rfl⟩
  | .inr (.touch p) => exact ⟨rfl, rfl⟩
  | .inr (.archive r) => exact ⟨rfl, rfl⟩
  | .inr (.info message attrs) => exact ⟨rfl, rfl⟩

end Script

end LlmOperator.Cache
