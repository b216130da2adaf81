import LlmOperator.FileSystem.Path
import LlmOperator.Data.MergePatch
import Mathlib.Data.List.Dedup
import Mathlib.Data.List.Infix
import Mathlib.Logic.Function.Basic

/-!
# File trees

A tree assigns to each path a directory, a regular file with its bytes or a symbolic link with its
text, or nothing. That every entry lies in a directory is part of the structure, and so is a list
in which every path of the tree occurs, from which directories are listed.

Symbolic links stand for files: a path that leads through a link in the middle is not followed and
ends in `ENOTDIR`, where the system would follow it. A link at the end of a path is followed by
`resolve`, at most forty times.
-/

namespace LlmOperator.FileSystem

open Data Data.GoString

inductive Node (B : Type) where
  | dir
  | file (bytes : B)
  | link (target : String)
  deriving DecidableEq

inductive Errno where
  | enoent
  | eexist
  | enotdir
  | eisdir
  | enotempty
  | eloop
  | einval
  | ebusy
  | eio
  deriving DecidableEq

structure FileTree (B : Type) where
  node : Path → Option (Node B)
  paths : List Path
  listed : ∀ p, node p ≠ none → p ∈ paths
  root : node [] = some .dir
  parent : ∀ p n, node (p ++ [n]) ≠ none → node p = some .dir
  proper : ∀ p, node p ≠ none → Proper p

namespace FileTree

variable {B : Type} (t : FileTree B) {p q : Path} {x : Node B}

/-! ## Ancestors -/

/-- What lies above something is a directory. -/
theorem dir_of_below (h : t.node (p ++ q) ≠ none) (hq : q ≠ []) : t.node p = some .dir := by
  induction q using List.reverseRecOn with
  | nil => exact absurd rfl hq
  | append_singleton q n ih =>
    rw [← List.append_assoc] at h
    have hdir := t.parent _ _ h
    by_cases hq' : q = []
    · subst hq'
      rwa [List.append_nil] at hdir
    · exact ih (by rw [hdir]; exact Option.some_ne_none _) hq'

theorem dir_above (h : t.node q ≠ none) (hp : p <+: q) (hne : p ≠ q) : t.node p = some .dir := by
  obtain ⟨r, rfl⟩ := hp
  refine t.dir_of_below h ?_
  rintro rfl
  exact hne (List.append_nil p).symm

/-- Below what is not a directory there is nothing. -/
theorem below_none (h : t.node p ≠ some .dir) (hq : q ≠ []) : t.node (p ++ q) = none := by
  by_contra hne
  exact h (t.dir_of_below hne hq)

theorem absent_below (h : t.node p = none) : t.node (p ++ q) = none := by
  by_cases hq : q = []
  · rwa [hq, List.append_nil]
  · exact t.below_none (by rw [h]; exact fun h' => nomatch h') hq

/-! ## Listing -/

def isDirAt (p : Path) : Bool :=
  match t.node p with
  | some .dir => true
  | _ => false

theorem isDirAt_iff : t.isDirAt p = true ↔ t.node p = some .dir := by
  unfold isDirAt
  split <;> simp_all

/-- The name of an entry of the directory `p`, if `q` is one. -/
def entryName (p q : Path) : Option String := if q.dropLast = p then q.getLast? else none

/-- The names in a directory, in the order of `os.ReadDir`. -/
def names (p : Path) : List String :=
  ((t.paths.filterMap (entryName p)).filter fun n => (t.node (p ++ [n])).isSome).dedup.insertionSort
    FMap.KeyLE

theorem mem_names {n : String} : n ∈ t.names p ↔ t.node (p ++ [n]) ≠ none := by
  unfold names
  rw [List.mem_insertionSort, List.mem_dedup, List.mem_filter, List.mem_filterMap,
    Option.isSome_iff_ne_none]
  refine ⟨And.right, fun h => ⟨⟨p ++ [n], t.listed _ h, ?_⟩, h⟩⟩
  simp [entryName]

theorem nodup_names (p : Path) : (t.names p).Nodup := by
  unfold names
  exact (List.perm_insertionSort FMap.KeyLE _).nodup_iff.mpr (List.nodup_dedup _)

theorem names_eq_nil : t.names p = [] ↔ ∀ n, t.node (p ++ [n]) = none := by
  rw [List.eq_nil_iff_forall_not_mem]
  simp only [mem_names, not_not]

/-! ## Changes -/

/-- A place for a file, a link or a new directory. -/
def CanSet (p : Path) : Prop :=
  p ≠ [] ∧ t.isDirAt p.dropLast = true ∧ t.isDirAt p = false ∧ Proper p

instance (p : Path) : Decidable (t.CanSet p) := by unfold CanSet; infer_instance

/-- Put something at a place. -/
def set (p : Path) (x : Node B) (h : t.CanSet p) : FileTree B where
  node := Function.update t.node p (some x)
  paths := p :: t.paths
  listed q hq := by
    by_cases hp : q = p
    · exact hp ▸ List.mem_cons_self
    · rw [Function.update_of_ne hp] at hq
      exact List.mem_cons_of_mem p (t.listed q hq)
  root := by rw [Function.update_of_ne h.1.symm]; exact t.root
  parent q n hq := by
    have hdir := t.isDirAt_iff.mp h.2.1
    have hself : t.node p ≠ some .dir := fun h' => by
      rw [← t.isDirAt_iff, h.2.2.1] at h'
      cases h'
    by_cases hp : q ++ [n] = p
    · subst hp
      rw [List.dropLast_concat] at hdir
      rwa [Function.update_of_ne fun h' => by simpa using congrArg List.length h']
    · rw [Function.update_of_ne hp] at hq
      have hparent := t.parent q n hq
      rw [Function.update_of_ne]
      · exact hparent
      · rintro rfl
        exact hself hparent
  proper q hq := by
    by_cases hp : q = p
    · exact hp ▸ h.2.2.2
    · rw [Function.update_of_ne hp] at hq
      exact t.proper q hq

/-- Something that can be taken away by itself. -/
def CanUnset (p : Path) : Prop := p ≠ [] ∧ t.names p = []

instance (p : Path) : Decidable (t.CanUnset p) := by unfold CanUnset; infer_instance

def unset (p : Path) (h : t.CanUnset p) : FileTree B where
  node := Function.update t.node p none
  paths := t.paths
  listed q hq := by
    refine t.listed q fun hn => hq ?_
    by_cases hp : q = p
    · rw [hp, Function.update_self]
    · rwa [Function.update_of_ne hp]
  root := by rw [Function.update_of_ne h.1.symm]; exact t.root
  parent q n hq := by
    have hn : q ++ [n] ≠ p := by
      rintro hp
      rw [hp, Function.update_self] at hq
      exact hq rfl
    rw [Function.update_of_ne hn] at hq
    rw [Function.update_of_ne]
    · exact t.parent q n hq
    · rintro rfl
      exact hq (t.names_eq_nil.mp h.2 n)
  proper q hq := by
    refine t.proper q fun hn => hq ?_
    by_cases hp : q = p
    · rw [hp, Function.update_self]
    · rwa [Function.update_of_ne hp]

/-- Whether `src` can be moved to `dst`: they do not lie in each other, and nothing is at `dst`, or
something without entries. -/
def CanMove (src dst : Path) : Prop :=
  dst ≠ [] ∧ t.isDirAt dst.dropLast = true ∧ Proper dst ∧ t.names dst = [] ∧ ¬ src <+: dst ∧
    ¬ dst <+: src

instance (src dst : Path) : Decidable (t.CanMove src dst) := by unfold CanMove; infer_instance

/-- The node at `q` after a move. -/
def moved (src dst q : Path) : Option (Node B) :=
  if dst <+: q then t.node (src ++ q.drop dst.length) else if src <+: q then none else t.node q

theorem moved_below (src dst q : Path) : t.moved src dst (dst ++ q) = t.node (src ++ q) := by
  unfold moved
  rw [if_pos (List.prefix_append dst q), List.drop_left]

theorem moved_other {src dst : Path} (h : ¬ dst <+: q) (h' : ¬ src <+: q) :
    t.moved src dst q = t.node q := by
  unfold moved
  rw [if_neg h, if_neg h']

theorem moved_source {src dst : Path} (h : ¬ dst <+: src ++ q) :
    t.moved src dst (src ++ q) = none := by
  unfold moved
  rw [if_neg h, if_pos (List.prefix_append src q)]

/-- Move what is at `src`, with everything below it, to `dst`. -/
def move (src dst : Path) (h : t.CanMove src dst) : FileTree B where
  node := t.moved src dst
  paths := (t.paths.filter fun q => src <+: q).map (fun q => dst ++ q.drop src.length) ++ t.paths
  listed q hq := by
    unfold moved at hq
    split at hq
    · rename_i hd
      obtain ⟨r, rfl⟩ := hd
      rw [List.drop_left] at hq
      refine List.mem_append_left _ (List.mem_map.mpr ⟨src ++ r, ?_, by rw [List.drop_left]⟩)
      exact List.mem_filter.mpr ⟨t.listed _ hq, by simp⟩
    · split at hq
      · exact absurd rfl hq
      · exact List.mem_append_right _ (t.listed q hq)
  root := by
    rw [t.moved_other]
    · exact t.root
    · exact fun hd => h.1 (List.prefix_nil.mp hd)
    · intro hs
      rw [List.prefix_nil.mp hs] at h
      exact h.2.2.2.2.1 List.nil_prefix
  parent q n hq := by
    have hup : ∀ {a : Path}, a <+: q ++ [n] → a <+: q ∨ a = q ++ [n] := by
      intro a ha
      rcases List.prefix_concat_iff.mp ha with h | h
      · exact .inr h
      · exact .inl h
    by_cases hd : dst <+: q
    · obtain ⟨r, rfl⟩ := hd
      rw [List.append_assoc, t.moved_below] at hq
      rw [t.moved_below]
      rw [← List.append_assoc] at hq
      exact t.parent _ n hq
    · by_cases hdn : dst = q ++ [n]
      · -- The new entry itself: its directory is there and is not moved.
        subst hdn
        rw [t.moved_other hd]
        · have := h.2.1
          rw [List.dropLast_concat] at this
          exact t.isDirAt_iff.mp this
        · exact fun hs => h.2.2.2.2.1 (hs.trans (List.prefix_append q [n]))
      · have hdq : ¬ dst <+: q ++ [n] := fun hd' => (hup hd').elim hd hdn
        by_cases hs : src <+: q ++ [n]
        · obtain ⟨r, hr⟩ := hs
          rw [← hr, t.moved_source (hr ▸ hdq)] at hq
          exact absurd rfl hq
        · rw [t.moved_other hdq hs] at hq
          rw [t.moved_other hd fun hs' => hs (hs'.trans (List.prefix_append q [n]))]
          exact t.parent q n hq
  proper q hq := by
    unfold moved at hq
    split at hq
    · rename_i hd
      obtain ⟨r, rfl⟩ := hd
      rw [List.drop_left] at hq
      exact h.2.2.1.append (t.proper _ hq).right
    · split at hq
      · exact absurd rfl hq
      · exact t.proper q hq

@[simp] theorem set_node (p : Path) (x : Node B) (h : t.CanSet p) (q : Path) :
    (t.set p x h).node q = if q = p then some x else t.node q := by
  show Function.update t.node p (some x) q = _
  rw [Function.update_apply]

@[simp] theorem unset_node (p : Path) (h : t.CanUnset p) (q : Path) :
    (t.unset p h).node q = if q = p then none else t.node q := by
  show Function.update t.node p none q = _
  rw [Function.update_apply]

@[simp] theorem move_node (src dst : Path) (h : t.CanMove src dst) (q : Path) :
    (t.move src dst h).node q = t.moved src dst q := rfl

/-! ## Finding -/

/-- Whether something on the way to `p` is not a directory. -/
def blocked (p : Path) : Bool :=
  p.inits.any fun q => (t.node q).isSome && !t.isDirAt q

/-- The error of a path at which there is nothing. -/
def missing (p : Path) : Errno := if t.blocked p then .enotdir else .enoent

/-- What is at a path, without following a link. -/
def find (p : Path) : Except Errno (Node B) :=
  match t.node p with
  | some x => .ok x
  | none => .error (t.missing p)

theorem find_ok : t.find p = .ok x ↔ t.node p = some x := by
  unfold find
  cases t.node p with
  | none => exact ⟨(nomatch ·), (nomatch ·)⟩
  | some y => exact ⟨fun h => by cases h; rfl, fun h => by cases h; rfl⟩

theorem find_error {e : Errno} (h : t.find p = .error e) : t.node p = none ∧ e = t.missing p := by
  unfold find at h
  cases hp : t.node p with
  | none => rw [hp] at h; cases h; exact ⟨rfl, rfl⟩
  | some y => rw [hp] at h; cases h

/-- Where the text of a link leads from the directory it is in. -/
def follow (dir : Path) (target : String) : Path :=
  join (if hasPrefix target "/" then [] else dir) (elements target)

/-- The path a link at the end of `p` stands for, with the links that may still be followed. -/
def resolveIn : Nat → Path → Except Errno (Path × Node B)
  | 0, _ => .error .eloop
  | n + 1, p =>
    match t.find p with
    | .error e => .error e
    | .ok (.link target) => resolveIn n (follow p.dropLast target)
    | .ok x => .ok (p, x)

def resolve (p : Path) : Except Errno (Path × Node B) := t.resolveIn 41 p

theorem resolve_of_node (h : t.node p = some x) (hx : ∀ target, x ≠ .link target) :
    t.resolve p = .ok (p, x) := by
  unfold resolve resolveIn find
  rw [h]
  cases x with
  | dir => rfl
  | file b => rfl
  | link target => exact absurd rfl (hx target)

/-- A path leads to what is where it leads. -/
theorem node_of_resolve (h : t.resolve p = .ok (q, x)) : t.node q = some x := by
  have hin : ∀ n p, t.resolveIn n p = .ok (q, x) → t.node q = some x := by
    intro n
    induction n with
    | zero => intro p h; cases h
    | succ n ih =>
      intro p h
      rw [resolveIn] at h
      split at h
      · cases h
      · exact ih _ h
      · rename_i hfind
        cases h
        exact t.find_ok.mp hfind
  exact hin 41 p h

/-- Two trees with the same nodes resolve alike. -/
theorem resolveIn_congr {t t' : FileTree B} {n : Nat} (h : ∀ q, t'.node q = t.node q) :
    t'.resolveIn n p = t.resolveIn n p := by
  have hdir : ∀ q, t'.isDirAt q = t.isDirAt q := fun q => by unfold isDirAt; rw [h q]
  have hfind : ∀ q, t'.find q = t.find q := by
    intro q
    unfold find missing blocked
    simp only [h, hdir]
  induction n generalizing p with
  | zero => rfl
  | succ n ih =>
    rw [resolveIn, resolveIn, hfind]
    split
    · rfl
    · exact ih
    · rfl

/-! ## Trees given by their entries -/

section Entries

variable {entries : List (Path × Node B)}

/-- The entry for `p`; the root is a directory. -/
def entryAt (entries : List (Path × Node B)) (p : Path) : Option (Node B) :=
  if p = [] then some .dir else (entries.find? fun e => e.1 == p).map Prod.snd

def isDirEntry : Option (Node B) → Bool
  | some .dir => true
  | _ => false

/-- Every entry lies in a directory. -/
def Nested (entries : List (Path × Node B)) : Prop :=
  ∀ e ∈ entries, Proper e.1 ∧ isDirEntry (entryAt entries e.1.dropLast) = true

instance (entries : List (Path × Node B)) : Decidable (Nested entries) := by
  unfold Nested; infer_instance

theorem entryAt_cases (h : entryAt entries p = some x) :
    (p = [] ∧ x = .dir) ∨ (p, x) ∈ entries := by
  unfold entryAt at h
  split at h
  · exact .inl ⟨‹_›, (Option.some.inj h).symm⟩
  · obtain ⟨e, he, rfl⟩ := Option.map_eq_some_iff.mp h
    obtain rfl : e.1 = p := by simpa using List.find?_some he
    exact .inr (List.mem_of_find?_eq_some he)

theorem isDirEntry_iff {x : Option (Node B)} : isDirEntry x = true ↔ x = some .dir := by
  rcases x with _ | (_ | b | target)
  · exact ⟨nofun, nofun⟩
  · exact ⟨fun _ => rfl, fun _ => rfl⟩
  · exact ⟨nofun, nofun⟩
  · exact ⟨nofun, nofun⟩

/-- The tree with these entries. -/
def ofEntries (entries : List (Path × Node B)) (h : Nested entries) : FileTree B where
  node := entryAt entries
  paths := [] :: entries.map Prod.fst
  listed p hp := by
    obtain ⟨x, hx⟩ := Option.ne_none_iff_exists'.mp hp
    rcases entryAt_cases hx with ⟨rfl, _⟩ | hmem
    · exact List.mem_cons_self
    · exact List.mem_cons_of_mem _ (List.mem_map.mpr ⟨_, hmem, rfl⟩)
  root := rfl
  parent p n hp := by
    obtain ⟨x, hx⟩ := Option.ne_none_iff_exists'.mp hp
    rcases entryAt_cases hx with ⟨hnil, _⟩ | hmem
    · simp at hnil
    · have hdir := isDirEntry_iff.mp (h _ hmem).2
      rwa [List.dropLast_concat] at hdir
  proper p hp := by
    obtain ⟨x, hx⟩ := Option.ne_none_iff_exists'.mp hp
    rcases entryAt_cases hx with ⟨rfl, _⟩ | hmem
    · exact fun _ hn => absurd hn List.not_mem_nil
    · exact (h _ hmem).1

theorem ofEntries_cases {h : Nested entries} (hx : (ofEntries entries h).node p = some x) :
    (p = [] ∧ x = .dir) ∨ (p, x) ∈ entries :=
  entryAt_cases hx

end Entries

end FileTree

end LlmOperator.FileSystem
