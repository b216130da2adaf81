import Mathlib.Data.Finmap
import Mathlib.Data.List.Sort
import Mathlib.Data.List.Lex
import Mathlib.Data.Char

/-!
# Finite maps and merge patches

A merge patch describes how one document differs from another: objects are compared key
by key, everything else (scalars, and arrays as a whole) is replaced when it differs. The
patch is then applied to a third document, which is not the one it was computed from
when somebody else has written in between.

`applyLeaf_diffLeaf` and `lookup_applyMap_diffMap` say what comes out: a leaf or key that
was the same in both documents keeps the value of the third one, and any other takes the
value of the new document. A map that is left out of the document when it is empty is deleted as a
whole when it becomes empty, with whatever the third document has in it
(`lookup_applyObject_diffObject`).
-/

namespace LlmOperator.Data

/-- Finite maps with values of one type. -/
abbrev FMap (κ ν : Type) : Type := Finmap fun _ : κ => ν

variable {κ ν α : Type} [DecidableEq κ]

namespace FMap

/-- The map with the values of `f` at the keys in `s`. -/
def ofKeys (s : Finset κ) (f : κ → Option ν) : FMap κ ν :=
  Finmap.keysLookupEquiv.symm
    ⟨(s.filter fun k => (f k).isSome, fun k => if k ∈ s then f k else none), by
      intro k
      by_cases h : k ∈ s <;> simp [h]⟩

@[simp] theorem lookup_ofKeys (s : Finset κ) (f : κ → Option ν) (k : κ) :
    (ofKeys s f).lookup k = if k ∈ s then f k else none := by
  simp [ofKeys]

theorem lookup_ofKeys_of_eq_none {s : Finset κ} {f : κ → Option ν}
    (h : ∀ k, k ∉ s → f k = none) (k : κ) : (ofKeys s f).lookup k = f k := by
  rw [lookup_ofKeys]
  split
  · rfl
  · exact (h k ‹_›).symm

/-- The entries of `added` win over those of `m`. -/
theorem lookup_union (added m : FMap κ ν) (k : κ) :
    Finmap.lookup k (added ∪ m) = (added.lookup k).or (m.lookup k) := by
  by_cases h : k ∈ added
  · obtain ⟨v, hv⟩ := Finmap.mem_iff.mp h
    rw [Finmap.lookup_union_left h, hv, Option.some_or]
  · rw [Finmap.lookup_union_right h, Finmap.lookup_eq_none.mpr h, Option.none_or]

/-- `l` holds the values of the map, in the order in which ranging over it visits them. -/
def Ranges (m : FMap κ ν) (l : List ν) : Prop := (l : Multiset ν) = m.entries.map Sigma.snd

theorem Ranges.mem_iff {m : FMap κ ν} {l : List ν} (h : m.Ranges l) (v : ν) :
    v ∈ l ↔ ∃ k, m.lookup k = some v := by
  rw [← Multiset.mem_coe, h, Multiset.mem_map]
  constructor
  · rintro ⟨⟨k, v'⟩, hmem, rfl⟩
    exact ⟨k, Finmap.lookup_eq_some_iff.mpr hmem⟩
  · rintro ⟨k, hk⟩
    exact ⟨⟨k, v⟩, Finmap.lookup_eq_some_iff.mp hk, rfl⟩

/-- Where the keys can be told from the values, no two values visited have the same key. -/
theorem Ranges.nodup_map {m : FMap κ ν} {l : List ν} (h : m.Ranges l) {key : ν → κ}
    (hkey : ∀ k v, m.lookup k = some v → key v = k) : (l.map key).Nodup := by
  have hkeys : ((l.map key : List κ) : Multiset κ) = m.entries.keys := by
    rw [← Multiset.map_coe, h, Multiset.map_map, Multiset.keys]
    refine Multiset.map_congr rfl ?_
    rintro ⟨k, v⟩ hmem
    exact hkey k v (Finmap.lookup_eq_some_iff.mpr hmem)
  rw [← Multiset.coe_nodup, hkeys, Multiset.nodup_keys]
  exact m.nodupKeys

/-! An order in which a map is visited, for maps whose keys are texts. It is given by a sort that
can be evaluated on literals. -/

/-- The order of texts by their characters. -/
def KeyLE (a b : String) : Prop := a.toList ≤ b.toList

instance : DecidableRel KeyLE := fun a b => inferInstanceAs (Decidable (a.toList ≤ b.toList))

instance : Std.Total KeyLE := ⟨fun a b => le_total a.toList b.toList⟩

instance : IsTrans String KeyLE := ⟨fun _ _ _ h h' => le_trans (α := List Char) h h'⟩

theorem insertionSort_perm {l l' : List String} (h : l.Perm l') :
    l.insertionSort KeyLE = l'.insertionSort KeyLE := by
  refine List.Perm.eq_of_pairwise (fun a b _ _ hab hba => ?_)
    (List.pairwise_insertionSort KeyLE l) (List.pairwise_insertionSort KeyLE l') ?_
  · exact String.toList_injective (le_antisymm hab hba)
  · exact (List.perm_insertionSort KeyLE l).trans (h.trans (List.perm_insertionSort KeyLE l').symm)

def sortedKeys (m : FMap String ν) : List String :=
  Quot.liftOn m.keys.val (List.insertionSort KeyLE) fun _ _ => insertionSort_perm

theorem coe_sortedKeys (m : FMap String ν) : (m.sortedKeys : Multiset String) = m.keys.val := by
  unfold sortedKeys
  obtain ⟨l, hl⟩ := Quot.exists_rep m.keys.val
  rw [← hl]
  exact Quot.sound (List.perm_insertionSort KeyLE l)

theorem nodup_sortedKeys (m : FMap String ν) : m.sortedKeys.Nodup := by
  rw [← Multiset.coe_nodup, coe_sortedKeys]
  exact m.keys.nodup

theorem mem_sortedKeys {m : FMap String ν} {k : String} : k ∈ m.sortedKeys ↔ k ∈ m := by
  rw [← Multiset.mem_coe, coe_sortedKeys]
  exact Finmap.mem_keys

/-- The values in the order of their keys. -/
def values (m : FMap String ν) : List ν := m.sortedKeys.filterMap m.lookup

theorem ranges_values (m : FMap String ν) : m.Ranges m.values := by
  have hkeys : m.keys.val = m.entries.map Sigma.fst := rfl
  rw [Ranges, values, ← Multiset.filterMap_coe, coe_sortedKeys, hkeys, Multiset.filterMap_map]
  obtain ⟨l, hl⟩ := Quot.exists_rep m.entries
  have hlookup : ∀ e ∈ l, m.lookup e.1 = some e.2 := by
    intro e he
    exact Finmap.lookup_eq_some_iff.mpr (hl ▸ he)
  rw [← hl]
  show ((l.filterMap fun e => m.lookup e.1 : List ν) : Multiset ν) = (l.map Sigma.snd : List ν)
  rw [List.filterMap_congr hlookup, ← List.filterMap_eq_map]
  rfl

end FMap

namespace MergePatch

/-! ## Leaves -/

/-- The patch of a scalar or an array: nothing, or the whole new value. -/
def diffLeaf [DecidableEq α] (old new : α) : Option α := if old = new then none else some new

def applyLeaf (patch : Option α) (target : α) : α := patch.getD target

theorem applyLeaf_diffLeaf [DecidableEq α] (old new target : α) :
    applyLeaf (diffLeaf old new) target = if old = new then target else new := by
  unfold applyLeaf diffLeaf
  split <;> rfl

@[simp] theorem applyLeaf_diffLeaf_self [DecidableEq α] (old new : α) :
    applyLeaf (diffLeaf old new) old = new := by
  rw [applyLeaf_diffLeaf]
  split
  · assumption
  · rfl

/-! ## Objects -/

/-- The patch of an object: the keys that differ, each with its new value or, for a key
that is gone, with a deletion. -/
def diffMap [DecidableEq ν] (old new : FMap κ ν) : FMap κ (Option ν) :=
  FMap.ofKeys (old.keys ∪ new.keys) fun k =>
    if old.lookup k = new.lookup k then none else some (new.lookup k)

def applyMap (patch : FMap κ (Option ν)) (target : FMap κ ν) : FMap κ ν :=
  FMap.ofKeys (patch.keys ∪ target.keys) fun k => (patch.lookup k).getD (target.lookup k)

theorem lookup_eq_none_of_notMem_keys {m : FMap κ ν} {k : κ} (h : k ∉ m.keys) :
    m.lookup k = none :=
  Finmap.lookup_eq_none.mpr fun hk => h (Finmap.mem_keys.mpr hk)

theorem lookup_diffMap [DecidableEq ν] (old new : FMap κ ν) (k : κ) :
    (diffMap old new).lookup k =
      if old.lookup k = new.lookup k then none else some (new.lookup k) := by
  unfold diffMap
  rw [FMap.lookup_ofKeys_of_eq_none]
  intro k hk
  rw [Finset.mem_union, not_or] at hk
  simp [lookup_eq_none_of_notMem_keys hk.1, lookup_eq_none_of_notMem_keys hk.2]

theorem lookup_applyMap (patch : FMap κ (Option ν)) (target : FMap κ ν) (k : κ) :
    (applyMap patch target).lookup k = (patch.lookup k).getD (target.lookup k) := by
  unfold applyMap
  rw [FMap.lookup_ofKeys_of_eq_none]
  intro k hk
  rw [Finset.mem_union, not_or] at hk
  simp [lookup_eq_none_of_notMem_keys hk.1, lookup_eq_none_of_notMem_keys hk.2]

theorem lookup_applyMap_diffMap [DecidableEq ν] (old new target : FMap κ ν) (k : κ) :
    (applyMap (diffMap old new) target).lookup k =
      if old.lookup k = new.lookup k then target.lookup k else new.lookup k := by
  rw [lookup_applyMap, lookup_diffMap]
  split <;> rfl

@[simp] theorem applyMap_diffMap_self [DecidableEq ν] (old new : FMap κ ν) :
    applyMap (diffMap old new) old = new := by
  apply Finmap.ext_lookup
  intro k
  rw [lookup_applyMap_diffMap]
  split
  · assumption
  · rfl

/-! ## Maps that are left out when they are empty -/

/-- The patch of such a map; `none` deletes it as a whole. -/
def diffObject [DecidableEq ν] (old new : FMap κ ν) : Option (FMap κ (Option ν)) :=
  if old ≠ ∅ ∧ new = ∅ then none else some (diffMap old new)

def applyObject (patch : Option (FMap κ (Option ν))) (target : FMap κ ν) : FMap κ ν :=
  match patch with
  | none => ∅
  | some patch => applyMap patch target

theorem lookup_applyObject_diffObject [DecidableEq ν] (old new target : FMap κ ν) (k : κ) :
    (applyObject (diffObject old new) target).lookup k =
      if old ≠ ∅ ∧ new = ∅ then none
      else if old.lookup k = new.lookup k then target.lookup k else new.lookup k := by
  unfold diffObject
  split
  · exact Finmap.lookup_empty k
  · exact lookup_applyMap_diffMap old new target k

@[simp] theorem applyObject_diffObject_self [DecidableEq ν] (old new : FMap κ ν) :
    applyObject (diffObject old new) old = new := by
  unfold diffObject
  split
  · rename_i h
    exact h.2.symm
  · exact applyMap_diffMap_self old new

end MergePatch

end LlmOperator.Data
