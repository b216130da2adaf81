import LlmOperator.Data.Json
import LlmOperator.Data.JsonScan
import LlmOperator.Data.MergePatch
import Mathlib.Data.List.Perm.Basic

/-!
# Dynamic JSON values

What `encoding/json` decodes a document into when no structure is given, and what it encodes
such a value as. The numbers are of some type: literals in a document, machine numbers in a
decoded value.

A Go map is given by its entries in the order in which a `range` statement visits them. That
order is not part of the map: two values are the `Same` when they show the same at every path.
In a document a name may be repeated, and then its last entry counts.
-/

namespace LlmOperator.Data

inductive Value (ν : Type) where
  | null
  | bool (b : Bool)
  | num (n : ν)
  | str (s : String)
  | arr (items : List (Value ν))
  | obj (fields : List (String × Value ν))

namespace Value

variable {ν : Type} {v : Value ν} {x : Option (Value ν)} {items : List (Value ν)}

/-- The entries of an object. -/
abbrev Entries (ν : Type) : Type := List (String × Value ν)

/-! ## Entries -/

/-- The value of a name; its last entry counts. -/
def lookup (key : String) : Entries ν → Option (Value ν)
  | [] => none
  | (k, v) :: rest => (lookup key rest).or (if k = key then some v else none)

/-- `m[key] = v`. -/
def assign (key : String) (v : Value ν) (fields : Entries ν) : Entries ν :=
  fields.filter (fun e => e.1 ≠ key) ++ [(key, v)]

def keys (fields : Entries ν) : List String := fields.map Prod.fst

theorem lookup_append (key : String) (l l' : Entries ν) :
    lookup key (l ++ l') = (lookup key l').or (lookup key l) := by
  induction l with
  | nil => simp [lookup]
  | cons e l ih =>
    obtain ⟨k, v⟩ := e
    rw [List.cons_append, lookup, lookup, ih, Option.or_assoc]

theorem lookup_filter_ne (key key' : String) (l : Entries ν) :
    lookup key' (l.filter fun e => e.1 ≠ key) = if key' = key then none else lookup key' l := by
  induction l with
  | nil => simp [lookup]
  | cons e l ih =>
    obtain ⟨k, v⟩ := e
    by_cases hk : k = key
    · rw [List.filter_cons_of_neg (by simp [hk]), ih, lookup]
      split
      · rfl
      · rename_i hne
        rw [if_neg (by rw [hk]; exact Ne.symm hne), Option.or_none]
    · rw [List.filter_cons_of_pos (by simp [hk]), lookup, ih, lookup]
      split
      · rename_i heq
        rw [if_neg (by rw [heq]; exact hk), Option.or_none]
      · rfl

@[simp] theorem lookup_assign (key key' : String) (v : Value ν) (fields : Entries ν) :
    lookup key' (assign key v fields) = if key' = key then some v else lookup key' fields := by
  unfold assign
  rw [lookup_append, lookup_filter_ne]
  by_cases h : key' = key
  · simp [lookup, h]
  · simp [lookup, h, Ne.symm h]

variable {fields : Entries ν}

theorem lookup_eq_none_iff {key : String} : lookup key fields = none ↔ key ∉ keys fields := by
  induction fields with
  | nil => simp [lookup, keys]
  | cons e fields ih =>
    obtain ⟨k, v⟩ := e
    rw [lookup, Option.or_eq_none_iff, ih]
    simp only [keys, List.map_cons, List.mem_cons, not_or, ite_eq_right_iff, reduceCtorEq,
      imp_false]
    constructor
    · rintro ⟨h, hne⟩
      exact ⟨Ne.symm hne, h⟩
    · rintro ⟨hne, h⟩
      exact ⟨h, Ne.symm hne⟩

theorem mem_of_lookup {key : String} (h : lookup key fields = some v) : (key, v) ∈ fields := by
  induction fields with
  | nil => cases h
  | cons e fields ih =>
    obtain ⟨k, w⟩ := e
    rw [lookup] at h
    cases hrest : lookup key fields with
    | some u =>
      rw [hrest, Option.some_or] at h
      exact List.mem_cons_of_mem _ (ih (hrest.trans h))
    | none =>
      rw [hrest, Option.none_or] at h
      split at h
      · rename_i hk
        cases h
        rw [hk]
        exact List.mem_cons_self
      · cases h

/-- Where no name is repeated every entry counts. -/
theorem lookup_of_mem {key : String} (hnodup : (keys fields).Nodup) (h : (key, v) ∈ fields) :
    lookup key fields = some v := by
  induction fields with
  | nil => cases h
  | cons e fields ih =>
    obtain ⟨k, w⟩ := e
    obtain ⟨hk, hrest⟩ := List.nodup_cons.mp hnodup
    rw [lookup]
    rcases List.mem_cons.mp h with heq | hmem
    · cases heq
      rw [lookup_eq_none_iff.mpr hk, Option.none_or, if_pos rfl]
    · rw [ih hrest hmem, Option.some_or]

theorem lookup_perm {l l' : Entries ν} (hperm : l.Perm l') (hnodup : (keys l).Nodup)
    (key : String) : lookup key l = lookup key l' := by
  have hnodup' : (keys l').Nodup := (hperm.map Prod.fst).nodup_iff.mp hnodup
  apply Option.ext
  intro v
  constructor
  · intro h
    exact lookup_of_mem hnodup' (hperm.mem_iff.mp (mem_of_lookup h))
  · intro h
    exact lookup_of_mem hnodup (hperm.mem_iff.mpr (mem_of_lookup h))

theorem nodup_keys_assign (h : (keys fields).Nodup) (key : String) (v : Value ν) :
    (keys (assign key v fields)).Nodup := by
  unfold assign keys
  rw [List.map_append, List.nodup_append]
  refine ⟨?_, by simp, ?_⟩
  · exact h.sublist (List.Sublist.map _ List.filter_sublist)
  · intro a ha b hb
    simp only [List.map_cons, List.map_nil, List.mem_singleton] at hb
    obtain ⟨e, he, rfl⟩ := List.mem_map.mp ha
    have hne := (List.mem_filter.mp he).2
    rw [hb]
    simpa using hne

/-! ## Paths -/

inductive Step where
  | key (name : String)
  | index (i : ℕ)
  deriving DecidableEq

abbrev Path : Type := List Step

def child : Value ν → Step → Option (Value ν)
  | .obj fields, .key name => lookup name fields
  | .arr items, .index i => items[i]?
  | _, _ => none

/-- The value at a path. -/
def get? (v : Value ν) : Path → Option (Value ν)
  | [] => some v
  | step :: p => (v.child step).bind fun w => w.get? p

theorem get?_cons (v : Value ν) (step : Step) (p : Path) :
    v.get? (step :: p) = (v.child step).bind fun w => w.get? p := rfl

/-- A value stands somewhere in a document, at that path; entries that do not count because their
name is repeated are included. -/
inductive Occurs : Value ν → Path → Value ν → Prop
  | here (v : Value ν) : Occurs v [] v
  | entry {fields : Entries ν} {name : String} {v w : Value ν} {p : Path}
      (hmem : (name, v) ∈ fields) (h : Occurs v p w) : Occurs (.obj fields) (.key name :: p) w
  | item {items : List (Value ν)} {i : ℕ} {v w : Value ν} {p : Path} (hmem : items[i]? = some v)
      (h : Occurs v p w) : Occurs (.arr items) (.index i :: p) w

/-- What a value shows of itself, without what is below it. -/
inductive Shape (ν : Type) where
  | null
  | bool (b : Bool)
  | num (n : ν)
  | str (s : String)
  | arr (length : ℕ)
  | obj

def shape : Value ν → Shape ν
  | .null => .null
  | .bool b => .bool b
  | .num n => .num n
  | .str s => .str s
  | .arr items => .arr items.length
  | .obj _ => .obj

/-- What is seen at a path. -/
def view (v : Value ν) (p : Path) : Option (Shape ν) := (v.get? p).map shape

theorem view_cons (v : Value ν) (step : Step) (p : Path) :
    v.view (step :: p) = (v.child step).bind fun w => w.view p := by
  unfold view
  rw [get?_cons, Option.map_bind]
  rfl

variable {p : Path}

theorem view_eq_num_iff {n : ν} : v.view p = some (.num n) ↔ v.get? p = some (.num n) := by
  unfold view
  rw [Option.map_eq_some_iff]
  constructor
  · rintro ⟨w, hw, hshape⟩
    cases w with
    | num m =>
      cases hshape
      exact hw
    | _ => cases hshape
  · intro h
    exact ⟨_, h, rfl⟩

/-- The same value: the order of the entries of its objects may differ. -/
def Same (v w : Value ν) : Prop := ∀ p, v.view p = w.view p

theorem Same.refl (v : Value ν) : Same v v := fun _ => rfl

theorem Same.symm {w : Value ν} (h : Same v w) : Same w v := fun p => (h p).symm

theorem shape_eq_obj (h : v.shape = .obj) : ∃ fields, v = .obj fields := by
  cases v with
  | obj fields => exact ⟨fields, rfl⟩
  | _ => cases h

/-- What is below the same name in two values that are the same. -/
theorem Same.child {w : Value ν} (h : Same v w) (step : Step) :
    v.child step = none ∧ w.child step = none ∨
      ∃ v' w', v.child step = some v' ∧ w.child step = some w' ∧ Same v' w' := by
  have hview : ∀ p, ((v.child step).bind fun u => u.view p) = (w.child step).bind fun u =>
      u.view p := by
    intro p
    rw [← view_cons, ← view_cons]
    exact h (step :: p)
  cases hv : v.child step with
  | none =>
    cases hw : w.child step with
    | none => exact Or.inl ⟨rfl, rfl⟩
    | some w' =>
      have := hview []
      rw [hv, hw] at this
      cases this
  | some v' =>
    cases hw : w.child step with
    | none =>
      have := hview []
      rw [hv, hw] at this
      cases this
    | some w' =>
      refine Or.inr ⟨v', w', rfl, rfl, fun p => ?_⟩
      have := hview p
      rwa [hv, hw] at this

theorem Same.trans {u w : Value ν} (h : Same u v) (h' : Same v w) : Same u w :=
  fun p => (h p).trans (h' p)

theorem Same.shape {w : Value ν} (h : Same v w) : v.shape = w.shape := Option.some.inj (h [])

/-- Two places that hold the same value, or nothing. -/
def Alike (x y : Option (Value ν)) : Prop :=
  ∀ p, (x.bind fun v => v.view p) = y.bind fun v => v.view p

theorem Alike.refl (x : Option (Value ν)) : Alike x x := fun _ => rfl

theorem Alike.symm {y : Option (Value ν)} (h : Alike x y) : Alike y x := fun p => (h p).symm

theorem Alike.trans {y z : Option (Value ν)} (h : Alike x y) (h' : Alike y z) : Alike x z :=
  fun p => (h p).trans (h' p)

theorem alike_some {w : Value ν} : Alike (some v) (some w) ↔ Same v w := Iff.rfl

theorem alike_none : Alike x none ↔ x = none := by
  constructor
  · intro h
    cases x with
    | none => rfl
    | some v => cases h []
  · rintro rfl
    exact .refl none

theorem Alike.exists_same {w : Value ν} (h : Alike x (some w)) : ∃ v, x = some v ∧ Same v w := by
  cases x with
  | none => cases h []
  | some v => exact ⟨v, rfl, h⟩

theorem same_obj_iff {fields' : Entries ν} :
    Same (.obj fields) (.obj fields') ↔ ∀ key, Alike (lookup key fields) (lookup key fields') := by
  constructor
  · intro h key p
    have := h (.key key :: p)
    rwa [view_cons, view_cons] at this
  · intro h p
    cases p with
    | nil => rfl
    | cons step p =>
      rw [view_cons, view_cons]
      cases step with
      | key key => exact h key p
      | index i => rfl

theorem same_arr_iff {items' : List (Value ν)} :
    Same (.arr items) (.arr items') ↔ List.Forall₂ Same items items' := by
  rw [List.forall₂_iff_get]
  constructor
  · intro h
    have hlength : items.length = items'.length := by
      have := h.shape
      simpa [shape] using this
    refine ⟨hlength, fun i hi hi' p => ?_⟩
    have := h (.index i :: p)
    rw [view_cons, view_cons] at this
    simpa [child, hi, hi'] using this
  · rintro ⟨hlength, h⟩ p
    cases p with
    | nil => exact congrArg (fun n => some (Shape.arr n)) hlength
    | cons step p =>
      rw [view_cons, view_cons]
      cases step with
      | key key => rfl
      | index i =>
        show (items[i]?.bind fun v => v.view p) = items'[i]?.bind fun v => v.view p
        by_cases hi : i < items.length
        · have hi' : i < items'.length := hlength ▸ hi
          rw [List.getElem?_eq_getElem hi, List.getElem?_eq_getElem hi']
          exact h i hi hi' p
        · rw [List.getElem?_eq_none (not_lt.mp hi),
            List.getElem?_eq_none (hlength ▸ not_lt.mp hi)]

/-- What is the same as an object is one. -/
theorem Same.eq_obj (h : Same v (.obj fields)) : ∃ fields', v = .obj fields' := shape_eq_obj h.shape

theorem Same.eq_str {s : String} (h : Same v (.str s)) : v = .str s := by
  have hshape := h.shape
  cases v with
  | str s' =>
    cases hshape
    rfl
  | _ => cases hshape

theorem Same.eq_arr (h : Same v (.arr items)) : ∃ items', v = .arr items' := by
  have hshape := h.shape
  cases v with
  | arr items' => exact ⟨items', rfl⟩
  | _ => cases hshape

/-- `delete(m, key)`. -/
def erase (key : String) (fields : Entries ν) : Entries ν := fields.filter fun e => e.1 ≠ key

@[simp] theorem lookup_erase (key key' : String) (fields : Entries ν) :
    lookup key' (erase key fields) = if key' = key then none else lookup key' fields :=
  lookup_filter_ne key key' fields

/-- No name is repeated in any object. -/
def Distinct (v : Value ν) : Prop :=
  ∀ p fields, v.get? p = some (.obj fields) → (keys fields).Nodup

theorem Distinct.child {w : Value ν} (h : v.Distinct) {step : Step} (hw : v.child step = some w) :
    w.Distinct := by
  intro p fields hp
  refine h (step :: p) fields ?_
  rw [get?_cons, hw]
  exact hp

theorem Distinct.entry (h : (Value.obj fields).Distinct) {name : String}
    (hv : lookup name fields = some v) : v.Distinct := by
  have hchild : (Value.obj fields).child (.key name) = some v := hv
  exact h.child hchild

theorem Distinct.keys (h : (Value.obj fields).Distinct) : (Value.keys fields).Nodup :=
  h [] fields rfl

theorem distinct_iff :
    v.Distinct ↔ (∀ fields, v = .obj fields → (keys fields).Nodup) ∧
      ∀ step w, v.child step = some w → w.Distinct := by
  constructor
  · intro h
    exact ⟨fun fields hv => h [] fields (congrArg some hv), fun step w hw => h.child hw⟩
  · rintro ⟨hkeys, hchild⟩ p fields hp
    cases p with
    | nil => exact hkeys fields (Option.some.inj hp)
    | cons step p =>
      rw [get?_cons] at hp
      obtain ⟨w, hw, hp⟩ := Option.bind_eq_some_iff.mp hp
      exact hchild step w hw p fields hp

/-- What holds no other value has no key twice. -/
theorem distinct_of_leaf (hobj : ∀ fields, v ≠ .obj fields) (hchild : ∀ step, v.child step = none) :
    v.Distinct := by
  refine distinct_iff.mpr ⟨fun fields hv => absurd hv (hobj fields), fun step w hw => ?_⟩
  rw [hchild] at hw
  cases hw

theorem distinct_null : (Value.null : Value ν).Distinct :=
  distinct_of_leaf (fun _ h => by cases h) fun step => by cases step <;> rfl

theorem distinct_bool (b : Bool) : (Value.bool b : Value ν).Distinct :=
  distinct_of_leaf (fun _ h => by cases h) fun step => by cases step <;> rfl

theorem distinct_num (n : ν) : (Value.num n).Distinct :=
  distinct_of_leaf (fun _ h => by cases h) fun step => by cases step <;> rfl

theorem distinct_str (s : String) : (Value.str s : Value ν).Distinct :=
  distinct_of_leaf (fun _ h => by cases h) fun step => by cases step <;> rfl

theorem Distinct.assign (h : (Value.obj fields).Distinct) (key : String) (hv : v.Distinct) :
    (Value.obj (Value.assign key v fields)).Distinct := by
  rw [distinct_iff]
  constructor
  · rintro _ ⟨⟩
    exact nodup_keys_assign h.keys key v
  · intro step w hw
    cases step with
    | index i => cases hw
    | key name =>
      have hlookup : lookup name (Value.assign key v fields) = some w := hw
      rw [lookup_assign] at hlookup
      split at hlookup
      · cases hlookup
        exact hv
      · exact h.entry hlookup

theorem Distinct.erase (h : (Value.obj fields).Distinct) (key : String) :
    (Value.obj (Value.erase key fields)).Distinct := by
  rw [distinct_iff]
  constructor
  · rintro _ ⟨⟩
    exact h.keys.sublist (List.filter_sublist.map _)
  · intro step w hw
    cases step with
    | index i => cases hw
    | key name =>
      have hlookup : lookup name (Value.erase key fields) = some w := hw
      rw [lookup_erase] at hlookup
      split at hlookup
      · cases hlookup
      · exact h.entry hlookup

theorem Distinct.item (h : (Value.arr items).Distinct) (hv : v ∈ items) : v.Distinct := by
  obtain ⟨i, hi⟩ := List.mem_iff_getElem?.mp hv
  have hchild : (Value.arr items).child (.index i) = some v := hi
  exact h.child hchild

theorem distinct_arr (h : ∀ v ∈ items, v.Distinct) : (Value.arr items).Distinct := by
  rw [distinct_iff]
  refine ⟨nofun, fun step w hw => ?_⟩
  cases step with
  | key name => cases hw
  | index i => exact h w (List.mem_of_getElem? hw)

theorem distinct_obj (hkeys : (Value.keys fields).Nodup) (h : ∀ e ∈ fields, e.2.Distinct) :
    (Value.obj fields).Distinct := by
  rw [distinct_iff]
  constructor
  · rintro _ ⟨⟩
    exact hkeys
  · intro step w hw
    cases step with
    | index i => cases hw
    | key name => exact h _ (mem_of_lookup (show lookup name fields = some w from hw))

/-- A Go map whose values are maps, slices and scalars. -/
structure Object (ν : Type) where
  fields : Entries ν
  distinct : (Value.obj fields).Distinct

abbrev Object.value (o : Object ν) : Value ν := .obj o.fields

def Object.empty : Object ν where
  fields := []
  distinct := by
    rw [distinct_iff]
    constructor
    · rintro _ ⟨⟩
      exact List.nodup_nil
    · intro step w hw
      cases step <;> cases hw

/-! ## Decoding and encoding -/

mutual

/-- How deeply objects and arrays are nested. -/
def depth : Value ν → ℕ
  | .arr items => depthItems items + 1
  | .obj fields => depthEntries fields + 1
  | _ => 0

def depthItems : List (Value ν) → ℕ
  | [] => 0
  | v :: vs => max (depth v) (depthItems vs)

def depthEntries : Entries ν → ℕ
  | [] => 0
  | (_, v) :: rest => max (depth v) (depthEntries rest)

end

/-- How the number literals of a document are read, and how numbers are printed. -/
structure Numbers (Lit Num : Type) where
  read : Lit → Except String Num
  print : Num → Lit

section Codec

variable {Lit Num : Type} (c : Numbers Lit Num) {w : Value Num} {u : Value Lit}

mutual

/-- A document decoded into a value of type `any`. -/
def decode : Value Lit → Except String (Value Num)
  | .null => .ok .null
  | .bool b => .ok (.bool b)
  | .num l => do return .num (← c.read l)
  | .str s => .ok (.str s)
  | .arr items => do return .arr (← decodeItems items)
  | .obj fields => do return .obj (← decodeEntries [] fields)

def decodeItems : List (Value Lit) → Except String (List (Value Num))
  | [] => .ok []
  | v :: vs => do
      let w ← decode v
      let ws ← decodeItems vs
      return w :: ws

/-- The entries of an object, put into the map `m` one after the other. -/
def decodeEntries (m : Entries Num) : Entries Lit → Except String (Entries Num)
  | [] => .ok m
  | (key, v) :: rest => do
      let w ← decode v
      decodeEntries (assign key w m) rest

end

/-- The entries of a map are encoded in the order of their keys. -/
def sortKeys (fields : Entries ν) : Entries ν :=
  fields.insertionSort fun a b => FMap.KeyLE a.1 b.1

theorem perm_sortKeys (fields : Entries ν) : (sortKeys fields).Perm fields :=
  List.perm_insertionSort _ _

mutual

/-- `json.Marshal`. -/
def encode : Value Num → Value Lit
  | .null => .null
  | .bool b => .bool b
  | .num n => .num (c.print n)
  | .str s => .str s
  | .arr items => .arr (encodeItems items)
  | .obj fields => .obj (sortKeys (encodeEntries fields))

def encodeItems : List (Value Num) → List (Value Lit)
  | [] => []
  | v :: vs => encode v :: encodeItems vs

def encodeEntries : Entries Num → Entries Lit
  | [] => []
  | (key, v) :: rest => (key, encode v) :: encodeEntries rest

end

variable {c}

theorem getElem?_decodeItems {items : List (Value Lit)} {items' : List (Value Num)}
    (h : decodeItems c items = .ok items') (i : ℕ) :
    items[i]?.map (decode c) = items'[i]?.map .ok := by
  induction items generalizing items' i with
  | nil =>
    cases h
    rfl
  | cons v vs ih =>
    rw [decodeItems] at h
    obtain ⟨w, hw, h⟩ := ok_of_bind h
    obtain ⟨ws, hws, h⟩ := ok_of_bind h
    cases h
    cases i with
    | zero =>
      simp only [List.getElem?_cons_zero, Option.map_some]
      rw [hw]
    | succ i => exact ih hws i

theorem lookup_decodeEntries {fields : Entries Lit} {m out : Entries Num}
    (h : decodeEntries c m fields = .ok out) (key : String) :
    (lookup key out).map .ok =
      ((lookup key fields).map (decode c)).or ((lookup key m).map .ok) := by
  induction fields generalizing m with
  | nil =>
    cases h
    rfl
  | cons e fields ih =>
    obtain ⟨k, v⟩ := e
    rw [decodeEntries] at h
    obtain ⟨w, hw, h⟩ := ok_of_bind h
    rw [ih h, lookup, lookup_assign]
    cases lookup key fields with
    | some u => rfl
    | none =>
      by_cases hk : key = k
      · simp [hk, hw]
      · simp [hk, Ne.symm hk]

theorem nodup_decodeEntries {fields : Entries Lit} {m out : Entries Num}
    (h : decodeEntries c m fields = .ok out) (hm : (keys m).Nodup) : (keys out).Nodup := by
  induction fields generalizing m with
  | nil =>
    cases h
    exact hm
  | cons e fields ih =>
    obtain ⟨k, v⟩ := e
    rw [decodeEntries] at h
    obtain ⟨w, -, h⟩ := ok_of_bind h
    exact ih h (nodup_keys_assign hm k w)

theorem child_decode {v : Value Lit} (h : decode c v = .ok w) (step : Step) :
    (v.child step).map (decode c) = (w.child step).map .ok := by
  cases v with
  | arr items =>
    rw [decode] at h
    obtain ⟨items', hitems, h⟩ := ok_of_bind h
    cases h
    cases step with
    | key name => rfl
    | index i => exact getElem?_decodeItems hitems i
  | obj fields =>
    rw [decode] at h
    obtain ⟨fields', hfields, h⟩ := ok_of_bind h
    cases h
    cases step with
    | key name =>
      have := lookup_decodeEntries hfields name
      rw [lookup, Option.map_none, Option.or_none] at this
      exact this.symm
    | index i => rfl
  | num l =>
    rw [decode] at h
    obtain ⟨n, -, h⟩ := ok_of_bind h
    cases h
    cases step <;> rfl
  | _ =>
    cases h
    cases step <;> rfl

/-- What stands at a path of the decoded value is what stands there in the document, decoded. -/
theorem get?_decode {v : Value Lit} (h : decode c v = .ok w) (p : Path) :
    (v.get? p).map (decode c) = (w.get? p).map .ok := by
  induction p generalizing v w with
  | nil => exact congrArg some h
  | cons step p ih =>
    have hchild := child_decode h step
    rw [get?_cons, get?_cons]
    cases hv : v.child step with
    | none =>
      rw [hv, Option.map_none, eq_comm, Option.map_eq_none_iff] at hchild
      rw [hchild]
      rfl
    | some v' =>
      rw [hv, Option.map_some, eq_comm, Option.map_eq_some_iff] at hchild
      obtain ⟨w', hw', hdecode⟩ := hchild
      rw [hw']
      exact ih hdecode.symm

/-- Only an object is decoded into one. -/
theorem decode_eq_obj {fields : Entries Num} (h : decode c u = .ok (.obj fields)) :
    ∃ us, decodeEntries c [] us = .ok fields := by
  cases u with
  | obj us =>
    rw [decode] at h
    obtain ⟨fields', hfields, h⟩ := ok_of_bind h
    cases h
    exact ⟨us, hfields⟩
  | arr items =>
    rw [decode] at h
    obtain ⟨_, -, h⟩ := ok_of_bind h
    cases h
  | num l =>
    rw [decode] at h
    obtain ⟨_, -, h⟩ := ok_of_bind h
    cases h
  | _ => cases h

theorem shape_decode (h : decode c u = .ok w) : w.shape = .obj ↔ u.shape = .obj := by
  cases u with
  | obj us =>
    rw [decode] at h
    obtain ⟨fields, -, h⟩ := ok_of_bind h
    cases h
    exact ⟨fun _ => rfl, fun _ => rfl⟩
  | arr items =>
    rw [decode] at h
    obtain ⟨_, -, h⟩ := ok_of_bind h
    cases h
    exact iff_of_false nofun nofun
  | num l =>
    rw [decode] at h
    obtain ⟨_, -, h⟩ := ok_of_bind h
    cases h
    exact iff_of_false nofun nofun
  | _ =>
    cases h
    exact iff_of_false nofun nofun

/-- Only a number is decoded into one. -/
theorem decode_eq_num {n : Num} (h : decode c u = .ok (.num n)) :
    ∃ l, u = .num l ∧ c.read l = .ok n := by
  cases u with
  | num l =>
    rw [decode] at h
    obtain ⟨m, hm, h⟩ := ok_of_bind h
    cases h
    exact ⟨l, rfl, hm⟩
  | arr items =>
    rw [decode] at h
    obtain ⟨_, -, h⟩ := ok_of_bind h
    cases h
  | obj fields =>
    rw [decode] at h
    obtain ⟨_, -, h⟩ := ok_of_bind h
    cases h
  | _ => cases h

theorem distinct_decode {v : Value Lit} (h : decode c v = .ok w) : w.Distinct := by
  intro p fields hp
  have hget := get?_decode h p
  rw [hp, Option.map_some, Option.map_eq_some_iff] at hget
  obtain ⟨u, -, hu⟩ := hget
  obtain ⟨us, hfields⟩ := decode_eq_obj hu
  exact nodup_decodeEntries hfields List.nodup_nil

/-- The numbers of a decoded value are those of the document, read. -/
theorem get?_decode_num_iff {v : Value Lit} (h : decode c v = .ok w) {n : Num} :
    w.get? p = some (.num n) ↔ ∃ l, v.get? p = some (.num l) ∧ c.read l = .ok n := by
  have hget := get?_decode h p
  constructor
  · intro hw
    rw [hw, Option.map_some, Option.map_eq_some_iff] at hget
    obtain ⟨u, hu, hdecode⟩ := hget
    obtain ⟨l, rfl, hread⟩ := decode_eq_num hdecode
    exact ⟨l, hu, hread⟩
  · rintro ⟨l, hl, hread⟩
    rw [hl, Option.map_some, decode, hread, eq_comm, Option.map_eq_some_iff] at hget
    obtain ⟨u, hu, heq⟩ := hget
    cases heq
    exact hu

theorem read_of_decode {v : Value Lit} (h : decode c v = .ok w) {l : Lit}
    (hl : v.get? p = some (.num l)) : ∃ n, c.read l = .ok n := by
  have hget := get?_decode h p
  rw [hl, Option.map_some, eq_comm, Option.map_eq_some_iff] at hget
  obtain ⟨u, -, heq⟩ := hget
  rw [decode] at heq
  obtain ⟨n, hn, -⟩ := ok_of_bind heq.symm
  exact ⟨n, hn⟩

variable (c)

theorem encodeItems_eq (items : List (Value Num)) : encodeItems c items = items.map (encode c) := by
  induction items with
  | nil => rfl
  | cons v vs ih => rw [encodeItems, ih, List.map_cons]

theorem lookup_encodeEntries (fields : Entries Num) (key : String) :
    lookup key (encodeEntries c fields) = (lookup key fields).map (encode c) := by
  induction fields with
  | nil => rfl
  | cons e fields ih =>
    obtain ⟨k, v⟩ := e
    rw [encodeEntries, lookup, lookup, ih]
    cases lookup key fields with
    | some u => rfl
    | none => by_cases hk : k = key <;> simp [hk]

theorem keys_encodeEntries (fields : Entries Num) :
    keys (encodeEntries c fields) = keys fields := by
  induction fields with
  | nil => rfl
  | cons e fields ih =>
    obtain ⟨k, v⟩ := e
    rw [encodeEntries]
    exact congrArg (k :: ·) ih

theorem child_encode {v : Value Num} (h : v.Distinct) (step : Step) :
    (encode c v).child step = (v.child step).map (encode c) := by
  cases v with
  | arr items =>
    cases step with
    | key name => rfl
    | index i =>
      show (encodeItems c items)[i]? = _
      rw [encodeItems_eq, List.getElem?_map]
      rfl
  | obj fields =>
    cases step with
    | key name =>
      have hnodup : (keys (encodeEntries c fields)).Nodup := by
        rw [keys_encodeEntries]
        exact h.keys
      show lookup name (sortKeys (encodeEntries c fields)) = _
      rw [← lookup_perm (perm_sortKeys _).symm hnodup, lookup_encodeEntries]
      rfl
    | index i => rfl
  | _ => cases step <;> rfl

/-- What stands at a path of the encoded value. -/
theorem get?_encode {v : Value Num} (h : v.Distinct) (p : Path) :
    (encode c v).get? p = (v.get? p).map (encode c) := by
  induction p generalizing v with
  | nil => rfl
  | cons step p ih =>
    rw [get?_cons, get?_cons, child_encode c h]
    cases hv : v.child step with
    | none => rfl
    | some w => exact ih (h.child hv)

/-- What a number looks like when it is printed. -/
def Shape.map {μ : Type} (f : ν → μ) : Shape ν → Shape μ
  | .null => .null
  | .bool b => .bool b
  | .num n => .num (f n)
  | .str s => .str s
  | .arr length => .arr length
  | .obj => .obj

theorem get?_encode_num_iff {v : Value Num} (h : v.Distinct) {l : Lit} :
    (encode c v).get? p = some (.num l) ↔ ∃ n, v.get? p = some (.num n) ∧ c.print n = l := by
  rw [get?_encode c h, Option.map_eq_some_iff]
  constructor
  · rintro ⟨w, hw, hencode⟩
    cases w with
    | num n =>
      cases hencode
      exact ⟨n, hw, rfl⟩
    | _ => cases hencode
  · rintro ⟨n, hn, rfl⟩
    exact ⟨_, hn, rfl⟩

theorem shape_encode (v : Value Num) : (encode c v).shape = v.shape.map c.print := by
  cases v with
  | arr items =>
    show Shape.arr (encodeItems c items).length = .arr items.length
    rw [encodeItems_eq, List.length_map]
  | _ => rfl

theorem view_encode {v : Value Num} (h : v.Distinct) (p : Path) :
    (encode c v).view p = (v.view p).map (Shape.map c.print) := by
  unfold view
  rw [get?_encode c h]
  cases v.get? p with
  | none => rfl
  | some w => exact congrArg some (shape_encode c w)

end Codec

/-- `json.Unmarshal` into a `map[string]any` that is nil: it stays nil for `null`. -/
def unmarshalMap {Lit Num : Type} (c : Numbers Lit Num) (v : Value Lit) :
    Except String (Option (Object Num)) :=
  if JsonScan.maxNestingDepth < v.depth then .error "exceeded max depth"
  else
    match h : decode c v with
    | .error e => .error e
    | .ok .null => .ok none
    | .ok (.obj fields) => .ok (some ⟨fields, distinct_decode h⟩)
    | .ok _ => .error (Json.typeError "map[string]interface \x7b\x7d")

theorem unmarshalMap_of_decode {Lit Num : Type} {c : Numbers Lit Num} {v : Value Lit}
    {fields : Entries Num} (hdepth : v.depth ≤ JsonScan.maxNestingDepth)
    (h : decode c v = .ok (.obj fields)) : ∃ o, unmarshalMap c v = .ok (some o) := by
  unfold unmarshalMap
  rw [if_neg (not_lt.mpr hdepth)]
  split
  · rename_i hno
    cases hno.symm.trans h
  · rename_i hno
    cases hno.symm.trans h
  · exact ⟨_, rfl⟩
  · rename_i hno hdecode
    cases hdecode.symm.trans h
    exact absurd rfl (hno fields)

/-- A map that was decoded holds what the document decodes to. -/
theorem decode_of_unmarshalMap {Lit Num : Type} {c : Numbers Lit Num} {v : Value Lit}
    {o : Option (Object Num)} (h : unmarshalMap c v = .ok o) :
    decode c v = .ok (match o with | none => .null | some o => o.value) := by
  unfold unmarshalMap at h
  split at h
  · cases h
  · split at h
    · cases h
    · rename_i hnull
      cases h
      exact hnull
    · rename_i hobj
      cases h
      exact hobj
    · cases h

end Value

end LlmOperator.Data
