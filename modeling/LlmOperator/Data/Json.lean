import LlmOperator.Data.GoString
import Mathlib.Algebra.Group.Int.Defs
import Mathlib.Data.Int.Basic

/-!
# JSON values

Values as they stand between an encoder and a decoder, without their text, and the two ways
in which they are read. A structure of Go is decoded by `encoding/json` field by field: the
names are compared without regard to case, a `null` leaves a field as it was, and what is
missing keeps its zero value (`Fields.decode`). An unstructured object of the Kubernetes
libraries is read along a path of field names (`nestedField`), and a typed object of theirs is
decoded by exact names (`stringAt`, `stringsAt`, `objectAt`).
-/

namespace LlmOperator.Data

variable {α : Type}

/-- A sequence of two steps goes well when both do. -/
theorem ok_of_bind {ε β : Type} {x : Except ε α} {f : α → Except ε β} {b : β}
    (h : x >>= f = .ok b) :
    ∃ a, x = .ok a ∧ f a = .ok b := by
  cases x with
  | error e => cases h
  | ok a => exact ⟨a, rfl, h⟩

/-- A JSON value. A number that is not an integer is kept by its literal. -/
inductive Json where
  | null
  | bool (b : Bool)
  | num (n : Int)
  | decimal (literal : String)
  | str (s : String)
  | arr (items : List Json)
  | obj (fields : List (String × Json))

namespace Json

/-! ## Decoding structures of Go -/

/-- A decoder of one field: the value so far, and what the document has for it. -/
abbrev Setter (α : Type) : Type := α → Json → Except String α

def typeError (want : String) : String :=
  "json: cannot unmarshal value into Go value of type " ++ want

/-- A field of type `string`. -/
def setString {α : Type} (set : String → α → α) : Setter α
  | a, .null => .ok a
  | a, .str s => .ok (set s a)
  | _, _ => .error (typeError "string")

/-- A field of type `int64`. -/
def setInt64 {α : Type} (set : Int → α → α) : Setter α
  | a, .null => .ok a
  | a, .num n => if -2 ^ 63 ≤ n ∧ n < 2 ^ 63 then .ok (set n a) else .error (typeError "int64")
  | _, _ => .error (typeError "int64")

/-- An element of a slice of strings. -/
def stringItem : Json → Except String String
  | .null => .ok ""
  | .str s => .ok s
  | _ => .error (typeError "string")

/-- A field of type `[]string`. -/
def setStrings {α : Type} (set : List String → α → α) : Setter α
  | a, .null => .ok (set [] a)
  | a, .arr items => do return set (← items.mapM stringItem) a
  | _, _ => .error (typeError "[]string")

/-- A field whose type is a slice of structures. -/
def setArray {α β : Type} (item : Json → Except String β) (set : List β → α → α) : Setter α
  | a, .null => .ok (set [] a)
  | a, .arr items => do return set (← items.mapM item) a
  | _, _ => .error (typeError "[]struct")

/-- A structure, by its fields. -/
abbrev Fields (α : Type) : Type := List (String × Setter α)

/-- One entry of the document: unknown names are ignored. -/
def Fields.entry {α : Type} (fields : Fields α) (a : α) (e : String × Json) : Except String α :=
  match fields.find? fun f => GoString.equalFold e.1 f.1 with
  | some f => f.2 a e.2
  | none => .ok a

/-- `json.Unmarshal` into a structure. -/
def Fields.decode {α : Type} (fields : Fields α) : Setter α
  | a, .null => .ok a
  | a, .obj entries => entries.foldlM fields.entry a
  | _, _ => .error (typeError "struct")

/-- What `json.Unmarshal` leaves in a structure when its error is ignored: a value of the wrong type
is skipped. -/
def Fields.skim {α : Type} (fields : Fields α) (a : α) : Json → α
  | .obj entries => entries.foldl (fun a e => (fields.entry a e).toOption.getD a) a
  | _ => a

theorem Fields.skim_of_decode {fields : Fields α} {a a' : α} {body : Json}
    (h : fields.decode a body = .ok a') : fields.skim a body = a' := by
  cases body with
  | obj entries =>
    change entries.foldlM fields.entry a = .ok a' at h
    show entries.foldl (fun a e => (fields.entry a e).toOption.getD a) a = a'
    induction entries generalizing a with
    | nil => exact Except.ok.inj h
    | cons e entries ih =>
      rw [List.foldlM_cons] at h
      rw [List.foldl_cons]
      cases he : fields.entry a e with
      | error message => rw [he] at h; cases h
      | ok b =>
        rw [he] at h
        exact ih h
  | null => exact Except.ok.inj h
  | _ => cases h

/-- The entry of a field that is found at a known place. -/
theorem Fields.entry_eq (fields : Fields α) (name : String) (i : Nat) {f : String × Setter α}
    (hf : fields[i]? = some f) (hi : (fields.findIdx fun g => GoString.equalFold name g.1) = i)
    (a : α) (v : Json) : fields.entry a (name, v) = f.2 a v := by
  unfold Fields.entry
  rw [List.find?_eq_getElem?_findIdx, hi, hf]

theorem mapM_stringItem (items : List String) :
    (items.map Json.str).mapM stringItem = .ok items := by
  induction items with
  | nil => rfl
  | cons s items ih => rw [List.map_cons, List.mapM_cons, ih]; rfl

theorem setStrings_arr (set : List String → α → α) (a : α) (items : List String) :
    setStrings set a (.arr (items.map Json.str)) = .ok (set items a) := by
  rw [setStrings, mapM_stringItem]
  rfl

/-! ## Reading along a path -/

/-- The value of a field of an object. -/
def lookup (fields : List (String × Json)) (name : String) : Option Json :=
  (fields.find? fun f => f.1 == name).map Prod.snd

/-- `unstructured.NestedFieldNoCopy`: nothing when a field is missing on the way, an error when
something on the way is not an object. -/
def nestedField : Json → List String → Except String (Option Json)
  | v, [] => .ok (some v)
  | .null, _ :: _ => .ok none
  | .obj fields, f :: rest =>
    match lookup fields f with
    | none => .ok none
    | some v => nestedField v rest
  | _, f :: _ => .error (f ++ " accessor error: expected map[string]interface{}")

/-- `unstructured.NestedString`. -/
def nestedString (object : Json) (path : List String) : Except String (Option String) := do
  match ← nestedField object path with
  | none => return none
  | some (.str s) => return some s
  | some _ => throw "accessor error: expected string"

/-- `unstructured.NestedInt64`. -/
def nestedInt64 (object : Json) (path : List String) : Except String (Option Int) := do
  match ← nestedField object path with
  | none => return none
  | some (.num n) => return some n
  | some _ => throw "accessor error: expected int64"

/-- An element of `unstructured.NestedStringSlice`. -/
def nestedItem : Json → Except String String
  | .str s => .ok s
  | _ => .error "accessor error: contains non-string value in the slice"

/-- `unstructured.NestedStringSlice`. -/
def nestedStringSlice (object : Json) (path : List String) : Except String (Option (List String)) :=
  do
  match ← nestedField object path with
  | none => return none
  | some (.arr items) => return some (← items.mapM nestedItem)
  | some _ => throw "accessor error: expected []interface{}"

/-! ## Decoding typed objects -/

/-- A string field of a typed object, below structures: the zero value where it, or a structure
above it, is missing or null. -/
def stringAt : Json → List String → Except String String
  | .null, _ => .ok ""
  | .str s, [] => .ok s
  | .obj fields, f :: rest =>
    match lookup fields f with
    | none => .ok ""
    | some v => stringAt v rest
  | _, _ => .error (typeError "string")

def intAt : Json → List String → Except String Int
  | .null, _ => .ok 0
  | .num n, [] => .ok n
  | .obj fields, f :: rest =>
    match lookup fields f with
    | none => .ok 0
    | some v => intAt v rest
  | _, _ => .error (typeError "int")

def stringsAt : Json → List String → Except String (List String)
  | .null, _ => .ok []
  | .arr items, [] => items.mapM stringItem
  | .obj fields, f :: rest =>
    match lookup fields f with
    | none => .ok []
    | some v => stringsAt v rest
  | _, _ => .error (typeError "[]string")

/-- Whether a pointer field of a typed object is set. -/
def objectAt : Json → List String → Except String Bool
  | .null, _ => .ok false
  | .obj _, [] => .ok true
  | .obj fields, f :: rest =>
    match lookup fields f with
    | none => .ok false
    | some v => objectAt v rest
  | _, _ => .error (typeError "struct")

variable {object : Json} {path : List String}

/-- What the unstructured object has at a path is what the typed object has there. -/
theorem stringAt_of_nestedField {s : String} (h : nestedField object path = .ok (some (.str s))) :
    stringAt object path = .ok s := by
  induction path generalizing object with
  | nil =>
    cases h
    rfl
  | cons f rest ih =>
    cases object with
    | null => cases h
    | obj fields =>
      simp only [nestedField] at h
      simp only [stringAt]
      cases hf : lookup fields f with
      | none => rw [hf] at h; cases h
      | some v => rw [hf] at h; exact ih h
    | bool _ => cases h
    | num _ => cases h
    | decimal _ => cases h
    | str _ => cases h
    | arr _ => cases h

/-- A path that leads nowhere in the unstructured object leads to the zero value in the typed
one. -/
theorem stringAt_of_nestedField_none (h : nestedField object path = .ok none) :
    stringAt object path = .ok "" := by
  induction path generalizing object with
  | nil => cases h
  | cons f rest ih =>
    cases object with
    | null => rfl
    | obj fields =>
      simp only [nestedField] at h
      simp only [stringAt]
      cases hf : lookup fields f with
      | none => rfl
      | some v => rw [hf] at h; exact ih h
    | bool _ => cases h
    | num _ => cases h
    | decimal _ => cases h
    | str _ => cases h
    | arr _ => cases h

theorem stringAt_of_nestedString {s : Option String} (h : nestedString object path = .ok s) :
    stringAt object path = .ok (s.getD "") := by
  unfold nestedString at h
  cases hf : nestedField object path with
  | error e => rw [hf] at h; cases h
  | ok v =>
    rw [hf] at h
    cases v with
    | none =>
      cases h
      exact stringAt_of_nestedField_none hf
    | some v =>
      cases v with
      | str s =>
        cases h
        exact stringAt_of_nestedField hf
      | _ => cases h

/-- Below a pointer that is not set there is nothing. -/
theorem nestedField_of_objectAt (h : objectAt object path = .ok false) (f : String) :
    nestedField object (path ++ [f]) = .ok none := by
  induction path generalizing object with
  | nil =>
    cases object with
    | null => rfl
    | _ => cases h
  | cons g rest ih =>
    cases object with
    | null => rfl
    | obj fields =>
      simp only [objectAt] at h
      simp only [List.cons_append, nestedField]
      cases hg : lookup fields g with
      | none => rfl
      | some v => rw [hg] at h; exact ih h
    | _ => cases h

end Json

end LlmOperator.Data
