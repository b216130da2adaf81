import LlmOperator.Data.Json

/-!
# Structural schemas

The part of OpenAPI schemas that says which values the API server stores: types, required
properties, and checks of strings and integers. Integers are those of 64 bits. Properties that a
schema does not name are not looked at.

`nestedField_of_accepts` is what a schema is good for: what it says about a path holds of the
value that is found there.
-/

namespace LlmOperator.Data

inductive Schema where
  | string (check : String → Bool)
  | integer (minimum : Int)
  | array (items : Schema)
  /-- The properties, each with whether it is required. -/
  | object (properties : List (String × Bool × Schema))

namespace Schema

mutual

def accepts : Schema → Json → Bool
  | .string check, .str s => check s
  | .integer minimum, .num n => minimum ≤ n && n < 2 ^ 63
  | .array items, .arr values => values.all items.accepts
  | .object properties, .obj fields => acceptsAll properties fields
  | _, _ => false

def acceptsAll : List (String × Bool × Schema) → List (String × Json) → Bool
  | [], _ => true
  | (name, required, schema) :: rest, fields =>
    (match Json.lookup fields name with
      | none => !required
      | some v => schema.accepts v) && acceptsAll rest fields

end

/-- Any string. -/
abbrev text : Schema := .string fun _ => true

/-- The schema of what is at a path, and whether something has to be there. -/
def find : Schema → List String → Option (Bool × Schema)
  | s, [] => some (true, s)
  | .object properties, f :: rest =>
    match properties.find? fun p => p.1 == f with
    | none => none
    | some (_, required, s) => (s.find rest).map fun p => (required && p.1, p.2)
  | _, _ :: _ => none

theorem of_acceptsAll {properties : List (String × Bool × Schema)} {fields : List (String × Json)}
    {f name : String} {required : Bool} {s : Schema}
    (h : acceptsAll properties fields = true)
    (hf : (properties.find? fun p => p.1 == f) = some (name, required, s)) :
    (Json.lookup fields f = none ∧ required = false) ∨
      ∃ v, Json.lookup fields f = some v ∧ s.accepts v = true := by
  induction properties with
  | nil => simp at hf
  | cons p rest ih =>
    obtain ⟨name', required', s'⟩ := p
    rw [acceptsAll, Bool.and_eq_true] at h
    obtain ⟨hhead, hrest⟩ := h
    rw [List.find?_cons] at hf
    split at hf
    · rename_i heq
      obtain rfl : name' = f := by simpa using heq
      cases hf
      cases hv : Json.lookup fields name with
      | none =>
        rw [hv] at hhead
        simp only [Bool.not_eq_true'] at hhead
        exact Or.inl ⟨rfl, hhead⟩
      | some v =>
        rw [hv] at hhead
        exact Or.inr ⟨v, rfl, hhead⟩
    · exact ih hrest hf

/-- What is at a path, if anything, is as the schema has it. -/
def HoldsAt (s : Schema) (v : Json) (path : List String) (required : Bool) : Prop :=
  (v.nestedField path = .ok none ∧ required = false) ∨
    ∃ w, v.nestedField path = .ok (some w) ∧ s.accepts w = true

theorem nestedField_of_accepts {s t : Schema} {v : Json} {path : List String} {required : Bool}
    (h : s.accepts v = true) (hpath : s.find path = some (required, t)) :
    t.HoldsAt v path required := by
  induction path generalizing s v required with
  | nil =>
    simp only [find, Option.some.injEq, Prod.mk.injEq] at hpath
    obtain ⟨-, rfl⟩ := hpath
    exact Or.inr ⟨v, by cases v <;> rfl, h⟩
  | cons f rest ih =>
    cases s with
    | object properties =>
      cases v with
      | obj fields =>
        simp only [find] at hpath
        simp only [accepts] at h
        cases hf : properties.find? fun p => p.1 == f with
        | none => rw [hf] at hpath; cases hpath
        | some p =>
          obtain ⟨name, req, s⟩ := p
          rw [hf] at hpath
          simp only [Option.map_eq_some_iff, Prod.mk.injEq] at hpath
          obtain ⟨⟨r, u⟩, hu, rfl, rfl⟩ := hpath
          simp only [HoldsAt, Json.nestedField]
          rcases of_acceptsAll h hf with ⟨hnone, hreq⟩ | ⟨w, hw, haccepts⟩
          · rw [hnone, hreq]
            exact Or.inl ⟨rfl, rfl⟩
          · rw [hw]
            rcases ih haccepts hu with ⟨hnone, hr⟩ | hfound
            · refine Or.inl ⟨hnone, ?_⟩
              rw [show r = false from hr, Bool.and_false]
            · exact Or.inr hfound
      | _ => simp [accepts] at h
    | string check => cases hpath
    | integer minimum => cases hpath
    | array items => cases hpath

namespace HoldsAt

variable {v : Json} {path : List String} {required : Bool}

/-- A string is found, or it is missing and decodes as the empty one. -/
theorem nestedString {check : String → Bool} (h : (Schema.string check).HoldsAt v path required) :
    ∃ t, v.stringAt path = .ok t ∧
      ((v.nestedString path = .ok (some t) ∧ check t = true) ∨
        v.nestedString path = .ok none ∧ t = "" ∧ required = false) := by
  rcases h with ⟨hnone, hrequired⟩ | ⟨w, hw, haccepts⟩
  · refine ⟨"", Json.stringAt_of_nestedField_none hnone, Or.inr ⟨?_, rfl, hrequired⟩⟩
    rw [Json.nestedString, hnone]
    rfl
  · cases w with
    | str s =>
      refine ⟨s, Json.stringAt_of_nestedField hw,
        Or.inl ⟨?_, by simpa [accepts] using haccepts⟩⟩
      rw [Json.nestedString, hw]
      rfl
    | _ => simp [accepts] at haccepts

theorem nestedInt64 {minimum : Int} (h : (Schema.integer minimum).HoldsAt v path true) :
    ∃ n, v.nestedInt64 path = .ok (some n) ∧ minimum ≤ n ∧ n < 2 ^ 63 := by
  rcases h with ⟨-, hfalse⟩ | ⟨w, hw, haccepts⟩
  · cases hfalse
  · cases w with
    | num n =>
      refine ⟨n, ?_, by simpa [accepts] using haccepts⟩
      rw [Json.nestedInt64, hw]
      rfl
    | _ => simp [accepts] at haccepts

end HoldsAt

theorem mapM_of_all_text {values : List Json} (h : (values.all text.accepts) = true) :
    ∃ ts, values.mapM Json.nestedItem = .ok ts ∧ values.mapM Json.stringItem = .ok ts := by
  induction values with
  | nil => exact ⟨[], rfl, rfl⟩
  | cons v values ih =>
    rw [List.all_cons, Bool.and_eq_true] at h
    obtain ⟨hv, hvalues⟩ := h
    obtain ⟨ts, hitems, hstrings⟩ := ih hvalues
    cases v with
    | str t =>
      refine ⟨t :: ts, ?_, ?_⟩
      · rw [List.mapM_cons, hitems]
        rfl
      · rw [List.mapM_cons, hstrings]
        rfl
    | _ => simp [accepts] at hv

/-- A list of strings, as the two readers find it. -/
theorem stringsAt_of_nestedField {v : Json} {path : List String} {items : List Json}
    (h : v.nestedField path = .ok (some (.arr items))) :
    v.stringsAt path = items.mapM Json.stringItem := by
  induction path generalizing v with
  | nil =>
    cases h
    rfl
  | cons f rest ih =>
    cases v with
    | obj fields =>
      simp only [Json.nestedField] at h
      simp only [Json.stringsAt]
      cases hf : Json.lookup fields f with
      | none => rw [hf] at h; cases h
      | some w => rw [hf] at h; exact ih h
    | _ => cases h

theorem stringsAt_of_nestedField_none {v : Json} {path : List String}
    (h : v.nestedField path = .ok none) : v.stringsAt path = .ok [] := by
  induction path generalizing v with
  | nil => cases h
  | cons f rest ih =>
    cases v with
    | null => rfl
    | obj fields =>
      simp only [Json.nestedField] at h
      simp only [Json.stringsAt]
      cases hf : Json.lookup fields f with
      | none => rfl
      | some w => rw [hf] at h; exact ih h
    | _ => cases h

/-- A list of strings is found, or it is missing and decodes as the empty one. -/
theorem HoldsAt.nestedStringSlice {v : Json} {path : List String} {required : Bool}
    (h : (Schema.array text).HoldsAt v path required) :
    ∃ ts, v.stringsAt path = .ok ts ∧
      (v.nestedStringSlice path = .ok (some ts) ∨
        v.nestedStringSlice path = .ok none ∧ ts = [] ∧ required = false) := by
  rcases h with ⟨hnone, hrequired⟩ | ⟨w, hw, haccepts⟩
  · refine ⟨[], stringsAt_of_nestedField_none hnone, Or.inr ⟨?_, rfl, hrequired⟩⟩
    rw [Json.nestedStringSlice, hnone]
    rfl
  · cases w with
    | arr items =>
      rw [accepts] at haccepts
      obtain ⟨ts, hitems, hstrings⟩ := mapM_of_all_text haccepts
      refine ⟨ts, (stringsAt_of_nestedField hw).trans hstrings, Or.inl ?_⟩
      rw [Json.nestedStringSlice, hw]
      show (do return some (← items.mapM Json.nestedItem)) = _
      rw [hitems]
      rfl
    | _ => simp [accepts] at haccepts

end Schema

end LlmOperator.Data
