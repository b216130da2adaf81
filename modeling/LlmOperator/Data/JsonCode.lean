import LlmOperator.Data.Json
import Mathlib.Logic.Equiv.List

/-!
# Codes of JSON values

A text from which a JSON value can be told, without an inverse that reads it.
-/

namespace LlmOperator.Data.Json

/-- The number of a text. -/
def textCode (s : String) : ℕ := Encodable.encode (s.toList.map Char.toNat)

mutual

/-- The value as numbers: what kind of value it is, and what it is made of. -/
def code : Json → List ℕ
  | .null => [0]
  | .bool b => [1, Encodable.encode b]
  | .num n => [2, Encodable.encode n]
  | .decimal literal => [3, textCode literal]
  | .str s => [4, textCode s]
  | .arr items => 5 :: items.length :: codeItems items
  | .obj fields => 6 :: fields.length :: codeFields fields

def codeItems : List Json → List ℕ
  | [] => []
  | j :: items => code j ++ codeItems items

def codeFields : List (String × Json) → List ℕ
  | [] => []
  | (key, j) :: fields => textCode key :: (code j ++ codeFields fields)

end

/-- A text for the value. -/
def codeText (j : Json) : String :=
  String.ofList (List.replicate (Encodable.encode (code j) + 1) 'x')

theorem codeText_ne (j : Json) : codeText j ≠ "" := by
  intro h
  have hlist := congrArg String.toList h
  simp [codeText] at hlist

end LlmOperator.Data.Json
