import LlmOperator.Backend.Driver
import Mathlib.Data.List.Find

/-!
# Sizes

What the size of an artifact means, and what `parseSize` makes of it. The suffixes overlap in their
letters but none of them ends another, so that the order in which the table is searched does not
matter. The number is checked before it is multiplied: a product that leaves the 64-bit integers
is accepted as whatever it wraps to.
-/

namespace LlmOperator.Backend

open Api Data.GoString

/-! ## The suffix table -/

theorem entry_eq_of_isSuffixOf : ∀ e ∈ sizeSuffixes, ∀ e' ∈ sizeSuffixes,
    e.1.toList.isSuffixOf e'.1.toList = true → e = e' := by
  decide +kernel

variable {s : String} {digits cs : List Char} {n multiplier : Int}

theorem hasSuffix_iff {tail : String} : hasSuffix s tail = true ↔ tail.toList <:+ s.toList :=
  List.isSuffixOf_iff_suffix

/-- A string ends with at most one of the suffixes. -/
theorem entry_unique {e e' : String × Int} (he : e ∈ sizeSuffixes) (he' : e' ∈ sizeSuffixes)
    (h : hasSuffix s e.1 = true) (h' : hasSuffix s e'.1 = true) : e = e' := by
  rw [hasSuffix_iff] at h h'
  rcases List.suffix_or_suffix_of_suffix h h' with hle | hle
  · exact entry_eq_of_isSuffixOf e he e' he' (List.isSuffixOf_iff_suffix.mpr hle)
  · exact (entry_eq_of_isSuffixOf e' he' e he (List.isSuffixOf_iff_suffix.mpr hle)).symm

/-- The result does not depend on the order of the iteration over the table. -/
theorem parseSizeIn_eq {table : List (String × Int)} (h : table.Perm sizeSuffixes) (s : String) :
    parseSizeIn table s = parseSize s := by
  unfold parseSize parseSizeIn
  rw [List.find?_eq_find?_of_perm h fun e he e' he' =>
    entry_unique (h.mem_iff.mp he.1) (h.mem_iff.mp he'.1) he.2 he'.2]

/-! ## Decimals -/

def IsDigit (c : Char) : Prop := '0' ≤ c ∧ c ≤ '9'

/-- The value of digits, after others of the value `acc`. -/
def digitsValue (acc : Nat) (digits : List Char) : Nat :=
  digits.foldl (fun acc c => acc * 10 + (c.toNat - '0'.toNat)) acc

/-- A decimal number with an optional sign, and its value. -/
inductive Decimal : List Char → Int → Prop
  | plain {digits : List Char} (hne : digits ≠ []) (h : ∀ c ∈ digits, IsDigit c) :
      Decimal digits (digitsValue 0 digits)
  | plus {digits : List Char} (hne : digits ≠ []) (h : ∀ c ∈ digits, IsDigit c) :
      Decimal ('+' :: digits) (digitsValue 0 digits)
  | minus {digits : List Char} (hne : digits ≠ []) (h : ∀ c ∈ digits, IsDigit c) :
      Decimal ('-' :: digits) (-digitsValue 0 digits)

theorem parseDigits_eq_some {acc n : Nat} :
    parseDigits acc digits = some n ↔ (∀ c ∈ digits, IsDigit c) ∧ n = digitsValue acc digits := by
  induction digits generalizing acc with
  | nil => simp [parseDigits, digitsValue, eq_comm]
  | cons c digits ih =>
    unfold parseDigits
    by_cases hc : '0' ≤ c ∧ c ≤ '9'
    · rw [if_pos hc, ih, List.forall_mem_cons]
      simp [IsDigit, hc, digitsValue]
    · rw [if_neg hc, List.forall_mem_cons]
      simp [IsDigit, hc]

theorem splitSign_of_isDigit {c : Char} (h : IsDigit c) (cs : List Char) :
    splitSign (c :: cs) = (false, c :: cs) := by
  unfold splitSign
  split
  · rename_i heq
    cases heq
    exact absurd h (by unfold IsDigit; decide)
  · rename_i heq
    cases heq
    exact absurd h (by unfold IsDigit; decide)
  · rfl

/-- `strconv.ParseInt` on a sign and digits. -/
theorem parseInt_of_splitSign {negative : Bool} {value : Int}
    (hsplit : splitSign s.toList = (negative, digits)) (hne : digits ≠ [])
    (hdigits : ∀ c ∈ digits, IsDigit c)
    (hvalue : (if negative then -(digitsValue 0 digits : Int) else digitsValue 0 digits) = value) :
    (-2 ^ 63 ≤ value → value < 2 ^ 63 → parseInt s = .ok value) ∧
      (value < -2 ^ 63 ∨ 2 ^ 63 ≤ value → ∃ e, parseInt s = .error e) := by
  have hread : parseDigits 0 digits = some (digitsValue 0 digits) :=
    parseDigits_eq_some.mpr ⟨hdigits, rfl⟩
  obtain ⟨c, cs, rfl⟩ := List.exists_cons_of_ne_nil hne
  unfold parseInt
  rw [hsplit]
  dsimp only
  rw [hread]
  dsimp only
  rw [hvalue]
  constructor
  · intro hlow hhigh
    rw [if_neg (by omega)]
  · intro hout
    rw [if_pos hout]
    exact ⟨_, rfl⟩

/-- `strconv.ParseInt` reads the decimals that fit in 64 bits and rejects the others. -/
theorem parseInt_of_decimal (h : Decimal s.toList n) :
    (-2 ^ 63 ≤ n → n < 2 ^ 63 → parseInt s = .ok n) ∧
      (n < -2 ^ 63 ∨ 2 ^ 63 ≤ n → ∃ e, parseInt s = .error e) := by
  generalize hcs : s.toList = cs at h
  cases h with
  | plain hne hdigits =>
    refine parseInt_of_splitSign ?_ hne hdigits (if_neg Bool.false_ne_true)
    obtain ⟨c, rest, rfl⟩ := List.exists_cons_of_ne_nil hne
    rw [hcs]
    exact splitSign_of_isDigit (hdigits c List.mem_cons_self) rest
  | plus hne hdigits =>
    exact parseInt_of_splitSign (by rw [hcs]; rfl) hne hdigits (if_neg Bool.false_ne_true)
  | minus hne hdigits =>
    exact parseInt_of_splitSign (by rw [hcs]; rfl) hne hdigits (if_pos rfl)

theorem decimal_of_splitSign {negative : Bool} {n : Nat} {value : Int}
    (hsplit : splitSign cs = (negative, digits)) (hne : digits ≠ [])
    (hn : parseDigits 0 digits = some n) (hvalue : (if negative then -(n : Int) else n) = value) :
    Decimal cs value := by
  obtain ⟨hdigits, rfl⟩ := parseDigits_eq_some.mp hn
  unfold splitSign at hsplit
  split at hsplit <;> cases hsplit
  · rw [← hvalue, if_pos rfl]
    exact .minus hne hdigits
  · rw [← hvalue, if_neg Bool.false_ne_true]
    exact .plus hne hdigits
  · rw [← hvalue, if_neg Bool.false_ne_true]
    exact .plain hne hdigits

theorem decimal_of_parseInt (h : parseInt s = .ok n) : Decimal s.toList n ∧ n < 2 ^ 63 := by
  unfold parseInt at h
  generalize hsplit : splitSign s.toList = parts at h
  obtain ⟨negative, digits⟩ := parts
  dsimp only at h
  split at h
  · rename_i m hn
    generalize hvalue : (if negative then -(m : Int) else m) = value at h
    split at h
    · cases h
    · cases h
      exact ⟨decimal_of_splitSign hsplit (by simp) hn hvalue, by omega⟩
  · cases h

/-- A decimal ends with a digit. -/
theorem Decimal.exists_last (h : Decimal cs n) : ∃ init c, cs = init ++ [c] ∧ IsDigit c := by
  have hlast : ∀ digits : List Char, digits ≠ [] → (∀ c ∈ digits, IsDigit c) →
      ∃ init c, digits = init ++ [c] ∧ IsDigit c := fun digits hne hdigits =>
    ⟨digits.dropLast, digits.getLast hne, (List.dropLast_append_getLast hne).symm,
      hdigits _ (List.getLast_mem hne)⟩
  cases h with
  | plain hne hdigits => exact hlast _ hne hdigits
  | plus hne hdigits =>
    obtain ⟨init, c, heq, hc⟩ := hlast _ hne hdigits
    exact ⟨'+' :: init, c, by rw [heq]; rfl, hc⟩
  | minus hne hdigits =>
    obtain ⟨init, c, heq, hc⟩ := hlast _ hne hdigits
    exact ⟨'-' :: init, c, by rw [heq]; rfl, hc⟩

/-! ## What a size means -/

/-- The string is a decimal `n` and one of the suffixes or none, which stands for `multiplier`. -/
def Denotes (s : String) (n multiplier : Int) : Prop :=
  ∃ cs, Decimal cs n ∧ ∃ suffix, (suffix, multiplier) ∈ ("", 1) :: sizeSuffixes ∧
    s.toList = cs ++ suffix.toList

theorem exists_last_of_mem : ∀ e ∈ sizeSuffixes, ∃ c, e.1.toList.getLast? = some c ∧
    ¬('0' ≤ c ∧ c ≤ '9') ∧ 0 < e.2 := by
  intro e he
  simp only [sizeSuffixes, List.mem_cons, List.not_mem_nil, or_false] at he
  rcases he with rfl | rfl | rfl | rfl | rfl | rfl <;>
    exact ⟨_, rfl, by decide, by decide⟩

/-- A decimal ends with none of the suffixes. -/
theorem find?_of_decimal (h : Decimal s.toList n) :
    sizeSuffixes.find? (fun entry => hasSuffix s entry.1) = none := by
  rw [List.find?_eq_none]
  intro e he hsuffix
  obtain ⟨c, hc, hletter, -⟩ := exists_last_of_mem e he
  obtain ⟨init, d, heq, hdigit⟩ := h.exists_last
  obtain ⟨front, hfront⟩ := hasSuffix_iff.mp hsuffix
  have hlast : (front ++ e.1.toList).getLast? = some c := by
    rw [List.getLast?_append, hc]
    rfl
  rw [hfront, heq, List.getLast?_concat] at hlast
  cases hlast
  exact hletter hdigit

theorem find?_of_mem {e : String × Int} (he : e ∈ sizeSuffixes) (h : hasSuffix s e.1 = true) :
    sizeSuffixes.find? (fun entry => hasSuffix s entry.1) = some e := by
  cases hfind : sizeSuffixes.find? (fun entry => hasSuffix s entry.1) with
  | none => exact absurd h (List.find?_eq_none.mp hfind e he)
  | some e' =>
    have hmatch := List.find?_some hfind
    rw [entry_unique (List.mem_of_find?_eq_some hfind) he hmatch h]

theorem trimSuffix_eq {tail : String} (h : s.toList = cs ++ tail.toList) :
    trimSuffix s tail = String.ofList cs := by
  unfold trimSuffix
  rw [if_pos (hasSuffix_iff.mpr ⟨cs, h.symm⟩), ← String.length_toList, ← String.length_toList, h,
    List.length_append, Nat.add_sub_cancel, List.take_left]

/-- The result of `parseSize` once the number is read. -/
def scaled (multiplier : Int) (number : Except Err Int) : Except Err Int := do
  let value ← number
  if value ≤ 0 then throw (.other "size must be greater than zero")
  return (value * multiplier).bmod (2 ^ 64)

theorem parseSize_of_denotes (h : Denotes s n multiplier) :
    ∃ digits : String, Decimal digits.toList n ∧
      parseSize s = scaled multiplier (parseInt digits) := by
  obtain ⟨cs, hdecimal, suffix, hmem, heq⟩ := h
  rcases List.mem_cons.mp hmem with hnone | hmem
  · obtain ⟨rfl, rfl⟩ := Prod.mk.inj hnone
    rw [String.toList_empty, List.append_nil] at heq
    rw [← heq] at hdecimal
    refine ⟨s, hdecimal, ?_⟩
    unfold parseSize parseSizeIn
    rw [find?_of_decimal hdecimal]
    rfl
  · refine ⟨String.ofList cs, by rwa [String.toList_ofList], ?_⟩
    unfold parseSize parseSizeIn
    rw [find?_of_mem hmem (hasSuffix_iff.mpr ⟨cs, heq.symm⟩)]
    dsimp only
    rw [trimSuffix_eq heq]
    rfl

/-- What is accepted has been read as a number and one of the suffixes or none. -/
theorem denotes_of_parseSize {v : Int} (h : parseSize s = .ok v) :
    ∃ n multiplier, Denotes s n multiplier ∧ 0 < n ∧ n < 2 ^ 63 ∧
      v = (n * multiplier).bmod (2 ^ 64) := by
  have hread : ∃ digits multiplier, parseSize s = scaled multiplier (parseInt digits) ∧
      ∃ suffix, (suffix, multiplier) ∈ ("", 1) :: sizeSuffixes ∧
        s.toList = digits.toList ++ suffix.toList := by
    unfold parseSize parseSizeIn
    cases hfind : sizeSuffixes.find? (fun entry => hasSuffix s entry.1) with
    | none => exact ⟨s, 1, rfl, "", List.mem_cons_self, by simp⟩
    | some e =>
      have hmatch := List.find?_some hfind
      obtain ⟨cs, hcs⟩ := hasSuffix_iff.mp hmatch
      refine ⟨trimSuffix s e.1, e.2, rfl, e.1,
        List.mem_cons_of_mem _ (List.mem_of_find?_eq_some hfind), ?_⟩
      rw [trimSuffix_eq hcs.symm, String.toList_ofList]
      exact hcs.symm
  obtain ⟨digits, multiplier, heq, suffix, hmem, happend⟩ := hread
  rw [heq] at h
  cases hnumber : parseInt digits with
  | error e =>
    rw [hnumber] at h
    cases h
  | ok n =>
    obtain ⟨hdecimal, hlt⟩ := decimal_of_parseInt hnumber
    refine ⟨n, multiplier, ⟨digits.toList, hdecimal, suffix, hmem, happend⟩, ?_⟩
    rw [hnumber] at h
    dsimp only [scaled, bind, Except.bind] at h
    split at h
    · cases h
    · cases h
      exact ⟨by omega, hlt, rfl⟩

theorem one_le_multiplier (h : Denotes s n multiplier) : 1 ≤ multiplier := by
  obtain ⟨-, -, suffix, hmem, -⟩ := h
  rcases List.mem_cons.mp hmem with hnone | hmem
  · cases hnone
    exact le_refl 1
  · obtain ⟨-, -, -, hpos⟩ := exists_last_of_mem _ hmem
    exact hpos

/-! ## Exactness -/

/-- What `parseSize` is for: the sizes it accepts are the exact and positive products of what is
written, and products that are no 64-bit integers are rejected. -/
def ExactSize (s : String) : Prop :=
  (∀ v, parseSize s = .ok v → ∃ n multiplier, Denotes s n multiplier ∧ v = n * multiplier ∧ 0 < v) ∧
    ∀ n multiplier, Denotes s n multiplier →
      ¬(-2 ^ 63 ≤ n * multiplier ∧ n * multiplier < 2 ^ 63) → ∃ e, parseSize s = .error e

theorem parseSize_ok_of_denotes (h : Denotes s n multiplier) (hpos : 0 < n) (hlt : n < 2 ^ 63) :
    parseSize s = .ok ((n * multiplier).bmod (2 ^ 64)) := by
  obtain ⟨digits, hdecimal, heq⟩ := parseSize_of_denotes h
  rw [heq, (parseInt_of_decimal hdecimal).1 (by omega) hlt]
  dsimp only [scaled, bind, Except.bind]
  rw [if_neg (by omega)]
  rfl

theorem parseSize_error_of_denotes (h : Denotes s n multiplier) (hout : n ≤ 0 ∨ 2 ^ 63 ≤ n) :
    ∃ e, parseSize s = .error e := by
  obtain ⟨digits, hdecimal, heq⟩ := parseSize_of_denotes h
  rw [heq]
  cases hnumber : parseInt digits with
  | error e => exact ⟨e, rfl⟩
  | ok m =>
    by_cases hfits : -2 ^ 63 ≤ n ∧ n < 2 ^ 63
    · have hm := (parseInt_of_decimal hdecimal).1 hfits.1 hfits.2
      rw [hnumber] at hm
      cases hm
      dsimp only [scaled, bind, Except.bind]
      rw [if_pos (by omega)]
      exact ⟨_, rfl⟩
    · obtain ⟨e, he⟩ := (parseInt_of_decimal hdecimal).2 (by omega)
      rw [hnumber] at he
      cases he

/-- Sizes are exact for the strings whose product fits in 64 bits if its number does. -/
theorem exactSize_iff (s : String) :
    ExactSize s ↔ ∀ n multiplier, Denotes s n multiplier → n < 2 ^ 63 →
      n * multiplier < 2 ^ 63 := by
  constructor
  · intro hexact n multiplier hdenotes hlt
    by_contra hover
    have hone := one_le_multiplier hdenotes
    have hpos : 0 < n := by
      by_contra hn
      exact hover (lt_of_le_of_lt (Int.mul_nonpos_of_nonpos_of_nonneg (not_lt.mp hn) (by omega))
        (by decide))
    obtain ⟨e, he⟩ := hexact.2 n multiplier hdenotes fun hfits => hover hfits.2
    rw [parseSize_ok_of_denotes hdenotes hpos hlt] at he
    cases he
  · intro hfits
    constructor
    · intro v hv
      obtain ⟨n, multiplier, hdenotes, hpos, hlt, rfl⟩ := denotes_of_parseSize hv
      have hone := one_le_multiplier hdenotes
      have hprod : 0 < n * multiplier := Int.mul_pos hpos (by omega)
      have hbound := hfits n multiplier hdenotes hlt
      have hexact : (n * multiplier).bmod (2 ^ 64) = n * multiplier :=
        Int.bmod_eq_of_le (by omega) (by omega)
      rw [hexact]
      exact ⟨n, multiplier, hdenotes, rfl, hprod⟩
    · intro n multiplier hdenotes hout
      refine parseSize_error_of_denotes hdenotes ?_
      by_contra hin
      have hone := one_le_multiplier hdenotes
      have hprod : 0 < n * multiplier := Int.mul_pos (by omega) (by omega)
      exact hout ⟨by omega, hfits n multiplier hdenotes (by omega)⟩

/-- A size of 2^34 gibibytes is accepted as a size of zero. -/
theorem not_exactSize_wrapped : ¬ExactSize "17179869184Gi" := by
  intro h
  obtain ⟨n, multiplier, -, -, hpos⟩ := h.1 0 (by decide +kernel)
  exact absurd hpos (lt_irrefl 0)

end LlmOperator.Backend
