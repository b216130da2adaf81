import Mathlib.Data.List.Basic

/-!
# The string and path functions of the Go standard library

Prefix, suffix and substring tests, `strings.TrimSpace`, `strings.EqualFold` and
`path.Clean`, on the characters of a string. They are structural recursions on lists of
characters, so that they can be evaluated on literals.
-/

namespace LlmOperator.Data.GoString

/-- `strings.HasPrefix`. -/
def hasPrefix (s start : String) : Bool := start.toList.isPrefixOf s.toList

/-- `strings.HasSuffix`. -/
def hasSuffix (s tail : String) : Bool := tail.toList.isSuffixOf s.toList

/-- `strings.CutPrefix`, with `none` for a string that does not begin so. -/
def cutPrefix (s start : String) : Option String :=
  if hasPrefix s start then some (String.ofList (s.toList.drop start.toList.length)) else none

/-- `strings.TrimPrefix`. -/
def trimPrefix (s start : String) : String := (cutPrefix s start).getD s

/-- `strings.TrimSuffix`. -/
def trimSuffix (s tail : String) : String :=
  if hasSuffix s tail then String.ofList (s.toList.take (s.length - tail.length)) else s

def containsChars (pattern : List Char) : List Char → Bool
  | [] => pattern.isEmpty
  | c :: cs => pattern.isPrefixOf (c :: cs) || containsChars pattern cs

/-- `strings.Contains`. -/
def contains (s pattern : String) : Bool := containsChars pattern.toList s.toList

/-- `unicode.IsSpace`: the white space of the Unicode standard. -/
def isSpace (c : Char) : Bool :=
  let n := c.toNat
  (9 ≤ n && n ≤ 13) || n == 0x20 || n == 0x85 || n == 0xA0 || n == 0x1680 ||
    (0x2000 ≤ n && n ≤ 0x200a) || n == 0x2028 || n == 0x2029 || n == 0x202f ||
    n == 0x205f || n == 0x3000

/-- `strings.TrimSpace`. -/
def trimSpace (s : String) : String :=
  String.ofList ((s.toList.dropWhile isSpace).reverse.dropWhile isSpace).reverse

theorem dropWhile_isSpace {l : List Char} (h : ∀ c ∈ l, isSpace c = false) :
    l.dropWhile isSpace = l := by
  cases l with
  | nil => rfl
  | cons c l => simp [h c List.mem_cons_self]

/-- A string without spaces stays as it is. -/
theorem trimSpace_eq_self {s : String} (h : ∀ c ∈ s.toList, isSpace c = false) :
    trimSpace s = s := by
  unfold trimSpace
  rw [dropWhile_isSpace h, dropWhile_isSpace fun c hc => h c (List.mem_reverse.mp hc),
    List.reverse_reverse, String.ofList_toList]

/-- The simple case folding of the characters that fold to an ASCII letter: the capital
letters, the long s and the Kelvin sign. -/
def foldChar (c : Char) : Char :=
  if c.toNat == 0x17f then 's' else if c.toNat == 0x212a then 'k' else c.toLower

/-- `strings.EqualFold`, for an ASCII second argument. -/
def equalFold (s ascii : String) : Bool := s.toList.map foldChar == ascii.toList.map foldChar

/-- `strconv.Quote` of a string of printable characters without quotes and backslashes,
which is what resource and model names are. -/
def quote (s : String) : String := "\"" ++ s ++ "\""

/-! ## Paths -/

/-- The elements of a path between its slashes, empty ones included. -/
def splitSlash : List Char → List (List Char)
  | [] => [[]]
  | c :: cs =>
    match splitSlash cs with
    | [] => [[c]]
    | e :: es => if c = '/' then [] :: e :: es else (c :: e) :: es

/-- One element of a path on the stack of the elements kept so far. -/
def cleanStep (rooted : Bool) (stack : List (List Char)) (e : List Char) : List (List Char) :=
  if e = [] ∨ e = ['.'] then stack
  else if e = ['.', '.'] then
    match stack with
    | [] => if rooted then [] else [e]
    | top :: rest => if top = ['.', '.'] then e :: top :: rest else rest
  else e :: stack

/-- `path.Clean`, and `filepath.Clean` on systems with slashes. -/
def cleanPath (s : String) : String :=
  let rooted := hasPrefix s "/"
  let kept := ((splitSlash s.toList).foldl (cleanStep rooted) []).reverse
  let body := List.intercalate ['/'] kept
  if rooted then String.ofList ('/' :: body)
  else if body = [] then "." else String.ofList body

example : cleanPath "gguf/a/../b//c/." = "gguf/b/c" := by decide +kernel

end LlmOperator.Data.GoString
