import Mathlib.Data.List.Basic

/-!
# Valid JSON texts

`json.Valid` of Go runs a scanner over the text: one state for the place inside the current
value, and a stack of what surrounds it. The scanner below has the states of `encoding/json`;
those that only differ in how many characters of a literal or of an escape are still to come are
one state with a parameter.
-/

namespace LlmOperator.Data.JsonScan

inductive State where
  | beginValue
  | beginValueOrEmpty
  | beginString
  | beginStringOrEmpty
  | endValue
  | endTop
  | inString
  | inStringEsc
  /-- Inside an escape by number, with so many digits to come. -/
  | inStringHex (left : Nat)
  | neg
  | digits
  | zero
  | dot
  | dot0
  | e
  | eSign
  | e0
  /-- Inside `true`, `false` or `null`. -/
  | literal (rest : List Char)
  deriving DecidableEq

inductive ParseState where
  | objectKey
  | objectValue
  | arrayValue
  deriving DecidableEq

structure Scanner where
  state : State
  parseState : List ParseState
  deriving DecidableEq

def maxNestingDepth : Nat := 10000

section

variable (stack : List ParseState) (c : Char)

def isSpace : Bool := c = ' ' || c = '\t' || c = '\r' || c = '\n'

def isDigit : Bool := '0' ≤ c && c ≤ '9'

def isHexDigit : Bool :=
  isDigit c || ('a' ≤ c && c ≤ 'f') || ('A' ≤ c && c ≤ 'F')

def pushParseState (next : State) (top : ParseState) : Option Scanner :=
  if stack.length + 1 ≤ maxNestingDepth then some ⟨next, top :: stack⟩ else none

def popParseState : Scanner :=
  if stack.isEmpty then ⟨.endTop, []⟩ else ⟨.endValue, stack⟩

def stateEndTop : Option Scanner := if isSpace c then some ⟨.endTop, []⟩ else none

def stateEndValue : Option Scanner :=
  match stack with
  | [] => stateEndTop c
  | top :: rest =>
    if isSpace c then some ⟨.endValue, stack⟩
    else
      match top with
      | .objectKey => if c = ':' then some ⟨.beginValue, .objectValue :: rest⟩ else none
      | .objectValue =>
        if c = ',' then some ⟨.beginString, .objectKey :: rest⟩
        else if c = '\x7d' then some (popParseState rest)
        else none
      | .arrayValue =>
        if c = ',' then some ⟨.beginValue, stack⟩
        else if c = ']' then some (popParseState rest)
        else none

def stateBeginValue : Option Scanner :=
  if isSpace c then some ⟨.beginValue, stack⟩
  else if c = '\x7b' then pushParseState stack .beginStringOrEmpty .objectKey
  else if c = '[' then pushParseState stack .beginValueOrEmpty .arrayValue
  else if c = '"' then some ⟨.inString, stack⟩
  else if c = '-' then some ⟨.neg, stack⟩
  else if c = '0' then some ⟨.zero, stack⟩
  else if c = 't' then some ⟨.literal ['r', 'u', 'e'], stack⟩
  else if c = 'f' then some ⟨.literal ['a', 'l', 's', 'e'], stack⟩
  else if c = 'n' then some ⟨.literal ['u', 'l', 'l'], stack⟩
  else if isDigit c then some ⟨.digits, stack⟩
  else none

def stateBeginString : Option Scanner :=
  if isSpace c then some ⟨.beginString, stack⟩
  else if c = '"' then some ⟨.inString, stack⟩
  else none

def state0 : Option Scanner :=
  if c = '.' then some ⟨.dot, stack⟩
  else if c = 'e' || c = 'E' then some ⟨.e, stack⟩
  else stateEndValue stack c

def stateESign : Option Scanner :=
  if isDigit c then some ⟨.e0, stack⟩ else none

end

/-- One character. -/
def Scanner.step (s : Scanner) (c : Char) : Option Scanner :=
  let stack := s.parseState
  match s.state with
  | .beginValue => stateBeginValue stack c
  | .beginValueOrEmpty =>
    if isSpace c then some s
    else if c = ']' then stateEndValue stack c
    else stateBeginValue stack c
  | .beginString => stateBeginString stack c
  | .beginStringOrEmpty =>
    if isSpace c then some s
    else if c = '\x7d' then stateEndValue (.objectValue :: stack.tail) c
    else stateBeginString stack c
  | .endValue => stateEndValue stack c
  | .endTop => stateEndTop c
  | .inString =>
    if c = '"' then some ⟨.endValue, stack⟩
    else if c = '\\' then some ⟨.inStringEsc, stack⟩
    else if c < ' ' then none
    else some s
  | .inStringEsc =>
    if c ∈ ['b', 'f', 'n', 'r', 't', '\\', '/', '"'] then some ⟨.inString, stack⟩
    else if c = 'u' then some ⟨.inStringHex 4, stack⟩
    else none
  | .inStringHex left =>
    if isHexDigit c then
      some ⟨if left ≤ 1 then .inString else .inStringHex (left - 1), stack⟩
    else none
  | .neg =>
    if c = '0' then some ⟨.zero, stack⟩ else if isDigit c then some ⟨.digits, stack⟩ else none
  | .digits => if isDigit c then some s else state0 stack c
  | .zero => state0 stack c
  | .dot => if isDigit c then some ⟨.dot0, stack⟩ else none
  | .dot0 =>
    if isDigit c then some s
    else if c = 'e' || c = 'E' then some ⟨.e, stack⟩
    else stateEndValue stack c
  | .e => if c = '+' || c = '-' then some ⟨.eSign, stack⟩ else stateESign stack c
  | .eSign => stateESign stack c
  | .e0 => if isDigit c then some s else stateEndValue stack c
  | .literal (next :: rest) =>
    if c = next then some ⟨if rest.isEmpty then .endValue else .literal rest, stack⟩ else none
  | .literal [] => stateEndValue stack c

/-- The text may end here. A number at the top has no end of its own. -/
def Scanner.eof (s : Scanner) : Bool :=
  s.state = .endTop || (s.step ' ').any fun s => s.state = .endTop

/-- `json.Valid`. -/
def valid (text : String) : Bool :=
  (text.toList.foldlM Scanner.step ⟨.beginValue, []⟩).any Scanner.eof

example : valid "[1.5e-3, \x7b\"a\": [true, \"\\u00e9\"]\x7d]" = true := by decide

example : valid "\x7b\"a\": 01\x7d" = false := by decide

end LlmOperator.Data.JsonScan
