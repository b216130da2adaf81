import LlmOperator.Data.MergePatch
import Mathlib.Data.List.Infix

/-!
# Prometheus labels

The operator and the proxy each read the labels of a metric with a hand-written scanner. It looks
for the end of a value by looking one character back: a quote after a backslash is taken for a quote
of the value. That is right unless the backslash is itself the second character of an escape, that
is, unless the value ends with a backslash.

The text of a list of labels has two quotes for every label. A scan uses up two quotes that no
backslash precedes for every label it finds, so that with one such quote missing it cannot find all
of them, whatever it finds instead.
-/

namespace LlmOperator.Backend

open Data

/-! ## The scanner -/

/-- The characters before the first quote that no backslash precedes, or all of them. -/
def beforeQuote : Char → List Char → Nat
  | _, [] => 0
  | before, c :: rest => if c = '"' ∧ before ≠ '\\' then 0 else beforeQuote c rest + 1

/-- The index `end` after the inner loop, which begins behind the opening quote. -/
def closingQuote : List Char → Nat
  | [] => 1
  | c :: rest => beforeQuote c rest + 1

/-- `strings.TrimPrefix(encoded, ",")`. -/
def trimComma : List Char → List Char
  | ',' :: rest => rest
  | encoded => encoded

section Scanner

variable (atEnd : Nat → Nat → Bool) (unquote : String → Option String)

/-- One pass of the loop: a label and the text after it, or nothing where the loop returns. The two
functions differ in how they test for the end of the text. -/
def scanLabel (encoded : List Char) : Option (String × String × List Char) :=
  match encoded.idxOf? '=' with
  | none => none
  | some equals =>
    if equals < 1 ∨ encoded.length ≤ equals + 1 ∨ encoded[equals + 1]? ≠ some '"' then none
    else
      let value := encoded.drop (equals + 1)
      if atEnd (closingQuote value) value.length then none
      else
        (unquote (String.ofList (value.take (closingQuote value + 1)))).map fun text =>
          (String.ofList (encoded.take equals), text,
            trimComma (value.drop (closingQuote value + 1)))

/-- The loop. Every pass shortens the text, so its length is enough fuel. -/
def scanLabels : Nat → List Char → FMap String String → FMap String String
  | 0, _, labels => labels
  | fuel + 1, encoded, labels =>
    if encoded = [] then labels
    else
      match scanLabel atEnd unquote encoded with
      | none => labels
      | some (key, value, rest) => scanLabels fuel rest (labels.insert key value)

end Scanner

/-- `parsePrometheusLabels` of the operator. -/
def parsePrometheusLabels (unquote : String → Option String) (encoded : String) :
    FMap String String :=
  scanLabels (fun fin len => fin ≥ len) unquote encoded.toList.length encoded.toList ∅

/-- `prometheusLabels` of the proxy. -/
def prometheusLabels (unquote : String → Option String) (encoded : String) : FMap String String :=
  scanLabels (fun fin len => fin == len) unquote encoded.toList.length encoded.toList ∅

/-! ## The exposition format -/

/-- The name of a label: letters, digits and underscores, with no digit at the beginning. -/
def LabelName (s : String) : Prop :=
  s.toList.head?.any (fun c => c.isAlpha || c == '_') = true ∧
    s.toList.all (fun c => c.isAlphanum || c == '_') = true

instance : DecidablePred LabelName := fun _ => inferInstanceAs (Decidable (_ = true ∧ _ = true))

def escapeChar : Char → List Char
  | '\\' => ['\\', '\\']
  | '"' => ['\\', '"']
  | '\n' => ['\\', 'n']
  | c => [c]

def escape (s : List Char) : List Char := s.flatMap escapeChar

/-- The literal of a value. -/
def quoted (s : List Char) : List Char := '"' :: (escape s ++ ['"'])

/-- The text of a list of labels. -/
def exposition : List (String × String) → List Char
  | [] => []
  | [e] => e.1.toList ++ '=' :: quoted e.2.toList
  | e :: e' :: l => e.1.toList ++ '=' :: (quoted e.2.toList ++ ',' :: exposition (e' :: l))

def encodeLabels (l : List (String × String)) : String := String.ofList (exposition l)

/-- What is assumed of `strconv.Unquote`: it undoes the escaping of a value. -/
def Unquotes (unquote : String → Option String) : Prop :=
  ∀ s : String, unquote (String.ofList (quoted s.toList)) = some s

/-- The value ends with a backslash. -/
def EndsInBackslash (s : String) : Prop := s.toList.getLast? = some '\\'

instance : DecidablePred EndsInBackslash := fun s =>
  inferInstanceAs (Decidable (s.toList.getLast? = some '\\'))

theorem LabelName.notMem {s : String} (h : LabelName s) {c : Char} (hc : c.isAlphanum = false)
    (hne : c ≠ '_') : c ∉ s.toList := by
  intro hmem
  have hchar := List.all_eq_true.mp h.2 c hmem
  simp [hc, hne] at hchar

theorem LabelName.ne_nil {s : String} (h : LabelName s) : s.toList ≠ [] := by
  intro hnil
  have hfirst := h.1
  rw [hnil] at hfirst
  cases hfirst

/-! ## Quotes -/

/-- The quotes that no backslash precedes, in a text that does or does not follow a backslash. -/
def quotes : Bool → List Char → Nat
  | _, [] => 0
  | escaped, c :: rest => (if c = '"' ∧ escaped = false then 1 else 0) + quotes (c == '\\') rest

theorem escapeChar_cases (c : Char) :
    (c = '\\' ∧ escapeChar c = ['\\', '\\']) ∨ (c = '"' ∧ escapeChar c = ['\\', '"']) ∨
      (c = '\n' ∧ escapeChar c = ['\\', 'n']) ∨ (c ≠ '\\' ∧ c ≠ '"' ∧ escapeChar c = [c]) := by
  unfold escapeChar
  split
  · exact .inl ⟨rfl, rfl⟩
  · exact .inr (.inl ⟨rfl, rfl⟩)
  · exact .inr (.inr (.inl ⟨rfl, rfl⟩))
  · exact .inr (.inr (.inr ⟨‹_›, ‹_›, rfl⟩))

theorem beforeQuote_congr {c c' : Char} (h : c = '\\' ↔ c' = '\\') (s : List Char) :
    beforeQuote c s = beforeQuote c' s := by
  cases s with
  | nil => rfl
  | cons d s => simp only [beforeQuote, ne_eq, h]

variable (s : List Char)

/-- In the literal of a value the scanner passes over everything but the closing quote, and over
that too if the value ends with a backslash. -/
theorem beforeQuote_escape {before : Char} (rest : List Char) (hs : s.getLast?.getD before ≠ '\\') :
    beforeQuote before (escape s ++ '"' :: rest) = (escape s).length := by
  induction s generalizing before with
  | nil => simpa [escape, beforeQuote] using hs
  | cons c s ih =>
    rw [List.getLast?_cons, Option.getD_some] at hs
    have hnext := ih hs
    have hcons : escape (c :: s) = escapeChar c ++ escape s := rfl
    rw [hcons]
    rcases escapeChar_cases c with ⟨rfl, hc⟩ | ⟨rfl, hc⟩ | ⟨rfl, hc⟩ | ⟨_, hq, hc⟩
    · simp [hc, beforeQuote, hnext]
    · simp [hc, beforeQuote, hnext]
    · have hn : beforeQuote 'n' (escape s ++ '"' :: rest) = (escape s).length :=
        (beforeQuote_congr (by decide) _).trans hnext
      simp [hc, beforeQuote, hn]
    · simp [hc, beforeQuote, hq, hnext]

theorem quotes_escape (before : Char) (rest : List Char) :
    quotes (before == '\\') (escape s ++ '"' :: rest) =
      (if s.getLast?.getD before = '\\' then 0 else 1) + quotes false rest := by
  induction s generalizing before with
  | nil => by_cases h : before = '\\' <;> simp [escape, quotes, h]
  | cons c s ih =>
    have hnext := ih c
    have hcons : escape (c :: s) = escapeChar c ++ escape s := rfl
    rw [hcons, List.getLast?_cons, Option.getD_some]
    rcases escapeChar_cases c with ⟨rfl, hc⟩ | ⟨rfl, hc⟩ | ⟨rfl, hc⟩ | ⟨_, hq, hc⟩
    · simpa [hc, quotes] using hnext
    · simpa [hc, quotes] using hnext
    · simpa [hc, quotes] using hnext
    · simpa [hc, quotes, hq] using hnext

/-- A text without quotes up to an equals sign. -/
theorem quotes_name {s : List Char} (hs : '"' ∉ s) (escaped : Bool) (rest : List Char) :
    quotes escaped (s ++ '=' :: rest) = quotes false rest := by
  induction s generalizing escaped with
  | nil => simp [quotes]
  | cons c s ih =>
    rw [List.mem_cons, not_or] at hs
    simp [quotes, Ne.symm hs.1, ih hs.2]

theorem quotes_drop_equals {s : List Char} {i : Nat} (hi : s[i]? = some '=') (escaped : Bool) :
    quotes false (s.drop (i + 1)) ≤ quotes escaped s := by
  induction s generalizing i escaped with
  | nil => simp at hi
  | cons c s ih =>
    cases i with
    | zero =>
      obtain rfl : c = '=' := by simpa using hi
      simp [quotes]
    | succ i =>
      have := ih (i := i) (by simpa using hi) (c == '\\')
      simp only [quotes, List.drop_succ_cons]
      omega

/-- The quote that ends a literal is one of those that no backslash precedes. -/
theorem quotes_closing {s : List Char} {before : Char} (h : beforeQuote before s < s.length) :
    quotes (before == '\\') s = 1 + quotes false (s.drop (beforeQuote before s + 1)) := by
  induction s generalizing before with
  | nil => simp at h
  | cons c s ih =>
    by_cases hq : c = '"' ∧ before ≠ '\\'
    · obtain ⟨rfl, hb⟩ := hq
      simp [beforeQuote, quotes, hb]
    · rw [beforeQuote, if_neg hq, List.length_cons] at h
      have hnext : quotes (c == '\\') s = _ := ih (by omega)
      rw [beforeQuote, if_neg hq, quotes, List.drop_succ_cons, ← hnext, if_neg, Nat.zero_add]
      simpa using hq

/-! ## One pass -/

section Pass

variable {atEnd : Nat → Nat → Bool} {unquote : String → Option String}

/-- The test for the end of the text, of which an index never passes the end. -/
def TestsEnd (atEnd : Nat → Nat → Bool) : Prop :=
  ∀ fin len, fin ≤ len → (atEnd fin len = true ↔ fin = len)

theorem beforeQuote_le (before : Char) (s : List Char) : beforeQuote before s ≤ s.length := by
  induction s generalizing before with
  | nil => simp [beforeQuote]
  | cons c s ih =>
    have := ih c
    simp only [beforeQuote, List.length_cons]
    split <;> omega

theorem quotes_trimComma : quotes false (trimComma s) = quotes false s := by
  unfold trimComma
  split
  · simp [quotes]
  · rfl

/-- A label that is found takes two quotes with it. -/
theorem quotes_scanLabel (hend : TestsEnd atEnd) {encoded rest : List Char} {key value : String}
    (h : scanLabel atEnd unquote encoded = some (key, value, rest)) :
    2 + quotes false rest ≤ quotes false encoded := by
  unfold scanLabel at h
  split at h
  · cases h
  · rename_i equals hequals
    split at h
    · cases h
    · rename_i hopen
      simp only [not_or, not_le, not_not] at hopen
      obtain ⟨_, hlen, hquote⟩ := hopen
      have hat : encoded[equals]? = some '=' := by
        obtain ⟨hlt, heq, _⟩ := List.idxOf?_eq_some_iff.mp hequals
        simp [List.getElem?_eq_getElem hlt, heq]
      obtain ⟨literal, hliteral⟩ : ∃ literal, encoded.drop (equals + 1) = '"' :: literal := by
        refine ⟨encoded.drop (equals + 2), ?_⟩
        rw [List.drop_eq_getElem_cons hlen]
        rw [List.getElem?_eq_getElem hlen] at hquote
        rw [Option.some.inj hquote]
      have hafter := quotes_drop_equals hat false
      dsimp only at h
      rw [hliteral] at h hafter
      split at h
      · cases h
      · rename_i hclosing
        obtain ⟨text, _, heq⟩ := Option.map_eq_some_iff.mp h
        obtain rfl : trimComma _ = rest := congrArg (fun x => x.2.2) heq
        have hle := beforeQuote_le '"' literal
        have hlt : beforeQuote '"' literal < literal.length := by
          have := mt (hend (closingQuote ('"' :: literal)) ('"' :: literal).length
            (by simp [closingQuote, hle])).mpr hclosing
          simp only [closingQuote, List.length_cons] at this
          omega
        have hq := quotes_closing hlt
        rw [quotes_trimComma]
        simp only [closingQuote, List.drop_succ_cons]
        simp only [quotes] at hafter hq ⊢
        simp at hafter hq
        omega

/-- A label whose value does not end with a backslash is found. -/
theorem scanLabel_pair (hend : TestsEnd atEnd) (hunquote : Unquotes unquote) {name value : String}
    (hname : LabelName name) (hvalue : ¬ EndsInBackslash value) (rest : List Char) :
    scanLabel atEnd unquote (name.toList ++ '=' :: (quoted value.toList ++ rest)) =
      some (name, value, trimComma rest) := by
  have hequals : (name.toList ++ '=' :: (quoted value.toList ++ rest)).idxOf? '=' =
      some name.toList.length := by
    have hnone := hname.notMem (c := '=') (by decide) (by decide)
    refine List.idxOf?_eq_some_iff.mpr ⟨by simp, by simp, fun j hj => ?_⟩
    rw [List.getElem_append_left hj]
    exact fun h => hnone (h ▸ List.getElem_mem hj)
  have hpos : 0 < name.toList.length := List.length_pos_of_ne_nil hname.ne_nil
  have hdrop : (name.toList ++ '=' :: (quoted value.toList ++ rest)).drop (name.toList.length + 1) =
      quoted value.toList ++ rest := by
    simp
  have hclosing : closingQuote (quoted value.toList ++ rest) =
      (escape value.toList).length + 1 := by
    have hlast : value.toList.getLast?.getD '"' ≠ '\\' := by
      intro h
      cases hl : value.toList.getLast? with
      | none =>
        rw [hl] at h
        cases h
      | some c =>
        rw [hl] at h
        exact hvalue (hl.trans (congrArg some h))
    have := beforeQuote_escape value.toList rest hlast
    simpa [quoted, closingQuote] using this
  have htake : (quoted value.toList ++ rest).take ((escape value.toList).length + 2) =
      quoted value.toList := by
    rw [List.take_append_of_le_length (by simp [quoted]), List.take_of_length_le (by simp [quoted])]
  have hrest : (quoted value.toList ++ rest).drop ((escape value.toList).length + 2) = rest := by
    have hlen : (quoted value.toList).length = (escape value.toList).length + 2 := by simp [quoted]
    rw [← hlen, List.drop_left]
  have hopen : ¬ (name.toList.length < 1 ∨
      (name.toList ++ '=' :: (quoted value.toList ++ rest)).length ≤ name.toList.length + 1 ∨
      (name.toList ++ '=' :: (quoted value.toList ++ rest))[name.toList.length + 1]? ≠
        some '"') := by
    have hfirst : (name.toList ++ '=' :: (quoted value.toList ++ rest))[name.toList.length + 1]? =
        some '"' := by
      rw [List.getElem?_append_right (by omega)]
      simp [quoted]
    rintro (h | h | h)
    · omega
    · simp [quoted] at h
    · exact h hfirst
  have htest : ¬ atEnd ((escape value.toList).length + 1) (quoted value.toList ++ rest).length =
      true := by
    rw [hend _ _ (by simp [quoted])]
    simp [quoted]
  unfold scanLabel
  rw [hequals]
  dsimp only
  rw [if_neg hopen, hdrop, hclosing, if_neg htest, htake, hunquote value, hrest]
  simp

end Pass

/-! ## The whole text -/

theorem exposition_cons (e : String × String) (l : List (String × String)) :
    ∃ rest, exposition (e :: l) = e.1.toList ++ '=' :: (quoted e.2.toList ++ rest) ∧
      trimComma rest = exposition l := by
  cases l with
  | nil => exact ⟨[], by simp [exposition], rfl⟩
  | cons e' l => exact ⟨',' :: exposition (e' :: l), rfl, rfl⟩

/-- Two quotes for every label, less those that a backslash hides. -/
theorem quotes_exposition {l : List (String × String)} (hnames : ∀ e ∈ l, LabelName e.1) :
    quotes false (exposition l) + l.countP (fun e => decide (EndsInBackslash e.2)) =
      2 * l.length := by
  induction l with
  | nil => rfl
  | cons e l ih =>
    obtain ⟨rest, hrest, htrim⟩ := exposition_cons e l
    have hname := (hnames e List.mem_cons_self).notMem (c := '"') (by decide) (by decide)
    have hnext := ih fun e' he' => hnames e' (List.mem_cons_of_mem _ he')
    have hvalue := quotes_escape e.2.toList '"' rest
    have hends : e.2.toList.getLast?.getD '"' = '\\' ↔ EndsInBackslash e.2 := by
      unfold EndsInBackslash
      cases e.2.toList.getLast? with
      | none => simp
      | some c => simp
    have htail : quotes false rest = quotes false (exposition l) := by
      rw [← htrim, quotes_trimComma]
    rw [hrest, quotes_name hname, List.countP_cons, List.length_cons]
    simp only [quoted, List.cons_append, List.append_assoc, List.nil_append, quotes] at hvalue ⊢
    simp only [hends] at hvalue
    simp only [decide_eq_true_eq, true_and, if_true]
    rw [show ('"' == '\\') = false from rfl] at hvalue ⊢
    split at hvalue <;> simp_all <;> omega

section Whole

variable {atEnd : Nat → Nat → Bool} {unquote : String → Option String} {l : List (String × String)}

theorem card_insert_le (labels : FMap String String) (key value : String) :
    (labels.insert key value).keys.card ≤ labels.keys.card + 1 := by
  refine (Finset.card_le_card fun k hk => ?_).trans (Finset.card_insert_le key labels.keys)
  rw [Finmap.mem_keys, Finmap.mem_insert] at hk
  rwa [Finset.mem_insert, Finmap.mem_keys]

theorem card_scanLabels (hend : TestsEnd atEnd) (fuel : Nat) (encoded : List Char)
    (labels : FMap String String) :
    2 * (scanLabels atEnd unquote fuel encoded labels).keys.card ≤
      2 * labels.keys.card + quotes false encoded := by
  induction fuel generalizing encoded labels with
  | zero => simp [scanLabels]
  | succ fuel ih =>
    unfold scanLabels
    split
    · omega
    · split
      · omega
      · rename_i key value rest hlabel
        have hstep := quotes_scanLabel hend hlabel
        have hrest := ih rest (labels.insert key value)
        have hcard := card_insert_le labels key value
        omega

theorem lookup_scanLabels (hend : TestsEnd atEnd) (hunquote : Unquotes unquote)
    (hnames : ∀ e ∈ l, LabelName e.1) (hdistinct : (l.map Prod.fst).Nodup)
    (hvalues : ∀ e ∈ l, ¬ EndsInBackslash e.2) {fuel : Nat} (hfuel : l.length ≤ fuel)
    (labels : FMap String String) (k v : String) :
    (scanLabels atEnd unquote fuel (exposition l) labels).lookup k = some v ↔
      (k, v) ∈ l ∨ (k ∉ l.map Prod.fst ∧ labels.lookup k = some v) := by
  induction l generalizing fuel labels with
  | nil => cases fuel <;> simp [scanLabels, exposition]
  | cons e l ih =>
    obtain ⟨fuel, rfl⟩ : ∃ n, fuel = n + 1 :=
      ⟨fuel - 1, by rw [List.length_cons] at hfuel; omega⟩
    obtain ⟨rest, hrest, htrim⟩ := exposition_cons e l
    rw [List.map_cons, List.nodup_cons] at hdistinct
    have hne : exposition (e :: l) ≠ [] := by
      rw [hrest]
      simp
    rw [scanLabels, if_neg hne, hrest, scanLabel_pair hend hunquote (hnames e List.mem_cons_self)
      (hvalues e List.mem_cons_self)]
    dsimp only
    rw [htrim, ih (fun e' h => hnames e' (List.mem_cons_of_mem _ h)) hdistinct.2
      (fun e' h => hvalues e' (List.mem_cons_of_mem _ h))
        (by rw [List.length_cons] at hfuel; omega)]
    by_cases hk : k = e.1
    · have hnone : (k, v) ∉ l := fun h => hdistinct.1 (hk ▸ List.mem_map_of_mem h)
      have hnames' : k ∉ l.map Prod.fst := hk ▸ hdistinct.1
      rw [hk] at hnone hnames' ⊢
      rw [Finmap.lookup_insert]
      simp only [hnone, hnames', Option.some.injEq, List.mem_cons, List.map_cons,
        not_true_eq_false, false_and, or_false, false_or, not_false_eq_true, true_and]
      exact ⟨fun h => by rw [← h], fun h => by rw [← h]⟩
    · rw [Finmap.lookup_insert_of_ne _ hk]
      have hpair : (k, v) ≠ e := fun h => hk (congrArg Prod.fst h)
      simp only [List.mem_cons, List.map_cons, hk, hpair, false_or]

end Whole

/-- The map holds exactly the labels of the list. -/
def Reads (labels : FMap String String) (l : List (String × String)) : Prop :=
  ∀ k v, labels.lookup k = some v ↔ (k, v) ∈ l

theorem length_le_exposition (l : List (String × String)) : l.length ≤ (exposition l).length := by
  induction l with
  | nil => simp
  | cons e l ih =>
    obtain ⟨rest, hrest, htrim⟩ := exposition_cons e l
    have htail : (trimComma rest).length ≤ rest.length := by
      unfold trimComma
      split <;> simp
    rw [htrim] at htail
    rw [hrest]
    simp
    omega

/-- The scanner reads a list of labels back if and only if no value ends with a backslash. -/
theorem scanLabels_reads_iff {atEnd : Nat → Nat → Bool} (hend : TestsEnd atEnd)
    {unquote : String → Option String} (hunquote : Unquotes unquote) {l : List (String × String)}
    (hnames : ∀ e ∈ l, LabelName e.1) (hdistinct : (l.map Prod.fst).Nodup) :
    Reads (scanLabels atEnd unquote (exposition l).length (exposition l) ∅) l ↔
      ∀ e ∈ l, ¬ EndsInBackslash e.2 := by
  constructor
  · intro hreads e he hends
    have hkeys : (l.map Prod.fst).toFinset ⊆
        (scanLabels atEnd unquote (exposition l).length (exposition l) ∅).keys := by
      intro k hk
      obtain ⟨e', he', rfl⟩ := List.mem_map.mp (List.mem_toFinset.mp hk)
      rw [Finmap.mem_keys, Finmap.mem_iff]
      exact ⟨e'.2, (hreads e'.1 e'.2).mpr he'⟩
    have hcard := Finset.card_le_card hkeys
    rw [List.toFinset_card_of_nodup hdistinct, List.length_map] at hcard
    have hfound := (Nat.mul_le_mul_left 2 hcard).trans (card_scanLabels hend _ _ _)
    have hquotes := quotes_exposition hnames
    have hhidden : 0 < l.countP fun e => decide (EndsInBackslash e.2) :=
      List.countP_pos_iff.mpr ⟨e, he, decide_eq_true hends⟩
    simp only [Finmap.keys_empty, Finset.card_empty] at hfound
    omega
  · intro hvalues k v
    rw [lookup_scanLabels hend hunquote hnames hdistinct hvalues (length_le_exposition l)]
    simp

/-- Both functions read a list of labels back if and only if no value ends with a backslash. -/
theorem labels_read_iff {unquote : String → Option String} (hunquote : Unquotes unquote)
    {l : List (String × String)} (hnames : ∀ e ∈ l, LabelName e.1)
    (hdistinct : (l.map Prod.fst).Nodup) :
    (Reads (parsePrometheusLabels unquote (encodeLabels l)) l ↔ ∀ e ∈ l, ¬ EndsInBackslash e.2) ∧
      (Reads (prometheusLabels unquote (encodeLabels l)) l ↔ ∀ e ∈ l, ¬ EndsInBackslash e.2) := by
  have htext : (encodeLabels l).toList = exposition l := by simp [encodeLabels]
  have hoperator : TestsEnd fun fin len => decide (fin ≥ len) := by
    intro fin len h
    rw [decide_eq_true_iff]
    omega
  have hproxy : TestsEnd fun fin len => fin == len := by
    intro fin len _
    exact beq_iff_eq
  unfold parsePrometheusLabels prometheusLabels
  rw [htext]
  exact ⟨scanLabels_reads_iff hoperator hunquote hnames hdistinct,
    scanLabels_reads_iff hproxy hunquote hnames hdistinct⟩

/-- The part of `strconv.Unquote` that the format needs, behind the opening quote. -/
def unescape : List Char → Option (List Char)
  | [] => none
  | ['"'] => some []
  | '\\' :: '\\' :: s => (unescape s).map ('\\' :: ·)
  | '\\' :: '"' :: s => (unescape s).map ('"' :: ·)
  | '\\' :: 'n' :: s => (unescape s).map ('\n' :: ·)
  | c :: s => if c = '\\' ∨ c = '"' then none else (unescape s).map (c :: ·)

def unquoteLabel (s : String) : Option String :=
  match s.toList with
  | '"' :: s => (unescape s).map String.ofList
  | _ => none

theorem unescape_escape : unescape (escape s ++ ['"']) = some s := by
  induction s with
  | nil => rfl
  | cons c s ih =>
    have hcons : escape (c :: s) = escapeChar c ++ escape s := rfl
    rw [hcons]
    rcases escapeChar_cases c with ⟨rfl, hc⟩ | ⟨rfl, hc⟩ | ⟨rfl, hc⟩ | ⟨hb, hq, hc⟩
    · simp [hc, unescape, ih]
    · simp [hc, unescape, ih]
    · simp [hc, unescape, ih]
    · rw [hc, List.singleton_append, List.cons_append, unescape]
      · simp [hb, hq, ih]
      all_goals simp [hb, hq]

theorem unquotes_unquoteLabel : Unquotes unquoteLabel := by
  intro s
  simp [unquoteLabel, quoted, unescape_escape]

/-- Commas, equals signs and quotes in a value do no harm. -/
theorem labels_read_template :
    Reads (parsePrometheusLabels unquoteLabel
        (encodeLabels [("block_size", "16"), ("template", "a=\"b\",c")]))
      [("block_size", "16"), ("template", "a=\"b\",c")] :=
  (labels_read_iff unquotes_unquoteLabel (by decide +kernel) (by decide)).1.mpr (by decide +kernel)

/-- The directory of a cache on another system. -/
theorem labels_lost_directory :
    encodeLabels [("dir", "C:\\"), ("size", "16")] = "dir=\"C:\\\\\",size=\"16\"" ∧
      (parsePrometheusLabels unquoteLabel
        (encodeLabels [("dir", "C:\\"), ("size", "16")])).lookup "dir" = none ∧
      (prometheusLabels unquoteLabel
        (encodeLabels [("dir", "C:\\"), ("size", "16")])).lookup "dir" = none := by
  decide +kernel

end LlmOperator.Backend
