import LlmOperator.Data.GoString
import Mathlib.Data.List.Infix

/-!
# Paths

A path is the list of its names from the root down. The text of a path, of a relative path or
of a symbolic link is kept as the list of its elements between slashes, so that an absolute
text begins with an empty element. `join` is `filepath.Join` of an absolute path with a text,
and `rel` is `filepath.Rel` of two absolute paths.
-/

namespace LlmOperator.FileSystem

open Data.GoString

abbrev Path : Type := List String

/-- The elements of a text between its slashes. -/
def elements (s : String) : List String := (splitSlash s.toList).map String.ofList

/-- A name that an entry of a directory can have. -/
def IsName (n : String) : Prop := n ≠ "" ∧ n ≠ "." ∧ n ≠ ".." ∧ '/' ∉ n.toList

instance (n : String) : Decidable (IsName n) := by unfold IsName; infer_instance

/-- A path that consists of names. -/
def Proper (p : Path) : Prop := ∀ n ∈ p, IsName n

instance (p : Path) : Decidable (Proper p) := by unfold Proper; infer_instance

theorem Proper.append {p q : Path} (hp : Proper p) (hq : Proper q) : Proper (p ++ q) := by
  intro n hn
  rcases List.mem_append.mp hn with h | h
  · exact hp n h
  · exact hq n h

theorem Proper.below {p q : Path} (hq : Proper q) (h : p <+: q) : Proper p :=
  fun n hn => hq n (h.subset hn)

theorem Proper.right {p q : Path} (h : Proper (p ++ q)) : Proper q :=
  fun n hn => h n (List.mem_append_right p hn)

theorem proper_singleton {n : String} (h : IsName n) : Proper [n] := by
  intro m hm
  rw [List.mem_singleton] at hm
  exact hm ▸ h

/-- A name with a long enough ending is a name. -/
theorem IsName.append {n s : String} (h : IsName n) (hs : 2 < s.toList.length)
    (hslash : '/' ∉ s.toList) : IsName (n ++ s) := by
  have hne : ∀ m : String, m.toList.length ≤ 2 → n ++ s ≠ m := by
    rintro m hm rfl
    rw [String.toList_append, List.length_append] at hm
    omega
  refine ⟨hne "" (by decide), hne "." (by decide), hne ".." (by decide), ?_⟩
  rw [String.toList_append, List.mem_append]
  exact not_or.mpr ⟨h.2.2.2, hslash⟩

/-- A path does not lie below what is in it. -/
theorem not_below_self (p : Path) {q : Path} (h : q ≠ []) : ¬ p ++ q <+: p := by
  intro hp
  have hlen := List.IsPrefix.length_le hp
  rw [List.length_append] at hlen
  exact h (List.length_eq_zero_iff.mp (by omega))

theorem not_below_dropLast {p : Path} (h : p ≠ []) : ¬ p <+: p.dropLast := by
  intro hp
  have hlen := List.IsPrefix.length_le hp
  rw [List.length_dropLast] at hlen
  have := List.length_pos_iff.mpr h
  omega

theorem dropLast_ne {p : Path} (h : p ≠ []) : p.dropLast ≠ p := by
  intro hp
  have hlen := congrArg List.length hp
  rw [List.length_dropLast] at hlen
  have := List.length_pos_iff.mpr h
  omega

/-- Neither of two paths lies in the other. -/
def Apart (p q : Path) : Prop := ¬ p <+: q ∧ ¬ q <+: p

instance (p q : Path) : Decidable (Apart p q) := by unfold Apart; infer_instance

namespace Apart

variable {p q r : Path}

theorem symm (h : Apart p q) : Apart q p := ⟨h.2, h.1⟩

theorem not_under (h : Apart p q) (hr : p <+: r) : ¬ q <+: r := by
  intro hq
  rcases List.prefix_or_prefix_of_prefix hr hq with h' | h'
  · exact h.1 h'
  · exact h.2 h'

theorem not_above (h : Apart p q) (hr : p <+: r) : ¬ r <+: q := fun hq => h.1 (hr.trans hq)

theorem below (h : Apart p q) {p' q' : Path} (hp : p <+: p') (hq : q <+: q') : Apart p' q' :=
  ⟨fun h' => h.not_under (hp.trans h') hq, fun h' => h.symm.not_under (hq.trans h') hp⟩

theorem ne (h : Apart p q) : p ≠ q := fun h' => h.1 (h' ▸ List.prefix_rfl)

end Apart

/-- Entries with different names lie apart. -/
theorem apart_entries (p : Path) {m n : String} (h : m ≠ n) (q r : Path) :
    Apart (p ++ m :: q) (p ++ n :: r) := by
  constructor <;> rw [List.prefix_append_right_inj, List.cons_prefix_cons]
  · exact fun h' => h h'.1
  · exact fun h' => h h'.1.symm

/-! ## Joining -/

/-- One element of a text, from a directory on. -/
def step (p : Path) (e : String) : Path :=
  if e = "" ∨ e = "." then p else if e = ".." then p.dropLast else p ++ [e]

/-- `filepath.Join` of an absolute path with the text of the elements `es`. -/
def join (p : Path) (es : List String) : Path := es.foldl step p

@[simp] theorem join_nil (p : Path) : join p [] = p := rfl

theorem join_append (p : Path) (es fs : List String) : join p (es ++ fs) = join (join p es) fs :=
  List.foldl_append

theorem step_name {n : String} (h : IsName n) (p : Path) : step p n = p ++ [n] := by
  obtain ⟨h₁, h₂, h₃, _⟩ := h
  simp [step, h₁, h₂, h₃]

theorem join_proper {q : Path} (h : Proper q) (p : Path) : join p q = p ++ q := by
  induction q generalizing p with
  | nil => exact (List.append_nil p).symm
  | cons n q ih =>
    show join (step p n) q = p ++ n :: q
    rw [step_name (h n List.mem_cons_self), ih fun m hm => h m (List.mem_cons_of_mem n hm)]
    simp

theorem join_ups (p : Path) (n : Nat) :
    join p (List.replicate n "..") = p.take (p.length - n) := by
  induction n generalizing p with
  | zero => simp
  | succ n ih =>
    show join (step p "..") (List.replicate n "..") = _
    rw [show step p ".." = p.dropLast from rfl, ih, List.dropLast_eq_take, List.take_take,
      List.length_take]
    congr 1
    omega

theorem proper_join {p : Path} {es : List String} (hp : Proper p)
    (hes : ∀ e ∈ es, '/' ∉ e.toList) : Proper (join p es) := by
  induction es generalizing p with
  | nil => exact hp
  | cons e es ih =>
    refine ih (p := step p e) ?_ fun f hf => hes f (List.mem_cons_of_mem e hf)
    unfold step
    split
    · exact hp
    · rename_i h
      split
      · exact hp.below p.dropLast_prefix
      · rename_i h'
        refine hp.append (proper_singleton ⟨?_, ?_, h', hes e List.mem_cons_self⟩)
        · exact fun he => h (.inl he)
        · exact fun he => h (.inr he)

theorem splitSlash_ne_nil (cs : List Char) : splitSlash cs ≠ [] := by
  cases cs with
  | nil => exact List.cons_ne_nil _ _
  | cons c cs =>
    unfold splitSlash
    split
    · exact List.cons_ne_nil _ _
    · split <;> exact List.cons_ne_nil _ _

theorem slash_notMem_splitSlash (cs : List Char) : ∀ e ∈ splitSlash cs, '/' ∉ e := by
  induction cs with
  | nil => simp [splitSlash]
  | cons c cs ih =>
    intro e he
    unfold splitSlash at he
    cases hs : splitSlash cs with
    | nil => exact absurd hs (splitSlash_ne_nil cs)
    | cons f fs =>
      rw [hs] at he
      simp only at he
      have hfs : ∀ g ∈ f :: fs, '/' ∉ g := hs ▸ ih
      split at he
      · rcases List.mem_cons.mp he with rfl | he
        · exact List.not_mem_nil
        · exact hfs e he
      · rename_i hc
        rcases List.mem_cons.mp he with rfl | he
        · intro hmem
          rcases List.mem_cons.mp hmem with h | h
          · exact hc h.symm
          · exact hfs f List.mem_cons_self h
        · exact hfs e (List.mem_cons_of_mem f he)

variable {e : String} {target base : Path}

theorem slash_notMem_elements {s : String} (h : e ∈ elements s) : '/' ∉ e.toList := by
  obtain ⟨cs, hcs, rfl⟩ := List.mem_map.mp h
  rw [String.toList_ofList]
  exact slash_notMem_splitSlash s.toList cs hcs

theorem proper_join_elements {p : Path} (hp : Proper p) (s : String) :
    Proper (join p (elements s)) :=
  proper_join hp fun _ he => slash_notMem_elements he

/-! ## Texts -/

/-- The text of a list of elements. -/
def text : List String → String
  | [] => ""
  | [e] => e
  | e :: es => e ++ "/" ++ text es

theorem splitSlash_slash (ds : List Char) : splitSlash ('/' :: ds) = [] :: splitSlash ds := by
  rw [splitSlash]
  cases hds : splitSlash ds with
  | nil => exact absurd hds (splitSlash_ne_nil ds)
  | cons e es => simp

theorem splitSlash_cons {c : Char} (hc : c ≠ '/') {ds e : List Char} {es : List (List Char)}
    (h : splitSlash ds = e :: es) : splitSlash (c :: ds) = (c :: e) :: es := by
  rw [splitSlash, h]
  simp [hc]

theorem splitSlash_element {cs : List Char} (h : '/' ∉ cs) : splitSlash cs = [cs] := by
  induction cs with
  | nil => rfl
  | cons c cs ih =>
    obtain ⟨hc, hcs⟩ := not_or.mp (List.mem_cons.not.mp h)
    exact splitSlash_cons (Ne.symm hc) (ih hcs)

theorem splitSlash_append {cs : List Char} (h : '/' ∉ cs) (ds : List Char) :
    splitSlash (cs ++ '/' :: ds) = cs :: splitSlash ds := by
  induction cs with
  | nil => exact splitSlash_slash ds
  | cons c cs ih =>
    obtain ⟨hc, hcs⟩ := not_or.mp (List.mem_cons.not.mp h)
    exact splitSlash_cons (Ne.symm hc) (ih hcs)

/-- A text has the elements it was made of. -/
theorem elements_text {es : List String} (hne : es ≠ []) (h : ∀ e ∈ es, '/' ∉ e.toList) :
    elements (text es) = es := by
  induction es with
  | nil => exact absurd rfl hne
  | cons e es ih =>
    have he := h e List.mem_cons_self
    cases es with
    | nil =>
      show (splitSlash e.toList).map String.ofList = [e]
      rw [splitSlash_element he]
      simp
    | cons f fs =>
      have hrest := ih (List.cons_ne_nil f fs) fun g hg => h g (List.mem_cons_of_mem e hg)
      unfold elements at hrest ⊢
      have htext : (text (e :: f :: fs)).toList = e.toList ++ '/' :: (text (f :: fs)).toList := by
        rw [text, String.toList_append, String.toList_append]
        · simp
        · exact List.cons_ne_nil f fs
      rw [htext, splitSlash_append he, List.map_cons, hrest, String.ofList_toList]

theorem Proper.elements_text {p : Path} (h : Proper p) (hne : p ≠ []) : elements (text p) = p :=
  FileSystem.elements_text hne fun n hn => (h n hn).2.2.2

/-! ## Relative paths -/

/-- The elements from `base` to `target`, after what they have in common. -/
def relElements : Path → Path → List String
  | b :: bs, t :: ts =>
    if b = t then relElements bs ts else List.replicate (bs.length + 1) ".." ++ t :: ts
  | bs, ts => List.replicate bs.length ".." ++ ts

/-- `filepath.Rel` of two absolute paths. -/
def rel (base target : Path) : List String :=
  match relElements base target with
  | [] => ["."]
  | es => es

/-- A relative path that leaves its base: it is `..` or begins with `../`. -/
def escapes (es : List String) : Bool := es.head? == some ".."

theorem join_relElements (h : Proper target) (common base : Path) :
    join (common ++ base) (relElements base target) = common ++ target := by
  have hup : ∀ bs ts : Path, Proper ts →
      join (common ++ bs) (List.replicate bs.length ".." ++ ts) = common ++ ts := by
    intro bs ts hts
    rw [join_append, join_ups, List.length_append, Nat.add_sub_cancel, List.take_left,
      join_proper hts]
  induction base generalizing common target with
  | nil => exact hup [] target h
  | cons b bs ih =>
    cases target with
    | nil => exact hup (b :: bs) [] h
    | cons t ts =>
      have hts : Proper ts := fun n hn => h n (List.mem_cons_of_mem t hn)
      rw [relElements]
      split
      · rename_i hbt
        subst hbt
        have := ih hts (common ++ [b]) ?_
        · simpa using this
        · intro cs us hus
          rw [join_append, join_ups, List.length_append, Nat.add_sub_cancel, List.take_left,
            join_proper hus]
      · exact hup (b :: bs) (t :: ts) h

/-- A relative path leads from its base to its target. -/
theorem join_rel (h : Proper target) (base : Path) : join base (rel base target) = target := by
  have hrel := join_relElements h [] base
  rw [List.nil_append, List.nil_append] at hrel
  unfold rel
  split
  · rename_i he
    rw [he] at hrel
    exact hrel
  · exact hrel

theorem relElements_append (base rest : Path) : relElements base (base ++ rest) = rest := by
  induction base with
  | nil => rfl
  | cons b bs ih =>
    rw [List.cons_append, relElements, if_pos rfl]
    exact ih

theorem relElements_common (common base target : Path) :
    relElements (common ++ base) (common ++ target) = relElements base target := by
  induction common with
  | nil => rfl
  | cons c cs ih =>
    rw [List.cons_append, List.cons_append, relElements, if_pos rfl]
    exact ih

/-- What two paths have in common does not matter. -/
theorem rel_common (common base target : Path) :
    rel (common ++ base) (common ++ target) = rel base target := by
  unfold rel
  rw [relElements_common]

theorem escapes_relElements (h : ¬ base <+: target) : escapes (relElements base target) = true := by
  induction base generalizing target with
  | nil => exact absurd List.nil_prefix h
  | cons b bs ih =>
    cases target with
    | nil => rfl
    | cons t ts =>
      rw [relElements]
      split
      · rename_i hbt
        exact ih fun hp => h (hbt ▸ (List.prefix_cons_inj b).mpr hp)
      · rfl

/-- A relative path leaves its base unless its target lies below it. -/
theorem escapes_rel (h : Proper target) (base : Path) :
    escapes (rel base target) = true ↔ ¬ base <+: target := by
  constructor
  · rintro hesc ⟨rest, rfl⟩
    unfold rel at hesc
    rw [relElements_append] at hesc
    cases rest with
    | nil => simp [escapes] at hesc
    | cons n rest =>
      have hn := h n (List.mem_append_right base List.mem_cons_self)
      exact hn.2.2.1 (by simpa [escapes] using hesc)
  · intro hp
    have hesc := escapes_relElements hp
    unfold rel
    split
    · rename_i he
      rw [he] at hesc
      cases hesc
    · exact hesc

/-! ## The text of a relative path -/

theorem mem_relElements (h : e ∈ relElements base target) : e = ".." ∨ e ∈ target := by
  induction base generalizing target with
  | nil => exact .inr (by simpa [relElements] using h)
  | cons b bs ih =>
    cases target with
    | nil =>
      rw [relElements, List.append_nil] at h
      · exact .inl (List.eq_of_mem_replicate h)
      · exact fun _ _ _ _ _ => List.cons_ne_nil _ _ |>.symm
    | cons n ts =>
      rw [relElements] at h
      split at h
      · exact (ih h).imp_right (List.mem_cons_of_mem n)
      · rcases List.mem_append.mp h with h | h
        · exact .inl (List.eq_of_mem_replicate h)
        · exact .inr h

theorem mem_rel (h : e ∈ rel base target) : e = "." ∨ e = ".." ∨ e ∈ target := by
  unfold rel at h
  split at h
  · exact .inl (List.mem_singleton.mp h)
  · exact .inr (mem_relElements h)

theorem rel_ne_nil (base target : Path) : rel base target ≠ [] := by
  unfold rel
  split
  · exact List.cons_ne_nil _ _
  · rename_i h
    exact h

theorem slash_notMem_rel (base : Path) (h : Proper target) :
    ∀ e ∈ rel base target, '/' ∉ e.toList := by
  intro e he
  rcases mem_rel he with rfl | rfl | he
  · decide
  · decide
  · exact (h e he).2.2.2

theorem ne_empty_of_mem_rel (base : Path) (h : Proper target) : ∀ e ∈ rel base target, e ≠ "" := by
  intro e he
  rcases mem_rel he with rfl | rfl | he
  · decide
  · decide
  · exact (h e he).1

theorem text_toList_head (he : e ≠ "") (es : List String) :
    (text (e :: es)).toList.head? = e.toList.head? := by
  have hne : e.toList ≠ [] := fun h => he (String.toList_eq_nil_iff.mp h)
  cases es with
  | nil => rfl
  | cons f fs =>
    rw [text, String.toList_append, String.toList_append, List.append_assoc]
    · cases h : e.toList with
      | nil => exact absurd h hne
      | cons c cs => rfl
    · exact List.cons_ne_nil f fs

/-- The text of a relative path is neither empty nor absolute. -/
theorem text_rel (base : Path) (h : Proper target) :
    text (rel base target) ≠ "" ∧ hasPrefix (text (rel base target)) "/" = false := by
  cases hr : rel base target with
  | nil => exact absurd hr (rel_ne_nil base target)
  | cons e es =>
    have he := ne_empty_of_mem_rel base h e (hr ▸ List.mem_cons_self)
    have hslash := slash_notMem_rel base h e (hr ▸ List.mem_cons_self)
    have hhead := text_toList_head he es
    cases hc : e.toList with
    | nil => exact absurd (String.toList_eq_nil_iff.mp hc) he
    | cons c cs =>
      rw [hc] at hhead hslash
      cases ht : (text (e :: es)).toList with
      | nil => rw [ht] at hhead; cases hhead
      | cons d ds =>
        rw [ht] at hhead
        cases hhead
        refine ⟨fun h => ?_, ?_⟩
        · rw [h] at ht
          cases ht
        · unfold hasPrefix
          rw [ht]
          show (['/'] : List Char).isPrefixOf (c :: ds) = false
          have hne : ('/' : Char) ≠ c := fun h => hslash (h ▸ List.mem_cons_self)
          simp [List.isPrefixOf, hne]

end LlmOperator.FileSystem
