import LlmOperator.FileSystem.Tree
import LlmOperator.Interaction.Program

/-!
# File operations

The calls a program makes to the file system, what each of them does to a tree when it works, and
how it can fail. A call works as `FileTree.apply` says, up to what the system is free to choose: the
name of a temporary directory, the order of unsorted entries, and what is read from a file that has
changed since it was opened.
A failed call changes nothing, except that a failed write may leave any bytes behind.

A recursion over a tree goes as deep as the tree is. Programs bound it by the answer to the call
`depth`, which is any number above the length of every path; it is no call of the source.
-/

namespace LlmOperator.FileSystem

open Interaction

/-- An open file: where it was found and what it held then; a directory holds no bytes. -/
structure Handle (B : Type) where
  path : Path
  bytes : Option B

inductive FsCall (B : Type) where
  | lstat (p : Path)
  | stat (p : Path)
  | evalSymlinks (p : Path)
  | readlink (p : Path)
  | readDir (p : Path)
  /-- `Readdirnames`: the names in any order. -/
  | readNames (p : Path)
  | openFile (p : Path)
  | read (handle : Handle B)
  | mkdir (p : Path)
  | mkdirTemp (dir : Path) (pattern : String)
  /-- `os.Create`: an empty file, in place of one that is there. -/
  | create (p : Path) (empty : B)
  | write (p : Path) (bytes : B)
  | remove (p : Path)
  | symlink (target : String) (p : Path)
  | rename (src dst : Path)
  | depth

/-- What a call answers when it works. -/
@[reducible] def FsCall.Result {B : Type} : FsCall B → Type
  | .lstat _ | .stat _ => Node B
  | .evalSymlinks _ | .mkdirTemp .. | .create .. => Path
  | .readlink _ => String
  | .readDir _ | .readNames _ => List String
  | .openFile _ => Handle B
  | .read _ => B
  | .mkdir _ | .write .. | .remove _ | .symlink .. | .rename .. => Unit
  | .depth => Nat

@[reducible] def FsCall.Answer {B : Type} (c : FsCall B) : Type := Except Errno c.Result

/-- The file operations as calls of a program. -/
@[reducible] def Fs (B : Type) : Sig := ⟨FsCall B, FsCall.Answer⟩

/-- What the system adds to the pattern of a temporary name: a random number. -/
def IsSuffix (s : String) : Prop := ∃ n : Nat, s = n.repr

/-- What is left to chance: the calls that may fail, and the numbers that may be drawn for a
temporary name, one of which is free. -/
structure Chances (B : Type) where
  fails : FsCall B → Prop
  draws : FileTree B → Path → String → String → Prop
  number : ∀ {t dir pattern suffix}, draws t dir pattern suffix → IsSuffix suffix
  free : ∀ t dir pattern, ∃ suffix, draws t dir pattern suffix ∧
    t.node (dir ++ [pattern ++ suffix]) = none

instance {B : Type} : CoeFun (Chances B) fun _ => FsCall B → Prop := ⟨Chances.fails⟩

namespace FileTree

variable {B : Type} (t : FileTree B)

/-! ## What a call does -/

/-- Put something new at `p`, or in place of a file or a link. -/
def place (p : Path) (x : Node B) : Except Errno Unit × FileTree B :=
  if h : t.CanSet p then (.ok (), t.set p x h)
  else (.error (if t.isDirAt p then .eisdir else if t.isDirAt p.dropLast then .einval
    else t.missing p), t)

theorem place_of {p : Path} (h : t.CanSet p) (x : Node B) : t.place p x = (.ok (), t.set p x h) :=
  dif_pos h

/-- The path at which `open` with `O_CREATE` makes or truncates a file. -/
def createIn : Nat → Path → Except Errno Path
  | 0, _ => .error .eloop
  | n + 1, p =>
    match t.node p with
    | some .dir => .error .eisdir
    | some (.link target) => createIn n (follow p.dropLast target)
    | _ => .ok p

/-- A name with the first number that is free. -/
def freshName (dir : Path) (pattern : String) : String :=
  match (List.range (t.paths.length + 1)).find? fun k =>
      (t.node (dir ++ [pattern ++ k.repr])).isNone with
  | some k => pattern ++ k.repr
  | none => pattern

/-- Why a rename cannot be done, apart from what is missing at the destination. -/
def renameError (src dst : Path) : Option Errno :=
  match t.node src, t.node dst with
  | none, _ => some (t.missing src)
  | some .dir, some .dir =>
    if src <+: dst then some .einval
    else if t.names dst = [] then none else some .enotempty
  | some .dir, none => if src <+: dst then some .einval else none
  | some .dir, some _ => some .enotdir
  | some _, some .dir => some .eisdir
  | some _, _ => none

/-- The names in a directory. -/
def listing (p : Path) : Except Errno (List String) :=
  match t.resolve p with
  | .ok (q, .dir) => .ok (t.names q)
  | .ok _ => .error .enotdir
  | .error e => .error e

/-- What a call answers and does when it works. -/
def apply : (c : FsCall B) → c.Answer × FileTree B
  | .lstat p => (t.find p, t)
  | .stat p => ((t.resolve p).map Prod.snd, t)
  | .evalSymlinks p => ((t.resolve p).map Prod.fst, t)
  | .readlink p =>
    (match t.find p with
      | .ok (.link target) => .ok target
      | .ok _ => .error .einval
      | .error e => .error e, t)
  | .readDir p => (t.listing p, t)
  | .readNames p => (t.listing p, t)
  | .openFile p =>
    (match t.resolve p with
      | .ok (q, .file b) => .ok ⟨q, some b⟩
      | .ok (q, _) => .ok ⟨q, none⟩
      | .error e => .error e, t)
  | .read handle =>
    (match handle.bytes with
      | some b => .ok b
      | none => .error .eisdir, t)
  | .mkdir p => if (t.node p).isSome then (.error .eexist, t) else t.place p .dir
  | .mkdirTemp dir pattern =>
    if t.isDirAt dir = true ∧ IsName pattern then
      let p := dir ++ [t.freshName dir pattern]
      ((t.place p .dir).1.map fun _ => p, (t.place p .dir).2)
    else (.error (t.missing dir), t)
  | .create p empty =>
    match t.createIn 41 p with
    | .ok q => ((t.place q (.file empty)).1.map fun _ => q, (t.place q (.file empty)).2)
    | .error e => (.error e, t)
  | .write p bytes =>
    match t.node p with
    | some (.file _) => t.place p (.file bytes)
    | _ => (.ok (), t)
  | .remove p =>
    if (t.node p).isNone then (.error (t.missing p), t)
    else if h : t.CanUnset p then (.ok (), t.unset p h)
    else (.error (if p = [] then .ebusy else .enotempty), t)
  | .symlink target p =>
    if (t.node p).isSome then (.error .eexist, t)
    else if target = "" then (.error .enoent, t)
    else t.place p (.link target)
  | .rename src dst =>
    match t.renameError src dst with
    | some e => (if src = dst ∧ (t.node src).isSome then .ok () else .error e, t)
    | none =>
      if src = dst then (.ok (), t)
      else if h : t.CanMove src dst then (.ok (), t.move src dst h)
      else (.error (t.missing dst), t)
  | .depth => (.ok (t.paths.foldr (fun p n => max (p.length + 1) n) 0), t)

/-- The outcomes of a call that works. -/
def Does (F : Chances B) : (c : FsCall B) → c.Answer → FileTree B → Prop
  | .readNames p, a, t' => t' = t ∧
      match t.listing p with
      | .ok sorted => ∃ names, names.Perm sorted ∧ a = .ok names
      | .error e => a = .error e
  | .read handle, a, t' => t' = t ∧
      match handle.bytes with
      | some b => ∃ b', a = .ok b' ∧ (t.node handle.path = some (.file b) → b' = b)
      | none => a = .error .eisdir
  | .mkdirTemp dir pattern, a, t' =>
    if t.isDirAt dir = true ∧ IsName pattern then
      ∃ suffix, F.draws t dir pattern suffix ∧ t.node (dir ++ [pattern ++ suffix]) = none ∧
        a = .ok (dir ++ [pattern ++ suffix]) ∧
        (.ok (), t') = t.place (dir ++ [pattern ++ suffix]) .dir
    else a = .error (t.missing dir) ∧ t' = t
  | .depth, a, t' => t' = t ∧ ∃ n, a = .ok n ∧ ∀ p, t.node p ≠ none → p.length < n
  | c, a, t' => (a, t') = t.apply c

/-- The outcomes of a call that fails. -/
def Fails : (c : FsCall B) → c.Answer → FileTree B → Prop
  | .write p _, a, t' => a = .error .eio ∧ (t' = t ∨ ∃ b, t' = (t.apply (.write p b)).2)
  | _, a, t' => a = .error .eio ∧ t' = t

/-- What a call may answer and do. -/
def Exec (F : Chances B) (c : FsCall B) (a : c.Answer) (t' : FileTree B) : Prop :=
  t.Does F c a t' ∨ (F c ∧ t.Fails c a t')

/-! ## Paths without links on the way

The system follows a link in the middle of a path. On trees where that happens a call is not what
it is here; results that have to be about such trees too ask for calls that do not come to it. -/

/-- No link is on the way to `p`. -/
def straight (p : Path) : Bool :=
  p.dropLast.inits.all fun q =>
    match t.node q with
    | some (.link _) => false
    | _ => true

/-- A text that climbs only at its beginning, so that its elements can be cancelled. -/
def climbsFirst (target : String) : Bool :=
  ((elements target).dropWhile (· == "..")).all (· != "..")

/-- Nor to where the link at the end of `p` leads, and so on. -/
def straightIn : Nat → Path → Bool
  | 0, _ => true
  | n + 1, p => t.straight p &&
    match t.node p with
    | some (.link target) => climbsFirst target && straightIn n (follow p.dropLast target)
    | _ => true

/-- No path that a call looks up leads through a link. -/
def straightFor : FsCall B → Bool
  | .lstat p | .readlink p | .mkdir p | .remove p | .symlink _ p => t.straight p
  | .stat p | .evalSymlinks p | .readDir p | .readNames p | .openFile p | .create p _ =>
    t.straightIn 41 p
  | .mkdirTemp dir pattern => t.straight (dir ++ [pattern])
  | .rename src dst => t.straight src && t.straight dst
  | .read _ | .write .. | .depth => true

/-- What a call may answer and do, when no path of it leads through a link. -/
def ExecStraight (F : Chances B) (c : FsCall B) (a : c.Answer) (t' : FileTree B) : Prop :=
  t.straightFor c = true ∧ t.Exec F c a t'

/-! ## Fresh names -/

theorem isDigit_of_suffix {s : String} (h : IsSuffix s) : ∀ c ∈ s.toList, c.isDigit = true := by
  obtain ⟨n, rfl⟩ := h
  intro c hc
  rw [Nat.toList_repr] at hc
  exact Nat.isDigit_of_mem_toDigits (by decide) (by decide) hc

theorem isName_suffix {pattern suffix : String} (h : IsName pattern) (hs : IsSuffix suffix) :
    IsName (pattern ++ suffix) := by
  obtain ⟨hne, hdot, hdots, hslash⟩ := h
  have hlist : ∀ s : String, pattern ++ suffix = s → pattern.toList ++ suffix.toList = s.toList :=
    fun s h => by rw [← h, String.toList_append]
  have hnil : pattern.toList ≠ [] := fun h => hne (String.toList_eq_nil_iff.mp h)
  have hofList : ∀ cs, pattern.toList = cs → pattern = String.ofList cs :=
    fun cs h => by rw [← h, String.ofList_toList]
  refine ⟨fun h => ?_, fun h => ?_, fun h => ?_, fun h => ?_⟩
  · exact hnil (List.append_eq_nil_iff.mp (hlist _ h)).1
  · rcases List.append_eq_singleton_iff.mp (hlist _ h) with ⟨h', _⟩ | ⟨h', _⟩
    · exact hnil h'
    · exact hdot (hofList _ h')
  · have h' : pattern.toList ++ suffix.toList = ['.', '.'] := hlist _ h
    rcases hp : pattern.toList with _ | ⟨a, _ | ⟨b, rest⟩⟩
    · exact hnil hp
    · rw [hp] at h'
      simp only [List.cons_append, List.nil_append, List.cons.injEq] at h'
      exact hdot (hofList _ (hp.trans (congrArg (fun c => [c]) h'.1)))
    · rw [hp] at h'
      simp only [List.cons_append, List.cons.injEq, List.append_eq_nil_iff] at h'
      obtain ⟨ha, hb, hrest, _⟩ := h'
      rw [ha, hb, hrest] at hp
      exact hdots (hofList _ hp)
  · rw [String.toList_append, List.mem_append] at h
    rcases h with h | h
    · exact hslash h
    · exact absurd (isDigit_of_suffix hs _ h) (by decide)

theorem canSet_temp {dir : Path} {name : String} (hdir : t.isDirAt dir = true) (hname : IsName name)
    (hfree : t.node (dir ++ [name]) = none) : t.CanSet (dir ++ [name]) := by
  refine ⟨by simp, by rwa [List.dropLast_concat], ?_, ?_⟩
  · unfold isDirAt
    rw [hfree]
  · refine (t.proper dir ?_).append (proper_singleton hname)
    rw [t.isDirAt_iff.mp hdir]
    exact Option.some_ne_none _

/-- One of the first numbers is free, also if some are to be avoided. -/
theorem exists_free (dir : Path) (pattern : String) (avoid : List String) :
    ∃ k ∈ List.range (t.paths.length + avoid.length + 1),
      k.repr ∉ avoid ∧ t.node (dir ++ [pattern ++ k.repr]) = none := by
  by_contra hall
  push Not at hall
  have hinj : Function.Injective fun k : Nat => dir ++ [pattern ++ k.repr] := by
    intro a b hab
    have hname := List.singleton_inj.mp (List.append_cancel_left hab)
    have hdigits := congrArg String.toList (String.append_right_inj pattern |>.mp hname)
    rw [Nat.toList_repr, Nat.toList_repr] at hdigits
    rw [← Nat.ofDigitChars_ten_toDigits (n := a), hdigits, Nat.ofDigitChars_ten_toDigits]
  have hsub : (List.range (t.paths.length + avoid.length + 1)).map
      (fun k : Nat => dir ++ [pattern ++ k.repr]) ⊆
        t.paths ++ avoid.map fun suffix => dir ++ [pattern ++ suffix] := by
    intro p hp
    obtain ⟨k, hk, rfl⟩ := List.mem_map.mp hp
    by_cases havoid : k.repr ∈ avoid
    · exact List.mem_append_right _ (List.mem_map.mpr ⟨_, havoid, rfl⟩)
    · exact List.mem_append_left _ (t.listed _ (hall k hk havoid))
  have hlen := ((List.nodup_range (n := t.paths.length + avoid.length + 1)).map hinj).subperm hsub
    |>.length_le
  rw [List.length_map, List.length_range, List.length_append, List.length_map] at hlen
  omega

theorem freshName_spec (dir : Path) (pattern : String) :
    ∃ k : Nat, t.freshName dir pattern = pattern ++ k.repr ∧
      t.node (dir ++ [pattern ++ k.repr]) = none := by
  unfold freshName
  split
  · rename_i k hk
    have hfree := List.find?_some hk
    exact ⟨k, rfl, Option.isNone_iff_eq_none.mp hfree⟩
  · rename_i hnone
    obtain ⟨k, hk, _, hfree⟩ := t.exists_free dir pattern []
    exact absurd (Option.isNone_iff_eq_none.mpr hfree) (List.find?_eq_none.mp hnone k hk)

end FileTree

/-- Any number may be drawn. -/
def Chances.any {B : Type} (fails : FsCall B → Prop) : Chances B where
  fails := fails
  draws _ _ _ suffix := IsSuffix suffix
  number h := h
  free t dir pattern := by
    obtain ⟨k, _, _, hfree⟩ := t.exists_free dir pattern []
    exact ⟨k.repr, ⟨k, rfl⟩, hfree⟩

/-- No call fails. -/
def Chances.sound (B : Type) : Chances B := .any fun _ => False

namespace FileTree

variable {B : Type} (t : FileTree B)

/-- The choices of `apply` are among the outcomes, if its numbers can be drawn. -/
theorem does_apply (F : Chances B) (c : FsCall B)
    (hdraw : ∀ dir pattern, c = .mkdirTemp dir pattern → ∀ k : Nat, F.draws t dir pattern k.repr) :
    t.Does F c (t.apply c).1 (t.apply c).2 := by
  cases c with
  | readNames p =>
    refine ⟨rfl, ?_⟩
    show match t.listing p with
      | .ok sorted => ∃ names : List String, names.Perm sorted ∧ t.listing p = .ok names
      | .error e => t.listing p = .error e
    cases t.listing p with
    | error e => rfl
    | ok sorted => exact ⟨sorted, .refl sorted, rfl⟩
  | read handle =>
    obtain ⟨path, bytes⟩ := handle
    cases bytes with
    | none => exact ⟨rfl, rfl⟩
    | some b => exact ⟨rfl, b, rfl, fun _ => rfl⟩
  | mkdirTemp dir pattern =>
    by_cases h : t.isDirAt dir = true ∧ IsName pattern
    · obtain ⟨k, hname, hfree⟩ := t.freshName_spec dir pattern
      have hset := t.canSet_temp h.1 (isName_suffix h.2 ⟨k, rfl⟩) hfree
      have happly : t.apply (.mkdirTemp dir pattern) =
          (.ok (dir ++ [pattern ++ k.repr]), t.set _ .dir hset) := by
        refine (if_pos h).trans ?_
        rw [hname, t.place_of hset]
        rfl
      rw [happly]
      refine (if_pos h).mpr ⟨k.repr, hdraw dir pattern rfl k, hfree, rfl, ?_⟩
      rw [t.place_of hset]
    · have happly : t.apply (.mkdirTemp dir pattern) = (.error (t.missing dir), t) := if_neg h
      rw [happly]
      exact (if_neg h).mpr ⟨rfl, rfl⟩
  | depth =>
    refine ⟨rfl, _, rfl, fun p hp => ?_⟩
    have hle : ∀ ps : List Path, p ∈ ps →
        p.length < ps.foldr (fun p n => max (p.length + 1) n) 0 := by
      intro ps hps
      induction ps with
      | nil => exact absurd hps List.not_mem_nil
      | cons q ps ih =>
        rw [List.foldr_cons]
        rcases List.mem_cons.mp hps with rfl | h
        · exact Nat.lt_of_lt_of_le (Nat.lt_succ_self _) (Nat.le_max_left _ _)
        · exact Nat.lt_of_lt_of_le (ih h) (Nat.le_max_right _ _)
    exact hle t.paths (t.listed p hp)
  | _ => rfl

theorem exec_apply (fails : FsCall B → Prop) (c : FsCall B) :
    t.Exec (.any fails) c (t.apply c).1 (t.apply c).2 :=
  .inl (t.does_apply _ c fun _ _ _ k => ⟨k, rfl⟩)

/-- Every call is answered. -/
theorem exec_total (F : Chances B) (c : FsCall B) : ∃ a t', t.Exec F c a t' := by
  by_cases hc : ∃ dir pattern, c = .mkdirTemp dir pattern
  · obtain ⟨dir, pattern, rfl⟩ := hc
    by_cases h : t.isDirAt dir = true ∧ IsName pattern
    · obtain ⟨suffix, hdraw, hfree⟩ := F.free t dir pattern
      have hset := t.canSet_temp h.1 (isName_suffix h.2 (F.number hdraw)) hfree
      refine ⟨.ok (dir ++ [pattern ++ suffix]), t.set _ .dir hset, .inl ?_⟩
      refine (if_pos h).mpr ⟨suffix, hdraw, hfree, rfl, ?_⟩
      rw [t.place_of hset]
    · exact ⟨.error (t.missing dir), t, .inl ((if_neg h).mpr ⟨rfl, rfl⟩)⟩
  · exact ⟨_, _, .inl (t.does_apply F c fun dir pattern he => absurd ⟨dir, pattern, he⟩ hc)⟩

end FileTree

end LlmOperator.FileSystem
