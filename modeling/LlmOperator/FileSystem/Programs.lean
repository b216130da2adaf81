import LlmOperator.FileSystem.Logic

/-!
# Programs over file operations

The functions of Go's `os` package that are made of several file operations: `MkdirAll`,
`RemoveAll`, `ReadFile` and `WriteFile`, and the rules for single operations that end a program with
their error. `E` is what may be concluded when a program ends with an error, so that one rule serves
where operations may fail and where they may not.
-/

namespace LlmOperator.FileSystem

open Interaction Safe

variable {B : Type} {c : FsCall B} {t₁ : FileTree B} {x : Node B} {b : B}

/-- The error of a file operation. -/
structure PathError where
  op : String
  path : Path
  errno : Errno
  deriving DecidableEq

/-- A file operation whose error ends the program. -/
def attempt (op : String) (p : Path) (c : FsCall B) : Flow (Fs B) PathError c.Result :=
  ExceptT.mk (.call c fun r => .pure (match r with
    | .ok a => .ok a
    | .error e => .error ⟨op, p, e⟩))

/-- The end of `os.MkdirAll`, when the directory above is there. -/
def mkdirLast (p : Path) : Flow (Fs B) PathError Unit :=
  ExceptT.mk (.call (.mkdir p) fun
    | .ok _ => .pure (.ok ())
    | .error e => .call (.lstat p) fun
        | .ok .dir => .pure (.ok ())
        | _ => .pure (.error ⟨"mkdir", p, e⟩))

/-- `os.MkdirAll` of the path with the names `up`, the last one first. -/
def mkdirAllUp : List String → Flow (Fs B) PathError Unit
  | [] => pure ()
  | n :: up => ExceptT.mk (.call (.stat (n :: up).reverse) fun
      | .ok .dir => .pure (.ok ())
      | .ok _ => .pure (.error ⟨"mkdir", (n :: up).reverse, .enotdir⟩)
      | .error _ => (mkdirAllUp up >>= fun _ => mkdirLast (n :: up).reverse).prog)

def mkdirAll (p : Path) : Flow (Fs B) PathError Unit := mkdirAllUp p.reverse

/-- The entries of a directory one after the other, and the first error among them. -/
def removeEntries (rm : String → Prog (Fs B) (Except PathError Unit)) :
    List String → Prog (Fs B) (Option PathError)
  | [] => .pure none
  | name :: names => do
      let first ← rm name
      let rest ← removeEntries rm names
      .pure (match first with
        | .ok _ => rest
        | .error e => some e)

/-- `os.RemoveAll` on something at most `n` levels deep. -/
def removeAllIn : Nat → Path → Prog (Fs B) (Except PathError Unit)
  | 0, p => .pure (.error ⟨"unlinkat", p, .eio⟩)
  | n + 1, p => .call (.remove p) fun
      | .ok _ => .pure (.ok ())
      | .error .enoent => .pure (.ok ())
      | .error .enotempty => .call (.readNames p) fun
          | .error .enoent => .pure (.ok ())
          | .error e => .pure (.error ⟨"readdirnames", p, e⟩)
          | .ok names => do
              let failed ← removeEntries (fun name => removeAllIn n (p ++ [name])) names
              .call (.remove p) fun
                | .ok _ => .pure (.ok ())
                | .error .enoent => .pure (.ok ())
                | .error e => .pure (.error (failed.getD ⟨"unlinkat", p, e⟩))
      | .error e => .pure (.error ⟨"unlinkat", p, e⟩)

/-- `os.RemoveAll`. -/
def removeAll (p : Path) : Flow (Fs B) PathError Unit :=
  ExceptT.mk (.call .depth fun
    | .ok n => removeAllIn n p
    | .error e => .pure (.error ⟨"unlinkat", p, e⟩))

/-- `os.ReadFile`. -/
def readFile (p : Path) : Flow (Fs B) PathError B := do
  let handle ← attempt "open" p (.openFile p)
  attempt "read" p (.read handle)

/-- `os.WriteFile`. -/
def writeFile (p : Path) (empty bytes : B) : Flow (Fs B) PathError Unit := do
  let made ← attempt "open" p (.create p empty)
  attempt "write" p (.write made bytes)

/-! ## Rules for single operations -/

section Rules

variable {X : Set Path} {F : Chances B} {f : Footprint} {t : FileTree B} {E : Prop}
  {op : String} {p r : Path}

theorem exits_attempt {Q : c.Result → FileTree B → Prop}
    (h : ∀ t₁, Same X t t₁ → ∀ a t₂, t₁.Exec F c a t₂ →
      f.Changes Set.univ t₁ t₂ ∧ Exits E Q a t₂) :
    Safe (fsWorld X F f) (attempt op r c).prog (Exits E Q) t := by
  intro t₁ h₁ a t₂ h₂
  obtain ⟨hg, hQ⟩ := h t₁ h₁ a t₂ h₂
  refine ⟨hg, ?_⟩
  cases a with
  | ok a => exact hQ
  | error e => exact hQ

theorem canSet_same (h : Same X t t₁) (hp : p ∈ X) (hd : p.dropLast ∈ X) :
    t₁.CanSet p ↔ t.CanSet p := by
  unfold FileTree.CanSet FileTree.isDirAt
  rw [h p hp, h _ hd]

theorem changes_set {hs : t.CanSet p} (hf : f.Allows t (t.set p x hs) p) :
    f.Changes Set.univ t (t.set p x hs) := by
  intro q _
  by_cases hq : q = p
  · exact hq ▸ hf
  · refine .inl ?_
    rw [FileTree.set_node, if_neg hq]

theorem changes_unset {hs : t.CanUnset p} (hp : p ∈ f.own) :
    f.Changes Set.univ t (t.unset p hs) := by
  intro q _
  by_cases hq : q = p
  · exact .inr (.inl (hq ▸ hp))
  · exact .inl (by rw [FileTree.unset_node, if_neg hq])

theorem puts_set {hs : t₁.CanSet p} (h₁ : Same X t t₁) : Puts X p (some x) t (t₁.set p x hs) := by
  intro q hq
  rw [FileTree.set_node, h₁ q hq]

theorem exits_reads (hc : c.Reads) {Q : c.Result → FileTree B → Prop}
    (h : ∀ t', Same X t t' → Exits E Q (t'.apply c).1 t') (hF : F c → E) :
    Safe (fsWorld X F f) (attempt op r c).prog (Exits E Q) t := by
  refine exits_attempt fun t₁ h₁ a t₂ h₂ => ?_
  obtain ⟨rfl, ha⟩ := reads_exec hc h₂
  refine ⟨.refl _ _ _, ?_⟩
  rcases ha with rfl | ⟨hf, rfl⟩
  · exact h _ h₁
  · exact hF hf

theorem exits_lstat (hp : p ∈ X) (hnone : t.node p = none → E) (hF : F (.lstat p) → E) :
    Safe (fsWorld X F f) (attempt op r (.lstat p)).prog
      (Exits E fun x t' => t.node p = some x ∧ Same X t t') t := by
  refine exits_reads (c := .lstat p) trivial (fun t' h' => ?_) hF
  show Exits E _ (t'.find p) t'
  rw [FileTree.find, h' p hp]
  cases hx : t.node p with
  | none => exact hnone hx
  | some x => exact ⟨rfl, h'⟩

theorem exits_readlink (hp : p ∈ X) (hlink : (∀ target, t.node p ≠ some (.link target)) → E)
    (hF : F (.readlink p) → E) :
    Safe (fsWorld X F f) (attempt op r (.readlink p)).prog
      (Exits E fun target t' => t.node p = some (.link target) ∧ Same X t t') t := by
  refine exits_reads (c := .readlink p) trivial (fun t' h' => ?_) hF
  dsimp only [FileTree.apply]
  rw [FileTree.find, h' p hp]
  cases hx : t.node p with
  | none => exact hlink fun target h => by rw [hx] at h; cases h
  | some x =>
    cases x with
    | link target => exact ⟨rfl, h'⟩
    | dir => exact hlink fun target h => by rw [hx] at h; cases h
    | file b => exact hlink fun target h => by rw [hx] at h; cases h

/-- A directory that is not reached through a link. -/
theorem exits_readDir (hX : ∀ n, p ++ [n] ∈ X) (hp : p ∈ X) (hdir : t.node p = some .dir)
    (hF : F (.readDir p) → E) :
    Safe (fsWorld X F f) (attempt op r (.readDir p)).prog
      (Exits E fun names t' => names.Nodup ∧ (∀ n, n ∈ names ↔ t.node (p ++ [n]) ≠ none) ∧
        Same X t t') t := by
  refine exits_reads (c := .readDir p) trivial (fun t' h' => ?_) hF
  rw [FileTree.apply_readDir ((h' p hp).trans hdir)]
  refine ⟨t'.nodup_names p, fun n => ?_, h'⟩
  rw [t'.mem_names, h' _ (hX n)]

theorem exits_openFile (hp : p ∈ X) (hfile : t.node p = some (.file b)) (hF : F (.openFile p) → E) :
    Safe (fsWorld X F f) (attempt op r (.openFile p)).prog
      (Exits E fun handle t' => handle = ⟨p, some b⟩ ∧ Same X t t') t := by
  refine exits_reads (c := .openFile p) trivial (fun t' h' => ?_) hF
  rw [FileTree.apply_openFile ((h' p hp).trans hfile)]
  exact ⟨rfl, h'⟩

theorem exits_read (hp : p ∈ X) (hfile : t.node p = some (.file b))
    (hF : F (.read ⟨p, some b⟩) → E) :
    Safe (fsWorld X F f) (attempt op r (.read ⟨p, some b⟩)).prog
      (Exits E fun b' t' => b' = b ∧ Same X t t') t := by
  refine exits_attempt fun t₁ h₁ a t₂ h => ?_
  rcases h with ⟨rfl, b', rfl, hb⟩ | ⟨hf, rfl, rfl⟩
  · exact ⟨.refl _ _ _, hb ((h₁ p hp).trans hfile), h₁⟩
  · exact ⟨.refl _ _ _, hF hf⟩

/-- Opening something of which nothing may be known. -/
theorem exits_openAny (hF : F (.openFile p) → E)
    (hknown : ¬ (p ∈ X ∧ ∃ b, t.node p = some (.file b)) → E) :
    Safe (fsWorld X F f) (attempt op r (.openFile p)).prog (Exits E fun handle t' =>
      (p ∈ X → ∀ b, t.node p = some (.file b) → handle = ⟨p, some b⟩) ∧ (handle.bytes = none → E) ∧
        Same X t t') t := by
  by_cases hk : p ∈ X ∧ ∃ b, t.node p = some (.file b)
  · obtain ⟨hp, b, hb⟩ := hk
    refine exits_mono (exits_openFile hp hb hF) id ?_
    rintro handle t' ⟨rfl, h'⟩
    refine ⟨fun _ b' hb' => ?_, (nomatch ·), h'⟩
    rw [hb] at hb'
    cases hb'
    rfl
  · have hE := hknown hk
    refine exits_reads (c := .openFile p) trivial (fun t' h' => ?_) hF
    cases (t'.apply (.openFile p)).1 with
    | error e => exact hE
    | ok handle => exact ⟨fun hp b hb => absurd ⟨hp, b, hb⟩ hk, fun _ => hE, h'⟩

theorem exits_readAny {handle : Handle B} (hF : F (.read handle) → E)
    (hdir : handle.bytes = none → E) :
    Safe (fsWorld X F f) (attempt op r (.read handle)).prog (Exits E fun b' t' =>
      (∀ q b, handle = ⟨q, some b⟩ → q ∈ X → t.node q = some (.file b) → b' = b) ∧
      Same X t t') t := by
  obtain ⟨path, bytes⟩ := handle
  refine exits_attempt fun t₁ h₁ a t₂ h => ?_
  cases bytes with
  | none =>
    rcases h with ⟨rfl, rfl⟩ | ⟨hf, rfl, rfl⟩
    · exact ⟨.refl _ _ _, hdir rfl⟩
    · exact ⟨.refl _ _ _, hF hf⟩
  | some b =>
    rcases h with ⟨rfl, b', rfl, hb⟩ | ⟨hf, rfl, rfl⟩
    · refine ⟨.refl _ _ _, fun q b'' hq hqX hnode => ?_, h₁⟩
      cases hq
      exact hb ((h₁ _ hqX).trans hnode)
    · exact ⟨.refl _ _ _, hF hf⟩

theorem exits_depth (hF : F .depth → E) :
    Safe (fsWorld X F f) (attempt op r .depth).prog (Exits E fun n t' =>
      (∀ q, t'.node q ≠ none → q.length < n) ∧ Same X t t') t := by
  refine exits_attempt fun t₁ h₁ a t₂ h => ?_
  rcases h with ⟨rfl, n, rfl, hn⟩ | ⟨hf, rfl, rfl⟩
  · exact ⟨.refl _ _ _, hn, h₁⟩
  · exact ⟨.refl _ _ _, hF hf⟩

theorem exits_symlink {target : String} (hp : p ∈ X) (hd : p.dropLast ∈ X) (hf : p ∈ f.own)
    (hF : F (.symlink target p) → E)
    (hcan : ¬ (t.CanSet p ∧ t.node p = none ∧ target ≠ "") → E) :
    Safe (fsWorld X F f) (attempt op r (.symlink target p)).prog
      (Exits E fun _ t' => Puts X p (some (.link target)) t t') t := by
  refine exits_attempt fun t₁ h₁ a t₂ h => ?_
  rcases symlink_exec h with ⟨hs, hnone, rfl, rfl⟩ | ⟨e, rfl, rfl, hbad⟩
  · exact ⟨changes_set (.inr (.inl hf)), puts_set h₁⟩
  · refine ⟨.refl _ _ _, ?_⟩
    rcases hbad with hbad | hbad | hbad | hbad
    · exact hF hbad
    · exact hcan fun h => hbad ((canSet_same h₁ hp hd).mpr h.1)
    · exact hcan fun h => hbad ((h₁ p hp).trans h.2.1)
    · exact hcan fun h => h.2.2 hbad

theorem exits_create {empty : B} (hp : p ∈ X) (hd : p.dropLast ∈ X)
    (hlink : ∀ target, t.node p ≠ some (.link target)) (hf : p ∈ f.own ∨ p ∈ f.bytes)
    (hF : F (.create p empty) → E) (hcan : ¬ t.CanSet p → E) :
    Safe (fsWorld X F f) (attempt op r (.create p empty)).prog
      (Exits E fun q t' => q = p ∧ Puts X p (some (.file empty)) t t') t := by
  refine exits_attempt fun t₁ h₁ a t₂ h => ?_
  have hlink₁ : ∀ target, t₁.node p ≠ some (.link target) := fun target => by
    rw [h₁ p hp]
    exact hlink target
  rcases create_exec h hlink₁ with ⟨hs, rfl, rfl⟩ | ⟨e, rfl, rfl, hbad⟩
  · refine ⟨changes_set ?_, rfl, puts_set h₁⟩
    rcases hf with hf | hf
    · exact .inr (.inl hf)
    · refine .inr (.inr (.inl ⟨hf, ?_, empty, by rw [FileTree.set_node, if_pos rfl]⟩))
      have hdir : t₁.node p ≠ some .dir := fun h => by
        rw [← t₁.isDirAt_iff, hs.2.2.1] at h
        cases h
      cases hx : t₁.node p with
      | none => exact .inl rfl
      | some x =>
        cases x with
        | dir => exact absurd hx hdir
        | file b => exact .inr ⟨b, rfl⟩
        | link target => exact absurd hx (hlink₁ target)
  · refine ⟨.refl _ _ _, ?_⟩
    rcases hbad with hbad | hbad
    · exact hF hbad
    · exact hcan fun h => hbad ((canSet_same h₁ hp hd).mpr h)

theorem exits_write {bytes : B} (hp : p ∈ X) (hfile : t.node p = some (.file b))
    (hf : p ∈ f.own ∨ p ∈ f.bytes) (hF : F (.write p bytes) → E) :
    Safe (fsWorld X F f) (attempt op r (.write p bytes)).prog
      (Exits E fun _ t' => Puts X p (some (.file bytes)) t t') t := by
  refine exits_attempt fun t₁ h₁ a t₂ h => ?_
  have hfile₁ := (h₁ p hp).trans hfile
  have hallow : ∀ b', f.Allows t₁ (t₁.set p (.file b') (FileTree.canSet_file hfile₁)) p := by
    intro b'
    rcases hf with hf | hf
    · exact .inr (.inl hf)
    · exact .inr (.inr (.inl ⟨hf, .inr ⟨b, hfile₁⟩, b', by rw [FileTree.set_node, if_pos rfl]⟩))
  rcases write_exec h hfile₁ with ⟨rfl, rfl⟩ | ⟨rfl, hf', rfl | ⟨b', rfl⟩⟩
  · exact ⟨changes_set (hallow bytes), puts_set h₁⟩
  · exact ⟨.refl _ _ _, hF hf'⟩
  · exact ⟨changes_set (hallow b'), hF hf'⟩

theorem exits_mkdirTemp {dir : Path} {pattern : String}
    (hX : ∀ suffix, dir ++ [pattern ++ suffix] ∈ X) (hd : dir ∈ X)
    (hf : ∀ suffix, dir ++ [pattern ++ suffix] ∈ f.own) (hF : F (.mkdirTemp dir pattern) → E)
    (hdir : t.node dir ≠ some .dir → E) (hname : ¬ IsName pattern → E) :
    Safe (fsWorld X F f) (attempt op r (.mkdirTemp dir pattern)).prog
      (Exits E fun q t' => ∃ suffix, (∃ t₁, Same X t t₁ ∧ F.draws t₁ dir pattern suffix) ∧
        q = dir ++ [pattern ++ suffix] ∧ t.node dir = some .dir ∧ t.node q = none ∧ Proper q ∧
        Puts X q (some .dir) t t') t := by
  refine exits_attempt fun t₁ h₁ a t₂ h => ?_
  rcases mkdirTemp_exec h with ⟨suffix, hsuf, hfree, hs, rfl, rfl⟩ | ⟨e, rfl, rfl, hbad⟩
  · refine ⟨changes_set (.inr (.inl (hf suffix))), suffix, ⟨t₁, h₁, hsuf⟩, rfl, ?_,
      (h₁ _ (hX suffix)).symm.trans hfree, hs.2.2.2, puts_set h₁⟩
    have := t₁.isDirAt_iff.mp hs.2.1
    rw [List.dropLast_concat, h₁ dir hd] at this
    exact this
  · refine ⟨.refl _ _ _, ?_⟩
    rcases hbad with hbad | hbad | hbad
    · exact hF hbad
    · exact hdir (by rwa [h₁ dir hd] at hbad)
    · exact hname hbad

/-- A removal that is not expected to do anything. -/
theorem safe_remove_any {Q : Unit → FileTree B → Prop} (hp : p ∈ f.own)
    (h : ∀ t₁ t₂, Same X t t₁ → (t₂ = t₁ ∨ ∃ hs, t₁.node p ≠ none ∧ t₂ = t₁.unset p hs) → Q () t₂) :
    Safe (fsWorld X F f) (.call (.remove p) fun _ => .pure ()) Q t := by
  intro t₁ h₁ a t₂ h₂
  rcases remove_exec h₂ with ⟨hs, hne, _, rfl⟩ | ⟨rfl, _⟩
  · exact ⟨changes_unset hp, h _ _ h₁ (.inr ⟨hs, hne, rfl⟩)⟩
  · exact ⟨.refl _ _ _, h _ _ h₁ (.inl rfl)⟩

theorem exits_remove (hX : ∀ q, p <+: q → q ∈ X) (hf : p ∈ f.own) (hF : F (.remove p) → E)
    (hcan : ¬ (p ≠ [] ∧ t.node p ≠ none ∧ ∀ n, t.node (p ++ [n]) = none) → E) :
    Safe (fsWorld X F f) (attempt op r (.remove p)).prog
      (Exits E fun _ t' => Puts X p none t t') t := by
  refine exits_attempt fun t₁ h₁ a t₂ h => ?_
  have hp := h₁ p (hX p List.prefix_rfl)
  have hsame : ∀ n, t₁.node (p ++ [n]) = t.node (p ++ [n]) := fun n =>
    h₁ _ (hX _ (List.prefix_append p [n]))
  rcases remove_exec h with ⟨hs, _, rfl, rfl⟩ | ⟨rfl, hbad⟩
  · refine ⟨changes_unset hf, fun q hq => ?_⟩
    rw [FileTree.unset_node, h₁ q hq]
  · rcases hbad with ⟨rfl, hnone⟩ | ⟨rfl, hnil⟩ | ⟨rfl, hnames⟩ | ⟨rfl, hf'⟩
    · exact ⟨.refl _ _ _, hcan fun h => h.2.1 (hp.symm.trans hnone)⟩
    · exact ⟨.refl _ _ _, hcan fun h => h.1 hnil⟩
    · refine ⟨.refl _ _ _, hcan fun h => hnames (t₂.names_eq_nil.mpr fun n => ?_)⟩
      exact (hsame n).trans (h.2.2 n)
    · exact ⟨.refl _ _ _, hF hf'⟩

/-- A move to a place where nothing is, or something that a rename replaces. -/
theorem exits_rename {src dst : Path} (hsrcX : ∀ q, src <+: q → q ∈ X)
    (hdstX : ∀ q, dst <+: q → q ∈ X) (hdX : dst.dropLast ∈ X)
    (hown : ∀ q, src <+: q ∨ dst <+: q → q ∈ f.own) (hF : F (.rename src dst) → E)
    (hapart : Apart src dst) (hne : dst ≠ []) (hproper : Proper dst)
    (hsrc : t.node src = none → E) (hdir : t.node dst.dropLast ≠ some .dir → E)
    (hdst : ¬ (t.node dst = none ∨ (t.node dst ≠ some .dir ∧ t.node src ≠ some .dir)) → E) :
    Safe (fsWorld X F f) (attempt op r (.rename src dst)).prog
      (Exits E fun _ t' => (t.node dst = some .dir → t.node src = some .dir) ∧
        ∀ q ∈ X, t'.node q = t.moved src dst q) t := by
  refine exits_attempt fun t₁ h₁ a t₂ h => ?_
  have hs := h₁ src (hsrcX src List.prefix_rfl)
  have hd := h₁ dst (hdstX dst List.prefix_rfl)
  rcases rename_exec h with ⟨hm, hre, rfl, rfl⟩ | ⟨heq, _⟩ | ⟨e, rfl, rfl, hbad⟩
  · refine ⟨fun q _ => ?_, fun h => hs.symm.trans (FileTree.dir_of_renameError hre (hd.trans h)),
      fun q hq => ?_⟩
    · by_cases hq : src <+: q ∨ dst <+: q
      · exact .inr (.inl (hown q hq))
      · rw [not_or] at hq
        exact .inl (t₁.moved_other hq.2 hq.1)
    · show t₁.moved src dst q = t.moved src dst q
      unfold FileTree.moved
      rw [h₁ q hq, h₁ _ (hsrcX _ (List.prefix_append src _))]
  · exact absurd heq hapart.ne
  · refine ⟨.refl _ _ _, ?_⟩
    by_contra hE
    have hsrc' : t₂.node src ≠ none := fun h' => hE (hsrc (hs.symm.trans h'))
    have hdir' : t₂.node dst.dropLast = some .dir := by
      by_contra h'
      exact hE (hdir (by rwa [← h₁ _ hdX]))
    have hdst' := not_not.mp (mt hdst hE)
    rw [← hd, ← hs] at hdst'
    have hnodir : t₂.node dst ≠ some .dir := fun h' => by
      rw [h'] at hdst'
      rcases hdst' with h' | ⟨h', _⟩
      · cases h'
      · exact h' rfl
    rcases hbad with hf' | hbad | hbad | hbad
    · exact hE (hF hf')
    · exact hsrc' hbad
    · refine hbad ⟨hne, t₂.isDirAt_iff.mpr hdir', hproper, ?_, hapart.1, hapart.2⟩
      exact t₂.names_eq_nil.mpr fun n => t₂.below_none hnodir (by simp)
    · refine hbad ?_
      unfold FileTree.renameError
      cases hx : t₂.node src with
      | none => exact absurd hx hsrc'
      | some x =>
        cases hy : t₂.node dst with
        | none => cases x <;> simp [hapart.1]
        | some y =>
          rw [hy, hx] at hdst'
          rcases hdst' with h' | ⟨hyd, hxd⟩
          · cases h'
          · cases x <;> cases y <;> simp_all

end Rules

/-! ## Whole files -/

section Files

variable {X : Set Path} {F : Chances B} {f : Footprint} {t : FileTree B} {E : Prop} {p : Path}

theorem exits_readFile (hp : p ∈ X) (hfile : t.node p = some (.file b)) (hF : ∀ c, F c → E) :
    Safe (fsWorld X F f) (readFile p).prog (Exits E fun b' t' => b' = b ∧ Same X t t') t := by
  refine exits_bind (exits_openFile hp hfile (hF _)) ?_
  rintro handle t₁ ⟨rfl, h₁⟩
  refine exits_mono (exits_read hp ((h₁ p hp).trans hfile) (hF _)) id ?_
  rintro b' t₂ ⟨hb, h₂⟩
  exact ⟨hb, h₁.trans h₂⟩

theorem exits_writeFile {empty bytes : B} (hp : p ∈ X) (hd : p.dropLast ∈ X)
    (hlink : ∀ target, t.node p ≠ some (.link target)) (hf : p ∈ f.own ∨ p ∈ f.bytes)
    (hF : ∀ c, F c → E) (hcan : ¬ t.CanSet p → E) :
    Safe (fsWorld X F f) (writeFile p empty bytes).prog
      (Exits E fun _ t' => Puts X p (some (.file bytes)) t t') t := by
  refine exits_bind (exits_create hp hd hlink hf (hF _) hcan) ?_
  rintro q t₁ ⟨hq, h₁⟩
  rw [hq]
  refine exits_mono (exits_write hp (h₁.self hp) hf (hF _)) id ?_
  intro _ t₂ h₂ r hr
  rw [h₂ r hr, h₁ r hr]
  split <;> rfl

end Files

/-! ## Making directories -/

/-- Nothing on the way to `p`, nor `p` itself, is a file or a link. -/
def FileTree.Clear (t : FileTree B) (p : Path) : Prop :=
  ∀ q, q <+: p → t.node q = none ∨ t.node q = some .dir

section MkdirAll

variable {X : Set Path} {F : Chances B} {t : FileTree B} {E : Prop}

/-- The directories above `p`, and `p`. -/
def above (p : Path) : Footprint := ⟨∅, ∅, {q | q <+: p}⟩

/-- A path that is followed to a directory is one or is a link. -/
theorem FileTree.dir_or_link {t : FileTree B} {p : Path} (h : (t.apply (.stat p)).1 = .ok x) :
    t.node p = some x ∨ ∃ target, t.node p = some (.link target) := by
  cases hp : t.node p with
  | none =>
    have hfind : t.find p = .error (t.missing p) := by rw [FileTree.find, hp]
    have hres : t.resolve p = .error (t.missing p) := by
      rw [FileTree.resolve, FileTree.resolveIn, hfind]
    have happly : t.apply (.stat p) = (.error (t.missing p), t) := by
      show ((t.resolve p).map Prod.snd, t) = _
      rw [hres]
      rfl
    rw [happly] at h
    cases h
  | some y =>
    by_cases hy : ∃ target, y = .link target
    · obtain ⟨target, rfl⟩ := hy
      exact .inr ⟨target, rfl⟩
    · rw [FileTree.apply_stat hp fun target h => hy ⟨target, h⟩] at h
      cases h
      exact .inl rfl

theorem FileTree.Clear.same {t : FileTree B} {p : Path} (h : t.Clear p) (hX : ∀ q, q <+: p → q ∈ X)
    (h₁ : Same X t t₁) : t₁.Clear p := by
  intro q hq
  rw [h₁ q (hX q hq)]
  exact h q hq

theorem exits_mkdirLast {p : Path} (hpX : p ∈ X) (hdX : p.dropLast ∈ X) (hne : p ≠ [])
    (hproper : Proper p) (hF : ∀ c, F c → E) (hup : t.node p.dropLast = some .dir ∨ E)
    (hp : (t.node p = none ∨ t.node p = some .dir) ∨ E) :
    Safe (fsWorld X F (above p)) (mkdirLast p).prog
      (Exits E fun _ t' => t'.node p = some .dir) t := by
  intro t₁ h₁ a t₂ h
  rcases mkdir_exec h with ⟨hs, hnone, rfl, rfl⟩ | ⟨e, rfl, rfl, hbad⟩
  · have hnode : (t₁.set p .dir hs).node p = some .dir := by rw [FileTree.set_node, if_pos rfl]
    exact ⟨changes_set (.inr (.inr (.inr ⟨List.prefix_refl p, hnone, hnode⟩))), hnode⟩
  · refine ⟨.refl _ _ _, safe_read (c := .lstat p) trivial (fun t₃ h₃ => ?_) fun hf _ _ => hF _ hf⟩
    have hnode : t₃.node p = t.node p := (h₃ p hpX).trans (h₁ p hpX)
    cases hx : (t₃.apply (.lstat p)).1 with
    | error e =>
      -- Nothing is there and the directory above is: only a failure can be the reason.
      have hnone := (t₃.find_error hx).1
      refine show E from hup.elim (fun hup => ?_) id
      rcases hbad with hbad | hbad | hbad
      · exact hF _ hbad
      · refine absurd (FileTree.canSet_of hne ((h₁ _ hdX).trans hup) ?_ hproper) hbad
        rw [h₁ p hpX, ← hnode, hnone]
        exact fun h => nomatch h
      · exact absurd ((h₁ p hpX).trans (hnode.symm.trans hnone)) hbad
    | ok x =>
      have hsome := t₃.find_ok.mp hx
      cases x with
      | dir => exact hsome
      | file b =>
        refine show E from hp.elim (fun hp => ?_) id
        rw [← hnode, hsome] at hp
        rcases hp with hp | hp <;> cases hp
      | link target =>
        refine show E from hp.elim (fun hp => ?_) id
        rw [← hnode, hsome] at hp
        rcases hp with hp | hp <;> cases hp

theorem exits_mkdirAllUp (up : List String) (hX : ∀ q, q <+: up.reverse → q ∈ X)
    (hproper : Proper up.reverse) (hF : ∀ c, F c → E) (hclear : t.Clear up.reverse ∨ E) :
    Safe (fsWorld X F (above up.reverse)) (mkdirAllUp up).prog
      (Exits E fun _ t' => t'.node up.reverse = some .dir ∨
        ∃ target, t'.node up.reverse = some (.link target)) t := by
  induction up generalizing t with
  | nil => exact .inl t.root
  | cons n up ih =>
    have hcons : (n :: up).reverse = up.reverse ++ [n] := List.reverse_cons
    generalize hp : (n :: up).reverse = p at *
    have hup : ∀ q, q <+: up.reverse → q <+: p := fun q hq =>
      hcons ▸ hq.trans (List.prefix_append _ _)
    have hpX : p ∈ X := hX p (List.prefix_refl p)
    have hdrop : p.dropLast = up.reverse := by rw [hcons, List.dropLast_concat]
    -- What is left to do when `Stat` finds nothing.
    have hslow : ∀ t₁, Same X t t₁ → Safe (fsWorld X F (above p))
        (mkdirAllUp up >>= fun _ => mkdirLast p).prog (Exits E fun _ t' =>
          t'.node p = some .dir ∨ ∃ target, t'.node p = some (.link target)) t₁ := by
      intro t₁ h₁
      have hclear₁ : t₁.Clear p ∨ E := hclear.imp_left fun h => h.same hX h₁
      have hrec := ih (t := t₁) (fun q hq => hX q (hup q hq))
        (hproper.below (hup _ List.prefix_rfl))
        (hclear₁.imp_left fun h q hq => h q (hup q hq))
      have hle : (above up.reverse).Le (above p) :=
        ⟨subset_rfl, fun q hq => hq.elim, fun q hq => .inl (hup q hq)⟩
      refine exits_bind (exits_within hle hrec) ?_
      rintro _ t₂ ⟨hdir, hc⟩
      have hkeep : t₂.node p = t₁.node p := by
        refine hc.same hpX id id ?_
        rw [hcons]
        exact not_below_self _ (by simp)
      refine exits_mono (exits_mkdirLast hpX (hX _ p.dropLast_prefix) ?_ hproper hF ?_ ?_)
        id fun _ _ h => .inl h
      · rw [hcons]
        simp
      · rw [hdrop]
        refine hclear₁.elim (fun hcl => .inl ?_) .inr
        refine hdir.resolve_right ?_
        rintro ⟨target, htarget⟩
        have := hc.clear (hX _ (hup _ List.prefix_rfl)) id id (hcl _ (hup _ List.prefix_rfl))
        rw [htarget] at this
        rcases this with h | h <;> cases h
      · rw [hkeep]
        exact hclear₁.imp_left fun h => h p List.prefix_rfl
    rw [mkdirAllUp, hp]
    refine safe_read (c := .stat p) trivial (fun t₁ h₁ => ?_) fun _ t₁ h₁ => hslow t₁ h₁
    cases hstat : (t₁.apply (.stat p)).1 with
    | error e => exact hslow t₁ h₁
    | ok x =>
      have hx := FileTree.dir_or_link hstat
      have hbad : x ≠ .dir → E := by
        intro hne
        refine hclear.elim (fun h => ?_) id
        have := (h.same hX h₁) p List.prefix_rfl
        rcases hx with hx | ⟨target, hx⟩ <;> rw [hx] at this <;> rcases this with h | h <;> cases h
        exact absurd rfl hne
      cases x with
      | dir => exact hx
      | file b => exact hbad fun h => nomatch h
      | link target => exact hbad fun h => nomatch h

/-- `MkdirAll` makes the directory, unless a link stands in its place. -/
theorem exits_mkdirAll {p : Path} (hX : ∀ q, q <+: p → q ∈ X) (hproper : Proper p)
    (hF : ∀ c, F c → E) (hclear : t.Clear p ∨ E)
    (hlink : ∀ target, t.node p ≠ some (.link target)) :
    Safe (fsWorld X F (above p)) (mkdirAll p).prog
      (Exits E fun _ t' => t'.node p = some .dir) t := by
  have hrev := List.reverse_reverse p
  have hall := exits_mkdirAllUp p.reverse (t := t) (by rwa [hrev]) (by rwa [hrev]) hF
    (by rwa [hrev])
  rw [hrev] at hall
  refine (safe_changes hall).mono ?_
  rintro (e | _) t' ⟨h, hc⟩
  · exact h
  · rcases h with h | ⟨target, h⟩
    · exact h
    · rcases hc p (hX p List.prefix_rfl) with h' | h' | ⟨h', _⟩ | ⟨_, _, h'⟩
      · exact absurd (h'.symm.trans h) (hlink target)
      · exact h'.elim
      · exact h'.elim
      · exact h'

/-- `MkdirAll` fails where something else than a directory is in the way. -/
theorem exits_mkdirAll_blocked {p : Path} (hproper : Proper p) (hblocked : ¬ t.Clear p)
    (hlink : ∀ target, t.node p ≠ some (.link target)) :
    Safe (fsWorld Set.univ F (above p)) (mkdirAll p).prog (Exits True fun _ _ => False) t := by
  refine (safe_changes (exits_mkdirAll (fun _ _ => trivial) hproper (fun _ _ => trivial)
    (.inr trivial)
    hlink)).mono ?_
  rintro (e | _) t' ⟨h, hc⟩
  · exact h
  · refine hblocked fun q hq => ?_
    have hdir : t'.node q = some .dir := by
      by_cases hqp : q = p
      · rw [hqp, h]
      · exact t'.dir_above (by rw [h]; exact Option.some_ne_none _) hq hqp
    rcases hc q trivial with h' | h' | ⟨h', _⟩ | ⟨_, h', _⟩
    · exact .inr (h' ▸ hdir)
    · exact h'.elim
    · exact h'.elim
    · exact .inl h'

end MkdirAll

/-! ## Removing trees -/

section RemoveAll

variable {X : Set Path} {F : Chances B} {t : FileTree B} {E : Prop}

/-- Everything at `p` and below it. -/
def under (p : Path) : Footprint := ⟨{q | p <+: q}, ∅, ∅⟩

/-- Nothing is left at `p` and below it. -/
def FileTree.Gone (t : FileTree B) (p : Path) : Prop := ∀ q, p <+: q → t.node q = none

theorem FileTree.gone_of_none {t : FileTree B} {p : Path} (h : t.node p = none) : t.Gone p := by
  rintro q ⟨r, rfl⟩
  exact t.absent_below h

theorem under_le {p q : Path} (h : p <+: q) : (under q).Le (under p) :=
  ⟨fun _ hr => h.trans hr, fun _ hr => hr.elim, fun _ hr => hr.elim⟩

theorem FileTree.missing_enoent {t : FileTree B} {p : Path} (h : t.Clear p) :
    t.missing p = .enoent := by
  unfold FileTree.missing
  refine if_neg ?_
  rw [Bool.not_eq_true, FileTree.blocked, List.any_eq_false]
  intro q hq
  rw [Bool.and_eq_true, Option.isSome_iff_ne_none]
  rintro ⟨hne, hdir⟩
  rcases h q ((List.mem_inits q p).mp hq) with h | h
  · exact hne h
  · rw [t.isDirAt_iff.mpr h] at hdir
    cases hdir

theorem FileTree.clear_of_missing {t : FileTree B} {p : Path} (h : t.missing p = .enoent) :
    t.Clear p := by
  intro q hq
  by_contra hn
  rw [not_or] at hn
  have hblocked : t.blocked p = true := by
    refine List.any_eq_true.mpr ⟨q, (List.mem_inits q p).mpr hq, ?_⟩
    rw [Bool.and_eq_true, Option.isSome_iff_ne_none, Bool.not_eq_true', ← Bool.not_eq_true,
      t.isDirAt_iff]
    exact hn
  rw [FileTree.missing, hblocked] at h
  cases h

theorem FileTree.missing_cases (t : FileTree B) (p : Path) :
    t.missing p = .enoent ∨ t.missing p = .enotdir := by
  unfold FileTree.missing
  split
  · exact .inr rfl
  · exact .inl rfl

/-- The entries of a directory one after the other: the ones in the list are gone afterwards, the
others are as they were. -/
theorem safe_removeEntries {rm : String → Prog (Fs B) (Except PathError Unit)} {p : Path}
    {names : List String} (t₀ : FileTree B) (hX : ∀ q, p <+: q → q ∈ X) (hnodup : names.Nodup)
    (hrm : ∀ n ∈ names, ∀ t₁ : FileTree B, (∀ q, t₁.node (p ++ n :: q) = t₀.node (p ++ n :: q)) →
      Safe (fsWorld X F (under (p ++ [n]))) (rm n) (Exits E fun _ t' => t'.Gone (p ++ [n])) t₁)
    (h₀ : ∀ n ∈ names, ∀ q, t.node (p ++ n :: q) = t₀.node (p ++ n :: q)) :
    Safe (fsWorld X F (under p)) (removeEntries rm names) (fun x t' => (x = none ∨ E) ∧
      ((∀ n ∈ names, t'.Gone (p ++ [n])) ∨ E) ∧ t'.node p = t.node p ∧
      ∀ n ∉ names, ∀ q, t'.node (p ++ n :: q) = t.node (p ++ n :: q)) t := by
  induction names generalizing t with
  | nil => exact ⟨.inl rfl, .inl fun n hn => absurd hn List.not_mem_nil, rfl, fun _ _ _ => rfl⟩
  | cons n names ih =>
    obtain ⟨hn, hnodup⟩ := List.nodup_cons.mp hnodup
    have hfirst := hrm n List.mem_cons_self t (h₀ n List.mem_cons_self)
    refine Safe.bind ((safe_widen (under_le (List.prefix_append p [n]))
      (safe_changes hfirst)).mono ?_)
    rintro x t₁ ⟨hx, hc⟩
    have hother : ∀ m, m ≠ n → ∀ q, t₁.node (p ++ m :: q) = t.node (p ++ m :: q) := fun m hm q =>
      hc.same (hX _ (List.prefix_append p _)) (apart_entries p hm q []).2 id id
    have hself : t₁.node p = t.node p :=
      hc.same (hX p List.prefix_rfl) (not_below_self p (by simp)) id id
    have hne : ∀ m ∈ names, m ≠ n := fun m hm h => hn (h ▸ hm)
    refine Safe.bind
      ((ih hnodup (fun m hm => hrm m (List.mem_cons_of_mem n hm)) fun m hm q => ?_).mono
      ?_)
    · rw [hother m (hne m hm) q, h₀ m (List.mem_cons_of_mem n hm) q]
    rintro y t₂ ⟨hy, hgone, hp, hrest⟩
    have hkept : ∀ m ∉ n :: names, ∀ q, t₂.node (p ++ m :: q) = t.node (p ++ m :: q) := by
      intro m hm q
      obtain ⟨hmn, hm⟩ := not_or.mp (List.mem_cons.not.mp hm)
      rw [hrest m hm q, hother m hmn q]
    cases x with
    | error e => exact ⟨.inr hx, .inr hx, hp.trans hself, hkept⟩
    | ok _ =>
      refine ⟨hy, hgone.imp_left fun hgone m hm => ?_, hp.trans hself, hkept⟩
      rcases List.mem_cons.mp hm with rfl | hm
      · refine FileTree.gone_of_none ?_
        rw [hrest m hn []]
        exact hx _ List.prefix_rfl
      · exact hgone m hm

/-- A call on the way of removing everything at `p` may fail. -/
def Fallible (F : Chances B) (p : Path) : Prop :=
  ∃ q, p <+: q ∧ (F (.remove q) ∨ F (.readNames q))

theorem Fallible.above {p q : Path} (h : Fallible F q) (hpq : p <+: q) : Fallible F p := by
  obtain ⟨r, hr, h⟩ := h
  exact ⟨r, hpq.trans hr, h⟩

theorem safe_removeAllIn {n : Nat} {p : Path} (hX : ∀ q, p <+: q → q ∈ X) (hne : p ≠ [])
    (hn : 0 < n) (hdeep : ∀ q, t.node (p ++ q) ≠ none → q.length < n) (hF : Fallible F p → E)
    (hclear : t.node p ≠ none ∨ ((∀ q, q <+: p → q ∈ X) ∧ t.Clear p) ∨ E) :
    Safe (fsWorld X F (under p)) (removeAllIn n p) (Exits E fun _ t' => t'.Gone p) t := by
  induction n generalizing p t with
  | zero => omega
  | succ n ih =>
    have hpX := hX p List.prefix_rfl
    have hown : p ∈ (under p).own := List.prefix_rfl
    intro t₁ h₁ a t₂ h
    rcases remove_exec h with ⟨hs, _, rfl, rfl⟩ | ⟨rfl, ⟨rfl, hnone⟩ | ⟨rfl, hnil⟩ | ⟨rfl, hnames⟩ |
      ⟨rfl, hf⟩⟩
    · exact ⟨changes_unset hown, FileTree.gone_of_none (by rw [FileTree.unset_node, if_pos rfl])⟩
    · -- Nothing was there.
      refine ⟨.refl _ _ _, ?_⟩
      rcases hclear with hp | ⟨hup, hcl⟩ | hE
      · exact absurd ((h₁ p hpX).symm.trans hnone) hp
      · rw [FileTree.missing_enoent (hcl.same hup h₁)]
        exact FileTree.gone_of_none hnone
      · rcases t₂.missing_cases p with hm | hm <;> rw [hm]
        · exact FileTree.gone_of_none hnone
        · exact hE
    · exact absurd hnil hne
    · refine ⟨.refl _ _ _, ?_⟩
      obtain ⟨m, hm⟩ := List.exists_mem_of_ne_nil _ hnames
      have hdir : t.node p = some .dir :=
        (h₁ p hpX).symm.trans (t₂.parent p m (t₂.mem_names.mp hm))
      intro t₃ h₃ a t₃' h₃'
      have hdir₃ := (h₃ p hpX).trans ((h₁ p hpX).trans hdir)
      rcases readNames_exec h₃' hdir₃ with ⟨rfl, ⟨names, hperm, rfl⟩ | ⟨rfl, hf⟩⟩
      case inr => exact ⟨.refl _ _ _, hF ⟨p, List.prefix_rfl, .inr hf⟩⟩
      refine ⟨.refl _ _ _, ?_⟩
      have hsame : ∀ q, t₃'.node (p ++ q) = t.node (p ++ q) := fun q =>
        (h₁.trans h₃) _ (hX _ (List.prefix_append p q))
      refine Safe.bind
        ((safe_removeEntries (E := E) t₃' hX (hperm.nodup_iff.mpr (t₃'.nodup_names p))
        (fun m hm t₄ h₄ => ?_) fun _ _ _ => rfl).mono ?_)
      · -- An entry is one level less deep than its directory.
        have hbelow : ∀ q, t₄.node (p ++ [m] ++ q) = t.node (p ++ m :: q) := fun q => by
          rw [List.append_assoc]
          exact (h₄ q).trans (hsame (m :: q))
        have hlt : ∀ q, t₄.node (p ++ [m] ++ q) ≠ none → q.length < n := fun q hq => by
          have := hdeep (m :: q) (by rwa [← hbelow q])
          simpa using this
        have hpresent : t₄.node (p ++ [m]) ≠ none := by
          rw [h₄ []]
          exact t₃'.mem_names.mp (hperm.mem_iff.mp hm)
        exact ih (fun q hq => hX q ((List.prefix_append p [m]).trans hq)) (by simp)
          (Nat.zero_lt_of_lt (hlt [] (by rwa [List.append_nil]))) hlt
          (fun h => hF (h.above (List.prefix_append p [m]))) (.inl hpresent)
      · rintro failed t₄ ⟨hfailed, hgone, hself, hrest⟩ t₅ h₅ a t₆ h₆
        rcases remove_exec h₆ with ⟨hs, _, rfl, rfl⟩ | ⟨rfl, ⟨rfl, hnone⟩ | ⟨rfl, hnil⟩ |
          ⟨rfl, hnames⟩ | ⟨rfl, hf⟩⟩
        · exact ⟨changes_unset hown,
            FileTree.gone_of_none (by rw [FileTree.unset_node, if_pos rfl])⟩
        · have hp := (h₅ p hpX).trans (hself.trans ((h₃ p hpX).trans ((h₁ p hpX).trans hdir)))
          rw [hnone] at hp
          cases hp
        · exact absurd hnil hne
        · -- Something is left: then an entry could not be removed.
          refine ⟨.refl _ _ _, show E from hgone.elim (fun hgone => ?_) id⟩
          obtain ⟨m, hm⟩ := List.exists_mem_of_ne_nil _ hnames
          have hleft := t₆.mem_names.mp hm
          rw [h₅ _ (hX _ (List.prefix_append p [m]))] at hleft
          by_cases hm₃ : m ∈ names
          · exact absurd (hgone m hm₃ _ List.prefix_rfl) hleft
          · rw [hrest m hm₃ []] at hleft
            exact absurd (hperm.mem_iff.mpr (t₃'.mem_names.mpr hleft)) hm₃
        · exact ⟨.refl _ _ _, hF ⟨p, List.prefix_rfl, .inl hf⟩⟩
    · exact ⟨.refl _ _ _, hF ⟨p, List.prefix_rfl, .inl hf⟩⟩

/-- `RemoveAll` leaves nothing behind. -/
theorem exits_removeAll {p : Path} (hX : ∀ q, p <+: q → q ∈ X) (hne : p ≠ [])
    (hF : Fallible F p → E) (hdepth : F .depth → E)
    (hclear : t.node p ≠ none ∨ ((∀ q, q <+: p → q ∈ X) ∧ t.Clear p) ∨ E) :
    Safe (fsWorld X F (under p)) (removeAll p).prog (Exits E fun _ t' => t'.Gone p) t := by
  intro t₁ h₁ a t₂ h
  rcases h with ⟨rfl, n, rfl, hn⟩ | ⟨hf, rfl, rfl⟩
  · refine ⟨.refl _ _ _, ?_⟩
    have hroot : 0 < n := Nat.zero_lt_of_lt (hn [] (by rw [t₂.root]; exact Option.some_ne_none _))
    refine safe_removeAllIn hX hne hroot (fun q hq => ?_) hF ?_
    · have := hn _ hq
      rw [List.length_append] at this
      omega
    · rw [h₁ p (hX p List.prefix_rfl)]
      exact hclear.imp_right (.imp_left fun h => ⟨h.1, h.2.same h.1 h₁⟩)
  · exact ⟨.refl _ _ _, hdepth hf⟩

end RemoveAll

/-! ## Reading and writing alone -/

section Alone

variable {F : Chances B} {t t' : FileTree B} {p : Path}

theorem ends_attempt {op : String} {x : Except PathError c.Result} :
    (attempt op p c).prog.Ends (fun t => t.Exec F) t x t' ↔
      ∃ a, t.Exec F c a t' ∧ x = a.mapError (⟨op, p, ·⟩) := by
  constructor
  · rintro ⟨a, t₁, ha, hx⟩
    refine ⟨a, ?_, ?_⟩
    · cases a <;> exact hx.2 ▸ ha
    · cases a <;> exact hx.1
  · rintro ⟨a, ha, rfl⟩
    refine ⟨a, t', ha, ?_⟩
    cases a <;> exact ⟨rfl, rfl⟩

/-- What `ReadFile` reads is in the file, and it finds none only where there is none. -/
theorem ends_readFile {x : Except PathError B}
    (h : (readFile p).prog.Ends (fun t => t.Exec F) t x t') :
    t' = t ∧ match x with
      | .ok b => ∃ q, t.resolve p = .ok (q, .file b)
      | .error e => e.errno = .enoent → t.resolve p = .error .enoent := by
  rcases Flow.ends_bind.mp h with ⟨e, rfl, hopen⟩ | ⟨handle, t₁, hopen, hread⟩
  · obtain ⟨a, ha, hx⟩ := ends_attempt.mp hopen
    cases a with
    | ok handle => cases hx
    | error errno =>
      cases hx
      rcases ha with ha | ⟨-, ha, rfl⟩
      · obtain ⟨ha, rfl⟩ := Prod.mk.inj ha
        refine ⟨rfl, fun (henoent : errno = .enoent) => ?_⟩
        split at ha
        · cases ha
        · cases ha
        · rename_i hresolve
          cases ha
          exact henoent ▸ hresolve
      · cases ha
        exact ⟨rfl, nofun⟩
  · obtain ⟨a, ha, hx⟩ := ends_attempt.mp hopen
    cases a with
    | error errno => cases hx
    | ok handle' =>
      obtain rfl := Except.ok.inj hx
      rcases ha with ha | ⟨-, ha, -⟩
      swap
      · cases ha
      obtain ⟨ha, rfl⟩ := Prod.mk.inj ha
      obtain ⟨r, hr, rfl⟩ := ends_attempt.mp hread
      rcases hr with ⟨rfl, hr⟩ | ⟨-, rfl, rfl⟩
      swap
      · exact ⟨rfl, nofun⟩
      refine ⟨rfl, ?_⟩
      split at ha
      · rename_i q b hresolve
        cases ha
        obtain ⟨b', rfl, hb⟩ := hr
        exact ⟨q, by rw [hb (t'.node_of_resolve hresolve)]; exact hresolve⟩
      · cases ha
        subst hr
        exact nofun
      · cases ha

theorem FileTree.createIn_ne_link {n : ℕ} {q : Path} (h : t.createIn n p = .ok q)
    (target : String) : t.node q ≠ some (.link target) := by
  induction n generalizing p with
  | zero => cases h
  | succ n ih =>
    rw [FileTree.createIn] at h
    split at h
    · cases h
    · exact ih h
    · rename_i hlink
      cases h
      exact hlink target

/-- A file that is put where a path leads is found there. -/
theorem FileTree.resolveIn_of_createIn {n : ℕ} {q : Path} (h : t.createIn n p = .ok q)
    (hfile : t'.node q = some (.file b)) (hrest : ∀ r, r ≠ q → t'.node r = t.node r) :
    t'.resolveIn n p = .ok (q, .file b) := by
  have hlink := FileTree.createIn_ne_link h
  induction n generalizing p with
  | zero => cases h
  | succ n ih =>
    rw [FileTree.createIn] at h
    rw [FileTree.resolveIn]
    split at h
    · cases h
    · rename_i target hp
      have hne : p ≠ q := fun heq => hlink target (heq ▸ hp)
      have hfind : t'.find p = .ok (.link target) := by
        rw [FileTree.find_ok, hrest p hne, hp]
      rw [hfind]
      exact ih h
    · cases h
      rw [(FileTree.find_ok t').mpr hfile]

/-- What `WriteFile` has written is in the file. -/
theorem ends_writeFile {empty bytes : B}
    (h : (writeFile p empty bytes).prog.Ends (fun t => t.Exec F) t (.ok ()) t') :
    ∃ q, t'.resolve p = .ok (q, .file bytes) := by
  obtain ⟨q, t₁, hcreate, hwrite⟩ := Flow.ends_bind_ok.mp h
  obtain ⟨a, ha | ⟨-, rfl, -⟩, hx⟩ := ends_attempt.mp hcreate
  swap
  · cases hx
  obtain ⟨w, hw, hok⟩ := ends_attempt.mp hwrite
  have happly : (a, t₁) = t.apply (.create p empty) := ha
  dsimp only [FileTree.apply] at happly
  split at happly
  swap
  · cases (Prod.mk.inj happly).1
    cases hx
  rename_i r hcreated
  by_cases hset : t.CanSet r
  · rw [t.place_of hset] at happly
    obtain ⟨rfl, rfl⟩ := Prod.mk.inj happly
    obtain rfl : q = r := Except.ok.inj hx
    have hfile : (t.set q (.file empty) hset).node q = some (.file empty) := by
      rw [FileTree.set_node, if_pos rfl]
    rcases write_exec hw hfile with ⟨-, rfl⟩ | ⟨rfl, -⟩
    · refine ⟨q, FileTree.resolveIn_of_createIn hcreated ?_ fun r hr => ?_⟩
      · rw [FileTree.set_node, if_pos rfl]
      · rw [FileTree.set_node, if_neg hr, FileTree.set_node, if_neg hr]
    · cases hok
  · rw [FileTree.place, dif_neg hset] at happly
    obtain ⟨rfl, -⟩ := Prod.mk.inj happly
    cases hx

end Alone

end LlmOperator.FileSystem
