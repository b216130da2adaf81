import LlmOperator.FileSystem.Calls
import LlmOperator.Interaction.Safety
import Mathlib.Data.Set.Basic

/-!
# Reasoning about file operations

A program is verified in a world given by the paths `X` that nobody else changes, the calls `F` that
may fail, and a footprint: the paths the program itself may change, and how. What holds of the
result then comes from the rules for the calls below, and what stays as it was comes from the
footprint alone (`changes`).
-/

namespace LlmOperator.FileSystem

open Interaction

variable {B α β ρ : Type} {Q : α → FileTree B → Prop} {c : FsCall B}

/-! ## Trees that agree -/

/-- The two trees are the same at the paths in `X`. -/
def Same (X : Set Path) (t t' : FileTree B) : Prop := ∀ q ∈ X, t'.node q = t.node q

theorem Same.refl (X : Set Path) (t : FileTree B) : Same X t t := fun _ _ => rfl

theorem Same.trans {X : Set Path} {t t' t'' : FileTree B} (h : Same X t t') (h' : Same X t' t'') :
    Same X t t'' :=
  fun q hq => (h' q hq).trans (h q hq)

/-- The second tree has `x` at `p` and is otherwise the same at the paths in `X`. -/
def Puts (X : Set Path) (p : Path) (x : Option (Node B)) (t t' : FileTree B) : Prop :=
  ∀ q ∈ X, t'.node q = if q = p then x else t.node q

namespace Puts

variable {X : Set Path} {p : Path} {x : Option (Node B)} {t t' : FileTree B}

theorem self (h : Puts X p x t t') (hp : p ∈ X) : t'.node p = x := by
  rw [h p hp, if_pos rfl]

theorem other (h : Puts X p x t t') {q : Path} (hq : q ∈ X) (hne : q ≠ p) :
    t'.node q = t.node q := by
  rw [h q hq, if_neg hne]

theorem same_left {t₁ : FileTree B} (h : Puts X p x t₁ t') (h₁ : Same X t t₁) :
    Puts X p x t t' := by
  intro q hq
  rw [h q hq, h₁ q hq]

end Puts

/-! ## Footprints -/

/-- The paths a program may change: in any way, by making or filling a regular file, and by making
a directory where there is nothing. -/
structure Footprint where
  own : Set Path
  bytes : Set Path
  dirs : Set Path

variable {g : Footprint}

namespace Footprint

/-- How the node at `q` may change. -/
def Allows (f : Footprint) (t t' : FileTree B) (q : Path) : Prop :=
  t'.node q = t.node q ∨ q ∈ f.own ∨
    (q ∈ f.bytes ∧ (t.node q = none ∨ ∃ b, t.node q = some (.file b)) ∧
      ∃ b, t'.node q = some (.file b)) ∨
    (q ∈ f.dirs ∧ t.node q = none ∧ t'.node q = some .dir)

/-- What the program may do to the paths in `X`. -/
def Changes (f : Footprint) (X : Set Path) (t t' : FileTree B) : Prop := ∀ q ∈ X, f.Allows t t' q

theorem Allows.trans {f : Footprint} {t t' t'' : FileTree B} {q : Path} (h : f.Allows t t' q)
    (h' : f.Allows t' t'' q) : f.Allows t t'' q := by
  unfold Allows at *
  rcases h with h | h | ⟨hq, ha, b, hb⟩ | ⟨hq, ha, hb⟩
  · rwa [h] at h'
  · exact .inr (.inl h)
  · rcases h' with h' | h' | ⟨_, _, h'⟩ | ⟨_, h', _⟩
    · exact .inr (.inr (.inl ⟨hq, ha, b, h'.trans hb⟩))
    · exact .inr (.inl h')
    · exact .inr (.inr (.inl ⟨hq, ha, h'⟩))
    · rw [hb] at h'
      cases h'
  · rcases h' with h' | h' | ⟨_, h', _⟩ | ⟨_, h', _⟩
    · exact .inr (.inr (.inr ⟨hq, ha, h'.trans hb⟩))
    · exact .inr (.inl h')
    · rw [hb] at h'
      rcases h' with h' | ⟨b, h'⟩ <;> cases h'
    · rw [hb] at h'
      cases h'

theorem Changes.trans {f : Footprint} {X : Set Path} {t t' t'' : FileTree B} (h : f.Changes X t t')
    (h' : f.Changes X t' t'') : f.Changes X t t'' :=
  fun q hq => (h q hq).trans (h' q hq)

theorem changes_of_same {f : Footprint} {X : Set Path} {t t' : FileTree B} (h : Same X t t') :
    f.Changes X t t' :=
  fun q hq => .inl (h q hq)

theorem Changes.refl (f : Footprint) (X : Set Path) (t : FileTree B) : f.Changes X t t :=
  changes_of_same (.refl X t)

/-- A smaller footprint. -/
structure Le (f g : Footprint) : Prop where
  own : f.own ⊆ g.own
  bytes : f.bytes ⊆ g.bytes ∪ g.own
  dirs : f.dirs ⊆ g.dirs ∪ g.own

theorem Le.trans {f h : Footprint} (hfg : f.Le g) (hgh : g.Le h) : f.Le h := by
  refine ⟨hfg.own.trans hgh.own, fun q hq => ?_, fun q hq => ?_⟩
  · exact (hfg.bytes hq).elim (fun hq => hgh.bytes hq) fun hq => .inr (hgh.own hq)
  · exact (hfg.dirs hq).elim (fun hq => hgh.dirs hq) fun hq => .inr (hgh.own hq)

theorem Allows.mono {f : Footprint} (hfg : f.Le g) {t t' : FileTree B} {q : Path}
    (h : f.Allows t t' q) : g.Allows t t' q := by
  rcases h with h | h | ⟨hq, h⟩ | ⟨hq, h⟩
  · exact .inl h
  · exact .inr (.inl (hfg.own h))
  · rcases hfg.bytes hq with hq | hq
    · exact .inr (.inr (.inl ⟨hq, h⟩))
    · exact .inr (.inl hq)
  · rcases hfg.dirs hq with hq | hq
    · exact .inr (.inr (.inr ⟨hq, h⟩))
    · exact .inr (.inl hq)

variable {f : Footprint} {X : Set Path} {t t' : FileTree B} {q : Path}

section

variable (h : f.Changes X t t') (hq : q ∈ X) (ho : q ∉ f.own)
include h hq ho

/-- Outside the footprint nothing changes. -/
theorem Changes.same (hb : q ∉ f.bytes) (hd : q ∉ f.dirs) : t'.node q = t.node q := by
  rcases h q hq with h | h | ⟨h, _⟩ | ⟨h, _⟩
  · exact h
  · exact absurd h ho
  · exact absurd h hb
  · exact absurd h hd

/-- Outside the own paths and the files a directory at most appears. -/
theorem Changes.present (hb : q ∉ f.bytes) (hp : t.node q ≠ none) : t'.node q = t.node q := by
  rcases h q hq with h | h | ⟨h, _⟩ | ⟨_, h, _⟩
  · exact h
  · exact absurd h ho
  · exact absurd h hb
  · exact absurd h hp

/-- A directory outside the own paths stays one. -/
theorem Changes.dir (hp : t.node q = some .dir) : t'.node q = some .dir := by
  rcases h q hq with h | h | ⟨_, h, _⟩ | ⟨_, h, _⟩
  · exact h.trans hp
  · exact absurd h ho
  · rw [hp] at h
    rcases h with h | ⟨b, h⟩ <;> cases h
  · rw [hp] at h
    cases h

/-- A path outside the own paths holds what it held, or a file or a directory that is new. -/
theorem Changes.clear (hb : q ∉ f.bytes) (hp : t.node q = none ∨ t.node q = some .dir) :
    t'.node q = none ∨ t'.node q = some .dir := by
  rcases h q hq with h | h | ⟨h, _⟩ | ⟨_, _, h⟩
  · rwa [h]
  · exact absurd h ho
  · exact absurd h hb
  · exact .inr h

end

end Footprint

/-! ## Worlds -/

/-- Nobody else changes the paths in `X`, the calls in `F` may fail, and the program keeps to the
footprint. -/
def fsWorld (X : Set Path) (F : Chances B) (f : Footprint) : World (Fs B) (FileTree B) where
  exec t c a t' := t.Exec F c a t'
  rely t t' := Same X t t'
  guar t _ _ t' := f.Changes Set.univ t t'
  rely_refl t := .refl X t
  rely_trans h h' := h.trans h'

variable {X : Set Path} {F : Chances B} {f : Footprint} {t : FileTree B}

theorem exists_ends (F : Chances B) (p : Prog (Fs B) α) (t : FileTree B) :
    ∃ a t', p.Ends (fun t => t.Exec F) t a t' :=
  Prog.exists_ends (fun t c => t.exec_total F c) p t

/-- What a program does to the protected paths is within its footprint. -/
theorem safe_changes {p : Prog (Fs B) α} (h : Safe (fsWorld X F f) p Q t) :
    Safe (fsWorld X F f) p (fun a t' => Q a t' ∧ f.Changes X t t') t :=
  h.along (W := fsWorld X F f) (Footprint.Changes.refl f X)
    (fun _ _ _ => Footprint.Changes.trans) (fun _ _ => Footprint.changes_of_same)
    fun _ _ _ _ hg q _ => hg q trivial

theorem safe_widen (hfg : f.Le g) {p : Prog (Fs B) α} (h : Safe (fsWorld X F f) p Q t) :
    Safe (fsWorld X F g) p Q t :=
  h.widen (fun _ _ h => h) (fun _ _ _ _ h => h) fun _ _ _ _ hg q hq => (hg q hq).mono hfg

/-- A program with a footprint of its own, inside one with a larger footprint. -/
theorem exits_within (hfg : f.Le g) {E : Prop} {p : Prog (Fs B) (Except ρ α)}
    (h : Safe (fsWorld X F f) p (Safe.Exits E Q) t) :
    Safe (fsWorld X F g) p (Safe.Exits E fun a t' => Q a t' ∧ f.Changes X t t') t := by
  refine safe_widen hfg ((safe_changes h).mono ?_)
  rintro x t' ⟨hx, hc⟩
  cases x with
  | ok a => exact ⟨hx, hc⟩
  | error e => exact hx

/-! ## Rules for the calls -/

/-- The calls that change nothing and answer what they find. -/
def FsCall.Reads : FsCall B → Prop
  | .lstat _ | .stat _ | .evalSymlinks _ | .readlink _ | .readDir _ | .openFile _ => True
  | _ => False

theorem reads_exec (hc : c.Reads) {t t' : FileTree B} {a : c.Answer} (h : t.Exec F c a t') :
    t' = t ∧ (a = (t.apply c).1 ∨ (F c ∧ a = .error .eio)) := by
  rcases h with h | ⟨hF, h⟩
  · cases c <;> first
      | exact ⟨(Prod.ext_iff.mp h).2, .inl (Prod.ext_iff.mp h).1⟩
      | exact absurd hc id
  · cases c <;> first
      | exact ⟨h.2, .inr ⟨hF, h.1⟩⟩
      | exact absurd hc id

/-- A call that only reads. -/
theorem safe_read (hc : c.Reads) {k : c.Answer → Prog (Fs B) α}
    (hok : ∀ t', Same X t t' → Safe (fsWorld X F f) (k (t'.apply c).1) Q t')
    (hfail : F c → ∀ t', Same X t t' → Safe (fsWorld X F f) (k (.error .eio)) Q t') :
    Safe (fsWorld X F f) (.call c k) Q t := by
  intro t₁ h₁ a t₂ h
  obtain ⟨rfl, ha⟩ := reads_exec hc h
  refine ⟨Footprint.Changes.refl f _ _, ?_⟩
  rcases ha with rfl | ⟨hF, rfl⟩
  · exact hok _ h₁
  · exact hfail hF _ h₁

/-- Without failures, a program has the run that is computed. -/
theorem ends_apply (p : Prog (Fs B) α) (t : FileTree B) :
    p.Ends (fun t => t.Exec (.sound B)) t (p.eval FileTree.apply t).1 (p.eval FileTree.apply t).2 :=
  Prog.ends_eval (fun t c => t.exec_apply _ c) p t

section Inversion

variable {t' : FileTree B} {p : Path} {a : Except Errno Unit}

theorem FileTree.listing_dir (h : t.node p = some .dir) : t.listing p = .ok (t.names p) := by
  unfold listing
  rw [t.resolve_of_node h fun target h => nomatch h]

theorem FileTree.apply_readDir (h : t.node p = some .dir) :
    t.apply (.readDir p) = (.ok (t.names p), t) := by
  show (t.listing p, t) = _
  rw [FileTree.listing_dir h]

theorem FileTree.apply_openFile {b : B} (h : t.node p = some (.file b)) :
    t.apply (.openFile p) = (.ok ⟨p, some b⟩, t) := by
  unfold apply
  simp only [t.resolve_of_node h fun target h => nomatch h]

theorem FileTree.apply_stat {x : Node B} (h : t.node p = some x) (hx : ∀ target, x ≠ .link target) :
    t.apply (.stat p) = (.ok x, t) := by
  show ((t.resolve p).map Prod.snd, t) = _
  rw [t.resolve_of_node h hx]
  rfl

/-- What may be made at `p`. -/
theorem FileTree.canSet_of (hne : p ≠ []) (hdir : t.node p.dropLast = some .dir)
    (hp : t.node p ≠ some .dir) (hproper : Proper p) : t.CanSet p := by
  refine ⟨hne, t.isDirAt_iff.mpr hdir, ?_, hproper⟩
  rw [← Bool.not_eq_true, t.isDirAt_iff]
  exact hp

theorem FileTree.place_exec {x : Node B} (h : (a, t') = t.place p x) :
    (∃ hs : t.CanSet p, a = .ok () ∧ t' = t.set p x hs) ∨
      (∃ e, a = .error e ∧ t' = t ∧ ¬ t.CanSet p) := by
  by_cases hs : t.CanSet p
  · rw [t.place_of hs] at h
    exact .inl ⟨hs, (Prod.ext_iff.mp h).1, (Prod.ext_iff.mp h).2⟩
  · rw [FileTree.place, dif_neg hs] at h
    exact .inr ⟨_, (Prod.ext_iff.mp h).1, (Prod.ext_iff.mp h).2, hs⟩

theorem mkdir_exec (h : t.Exec F (.mkdir p) a t') :
    (∃ hs : t.CanSet p, t.node p = none ∧ a = .ok () ∧ t' = t.set p .dir hs) ∨
      (∃ e, a = .error e ∧ t' = t ∧ (F (.mkdir p) ∨ ¬ t.CanSet p ∨ t.node p ≠ none)) := by
  rcases h with h | ⟨hF, h⟩
  · by_cases hp : t.node p = none
    · have happly : t.apply (.mkdir p) = t.place p .dir := if_neg (by rw [hp]; simp)
      rcases FileTree.place_exec (h.trans happly) with ⟨hs, ha, ht⟩ | ⟨e, ha, ht, hs⟩
      · exact .inl ⟨hs, hp, ha, ht⟩
      · exact .inr ⟨e, ha, ht, .inr (.inl hs)⟩
    · have happly : t.apply (.mkdir p) = (.error .eexist, t) :=
        if_pos (Option.isSome_iff_ne_none.mpr hp)
      have := Prod.ext_iff.mp (h.trans happly)
      exact .inr ⟨_, this.1, this.2, .inr (.inr hp)⟩
  · exact .inr ⟨_, h.1, h.2, .inl hF⟩

theorem symlink_exec {target : String} (h : t.Exec F (.symlink target p) a t') :
    (∃ hs : t.CanSet p, t.node p = none ∧ a = .ok () ∧ t' = t.set p (.link target) hs) ∨
      (∃ e, a = .error e ∧ t' = t ∧
        (F (.symlink target p) ∨ ¬ t.CanSet p ∨ t.node p ≠ none ∨ target = "")) := by
  rcases h with h | ⟨hF, h⟩
  · by_cases hp : t.node p = none
    · by_cases htarget : target = ""
      · have happly : t.apply (.symlink target p) = (.error .enoent, t) :=
          (if_neg (by rw [hp]; simp)).trans (if_pos htarget)
        have := Prod.ext_iff.mp (h.trans happly)
        exact .inr ⟨_, this.1, this.2, .inr (.inr (.inr htarget))⟩
      · have happly : t.apply (.symlink target p) = t.place p (.link target) :=
          (if_neg (by rw [hp]; simp)).trans (if_neg htarget)
        rcases FileTree.place_exec (h.trans happly) with ⟨hs, ha, ht⟩ | ⟨e, ha, ht, hs⟩
        · exact .inl ⟨hs, hp, ha, ht⟩
        · exact .inr ⟨e, ha, ht, .inr (.inl hs)⟩
    · have happly : t.apply (.symlink target p) = (.error .eexist, t) :=
        if_pos (Option.isSome_iff_ne_none.mpr hp)
      have := Prod.ext_iff.mp (h.trans happly)
      exact .inr ⟨_, this.1, this.2, .inr (.inr (.inl hp))⟩
  · exact .inr ⟨_, h.1, h.2, .inl hF⟩

/-- A file that is not reached through a link. -/
theorem create_exec {empty : B} {a : Except Errno Path} (h : t.Exec F (.create p empty) a t')
    (hlink : ∀ target, t.node p ≠ some (.link target)) :
    (∃ hs : t.CanSet p, a = .ok p ∧ t' = t.set p (.file empty) hs) ∨
      (∃ e, a = .error e ∧ t' = t ∧ (F (.create p empty) ∨ ¬ t.CanSet p)) := by
  rcases h with h | ⟨hF, h⟩
  · have hcases : t.createIn 41 p = .ok p ∨ (t.createIn 41 p = .error .eisdir ∧ ¬ t.CanSet p) := by
      rw [FileTree.createIn]
      cases hp : t.node p with
      | none => exact .inl rfl
      | some x =>
        cases x with
        | dir =>
          refine .inr ⟨rfl, fun hs => ?_⟩
          rw [← t.isDirAt_iff, hs.2.2.1] at hp
          cases hp
        | file b => exact .inl rfl
        | link target => exact absurd hp (hlink target)
    rcases hcases with hc | ⟨hc, hs⟩
    · have happly : t.apply (.create p empty) =
          ((t.place p (.file empty)).1.map fun _ => p, (t.place p (.file empty)).2) := by
        unfold FileTree.apply
        simp only [hc]
      have := Prod.ext_iff.mp (h.trans happly)
      have hplace : ((t.place p (.file empty)).1, (t.place p (.file empty)).2) =
          t.place p (.file empty) := rfl
      rcases FileTree.place_exec hplace with ⟨hs, ha, ht⟩ | ⟨e, ha, ht, hs⟩
      · exact .inl ⟨hs, this.1.trans (by rw [ha]; rfl), this.2.trans ht⟩
      · exact .inr ⟨e, this.1.trans (by rw [ha]; rfl), this.2.trans ht, .inr hs⟩
    · have happly : t.apply (.create p empty) = (.error .eisdir, t) := by
        unfold FileTree.apply
        simp only [hc]
      have := Prod.ext_iff.mp (h.trans happly)
      exact .inr ⟨_, this.1, this.2, .inr hs⟩
  · exact .inr ⟨_, h.1, h.2, .inl hF⟩

theorem FileTree.canSet_file {b : B} (hp : t.node p = some (.file b)) : t.CanSet p := by
  have hne : p ≠ [] := by
    rintro rfl
    rw [t.root] at hp
    cases hp
  have hpresent : t.node p ≠ none := by rw [hp]; exact Option.some_ne_none _
  refine FileTree.canSet_of hne ?_ (by rw [hp]; exact fun h => nomatch h) (t.proper p hpresent)
  exact t.dir_above hpresent p.dropLast_prefix (dropLast_ne hne)

theorem write_exec {bytes b : B} (h : t.Exec F (.write p bytes) a t')
    (hp : t.node p = some (.file b)) :
    (a = .ok () ∧ t' = t.set p (.file bytes) (FileTree.canSet_file hp)) ∨
      (a = .error .eio ∧ F (.write p bytes) ∧
        (t' = t ∨ ∃ b', t' = t.set p (.file b') (FileTree.canSet_file hp))) := by
  have happly : ∀ b', t.apply (.write p b') =
      (.ok (), t.set p (.file b') (FileTree.canSet_file hp)) := by
    intro b'
    unfold FileTree.apply
    simp only [hp]
    exact t.place_of (FileTree.canSet_file hp) _
  rcases h with h | ⟨hF, ha, ht⟩
  · have := Prod.ext_iff.mp (h.trans (happly bytes))
    exact .inl this
  · refine .inr ⟨ha, hF, ht.imp_right ?_⟩
    rintro ⟨b', rfl⟩
    exact ⟨b', by rw [happly b']⟩

theorem remove_exec (h : t.Exec F (.remove p) a t') :
    (∃ hs : t.CanUnset p, t.node p ≠ none ∧ a = .ok () ∧ t' = t.unset p hs) ∨
      (t' = t ∧ ((a = .error (t.missing p) ∧ t.node p = none) ∨
        (a = .error .ebusy ∧ p = []) ∨ (a = .error .enotempty ∧ t.names p ≠ []) ∨
        (a = .error .eio ∧ F (.remove p)))) := by
  rcases h with h | ⟨hF, h⟩
  · by_cases hp : t.node p = none
    · have happly : t.apply (.remove p) = (.error (t.missing p), t) :=
        if_pos (Option.isNone_iff_eq_none.mpr hp)
      have := Prod.ext_iff.mp (h.trans happly)
      exact .inr ⟨this.2, .inl ⟨this.1, hp⟩⟩
    · have hsome : ¬ (t.node p).isNone = true := by rwa [Option.isNone_iff_eq_none]
      by_cases hs : t.CanUnset p
      · have happly : t.apply (.remove p) = (.ok (), t.unset p hs) :=
          (if_neg hsome).trans (dif_pos hs)
        have := Prod.ext_iff.mp (h.trans happly)
        exact .inl ⟨hs, hp, this.1, this.2⟩
      · have happly : t.apply (.remove p) =
            (.error (if p = [] then .ebusy else .enotempty), t) :=
          (if_neg hsome).trans (dif_neg hs)
        have := Prod.ext_iff.mp (h.trans happly)
        refine .inr ⟨this.2, .inr ?_⟩
        by_cases hnil : p = []
        · exact .inl ⟨this.1.trans (by rw [if_pos hnil]), hnil⟩
        · refine .inr (.inl ⟨this.1.trans (by rw [if_neg hnil]), fun hn => hs ⟨hnil, hn⟩⟩)
  · exact .inr ⟨h.2, .inr (.inr (.inr ⟨h.1, hF⟩))⟩

theorem mkdirTemp_exec {dir : Path} {pattern : String} {a : Except Errno Path}
    (h : t.Exec F (.mkdirTemp dir pattern) a t') :
    (∃ suffix, F.draws t dir pattern suffix ∧ t.node (dir ++ [pattern ++ suffix]) = none ∧
        ∃ hs : t.CanSet (dir ++ [pattern ++ suffix]), a = .ok (dir ++ [pattern ++ suffix]) ∧
          t' = t.set (dir ++ [pattern ++ suffix]) .dir hs) ∨
      (∃ e, a = .error e ∧ t' = t ∧
        (F (.mkdirTemp dir pattern) ∨ t.node dir ≠ some .dir ∨ ¬ IsName pattern)) := by
  rcases h with h | ⟨hF, h⟩
  · by_cases hc : t.isDirAt dir = true ∧ IsName pattern
    · obtain ⟨suffix, hsuf, hfree, ha, ht⟩ := (if_pos hc).mp h
      have hs := t.canSet_temp hc.1 (FileTree.isName_suffix hc.2 (F.number hsuf)) hfree
      rw [t.place_of hs] at ht
      exact .inl ⟨suffix, hsuf, hfree, hs, ha, (Prod.ext_iff.mp ht).2⟩
    · obtain ⟨ha, ht⟩ := (if_neg hc).mp h
      rw [t.isDirAt_iff, not_and_or] at hc
      exact .inr ⟨_, ha, ht, .inr hc⟩
  · exact .inr ⟨_, h.1, h.2, .inl hF⟩

theorem rename_exec {src dst : Path} (h : t.Exec F (.rename src dst) a t') :
    (∃ hs : t.CanMove src dst, t.renameError src dst = none ∧ a = .ok () ∧
        t' = t.move src dst hs) ∨
      (src = dst ∧ t' = t) ∨
      (∃ e, a = .error e ∧ t' = t ∧
        (F (.rename src dst) ∨ t.node src = none ∨ ¬ t.CanMove src dst ∨
          t.renameError src dst ≠ none)) := by
  rcases h with h | ⟨hF, h⟩
  · by_cases heq : src = dst
    · refine .inr (.inl ⟨heq, ?_⟩)
      have h' := (Prod.ext_iff.mp h).2
      unfold FileTree.apply at h'
      simp only [heq] at h'
      split at h' <;> exact h'
    · cases he : t.renameError src dst with
      | some e =>
        have happly : t.apply (.rename src dst) = (.error e, t) := by
          unfold FileTree.apply
          simp only [he, heq, false_and, if_false]
        have := Prod.ext_iff.mp (h.trans happly)
        exact .inr (.inr ⟨e, this.1, this.2, .inr (.inr (.inr (Option.some_ne_none e)))⟩)
      | none =>
        by_cases hs : t.CanMove src dst
        · have happly : t.apply (.rename src dst) = (.ok (), t.move src dst hs) := by
            unfold FileTree.apply
            simp only [he, heq, if_false, hs, dite_true]
          have := Prod.ext_iff.mp (h.trans happly)
          exact .inl ⟨hs, rfl, this.1, this.2⟩
        · have happly : t.apply (.rename src dst) = (.error (t.missing dst), t) := by
            unfold FileTree.apply
            simp only [he, heq, if_false, hs, dite_false]
          have := Prod.ext_iff.mp (h.trans happly)
          exact .inr (.inr ⟨_, this.1, this.2, .inr (.inr (.inl hs))⟩)
  · exact .inr (.inr ⟨_, h.1, h.2, .inl hF⟩)

/-- A directory is replaced by a directory only. -/
theorem FileTree.dir_of_renameError {src dst : Path} (h : t.renameError src dst = none)
    (hd : t.node dst = some .dir) : t.node src = some .dir := by
  unfold renameError at h
  rw [hd] at h
  cases hs : t.node src with
  | none => rw [hs] at h; cases h
  | some x =>
    cases x with
    | dir => rfl
    | file b => rw [hs] at h; cases h
    | link target => rw [hs] at h; cases h

/-- The names in a directory that is not reached through a link. -/
theorem readNames_exec {a : Except Errno (List String)} (h : t.Exec F (.readNames p) a t')
    (hp : t.node p = some .dir) :
    t' = t ∧ ((∃ names, names.Perm (t.names p) ∧ a = .ok names) ∨
    (a = .error .eio ∧ F (.readNames p))) := by
  rcases h with ⟨rfl, h⟩ | ⟨hF, h⟩
  · rw [FileTree.listing_dir hp] at h
    exact ⟨rfl, .inl h⟩
  · exact ⟨h.2, .inr ⟨h.1, hF⟩⟩

end Inversion

end LlmOperator.FileSystem
