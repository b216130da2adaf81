import LlmOperator.Cache.Artifact
import LlmOperator.FileSystem.Programs

/-!
# Copying artifacts

The functions of `cmd/llm-proxy/cache_manager.go` that copy files, trees and links, as programs over
file operations, and what each of them leaves behind.
-/

namespace LlmOperator.Cache

open Api Data FileSystem Interaction Safe

variable {B : Type}

/-! ## The programs -/

section

variable (codec : Codec B) (src dst : Path)

/-- `os.Remove` of something that need not be there. -/
def removePresent (p : Path) : Flow (Fs B) PathError Unit :=
  ExceptT.mk (.call (.remove p) fun
    | .ok _ => .pure (.ok ())
    | .error .enoent => .pure (.ok ())
    | .error e => .pure (.error ⟨"remove", p, e⟩))

/-- The branch of `copyTree` for a link. -/
def copyLink : Flow (Fs B) PathError Unit := do
  let target ← attempt "readlink" src (.readlink src)
  mkdirAll dst.dropLast
  removePresent dst
  attempt "symlink" dst (.symlink target dst)

/-- The branch of `copyTree` for a regular file. -/
def copyFile : Flow (Fs B) PathError Unit := do
  mkdirAll dst.dropLast
  let handle ← attempt "open" src (.openFile src)
  let made ← attempt "open" dst (.create dst codec.empty)
  let bytes ← attempt "read" src (.read handle)
  attempt "write" dst (.write made bytes)

/-- `copyTree` on something at most `n` levels deep. -/
def copyTreeIn (codec : Codec B) : Nat → Path → Path → Flow (Fs B) PathError Unit
  | 0, src, _ => throw ⟨"lstat", src, .eio⟩
  | n + 1, src, dst => do
      match ← attempt "lstat" src (.lstat src) with
      | .link _ => copyLink src dst
      | .file _ => copyFile codec src dst
      | .dir =>
        mkdirAll dst
        let names ← attempt "open" src (.readDir src)
        Flow.forEach (fun name => copyTreeIn codec n (src ++ [name]) (dst ++ [name])) names

/-- `copyTree`. -/
def copyTree : Flow (Fs B) PathError Unit := do
  let n ← attempt "lstat" src .depth
  copyTreeIn codec n src dst

/-- `relativeBlobLink`. -/
def relativeBlobLink (link blob : Path) : String := text (rel link.dropLast blob)

/-- `replaceSymlink`. -/
def replaceSymlink (p : Path) (target : String) : Flow (Fs B) PathError Unit := do
  let tmp ← attempt "mkdirtemp" p.dropLast (.mkdirTemp p.dropLast ".relink-")
  attempt "remove" tmp (.remove tmp)
  Flow.deferring (.call (.remove tmp) fun _ => .pure ()) (do
    attempt "symlink" tmp (.symlink target tmp)
    attempt "rename" tmp (.rename tmp p))

def errnoText : Errno → String
  | .enoent => "no such file or directory"
  | .eexist => "file exists"
  | .enotdir => "not a directory"
  | .eisdir => "is a directory"
  | .enotempty => "directory not empty"
  | .eloop => "too many levels of symbolic links"
  | .einval => "invalid argument"
  | .ebusy => "device or resource busy"
  | .eio => "input/output error"

/-- The text of a path from the root. -/
def pathText (p : Path) : String := "/" ++ text p

/-- The text of an error of the `os` package. -/
def pathErr (e : PathError) : Err :=
  .other (e.op ++ " " ++ pathText e.path ++ ": " ++ errnoText e.errno)

/-- File operations in a function whose errors are not only theirs. -/
def os {α : Type} (p : Flow (Fs B) PathError α) : Flow (Fs B) Err α :=
  ExceptT.mk (do
    match ← p.prog with
    | .ok a => return .ok a
    | .error e => return .error (pathErr e))

theorem ends_os {α : Type} {F : Chances B} {p : Flow (Fs B) PathError α} {t t' : FileTree B} {a : α}
    (h : (os p).prog.Ends (fun t => t.Exec F) t (.ok a) t') :
    p.prog.Ends (fun t => t.Exec F) t (.ok a) t' := by
  obtain ⟨x, t₁, hp, hx⟩ := Prog.ends_bind.mp h
  cases x with
  | error e => cases hx.1
  | ok b =>
    obtain ⟨hb, rfl⟩ := hx
    cases hb
    exact hp

theorem ends_os_error {α : Type} {F : Chances B} {p : Flow (Fs B) PathError α} {t t' : FileTree B}
    {e : Err} (h : (os p).prog.Ends (fun t => t.Exec F) t (.error e) t') :
    ∃ e', p.prog.Ends (fun t => t.Exec F) t (.error e') t' := by
  obtain ⟨x, t₁, hp, hx⟩ := Prog.ends_bind.mp h
  cases x with
  | error e' => exact ⟨e', hx.2 ▸ hp⟩
  | ok b => cases hx.1

/-- `filepath.Join` of a directory with the last name of a path. -/
def joinBase (dir p : Path) : Path := dir ++ p.getLast?.toList

/-- The branch of `copyHuggingFaceFile` for a link, once its blob has been found. -/
def copyLinked (sourceBlob dst destinationBlob : Path) : Flow (Fs B) Err Unit := do
  os (copyTree codec sourceBlob destinationBlob)
  os (mkdirAll dst.dropLast)
  os (removePresent dst)
  os (replaceSymlink dst (relativeBlobLink dst destinationBlob))

/-- `copyHuggingFaceFile`. -/
def copyHuggingFaceFile (blobs : Path) : Flow (Fs B) Err Unit := do
  match ← os (attempt "lstat" src (.lstat src)) with
  | .link _ =>
    let target ← os (attempt "readlink" src (.readlink src))
    let sourceBlob := join src.dropLast (elements target)
    ExceptT.mk (.call (.stat sourceBlob) fun
      | .ok (.file _) => (copyLinked codec sourceBlob dst (joinBase blobs sourceBlob)).prog
      | _ => .pure (.error (.other ("resolve Hugging Face blob " ++ pathText src))))
  | _ => os (copyTree codec src dst)

/-- `copyAndVerify`. -/
def copyAndVerify (want : ArtifactFile) : Flow (Fs B) Err Unit := do
  let handle ← os (attempt "open" src (.openFile src))
  os (mkdirAll dst.dropLast)
  let made ← os (attempt "open" dst (.create dst codec.empty))
  let bytes ← os (attempt "read" src (.read handle))
  os (attempt "write" dst (.write made bytes))
  if (codec.size bytes : Int) ≠ want.size ∨
    (want.sha256 ≠ "" ∧ codec.sha256 bytes ≠ want.sha256) then
    ExceptT.mk (.call (.remove dst) fun _ =>
      .pure (.error (.other ("checksum mismatch for " ++ want.path))))

/-! ## What a copy leaves behind -/

/-- A new tree at `dst`, with the directories above it. -/
def copies : Footprint := ⟨{q | dst <+: q}, ∅, {q | q <+: dst}⟩

/-- A regular file at `dst`, new or not, with the directories above it. -/
def fills : Footprint := ⟨∅, {dst}, {q | q <+: dst.dropLast}⟩

end

section Copying

variable {X : Set Path} {F : Chances B} {t : FileTree B} {E : Prop} {codec : Codec B}
  {src dst p : Path} {target : String}

theorem fills_le_copies (dst : Path) : (fills dst).Le (copies dst) := by
  refine ⟨fun q hq => hq.elim, fun q hq => .inr ?_, fun q hq => .inl ?_⟩
  · rw [Set.mem_singleton_iff.mp hq]
    exact List.prefix_rfl
  · exact List.IsPrefix.trans hq dst.dropLast_prefix

theorem above_le_fills (dst : Path) : (above dst.dropLast).Le (fills dst) :=
  ⟨subset_rfl, fun _ hq => hq.elim, fun _ hq => .inl hq⟩

theorem above_le_copies {dst : Path} (h : p <+: dst) : (above p).Le (copies dst) :=
  ⟨fun _ hq => hq.elim, fun _ hq => hq.elim, fun _ hq => .inl (List.IsPrefix.trans hq h)⟩

theorem exits_copyFile {b : B} (hsrcX : src ∈ X) (hupX : ∀ q, q <+: dst → q ∈ X)
    (hproper : Proper dst) (hne : dst ≠ []) (hdiff : src ≠ dst) (hsrc : t.node src = some (.file b))
    (hclear : t.Clear dst.dropLast)
    (hdst : t.node dst = none ∨ ∃ b', t.node dst = some (.file b')) (hF : ∀ c, F c → E) :
    Safe (fsWorld X F (fills dst)) (copyFile codec src dst).prog
      (Exits E fun _ t' => t'.node dst = some (.file b)) t := by
  have hup := List.dropLast_prefix dst
  have hdstX := hupX dst List.prefix_rfl
  have hdirX := hupX _ hup
  have hbytes : dst ∈ (fills dst).bytes := rfl
  have hlink : ∀ target, t.node dst.dropLast ≠ some (.link target) := fun target h => by
    rcases hclear _ List.prefix_rfl with h' | h' <;> rw [h] at h' <;> cases h'
  refine exits_bind (exits_within (above_le_fills dst) (exits_mkdirAll
    (fun q hq => hupX q (hq.trans hup)) (hproper.below hup) hF (.inl hclear) hlink)) ?_
  rintro _ t₁ ⟨hdir, hc⟩
  have hsrc₁ : t₁.node src = some (.file b) :=
    (hc.present hsrcX id id (by rw [hsrc]; exact Option.some_ne_none _)).trans hsrc
  have hdst₁ : t₁.node dst = t.node dst := hc.same hdstX id id (not_below_dropLast hne)
  rw [← hdst₁] at hdst
  refine exits_bind (exits_openFile hsrcX hsrc₁ (hF _)) ?_
  rintro handle t₂ ⟨rfl, h₂⟩
  rw [← h₂ dst hdstX] at hdst
  refine exits_bind (exits_create hdstX hdirX ?_ (.inr hbytes) (hF _) fun hcan => absurd ?_ hcan) ?_
  · intro target h
    rw [h] at hdst
    rcases hdst with h | ⟨b', h⟩ <;> cases h
  · refine FileTree.canSet_of hne ((h₂ _ hdirX).trans hdir) (fun h => ?_) hproper
    rw [h] at hdst
    rcases hdst with h | ⟨b', h⟩ <;> cases h
  rintro made t₃ ⟨hmade, h₃⟩
  rw [hmade]
  have hsrc₃ : t₃.node src = some (.file b) :=
    (h₃.other hsrcX hdiff).trans ((h₂ src hsrcX).trans hsrc₁)
  refine exits_bind (exits_read hsrcX hsrc₃ (hF _)) ?_
  rintro bytes t₄ ⟨hb, h₄⟩
  rw [hb]
  refine exits_mono (exits_write hdstX ((h₄ dst hdstX).trans (h₃.self hdstX)) (.inr hbytes)
    (hF _)) id ?_
  intro _ t₅ h₅
  exact h₅.self hdstX

theorem clear_of_parent (hnone : t.node p = none) (hclear : t.Clear p.dropLast) : t.Clear p := by
  intro q hq
  by_cases hqp : q = p
  · exact .inl (hqp ▸ hnone)
  · refine hclear q ?_
    obtain ⟨r, rfl⟩ := hq
    have hr : r ≠ [] := fun h => hqp (by rw [h, List.append_nil])
    rw [List.dropLast_append_of_ne_nil hr]
    exact List.prefix_append _ _

/-- Whether or not something is there, nothing is left. -/
theorem exits_removePresent {f : Footprint} (hupX : ∀ q, q <+: p → q ∈ X) (hown : p ∈ f.own)
    (hclear : t.Clear p.dropLast) (hdir : t.node p ≠ some .dir) (hF : F (.remove p) → E) :
    Safe (fsWorld X F f) (removePresent p).prog (Exits E fun _ t' => Puts X p none t t') t := by
  intro t₁ h₁ a t₂ h
  have hp := h₁ p (hupX p List.prefix_rfl)
  have hputs : t₁.node p = none → Puts X p none t t₁ := fun hnone q hq => by
    rw [h₁ q hq]
    split
    · rename_i hqp
      rw [hqp, ← hp, hnone]
    · rfl
  rcases remove_exec h with ⟨hs, _, rfl, rfl⟩
    | ⟨rfl, ⟨rfl, hnone⟩ | ⟨rfl, rfl⟩ | ⟨rfl, hnames⟩ | ⟨rfl, hf⟩⟩
  · refine ⟨changes_unset hown, fun q hq => ?_⟩
    rw [FileTree.unset_node, h₁ q hq]
  · have hclear₁ : t₂.Clear p := clear_of_parent hnone
      (hclear.same (fun q hq => hupX q (hq.trans p.dropLast_prefix)) h₁)
    rw [FileTree.missing_enoent hclear₁]
    exact ⟨.refl _ _ _, hputs hnone⟩
  · exact absurd t.root hdir
  · obtain ⟨m, hm⟩ := List.exists_mem_of_ne_nil _ hnames
    exact absurd (hp.symm.trans (t₂.parent p m (t₂.mem_names.mp hm))) hdir
  · exact ⟨.refl _ _ _, hF hf⟩

theorem exits_copyLink (hsrcX : src ∈ X) (hupX : ∀ q, q <+: dst → q ∈ X) (hproper : Proper dst)
    (hne : dst ≠ []) (hsrc : t.node src = some (.link target)) (htarget : target = "" → E)
    (hclear : t.Clear dst) (hdst : t.node dst = none) (hF : ∀ c, F c → E) :
    Safe (fsWorld X F (copies dst)) (copyLink src dst).prog
      (Exits E fun _ t' => t'.node dst = some (.link target)) t := by
  have hup := List.dropLast_prefix dst
  have hdstX := hupX dst List.prefix_rfl
  have hdirX := hupX _ hup
  refine exits_bind (exits_readlink hsrcX (fun h => absurd hsrc (h target)) (hF _)) ?_
  rintro target' t₁ ⟨htarget', h₁⟩
  rw [hsrc] at htarget'
  cases htarget'
  have hclear₁ := hclear.same hupX h₁
  have hlink : ∀ target, t₁.node dst.dropLast ≠ some (.link target) := fun target h => by
    rcases hclear₁ _ hup with h' | h' <;> rw [h] at h' <;> cases h'
  refine exits_bind (exits_within (above_le_copies hup) (exits_mkdirAll
    (fun q hq => hupX q (hq.trans hup)) (hproper.below hup) hF
    (.inl fun q hq => hclear₁ q (hq.trans hup)) hlink)) ?_
  rintro _ t₂ ⟨hdir, hc⟩
  have hdst₂ : t₂.node dst = none :=
    (hc.same hdstX id id (not_below_dropLast hne)).trans ((h₁ dst hdstX).trans hdst)
  have hclear₂ : t₂.Clear dst.dropLast := fun q hq =>
    hc.clear (hupX q (hq.trans hup)) id id (hclear₁ q (hq.trans hup))
  refine exits_bind (exits_removePresent hupX (List.prefix_rfl : dst <+: dst) hclear₂
    (by rw [hdst₂]; exact fun h => nomatch h) (hF _)) ?_
  rintro _ t₃ h₃
  have hdst₃ := h₃.self hdstX
  have hdir₃ := (h₃.other hdirX (dropLast_ne hne)).trans hdir
  have hcan : t₃.CanSet dst :=
    FileTree.canSet_of hne hdir₃ (by rw [hdst₃]; exact fun h => nomatch h) hproper
  refine exits_mono (exits_symlink hdstX hdirX (List.prefix_rfl : dst <+: dst) (hF _) ?_) id
    fun _ t₄ h₄ => h₄.self hdstX
  intro hbad
  by_contra hE
  exact hbad ⟨hcan, hdst₃, fun h => hE (htarget h)⟩

/-- The tree at `src` as it was in `t` is at `dst`. -/
def CopyOf (t : FileTree B) (src : Path) (t' : FileTree B) (dst : Path) : Prop :=
  ∀ q, t'.node (dst ++ q) = t.node (src ++ q)

/-- What holds while the entries of a directory are copied. -/
structure Copying (t : FileTree B) (src dst : Path) (done : List String) (t' : FileTree B) :
    Prop where
  source : ∀ q, t'.node (src ++ q) = t.node (src ++ q)
  directory : t'.node dst = some .dir
  copied : ∀ m ∈ done, CopyOf t (src ++ [m]) t' (dst ++ [m])
  absent : ∀ m ∉ done, t'.Gone (dst ++ [m])
  clear : t'.Clear dst

theorem Copying.finish {names : List String} {t' : FileTree B} (h : Copying t src dst names t')
    (hsrc : t.node src = some .dir) (hnames : ∀ n, n ∈ names ↔ t.node (src ++ [n]) ≠ none) :
    CopyOf t src t' dst := by
  intro q
  cases q with
  | nil => rw [List.append_nil, List.append_nil, h.directory, hsrc]
  | cons m q =>
    rw [List.append_cons dst m q, List.append_cons src m q]
    by_cases hm : m ∈ names
    · exact h.copied m hm q
    · rw [h.absent m hm _ (List.prefix_append _ q)]
      exact (t.absent_below (not_not.mp (mt (hnames m).mpr hm))).symm

theorem copies_le (h : dst <+: p) : (copies p).Le (copies dst) := by
  refine ⟨fun q hq => h.trans hq, fun q hq => hq.elim, fun q hq => ?_⟩
  rcases List.prefix_or_prefix_of_prefix hq h with h' | h'
  · exact .inl h'
  · exact .inr h'

section

variable (hsrcX : ∀ q, src <+: q → q ∈ X) (hdstX : ∀ q, dst <+: q → q ∈ X)
  (hupX : ∀ q, q <+: dst → q ∈ X)
include hsrcX hdstX hupX

/-- One more entry has been copied. -/
theorem Copying.next {done : List String} {m : String} {t₁ t₂ : FileTree B} (hapart : Apart src dst)
    (h : Copying t src dst done t₁) (hcopy : CopyOf t₁ (src ++ [m]) t₂ (dst ++ [m]))
    (hc : (copies (dst ++ [m])).Changes X t₁ t₂) : Copying t src dst (done ++ [m]) t₂ := by
  have hother : ∀ m', m' ≠ m → ∀ q, t₂.node (dst ++ [m'] ++ q) = t₁.node (dst ++ [m'] ++ q) := by
    intro m' hm' q
    have hap := apart_entries dst hm' q []
    rw [List.append_cons dst m' q] at hap
    exact hc.same (hdstX _ ((List.prefix_append dst [m']).trans (List.prefix_append _ q))) hap.2
      id hap.1
  have hap := hapart.below (List.prefix_rfl : src <+: src) (List.prefix_append dst [m])
  refine ⟨fun q => ?_, ?_, fun m' hm' => ?_, fun m' hm' => ?_, fun q hq => ?_⟩
  · have hq := List.prefix_append src q
    rw [hc.same (hsrcX _ hq) (hap.not_under hq) id (hap.not_above hq)]
    exact h.source q
  · exact hc.dir (hdstX dst List.prefix_rfl) (not_below_self dst (by simp)) h.directory
  · by_cases hmm : m' = m
    · subst hmm
      intro q
      rw [hcopy q, List.append_assoc]
      exact h.source ([m'] ++ q)
    · intro q
      rw [hother m' hmm q]
      refine h.copied m' ?_ q
      simpa [hmm] using hm'
  · rw [List.mem_append, List.mem_singleton, not_or] at hm'
    refine FileTree.gone_of_none ?_
    have := hother m' hm'.2 []
    rw [List.append_nil] at this
    exact this.trans (h.absent m' hm'.1 _ List.prefix_rfl)
  · exact hc.clear (hupX q hq)
      (fun h' => not_below_self dst (by simp) (List.IsPrefix.trans h' hq)) id
      (h.clear q hq)

theorem exits_copyTreeIn {n : Nat} (hproper : Proper dst) (hapart : Apart src dst)
    (hsrc : t.node src = none → E) (hdeep : ∀ q, t.node (src ++ q) ≠ none → q.length < n)
    (hn : 0 < n) (hlinks : ∀ q, t.node (src ++ q) = some (.link "") → E) (hclear : t.Clear dst)
    (hgone : t.Gone dst) (hF : ∀ c, F c → E) :
    Safe (fsWorld X F (copies dst)) (copyTreeIn codec n src dst).prog
      (Exits E fun _ t' => t.node src ≠ none ∧ CopyOf t src t' dst) t := by
  induction n generalizing src dst t with
  | zero => omega
  | succ n ih =>
    have hsrcX' := hsrcX src List.prefix_rfl
    have hne : dst ≠ [] := fun h => hapart.2 (h ▸ List.nil_prefix)
    refine exits_bind (exits_lstat hsrcX' hsrc (hF _)) ?_
    rintro x t₁ ⟨hx, h₁⟩
    have hx₁ := (h₁ src hsrcX').trans hx
    have hsome : t.node src ≠ none := by rw [hx]; exact Option.some_ne_none _
    have hclear₁ := hclear.same hupX h₁
    have hnone₁ : t₁.node dst = none :=
      (h₁ dst (hupX dst List.prefix_rfl)).trans (hgone dst List.prefix_rfl)
    -- A file or a link has nothing below it, on either side.
    have hleaf : ∀ y t', y ≠ .dir → t.node src = some y → t'.node dst = some y →
        CopyOf t src t' dst := by
      intro y t' hy hs hd q
      cases q with
      | nil => rw [List.append_nil, List.append_nil, hs, hd]
      | cons m q =>
        have hy' : some y ≠ some Node.dir := fun h => hy (Option.some.inj h)
        rw [t.below_none (hs ▸ hy') (List.cons_ne_nil m q),
          t'.below_none (hd ▸ hy') (List.cons_ne_nil m q)]
    cases x with
    | link target =>
      refine exits_mono (exits_copyLink hsrcX' hupX hproper hne hx₁ (fun h => ?_) hclear₁ hnone₁ hF)
        id fun _ t' h => ⟨hsome, hleaf (.link target) t' (fun h => nomatch h) hx h⟩
      exact hlinks [] (by rw [List.append_nil, hx, h])
    | file b =>
      refine exits_mono (safe_widen (fills_le_copies dst) (exits_copyFile hsrcX' hupX hproper hne
        hapart.ne hx₁ (fun q hq => hclear₁ q (hq.trans dst.dropLast_prefix))
        (.inl hnone₁) hF)) id fun _ t' h => ⟨hsome, hleaf (.file b) t' (fun h => nomatch h) hx h⟩
    | dir =>
      have hlink : ∀ target, t₁.node dst ≠ some (.link target) := fun target h => by
        rw [hnone₁] at h
        cases h
      refine exits_bind (exits_within (above_le_copies List.prefix_rfl)
        (exits_mkdirAll hupX hproper hF (.inl hclear₁) hlink)) ?_
      rintro _ t₂ ⟨hdir, hc⟩
      -- Making the directory has changed nothing below it, nor the source.
      have hsrc₂ : ∀ q, t₂.node (src ++ q) = t.node (src ++ q) := fun q => by
        have hq := List.prefix_append src q
        rw [hc.same (hsrcX _ hq) id id (hapart.not_above hq), h₁ _ (hsrcX _ hq)]
      have hgone₂ : ∀ m, t₂.Gone (dst ++ [m]) := fun m => FileTree.gone_of_none (by
        have hm := List.prefix_append dst [m]
        rw [hc.same (hdstX _ hm) id id (not_below_self dst (by simp)), h₁ _ (hdstX _ hm)]
        exact hgone _ hm)
      have hclear₂ : t₂.Clear dst := fun q hq => hc.clear (hupX q hq) id id (hclear₁ q hq)
      have hdir₂ : t₂.node src = some .dir := by
        have := hsrc₂ []
        rwa [List.append_nil, hx] at this
      refine exits_bind (exits_readDir (fun m => hsrcX _ (List.prefix_append src [m])) hsrcX' hdir₂
        (hF _)) ?_
      rintro names t₃ ⟨hnodup, hnames, h₃⟩
      have hnames' : ∀ m, m ∈ names ↔ t.node (src ++ [m]) ≠ none := fun m => by
        rw [hnames m, hsrc₂ [m]]
      refine exits_mono (exits_forEach (I := Copying t src dst)
        (fun done m rest hall t₄ h₄ => ?_) ?_)
        id fun _ t' h => ⟨hsome, h.finish hx hnames'⟩
      · have hm : m ∉ done := fun h =>
          List.disjoint_of_nodup_append (hall ▸ hnodup) h List.mem_cons_self
        have hpresent : t.node (src ++ [m]) ≠ none :=
          (hnames' m).mp (hall ▸ List.mem_append_right done List.mem_cons_self)
        have hbelow : ∀ q, t₄.node (src ++ [m] ++ q) = t.node (src ++ m :: q) := fun q => by
          rw [List.append_assoc]
          exact h₄.source (m :: q)
        have hlt : ∀ q, t₄.node (src ++ [m] ++ q) ≠ none → q.length < n := fun q hq => by
          have := hdeep (m :: q) (by rwa [← hbelow q])
          simpa using this
        have hpresent₄ : t₄.node (src ++ [m]) ≠ none := by
          have := hbelow []
          rw [List.append_nil] at this
          rwa [this]
        have hname : IsName m := t.proper _ hpresent m
          (List.mem_append_right src List.mem_cons_self)
        have hup : ∀ q, q <+: dst ++ [m] → q ∈ X := fun q hq => by
          rcases List.prefix_concat_iff.mp hq with h | h
          · exact hdstX q (h ▸ List.prefix_append dst [m])
          · exact hupX q h
        refine exits_mono (exits_within (copies_le (List.prefix_append dst [m])) (ih
          (fun q hq => hsrcX q ((List.prefix_append src [m]).trans hq))
          (fun q hq => hdstX q ((List.prefix_append dst [m]).trans hq)) hup
          (hproper.append (proper_singleton hname))
          (hapart.below (List.prefix_append src [m]) (List.prefix_append dst [m]))
          (fun h => absurd h hpresent₄) hlt
          (Nat.zero_lt_of_lt (hlt [] (by rwa [List.append_nil])))
          (fun q hq => hlinks (m :: q) (by rwa [← hbelow q])) (fun q hq => ?_)
          (h₄.absent m hm))) id ?_
        · rcases List.prefix_concat_iff.mp hq with h | h
          · exact .inl (h ▸ h₄.absent m hm _ List.prefix_rfl)
          · exact h₄.clear q h
        · rintro _ t₅ ⟨⟨_, hcopy⟩, hc₅⟩
          exact h₄.next hsrcX hdstX hupX hapart hcopy hc₅
      · exact ⟨fun q => (h₃ _ (hsrcX _ (List.prefix_append src q))).trans (hsrc₂ q),
          (h₃ dst (hupX dst List.prefix_rfl)).trans hdir,
          fun m hm => absurd hm List.not_mem_nil,
          fun m _ => FileTree.gone_of_none ((h₃ _ (hdstX _ (List.prefix_append dst [m]))).trans
            (hgone₂ m _ List.prefix_rfl)), hclear₂.same hupX h₃⟩

/-- `copyTree` puts a copy of the tree where nothing was. -/
theorem exits_copyTree (hproper : Proper dst) (hapart : Apart src dst)
    (hsrc : t.node src = none → E) (hlinks : ∀ q, t.node (src ++ q) = some (.link "") → E)
    (hclear : t.Clear dst) (hgone : t.Gone dst) (hF : ∀ c, F c → E) :
    Safe (fsWorld X F (copies dst)) (copyTree codec src dst).prog
      (Exits E fun _ t' => t.node src ≠ none ∧ CopyOf t src t' dst) t := by
  refine exits_bind (exits_depth (hF _)) ?_
  rintro n t₁ ⟨hn, h₁⟩
  have hsame : ∀ q, t₁.node (src ++ q) = t.node (src ++ q) := fun q =>
    h₁ _ (hsrcX _ (List.prefix_append src q))
  have hsrc₁ := hsame []
  rw [List.append_nil] at hsrc₁
  refine exits_mono (exits_copyTreeIn hsrcX hdstX hupX hproper hapart (fun h => hsrc (hsrc₁ ▸ h))
    (fun q hq => ?_) ?_ (fun q hq => hlinks q (hsame q ▸ hq)) (hclear.same hupX h₁)
    (fun q hq => (h₁ q (hdstX q hq)).trans (hgone q hq)) hF) id ?_
  · have := hn _ hq
    rw [List.length_append] at this
    omega
  · exact Nat.zero_lt_of_lt (hn [] (by rw [t₁.root]; exact Option.some_ne_none _))
  · rintro _ t' ⟨hsome, h⟩
    exact ⟨hsrc₁ ▸ hsome, fun q => by rw [h q, hsame q]⟩

end

/-! ## Links to blobs -/

theorem exits_os {σ α : Type} {W : World (Fs B) σ} {p : Flow (Fs B) PathError α}
    {Q : α → σ → Prop} {s : σ} (h : Safe W p.prog (Exits E Q) s) :
    Safe W (os p).prog (Exits E Q) s := by
  refine Safe.bind (h.mono ?_)
  rintro (e | a) s' h'
  · exact h'
  · exact h'

/-- The last name is one that `replaceSymlink` may use for a while. -/
def TempNamed (F : Chances B) (p : Path) : Prop :=
  ∃ t dir suffix, F.draws t dir ".relink-" suffix ∧ p = p.dropLast ++ [".relink-" ++ suffix]

/-- The link at `p`, and temporary ones beside it. -/
def relinks (p : Path) : Footprint :=
  ⟨{q | q = p ∨ p <+: q ∨ ∃ suffix, p.dropLast ++ [".relink-" ++ suffix] <+: q}, ∅, ∅⟩

theorem relinks_le_copies {dst : Path} (hdst : dst <+: p.dropLast) :
    (relinks p).Le (copies dst) := by
  have hp := hdst.trans p.dropLast_prefix
  refine ⟨?_, fun _ hq => hq.elim, fun _ hq => hq.elim⟩
  rintro q (rfl | hq | ⟨suffix, hq⟩)
  · exact hp
  · exact hp.trans hq
  · exact (hdst.trans (List.prefix_append _ _)).trans hq

theorem above_le_copies_below {dst : Path} (hdst : dst <+: p) : (above p).Le (copies dst) := by
  refine ⟨fun _ hq => hq.elim, fun _ hq => hq.elim, fun q hq => ?_⟩
  rcases List.prefix_or_prefix_of_prefix hq hdst with h | h
  · exact .inl h
  · exact .inr h

/-- The end of `replaceSymlink`, with the temporary name at which a link can be made. -/
theorem exits_relinkAt {tmp : Path} (hX : ∀ q, p.dropLast <+: q → q ∈ X) (hproper : Proper p)
    (hne : p ≠ []) (hdrop : tmp.dropLast = p.dropLast) (hapart : Apart tmp p)
    (hproper' : Proper tmp) (hown : ∀ q, tmp <+: q → q ∈ (relinks p).own)
    (hdir : t.node p.dropLast = some .dir) (hfree : t.node tmp = none)
    (hp : t.node p = some .dir → E) (htarget : target = "" → E) (hF : ∀ c, F c → E) :
    Safe (fsWorld X F (relinks p)) (do
      attempt "symlink" tmp (.symlink target tmp)
      attempt "rename" tmp (.rename tmp p) : Flow (Fs B) PathError Unit).prog
      (Exits E fun _ t' => Puts X p (some (.link target)) t t') t := by
  have hup := List.dropLast_prefix p
  have hpX : ∀ q, p <+: q → q ∈ X := fun q hq => hX q (hup.trans hq)
  have htmpX : ∀ q, tmp <+: q → q ∈ X := fun q hq =>
    hX q ((hdrop ▸ List.dropLast_prefix tmp : p.dropLast <+: tmp).trans hq)
  have htmpX' := htmpX tmp List.prefix_rfl
  have hdropX := hX _ (List.prefix_rfl : p.dropLast <+: p.dropLast)
  have htmpne : tmp ≠ [] := fun h => hapart.1 (h ▸ List.nil_prefix)
  refine exits_bind (exits_symlink htmpX' (hdrop ▸ hdropX) (hown _ List.prefix_rfl) (hF _)
    fun h => ?_) fun _ t₃ h₃ => ?_
  · by_contra hE
    refine h ⟨FileTree.canSet_of htmpne (hdrop ▸ hdir) ?_ hproper', hfree, fun h => hE (htarget h)⟩
    rw [hfree]
    exact fun h => nomatch h
  · have hp₃ := h₃.other (hpX p List.prefix_rfl) hapart.ne.symm
    refine exits_mono (exits_rename htmpX hpX hdropX ?_ (hF _) hapart hne hproper (fun h => ?_)
      (fun h => ?_) (fun h => ?_)) id ?_
    · exact fun q hq => hq.elim (hown q) fun h => .inr (.inl h)
    · rw [h₃.self htmpX'] at h
      cases h
    · refine absurd ((h₃.other hdropX fun h' => dropLast_ne htmpne ?_).trans hdir) h
      rw [hdrop, h']
    · refine hp ?_
      by_contra hnd
      refine h (.inr ⟨by rwa [hp₃], ?_⟩)
      rw [h₃.self htmpX']
      exact fun h => nomatch h
    · rintro _ t₄ ⟨hdd, h₄⟩ q hq
      have hpdir : t.node p ≠ some .dir := fun h => by
        have := hdd (hp₃.trans h)
        rw [h₃.self htmpX'] at this
        cases this
      rw [h₄ q hq]
      by_cases hpq : p <+: q
      · obtain ⟨r, rfl⟩ := hpq
        rw [t₃.moved_below]
        by_cases hr : r = []
        · rw [hr, List.append_nil, List.append_nil, if_pos rfl, h₃.self htmpX']
        · rw [if_neg (by simpa using hr), t.below_none hpdir hr,
            h₃.other (htmpX _ (List.prefix_append tmp r)) (by simpa using hr), t.absent_below hfree]
      · have hqp : q ≠ p := fun h => hpq (h ▸ List.prefix_rfl)
        rw [if_neg hqp]
        by_cases htq : tmp <+: q
        · obtain ⟨r, rfl⟩ := htq
          rw [t₃.moved_source hpq, t.absent_below hfree]
        · rw [t₃.moved_other hpq htq, h₃.other hq fun h => htq (h ▸ List.prefix_rfl)]

/-- If the temporary name is that of the link itself, the link is made and may be removed again. -/
theorem exits_relinkSelf (hX : ∀ q, p.dropLast <+: q → q ∈ X) (hproper : Proper p) (hne : p ≠ [])
    (hdir : t.node p.dropLast = some .dir) (hfree : t.node p = none) (htarget : target = "" → E)
    (hF : ∀ c, F c → E) :
    Safe (fsWorld X F (relinks p)) (do
      attempt "symlink" p (.symlink target p)
      attempt "rename" p (.rename p p) : Flow (Fs B) PathError Unit).prog
      (Exits E fun _ t' => Puts X p (some (.link target)) t t') t := by
  have hpX := hX p p.dropLast_prefix
  refine exits_bind (exits_symlink hpX (hX _ List.prefix_rfl) (.inl rfl) (hF _) fun h => ?_)
    fun _ t₃ h₃ => ?_
  · by_contra hE
    refine h ⟨FileTree.canSet_of hne hdir ?_ hproper, hfree, fun h => hE (htarget h)⟩
    rw [hfree]
    exact fun h => nomatch h
  · refine exits_attempt fun t₄ h₄ a t₅ h₅ => ?_
    have hputs : Puts X p (some (.link target)) t t₄ := fun q hq => (h₄ q hq).trans (h₃ q hq)
    rcases h₅ with h₅ | ⟨hf, h₅⟩
    · have hnode : t₄.node p = some (.link target) := hputs.self hpX
      have happly : t₄.apply (.rename p p) = (.ok (), t₄) := by
        unfold FileTree.apply
        have hre : t₄.renameError p p = none := by
          unfold FileTree.renameError
          rw [hnode]
        simp only [hre, if_true]
      cases h₅.trans happly
      exact ⟨.refl _ _ _, hputs⟩
    · obtain ⟨rfl, rfl⟩ := h₅
      exact ⟨.refl _ _ _, hF _ hf⟩

/-- The end of `replaceSymlink`: a link is made at `tmp` and renamed. -/
def relinkFrom (tmp p : Path) (target : String) : Flow (Fs B) PathError Unit :=
  Flow.deferring (.call (.remove tmp) fun _ => .pure ()) (do
    attempt "symlink" tmp (.symlink target tmp)
    attempt "rename" tmp (.rename tmp p))

/-- `replaceSymlink` draws a name at which there is nothing. -/
theorem exits_relinkTemp {Q : Unit → FileTree B → Prop} (hX : ∀ q, p.dropLast <+: q → q ∈ X)
    (hdir : t.node p.dropLast ≠ some .dir → E) (hF : ∀ c, F c → E)
    (hnext : ∀ suffix tmp t₁ t₂, Same X t t₁ → F.draws t₁ p.dropLast ".relink-" suffix →
      tmp = p.dropLast ++ [".relink-" ++ suffix] → Same X t t₂ → t₂.node tmp = none → Proper tmp →
      t₂.node p.dropLast = some .dir →
      Safe (fsWorld X F (relinks p)) (relinkFrom tmp p target).prog (Exits E Q) t₂) :
    Safe (fsWorld X F (relinks p)) (replaceSymlink p target).prog (Exits E Q) t := by
  have hsufX : ∀ s q, p.dropLast ++ [".relink-" ++ s] <+: q → q ∈ X := fun s q hq =>
    hX q ((List.prefix_append _ _).trans hq)
  have htmpown : ∀ s q, p.dropLast ++ [".relink-" ++ s] <+: q → q ∈ (relinks p).own :=
    fun s q hq => .inr (.inr ⟨s, hq⟩)
  have hdropX := hX _ (List.prefix_rfl : p.dropLast <+: p.dropLast)
  refine exits_bind (exits_mkdirTemp (fun s => hsufX s _ List.prefix_rfl) hdropX
    (fun s => htmpown s _ List.prefix_rfl) (hF _) hdir fun h => absurd (by decide) h) ?_
  rintro tmp t₁ ⟨suffix, ⟨t₀, h₀, hdraw⟩, htmp, hdir', hfree, hproper', h₁⟩
  have htmpX : ∀ q, tmp <+: q → q ∈ X := fun q hq => hsufX suffix q (htmp ▸ hq)
  have hown : ∀ q, tmp <+: q → q ∈ (relinks p).own := fun q hq => htmpown suffix q (htmp ▸ hq)
  have htmpX' := htmpX tmp List.prefix_rfl
  refine exits_bind (exits_remove htmpX (hown _ List.prefix_rfl) (hF _) fun h => absurd ?_ h) ?_
  · refine ⟨fun h => ?_, by rw [h₁.self htmpX']; simp, fun n => ?_⟩
    · rw [h, t.root] at hfree
      cases hfree
    · rw [h₁.other (htmpX _ (List.prefix_append tmp [n])) (by simp)]
      exact t.absent_below hfree
  intro _ t₂ h₂
  -- The temporary directory has come and gone.
  have hback : Same X t t₂ := fun q hq => by
    rw [h₂ q hq]
    split
    · rename_i h
      rw [h, hfree]
    · rename_i h
      exact h₁.other hq h
  exact hnext suffix tmp t₀ t₂ h₀ hdraw htmp hback ((hback tmp htmpX').trans hfree) hproper'
    ((hback _ hdropX).trans hdir')

theorem safe_remove_temp (hp : p ∈ (relinks p').own) (t : FileTree B) :
    Safe (fsWorld X F (relinks p')) (.call (.remove p) fun _ => .pure ()) (fun _ _ => True) t :=
  safe_remove_any hp fun _ _ _ _ => trivial

section

variable (hX : ∀ q, p.dropLast <+: q → q ∈ X) (hproper : Proper p) (hne : p ≠ [])
include hX hproper hne

/-- A drawn name that is not that of the link is gone in the end. -/
theorem exits_relinkFrom {tmp : Path} {suffix : String}
    (htmp : tmp = p.dropLast ++ [".relink-" ++ suffix]) (hself : tmp ≠ p) (hproper' : Proper tmp)
    (hdir : t.node p.dropLast = some .dir) (hfree : t.node tmp = none)
    (hp : t.node p = some .dir → E) (htarget : target = "" → E) (hF : ∀ c, F c → E) :
    Safe (fsWorld X F (relinks p)) (relinkFrom tmp p target).prog
      (Exits E fun _ t' => Puts X p (some (.link target)) t t') t := by
  have hown : ∀ q, tmp <+: q → q ∈ (relinks p).own := fun q hq => .inr (.inr ⟨suffix, htmp ▸ hq⟩)
  have htmpX := hX tmp (htmp ▸ List.prefix_append _ _)
  have hdrop : tmp.dropLast = p.dropLast := by rw [htmp, List.dropLast_concat]
  have hcons : p = p.dropLast ++ [p.getLast hne] := (List.dropLast_concat_getLast hne).symm
  have hapart : Apart tmp p := by
    have hname : ".relink-" ++ suffix ≠ p.getLast hne := fun h => hself (by rw [htmp, h, ← hcons])
    rw [htmp, hcons, List.dropLast_concat]
    exact apart_entries _ hname [] []
  refine exits_deferring (exits_relinkAt hX hproper hne hdrop hapart hproper' hown hdir hfree
    hp htarget
    hF) (safe_remove_temp (hown _ List.prefix_rfl)) fun _ t₃ h₃ =>
      safe_remove_any (hown _ List.prefix_rfl) fun t₄ t₅ h₄ h₅ => ?_
  have h₄' : Puts X p (some (.link target)) t t₄ := fun q hq => (h₄ q hq).trans (h₃ q hq)
  rcases h₅ with rfl | ⟨_, hne', _⟩
  · exact h₄'
  · exact absurd ((h₄'.other htmpX hapart.ne).trans hfree) hne'

/-- A link that is its own temporary name is removed again. -/
theorem exits_relinkFrom_self (hdir : t.node p.dropLast = some .dir) (hfree : t.node p = none)
    (htarget : target = "" → E) (hF : ∀ c, F c → E) :
    Safe (fsWorld X F (relinks p)) (relinkFrom p p target).prog
      (Exits E fun _ t' => Puts X p none t t' ∨ (E ∧ Puts X p (some (.link target)) t t')) t := by
  have hpX := hX p p.dropLast_prefix
  refine exits_deferring (exits_relinkSelf hX hproper hne hdir hfree htarget hF)
    (safe_remove_temp (.inl rfl)) fun _ t₃ h₃ t₄ h₄ a t₅ h₅ => ?_
  have h₄' : Puts X p (some (.link target)) t t₄ := fun q hq => (h₄ q hq).trans (h₃ q hq)
  rcases remove_exec h₅ with ⟨hs, _, _, rfl⟩ | ⟨rfl, hbad⟩
  · refine ⟨changes_unset (.inl rfl), .inl fun q hq => ?_⟩
    rw [FileTree.unset_node, h₄' q hq]
    split <;> rfl
  · have hlink := h₄'.self hpX
    refine ⟨.refl _ _ _, .inr ⟨?_, h₄'⟩⟩
    rcases hbad with ⟨_, hnone⟩ | ⟨_, hnil⟩ | ⟨_, hnames⟩ | ⟨_, hf⟩
    · rw [hlink] at hnone
      cases hnone
    · exact absurd hnil hne
    · obtain ⟨n, hn⟩ := List.exists_mem_of_ne_nil _ hnames
      exact absurd (t₅.below_none (by rw [hlink]; nofun) (List.cons_ne_nil n []))
        (t₅.mem_names.mp hn)
    · exact hF _ hf

/-- `replaceSymlink` makes the link; one with the name of a temporary one may be gone instead. -/
theorem exits_replaceSymlink (hdir : t.node p.dropLast ≠ some .dir → E)
    (hp : t.node p = some .dir → E) (htarget : target = "" → E) (hF : ∀ c, F c → E) :
    Safe (fsWorld X F (relinks p)) (replaceSymlink p target).prog
      (Exits E fun _ t' => Puts X p (some (.link target)) t t' ∨
        (TempNamed F p ∧ Puts X p none t t')) t := by
  refine exits_relinkTemp hX hdir hF
    fun suffix tmp t₁ t₂ h₁ hdraw htmp h₂ hfree hproper' hdir₂ => ?_
  by_cases hself : tmp = p
  · rw [hself] at htmp hfree ⊢
    refine exits_mono (exits_relinkFrom_self hX hproper hne hdir₂ hfree htarget hF) id ?_
    rintro _ t₃ (h₃ | ⟨_, h₃⟩)
    · exact .inr ⟨⟨t₁, _, suffix, hdraw, htmp⟩, h₃.same_left h₂⟩
    · exact .inl (h₃.same_left h₂)
  · refine exits_mono (exits_relinkFrom hX hproper hne htmp hself hproper' hdir₂ hfree (fun h => ?_)
      htarget hF) id fun _ t₃ h₃ => .inl (h₃.same_left h₂)
    exact hp ((h₂ p (hX p p.dropLast_prefix)).symm.trans h)

end

/-- The bytes are those of the entry of a manifest. -/
def Verified (codec : Codec B) (b : B) (want : ArtifactFile) : Prop :=
  (codec.size b : Int) = want.size ∧ (want.sha256 ≠ "" → codec.sha256 b = want.sha256)

theorem exits_copyAndVerify {want : ArtifactFile} (hupX : ∀ q, q <+: dst → q ∈ X)
    (hproper : Proper dst) (hne : dst ≠ []) (hdiff : src ≠ dst) (hclear : t.Clear dst.dropLast)
    (hdst : t.node dst = none ∨ ∃ b', t.node dst = some (.file b'))
    (hsrc : ¬ (src ∈ X ∧ ∃ b, t.node src = some (.file b) ∧ Verified codec b want) → E)
    (hF : ∀ c, F c → E) :
    Safe (fsWorld X F (copies dst)) (copyAndVerify codec src dst want).prog
      (Exits E fun _ t' => ∃ b, t'.node dst = some (.file b) ∧ Verified codec b want ∧
        (src ∈ X → ∀ b', t.node src = some (.file b') → b = b')) t := by
  have hup := List.dropLast_prefix dst
  have hdstX := hupX dst List.prefix_rfl
  have hdirX := hupX _ hup
  have hown : dst ∈ (copies dst).own := List.prefix_rfl
  refine exits_bind (exits_os
    (exits_openAny (hF _) fun h => hsrc fun ⟨h₁, b, h₂, _⟩ => h ⟨h₁, b, h₂⟩)) ?_
  rintro handle t₁ ⟨hhandle, hbytes, h₁⟩
  have hclear₁ : t₁.Clear dst.dropLast := hclear.same (fun q hq => hupX q (hq.trans hup)) h₁
  have hlink : ∀ target, t₁.node dst.dropLast ≠ some (.link target) := fun target h => by
    rcases hclear₁ _ List.prefix_rfl with h' | h' <;> rw [h] at h' <;> cases h'
  refine exits_bind (exits_os (exits_within (above_le_copies hup) (exits_mkdirAll
    (fun q hq => hupX q (hq.trans hup)) (hproper.below hup) hF (.inl hclear₁) hlink))) ?_
  rintro _ t₂ ⟨hdir, hc⟩
  rw [← h₁ dst hdstX, ← hc.same hdstX id id (not_below_dropLast hne)] at hdst
  refine exits_bind (exits_os (exits_create hdstX hdirX (fun target h => ?_) (.inl hown) (hF _)
    fun hcan => absurd (FileTree.canSet_of hne hdir (fun h => ?_) hproper) hcan)) ?_
  · rw [h] at hdst
    rcases hdst with h | ⟨b', h⟩ <;> cases h
  · rw [h] at hdst
    rcases hdst with h | ⟨b', h⟩ <;> cases h
  rintro made t₃ ⟨hmade, h₃⟩
  rw [hmade]
  refine exits_bind (exits_os (exits_readAny (hF _) hbytes)) ?_
  rintro bytes t₄ ⟨hb, h₄⟩
  -- If the source is known, what is read is what it holds.
  have hbytes' : src ∈ X → ∀ b', t.node src = some (.file b') → bytes = b' := fun hX b' hb' => by
    have hsrc₁ : t₁.node src = some (.file b') := (h₁ src hX).trans hb'
    refine hb src b' (hhandle hX b' hb') hX ?_
    rw [h₃.other hX hdiff, hc.present hX id id (by rw [hsrc₁]; exact Option.some_ne_none _), hsrc₁]
  refine exits_bind (exits_os (exits_write hdstX ((h₄ dst hdstX).trans (h₃.self hdstX)) (.inl hown)
    (hF _))) ?_
  intro _ t₅ h₅
  split
  · rename_i hcheck
    intro t₆ _ a t₇ h₇
    refine ⟨?_, hsrc ?_⟩
    · rcases remove_exec h₇ with ⟨hs, _, _, rfl⟩ | ⟨rfl, _⟩
      · exact changes_unset hown
      · exact .refl _ _ _
    · rintro ⟨hX, b', hb', hv⟩
      rw [hbytes' hX b' hb'] at hcheck
      rcases hcheck with hsize | ⟨hne, hsha⟩
      · exact hsize hv.1
      · exact hsha (hv.2 hne)
  · rename_i hcheck
    rw [not_or, not_not] at hcheck
    exact ⟨bytes, h₅.self hdstX, ⟨hcheck.1, fun h => not_not.mp fun h' => hcheck.2 ⟨h, h'⟩⟩,
      hbytes'⟩

theorem relativeBlobLink_common (common : Path) {link : Path} (h : link ≠ []) (blob : Path) :
    relativeBlobLink (common ++ link) (common ++ blob) = relativeBlobLink link blob := by
  unfold relativeBlobLink
  rw [List.dropLast_append_of_ne_nil h, rel_common]

/-- The link text leads from the link to the blob. -/
theorem follow_relativeBlobLink {dst blob : Path} (h : Proper blob) :
    FileTree.follow dst.dropLast (relativeBlobLink dst blob) = blob := by
  unfold FileTree.follow relativeBlobLink
  rw [(text_rel dst.dropLast h).2, if_neg Bool.false_ne_true,
    elements_text (rel_ne_nil _ _) (slash_notMem_rel dst.dropLast h)]
  exact join_rel h _

end Copying

end LlmOperator.Cache
