import LlmOperator.Cache.Eviction
import LlmOperator.Cache.Roundtrip

/-!
# Using cold artifacts

When the marker of a request is missing, `ensureArtifact` finds out what the specification stands
for, makes room, and then looks for a cold artifact. The first of these steps asks upstream for the
inventory of a hub repository whose size is not declared. So it is not enough that there is an
artifact for the request as it was received: without an answer from upstream the request fails, and
with one the artifact is compared with the size and the files of that answer.
-/

namespace LlmOperator.Cache

open Api Data FileSystem Interaction

variable {B : Type} {want : CacheSpec}

/-! ## The steps after the marker was found missing -/

section

variable (codec : Codec B)

/-- A specification that needs no discovery. -/
def Declared (spec : CacheSpec) : Prop := spec.kind ≠ "huggingface-hub" ∨ 0 < spec.size

instance (spec : CacheSpec) : Decidable (Declared spec) := by unfold Declared; infer_instance

theorem resolveCacheSpec_of_declared {spec : CacheSpec} (h : Declared spec) :
    (resolveCacheSpec spec : Flow (Manager B) Err CacheSpec) = pure spec :=
  if_pos h

theorem ensureAbsent_of_declared (roots : Roots) {r : CacheRequest} (h : Declared r.cache) :
    ensureAbsent codec roots r = (do
      capacityStep codec roots.hot r.cache.size
      fetchArtifact codec roots r
      finish codec roots r) := by
  unfold ensureAbsent
  rw [resolveCacheSpec_of_declared h]
  rfl

/-! ## What is found of a cold artifact -/

/-- Reading does not fail. -/
structure Readable (F : Chances B) : Prop where
  stat : ∀ p, ¬ F (.stat p)
  openFile : ∀ p, ¬ F (.openFile p)
  read : ∀ handle, ¬ F (.read handle)

/-- What `artifactManifestFor` finds in a tree. -/
def manifestIn (t : FileTree B) (dir : Path) (want : CacheSpec) : Option ArtifactManifest :=
  ((artifactManifestFor codec dir want).eval FileTree.apply t).1

end

/-- What `complete` finds in a tree. -/
def completeIn (t : FileTree B) (dir : Path) : Bool := ((complete dir).eval FileTree.apply t).1

section Reading

variable {F : Chances B} {t t' : FileTree B} {codec : Codec B}

/-- What has just been opened is read as it is. -/
theorem Readable.exec_read (h : Readable F) {p : Path} {handle : Handle B}
    (hopen : (t.apply (.openFile p)).1 = .ok handle) {a : Except Errno B}
    (he : t.Exec F (.read handle) a t') : (a, t') = t.apply (.read handle) := by
  obtain ⟨rfl, ha⟩ := he.resolve_right fun hf => h.read handle hf.1
  obtain ⟨q, bytes⟩ := handle
  cases bytes with
  | none => exact congrArg (·, t') ha
  | some b =>
    obtain ⟨b', rfl, hsame⟩ := ha
    have hresolve : t'.resolve p = .ok (q, .file b) := by
      unfold FileTree.apply at hopen
      dsimp only at hopen
      split at hopen <;> cases hopen
      assumption
    rw [hsame (t'.node_of_resolve hresolve)]
    rfl

theorem Readable.fixed_complete (h : Readable F) (dir : Path) :
    (complete dir).Fixed (fun t => t.Exec F) FileTree.apply t := by
  refine ⟨fun r t₁ he => he.resolve_right fun hf => h.stat _ hf.1, ?_⟩
  cases (t.apply (.stat (dir ++ [".complete"]))).1 <;> trivial

theorem Readable.fixed_readFile (h : Readable F) (p : Path) :
    (readFile p).prog.Fixed (fun t => t.Exec F) FileTree.apply t := by
  refine ⟨fun r t₁ he => he.resolve_right fun hf => h.openFile _ hf.1, ?_⟩
  have hopened : (t.apply (.openFile p)).2 = t := rfl
  cases hopen : (t.apply (.openFile p)).1 with
  | error e => trivial
  | ok handle =>
    rw [hopened]
    refine ⟨fun r t₁ he => h.exec_read hopen he, ?_⟩
    cases (t.apply (.read handle)).1 <;> trivial

theorem Readable.fixed_artifactManifestFor (h : Readable F) (codec : Codec B) (dir : Path)
    (want : CacheSpec) :
    (artifactManifestFor codec dir want).Fixed (fun t => t.Exec F) FileTree.apply t := by
  refine (h.fixed_complete dir).bind ?_
  split
  · trivial
  · refine (h.fixed_readFile _).bind ?_
    split
    · trivial
    · split <;> trivial

/-- Reading leaves the tree as it is. -/
theorem eval_complete_tree (dir : Path) : ((complete dir).eval FileTree.apply t).2 = t := by
  unfold complete
  rw [Prog.eval_call]
  cases (t.apply (.stat (dir ++ [".complete"]))).1 <;> rfl

theorem eval_readFile_tree (p : Path) : ((readFile p).prog.eval FileTree.apply t).2 = t := by
  unfold readFile
  rw [Flow.prog_bind, Prog.eval_bind]
  have hopen : ((attempt "open" p (.openFile p)).prog.eval FileTree.apply t).2 = t := rfl
  cases ((attempt "open" p (.openFile p)).prog.eval FileTree.apply t).1 with
  | error e => exact hopen
  | ok handle => exact hopen

theorem eval_artifactManifestFor_tree (codec : Codec B) (dir : Path) (want : CacheSpec) :
    ((artifactManifestFor codec dir want).eval FileTree.apply t).2 = t := by
  unfold artifactManifestFor
  rw [Prog.eval_bind, eval_complete_tree]
  split
  · rfl
  · rw [Prog.eval_bind, eval_readFile_tree]
    split
    · rfl
    · split <;> rfl

theorem ends_complete (h : Readable F) {dir : Path} {b : Bool}
    (he : (complete dir).Ends (fun t => t.Exec F) t b t') : b = completeIn t dir ∧ t' = t := by
  have heval := (h.fixed_complete dir).ends he
  exact ⟨congrArg Prod.fst heval, (congrArg Prod.snd heval).trans (eval_complete_tree dir)⟩

theorem ends_artifactManifestFor (h : Readable F) {dir : Path} {x : Option ArtifactManifest}
    (he : (artifactManifestFor codec dir want).Ends (fun t => t.Exec F) t x t') :
    x = manifestIn codec t dir want ∧ t' = t := by
  have heval := (h.fixed_artifactManifestFor codec dir want).ends he
  exact ⟨congrArg Prod.fst heval,
    (congrArg Prod.snd heval).trans (eval_artifactManifestFor_tree codec dir want)⟩

theorem eval_readFile {p : Path} {b : B} (h : t.node p = some (.file b)) :
    (readFile p).prog.eval FileTree.apply t = (.ok b, t) := by
  have hopen : (attempt "open" p (.openFile p)).prog.eval FileTree.apply t =
      (.ok ⟨p, some b⟩, t) := by
    show (_, _) = (_, _)
    rw [FileTree.apply_openFile h]
  unfold readFile
  rw [Flow.prog_bind, Prog.eval_bind, hopen]
  rfl

/-- A cold artifact with its manifest: the marker and the manifest are files. -/
structure HasManifest (codec : Codec B) (t : FileTree B) (dir : Path)
    (manifest : ArtifactManifest) : Prop where
  marker : ∃ b, t.node (dir ++ [".complete"]) = some (.file b)
  document : ∃ b, t.node (dir ++ ["artifact.json"]) = some (.file b) ∧
    (codec.decode b).map decodeManifest = some (.ok manifest)

theorem HasManifest.manifestIn {dir : Path} {manifest : ArtifactManifest}
    (h : HasManifest codec t dir manifest) (want : CacheSpec) :
    manifestIn codec t dir want =
      if validArtifactManifest manifest want then some manifest else none := by
  obtain ⟨marker, hmarker⟩ := h.marker
  obtain ⟨document, hdocument, hdecode⟩ := h.document
  have hcomplete : (complete dir).eval FileTree.apply t = (true, t) := by
    unfold complete
    rw [Prog.eval_call, FileTree.apply_stat hmarker nofun]
    rfl
  unfold Cache.manifestIn artifactManifestFor
  rw [Prog.eval_bind, hcomplete]
  show (Prog.eval FileTree.apply ((readFile (dir ++ ["artifact.json"])).prog >>= _) t).1 = _
  rw [Prog.eval_bind, eval_readFile hdocument]
  dsimp only
  rw [hdecode]
  rfl

/-- A cold artifact that is accepted for a specification. -/
structure ColdArtifact (codec : Codec B) (t : FileTree B) (dir : Path) (want : CacheSpec)
    (manifest : ArtifactManifest) : Prop extends HasManifest codec t dir manifest where
  valid : validArtifactManifest manifest want = true

theorem ColdArtifact.accepted {dir : Path} {manifest : ArtifactManifest}
    (h : ColdArtifact codec t dir want manifest) : manifestIn codec t dir want = some manifest := by
  rw [h.toHasManifest.manifestIn, if_pos h.valid]

/-- It stays one when nothing outside the hot root changes. -/
theorem ColdArtifact.of_outside {roots : Roots} {spec : CacheSpec} {manifest : ArtifactManifest}
    (h : ColdArtifact codec t (roots.coldArtifact spec) want manifest)
    (houtside : ∀ q, ¬ roots.hot <+: q → t'.node q = t.node q) :
    ColdArtifact codec t' (roots.coldArtifact spec) want manifest := by
  have hnode : ∀ name, t'.node (roots.coldArtifact spec ++ [name]) =
      t.node (roots.coldArtifact spec ++ [name]) := by
    intro name
    have hcold : roots.cold <+: roots.coldArtifact spec ++ [name] :=
      (List.prefix_append _ _).trans (List.prefix_append _ [name])
    exact houtside _ (roots.apart.symm.not_under hcold)
  refine ⟨⟨?_, ?_⟩, h.valid⟩
  · rw [hnode]
    exact h.marker
  · rw [hnode]
    exact h.document

end Reading

/-! ## Promotion -/

section Promotion

variable (codec : Codec B) (roots : Roots) (r : CacheRequest)

/-- However a run of `ensureArtifact` goes: the capacity step fails, or it succeeds and what
follows is a promotion with the manifest. -/
def UsesArchive (manifest : ArtifactManifest) (s : ManagerState B) : Prop :=
  ∀ O : Outside B, Readable O.chances → ∀ x s',
    (ensureArtifact codec roots r).prog.Ends (ManagerState.Exec O) s x s' →
      ∃ spec s₀, (resolveCacheSpec r.cache).prog.Ends (ManagerState.Exec O) s (.ok spec) s₀ ∧
        ((∃ e, x = .error e ∧ (capacityStep codec roots.hot spec.size).prog.Ends
            (ManagerState.Exec O) s₀ (.error e) s') ∨
          ∃ s₁, (capacityStep codec roots.hot spec.size).prog.Ends
              (ManagerState.Exec O) s₀ (.ok ()) s₁ ∧
            (do promote codec roots { r with cache := spec } manifest
                finish codec roots { r with cache := spec }).prog.Ends
              (ManagerState.Exec O) s₁ x s')

variable {codec roots r}

/-- Making room leaves the cold artifact as it is. -/
theorem ColdArtifact.capacityStep {O : Outside B} {spec : CacheSpec} {manifest : ArtifactManifest}
    {size : Int} {s s' : ManagerState B} (hrecorded : ∀ name, Recorded codec roots.hot s.tree name)
    (h : ColdArtifact codec s.tree (roots.coldArtifact spec) want manifest)
    (he : (capacityStep codec roots.hot size).prog.Ends (ManagerState.Exec O) s (.ok ()) s') :
    ColdArtifact codec s'.tree (roots.coldArtifact spec) want manifest := by
  obtain ⟨_, s₁, hsweep, hspace⟩ := Flow.ends_bind_ok.mp he
  have hswept := swept_sweep hrecorded hsweep
  exact h.of_outside (hswept.trans (swept_makeSpace hswept.recorded hspace)).outside

theorem usesArchive_of_declared (hdeclared : Declared r.cache) {s : ManagerState B}
    {manifest : ArtifactManifest} (hrecorded : ∀ name, Recorded codec roots.hot s.tree name)
    (habsent : completeIn s.tree (roots.hotArtifact r.cache) = false)
    (hcold : ColdArtifact codec s.tree (roots.coldArtifact r.cache) r.cache manifest) :
    UsesArchive codec roots r manifest s := by
  intro O hO x s' hends
  unfold ensureArtifact at hends
  rcases Flow.ends_bind.mp hends with ⟨e, rfl, hlook⟩ | ⟨found, s₀, hlook, hrest⟩
  · obtain ⟨_, h, -⟩ := ends_look.mp hlook
    cases h
  obtain ⟨b, hb, hcomplete, hcalls⟩ := ends_look.mp hlook
  cases hb
  obtain ⟨rfl, htree⟩ := ends_complete hO hcomplete
  obtain rfl : s₀ = s := ManagerState.ext htree hcalls
  rw [habsent, if_neg Bool.false_ne_true, ensureAbsent_of_declared codec roots hdeclared] at hrest
  refine ⟨r.cache, s₀, ?_, ?_⟩
  · rw [resolveCacheSpec_of_declared hdeclared]
    exact ⟨rfl, rfl⟩
  rcases Flow.ends_bind.mp hrest with hfail | ⟨_, s₁, hcapacity, hfetch⟩
  · exact .inl hfail
  refine .inr ⟨s₁, hcapacity, ?_⟩
  unfold fetchArtifact at hfetch
  rw [bind_assoc] at hfetch
  rcases Flow.ends_bind.mp hfetch with ⟨e, rfl, hlook⟩ | ⟨found, s₂, hlook, hfetch⟩
  · obtain ⟨_, h, -⟩ := ends_look.mp hlook
    cases h
  obtain ⟨m, hm, hread, hcalls⟩ := ends_look.mp hlook
  cases hm
  obtain ⟨rfl, htree⟩ := ends_artifactManifestFor hO hread
  obtain rfl : s₂ = s₁ := ManagerState.ext htree hcalls
  rw [(hcold.capacityStep hrecorded hcapacity).accepted] at hfetch
  exact hfetch

/-- Without a connection upstream: inventories and downloads fail. -/
def offline (B : Type) : Outside B where
  chances := .sound B
  usage _ a := a = .ok (100, 0)
  inventory _ _ t a t' := a = .error (.other "exit status 1") ∧ t' = t
  download _ _ _ _ t a t' := a = .error "exit status 1" ∧ t' = t
  usage_total _ := ⟨_, rfl⟩
  inventory_total _ _ _ := ⟨_, _, rfl, rfl⟩
  download_total _ _ _ _ t := ⟨_, t, rfl, rfl⟩

theorem readable_offline (B : Type) : Readable (offline B).chances :=
  ⟨fun _ => id, fun _ => id, fun _ => id⟩

/-- What is not declared is not known without upstream. -/
theorem resolveCacheSpec_offline {spec spec' : CacheSpec} (h : ¬ Declared spec)
    {s s' : ManagerState B} :
    ¬ (resolveCacheSpec spec).prog.Ends (ManagerState.Exec (offline B)) s (.ok spec') s' := by
  intro hends
  have hunknown : ¬ (spec.kind ≠ "huggingface-hub" ∨ 0 < spec.size) := h
  unfold resolveCacheSpec at hends
  rw [if_neg hunknown] at hends
  obtain ⟨_, s₁, -, hends⟩ := Flow.ends_bind_ok.mp hends
  obtain ⟨answer, s₂, ⟨a, s₃, ⟨ha, -⟩, hpure⟩, hends⟩ := Flow.ends_bind_ok.mp hends
  obtain ⟨hanswer, -⟩ := hpure
  cases hanswer
  rw [ha.1] at hends
  cases hends.1

theorem not_usesArchive (h : ¬ Declared r.cache) (manifest : ArtifactManifest)
    (s : ManagerState B) : ¬ UsesArchive codec roots r manifest s := by
  intro huses
  obtain ⟨x, s', hends⟩ := Prog.exists_ends (ManagerState.exec_total (offline B))
    (ensureArtifact codec roots r).prog s
  obtain ⟨spec, s₀, hresolve, -⟩ := huses (offline B) (readable_offline B) x s' hends
  exact resolveCacheSpec_offline h hresolve

/-- A cold artifact for the request as received is used, whatever upstream answers, exactly when
the request is for files or declares a size. -/
theorem archive_used_iff (codec : Codec B) (roots : Roots) (r : CacheRequest) (s : ManagerState B)
    (manifest : ArtifactManifest) (hrecorded : ∀ name, Recorded codec roots.hot s.tree name)
    (habsent : completeIn s.tree (roots.hotArtifact r.cache) = false)
    (hcold : ColdArtifact codec s.tree (roots.coldArtifact r.cache) r.cache manifest) :
    UsesArchive codec roots r manifest s ↔
      r.cache.kind ≠ "huggingface-hub" ∨ 0 < r.cache.size := by
  constructor
  · intro huses
    by_contra hunknown
    exact not_usesArchive hunknown manifest s huses
  · intro hdeclared
    exact usesArchive_of_declared hdeclared hrecorded habsent hcold

end Promotion

/-! ## An artifact without a declared size -/

namespace Undeclared

section

variable (size : Int)

/-- A hub request of the given size. -/
def request : CacheRequest :=
  { hubRequest with cache := { hubRequest.cache with size := size } }

/-- The manifest that is archived for it, with one file. -/
def manifest : ArtifactManifest :=
  ⟨1, (request size).cache,
    [⟨"hub/models--google--gemma/config.json", 0, Codec.documents.sha256 (.str "config"), ""⟩]⟩

def artifact : Path := ["cold", "artifacts", "huggingface-hub-google--gemma-main"]

def entries : List (Path × Node Json) :=
  [(["cold"], .dir), (["cold", "artifacts"], .dir), (artifact, .dir),
    (artifact ++ [".complete"], .file .null),
    (artifact ++ ["artifact.json"], .file (encodeManifest (manifest size))),
    (artifact ++ ["payload"], .dir), (artifact ++ ["payload", "hub"], .dir),
    (artifact ++ ["payload", "hub", "models--google--gemma"], .dir),
    (artifact ++ ["payload", "hub", "models--google--gemma", "config.json"], .file (.str "config"))]

theorem nested_entries : FileTree.Nested (entries size) := by
  intro e he
  simp only [entries, List.mem_cons, List.not_mem_nil, or_false] at he
  rcases he with rfl | rfl | rfl | rfl | rfl | rfl | rfl | rfl | rfl
  all_goals
    refine ⟨?_, rfl⟩
    dsimp only
    decide +kernel

def state : ManagerState Json :=
  ⟨FileTree.ofEntries (entries size) (nested_entries size), []⟩

theorem recorded_state (name : String) :
    Recorded Codec.documents hubRoots.hot (state size).tree name := by
  refine recorded_of_none (Option.eq_none_iff_forall_ne_some.mpr fun x hx => ?_)
  rcases FileTree.ofEntries_cases (h := nested_entries size) hx with ⟨hnil, -⟩ | hmem
  · cases hnil
  · simp [entries, artifact, markers, hubRoots] at hmem

theorem artifact_request : hubRoots.coldArtifact (request size).cache = artifact := by
  show hubRoots.coldArtifact hubRequest.cache = artifact
  decide +kernel

end

theorem coldArtifact_state {size : Int} (h : IsInt64 size) :
    ColdArtifact Codec.documents (state size).tree (hubRoots.coldArtifact (request size).cache)
      (request size).cache (manifest size) := by
  rw [artifact_request]
  refine ⟨⟨⟨.null, rfl⟩, ⟨encodeManifest (manifest size), rfl, ?_⟩⟩, ?_⟩
  · refine congrArg some (decodeManifest_encodeManifest (by decide : IsInt64 1) h fun f hf => ?_)
    obtain rfl := List.mem_singleton.mp hf
    exact (by decide : IsInt64 0)
  · simp [validArtifactManifest, sameCacheSpec, manifest]

end Undeclared

open Undeclared

/-- The artifact of a request without a size is accepted for that request, and no longer once the
size was discovered; without upstream it is not used at all. -/
theorem unsized_archive_unused :
    validCacheRequest (request 0) = .ok () ∧
      (∀ name, Recorded Codec.documents hubRoots.hot (state 0).tree name) ∧
      completeIn (state 0).tree (hubRoots.hotArtifact (request 0).cache) = false ∧
      ColdArtifact Codec.documents (state 0).tree (hubRoots.coldArtifact (request 0).cache)
        (request 0).cache (manifest 0) ∧
      manifestIn Codec.documents (state 0).tree (hubRoots.coldArtifact (request 0).cache)
        (request 7).cache = none ∧
      ¬ UsesArchive Codec.documents hubRoots (request 0) (manifest 0) (state 0) := by
  refine ⟨by decide +kernel, recorded_state 0, by decide +kernel,
    coldArtifact_state (by decide), ?_, ?_⟩
  · rw [(coldArtifact_state (by decide)).toHasManifest.manifestIn, if_neg]
    simp [validArtifactManifest, sameCacheSpec, manifest, request]
  · exact not_usesArchive (by decide) (manifest 0) (state 0)

/-- With a declared size it is used. -/
theorem archive_used_iff_sized :
    completeIn (state 1).tree (hubRoots.hotArtifact (request 1).cache) = false ∧
      UsesArchive Codec.documents hubRoots (request 1) (manifest 1) (state 1) := by
  have habsent : completeIn (state 1).tree (hubRoots.hotArtifact (request 1).cache) = false := by
    decide +kernel
  have hsize : (0 : Int) < (request 1).cache.size := by decide
  exact ⟨habsent, (archive_used_iff Codec.documents hubRoots (request 1) (state 1) (manifest 1)
    (recorded_state 1) habsent (coldArtifact_state (by decide))).mpr (.inr hsize)⟩

end LlmOperator.Cache
