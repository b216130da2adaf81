import LlmOperator.Cache.HubTree

/-!
# Archive and restore of hub artifacts

An archive of a hub artifact holds its tree as it is. A restore puts the regular files back as they
were, but makes every link anew: it leads to the blob store below `gguf`, as the link of a file
artifact does, and no longer to the blobs of the tree.
-/

namespace LlmOperator.Cache

open Api Data FileSystem Interaction Safe

variable {B : Type}

/-- A restore, if there is an artifact to restore; says whether there is one. -/
def restoreFound (codec : Codec B) (roots : Roots) (r : CacheRequest) :
    Option ArtifactManifest → Flow (Fs B) Err Bool
  | none => pure false
  | some manifest => do
      materialize codec r (roots.coldArtifact r.cache) roots.hot manifest
      return true

/-- The artifact is archived, the hot copy is cleared and the artifact is restored. -/
def archiveAndRestore (codec : Codec B) (roots : Roots) (r : CacheRequest) :
    Flow (Fs B) Err Bool := do
  archiveHot codec r roots.hot (roots.coldArtifact r.cache)
  os (clearMaterialized r roots.hot)
  restoreFound codec roots r
    (← liftM (artifactManifestFor codec (roots.coldArtifact r.cache) r.cache))

/-! ## Up to the restore -/

theorem HubArchived.same {codec : Codec B} {t t₁ t₂ : FileTree B} {spec : CacheSpec}
    {hot destination : Path} {files : List ArtifactFile}
    (h : HubArchived codec t spec hot files t₁ destination)
    (hsame : ∀ q, t₂.node (destination ++ q) = t₁.node (destination ++ q)) :
    HubArchived codec t spec hot files t₂ destination where
  present := h.present
  copy q := by rw [List.append_assoc, hsame, ← List.append_assoc, h.copy]
  listed := h.listed
  manifest := (hsame _).trans h.manifest
  complete := (hsame _).trans h.complete
  dirs q hq hne := (hsame q).trans (h.dirs q hq hne)
  only q h₁ h₂ h₃ h₄ := (hsame q).trans (h.only q h₁ h₂ h₃ h₄)

/-- The artifact is archived and the hot copy is gone. -/
structure HubCleared (codec : Codec B) (t : FileTree B) (roots : Roots) (r : CacheRequest)
    (files : List ArtifactFile) (t' : FileTree B) : Prop where
  archived : HubArchived codec t r.cache roots.hot files t' (roots.coldArtifact r.cache)
  gone : t'.Gone (materializedPath roots.hot r.cache)
  clear : t'.Clear (materializedPath roots.hot r.cache)

theorem HubCleared.same {codec : Codec B} {t t₁ t₂ : FileTree B} {roots : Roots} {r : CacheRequest}
    {files : List ArtifactFile} (h : HubCleared codec t roots r files t₁)
    (hsame : Same Set.univ t₁ t₂) :
    HubCleared codec t roots r files t₂ where
  archived := h.archived.same fun _ => hsame _ trivial
  gone q hq := (hsame q trivial).trans (h.gone q hq)
  clear := h.clear.same (fun _ _ => trivial) hsame

section Hub

variable {codec : Codec B} {roots : Roots} {r : CacheRequest} {t t' : FileTree B}
  {files : List ArtifactFile} {F : Chances B} {E : Prop}

theorem hub_apart (hkind : r.cache.kind = "huggingface-hub") (a : Path) :
    Apart (materializedPath roots.hot r.cache) (roots.cold ++ a) := by
  rw [materializedPath_hub hkind]
  exact roots.apart_below _ _

/-- The directories above a tree are not links. -/
theorem FileTree.clear_of_dir {p : Path} (h : t.node p = some .dir) : t.Clear p := fun q hq => by
  by_cases hqp : q = p
  · exact .inr (hqp ▸ h)
  · exact .inr (t.dir_above (by rw [h]; exact Option.some_ne_none _) hq hqp)

theorem archived_manifest
    (h : HubArchived codec t r.cache roots.hot files t' (roots.coldArtifact r.cache))
    (hsize : IsInt64 r.cache.size) (htree : HubTree t (materializedPath roots.hot r.cache)) :
    decodeManifest (encodeManifest ⟨1, r.cache, files⟩) = .ok ⟨1, r.cache, files⟩ ∧
      validArtifactManifest ⟨1, r.cache, files⟩ r.cache = true := by
  refine ⟨decodeManifest_encodeManifest (by decide : IsInt64 1) hsize fun f hf => ?_, ?_⟩
  · obtain ⟨q, hq⟩ := (h.listed f).mp hf
    exact entryOf_size hq
  · obtain ⟨q, b, hb⟩ := htree.nonempty
    have hmem := (h.listed _).mpr ⟨q, by rw [hb]; rfl⟩
    simp [validArtifactManifest, sameCacheSpec, List.length_pos_of_mem hmem]

/-- Without failures the restore is reached, with everything archived. -/
theorem exits_archiveAndRestore (codec : Codec B) {Q : FileTree B → Prop}
    (hkind : r.cache.kind = "huggingface-hub")
    (hsize : IsInt64 r.cache.size) (htree : HubTree t (materializedPath roots.hot r.cache))
    (hcold : t.Clear (roots.cold ++ ["artifacts"])) (hF : ∀ c, ¬ F c)
    (hafter : ∀ files t₂, HubCleared codec t roots r files t₂ →
      Safe (fsWorld Set.univ F (copies []))
        (materialize codec r (roots.coldArtifact r.cache) roots.hot
        ⟨1, r.cache, files⟩).prog (Exits E fun _ t' => Q t') t₂) :
    Safe (fsWorld Set.univ F (copies [])) (archiveAndRestore codec roots r).prog
      (Exits E fun found t' => found = true ∧ Q t') t := by
  have hF' : ∀ {E : Prop} c, F c → E := fun c h => absurd h (hF c)
  have hall : ∀ f : Footprint, f.Le (copies []) := fun f =>
    ⟨fun _ _ => List.nil_prefix, fun _ _ => .inr List.nil_prefix, fun _ _ => .inr List.nil_prefix⟩
  have hmp : materializedPath roots.hot r.cache ≠ [] := by
    rw [materializedPath_hub hkind]
    simp
  have hne : roots.coldArtifact r.cache ≠ [] := by simp [Roots.coldArtifact]
  have hdrop := roots.coldArtifact_dropLast r.cache
  refine exits_bind (exits_within (hall _) (exits_archiveHot_hub hkind (fun _ _ => trivial)
    (fun _ _ => trivial) (fun _ _ => trivial) (roots.proper_coldArtifact _) hne (hdrop ▸ hcold)
    (hdrop ▸ hub_apart hkind _) (fun h => ?_) (fun q hq => ?_) hF')) ?_
  · rw [htree.directory] at h
    cases h
  · obtain ⟨n, b, htarget, hb⟩ := htree.links q _ hq
    exact absurd htarget.symm (hubLink_ne_empty q (isName_blob hb))
  rintro _ t₁ ⟨⟨files, harchived⟩, hc₁⟩
  have hown : ∀ q, q <+: materializedPath roots.hot r.cache →
      q ∉ (archives (roots.coldArtifact r.cache)).own := by
    rintro q hq (h | ⟨suffix, h⟩)
    · exact (hub_apart hkind _).2 (h.trans hq)
    · refine (hub_apart hkind ["artifacts"]).2 ((hdrop ▸ ?_ : _ <+: _).trans (h.trans hq))
      exact List.prefix_append _ _
  have hdir₁ : t₁.node (materializedPath roots.hot r.cache) = some .dir :=
    hc₁.dir trivial (hown _ List.prefix_rfl) htree.directory
  refine exits_bind (exits_os
    (exits_within (hall _) (exits_removeAll (E := E) (fun _ _ => trivial) hmp
    (by rintro ⟨q, -, h⟩; exact h.elim (hF' _) (hF' _)) (hF' _)
      (.inl (by rw [hdir₁]; exact Option.some_ne_none _))))) ?_
  rintro _ t₂ ⟨hgone, hc₂⟩
  have hspared : ∀ q, ¬ materializedPath roots.hot r.cache <+: q → t₂.node q = t₁.node q :=
    fun q hq => hc₂.same trivial hq id id
  have hcleared : HubCleared codec t roots r files t₂ := by
    refine ⟨harchived.same fun q => hspared _ ?_, hgone, fun q hq => ?_⟩
    · exact (hub_apart hkind _).symm.not_under (List.prefix_append _ q)
    · by_cases hqp : materializedPath roots.hot r.cache <+: q
      · exact .inl (hgone q hqp)
      · rw [hspared q hqp]
        exact FileTree.clear_of_dir hdir₁ q hq
  obtain ⟨hdecode, hvalid⟩ := archived_manifest harchived hsize htree
  refine exits_bind (Q := fun x t' => x = some ⟨1, r.cache, files⟩ ∧ Same Set.univ t₂ t') ?_ ?_
  · refine flow_lift ((safe_artifactManifestFor (X := Set.univ)
      (E := False) trivial trivial hcleared.archived.complete
      hcleared.archived.manifest hdecode hvalid (fun c h => hF' c h)).mono ?_)
    exact fun _ _ h => h.resolve_left id
  · rintro _ t₃ ⟨rfl, h₃⟩
    exact exits_bind (hafter files t₃ (hcleared.same h₃)) fun _ t₄ hQ => ⟨rfl, hQ⟩

/-! ## The restore -/

theorem HubCleared.restore (h : HubCleared codec t roots r files t')
    (hkind : r.cache.kind = "huggingface-hub")
    (htree : HubTree t (materializedPath roots.hot r.cache)) :
    HubRestore t' r (roots.coldArtifact r.cache) roots.hot where
  kind := hkind
  hotProper := roots.hotProper
  apart := roots.apart.below List.prefix_rfl (List.prefix_append _ _)
  tree := htree.copy h.archived.copy
  gone := h.gone
  clear := h.clear

theorem HubCleared.entry (h : HubCleared codec t roots r files t') {f : ArtifactFile} {q : Path}
    (hf : entryOf codec ("hub" :: hubDirectory r.cache.repoID :: q)
      (t.node (materializedPath roots.hot r.cache ++ q)) = some f) :
    HubEntry codec t' r.cache (roots.coldArtifact r.cache) f q := by
  rwa [← h.archived.copy q] at hf

/-- The tree at `p` is as it was: the same regular files with the same bytes and the same links,
and every link leads to a file below `hub`. -/
structure SameTree (t t' : FileTree B) (p hub : Path) : Prop where
  leaves : ∀ q x, x ≠ .dir → (t'.node (p ++ q) = some x ↔ t.node (p ++ q) = some x)
  inside : ∀ q target, t'.node (p ++ q) = some (.link target) →
    ∃ s b, hub <+: s ∧ t'.resolve (p ++ q) = .ok (s, .file b)

section

variable (h : HubCleared codec t roots r files t') (hkind : r.cache.kind = "huggingface-hub")
  (htree : HubTree t (materializedPath roots.hot r.cache))
include h hkind htree

/-- A tree of regular files is restored as it was. -/
theorem exits_restore_plain (hF : ∀ c, ¬ F c)
    (hplain : ∀ q target, t.node (materializedPath roots.hot r.cache ++ q) ≠ some (.link target)) :
    Safe (fsWorld Set.univ F (copies []))
      (materialize codec r (roots.coldArtifact r.cache) roots.hot
      ⟨1, r.cache, files⟩).prog (Exits False fun _ t'' =>
        SameTree t t'' (materializedPath roots.hot r.cache) (roots.hot ++ ["hub"])) t' := by
  have hrestore := h.restore hkind htree
  refine exits_mono (safe_widen (copies_le List.nil_prefix) (hrestore.exits_materialize (E := False)
    (fun c hc => hF c hc) (fun f hf => ?_) fun f hf hl => ?_)) id ?_
  · obtain ⟨q, hq⟩ := (h.archived.listed f).mp hf
    exact ⟨q, h.entry hq⟩
  · obtain ⟨q, hq⟩ := (h.archived.listed f).mp hf
    rcases entryOf_cases hq with ⟨b, _, rfl⟩ | ⟨target, hlink, _⟩
    · exact hl rfl
    · exact hplain q target hlink
  rintro _ t'' ⟨hconf, h'⟩
  obtain ⟨hc, hall⟩ := h'.resolve_left id
  have hleaves : ∀ q x, x ≠ .dir → (t''.node (materializedPath roots.hot r.cache ++ q) = some x ↔
      t.node (materializedPath roots.hot r.cache ++ q) = some x) := by
    intro q x hx
    constructor
    · intro hq
      rcases hc _ trivial with h₁ | h₁ | ⟨h₁, _⟩ | ⟨_, _, h₁⟩
      · rw [hq, h.gone _ (List.prefix_append _ q)] at h₁
        cases h₁
      · rcases HubFit.at_dst (hconf.fits h₁ hq) with ⟨b, hb, rfl⟩ | ⟨n, _, hn, _⟩
        · exact (h.archived.copy q).symm.trans hb
        · exact absurd ((h.archived.copy q).symm.trans hn) (hplain q _)
      · exact h₁.elim
      · rw [hq] at h₁
        exact absurd (Option.some.inj h₁) hx
    · intro hq
      cases x with
      | dir => exact absurd rfl hx
      | link target => exact absurd hq (hplain q target)
      | file b =>
        have hentry := (h.archived.listed _).mpr ⟨q, by rw [hq]; rfl⟩
        obtain ⟨y, hy⟩ := Option.ne_none_iff_exists'.mp
          (hall _ hentry q (h.entry (by rw [hq]; rfl)))
        have hb := (h.archived.copy q).trans hq
        rcases HubFit.at_dst (hconf.fits ⟨_, .file hb⟩ hy) with
          ⟨b', hb', rfl⟩ | ⟨n, _, hn, _⟩
        · rw [hy, hb.symm.trans hb']
        · rw [hb] at hn
          cases hn
  refine ⟨hleaves, fun q target hq => ?_⟩
  exact absurd ((hleaves q (.link target) (fun h => nomatch h)).mp hq) (hplain q target)

/-- A link is restored with another text: it leads out of the tree. -/
theorem exits_restore_linked {q : Path} {target : String}
    (hq : t.node (materializedPath roots.hot r.cache ++ q) = some (.link target)) :
    Safe (fsWorld Set.univ F (copies []))
      (materialize codec r (roots.coldArtifact r.cache) roots.hot
      ⟨1, r.cache, files⟩).prog (Exits True fun _ t'' =>
        t''.node (materializedPath roots.hot r.cache ++ q) ≠ some (.link target)) t' := by
  have hrestore := h.restore hkind htree
  refine exits_mono (safe_widen (copies_le List.nil_prefix) (hrestore.exits_materialize
    (fun _ _ => trivial) (fun f hf => ?_) fun _ _ _ => trivial)) id ?_
  · obtain ⟨q, hq⟩ := (h.archived.listed f).mp hf
    exact ⟨q, h.entry hq⟩
  rintro _ t'' ⟨hconf, _⟩ heq
  obtain ⟨n, b, htarget, hb⟩ := htree.links q target hq
  have hn := isName_blob hb
  have hlink := (h.archived.copy q).trans hq
  rw [htarget] at hlink
  rcases HubFit.at_dst (hconf.fits ⟨_, .link hlink hn⟩ heq) with
    ⟨b', _, he⟩ | ⟨m, hm, _, he⟩
  · cases he
  · exact hrestore.relink_ne (htree.ne_nil hq fun h => nomatch h) hn hm (htarget ▸ Node.link.inj he)

end

/-- A link does not survive. -/
theorem hub_roundtrip_breaks (codec : Codec B) (hkind : r.cache.kind = "huggingface-hub")
    (hsize : IsInt64 r.cache.size) (htree : HubTree t (materializedPath roots.hot r.cache))
    (hcold : t.Clear (roots.cold ++ ["artifacts"])) {q : Path} {target : String}
    (hq : t.node (materializedPath roots.hot r.cache ++ q) = some (.link target)) :
    ¬ ∀ x t', (archiveAndRestore codec roots r).prog.Ends (fun t => t.Exec (.sound B)) t x t' →
      x = .ok true ∧
        SameTree t t' (materializedPath roots.hot r.cache) (roots.hot ++ ["hub"]) := by
  intro h
  obtain ⟨x, t', hends⟩ := exists_ends (.sound B) (archiveAndRestore codec roots r).prog t
  obtain ⟨rfl, hsame⟩ := h x t' hends
  have hsafe := exits_archiveAndRestore codec (E := True) (F := .sound B) hkind hsize htree hcold
    (fun _ => id) fun files t₂ hcleared => exits_restore_linked hcleared hkind htree hq
  exact (hsafe.ends hends).2 ((hsame.leaves q (.link target) fun h => nomatch h).mpr hq)

/-- The way from the hot root to the cold artifacts and back loses nothing if and only if there is
nothing but regular files to lose. -/
theorem hub_roundtrip_iff (codec : Codec B) (roots : Roots) {r : CacheRequest} {t : FileTree B}
    (hkind : r.cache.kind = "huggingface-hub") (hsize : IsInt64 r.cache.size)
    (htree : HubTree t (materializedPath roots.hot r.cache))
    (hcold : t.Clear (roots.cold ++ ["artifacts"])) :
    (∀ x t', (archiveAndRestore codec roots r).prog.Ends (fun t => t.Exec (.sound B)) t x t' →
      x = .ok true ∧
        SameTree t t' (materializedPath roots.hot r.cache) (roots.hot ++ ["hub"])) ↔
    ∀ q target, t.node (materializedPath roots.hot r.cache ++ q) ≠ some (.link target) := by
  constructor
  · intro h q target hq
    exact hub_roundtrip_breaks codec hkind hsize htree hcold hq h
  · intro hplain x t' hends
    have hsafe := exits_archiveAndRestore codec (E := False) (F := .sound B) hkind hsize htree hcold
      (fun _ => id) fun files t₂ hcleared =>
        exits_restore_plain hcleared hkind htree (fun _ => id) hplain
    have hpost := hsafe.ends hends
    cases x with
    | error e => exact hpost.elim
    | ok found => exact ⟨by rw [hpost.1], hpost.2⟩

end Hub

/-! ## A snapshot with one file -/

def hubRoots : Roots where
  hot := ["hot"]
  cold := ["cold"]
  hotProper := by decide
  coldProper := by decide
  apart := by decide

def hubRequest : CacheRequest where
  model := "gemma"
  backend := "vllm"
  cache :=
    { kind := "huggingface-hub", repoID := "google/gemma", revision := "main", size := 1,
      files := [], materializationTarget := "" }

/-- The entries of a snapshot with one file `x`. -/
def snapshot (x : Node Json) : List (Path × Node Json) :=
  [(["hot"], .dir), (["hot", "hub"], .dir), (["hot", "hub", "models--google--gemma"], .dir),
    (["hot", "hub", "models--google--gemma", "blobs"], .dir),
    (["hot", "hub", "models--google--gemma", "blobs", "41e0"], .file (.str "weights")),
    (["hot", "hub", "models--google--gemma", "snapshots"], .dir),
    (["hot", "hub", "models--google--gemma", "snapshots", "main"], .dir),
    (["hot", "hub", "models--google--gemma", "snapshots", "main", "model.safetensors"], x)]

theorem nested_snapshot (x : Node Json) : FileTree.Nested (snapshot x) := by
  intro e he
  simp only [snapshot, List.mem_cons, List.not_mem_nil, or_false] at he
  rcases he with rfl | rfl | rfl | rfl | rfl | rfl | rfl | rfl
  all_goals
    refine ⟨?_, rfl⟩
    dsimp only
    decide +kernel

def snapshotTree (x : Node Json) : FileTree Json :=
  FileTree.ofEntries (snapshot x) (nested_snapshot x)

theorem materializedPath_hubRequest :
    materializedPath hubRoots.hot hubRequest.cache = ["hot", "hub", "models--google--gemma"] := by
  decide +kernel

theorem link_snapshot {x : Node Json} {q : Path} {target : String}
    (h : (snapshotTree x).node (["hot", "hub", "models--google--gemma"] ++ q) =
      some (.link target)) :
    q = ["snapshots", "main", "model.safetensors"] ∧ x = .link target := by
  rcases FileTree.ofEntries_cases h with ⟨hnil, _⟩ | hmem
  · cases hnil
  · simp only [snapshot, List.mem_cons, Prod.mk.injEq, List.cons_append, List.nil_append,
      List.cons.injEq, reduceCtorEq, and_false, false_or, true_and, List.not_mem_nil,
      or_false] at hmem
    exact ⟨hmem.1, hmem.2.symm⟩

theorem hubTree_snapshot {x : Node Json}
    (hx : ∀ target, x = .link target → target = "../../blobs/41e0") :
    HubTree (snapshotTree x) (materializedPath hubRoots.hot hubRequest.cache) := by
  rw [materializedPath_hubRequest]
  refine ⟨rfl, ⟨["blobs", "41e0"], .str "weights", rfl⟩, fun q target hq => ?_⟩
  obtain ⟨rfl, hlink⟩ := link_snapshot hq
  refine ⟨"41e0", .str "weights", (hx target hlink).trans ?_, rfl⟩
  decide +kernel

theorem clear_snapshot (x : Node Json) :
    (snapshotTree x).Clear (hubRoots.cold ++ ["artifacts"]) := by
  intro q hq
  rcases List.prefix_cons_iff.mp hq with rfl | ⟨a, rfl, ha⟩
  · exact .inr rfl
  · rcases List.prefix_cons_iff.mp ha with rfl | ⟨b, rfl, hb⟩
    · exact .inl rfl
    · rw [List.prefix_nil.mp hb]
      exact .inl rfl

/-- The link of a snapshot is lost. -/
theorem hub_roundtrip_loses_link :
    ¬ ∀ x t', (archiveAndRestore Codec.documents hubRoots hubRequest).prog.Ends
        (fun t => t.Exec (.sound Json)) (snapshotTree (.link "../../blobs/41e0")) x t' →
      x = .ok true ∧ SameTree (snapshotTree (.link "../../blobs/41e0")) t'
        (materializedPath hubRoots.hot hubRequest.cache) (hubRoots.hot ++ ["hub"]) :=
  hub_roundtrip_breaks Codec.documents rfl (by decide) (hubTree_snapshot fun target h => by
    cases h; rfl) (clear_snapshot _) (q := ["snapshots", "main", "model.safetensors"])
    (by rw [materializedPath_hubRequest]; rfl)

/-- A snapshot of regular files comes back. -/
theorem hub_roundtrip_keeps_file :
    HubTree (snapshotTree (.file (.str "weights")))
        (materializedPath hubRoots.hot hubRequest.cache) ∧
      ∀ x t', (archiveAndRestore Codec.documents hubRoots hubRequest).prog.Ends
          (fun t => t.Exec (.sound Json)) (snapshotTree (.file (.str "weights"))) x t' →
        x = .ok true ∧ SameTree (snapshotTree (.file (.str "weights"))) t'
          (materializedPath hubRoots.hot hubRequest.cache) (hubRoots.hot ++ ["hub"]) := by
  have htree : HubTree (snapshotTree (.file (.str "weights")))
      (materializedPath hubRoots.hot hubRequest.cache) := hubTree_snapshot fun _ h => by cases h
  refine ⟨htree, (hub_roundtrip_iff Codec.documents hubRoots rfl (by decide) htree
    (clear_snapshot _)).mpr fun q target hq => ?_⟩
  rw [materializedPath_hubRequest] at hq
  cases (link_snapshot hq).2

end LlmOperator.Cache
