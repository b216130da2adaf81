import LlmOperator.Cache.Eviction

/-!
# Artifacts side by side

The comment at `evict` says that it never removes another artifact's target. What it removes, and
what `clearMaterialized` removes, is the materialized path. Several artifacts can have the same: the
directory of a repository holds all its revisions. A target can also lie around the files of another
artifact, or in the blob store that all of them share.
-/

namespace LlmOperator.Cache

open Api Data FileSystem Interaction Safe

variable {B : Type} {hot p : Path} {spec : CacheSpec} {t t' : FileTree B}

/-! ## What belongs to an artifact -/

section Belonging

variable (hot : Path) (spec : CacheSpec)

/-- The marker of an artifact. -/
def hotMarker : Path := markers hot ++ [cacheKey spec]

/-- Where the files of an artifact are: in the directory of its repository, or at the names that
are listed, below its target. -/
def PlaceOf (p : Path) : Prop :=
  spec.kind = "huggingface-hub" ∧ materializedPath hot spec <+: p ∨
    spec.kind = "huggingface-files" ∧
      ∃ file ∈ spec.files, p = join (materializedPath hot spec) (elements file)

/-- A file or a link of an artifact, or the file that one of its links leads to. -/
inductive BelongsTo (t : FileTree B) : Path → Prop
  | file {p : Path} {bytes : B} (hplace : PlaceOf hot spec p)
      (h : t.node p = some (.file bytes)) : BelongsTo t p
  | link {p : Path} {target : String} (hplace : PlaceOf hot spec p)
      (h : t.node p = some (.link target)) : BelongsTo t p
  | blob {p q : Path} {target : String} {bytes : B} (hplace : PlaceOf hot spec q)
      (h : t.node q = some (.link target)) (hleads : t.resolve q = .ok (p, .file bytes)) :
      BelongsTo t p

/-- Nothing of the artifact is lost or changed. -/
def Keeps (t t' : FileTree B) : Prop := ∀ p, BelongsTo hot spec t p → t'.node p = t.node p

end Belonging

theorem BelongsTo.present (h : BelongsTo hot spec t p) : t.node p ≠ none := by
  cases h with
  | file _ h => rw [h]; exact Option.some_ne_none _
  | link _ h => rw [h]; exact Option.some_ne_none _
  | blob _ _ hleads => rw [t.node_of_resolve hleads]; exact Option.some_ne_none _

theorem present_of_below {q : Path} (h : t.node q ≠ none) (hp : p <+: q) : t.node p ≠ none :=
  fun hnone => h (FileTree.gone_of_none hnone q hp)

/-! ## What is removed -/

section Removed

variable {F : Chances B} {codec : Codec B} {name : String} {bytes : B}

/-- A file that is there is read, unless a call fails. -/
theorem ends_readFile_sound {x : Except PathError B} (hfile : t.node p = some (.file bytes))
    (h : (readFile p).prog.Ends (fun t => t.Exec (.sound B)) t x t') : x = .ok bytes ∧ t' = t := by
  have hopen : ∀ {a t₁}, t.Exec (.sound B) (.openFile p) a t₁ →
      a = .ok ⟨p, some bytes⟩ ∧ t₁ = t := by
    rintro a t₁ (hdoes | ⟨hfails, -⟩)
    · exact Prod.mk.inj (hdoes.trans (FileTree.apply_openFile hfile))
    · exact hfails.elim
  rcases Flow.ends_bind.mp h with ⟨e, -, hcall⟩ | ⟨handle, t₁, hcall, hread⟩
  · obtain ⟨a, ha, hx⟩ := ends_attempt.mp hcall
    obtain ⟨rfl, rfl⟩ := hopen ha
    cases hx
  · obtain ⟨a, ha, hx⟩ := ends_attempt.mp hcall
    obtain ⟨rfl, rfl⟩ := hopen ha
    cases hx
    obtain ⟨a, ha, rfl⟩ := ends_attempt.mp hread
    rcases ha with ⟨rfl, bytes', rfl, hbytes⟩ | ⟨hfails, -⟩
    · exact ⟨by rw [hbytes hfile]; rfl, rfl⟩
    · exact hfails.elim

/-- What is there is removed with all that is below it, unless a call fails. -/
theorem gone_of_removeAll {x : Except PathError Unit} (hne : p ≠ []) (hpresent : t.node p ≠ none)
    (h : (removeAll p).prog.Ends (fun t => t.Exec (.sound B)) t x t') : t'.Gone p := by
  have hsafe := exits_removeAll (F := .sound B) (X := Set.univ) (E := False) (t := t)
    (fun _ _ => trivial) hne (by rintro ⟨q, -, h⟩; exact h.elim id id) id (.inl hpresent)
  have hexits := hsafe.ends h
  cases x with
  | ok _ => exact hexits
  | error e => exact hexits.elim

theorem kept_of_removeAll {x : Except PathError Unit} {q : Path} (hne : p ≠ [])
    (h : (removeAll p).prog.Ends (fun t => t.Exec F) t x t') (hq : ¬ p <+: q) :
    t'.node q = t.node q := by
  have hsafe := exits_removeAll (F := F) (X := Set.univ) (E := True) (t := t) (fun _ _ => trivial)
    hne (fun _ => trivial) (fun _ => trivial) (.inr (.inr trivial))
  exact ((safe_changes hsafe).ends h).2.same trivial hq id id

/-- Unless a call fails, an eviction removes the files of the artifact that is recorded, and then
the marker. -/
theorem removes_of_evict {x : Except PathError Unit}
    (hfile : t.node (markers hot ++ [name] ++ ["cache.json"]) = some (.file bytes))
    (hevictable : Evictable (specIn codec bytes))
    (h : (evict codec hot (markers hot ++ [name])).prog.Ends (fun t => t.Exec (.sound B)) t x t') :
    ∃ y t₁, (removeAll (materializedPath hot (specIn codec bytes))).prog.Ends
        (fun t => t.Exec (.sound B)) t y t₁ ∧
      (removeAll (markers hot ++ [name])).prog.Ends (fun t => t.Exec (.sound B)) t₁ x t' := by
  obtain ⟨recorded, t₁, hspec, hrest⟩ := Flow.ends_lift_bind.mp h
  obtain ⟨body, t₂, hread, hbody⟩ := Prog.ends_bind.mp hspec
  obtain ⟨rfl, rfl⟩ := ends_readFile_sound hfile hread
  obtain ⟨rfl, rfl⟩ := hbody
  obtain ⟨_, t₃, hfiles, hmarker⟩ := Flow.ends_lift_bind.mp hrest
  unfold evictFiles at hfiles
  rw [if_pos hevictable] at hfiles
  obtain ⟨y, t₄, hremove, _, rfl⟩ := Prog.ends_bind.mp hfiles
  exact ⟨y, _, hremove, hmarker⟩

end Removed

/-! ## Isolation -/

section Isolation

/-- A specification of the same artifact: its files and its size may be others. -/
structure Names (recorded spec : CacheSpec) : Prop where
  kind : recorded.kind = spec.kind
  repoID : recorded.repoID = spec.repoID
  target : recorded.materializationTarget = spec.materializationTarget

variable {recorded : CacheSpec} {a b : CacheRequest}

theorem Names.materializedPath_eq (h : Names recorded spec) (hot : Path) :
    materializedPath hot recorded = materializedPath hot spec := by
  unfold materializedPath
  rw [h.kind, h.repoID, h.target]

theorem Names.evictable (h : Names recorded a.cache) (ha : Accepted a) : Evictable recorded := by
  unfold Evictable
  rw [h.kind, h.repoID]
  exact ha.kind.imp (fun hk => ⟨hk, ha.repoID⟩) id

theorem Names.confined (h : Names recorded a.cache) (ha : Accepted a) : Confined recorded := by
  unfold Confined
  rw [h.kind, h.target]
  exact ha.confined

/-- Two requests that do not get in each other's way: their repositories have different
directories, no listed file of the second lies in the target or in the marker of the first, and the
target of the first holds no blob. -/
structure Separate (hot : Path) (a b : CacheSpec) : Prop where
  hub : a.kind = "huggingface-hub" → b.kind = "huggingface-hub" →
    hubDirectory a.repoID ≠ hubDirectory b.repoID
  listed : b.kind = "huggingface-files" → ∀ file ∈ b.files,
    ¬ materializedPath hot a <+: join (materializedPath hot b) (elements file) ∧
      ¬ hotMarker hot a <+: join (materializedPath hot b) (elements file)
  blobs : ∀ n, ¬ materializedPath hot a <+: hotBlobs hot ++ [n]

/-- The links of an artifact lead into the directory of its repository or into the blob store. -/
def LeadsHome (hot : Path) (spec : CacheSpec) (t : FileTree B) : Prop :=
  ∀ q target p bytes, PlaceOf hot spec q → t.node q = some (.link target) →
    t.resolve q = .ok (p, .file bytes) →
    (spec.kind = "huggingface-hub" ∧ materializedPath hot spec <+: p) ∨ ∃ n, p = hotBlobs hot ++ [n]

/-- The directories of two repositories lie apart, and so do those of a repository and a target. -/
theorem Separate.apart_hub (h : Separate hot a.cache b.cache) (ha : Accepted a)
    (hb : b.cache.kind = "huggingface-hub") :
    Apart (materializedPath hot b.cache) (materializedPath hot a.cache) := by
  rw [materializedPath_hub hb]
  rcases ha.kind with hk | hk
  · rw [materializedPath_hub hk]
    exact (apart_entries (hot ++ ["hub"]) (h.hub hk hb).symm [] []).below (by simp) (by simp)
  · obtain ⟨rest, hrest, -⟩ := materializedPath_files (by rw [hk]; decide) (ha.files hk).2.2 hot
    rw [hrest]
    exact apart_entries hot (by decide) _ _

/-- What belongs to the second of two such artifacts is not in the way of the first. -/
theorem Separate.spares (h : Separate hot a.cache b.cache) (ha : Accepted a) (hb : Accepted b)
    (hhome : LeadsHome hot b.cache t) (hp : BelongsTo hot b.cache t p) :
    ¬ materializedPath hot a.cache <+: p ∧ ¬ hotMarker hot a.cache <+: p := by
  have hplace : ∀ {q}, PlaceOf hot b.cache q →
      ¬ materializedPath hot a.cache <+: q ∧ ¬ hotMarker hot a.cache <+: q := by
    rintro q (⟨hk, hq⟩ | ⟨hk, file, hfile, rfl⟩)
    · exact ⟨(h.apart_hub ha hk).not_under hq, (hb.confined.apart_markers hot _).not_under hq⟩
    · exact h.listed hk file hfile
  cases hp with
  | file hq _ => exact hplace hq
  | link hq _ => exact hplace hq
  | blob hq hlink hleads =>
    rcases hhome _ _ _ _ hq hlink hleads with ⟨hk, hp⟩ | ⟨n, rfl⟩
    · exact hplace (.inl ⟨hk, hp⟩)
    · refine ⟨h.blobs n, fun hmarker => ?_⟩
      simp [hotMarker, markers, hotBlobs] at hmarker

/-- No path leads through a link where there is none. -/
theorem straight_of_no_link (h : ∀ q target, t.node q ≠ some (.link target)) (p : Path) :
    t.straight p = true := by
  refine List.all_eq_true.mpr fun q _ => ?_
  split
  · rename_i target hlink
    exact absurd hlink (h q target)
  · rfl

theorem straightIn_of_no_link (h : ∀ q target, t.node q ≠ some (.link target)) (n : Nat)
    (p : Path) : t.straightIn n p = true := by
  cases n with
  | zero => rfl
  | succ n =>
    rw [FileTree.straightIn, straight_of_no_link h, Bool.true_and]
    split
    · rename_i target hlink
      exact absurd hlink (h p target)
    · rfl

/-- No path of two artifacts leads through a link. On such trees the calls are those of the
system. -/
structure Direct (hot : Path) (a b : CacheSpec) (t : FileTree B) : Prop where
  target : t.straight (materializedPath hot a) = true
  marker : t.straight (hotMarker hot a ++ ["cache.json"]) = true
  places : ∀ q, PlaceOf hot b q → t.straightIn 41 q = true

/-- `clearMaterialized` keeps what does not lie at or below the materialized path, and nothing
else. -/
theorem clear_keeps_iff (ha : Accepted a) :
    (∀ F x t', (clearMaterialized a hot).prog.Ends (fun t => t.Exec F) t x t' →
        Keeps hot b.cache t t') ↔
      ∀ p, BelongsTo hot b.cache t p → ¬ materializedPath hot a.cache <+: p := by
  have hne := ha.confined.ne_nil hot
  constructor
  · intro hkeeps p hp hbelow
    have hrun := ends_apply (clearMaterialized a hot).prog t
    have hgone := gone_of_removeAll hne (present_of_below hp.present hbelow) hrun
    exact hp.present ((hkeeps _ _ _ hrun p hp).symm.trans (hgone p hbelow))
  · intro hspares F x t' h p hp
    exact kept_of_removeAll hne h (hspares p hp)

/-- `evict` keeps what does not lie at or below the materialized path or in the marker, and
nothing else. -/
theorem evict_keeps_iff {codec : Codec B} {bytes : B} (ha : Accepted a)
    (hmarker : t.node (hotMarker hot a.cache ++ ["cache.json"]) = some (.file bytes))
    (hnames : Names (specIn codec bytes) a.cache) :
    (∀ F x t', (evict codec hot (hotMarker hot a.cache)).prog.Ends (fun t => t.Exec F) t x t' →
        Keeps hot b.cache t t') ↔
      ∀ p, BelongsTo hot b.cache t p →
        ¬ materializedPath hot a.cache <+: p ∧ ¬ hotMarker hot a.cache <+: p := by
  have hpath := hnames.materializedPath_eq hot
  have hne := ha.confined.ne_nil hot
  have hapart : Apart (materializedPath hot a.cache) (hotMarker hot a.cache) :=
    ha.confined.apart_markers hot [cacheKey a.cache]
  constructor
  · intro hkeeps p hp
    have hrun := ends_apply (evict codec hot (hotMarker hot a.cache)).prog t
    obtain ⟨y, t₁, hfiles, hrest⟩ := removes_of_evict hmarker (hnames.evictable ha) hrun
    rw [hpath] at hfiles
    have hlost := fun hnone => hp.present ((hkeeps _ _ _ hrun p hp).symm.trans hnone)
    constructor
    · -- The files are gone after the first removal, and the second one leaves it so.
      intro hbelow
      have hgone := gone_of_removeAll hne (present_of_below hp.present hbelow) hfiles
      refine hlost ?_
      rw [kept_of_removeAll (by simp) hrest (hapart.not_under hbelow)]
      exact hgone p hbelow
    · intro hbelow
      have hkept := kept_of_removeAll hne hfiles hapart.1
      have hgone := gone_of_removeAll (by simp) (hkept ▸ present_of_below hp.present hbelow) hrest
      exact hlost (hgone p hbelow)
  · intro hspares F x t' h p hp
    have hrecorded : Recorded codec hot t (cacheKey a.cache) := by
      refine ⟨fun target hlink => ?_, fun bytes' hbytes _ => ?_⟩
      · cases hlink.symm.trans hmarker
      · cases hbytes.symm.trans hmarker
        exact hnames.confined ha
    refine (ends_evict hrecorded h).2.same trivial ?_ id id
    rintro (hbelow | ⟨bytes', hbytes, -, hbelow⟩)
    · exact (hspares p hp).2 hbelow
    · cases hbytes.symm.trans hmarker
      exact (hspares p hp).1 (hpath ▸ hbelow)

end Isolation

/-! ## Two revisions and two repositories -/

def hubArtifact (repoID revision : String) : CacheRequest where
  model := repoID
  backend := "vllm"
  cache :=
    { kind := "huggingface-hub", repoID, revision, size := 1, files := [],
      materializationTarget := "" }

/-- The marker of one revision, a file of another one, and a file of another repository. -/
def sharedEntries : List (Path × Node Json) :=
  [(["hot"], .dir), (["hot", ".llm-cache"], .dir),
    (["hot", ".llm-cache", "huggingface-hub-google--gemma-main"], .dir),
    (["hot", ".llm-cache", "huggingface-hub-google--gemma-main", "cache.json"],
      .file (encodeSpec (hubArtifact "google/gemma" "main").cache)),
    (["hot", "hub"], .dir), (["hot", "hub", "models--google--gemma"], .dir),
    (["hot", "hub", "models--google--gemma", "snapshots"], .dir),
    (["hot", "hub", "models--google--gemma", "snapshots", "dev"], .dir),
    (["hot", "hub", "models--google--gemma", "snapshots", "dev", "config.json"],
      .file (.str "dev")),
    (["hot", "hub", "models--google--bert"], .dir),
    (["hot", "hub", "models--google--bert", "config.json"], .file (.str "bert"))]

theorem nested_sharedEntries : FileTree.Nested sharedEntries := by
  unfold sharedEntries
  decide +kernel

def sharedTree : FileTree Json := FileTree.ofEntries sharedEntries nested_sharedEntries

theorem sharedTree_no_link (q : Path) (target : String) :
    sharedTree.node q ≠ some (.link target) := by
  intro hlink
  rcases FileTree.ofEntries_cases hlink with ⟨_, h⟩ | hmem
  · cases h
  · simp [sharedEntries] at hmem

end LlmOperator.Cache
