import LlmOperator.Cache.Archive

/-!
# Restoring artifacts

`materialize` puts the payload of a cold artifact back into the hot root, entry by entry of its
manifest: a regular file is copied and checked, a link is made anew and leads to a copy of its blob
below `gguf/.blobs`.
-/

namespace LlmOperator.Cache

open Api Data Data.GoString FileSystem Interaction Safe

variable {B : Type}

/-! ## The programs -/

section

variable (codec : Codec B) (r : CacheRequest) (artifact hot : Path) (file : ArtifactFile)

/-- `clearMaterialized`. -/
def clearMaterialized : Flow (Fs B) PathError Unit :=
  removeAll (materializedPath hot r.cache)

/-- The place in the hot root for an entry of the manifest. -/
def restorePath (path : String) : Option Path :=
  if r.cache.kind = "huggingface-files" then
    match cutPrefix path "files/" with
    | some relative =>
      if relative = "" then none
      else some (join (join hot (elements r.cache.materializationTarget)) (elements relative))
    | none => none
  else some (join hot (elements path))

/-- The entry of the manifest in the payload of the artifact. -/
def payloadPath (path : String) : Path :=
  join (artifact ++ ["payload"]) (elements path)

/-- The blob that the link of an entry leads to in the artifact. -/
def sourceBlob : Path :=
  join (payloadPath artifact file.path).dropLast (elements file.symlinkTo)

/-- The blob store of the hot root. -/
def hotBlobs : Path := hot ++ ["gguf", ".blobs"]

/-- Its copy in the hot root. -/
def hotBlob : Path :=
  joinBase (hot ++ ["gguf", ".blobs"]) (sourceBlob artifact file)

/-- The copy of a blob into the hot root, unless one of its name is there. -/
def copyBlob (source blob : Path) (want : ArtifactFile) : Flow (Fs B) Err Unit :=
  ExceptT.mk (.call (.lstat blob) fun
    | .ok _ => .pure (.ok ())
    | .error .enoent => (copyAndVerify codec source blob want).prog
    | .error e => .pure (.error (pathErr ⟨"lstat", blob, e⟩)))

/-- The blob of a link that is as the manifest says. -/
def restoreBlob : Flow (Fs B) Err Unit :=
  if escapes (rel artifact (sourceBlob artifact file)) then
    throw (.other ("invalid symlink target for " ++ file.path))
  else
    ExceptT.mk (.call (.stat (sourceBlob artifact file)) fun
      | .ok (.file b) => (copyBlob codec (sourceBlob artifact file) (hotBlob artifact hot file)
          ⟨file.path, codec.size b, "", ""⟩).prog
      | _ => .pure (.error (.other ("resolve symlink " ++ file.path))))

/-- The branch of `materialize` for a link that is as the manifest says. -/
def restoreLink (dst : Path) (file : ArtifactFile) : Flow (Fs B) Err Unit := do
  restoreBlob codec artifact hot file
  os (mkdirAll dst.dropLast)
  os (replaceSymlink dst (relativeBlobLink dst (hotBlob artifact hot file)))

/-- One entry of the manifest. -/
def restoreFile : Flow (Fs B) Err Unit :=
  match restorePath r hot file.path with
  | none => throw (.other ("invalid file artifact path " ++ file.path))
  | some dst =>
    if file.symlinkTo ≠ "" then
      ExceptT.mk (.call (.readlink (payloadPath artifact file.path)) fun
        | .ok target =>
          if target = file.symlinkTo then (restoreLink codec artifact hot dst file).prog
          else .pure (.error (.other ("verify symlink " ++ file.path)))
        | .error _ => .pure (.error (.other ("verify symlink " ++ file.path))))
    else copyAndVerify codec (payloadPath artifact file.path) dst file

/-- `materialize`. -/
def materialize (manifest : ArtifactManifest) : Flow (Fs B) Err Unit :=
  Flow.forEach (restoreFile codec r artifact hot) manifest.files

end

/-! ## What a restore leaves behind -/

section Restoring

variable {F : Chances B} {g : Footprint} {t : FileTree B} {E : Prop}
  {codec : Codec B} {artifact hot dst : Path} {L : Layout B} {file : ArtifactFile}

/-- A blob that is there is left alone; otherwise it is copied. -/
structure BlobCopied (source blob : Path) (t t' : FileTree B) : Prop where
  changes : (copies blob).Changes Set.univ t t'
  copied : (t.node blob ≠ none ∧ t'.node blob = t.node blob) ∨
    ∃ b, t'.node blob = some (.file b) ∧ ∀ b', t.node source = some (.file b') → b = b'

theorem BlobCopied.same_left {source blob : Path} {t₁ t' : FileTree B} (h : Same Set.univ t t₁)
    (h' : BlobCopied source blob t₁ t') : BlobCopied source blob t t' := by
  refine ⟨(Footprint.changes_of_same h).trans h'.changes, ?_⟩
  have := h'.copied
  rwa [h source trivial, h blob trivial] at this

theorem exits_copyBlob {source blob : Path} {want : ArtifactFile} (hproper : Proper blob)
    (hne : blob ≠ []) (hdiff : source ≠ blob) (hle : (copies blob).Le g) :
    Safe (fsWorld Set.univ F g) (copyBlob codec source blob want).prog
      (Exits True fun _ t' => BlobCopied source blob t t') t := by
  refine safe_read (c := .lstat blob) trivial (fun t₁ h₁ => ?_) fun _ _ _ => trivial
  have happly : (t₁.apply (.lstat blob)).1 = t₁.find blob := rfl
  rw [happly, FileTree.find]
  cases hx : t₁.node blob with
  | some x =>
    refine ⟨Footprint.changes_of_same h₁, .inl ⟨?_, h₁ blob trivial⟩⟩
    rw [← h₁ blob trivial, hx]
    exact Option.some_ne_none _
  | none =>
    rcases t₁.missing_cases blob with hm | hm
    swap
    · rw [hm]
      trivial
    have hclear₁ : t₁.Clear blob.dropLast := fun q hq =>
      FileTree.clear_of_missing hm q (hq.trans blob.dropLast_prefix)
    rw [hm]
    refine exits_mono (exits_within hle (exits_copyAndVerify (fun _ _ => trivial) hproper hne hdiff
      hclear₁ (.inl hx) (fun _ => trivial) fun _ _ => trivial)) id ?_
    rintro _ t₂ ⟨⟨b, hb, _, hread⟩, hc⟩
    exact BlobCopied.same_left h₁ ⟨hc, .inr ⟨b, hb, hread trivial⟩⟩

theorem exits_restoreBlob (hproper : Proper (hotBlob artifact hot file))
    (hne : hotBlob artifact hot file ≠ [])
    (hdiff : sourceBlob artifact file ≠ hotBlob artifact hot file)
    (hle : (copies (hotBlob artifact hot file)).Le g) :
    Safe (fsWorld Set.univ F g) (restoreBlob codec artifact hot file).prog
      (Exits True fun _ t' =>
        BlobCopied (sourceBlob artifact file) (hotBlob artifact hot file) t t') t := by
  unfold restoreBlob
  split
  · trivial
  refine safe_read (c := .stat _) trivial (fun t₁ h₁ => ?_) fun _ _ _ => trivial
  split
  · exact exits_mono (exits_copyBlob hproper hne hdiff hle) id fun _ t₂ h => h.same_left h₁
  · trivial

/-- A regular file of the manifest and its place. -/
structure RestorableFile (codec : Codec B) (L : Layout B) (g : Footprint) (t : FileTree B)
    (E : Prop) (artifact dst : Path) (file : ArtifactFile) : Prop where
  place : L.Place dst
  fits : ∀ b, Verified codec b file → (∀ b',
    t.node (payloadPath artifact file.path) = some (.file b') → b = b') → L.fits dst (.file b)
  only : ∀ x, L.fits dst x → ∃ b, x = .file b
  diff : payloadPath artifact file.path ≠ dst
  within : (copies dst).Le g
  good : ¬ (∃ b, t.node (payloadPath artifact file.path) = some (.file b) ∧
    Verified codec b file) → E
  spared : ∀ t', g.Changes Set.univ t t' →
    t'.node (payloadPath artifact file.path) = t.node (payloadPath artifact file.path)

theorem RestorableFile.later {t' : FileTree B}
    (h : RestorableFile codec L g t E artifact dst file) (hc : g.Changes Set.univ t t') :
    RestorableFile codec L g t' E artifact dst file where
  place := h.place
  fits b hv hb := h.fits b hv fun b' hb' => hb b' ((h.spared t' hc).trans hb')
  only := h.only
  diff := h.diff
  within := h.within
  good hn := h.good fun ⟨b, hb, hv⟩ => hn ⟨b, (h.spared t' hc).trans hb, hv⟩
  spared t'' hc' := (h.spared t'' (hc.trans hc')).trans (h.spared t' hc).symm

/-- A regular file is copied to its place, if it is as its entry says. -/
theorem exits_restoreRegular (link : Prop) (hF : ∀ c, F c → E) (hconf : L.Conforms t)
    (h : RestorableFile codec L g t E artifact dst file) :
    Safe (fsWorld Set.univ F g) (copyAndVerify codec (payloadPath artifact file.path) dst file).prog
      (Exits E fun _ t' => Settled F L dst link t t' ∧
        ∀ b, t.node (payloadPath artifact file.path) = some (.file b) → Verified codec b file)
      t := by
  have hocc : t.node dst = none ∨ ∃ b, t.node dst = some (.file b) := by
    cases hx : t.node dst with
    | none => exact .inl rfl
    | some x =>
      obtain ⟨b, rfl⟩ := h.only x (hconf.fits h.place hx)
      exact .inr ⟨b, rfl⟩
  refine exits_mono (exits_within h.within (exits_copyAndVerify (fun _ _ => trivial) h.place.proper
    h.place.ne_nil h.diff (hconf.clear h.place) hocc
      (fun hn => h.good fun ⟨b, hb⟩ => hn ⟨trivial, b, hb⟩)
    hF)) id ?_
  rintro _ t' ⟨⟨b, hb, hv, hread⟩, hc⟩
  refine ⟨settled_file hconf hc hb (h.fits b hv (hread trivial)), fun b' hb' => ?_⟩
  rwa [← hread trivial b' hb']

/-- A link whose blob is apart from all places, so that nothing needs to be known of it. -/
structure LooseLink (L : Layout B) (g : Footprint) (artifact hot dst : Path) (file : ArtifactFile) :
    Prop where
  fits : L.fits dst (.link (relativeBlobLink dst (hotBlob artifact hot file)))
  proper : Proper (hotBlob artifact hot file)
  ne_nil : hotBlob artifact hot file ≠ []
  diff : sourceBlob artifact file ≠ hotBlob artifact hot file
  apart : ∀ p, L.Place p → Apart (hotBlob artifact hot file) p
  within : (copies (hotBlob artifact hot file)).Le g
  relinks : (relinks dst).Le g
  above : (above dst.dropLast).Le g

/-- The blob of a loose link. -/
theorem exits_restoreBlob_loose (h : LooseLink L g artifact hot dst file) :
    Safe (fsWorld Set.univ F g) (restoreBlob codec artifact hot file).prog
      (Exits True fun _ t' => (copies (hotBlob artifact hot file)).Changes Set.univ t t') t :=
  exits_mono (exits_restoreBlob h.proper h.ne_nil h.diff h.within) id fun _ _ h => h.changes

theorem exits_restoreLoose (h : LooseLink L g artifact hot dst file) (hconf : L.Conforms t) :
    Safe (fsWorld Set.univ F g) (restoreLink codec artifact hot dst file).prog
      (Exits True fun _ t' => Settled F L dst True t t') t := by
  have hF : ∀ c, F c → True := fun _ _ => trivial
  refine exits_bind (exits_restoreBlob_loose h) fun _ t₁ hc₁ => ?_
  refine exits_bind (exits_os (exits_parent hF (hconf.beside h.apart hc₁) ⟨_, h.fits⟩ h.above)) ?_
  rintro _ t₂ ⟨hconf₂, hdir, hsame⟩
  refine exits_mono (exits_os (exits_relink hF hconf₂ h.fits h.proper h.relinks hdir)) id ?_
  rintro _ t₃ ⟨hconf₃, hpresent, hother⟩
  refine ⟨hconf₃, hpresent.imp_right fun htemp => ⟨trivial, htemp⟩, fun p hp hne => ?_,
    fun h => absurd trivial h⟩
  rw [hother p hp hne, hsame p hp, hc₁.same trivial (h.apart p hp).1 id (h.apart p hp).2]

/-- A loose link whose text leads out of the artifact is refused. -/
theorem exits_restoreFile_loose {r : CacheRequest} (hF : ∀ c, F c → E) (hconf : L.Conforms t)
    (hpath : restorePath r hot file.path = some dst)
    (hfile : file.symlinkTo = "" → RestorableFile codec L g t E artifact dst file)
    (hE : file.symlinkTo ≠ "" → E)
    (hlink : file.symlinkTo ≠ "" → escapes (rel artifact (sourceBlob artifact file)) = false →
      LooseLink L g artifact hot dst file) :
    Safe (fsWorld Set.univ F g) (restoreFile codec r artifact hot file).prog (Exits E fun _ t' =>
      Settled F L dst (file.symlinkTo ≠ "") t t' ∧
        (file.symlinkTo ≠ "" → escapes (rel artifact (sourceBlob artifact file)) = false)) t := by
  unfold restoreFile
  rw [hpath]
  dsimp only
  by_cases hempty : file.symlinkTo = ""
  · rw [if_neg (not_not.mpr hempty)]
    exact exits_mono (exits_restoreRegular _ hF hconf (hfile hempty)) id
      fun _ t' h => ⟨h.1, fun hne => absurd hempty hne⟩
  rw [if_pos hempty]
  refine safe_read (c := .readlink (payloadPath artifact file.path)) trivial (fun t₁ h₁ => ?_)
    fun _ _ _ => hE hempty
  cases (t₁.apply (.readlink (payloadPath artifact file.path))).1 with
  | error e => exact hE hempty
  | ok target =>
    dsimp only
    split
    · cases hesc : escapes (rel artifact (sourceBlob artifact file)) with
      | true =>
        unfold restoreLink restoreBlob
        rw [if_pos hesc]
        exact hE hempty
      | false =>
        refine exits_mono (exits_restoreLoose (hlink hempty hesc) (hconf.same h₁))
          (fun _ => hE hempty) ?_
        rintro _ t₂ ⟨hconf₂, hpresent, hothers, _⟩
        refine ⟨⟨hconf₂, hpresent.imp_right fun h => ⟨hempty, h.2⟩, fun p hp hne => ?_,
          fun h => absurd hempty h⟩, fun _ => rfl⟩
        rw [hothers p hp hne, h₁ p trivial]
    · exact hE hempty

/-- Whatever the blob store holds, a restore puts nothing else into the places. Only a link can make
it fail, or touch anything apart from the places. -/
theorem exits_materialize {r : CacheRequest} {manifest : ArtifactManifest}
    (dst : ArtifactFile → Path) (hF : ∀ c, F c → E) (hconf : L.Conforms t)
    (hpath : ∀ file ∈ manifest.files, restorePath r hot file.path = some (dst file))
    (hfile : ∀ file ∈ manifest.files, file.symlinkTo = "" →
      RestorableFile codec L g t E artifact (dst file) file)
    (hE : ∀ file ∈ manifest.files, file.symlinkTo ≠ "" → E)
    (hlink : ∀ file ∈ manifest.files, file.symlinkTo ≠ "" →
      escapes (rel artifact (sourceBlob artifact file)) = false →
        LooseLink L g artifact hot (dst file) file) :
    Safe (fsWorld Set.univ F g) (materialize codec r artifact hot manifest).prog
      (Exits E fun _ t' => L.Conforms t' ∧ (E ∨ L.footprint.Changes Set.univ t t') ∧
        ∀ file ∈ manifest.files,
          (t'.node (dst file) ≠ none ∨ (file.symlinkTo ≠ "" ∧ TempNamed F (dst file))) ∧
          (file.symlinkTo ≠ "" → escapes (rel artifact (sourceBlob artifact file)) = false)) t := by
  -- Two entries with one place are of one kind.
  have hkind : ∀ a ∈ manifest.files, ∀ b ∈ manifest.files, dst a = dst b → b.symlinkTo ≠ "" →
      escapes (rel artifact (sourceBlob artifact b)) = false → a.symlinkTo ≠ "" := by
    intro a ha b hb heq hl hesc he
    obtain ⟨bytes, hbytes⟩ := (hfile a ha he).only _ (heq ▸ (hlink b hb hl hesc).fits)
    cases hbytes
  refine exits_mono (exits_forEach (I := fun done t' => L.Conforms t' ∧ g.Changes Set.univ t t' ∧
    (E ∨ L.footprint.Changes Set.univ t t') ∧
    ∀ file ∈ done, (t'.node (dst file) ≠ none ∨ (file.symlinkTo ≠ "" ∧ TempNamed F (dst file))) ∧
      (file.symlinkTo ≠ "" → escapes (rel artifact (sourceBlob artifact file)) = false))
    (fun done file rest hall t₁ h₁ => ?_)
    ⟨hconf, .refl _ _ _, .inr (.refl _ _ _), fun _ h => absurd h List.not_mem_nil⟩) id
    fun _ t' h => ⟨h.1, h.2.2⟩
  obtain ⟨hconf₁, hc₁, hl₁, hdone⟩ := h₁
  have hmem : ∀ a ∈ done ++ [file], a ∈ manifest.files := fun a ha => by
    rw [hall]
    simp only [List.mem_append, List.mem_cons] at ha ⊢
    tauto
  have hfm : file ∈ manifest.files := hmem file (by simp)
  refine (safe_changes (exits_restoreFile_loose hF hconf₁ (hpath file hfm)
    (fun h => (hfile file hfm h).later hc₁) (hE file hfm) (hlink file hfm))).mono ?_
  rintro (e | _) t₂ ⟨h, hc₂⟩
  · exact h
  obtain ⟨h, hesc⟩ := h
  refine ⟨h.conforms, hc₁.trans hc₂, ?_, fun a ha => ?_⟩
  · by_cases hl : file.symlinkTo = ""
    · exact hl₁.imp_right fun hl₁ => hl₁.trans (h.changes (not_not.mpr hl))
    · exact .inl (hE file hfm hl)
  rcases List.mem_append.mp ha with hd | hd
  · obtain ⟨hpresent, hesc'⟩ := hdone a hd
    refine ⟨?_, hesc'⟩
    have ham := hmem a ha
    have hplace : L.Place (dst a) := by
      by_cases he : a.symlinkTo = ""
      · exact (hfile a ham he).place
      · exact ⟨_, (hlink a ham he (hesc' he)).fits⟩
    by_cases heq : dst a = dst file
    · rw [heq]
      exact h.present.imp_right fun ⟨hl, htemp⟩ => ⟨hkind a ham file hfm heq hl (hesc hl), htemp⟩
    · rwa [h.others _ hplace heq]
  · obtain rfl := List.mem_singleton.mp hd
    exact ⟨h.present, hesc⟩

end Restoring

end LlmOperator.Cache
