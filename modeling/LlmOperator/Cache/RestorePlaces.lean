import LlmOperator.Cache.FilesRestore

/-!
# Restores into an empty root

What a restore of an artifact of either kind leaves behind, from the tree as it is when the restore
begins. The places are those of the files and those of the blobs that the links of the artifact lead
to, so that it is known of every file what is read at its place.
-/

namespace LlmOperator.Cache

open Api Data Data.GoString FileSystem Interaction Safe

variable {B : Type}

/-! ## Artifacts -/

/-- Where the files of an artifact lie in its payload. -/
def payloadRoot (spec : CacheSpec) : Path :=
  if spec.kind = "huggingface-hub" then ["hub", hubDirectory spec.repoID] else ["files"]

/-- Where its blobs lie: among the files of a repository, beside the payload otherwise. -/
def blobStore (spec : CacheSpec) : Path :=
  if spec.kind = "huggingface-hub" then ["payload", "hub", hubDirectory spec.repoID, "blobs"]
  else ["blobs"]

/-- The file `q` of an artifact. -/
abbrev payloadFile (spec : CacheSpec) (artifact q : Path) : Path :=
  artifact ++ "payload" :: (payloadRoot spec ++ q)

/-- The entry of the manifest for the link `q`. -/
abbrev linkEntry (spec : CacheSpec) (q : Path) (target : String) : ArtifactFile :=
  ⟨text (payloadRoot spec ++ q), 0, "", target⟩

/-- An artifact of regular files and of links to blobs, as `archiveHot` stages it. -/
structure ArtifactTree (t : FileTree B) (spec : CacheSpec) (artifact : Path) : Prop where
  payload : t.node (artifact ++ ["payload"]) = some .dir
  below : ∀ q x, t.node (artifact ++ "payload" :: q) = some x → x ≠ .dir →
    ∃ rest, rest ≠ [] ∧ q = payloadRoot spec ++ rest
  links : ∀ q target, t.node (artifact ++ "payload" :: q) = some (.link target) → ∃ n b,
    target = relativeBlobLink ("payload" :: q) (blobStore spec ++ [n]) ∧
      t.node (artifact ++ (blobStore spec ++ [n])) = some (.file b)

/-- The bytes that are read at a path. -/
def bytesAt (t : FileTree B) (p : Path) : Option B :=
  match t.resolve p with
  | .ok (_, .file b) => some b
  | _ => none

section Bytes

variable {t : FileTree B} {p : Path}

theorem bytesAt_file {b : B} (h : t.node p = some (.file b)) : bytesAt t p = some b := by
  unfold bytesAt
  rw [t.resolve_of_node h nofun]

theorem bytesAt_link {target : String} {b : B} (h : t.node p = some (.link target))
    (hb : t.node (FileTree.follow p.dropLast target) = some (.file b)) : bytesAt t p = some b := by
  unfold bytesAt FileTree.resolve FileTree.resolveIn FileTree.find
  rw [h]
  dsimp only
  unfold FileTree.resolveIn FileTree.find
  rw [hb]

end Bytes

/-! ## The places -/

/-- Where the files of an artifact go in the hot root. -/
structure RestorePlace (r : CacheRequest) (hot : Path) : Prop where
  inside : ∃ n rest, materializedPath hot r.cache = hot ++ n :: rest
  proper : Proper (materializedPath hot r.cache)
  apartBlobs : Apart (materializedPath hot r.cache) (hotBlobs hot)
  path : ∀ {q}, Proper (payloadRoot r.cache ++ q) → q ≠ [] →
    restorePath r hot (text (payloadRoot r.cache ++ q)) = some (materializedPath hot r.cache ++ q)

theorem RestorePlace.below {r : CacheRequest} {hot : Path} (h : RestorePlace r hot) :
    hot <+: materializedPath hot r.cache := by
  obtain ⟨n, rest, hpath⟩ := h.inside
  rw [hpath]
  exact List.prefix_append _ _

theorem FilesRequest.restorePlace {r : CacheRequest} {hot : Path} (h : FilesRequest r hot)
    (hhot : Proper hot) : RestorePlace r hot := by
  obtain ⟨n, rest, _, _, hpath⟩ := h.materialized
  refine ⟨⟨"gguf", n :: rest, by rw [hpath]; simp⟩, h.proper hhot, h.apartBlobs,
    fun {q} hproper hq => ?_⟩
  have hroot : payloadRoot r.cache = ["files"] := if_neg h.not_hub
  rw [hroot] at hproper ⊢
  exact h.restorePath_eq (fun n hn => hproper n (List.mem_cons_of_mem _ hn)) hq

theorem restorePlace_hub {r : CacheRequest} {hot : Path} (h : r.cache.kind = "huggingface-hub")
    (hhot : Proper hot) : RestorePlace r hot := by
  have hpath := materializedPath_hub h hot
  have hroot : payloadRoot r.cache = ["hub", hubDirectory r.cache.repoID] := if_pos h
  refine ⟨⟨_, _, hpath⟩, ?_, ?_, fun {q} hproper _ => ?_⟩
  · rw [hpath]
    refine hhot.append fun n hn => ?_
    simp only [List.mem_cons, List.not_mem_nil, or_false] at hn
    rcases hn with rfl | rfl
    · decide
    · exact isName_hubDirectory _
  · rw [hpath]
    exact apart_entries hot (by decide) _ _
  · rw [hroot] at hproper ⊢
    unfold restorePath
    rw [if_neg (by rw [h]; decide), hproper.elements_text (by simp), join_proper hproper, hpath,
      List.append_assoc]

/-- What fits where: what the artifact holds now, the links with new texts, and the blobs. -/
inductive RestoreFit (t : FileTree B) (spec : CacheSpec) (artifact hot : Path) :
    Path → Node B → Prop
  | file {q : Path} {b : B} (hq : q ≠ [])
      (h : t.node (payloadFile spec artifact q) = some (.file b)) :
      RestoreFit t spec artifact hot (materializedPath hot spec ++ q) (.file b)
  | link {q : Path} {target : String} (hq : q ≠ [])
      (h : t.node (payloadFile spec artifact q) = some (.link target)) :
      RestoreFit t spec artifact hot (materializedPath hot spec ++ q)
        (.link (relativeBlobLink (materializedPath hot spec ++ q)
          (hotBlob artifact hot (linkEntry spec q target))))
  | blob {n : String} {b : B}
      (h : t.node (artifact ++ (blobStore spec ++ [n])) = some (.file b)) :
      RestoreFit t spec artifact hot (hotBlobs hot ++ [n]) (.file b)

/-- A restore of what the tree `t` has of an artifact. -/
structure Restoring (t : FileTree B) (r : CacheRequest) (artifact hot : Path) : Prop where
  tree : ArtifactTree t r.cache artifact
  place : RestorePlace r hot
  hotProper : Proper hot
  apart : Apart hot artifact

namespace Restoring

variable {codec : Codec B} {t t₁ t₂ : FileTree B} {r : CacheRequest} {artifact hot p q : Path}
  {x : Node B} {f : ArtifactFile} {F : Chances B} {target : String}

theorem fit_cases (hx : RestoreFit t r.cache artifact hot p x) :
    (∃ q, p = materializedPath hot r.cache ++ q ∧ t.node (payloadFile r.cache artifact q) ≠ none ∧
      t.node (payloadFile r.cache artifact q) ≠ some .dir) ∨
    ∃ n b, p = hotBlobs hot ++ [n] ∧
      t.node (artifact ++ (blobStore r.cache ++ [n])) = some (.file b) := by
  cases hx with
  | file _ h => exact .inl ⟨_, rfl, by rw [h]; simp, by rw [h]; simp⟩
  | link _ h => exact .inl ⟨_, rfl, by rw [h]; simp, by rw [h]; simp⟩
  | blob h => exact .inr ⟨_, _, rfl, h⟩

theorem isName_blob {n : String} {b : B}
    (h : t.node (artifact ++ (blobStore r.cache ++ [n])) = some (.file b)) : IsName n :=
  t.proper _ (by rw [h]; simp) n (by simp)

def layout (h : Restoring t r artifact hot) : Layout B where
  fits := RestoreFit t r.cache artifact hot
  ne_nil hx := by
    rcases fit_cases hx with ⟨q, rfl, _⟩ | ⟨n, b, rfl, _⟩
    · obtain ⟨n, rest, hpath⟩ := h.place.inside
      simp [hpath]
    · simp
  proper hx := by
    rcases fit_cases hx with ⟨q, rfl, hsome, _⟩ | ⟨n, b, rfl, hb⟩
    · exact h.place.proper.append fun n hn => t.proper _ hsome n (by simp [hn])
    · exact (h.hotProper.append (by decide)).append (proper_singleton (isName_blob hb))
  leaf p hx := by cases hx
  apart {p p' x y} hx hy hpre := by
    rcases fit_cases hx with ⟨q, rfl, _, hleaf⟩ | ⟨n, _, rfl, _⟩ <;>
      rcases fit_cases hy with ⟨q', rfl, hsome, _⟩ | ⟨n', _, rfl, _⟩
    · by_contra hne
      have hq := (List.prefix_append_right_inj _).mp hpre
      refine hleaf (t.dir_above hsome ?_ fun he => hne ?_)
      · simpa using hq
      · simpa using he
    · exact absurd ((List.prefix_append _ q).trans hpre)
        (h.place.apartBlobs.below List.prefix_rfl (List.prefix_append _ [n'])).1
    · exact absurd hpre
        (h.place.apartBlobs.symm.below (List.prefix_append _ [n]) (List.prefix_append _ q')).1
    · obtain rfl : n = n' := by simpa using (List.prefix_append_right_inj _).mp hpre
      rfl

/-! ## Entries -/

/-- A file of the artifact and its entry of the manifest. -/
structure Entry (t : FileTree B) (r : CacheRequest) (artifact : Path) (f : ArtifactFile)
    (q : Path) : Prop where
  ne_nil : q ≠ []
  path : f.path = text (payloadRoot r.cache ++ q)
  node : (f.symlinkTo = "" ∧ ∃ b, t.node (payloadFile r.cache artifact q) = some (.file b)) ∨
    ∃ target, t.node (payloadFile r.cache artifact q) = some (.link target) ∧
      f = linkEntry r.cache q target

theorem proper_of_node (h : t.node (payloadFile r.cache artifact q) ≠ none) :
    Proper (payloadRoot r.cache ++ q) := fun n hn =>
  t.proper _ h n (List.mem_append_right _ (List.mem_cons_of_mem _ hn))

theorem Entry.proper (hf : Entry t r artifact f q) : Proper (payloadRoot r.cache ++ q) := by
  rcases hf.node with ⟨_, b, hb⟩ | ⟨target, hl, _⟩
  · exact proper_of_node (by rw [hb]; simp)
  · exact proper_of_node (by rw [hl]; simp)

theorem Entry.payloadPath_eq (hf : Entry t r artifact f q) :
    payloadPath artifact f.path = payloadFile r.cache artifact q := by
  rw [hf.path, payloadPath_text hf.proper (by simp [hf.ne_nil])]

/-- A link leads to its blob in the artifact, and is to lead to its copy in the hot root. -/
theorem blob_of_link (h : Restoring t r artifact hot) (hq : q ≠ [])
    (hl : t.node (payloadFile r.cache artifact q) = some (.link target)) :
    ∃ n b, t.node (artifact ++ (blobStore r.cache ++ [n])) = some (.file b) ∧ target ≠ "" ∧
      FileTree.follow (payloadFile r.cache artifact q).dropLast target =
        artifact ++ (blobStore r.cache ++ [n]) ∧
      sourceBlob artifact (linkEntry r.cache q target) =
        artifact ++ (blobStore r.cache ++ [n]) ∧
      hotBlob artifact hot (linkEntry r.cache q target) = hotBlobs hot ++ [n] := by
  obtain ⟨n, b, htarget, hb⟩ := h.tree.links _ _ hl
  have hproper : Proper (artifact ++ (blobStore r.cache ++ [n])) := t.proper _ (by rw [hb]; simp)
  rw [← relativeBlobLink_common artifact (List.cons_ne_nil _ _)] at htarget
  have hfollow : FileTree.follow (payloadFile r.cache artifact q).dropLast target =
      artifact ++ (blobStore r.cache ++ [n]) := htarget ▸ follow_relativeBlobLink hproper
  have htext := text_rel (payloadFile r.cache artifact q).dropLast hproper
  have hsource : sourceBlob artifact (linkEntry r.cache q target) =
      artifact ++ (blobStore r.cache ++ [n]) := by
    unfold sourceBlob
    rw [payloadPath_text (proper_of_node (by rw [hl]; simp)) (by simp [hq]), ← hfollow]
    unfold FileTree.follow
    rw [htarget, relativeBlobLink, htext.2, if_neg Bool.false_ne_true]
  refine ⟨n, b, hb, htarget ▸ htext.1, hfollow, hsource, ?_⟩
  unfold hotBlob joinBase hotBlobs
  rw [hsource, ← List.append_assoc, List.getLast?_concat]
  rfl

section

variable (h : Restoring t r artifact hot)
include h

/-- At the place of a file there is what the artifact has there. -/
theorem fit_entry (hx : RestoreFit t r.cache artifact hot (materializedPath hot r.cache ++ q) x) :
    (∃ b, t.node (payloadFile r.cache artifact q) = some (.file b) ∧ x = .file b) ∨
    ∃ target, t.node (payloadFile r.cache artifact q) = some (.link target) ∧
      x = .link (relativeBlobLink (materializedPath hot r.cache ++ q)
        (hotBlob artifact hot (linkEntry r.cache q target))) := by
  generalize he : materializedPath hot r.cache ++ q = p at hx
  cases hx with
  | @file q' b _ hb =>
    obtain rfl := List.append_cancel_left he
    exact .inl ⟨b, hb, rfl⟩
  | @link q' target _ hl =>
    obtain rfl := List.append_cancel_left he
    exact .inr ⟨target, hl, rfl⟩
  | @blob n b _ =>
    exact absurd (he ▸ List.prefix_append _ q)
      (h.place.apartBlobs.below List.prefix_rfl (List.prefix_append _ [n])).1

/-- At the place of a blob there is what the artifact has in its store. -/
theorem fit_blob {n : String} (hx : RestoreFit t r.cache artifact hot (hotBlobs hot ++ [n]) x) :
    ∃ b, t.node (artifact ++ (blobStore r.cache ++ [n])) = some (.file b) ∧ x = .file b := by
  generalize he : hotBlobs hot ++ [n] = p at hx
  cases hx with
  | @file q _ _ _ =>
    exact absurd (he ▸ List.prefix_append _ [n])
      (h.place.apartBlobs.symm.below List.prefix_rfl (List.prefix_append _ q)).1
  | @link q _ _ _ =>
    exact absurd (he ▸ List.prefix_append _ [n])
      (h.place.apartBlobs.symm.below List.prefix_rfl (List.prefix_append _ q)).1
  | @blob n' b hb =>
    obtain rfl : n = n' := by simpa using he
    exact ⟨b, hb, rfl⟩

theorem conforms (hroot : t.node hot = some .dir)
    (hempty : ∀ q, q ≠ [] → t.node (hot ++ q) = none) : h.layout.Conforms t := by
  have hbelow : ∀ {p}, h.layout.Place p → hot <+: p := by
    rintro p ⟨x, hx⟩
    rcases fit_cases hx with ⟨q, rfl, _⟩ | ⟨n, b, rfl, _⟩
    · exact h.place.below.trans (List.prefix_append _ q)
    · exact (List.prefix_append hot _).trans (List.prefix_append _ [n])
  have hnone : ∀ {p}, hot <+: p → p ≠ hot → t.node p = none := by
    rintro p ⟨q, rfl⟩ hne
    exact hempty q fun he => hne (by rw [he, List.append_nil])
  have hne : ∀ {p}, h.layout.Place p → p ≠ hot := by
    rintro p ⟨x, hx⟩ rfl
    rcases fit_cases hx with ⟨q, hp, _⟩ | ⟨n, b, hp, _⟩
    · obtain ⟨n, rest, hpath⟩ := h.place.inside
      simp [hpath] at hp
    · simp [hotBlobs] at hp
  refine ⟨fun {p x} hp hx => ?_, fun {p q} hp hq hqp => ?_⟩
  · rw [hnone (hbelow hp) (hne hp)] at hx
    cases hx
  · rcases List.prefix_or_prefix_of_prefix hq (hbelow hp) with h' | h'
    · exact FileTree.clear_of_dir hroot q h'
    · by_cases heq : q = hot
      · exact .inr (heq ▸ hroot)
      · exact .inl (hnone h' heq)

/-! ## One entry -/

theorem spared (hc : (restores r hot).Changes Set.univ t t₁) (a : Path) :
    t₁.node (artifact ++ a) = t.node (artifact ++ a) :=
  spares_of_restores hc h.apart h.place.below a

/-- What one entry leaves behind: its place and, for a link, the place of its blob are filled. A
regular file was as the entry says. -/
structure Done (codec : Codec B) (t t' : FileTree B) (r : CacheRequest) (artifact hot : Path)
    (f : ArtifactFile) (q : Path) : Prop where
  present : t'.node (materializedPath hot r.cache ++ q) ≠ none
  blob : f.symlinkTo ≠ "" → t'.node (hotBlob artifact hot f) ≠ none
  verified : f.symlinkTo = "" → ∀ b, t.node (payloadFile r.cache artifact q) = some (.file b) →
    Verified codec b f

/-- What is filled stays filled. -/
structure Grown (L : Layout B) (t t' : FileTree B) : Prop where
  conforms : L.Conforms t'
  kept : ∀ p, L.Place p → t.node p ≠ none → t'.node p ≠ none

omit h in
theorem Grown.of_settled {L : Layout B} {dst : Path} {link : Prop}
    (hs : Settled F L dst link t₁ t₂) (hpresent : t₂.node dst ≠ none) : Grown L t₁ t₂ := by
  refine ⟨hs.conforms, fun p hp hne => ?_⟩
  by_cases hpd : p = dst
  · rwa [hpd]
  · rwa [hs.others p hp hpd]

theorem restorableFile (hf : Entry t r artifact f q) (hempty : f.symlinkTo = "") :
    RestorableFile codec h.layout (restores r hot) t True artifact
      (materializedPath hot r.cache ++ q) f := by
  obtain ⟨b, hb⟩ : ∃ b, t.node (payloadFile r.cache artifact q) = some (.file b) := by
    rcases hf.node with ⟨_, hb⟩ | ⟨target, hl, rfl⟩
    · exact hb
    · obtain ⟨_, _, _, hne, _⟩ := h.blob_of_link hf.ne_nil hl
      exact absurd hempty hne
  have hfits : h.layout.fits (materializedPath hot r.cache ++ q) (.file b) := .file hf.ne_nil hb
  refine ⟨⟨_, hfits⟩, fun b' _ hread => ?_, fun x hx => ?_, ?_,
    FilesRestore.copies_le_restores (List.prefix_append _ q), fun _ => trivial, fun t' hc => ?_⟩
  · rw [hf.payloadPath_eq] at hread
    exact hread b hb ▸ hfits
  · rcases h.fit_entry hx with ⟨b', _, rfl⟩ | ⟨target, hl, _⟩
    · exact ⟨b', rfl⟩
    · rw [hb] at hl
      cases hl
  · rw [hf.payloadPath_eq]
    exact (h.apart.symm.below (List.prefix_append _ _)
      (h.place.below.trans (List.prefix_append _ _))).ne
  · rw [hf.payloadPath_eq]
    exact h.spared hc _

omit h in
/-- The place of a blob is filled. -/
theorem settled_blob {L : Layout B} {source blob : Path} {b : B} (hconf : L.Conforms t₁)
    (hfits : L.fits blob (.file b)) (hsource : t₁.node source = some (.file b))
    (hcopied : BlobCopied source blob t₁ t₂) : Settled F L blob False t₁ t₂ := by
  rcases hcopied.copied with ⟨hne, hkept⟩ | ⟨b', hb', hread⟩
  · have hplace : L.Place blob := ⟨_, hfits⟩
    have hconf₂ : L.Conforms t₂ := hconf.copied hplace hcopied.changes fun x hx =>
      hconf.fits hplace (hkept ▸ hx)
    exact ⟨hconf₂, .inl (hkept ▸ hne), fun p hp hpb =>
      Layout.Conforms.other hplace hcopied.changes hp hpb,
      fun _ => hconf.changes hconf₂ hplace hcopied.changes⟩
  · exact settled_file hconf hcopied.changes hb' (hread b hsource ▸ hfits)

/-- A link is made, with its blob. -/
theorem exits_link (hq : q ≠ [])
    (hl : t.node (payloadFile r.cache artifact q) = some (.link target))
    (hname : ¬ TempNamed F q) (hconf : h.layout.Conforms t₁)
    (hc : (restores r hot).Changes Set.univ t t₁) :
    Safe (fsWorld Set.univ F (restores r hot))
      (restoreLink codec artifact hot (materializedPath hot r.cache ++ q)
        (linkEntry r.cache q target)).prog
      (Exits True fun _ t₂ => Grown h.layout t₁ t₂ ∧
        t₂.node (materializedPath hot r.cache ++ q) ≠ none ∧
        t₂.node (hotBlob artifact hot (linkEntry r.cache q target)) ≠ none)
      t₁ := by
  obtain ⟨n, b, hb, _, _, hsource, hblob⟩ := h.blob_of_link hq hl
  have hlink : h.layout.fits (materializedPath hot r.cache ++ q) (.link (relativeBlobLink
      (materializedPath hot r.cache ++ q)
      (hotBlob artifact hot (linkEntry r.cache q target)))) := .link hq hl
  have hfits : h.layout.fits (hotBlobs hot ++ [n]) (.file b) := .blob hb
  have hdrop : materializedPath hot r.cache <+: (materializedPath hot r.cache ++ q).dropLast := by
    rw [List.dropLast_append_of_ne_nil hq]
    exact List.prefix_append _ _
  have hstore := List.prefix_append (hotBlobs hot) [n]
  rw [hblob] at hlink ⊢
  unfold restoreLink
  rw [hblob]
  refine exits_bind (exits_restoreBlob (by rw [hblob]; exact h.layout.proper hfits)
    (by rw [hblob]; exact h.layout.ne_nil hfits) ?_
    (by rw [hblob]; exact FilesRestore.copies_le_blobs hstore)) fun _ t₂ h₂ => ?_
  · rw [hblob, hsource]
    exact (h.apart.symm.below (List.prefix_append _ _)
      ((List.prefix_append hot _).trans hstore)).ne
  rw [hblob, hsource] at h₂
  have hs : Settled F h.layout (hotBlobs hot ++ [n]) False t₁ t₂ :=
    settled_blob hconf hfits ((h.spared hc _).trans hb) h₂
  refine exits_bind (exits_os (exits_parent (fun _ _ => trivial) hs.conforms ⟨_, hlink⟩
    ((above_le_copies_below hdrop).trans (FilesRestore.copies_le_restores List.prefix_rfl)))) ?_
  rintro _ t₃ ⟨hconf₃, hdir, hsame⟩
  refine exits_mono (exits_os (exits_relink (fun _ _ => trivial) hconf₃ hlink
    (h.layout.proper hfits) ((relinks_le_copies hdrop).trans
      (FilesRestore.copies_le_restores List.prefix_rfl)) hdir)) id ?_
  rintro _ t₄ ⟨hconf₄, hpresent, hother⟩
  -- The link is there unless its own name was drawn, and what was filled before still is.
  have hdst : t₄.node (materializedPath hot r.cache ++ q) ≠ none :=
    hpresent.resolve_right fun htemp => hname ((tempNamed_append _ hq).mp htemp)
  have hkept : ∀ p, h.layout.Place p → t₂.node p ≠ none → t₄.node p ≠ none := fun p hp hne => by
    by_cases hpd : p = materializedPath hot r.cache ++ q
    · rwa [hpd]
    · rwa [hother p hp hpd, hsame p hp]
  have hblob₂ : t₂.node (hotBlobs hot ++ [n]) ≠ none := hs.present.resolve_right fun h => h.1
  exact ⟨⟨hconf₄, fun p hp hne => hkept p hp ((Grown.of_settled hs hblob₂).kept p hp hne)⟩, hdst,
    hkept _ ⟨_, hfits⟩ hblob₂⟩

/-- One entry of the manifest. -/
theorem exits_entry (hf : Entry t r artifact f q) (hname : f.symlinkTo ≠ "" → ¬ TempNamed F q)
    (hconf : h.layout.Conforms t₁) (hc : (restores r hot).Changes Set.univ t t₁) :
    Safe (fsWorld Set.univ F (restores r hot)) (restoreFile codec r artifact hot f).prog
      (Exits True fun _ t₂ => Grown h.layout t₁ t₂ ∧ Done codec t t₂ r artifact hot f q) t₁ := by
  unfold restoreFile
  rw [hf.path, h.place.path hf.proper hf.ne_nil]
  dsimp only
  by_cases hempty : f.symlinkTo = ""
  · rw [if_neg (not_not.mpr hempty), ← hf.path]
    refine exits_mono (exits_restoreRegular False (fun _ _ => trivial) hconf
      ((h.restorableFile hf hempty).later hc)) id ?_
    rintro _ t₂ ⟨hs, hverified⟩
    have hpresent := hs.present.resolve_right fun h => h.1
    refine ⟨Grown.of_settled hs hpresent, hpresent, fun hne => absurd hempty hne, fun _ b hb => ?_⟩
    refine hverified b ?_
    rw [hf.payloadPath_eq, h.spared hc, hb]
  · rw [if_pos hempty]
    rcases hf.node with ⟨he, _⟩ | ⟨target, hl, rfl⟩
    · exact absurd he hempty
    -- Only a link whose text is that of the entry is restored; nothing is compared of its blob.
    refine safe_read (c := .readlink _) trivial (fun t₂ h₂ => ?_) fun _ _ _ => trivial
    split
    · split
      · refine exits_mono (h.exits_link hf.ne_nil hl (hname hempty) (hconf.same h₂)
          (hc.trans (Footprint.changes_of_same h₂))) id ?_
        rintro _ t₃ ⟨hgrown, hpresent, hblob⟩
        refine ⟨⟨hgrown.conforms, fun p hp hne => hgrown.kept p hp ?_⟩, hpresent, fun _ => hblob,
          fun he => absurd he hempty⟩
        rwa [h₂ p trivial]
      · trivial
    · trivial

/-! ## All entries -/

omit h in
theorem Done.later (hd : Done codec t t₁ r artifact hot f q) (h : Restoring t r artifact hot)
    (hf : Entry t r artifact f q) (hgrown : Grown h.layout t₁ t₂) :
    Done codec t t₂ r artifact hot f q := by
  rcases hf.node with ⟨hempty, b, hb⟩ | ⟨target, hl, rfl⟩
  · exact ⟨hgrown.kept _ ⟨_, .file hf.ne_nil hb⟩ hd.present, fun hne => absurd hempty hne,
      hd.verified⟩
  · refine ⟨hgrown.kept _ ⟨_, .link hf.ne_nil hl⟩ hd.present, fun hne => ?_, hd.verified⟩
    obtain ⟨n, b, hb, _, _, _, hblob⟩ := h.blob_of_link hf.ne_nil hl
    refine hgrown.kept _ ?_ (hd.blob hne)
    rw [hblob]
    exact ⟨_, .blob hb⟩

/-- After a restore every entry has its place filled. -/
theorem exits_materialize_entries (codec : Codec B) {manifest : ArtifactManifest}
    (hentries : ∀ f ∈ manifest.files, ∃ q, Entry t r artifact f q ∧
      (f.symlinkTo ≠ "" → ¬ TempNamed F q))
    (hconf : h.layout.Conforms t) :
    Safe (fsWorld Set.univ F (restores r hot)) (materialize codec r artifact hot manifest).prog
      (Exits True fun _ t' => h.layout.Conforms t' ∧ ∀ f ∈ manifest.files, ∃ q,
        Entry t r artifact f q ∧ Done codec t t' r artifact hot f q) t := by
  refine exits_mono (exits_forEach (I := fun done t' => h.layout.Conforms t' ∧
    (restores r hot).Changes Set.univ t t' ∧
    ∀ f ∈ done, ∃ q, Entry t r artifact f q ∧ Done codec t t' r artifact hot f q)
    (fun done f rest hall t₁ h₁ => ?_)
    ⟨hconf, .refl _ _ _, fun _ h => absurd h List.not_mem_nil⟩) id fun _ t' h => ⟨h.1, h.2.2⟩
  obtain ⟨hconf₁, hc₁, hdone⟩ := h₁
  obtain ⟨q, hf, hname⟩ := hentries f (hall ▸ List.mem_append_right _ List.mem_cons_self)
  refine (safe_changes (h.exits_entry hf hname hconf₁ hc₁)).mono ?_
  rintro (e | _) t₂ ⟨h₂, hc₂⟩
  · exact h₂
  obtain ⟨hgrown, hself⟩ := h₂
  refine ⟨hgrown.conforms, hc₁.trans hc₂, fun g hg => ?_⟩
  rcases List.mem_append.mp hg with hg | hg
  · obtain ⟨q', hq', hd⟩ := hdone g hg
    exact ⟨q', hq', hd.later h hq' hgrown⟩
  · obtain rfl := List.mem_singleton.mp hg
    exact ⟨q, hf, hself⟩

/-- What is not a directory can be read. -/
theorem bytes_of_entry (hf : Entry t r artifact f q) :
    ∃ b, bytesAt t (payloadFile r.cache artifact q) = some b := by
  rcases hf.node with ⟨_, b, hb⟩ | ⟨target, hl, _⟩
  · exact ⟨b, bytesAt_file hb⟩
  · obtain ⟨n, b, hb, _, hfollow, _⟩ := h.blob_of_link hf.ne_nil hl
    exact ⟨b, bytesAt_link hl (hfollow ▸ hb)⟩

/-- What is read at the place of an entry is what is read in the artifact. -/
theorem bytes_restored (hconf : h.layout.Conforms t₁) (hf : Entry t r artifact f q)
    (hd : Done codec t t₁ r artifact hot f q) :
    bytesAt t₁ (materializedPath hot r.cache ++ q) =
      bytesAt t (payloadFile r.cache artifact q) := by
  obtain ⟨x, hx⟩ := Option.ne_none_iff_exists'.mp hd.present
  rcases hf.node with ⟨_, b, hb⟩ | ⟨target, hl, rfl⟩
  · rcases h.fit_entry (hconf.fits ⟨_, .file hf.ne_nil hb⟩ hx) with ⟨b', hb', rfl⟩ | ⟨target, hl, _⟩
    · rw [bytesAt_file hx, bytesAt_file hb']
    · rw [hb] at hl
      cases hl
  · obtain ⟨n, b, hb, hne, hfollow, _, hblob⟩ := h.blob_of_link hf.ne_nil hl
    have hplace : h.layout.Place (hotBlobs hot ++ [n]) := ⟨_, .blob hb⟩
    obtain ⟨y, hy⟩ := Option.ne_none_iff_exists'.mp (hd.blob hne)
    rw [hblob] at hy
    obtain ⟨b', hb', rfl⟩ := h.fit_blob (hconf.fits hplace hy)
    rcases h.fit_entry (hconf.fits ⟨_, .link hf.ne_nil hl⟩ hx) with ⟨c, hc, _⟩ | ⟨target', hl', rfl⟩
    · rw [hl] at hc
      cases hc
    · obtain rfl : target = target' := by
        rw [hl] at hl'
        cases hl'
        rfl
      rw [bytesAt_link (b := b') hl (by rw [hfollow, hb'])]
      refine bytesAt_link hx ?_
      rw [hblob, follow_relativeBlobLink hplace.proper, hy]

end

end Restoring

end LlmOperator.Cache
