import LlmOperator.Cache.Roundtrip

/-!
# Restoring file artifacts

The payload of a file artifact lies below `files`, and a restore puts it below the materialization
target. A regular file comes back with the size and the sum of its entry; a link comes back as a
relative link into the blob store of the hot root, from whatever depth it is. Nothing else in the
tree is touched, whatever the hot root and the cold artifact hold by now.
-/

namespace LlmOperator.Cache

open Api Data Data.GoString FileSystem Interaction Safe

variable {B : Type}

/-- `clearMaterialized` and `materialize`, one after the other as in `ensureArtifact`. -/
def clearAndMaterialize (codec : Codec B) (r : CacheRequest) (artifact hot : Path)
    (manifest : ArtifactManifest) : Flow (Fs B) Err Unit := do
  os (clearMaterialized r hot)
  materialize codec r artifact hot manifest

/-- A payload that has nothing but directories outside `files`. -/
structure FilesPayload (t : FileTree B) (payload : Path) : Prop where
  directory : t.node payload = some .dir
  below : ∀ q x, t.node (payload ++ q) = some x → x ≠ .dir → ∃ rest, rest ≠ [] ∧ q = "files" :: rest

/-- An entry for something in the payload. -/
structure FilesEntry (codec : Codec B) (t : FileTree B) (payload : Path) (f : ArtifactFile)
    (q : Path) :
    Prop where
  ne_nil : q ≠ []
  entry : entryOf codec ("files" :: q) (t.node (payload ++ "files" :: q)) = some f

/-- A request for files that go below `gguf`, but not into the blob store. -/
structure FilesRequest (r : CacheRequest) (hot : Path) : Prop where
  kind : r.cache.kind = "huggingface-files"
  target : GoodTarget r.cache.materializationTarget
  outside : ¬ hotBlobs hot <+: materializedPath hot r.cache

/-- What may change: the target, the blob store, and directories above them. -/
def restores (r : CacheRequest) (hot : Path) : Footprint :=
  ⟨{q | materializedPath hot r.cache <+: q ∨ hotBlobs hot <+: q}, ∅,
    {q | q <+: materializedPath hot r.cache ∨ q <+: hotBlobs hot}⟩

/-- What lies apart from the hot root is not touched. -/
theorem spares_of_restores {t t' : FileTree B} {r : CacheRequest} {artifact hot : Path}
    (hc : (restores r hot).Changes Set.univ t t') (h : Apart hot artifact)
    (hbelow : hot <+: materializedPath hot r.cache) (a : Path) :
    t'.node (artifact ++ a) = t.node (artifact ++ a) := by
  have hapart : ∀ p, hot <+: p → Apart p (artifact ++ a) := fun p hp =>
    h.below hp (List.prefix_append artifact a)
  have htarget := hapart _ hbelow
  have hblobs := hapart (hotBlobs hot) (List.prefix_append hot _)
  refine hc.same trivial ?_ id ?_
  · rintro (h' | h')
    · exact htarget.1 h'
    · exact hblobs.1 h'
  · rintro (h' | h')
    · exact htarget.2 h'
    · exact hblobs.2 h'

/-! ## Entries -/

section Entries

variable {codec : Codec B} {t : FileTree B} {payload : Path} {f : ArtifactFile} {q : Path}

section

variable (h : FilesEntry codec t payload f q)
include h

/-- An entry stands for a regular file or for a link. -/
theorem FilesEntry.path : f.path = text ("files" :: q) := by
  rcases entryOf_cases h.entry with ⟨b, _, rfl⟩ | ⟨target, _, rfl⟩ <;> rfl

theorem FilesEntry.present :
    t.node (payload ++ "files" :: q) ≠ none ∧ t.node (payload ++ "files" :: q) ≠ some .dir := by
  rcases entryOf_cases h.entry with ⟨b, hb, _⟩ | ⟨target, hb, _⟩ <;> rw [hb] <;>
    exact ⟨nofun, nofun⟩

theorem FilesEntry.proper : Proper ("files" :: q) :=
  (t.proper _ h.present.1).right

theorem FilesEntry.proper_tail : Proper q := fun n hn =>
  h.proper n (List.mem_cons_of_mem _ hn)

/-- What is regular has a sum, so that an entry with a sum has no link text. -/
theorem FilesEntry.of_sum (hsum : f.sha256 ≠ "") : f.symlinkTo = "" := by
  rcases entryOf_cases h.entry with ⟨b, _, rfl⟩ | ⟨target, _, rfl⟩
  · rfl
  · exact absurd rfl hsum

end

theorem FilesPayload.entry (hpayload : FilesPayload t payload) (h : Listed codec t payload f) :
    ∃ q, FilesEntry codec t payload f q := by
  obtain ⟨q, hq, hentry⟩ := h
  have hleaf : ∃ x, t.node (payload ++ q) = some x ∧ x ≠ .dir := by
    rcases entryOf_cases hentry with ⟨b, hb, _⟩ | ⟨target, hb, _⟩
    · exact ⟨_, hb, nofun⟩
    · exact ⟨_, hb, nofun⟩
  obtain ⟨x, hx, hdir⟩ := hleaf
  obtain ⟨rest, hrest, rfl⟩ := hpayload.below q x hx hdir
  exact ⟨rest, hrest, hentry⟩

/-- No entry lies inside another. -/
theorem FilesEntry.apart {f' : ArtifactFile} {q' : Path} (h : FilesEntry codec t payload f q)
    (h' : FilesEntry codec t payload f' q') (hpre : q <+: q') : q = q' := by
  by_contra hne
  refine h.present.2 (t.dir_above h'.present.1 ?_ fun he => hne ?_)
  · exact (List.prefix_append_right_inj payload).mpr (List.cons_prefix_cons.mpr ⟨rfl, hpre⟩)
  · exact (List.cons.inj (List.append_cancel_left he)).2

end Entries

/-! ## Paths -/

theorem cutPrefix_files {q : Path} (hq : q ≠ []) :
    cutPrefix (text ("files" :: q)) "files/" = some (text q) := by
  obtain ⟨n, rest, rfl⟩ := List.exists_cons_of_ne_nil hq
  have htext : text ("files" :: n :: rest) = "files" ++ "/" ++ text (n :: rest) := rfl
  have hlist : (text ("files" :: n :: rest)).toList =
      "files/".toList ++ (text (n :: rest)).toList := by
    rw [htext, String.toList_append, String.toList_append]
    rfl
  unfold cutPrefix hasPrefix
  rw [hlist, if_pos (List.isPrefixOf_iff_prefix.mpr (List.prefix_append _ _)), List.drop_left,
    String.ofList_toList]

theorem text_ne_empty {q : Path} (hproper : Proper q) (hq : q ≠ []) : text q ≠ "" := fun h => by
  have := hproper.elements_text hq
  rw [h, show elements "" = [""] from rfl] at this
  exact (hproper "" (this ▸ List.mem_singleton_self "")).1 rfl

namespace FilesRequest

variable {r : CacheRequest} {hot artifact : Path} {q : Path}

section

variable (h : FilesRequest r hot)
include h

theorem not_hub : r.cache.kind ≠ "huggingface-hub" := by
  rw [h.kind]
  decide

theorem materialized : ∃ n rest, n ≠ ".blobs" ∧ Proper (n :: rest) ∧
    materializedPath hot r.cache = hot ++ ["gguf"] ++ n :: rest := by
  obtain ⟨rest, hpath, hne, hproper⟩ := materializedPath_files h.not_hub h.target hot
  obtain ⟨n, rest, rfl⟩ := List.exists_cons_of_ne_nil hne
  refine ⟨n, rest, ?_, hproper, by rw [hpath]; simp⟩
  rintro rfl
  refine h.outside ?_
  rw [hpath]
  exact ⟨rest, by simp [hotBlobs]⟩

theorem apartBlobs : Apart (materializedPath hot r.cache) (hotBlobs hot) := by
  obtain ⟨n, rest, hn, _, hpath⟩ := h.materialized
  have := apart_entries (hot ++ ["gguf"]) hn rest []
  rw [hpath]
  simpa [hotBlobs] using this

theorem below : hot <+: materializedPath hot r.cache := by
  obtain ⟨n, rest, _, _, hpath⟩ := h.materialized
  rw [hpath, List.append_assoc]
  exact List.prefix_append _ _

theorem ne_nil : materializedPath hot r.cache ≠ [] := by
  obtain ⟨n, rest, _, _, hpath⟩ := h.materialized
  rw [hpath]
  simp

theorem proper (hhot : Proper hot) : Proper (materializedPath hot r.cache) := by
  obtain ⟨n, rest, _, hproper, hpath⟩ := h.materialized
  rw [hpath]
  exact (hhot.append (by decide)).append hproper

theorem restorePath_eq (hproper : Proper q) (hq : q ≠ []) :
    restorePath r hot (text ("files" :: q)) = some (materializedPath hot r.cache ++ q) := by
  unfold restorePath materializedPath
  rw [if_pos h.kind, cutPrefix_files hq, if_neg h.not_hub]
  dsimp only
  rw [if_neg (text_ne_empty hproper hq), hproper.elements_text hq, join_proper hproper]

end

end FilesRequest

theorem payloadPath_text {q : Path} (hproper : Proper q) (hq : q ≠ []) (artifact : Path) :
    payloadPath artifact (text q) = artifact ++ "payload" :: q := by
  unfold payloadPath
  rw [hproper.elements_text hq, join_proper hproper]
  simp

/-! ## The places -/

/-- What fits the place of an entry. An entry that no bytes agree with is never put in its place. -/
def EntryFits (codec : Codec B) (artifact hot dst : Path) (f : ArtifactFile) (x : Node B) : Prop :=
  (f.symlinkTo = "" ∧ ∃ b, x = .file b ∧ ((∃ b', Verified codec b' f) → Verified codec b f)) ∨
    (f.symlinkTo ≠ "" ∧ x = .link (relativeBlobLink dst (hotBlob artifact hot f)))

/-- A restore of a payload whose inventory is that of `payload` in the tree `t₀`. -/
structure FilesRestore (t₀ : FileTree B) (payload : Path) (r : CacheRequest) (artifact hot : Path) :
    Prop where
  request : FilesRequest r hot
  hotProper : Proper hot
  artifactProper : Proper artifact
  apart : Apart hot artifact

namespace FilesRestore

variable {codec : Codec B} {t₀ t : FileTree B} {payload : Path} {r : CacheRequest}
    {artifact hot : Path}
  {f : ArtifactFile} {q : Path} {F : Chances B}

/-- The places of the entries. -/
def layout (codec : Codec B) (h : FilesRestore t₀ payload r artifact hot) : Layout B where
  fits p x := ∃ f q, FilesEntry codec t₀ payload f q ∧ p = materializedPath hot r.cache ++ q ∧
    EntryFits codec artifact hot p f x
  ne_nil := by
    rintro p x ⟨f, q, _, rfl, _⟩ he
    exact h.request.ne_nil (List.append_eq_nil_iff.mp he).1
  proper := by
    rintro p x ⟨f, q, hf, rfl, _⟩
    exact (h.request.proper h.hotProper).append hf.proper_tail
  leaf := by
    rintro p ⟨f, q, _, _, ⟨_, b, hb, _⟩ | ⟨_, hx⟩⟩
    · cases hb
    · cases hx
  apart := by
    rintro p p' x y ⟨f, q, hf, rfl, _⟩ ⟨f', q', hf', rfl, _⟩ hpre
    rw [hf.apart hf' ((List.prefix_append_right_inj _).mp hpre)]

theorem spared (h : FilesRestore t₀ payload r artifact hot) (a : Path) {t' : FileTree B}
    (hc : (restores r hot).Changes Set.univ t t') :
    t'.node (artifact ++ a) = t.node (artifact ++ a) :=
  spares_of_restores hc h.apart h.request.below a

theorem copies_le_restores {p : Path} (hp : materializedPath hot r.cache <+: p) :
    (copies p).Le (restores r hot) := by
  refine ⟨fun q hq => .inl (hp.trans hq), fun q hq => hq.elim, fun q hq => ?_⟩
  rcases List.prefix_or_prefix_of_prefix hq hp with h | h
  · exact .inl (.inl h)
  · exact .inr (.inl h)

theorem copies_le_blobs {p : Path} (hp : hotBlobs hot <+: p) : (copies p).Le (restores r hot) := by
  refine ⟨fun q hq => .inr (hp.trans hq), fun q hq => hq.elim, fun q hq => ?_⟩
  rcases List.prefix_or_prefix_of_prefix hq hp with h | h
  · exact .inl (.inr h)
  · exact .inr (.inr h)

theorem payload_eq (hf : FilesEntry codec t₀ payload f q) (artifact : Path) :
    payloadPath artifact f.path = artifact ++ "payload" :: "files" :: q := by
  rw [hf.path, payloadPath_text hf.proper (List.cons_ne_nil _ _)]

theorem entry_eq {f' : ArtifactFile} (hf : FilesEntry codec t₀ payload f q)
    (hf' : FilesEntry codec t₀ payload f' q) : f = f' :=
  Option.some.inj (hf.entry.symm.trans hf'.entry)

section

variable (h : FilesRestore t₀ payload r artifact hot) (hf : FilesEntry codec t₀ payload f q)
include h hf

/-- What is at the place of an entry. -/
theorem fits_at {x : Node B} (hx : (h.layout codec).fits (materializedPath hot r.cache ++ q) x) :
    EntryFits codec artifact hot (materializedPath hot r.cache ++ q) f x := by
  obtain ⟨f', q', hf', heq, hx⟩ := hx
  obtain rfl := List.append_cancel_left heq
  rwa [entry_eq hf hf']

theorem restorableFile (hempty : f.symlinkTo = "") :
    RestorableFile codec (h.layout codec) (restores r hot) t True artifact
      (materializedPath hot r.cache ++ q) f := by
  have hfits : ∀ b, ((∃ b', Verified codec b' f) → Verified codec b f) →
      (h.layout codec).fits (materializedPath hot r.cache ++ q) (.file b) := fun b hb =>
    ⟨f, q, hf, rfl, .inl ⟨hempty, b, rfl, hb⟩⟩
  have hplace : (h.layout codec).Place (materializedPath hot r.cache ++ q) := by
    by_cases hv : ∃ b, Verified codec b f
    · exact hv.imp' _ fun b hb => hfits b fun _ => hb
    · exact ⟨_, hfits codec.empty fun h => absurd h hv⟩
  refine ⟨hplace, fun b hv _ => hfits b fun _ => hv, fun x hx => ?_, ?_,
    copies_le_restores (List.prefix_append _ q), fun _ => trivial, fun t' hc => ?_⟩
  · rcases h.fits_at hf hx with ⟨_, b, hb, _⟩ | ⟨hne, _⟩
    · exact ⟨b, hb⟩
    · exact absurd hempty hne
  · rw [payload_eq hf]
    exact (h.apart.symm.below (List.prefix_append _ _)
      (h.request.below.trans (List.prefix_append _ _))).ne
  · rw [payload_eq hf]
    exact h.spared _ hc

theorem hotBlob_eq (hesc : escapes (rel artifact (sourceBlob artifact f)) = false) :
    ∃ n, IsName n ∧ (sourceBlob artifact f).getLast? = some n ∧
      artifact <+: sourceBlob artifact f ∧ hotBlob artifact hot f = hotBlobs hot ++ [n] := by
  have hproper : Proper (sourceBlob artifact f) := by
    refine proper_join_elements ?_ _
    rw [payload_eq hf]
    refine (h.artifactProper.append fun n hn => ?_ :
      Proper (artifact ++ "payload" :: "files" :: q)).below <|
      List.dropLast_prefix _
    rcases List.mem_cons.mp hn with rfl | hn
    · decide
    · exact hf.proper n hn
  have hbelow : artifact <+: sourceBlob artifact f := by
    by_contra hn
    rw [(escapes_rel hproper artifact).mpr hn] at hesc
    cases hesc
  have hne : sourceBlob artifact f ≠ [] := fun he => by
    rw [he] at hbelow
    exact h.apart.2 (List.prefix_nil.mp hbelow ▸ List.nil_prefix)
  refine ⟨(sourceBlob artifact f).getLast hne, hproper _ (List.getLast_mem hne),
    List.getLast?_eq_some_getLast hne, hbelow, ?_⟩
  unfold hotBlob joinBase hotBlobs
  rw [List.getLast?_eq_some_getLast hne]
  rfl

theorem looseLink (hne : f.symlinkTo ≠ "")
    (hesc : escapes (rel artifact (sourceBlob artifact f)) = false) :
    LooseLink (h.layout codec) (restores r hot) artifact hot
      (materializedPath hot r.cache ++ q) f := by
  obtain ⟨n, hn, _, hbelow, hblob⟩ := h.hotBlob_eq hf hesc
  have hstore : hotBlobs hot <+: hotBlob artifact hot f := by
    rw [hblob]
    exact List.prefix_append _ _
  have hdrop : materializedPath hot r.cache <+: (materializedPath hot r.cache ++ q).dropLast := by
    rw [List.dropLast_append_of_ne_nil hf.ne_nil]
    exact List.prefix_append _ _
  refine ⟨⟨f, q, hf, rfl, .inr ⟨hne, rfl⟩⟩, ?_, ?_, ?_, ?_, copies_le_blobs hstore, ?_, ?_⟩
  · rw [hblob]
    exact (h.hotProper.append (by decide)).append (proper_singleton hn)
  · rw [hblob]
    simp
  · exact (h.apart.symm.below hbelow ((List.prefix_append hot _).trans hstore)).ne
  · rintro p ⟨x, f', q', _, rfl, _⟩
    exact h.request.apartBlobs.symm.below hstore (List.prefix_append _ q')
  · exact (relinks_le_copies hdrop).trans (copies_le_restores List.prefix_rfl)
  · exact (above_le_copies_below hdrop).trans (copies_le_restores List.prefix_rfl)

end

theorem conforms (h : FilesRestore t₀ payload r artifact hot)
    (hgone : t.Gone (materializedPath hot r.cache))
    (hclear : t.Clear (materializedPath hot r.cache)) :
    (h.layout codec).Conforms t := by
  refine ⟨?_, ?_⟩
  · rintro p x ⟨y, f, q, _, rfl, _⟩ hx
    rw [hgone _ (List.prefix_append _ q)] at hx
    cases hx
  · rintro p a ⟨y, f, q, _, rfl, _⟩ ha _
    rcases List.prefix_or_prefix_of_prefix ha (List.prefix_append _ q) with h' | h'
    · exact hclear a h'
    · exact .inl (hgone a h')

/-- Something in the way of the target stops the restore at its first entry. -/
theorem exits_restoreFile_blocked (h : FilesRestore t₀ payload r artifact hot)
    (hf : FilesEntry codec t₀ payload f q) (hgone : t.Gone (materializedPath hot r.cache))
    (hblocked : ¬ t.Clear (materializedPath hot r.cache)) :
    Safe (fsWorld Set.univ F (restores r hot)) (restoreFile codec r artifact hot f).prog
      (Exits True fun _ _ => False) t := by
  have hdrop : materializedPath hot r.cache <+: (materializedPath hot r.cache ++ q).dropLast := by
    rw [List.dropLast_append_of_ne_nil hf.ne_nil]
    exact List.prefix_append _ _
  have hproper : Proper (materializedPath hot r.cache ++ q).dropLast :=
    ((h.request.proper h.hotProper).append hf.proper_tail).below <| List.dropLast_prefix _
  -- Between the beginning and `MkdirAll` at most the blob is copied.
  have hmkdir : ∀ t₁, (copies (hotBlobs hot)).Changes Set.univ t t₁ →
      Safe (fsWorld Set.univ F (restores r hot))
        (mkdirAll (materializedPath hot r.cache ++ q).dropLast).prog
          (Exits True fun _ _ => False) t₁ := by
    intro t₁ hc
    have hsame : ∀ p, materializedPath hot r.cache <+: p → t₁.node p = none := fun p hp => by
      have hapart := h.request.apartBlobs.below hp List.prefix_rfl
      rw [hc.same trivial hapart.2 id hapart.1, hgone p hp]
    refine safe_widen ((above_le_copies_below hdrop).trans (copies_le_restores List.prefix_rfl))
      (exits_mkdirAll_blocked hproper (fun hcl => hblocked fun p hp => ?_) fun target ht => ?_)
    · rcases hc p trivial with h' | h' | ⟨h', _⟩ | ⟨_, h', _⟩
      · exact h' ▸ hcl p (hp.trans hdrop)
      · exact absurd (List.IsPrefix.trans h' hp) h.request.outside
      · exact h'.elim
      · exact .inl h'
    · rw [hsame _ hdrop] at ht
      cases ht
  unfold restoreFile
  rw [hf.path, h.request.restorePath_eq hf.proper_tail hf.ne_nil]
  dsimp only
  split
  · rename_i hne
    refine safe_read (c := .readlink _) trivial (fun t₁ h₁ => ?_) fun _ _ _ => trivial
    split
    · rename_i target _
      split
      · cases hesc : escapes (rel artifact (sourceBlob artifact f)) with
        | true =>
          unfold restoreLink restoreBlob
          rw [if_pos hesc]
          trivial
        | false =>
          have hloose := h.looseLink hf hne hesc
          refine exits_bind (exits_restoreBlob_loose hloose) fun _ t₂ hc => ?_
          refine exits_bind (exits_os (hmkdir t₂ ?_)) fun _ _ h => h.elim
          obtain ⟨n, _, _, _, hblob⟩ := h.hotBlob_eq hf hesc
          refine (Footprint.changes_of_same h₁).trans fun p hp => (hc p hp).mono (copies_le ?_)
          rw [hblob]
          exact List.prefix_append _ _
      · trivial
    · trivial
  · refine exits_bind (exits_os (exits_openAny (fun _ => trivial) fun _ => trivial)) ?_
    rintro handle t₁ ⟨_, _, h₁⟩
    exact exits_bind (exits_os (hmkdir t₁ (Footprint.changes_of_same h₁))) fun _ _ h => h.elim

end FilesRestore

/-! ## The restore -/

/-- An entry of the manifest is back below the target: a regular file with the size and the sum of
the entry, a link that leads, from its own directory, to the blob in the store of the hot root. -/
def Restored (codec : Codec B) (r : CacheRequest) (artifact hot : Path) (t : FileTree B)
    (f : ArtifactFile) (q : Path) : Prop :=
  ∃ x, t.node (materializedPath hot r.cache ++ q) = some x ∧
    (f.sha256 ≠ "" → ∃ b, x = .file b ∧ (codec.size b : Int) = f.size ∧ codec.sha256 b = f.sha256) ∧
    (f.symlinkTo ≠ "" → ∃ target n, x = .link target ∧ hasPrefix target "/" = false ∧
      artifact <+: sourceBlob artifact f ∧ (sourceBlob artifact f).getLast? = some n ∧
      FileTree.follow (materializedPath hot r.cache ++ q).dropLast target = hotBlobs hot ++ [n])

section Run

variable {codec : Codec B} {t₀ t : FileTree B} {payload : Path} {r : CacheRequest}
    {artifact hot : Path}
  {f : ArtifactFile} {q : Path} {F : Chances B} {manifest : ArtifactManifest}

theorem restored_of_fits (h : FilesRestore t₀ payload r artifact hot)
    (hf : FilesEntry codec t₀ payload f q) {x : Node B}
    (hx : t.node (materializedPath hot r.cache ++ q) = some x)
    (hfits : EntryFits codec artifact hot (materializedPath hot r.cache ++ q) f x)
    (hesc : f.symlinkTo ≠ "" → escapes (rel artifact (sourceBlob artifact f)) = false) :
    Restored codec r artifact hot t f q := by
  refine ⟨x, hx, fun hsum => ?_, fun hne => ?_⟩
  · have hempty := hf.of_sum hsum
    rcases hfits with ⟨_, b, rfl, hv⟩ | ⟨hne, _⟩
    · have hself : ∃ b', Verified codec b' f := by
        rcases entryOf_cases hf.entry with ⟨b', _, rfl⟩ | ⟨target, _, rfl⟩
        · exact ⟨b', rfl, fun _ => rfl⟩
        · exact absurd rfl hsum
      exact ⟨b, rfl, (hv hself).1, (hv hself).2 hsum⟩
    · exact absurd hempty hne
  · obtain ⟨n, hn, hlast, hbelow, hblob⟩ := h.hotBlob_eq hf (hesc hne)
    have hproper : Proper (hotBlob artifact hot f) := by
      rw [hblob]
      exact (h.hotProper.append (by decide)).append (proper_singleton hn)
    rcases hfits with ⟨hempty, _⟩ | ⟨_, rfl⟩
    · exact absurd hempty hne
    · exact ⟨_, n, rfl, (text_rel _ hproper).2, hbelow, hlast,
        (follow_relativeBlobLink hproper).trans hblob⟩

/-- Every entry is restored; only a link with the name of a temporary one may be missing. -/
theorem exits_clearAndMaterialize (h : FilesRestore t₀ payload r artifact hot)
    (hentries : ∀ f ∈ manifest.files, ∃ q, FilesEntry codec t₀ payload f q) :
    Safe (fsWorld Set.univ F (restores r hot))
      (clearAndMaterialize codec r artifact hot manifest).prog
      (Exits True fun _ t' => ∀ f ∈ manifest.files, ∃ q, FilesEntry codec t₀ payload f q ∧
        (Restored codec r artifact hot t' f q ∨ (f.symlinkTo ≠ "" ∧ TempNamed F q))) t := by
  have hunder : (under (materializedPath hot r.cache)).Le (restores r hot) :=
    ⟨fun q hq => .inl hq, fun q hq => hq.elim, fun q hq => hq.elim⟩
  refine exits_bind (exits_os (safe_widen hunder (exits_removeAll (fun _ _ => trivial)
    h.request.ne_nil (fun _ => trivial) (fun _ => trivial) (.inr (.inr trivial)))))
      fun _ t₁ hgone => ?_
  by_cases hclear : t₁.Clear (materializedPath hot r.cache)
  · have hdst : ∀ {f q}, FilesEntry codec t₀ payload f q →
        restorePath r hot f.path = some (materializedPath hot r.cache ++ q) := fun hf => by
      rw [hf.path, h.request.restorePath_eq hf.proper_tail hf.ne_nil]
    have hconf₁ : (h.layout codec).Conforms t₁ := h.conforms hgone hclear
    refine exits_mono (exits_materialize (fun f => (restorePath r hot f.path).getD [])
      (fun _ _ => trivial) hconf₁ (fun f hf => ?_) (fun f hf hl => ?_) (fun _ _ _ => trivial)
      fun f hf hl hesc => ?_) id ?_
    · obtain ⟨q, hq⟩ := hentries f hf
      rw [hdst hq]
      rfl
    · obtain ⟨q, hq⟩ := hentries f hf
      rw [hdst hq]
      exact h.restorableFile hq hl
    · obtain ⟨q, hq⟩ := hentries f hf
      rw [hdst hq]
      exact h.looseLink hq hl hesc
    · rintro _ t₂ ⟨hconf, _, hall⟩ f hf
      obtain ⟨q, hq⟩ := hentries f hf
      obtain ⟨hpresent, hesc⟩ := hall f hf
      rw [hdst hq] at hpresent
      refine ⟨q, hq, hpresent.imp (fun hsome => ?_) fun ⟨hl, htemp⟩ =>
        ⟨hl, (tempNamed_append _ hq.ne_nil).mp htemp⟩⟩
      obtain ⟨x, hx⟩ := Option.ne_none_iff_exists'.mp hsome
      have hplace : (h.layout codec).Place (materializedPath hot r.cache ++ q) := by
        by_cases hl : f.symlinkTo = ""
        · exact (h.restorableFile (t := t₂) hq hl).place
        · exact ⟨_, (h.looseLink hq hl (hesc hl)).fits⟩
      exact restored_of_fits h hq hx (h.fits_at hq (hconf.fits hplace hx)) hesc
  · unfold materialize
    cases hfiles : manifest.files with
    | nil => exact fun f hf => absurd hf List.not_mem_nil
    | cons f rest =>
      obtain ⟨q, hq⟩ := hentries f (hfiles ▸ List.mem_cons_self)
      exact exits_bind (h.exits_restoreFile_blocked hq hgone hclear) fun _ _ h => h.elim

end Run

/-- The surroundings of a restore, as long as no call of it leads through a link. -/
def straightWorld (F : Chances B) (f : Footprint) : World (Fs B) (FileTree B) :=
  { fsWorld Set.univ F f with exec := fun t => t.ExecStraight F }

/-- A restore of files, after the target was cleared. In every run no call of which leads through a
link, nothing outside the target and the blob store is touched but for directories made above them;
and if it ends well without drawing the name of a link for a temporary one, every entry of the
manifest is back. -/
theorem files_restored_inside (codec : Codec B) (roots : Roots) {F₀ F : Chances B}
    {t₀ t₁ : FileTree B} {payload : Path} {r : CacheRequest} {manifest : ArtifactManifest}
    (haccepted : validCacheRequest r = .ok ()) (hkind : r.cache.kind = "huggingface-files")
    (houtside : ¬ hotBlobs roots.hot <+: materializedPath roots.hot r.cache)
    (hpayload : FilesPayload t₀ payload)
    (hinventory : (artifactInventory codec payload).prog.Ends (fun t => t.Exec F₀) t₀
      (.ok manifest.files) t₁)
    (hnames : ∀ f ∈ manifest.files, f.symlinkTo ≠ "" → ¬ TempNamed F (elements f.path))
    (t : FileTree B) :
    Safe (straightWorld F (restores r roots.hot))
        (clearAndMaterialize codec r (roots.coldArtifact r.cache) roots.hot manifest).prog
        (fun _ _ => True) t ∧
      ∀ t', (clearAndMaterialize codec r (roots.coldArtifact r.cache) roots.hot manifest).prog.Ends
          (fun t => t.ExecStraight F) t (.ok ()) t' →
        (∀ f ∈ manifest.files, ∃ q, f.path = text ("files" :: q) ∧
          Restored codec r (roots.coldArtifact r.cache) roots.hot t' f q) ∧
        ∀ p, ¬ materializedPath roots.hot r.cache <+: p → ¬ hotBlobs roots.hot <+: p →
          t'.node p = t.node p ∨ (t.node p = none ∧ t'.node p = some .dir) := by
  have h : FilesRestore t₀ payload r (roots.coldArtifact r.cache) roots.hot :=
    ⟨⟨hkind, ((validCacheRequest_ok.mp haccepted).files hkind).2.2, houtside⟩, roots.hotProper,
      roots.proper_coldArtifact r.cache, roots.apart.below List.prefix_rfl (List.prefix_append _ _)⟩
  have hwalk : Safe (fsWorld Set.univ F₀ (restores r roots.hot))
      (artifactInventory codec payload).prog
      (Exits True fun l t' => (t₀.node payload = some .dir → ∀ g, g ∈ l ↔
      Listed codec t₀ payload g) ∧
        (∀ g ∈ l, Listed codec t₀ payload g) ∧ Same Set.univ t₀ t') t₀ :=
    exits_artifactInventory (fun _ _ => trivial) (fun _ _ => trivial) fun _ => trivial
  have hentries : ∀ f ∈ manifest.files, ∃ q, FilesEntry codec t₀ payload f q := fun f hf =>
    hpayload.entry ((hwalk.ends hinventory).2.1 f hf)
  have hsafe := exits_clearAndMaterialize (F := F) (t := t) h hentries
  refine ⟨(hsafe.mono fun _ _ _ => trivial).widen (fun _ _ h => h) (fun _ _ _ _ h => h.2)
    fun _ _ _ _ h => h, fun t' hends => ?_⟩
  obtain ⟨hall, hc⟩ := (safe_changes hsafe).ends (hends.mono fun _ _ _ _ h => h.2)
  refine ⟨fun f hf => ?_, fun p htarget hblobs => ?_⟩
  · obtain ⟨q, hq, hrestored | ⟨hl, htemp⟩⟩ := hall f hf
    · exact ⟨q, hq.path, hrestored⟩
    · refine absurd ?_ (hnames f hf hl)
      rw [hq.path, hq.proper.elements_text (List.cons_ne_nil _ _)]
      exact (tempNamed_append ["files"] hq.ne_nil).mpr htemp
  · rcases hc p trivial with h' | (h' | h') | ⟨h', _⟩ | ⟨_, h'⟩
    · exact .inl h'
    · exact absurd h' htarget
    · exact absurd h' hblobs
    · exact h'.elim
    · exact .inr h'

/-! ## An archive with one link -/

def lagunaRequest (file : String) : CacheRequest where
  model := "laguna"
  backend := "llama-cpp"
  cache :=
    { kind := "huggingface-files", repoID := "org/laguna", revision := "main", size := 1,
      files := [file], materializationTarget := "gguf/laguna" }

def lagunaArtifact : Path := ["cold", "artifacts", "huggingface-files-org--laguna-main"]

/-- The artifact with the one file of the request, a link to its blob. -/
def lagunaEntries (file : String) : List (Path × Node Json) :=
  [(["cold"], .dir), (["cold", "artifacts"], .dir), (lagunaArtifact, .dir),
    (lagunaArtifact ++ ["blobs"], .dir),
    (lagunaArtifact ++ ["blobs", "41e0"], .file (.str "weights")),
    (lagunaArtifact ++ ["payload"], .dir), (lagunaArtifact ++ ["payload", "files"], .dir),
    (lagunaArtifact ++ ["payload", "files", file], .link "../../blobs/41e0")]

def lagunaTree (file : String) (h : FileTree.Nested (lagunaEntries file)) : FileTree Json :=
  FileTree.ofEntries (lagunaEntries file) h

theorem filesPayload_laguna (file : String) (h : FileTree.Nested (lagunaEntries file)) :
    FilesPayload (lagunaTree file h) (lagunaArtifact ++ ["payload"]) := by
  refine ⟨rfl, fun q x hq hdir => ?_⟩
  rcases FileTree.ofEntries_cases hq with ⟨hnil, _⟩ | hmem
  · cases hnil
  · simp only [lagunaEntries, lagunaArtifact, List.mem_cons, Prod.mk.injEq, List.cons_append,
      List.nil_append, List.cons.injEq, reduceCtorEq, and_false, false_or, true_and,
      List.not_mem_nil,
      or_false, show ("payload" = "blobs") = False by decide, false_and] at hmem
    rcases hmem with ⟨_, rfl⟩ | ⟨_, rfl⟩ | ⟨rfl, rfl⟩
    · exact absurd rfl hdir
    · exact absurd rfl hdir
    · exact ⟨[file], List.cons_ne_nil _ _, rfl⟩

def lagunaManifest (file : String) : ArtifactManifest :=
  ⟨1, (lagunaRequest file).cache, [⟨"files/" ++ file, 0, "", "../../blobs/41e0"⟩]⟩

theorem nested_laguna : FileTree.Nested (lagunaEntries "laguna.gguf") := by decide +kernel

theorem nested_relink : FileTree.Nested (lagunaEntries ".relink-0") := by decide +kernel

/-- A computed run no call of which leads through a link. -/
theorem straight_apply {α : Type} {p : Prog (Fs B) α} {t : FileTree B}
    (h : p.Along (fun t c => t.straightFor c = true) FileTree.apply t) :
    p.Ends (fun t => t.ExecStraight (.sound B)) t (p.eval FileTree.apply t).1
      (p.eval FileTree.apply t).2 :=
  h.ends fun t c hc => ⟨hc, t.exec_apply _ c⟩

theorem not_tempNamed_laguna {F : Chances Json} :
    ¬ TempNamed F (elements ("files/" ++ "laguna.gguf")) := by
  rintro ⟨_, _, suffix, _, hname⟩
  rw [show elements ("files/" ++ "laguna.gguf") = ["files", "laguna.gguf"] by decide +kernel]
    at hname
  have hlast : "laguna.gguf" = ".relink-" ++ suffix := by simpa using congrArg List.getLast? hname
  have hhead := congrArg (fun n : String => n.toList.head?) hlast
  rw [String.toList_append] at hhead
  exact absurd (Option.some.inj hhead) (by decide)

theorem files_restored_inside_laguna :
    ∃ t', (clearAndMaterialize Codec.documents (lagunaRequest "laguna.gguf") lagunaArtifact ["hot"]
          (lagunaManifest "laguna.gguf")).prog.Ends (fun t => t.ExecStraight (.sound Json))
          (lagunaTree "laguna.gguf" nested_laguna) (.ok ()) t' ∧
      ∀ f ∈ (lagunaManifest "laguna.gguf").files, ∃ q, f.path = text ("files" :: q) ∧
        Restored Codec.documents (lagunaRequest "laguna.gguf") lagunaArtifact ["hot"] t' f q := by
  have hwalk := ends_apply (artifactInventory Codec.documents (lagunaArtifact ++ ["payload"])).prog
    (lagunaTree "laguna.gguf" nested_laguna)
  rw [show (Prog.eval _ _ _).1 = Except.ok (lagunaManifest "laguna.gguf").files by decide +kernel]
    at hwalk
  have hrun := straight_apply
    (p := (clearAndMaterialize Codec.documents (lagunaRequest "laguna.gguf")
    lagunaArtifact ["hot"] (lagunaManifest "laguna.gguf")).prog)
    (t := lagunaTree "laguna.gguf" nested_laguna) (by decide +kernel)
  rw [show (Prog.eval _ _ _).1 = Except.ok () by decide +kernel] at hrun
  have hartifact : hubRoots.coldArtifact (lagunaRequest "laguna.gguf").cache = lagunaArtifact := by
    decide +kernel
  have hinside := files_restored_inside Codec.documents hubRoots (F := .sound Json)
    (r := lagunaRequest "laguna.gguf") (by decide +kernel) rfl (by decide +kernel)
    (filesPayload_laguna "laguna.gguf" nested_laguna) hwalk ?_
      (lagunaTree "laguna.gguf" nested_laguna)
  · rw [hartifact] at hinside
    exact ⟨_, hrun, (hinside.2 _ hrun).1⟩
  · intro f hf _
    obtain rfl := List.mem_singleton.mp hf
    exact not_tempNamed_laguna

/-- A link whose name is drawn for a temporary one is lost, although the restore ends well. -/
theorem files_restore_loses_link :
    validCacheRequest (lagunaRequest ".relink-0") = .ok () ∧
      hubRoots.coldArtifact (lagunaRequest ".relink-0").cache = lagunaArtifact ∧
      FilesPayload (lagunaTree ".relink-0" nested_relink) (lagunaArtifact ++ ["payload"]) ∧
      (∃ t', (artifactInventory Codec.documents (lagunaArtifact ++ ["payload"])).prog.Ends
        (fun t => t.Exec (.sound Json)) (lagunaTree ".relink-0" nested_relink)
        (.ok (lagunaManifest ".relink-0").files) t') ∧
      ∃ t', (clearAndMaterialize Codec.documents (lagunaRequest ".relink-0") lagunaArtifact ["hot"]
          (lagunaManifest ".relink-0")).prog.Ends (fun t => t.ExecStraight (.sound Json))
          (lagunaTree ".relink-0" nested_relink) (.ok ()) t' ∧
        t'.node ["hot", "gguf", "laguna", ".relink-0"] = none := by
  refine ⟨by decide +kernel, by decide +kernel, filesPayload_laguna _ nested_relink, ?_, ?_⟩
  · have hwalk := ends_apply (artifactInventory Codec.documents
      (lagunaArtifact ++ ["payload"])).prog
      (lagunaTree ".relink-0" nested_relink)
    rw [show (Prog.eval _ _ _).1 = Except.ok (lagunaManifest ".relink-0").files by decide +kernel]
      at hwalk
    exact ⟨_, hwalk⟩
  · have hrun := straight_apply
      (p := (clearAndMaterialize Codec.documents (lagunaRequest ".relink-0")
      lagunaArtifact ["hot"] (lagunaManifest ".relink-0")).prog)
      (t := lagunaTree ".relink-0" nested_relink) (by decide +kernel)
    rw [show (Prog.eval _ _ _).1 = Except.ok () by decide +kernel] at hrun
    exact ⟨_, hrun, Option.isNone_iff_eq_none.mp (by decide +kernel)⟩

end LlmOperator.Cache
