import LlmOperator.Cache.ColdHit
import LlmOperator.Cache.RestorePlaces

/-!
# Restoring a damaged archive

After an artifact was archived, bytes of its files may change. A restore compares every regular file
of the payload with the sum in the manifest. A link has no sum there, and the blob it leads to is
copied as it is found. The blobs of a repository are files of the payload themselves, so that a
change of them is found all the same; the blobs of a file artifact lie beside the payload, and what
is restored then is what they hold now.
-/

namespace LlmOperator.Cache

open Api Data Data.GoString FileSystem Interaction Safe

variable {B : Type}

/-! ## Damage -/

/-- The same but for the bytes of regular files. -/
def SameKind (x y : Option (Node B)) : Prop :=
  x = y ∨ ∃ b b', x = some (.file b) ∧ y = some (.file b')

/-- Regular files of the artifact have got other bytes, but not the manifest and the marker. No file
of the payload has got bytes with the sum that it had. -/
structure Damaged (codec : Codec B) (t t' : FileTree B) (artifact : Path) : Prop where
  kinds : ∀ q, SameKind (t.node (artifact ++ q)) (t'.node (artifact ++ q))
  manifest : t'.node (artifact ++ ["artifact.json"]) = t.node (artifact ++ ["artifact.json"])
  marker : t'.node (artifact ++ [".complete"]) = t.node (artifact ++ [".complete"])
  sums : ∀ q b b', t.node (artifact ++ "payload" :: q) = some (.file b) →
    t'.node (artifact ++ "payload" :: q) = some (.file b') → codec.sha256 b = codec.sha256 b' →
      b = b'

/-- A file of the artifact is back, with the bytes that were archived. -/
def Returned (r : CacheRequest) (artifact hot : Path) (t t' : FileTree B) (q : Path) : Prop :=
  ∃ dst b, restorePath r hot (text q) = some dst ∧
    bytesAt t (artifact ++ "payload" :: q) = some b ∧ bytesAt t' dst = some b

section Kinds

variable {t t' : FileTree B} {spec : CacheSpec}

/-- What is not a regular file is the same. -/
theorem SameKind.eq_iff {x y z : Option (Node B)} (h : SameKind x y)
    (hz : ∀ b, z ≠ some (.file b)) : x = z ↔ y = z := by
  rcases h with rfl | ⟨b, b', rfl, rfl⟩
  · exact Iff.rfl
  · exact ⟨fun h => absurd h.symm (hz b), fun h => absurd h.symm (hz b')⟩

theorem SameKind.file {x y : Option (Node B)} (h : SameKind x y) :
    (∃ b, x = some (.file b)) ↔ ∃ b, y = some (.file b) := by
  rcases h with rfl | ⟨b, b', rfl, rfl⟩
  · exact Iff.rfl
  · simp

theorem length_blobStore (spec : CacheSpec) (n : String) :
    2 ≤ (blobStore spec ++ [n]).length := by
  unfold blobStore
  split <;> simp

/-- Another artifact with the same links and regular files at the same places. -/
theorem ArtifactTree.of_kinds {artifact artifact' : Path} (h : ArtifactTree t spec artifact)
    (hkinds : ∀ q, q ≠ ["artifact.json"] → q ≠ [".complete"] →
      SameKind (t.node (artifact ++ q)) (t'.node (artifact' ++ q))) :
    ArtifactTree t' spec artifact' := by
  have hpayload : ∀ q, SameKind (t.node (artifact ++ "payload" :: q))
      (t'.node (artifact' ++ "payload" :: q)) := fun q =>
    hkinds _ (by simp) (by simp)
  refine ⟨((hpayload []).eq_iff (by simp)).mp h.payload, fun q x hx hdir => ?_,
    fun q target hlink => ?_⟩
  · cases hold : t.node (artifact ++ "payload" :: q) with
    | none =>
      rw [((hpayload q).eq_iff (by simp)).mp hold] at hx
      cases hx
    | some y =>
      refine h.below q y hold fun hy => hdir ?_
      rw [((hpayload q).eq_iff (by simp)).mp (hy ▸ hold)] at hx
      exact (Option.some.inj hx).symm
  · obtain ⟨n, b, htarget, hb⟩ := h.links q target (((hpayload q).eq_iff (by simp)).mpr hlink)
    have hlong := length_blobStore spec n
    have hne : ∀ name, blobStore spec ++ [n] ≠ [name] := fun name he => by
      rw [he] at hlong
      simp at hlong
    obtain ⟨b', hb'⟩ := (hkinds _ (hne _) (hne _)).file.mp ⟨b, hb⟩
    exact ⟨n, b', htarget, hb'⟩

/-- Other bytes in a blob beside the payload. -/
theorem damaged_set {codec : Codec B} {artifact : Path} {n : String} {b b' : B}
    (hb : t.node (artifact ++ ["blobs", n]) = some (.file b))
    (h : t.CanSet (artifact ++ ["blobs", n])) :
    Damaged codec t (t.set (artifact ++ ["blobs", n]) (.file b') h) artifact := by
  have hnode : ∀ q, (t.set (artifact ++ ["blobs", n]) (.file b') h).node (artifact ++ q) =
      if q = ["blobs", n] then some (.file b') else t.node (artifact ++ q) := fun q => by
    rw [FileTree.set_node]
    simp only [List.append_cancel_left_eq]
  refine ⟨fun q => ?_, ?_, ?_, fun q c c' hc hc' _ => ?_⟩
  · rw [hnode]
    by_cases hq : q = ["blobs", n]
    · rw [if_pos hq, hq, hb]
      exact .inr ⟨b, b', rfl, rfl⟩
    · rw [if_neg hq]
      exact .inl rfl
  · rw [hnode, if_neg (by simp)]
  · rw [hnode, if_neg (by simp)]
  · rw [hnode, if_neg (by simp), hc] at hc'
    exact Node.file.inj (Option.some.inj hc')

end Kinds

/-! ## The restore of a damaged archive -/

section Run

variable {codec : Codec B} {staged archived t t' : FileTree B} {r : CacheRequest}
  {artifact staging hot : Path} {files : List ArtifactFile} {F : Chances B}

/-- An artifact and the entries of its manifest. -/
structure Filed (codec : Codec B) (t : FileTree B) (r : CacheRequest) (artifact : Path)
    (files : List ArtifactFile) : Prop where
  tree : ArtifactTree t r.cache artifact
  listed : ∀ f, f ∈ files ↔ ∃ q, entryOf codec q (t.node (artifact ++ "payload" :: q)) = some f

theorem Archived.filed (htree : ArtifactTree staged r.cache staging)
    (h : Archived codec r.cache staged staging archived artifact)
    (hsize : IsInt64 r.cache.size) {manifest : ArtifactManifest}
    (hmanifest : manifestIn codec archived artifact r.cache = some manifest) :
    Filed codec archived r artifact manifest.files := by
  obtain ⟨files, hlisted, hnode⟩ := h
  have hsame : ∀ q, archived.node (artifact ++ "payload" :: q) =
      staged.node (staging ++ "payload" :: q) := fun q => by
    rw [hnode, if_neg (by simp), if_neg (by simp)]
  have hhas : HasManifest codec archived artifact ⟨1, r.cache, files⟩ := by
    refine ⟨⟨codec.stamp, ?_⟩, _, (hnode _).trans (if_pos rfl), ?_⟩
    · rw [hnode, if_neg (by simp), if_pos rfl]
    · rw [codec.decode_encode, Option.map_some, decodeManifest_encodeManifest
        (by decide : IsInt64 1) hsize fun f hf => ?_]
      obtain ⟨q, _, hq⟩ := (hlisted htree.payload f).mp hf
      exact entryOf_size hq
  have hfiles : manifest.files = files := by
    rw [hhas.manifestIn] at hmanifest
    split at hmanifest
    · rw [← Option.some.inj hmanifest]
    · cases hmanifest
  refine ⟨htree.of_kinds fun q h₁ h₂ => .inl ?_, fun f => ?_⟩
  · rw [hnode, if_neg h₁, if_neg h₂]
  · rw [hfiles, hlisted htree.payload]
    constructor
    · rintro ⟨q, _, hq⟩
      exact ⟨q, by rw [hsame]; simpa using hq⟩
    · rintro ⟨q, hq⟩
      refine ⟨q, ?_, by rw [hsame] at hq; simpa using hq⟩
      rintro rfl
      rw [hsame, htree.payload] at hq
      cases hq

/-- An entry of the manifest stands for something that is still there. -/
theorem Filed.entry (h : Filed codec archived r artifact files)
    (hdamaged : Damaged codec archived t artifact) {f : ArtifactFile} {q : Path}
    (hf : entryOf codec q (archived.node (artifact ++ "payload" :: q)) = some f) :
    ∃ rest, q = payloadRoot r.cache ++ rest ∧ Restoring.Entry t r artifact f rest := by
  rcases entryOf_cases hf with ⟨b, hb, rfl⟩ | ⟨target, hl, rfl⟩
  · obtain ⟨rest, hne, rfl⟩ := h.tree.below q _ hb (by simp)
    exact ⟨rest, rfl, hne, rfl, .inl ⟨rfl, (hdamaged.kinds _).file.mp ⟨b, hb⟩⟩⟩
  · obtain ⟨rest, hne, rfl⟩ := h.tree.below q _ hl (by simp)
    exact ⟨rest, rfl, hne, rfl, .inr ⟨target, ((hdamaged.kinds _).eq_iff (by simp)).mp hl, rfl⟩⟩

/-- A restore that has ended well. -/
structure Finished (codec : Codec B) (archived t t' : FileTree B) (r : CacheRequest)
    (artifact hot : Path) (files : List ArtifactFile) : Prop where
  filed : Filed codec archived r artifact files
  damaged : Damaged codec archived t artifact
  restoring : Restoring t r artifact hot
  conforms : restoring.layout.Conforms t'
  done : ∀ f ∈ files, ∃ q, Restoring.Entry t r artifact f q ∧
    Restoring.Done codec t t' r artifact hot f q

namespace Finished

variable (h : Finished codec archived t t' r artifact hot files) {f : ArtifactFile} {q : Path}
include h

theorem restoringArchived : Restoring archived r artifact hot :=
  ⟨h.filed.tree, h.restoring.place, h.restoring.hotProper, h.restoring.apart⟩

theorem done_at (hf : entryOf codec q (archived.node (artifact ++ "payload" :: q)) = some f) :
    ∃ rest, q = payloadRoot r.cache ++ rest ∧ Restoring.Entry t r artifact f rest ∧
      Restoring.Done codec t t' r artifact hot f rest := by
  obtain ⟨rest, rfl, hentry⟩ := h.filed.entry h.damaged hf
  obtain ⟨rest', hentry', hdone⟩ := h.done f ((h.filed.listed f).mpr ⟨_, hf⟩)
  have htext := congrArg elements (hentry.path.symm.trans hentry'.path)
  rw [hentry.proper.elements_text (by simp [hentry.ne_nil]),
    hentry'.proper.elements_text (by simp [hentry'.ne_nil])] at htext
  obtain rfl := List.append_cancel_left htext
  exact ⟨rest, rfl, hentry, hdone⟩

/-- The regular files of the payload are as they were, or the restore would have failed. -/
theorem regular_kept {b : B} (hb : archived.node (artifact ++ "payload" :: q) = some (.file b)) :
    t.node (artifact ++ "payload" :: q) = some (.file b) := by
  obtain ⟨rest, rfl, _, hdone⟩ := h.done_at (f := ⟨_, _, _, _⟩) (by rw [hb]; rfl)
  obtain ⟨b', hb'⟩ := (h.damaged.kinds _).file.mp ⟨b, hb⟩
  have hsum := (hdone.verified rfl b' hb').2 (codec.sha256_ne b)
  rw [h.damaged.sums _ b b' hb hb' hsum.symm, hb']

/-- A file is back as it was if it is read in the artifact as it was. -/
theorem returned_iff (hf : entryOf codec q (archived.node (artifact ++ "payload" :: q)) = some f) :
    Returned r artifact hot archived t' q ↔
      bytesAt t (artifact ++ "payload" :: q) = bytesAt archived (artifact ++ "payload" :: q) := by
  obtain ⟨rest, rfl, hentry, hdone⟩ := h.done_at hf
  have hpath := h.restoring.place.path hentry.proper hentry.ne_nil
  have hread := h.restoring.bytes_restored h.conforms hentry hdone
  obtain ⟨b, hb⟩ : ∃ b, bytesAt archived (payloadFile r.cache artifact rest) = some b := by
    refine h.restoringArchived.bytes_of_entry (f := f) ⟨hentry.ne_nil, hentry.path, ?_⟩
    rcases entryOf_cases hf with ⟨b, hb, rfl⟩ | ⟨target, hl, rfl⟩
    · exact .inl ⟨rfl, b, hb⟩
    · exact .inr ⟨target, hl, rfl⟩
  constructor
  · rintro ⟨dst, b', hdst, hold, hnew⟩
    obtain rfl := Option.some.inj (hpath.symm.trans hdst)
    rw [← hread, hnew, hold]
  · intro heq
    exact ⟨_, b, hpath, hb, by rw [hread, heq, hb]⟩

/-- The blob of a link of a repository is a file of the payload. -/
theorem link_kept (hkind : r.cache.kind = "huggingface-hub") {target : String}
    (hl : archived.node (artifact ++ "payload" :: q) = some (.link target)) :
    bytesAt t (artifact ++ "payload" :: q) = bytesAt archived (artifact ++ "payload" :: q) := by
  have hstore : blobStore r.cache = "payload" :: (payloadRoot r.cache ++ ["blobs"]) := by
    unfold blobStore payloadRoot
    rw [if_pos hkind, if_pos hkind]
    rfl
  obtain ⟨rest, hne, rfl⟩ := h.filed.tree.below q _ hl (by simp)
  obtain ⟨n, b, hb, _, hfollow, _⟩ := h.restoringArchived.blob_of_link hne hl
  -- The blob has an entry with a sum of its own.
  have hb' := hb
  rw [hstore, List.cons_append] at hb'
  have hkept := h.regular_kept hb'
  rw [← List.cons_append, ← hstore] at hkept
  rw [bytesAt_link hl (hfollow ▸ hb),
    bytesAt_link (((h.damaged.kinds _).eq_iff (by simp)).mp hl) (hfollow ▸ hkept)]

theorem all_returned_iff :
    (∀ q x, archived.node (artifact ++ "payload" :: q) = some x → x ≠ .dir →
      Returned r artifact hot archived t' q) ↔
    (r.cache.kind = "huggingface-hub" ∨ ∀ q target,
      archived.node (artifact ++ "payload" :: q) = some (.link target) →
        bytesAt t (artifact ++ "payload" :: q) =
          bytesAt archived (artifact ++ "payload" :: q)) := by
  constructor
  · intro hall
    refine .inr fun q target hl => ?_
    refine (h.returned_iff (f := ⟨_, _, _, _⟩) (by rw [hl]; rfl)).mp ?_
    exact hall q _ hl (by simp)
  · intro hkept q x hx hdir
    cases x with
    | dir => exact absurd rfl hdir
    | file b =>
      refine (h.returned_iff (f := ⟨_, _, _, _⟩) (by rw [hx]; rfl)).mpr ?_
      rw [bytesAt_file hx, bytesAt_file (h.regular_kept hx)]
    | link target =>
      refine (h.returned_iff (f := ⟨_, _, _, _⟩) (by rw [hx]; rfl)).mpr ?_
      rcases hkept with hkind | hkept
      · exact h.link_kept hkind hx
      · exact hkept q target hx

end Finished

end Run

def lagunaStaging : Path := stagingAt lagunaArtifact "0"

/-- The archive is staged, and the hot root is empty. -/
def stagedEntries : List (Path × Node Json) :=
  [(["hot"], .dir), (["cold"], .dir), (["cold", "artifacts"], .dir), (lagunaStaging, .dir),
    (lagunaStaging ++ ["blobs"], .dir),
    (lagunaStaging ++ ["blobs", "41e0"], .file (.str "weights")),
    (lagunaStaging ++ ["payload"], .dir), (lagunaStaging ++ ["payload", "files"], .dir),
    (lagunaStaging ++ ["payload", "files", "laguna.gguf"], .link "../../blobs/41e0")]

theorem nested_staged : FileTree.Nested stagedEntries := by decide +kernel

def lagunaStaged : FileTree Json := FileTree.ofEntries stagedEntries nested_staged

def lagunaArchived : FileTree Json :=
  ((archiveStaged Codec.documents (lagunaRequest "laguna.gguf").cache lagunaStaging
    lagunaArtifact).prog.eval FileTree.apply lagunaStaged).2

def lagunaBlob : Path := lagunaArtifact ++ ["blobs", "41e0"]

theorem canSet_blob : lagunaArchived.CanSet lagunaBlob := by decide +kernel

/-- The archive with other bytes in its blob. -/
def lagunaNow (bytes : String) : FileTree Json :=
  lagunaArchived.set lagunaBlob (.file (.str bytes)) canSet_blob

theorem archived_laguna : (archiveStaged Codec.documents (lagunaRequest "laguna.gguf").cache
    lagunaStaging lagunaArtifact).prog.Ends (fun t => t.ExecStraight (.sound Json)) lagunaStaged
      (.ok ()) lagunaArchived := by
  have hrun := straight_apply (p := (archiveStaged Codec.documents
    (lagunaRequest "laguna.gguf").cache lagunaStaging lagunaArtifact).prog) (t := lagunaStaged)
    (by decide +kernel)
  rwa [show (Prog.eval _ _ _).1 = Except.ok () by decide +kernel] at hrun

theorem artifactTree_staged :
    ArtifactTree lagunaStaged (lagunaRequest "laguna.gguf").cache lagunaStaging := by
  have hentries : ∀ q x, lagunaStaged.node (lagunaStaging ++ "payload" :: q) = some x →
      x = .dir ∨ (q = ["files", "laguna.gguf"] ∧ x = .link "../../blobs/41e0") := by
    intro q x hq
    rcases FileTree.ofEntries_cases hq with ⟨hnil, _⟩ | hmem
    · cases hnil
    · simp only [stagedEntries, List.mem_cons, Prod.mk.injEq, List.append_cancel_left_eq,
        List.cons.injEq, List.append_right_eq_self, reduceCtorEq, List.not_mem_nil, or_false,
        false_and, false_or, true_and, show ("payload" = "blobs") = False by decide] at hmem
      tauto
  refine ⟨rfl, fun q x hx hdir => ?_, fun q target hl => ?_⟩
  · obtain ⟨rfl, _⟩ := (hentries q x hx).resolve_left hdir
    exact ⟨["laguna.gguf"], List.cons_ne_nil _ _, by decide +kernel⟩
  · obtain ⟨rfl, ht⟩ := (hentries q _ hl).resolve_left (by simp)
    exact ⟨"41e0", .str "weights", (Node.link.inj ht).trans (by decide +kernel), rfl⟩

theorem coldArtifact_laguna :
    hubRoots.coldArtifact (lagunaRequest "laguna.gguf").cache = lagunaArtifact := by
  decide +kernel

theorem blob_laguna : lagunaArchived.node lagunaBlob = some (.file (.str "weights")) := by
  obtain ⟨_, _, _, hnode⟩ := (exits_archiveStaged (X := Set.univ) (F := .sound Json) (E := True)
    rfl (fun _ _ => trivial) (fun _ _ => trivial) (by decide +kernel) (by decide +kernel) rfl
    (fun _ => trivial) rfl rfl fun _ _ => trivial).ends
    (archived_laguna.mono fun _ _ _ _ h => h.2)
  unfold lagunaBlob
  rw [hnode, if_neg (by simp), if_neg (by simp)]
  rfl

theorem damaged_laguna (bytes : String) :
    Damaged Codec.documents lagunaArchived (lagunaNow bytes) lagunaArtifact :=
  damaged_set blob_laguna canSet_blob

theorem empty_laguna (bytes : String) (q : Path) (hq : q ≠ []) :
    (lagunaNow bytes).node (["hot"] ++ q) = none := by
  have hpaths : ∀ p ∈ lagunaBlob :: lagunaArchived.paths, ["hot"] <+: p → p = ["hot"] := by
    decide +kernel
  by_contra hne
  have := hpaths _ ((lagunaNow bytes).listed _ hne) (List.prefix_append _ q)
  exact hq (List.append_right_eq_self.mp this)

/-- The text in a document. -/
def textOf : Option Json → Option String
  | some (.str s) => some s
  | _ => none

theorem eq_of_textOf {x : Option Json} {s : String} (h : textOf x = some s) :
    x = some (.str s) := by
  unfold textOf at h
  split at h
  · rw [Option.some.inj h]
  · cases h

theorem manifest_laguna : ∃ manifest, manifestIn Codec.documents lagunaArchived lagunaArtifact
      (lagunaRequest "laguna.gguf").cache = some manifest ∧
    manifest.files = (lagunaManifest "laguna.gguf").files :=
  Option.map_eq_some_iff.mp (by decide +kernel)

def lagunaRestore : Prog (Fs Json) (Except Err Unit) :=
  (materialize Codec.documents (lagunaRequest "laguna.gguf") lagunaArtifact ["hot"]
    (lagunaManifest "laguna.gguf")).prog

/-- A computed run is one for the manifest that is found. -/
theorem restored_laguna {bytes : String} {manifest : ArtifactManifest}
    (hfiles : manifest.files = (lagunaManifest "laguna.gguf").files)
    (hstraight : lagunaRestore.Along (fun t c => t.straightFor c = true) FileTree.apply
      (lagunaNow bytes))
    (hok : (lagunaRestore.eval FileTree.apply (lagunaNow bytes)).1 = .ok ()) :
    (materialize Codec.documents (lagunaRequest "laguna.gguf") lagunaArtifact ["hot"]
      manifest).prog.Ends (fun t => t.ExecStraight (.sound Json)) (lagunaNow bytes) (.ok ())
        (lagunaRestore.eval FileTree.apply (lagunaNow bytes)).2 := by
  have hrun := straight_apply hstraight
  rw [hok] at hrun
  unfold materialize
  rw [hfiles]
  exact hrun

end LlmOperator.Cache
