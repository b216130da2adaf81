import LlmOperator.Cache.Restore

/-!
# Restoring hub artifacts

The tree of a hub artifact holds blobs and links that lead, relatively, to the blobs of the tree
itself. A restore has a place for everything in the tree, below the directory of the repository.
-/

namespace LlmOperator.Cache

open Api Data FileSystem Interaction Safe

variable {B : Type} {x : Node B} {n : String}

/-- The tree of a hub artifact: every link leads to a blob of the tree, by the relative path that
Hugging Face writes. -/
structure HubTree (t : FileTree B) (p : Path) : Prop where
  directory : t.node p = some .dir
  nonempty : ∃ q b, t.node (p ++ q) = some (.file b)
  links : ∀ q target, t.node (p ++ q) = some (.link target) →
    ∃ n b, target = relativeBlobLink q ["blobs", n] ∧ t.node (p ++ ["blobs", n]) = some (.file b)

section Trees

variable {t t' : FileTree B} {p p' : Path}

theorem HubTree.ne_nil (h : HubTree t p) {q : Path} (hq : t.node (p ++ q) = some x)
    (hx : x ≠ .dir) :
    q ≠ [] := by
  rintro rfl
  rw [List.append_nil, h.directory] at hq
  exact hx (Option.some.inj hq).symm

/-- The same tree elsewhere. -/
theorem HubTree.copy (h : HubTree t p) (hsame : ∀ q, t'.node (p' ++ q) = t.node (p ++ q)) :
    HubTree t' p' where
  directory := by
    have hdir := hsame []
    rwa [List.append_nil, List.append_nil, h.directory] at hdir
  nonempty := by
    obtain ⟨q, b, hb⟩ := h.nonempty
    exact ⟨q, b, (hsame q).trans hb⟩
  links q target hq := by
    obtain ⟨n, b, htarget, hb⟩ := h.links q target ((hsame q).symm.trans hq)
    exact ⟨n, b, htarget, (hsame _).trans hb⟩

/-- The text of a link leads to the blob wherever the tree is. -/
theorem join_hubLink {q : Path} (hn : IsName n) :
    join (p ++ q.dropLast) (elements (relativeBlobLink q ["blobs", n])) = p ++ ["blobs", n] := by
  have hproper : Proper ["blobs", n] := by
    intro m hm
    simp only [List.mem_cons, List.not_mem_nil, or_false] at hm
    rcases hm with rfl | rfl
    · decide
    · exact hn
  unfold relativeBlobLink
  rw [elements_text (rel_ne_nil _ _) (slash_notMem_rel _ hproper)]
  unfold rel
  have hj := join_relElements hproper p q.dropLast
  split
  · rename_i he
    rw [he, join_nil] at hj
    rw [← hj]
    rfl
  · exact hj

theorem hubLink_ne_empty (q : Path) (hn : IsName n) : relativeBlobLink q ["blobs", n] ≠ "" := by
  refine (text_rel q.dropLast (fun m hm => ?_ : Proper ["blobs", n])).1
  simp only [List.mem_cons, List.not_mem_nil, or_false] at hm
  rcases hm with rfl | rfl
  · decide
  · exact hn

/-- The blob of a link has a name. -/
theorem isName_blob {b : B} (h : t.node (p ++ ["blobs", n]) = some (.file b)) : IsName n :=
  t.proper _ (by rw [h]; exact Option.some_ne_none _) n (by simp)

end Trees

/-- What fits where in a restored tree: the files and the links of the payload, the links with new
texts. -/
inductive HubFit (t : FileTree B) (src dst blobs : Path) : Path → Node B → Prop
  | file {q : Path} {b : B} (h : t.node (src ++ q) = some (.file b)) :
      HubFit t src dst blobs (dst ++ q) (.file b)
  | link {q : Path} {n : String}
      (h : t.node (src ++ q) = some (.link (relativeBlobLink q ["blobs", n]))) (hn : IsName n) :
      HubFit t src dst blobs (dst ++ q) (.link (relativeBlobLink (dst ++ q) (blobs ++ [n])))

section Layout

variable {t : FileTree B} {src dst blobs : Path}

theorem HubFit.cases {p : Path} (hp : HubFit t src dst blobs p x) :
    ∃ q, p = dst ++ q ∧ t.node (src ++ q) ≠ none ∧ t.node (src ++ q) ≠ some .dir := by
  cases hp with
  | file h => exact ⟨_, rfl, by rw [h]; exact Option.some_ne_none _,
      by rw [h]; exact fun h => nomatch h⟩
  | link h _ => exact ⟨_, rfl, by rw [h]; exact Option.some_ne_none _,
      by rw [h]; exact fun h => nomatch h⟩

/-- The layout of a restored tree. -/
def hubLayout (t : FileTree B) {src dst : Path} (blobs : Path) (hroot : t.node src = some .dir)
    (hdst : Proper dst) : Layout B where
  fits := HubFit t src dst blobs
  ne_nil hp := by
    obtain ⟨q, rfl, _, hleaf⟩ := hp.cases
    intro he
    obtain rfl := (List.append_eq_nil_iff.mp he).2
    rw [List.append_nil] at hleaf
    exact hleaf hroot
  proper hp := by
    obtain ⟨q, rfl, hsome, _⟩ := hp.cases
    exact hdst.append (t.proper _ hsome).right
  leaf p hp := by cases hp
  apart {p q x y} hp hq hpq := by
    obtain ⟨a, rfl, _, hleaf⟩ := hp.cases
    obtain ⟨b, rfl, hsome, _⟩ := hq.cases
    by_contra hne
    have hpre := (List.prefix_append_right_inj dst).mp hpq
    exact hleaf (t.dir_above hsome ((List.prefix_append_right_inj src).mpr hpre) fun he =>
      hne (by rw [List.append_cancel_left he]))

/-- At a place in the tree there is what the payload has there. -/
theorem HubFit.at_dst {q : Path} (hp : HubFit t src dst blobs (dst ++ q) x) :
    (∃ b, t.node (src ++ q) = some (.file b) ∧ x = .file b) ∨
      ∃ n, IsName n ∧ t.node (src ++ q) = some (.link (relativeBlobLink q ["blobs", n])) ∧
        x = .link (relativeBlobLink (dst ++ q) (blobs ++ [n])) := by
  generalize he : dst ++ q = p at hp
  cases hp with
  | @file q' b h =>
    obtain rfl := List.append_cancel_left he
    exact .inl ⟨b, h, rfl⟩
  | @link q' n h hn =>
    obtain rfl := List.append_cancel_left he
    exact .inr ⟨n, hn, h, rfl⟩

end Layout

/-! ## The entries of the manifest -/

/-- A hub artifact that can be restored, with nothing in its place. -/
structure HubRestore (t : FileTree B) (r : CacheRequest) (artifact hot : Path) : Prop where
  kind : r.cache.kind = "huggingface-hub"
  hotProper : Proper hot
  apart : Apart hot artifact
  tree : HubTree t (artifact ++ hubPayload r.cache)
  gone : t.Gone (materializedPath hot r.cache)
  clear : t.Clear (materializedPath hot r.cache)

/-- An entry for something in the payload. -/
def HubEntry (codec : Codec B) (t : FileTree B) (spec : CacheSpec) (artifact : Path)
    (f : ArtifactFile) (q : Path) : Prop :=
  entryOf codec ("hub" :: hubDirectory spec.repoID :: q)
    (t.node (artifact ++ hubPayload spec ++ q)) =
    some f

namespace HubRestore

variable {t : FileTree B} {r : CacheRequest} {artifact hot : Path} {codec : Codec B} {E : Prop}
  {f : ArtifactFile} {q : Path}

section

variable (h : HubRestore t r artifact hot)
include h

theorem materialized : materializedPath hot r.cache = hot ++ ["hub", hubDirectory r.cache.repoID] :=
  materializedPath_hub h.kind hot

theorem below : hot <+: materializedPath hot r.cache := by
  rw [h.materialized]
  exact List.prefix_append _ _

theorem properDst : Proper (materializedPath hot r.cache) := by
  rw [h.materialized]
  refine h.hotProper.append fun n hn => ?_
  simp only [List.mem_cons, List.not_mem_nil, or_false] at hn
  rcases hn with rfl | rfl
  · decide
  · exact isName_hubDirectory _

theorem properBlobs : Proper (hotBlobs hot) :=
  h.hotProper.append (by decide)

theorem apartBlobs : Apart (materializedPath hot r.cache) (hotBlobs hot) := by
  rw [h.materialized]
  exact apart_entries hot (by decide) _ _

end

/-- The layout of the restored artifact. -/
def layout (h : HubRestore t r artifact hot) : Layout B :=
  hubLayout t (hotBlobs hot) h.tree.directory h.properDst

/-- Nothing in the artifact is below the hot root or above it. -/
theorem apartPayload (h : HubRestore t r artifact hot) (a : Path) : Apart (artifact ++ a) hot :=
  h.apart.symm.below (List.prefix_append artifact a) List.prefix_rfl

theorem spared (h : HubRestore t r artifact hot) (a : Path) {t' : FileTree B}
    (hc : (copies hot).Changes Set.univ t t') :
    t'.node (artifact ++ a) = t.node (artifact ++ a) :=
  hc.same trivial (h.apartPayload a).2 id (h.apartPayload a).1

theorem proper_entry
    (hq : t.node (artifact ++ hubPayload r.cache ++ q) ≠ none) :
    Proper ("hub" :: hubDirectory r.cache.repoID :: q) := by
  have := (t.proper _ hq).right
  intro n hn
  simp only [List.mem_cons] at hn
  rcases hn with rfl | rfl | hn
  · decide
  · exact isName_hubDirectory _
  · exact this n hn

theorem payloadPath_eq
    (hq : t.node (artifact ++ hubPayload r.cache ++ q) ≠ none) :
    payloadPath artifact (text ("hub" :: hubDirectory r.cache.repoID :: q)) =
      artifact ++ hubPayload r.cache ++ q := by
  have hproper := proper_entry hq
  unfold payloadPath
  rw [hproper.elements_text (List.cons_ne_nil _ _), join_proper hproper]
  simp [hubPayload]

theorem restorePath_eq (h : HubRestore t r artifact hot)
    (hq : t.node (artifact ++ hubPayload r.cache ++ q) ≠ none) :
    restorePath r hot (text ("hub" :: hubDirectory r.cache.repoID :: q)) =
      some (materializedPath hot r.cache ++ q) := by
  have hproper := proper_entry hq
  unfold restorePath
  rw [if_neg (by rw [h.kind]; decide), hproper.elements_text (List.cons_ne_nil _ _),
    join_proper hproper, h.materialized]
  simp

theorem mem_entry (h : HubEntry codec t r.cache artifact f q) :
    f.path = text ("hub" :: hubDirectory r.cache.repoID :: q) ∧
      t.node (artifact ++ hubPayload r.cache ++ q) ≠ none := by
  rcases entryOf_cases h with ⟨b, hb, rfl⟩ | ⟨target, hlink, rfl⟩
  · exact ⟨rfl, by rw [hb]; exact Option.some_ne_none _⟩
  · exact ⟨rfl, by rw [hlink]; exact Option.some_ne_none _⟩

section

variable (h : HubRestore t r artifact hot) (hf : HubEntry codec t r.cache artifact f q)
include h hf

theorem restorableFile (hempty : f.symlinkTo = "") :
    RestorableFile codec h.layout (copies hot) t E artifact
      (materializedPath hot r.cache ++ q) f := by
  obtain ⟨hpath, hsome⟩ := mem_entry hf
  have hpay : payloadPath artifact f.path = artifact ++ hubPayload r.cache ++ q := by
    rw [hpath, payloadPath_eq hsome]
  obtain ⟨b, hb, hv⟩ : ∃ b, t.node (artifact ++ hubPayload r.cache ++ q) = some (.file b) ∧
      Verified codec b f := by
    rcases entryOf_cases hf with ⟨b, hb, rfl⟩ | ⟨target, hlink, rfl⟩
    · exact ⟨b, hb, rfl, fun _ => rfl⟩
    · -- A link has a text.
      obtain ⟨n, b, htarget, hb⟩ := h.tree.links q target hlink
      exact absurd (htarget.symm.trans hempty) (hubLink_ne_empty q (isName_blob hb))
  refine ⟨⟨_, .file hb⟩, fun b' _ hread => ?_, fun y hy => ?_, ?_, copies_le (h.below.trans
    (List.prefix_append _ q)), fun hn => absurd ⟨b, hpay ▸ hb, hv⟩ hn, fun t' hc => ?_⟩
  · rw [hpay] at hread
    rw [hread b hb]
    exact .file hb
  · rcases HubFit.at_dst hy with ⟨b', _, rfl⟩ | ⟨n, _, hn, _⟩
    · exact ⟨b', rfl⟩
    · rw [hb] at hn
      cases hn
  · rw [hpay, List.append_assoc]
    exact ((h.apartPayload _).below List.prefix_rfl (h.below.trans (List.prefix_append _ q))).ne
  · rw [hpay, List.append_assoc]
    exact h.spared _ hc

theorem linkEntry (hne : f.symlinkTo ≠ "") : ∃ n, IsName n ∧
      t.node (artifact ++ hubPayload r.cache ++ q) =
        some (.link (relativeBlobLink q ["blobs", n])) ∧
      sourceBlob artifact f = artifact ++ hubPayload r.cache ++ ["blobs", n] ∧
      hotBlob artifact hot f = hotBlobs hot ++ [n] := by
  obtain ⟨hpath, hsome⟩ := mem_entry hf
  rcases entryOf_cases hf with ⟨b, _, rfl⟩ | ⟨target, hlink, heq⟩
  · exact absurd rfl hne
  · obtain ⟨n, b, rfl, hb⟩ := h.tree.links q target hlink
    have hn := isName_blob hb
    have hq : q ≠ [] := h.tree.ne_nil hlink fun h => nomatch h
    have hto : f.symlinkTo = relativeBlobLink q ["blobs", n] := by rw [heq]
    have hsource : sourceBlob artifact f = artifact ++ hubPayload r.cache ++ ["blobs", n] := by
      unfold sourceBlob
      rw [hpath, payloadPath_eq hsome, hto, List.dropLast_append_of_ne_nil hq, join_hubLink hn]
    refine ⟨n, hn, hlink, hsource, ?_⟩
    unfold hotBlob joinBase hotBlobs
    rw [hsource]
    simp

theorem looseLink (hne : f.symlinkTo ≠ "") :
    LooseLink h.layout (copies hot) artifact hot (materializedPath hot r.cache ++ q) f := by
  obtain ⟨n, hn, hlink, hsource, hblob⟩ := h.linkEntry hf hne
  have hq : q ≠ [] := h.tree.ne_nil hlink fun h => nomatch h
  have hdrop : hot <+: (materializedPath hot r.cache ++ q).dropLast := by
    rw [List.dropLast_append_of_ne_nil hq]
    exact h.below.trans (List.prefix_append _ _)
  have hstore : hot <+: hotBlobs hot ++ [n] :=
    (List.prefix_append hot _).trans (List.prefix_append _ _)
  rw [← hblob] at hstore
  refine ⟨?_, ?_, ?_, ?_, fun p hp => ?_, copies_le hstore, relinks_le_copies hdrop,
    above_le_copies_below hdrop⟩
  · rw [hblob]
    exact .link hlink hn
  · rw [hblob]
    exact h.properBlobs.append (proper_singleton hn)
  · rw [hblob]
    simp
  · rw [hsource, List.append_assoc]
    exact ((h.apartPayload _).below List.prefix_rfl hstore).ne
  · obtain ⟨x, hx⟩ := hp
    obtain ⟨q', rfl, _⟩ := hx.cases
    rw [hblob]
    exact h.apartBlobs.symm.below (List.prefix_append _ _) (List.prefix_append _ _)

end

/-- The new text of a link leads elsewhere. -/
theorem relink_ne (h : HubRestore t r artifact hot) {m : String} (hq : q ≠ []) (hn : IsName n)
    (hm : IsName m) : relativeBlobLink q ["blobs", n] ≠
      relativeBlobLink (materializedPath hot r.cache ++ q) (hotBlobs hot ++ [m]) := by
  intro he
  rw [← relativeBlobLink_common (materializedPath hot r.cache) hq] at he
  have hproper : Proper (materializedPath hot r.cache ++ ["blobs", n]) := by
    refine h.properDst.append fun m hm => ?_
    simp only [List.mem_cons, List.not_mem_nil, or_false] at hm
    rcases hm with rfl | rfl
    · decide
    · exact hn
  have hfollow := congrArg (FileTree.follow (materializedPath hot r.cache ++ q).dropLast) he
  rw [follow_relativeBlobLink hproper,
    follow_relativeBlobLink (h.properBlobs.append (proper_singleton hm))] at hfollow
  exact (h.apartBlobs.below (List.prefix_append _ _) (List.prefix_append _ _)).ne hfollow

theorem conforms (h : HubRestore t r artifact hot) : h.layout.Conforms t := by
  refine ⟨fun {p x} hp hx => ?_, fun {p a} hp ha hne => ?_⟩
  · obtain ⟨y, hy⟩ := hp
    obtain ⟨q, rfl, _⟩ := hy.cases
    rw [h.gone _ (List.prefix_append _ q)] at hx
    cases hx
  · obtain ⟨y, hy⟩ := hp
    obtain ⟨q, rfl, _⟩ := hy.cases
    rcases List.prefix_or_prefix_of_prefix ha (List.prefix_append _ q) with h' | h'
    · exact h.clear a h'
    · exact .inl (h.gone a h')

variable {F : Chances B} {manifest : ArtifactManifest}

/-- Whatever is in the blob store, a restore puts only what fits into the tree, and without links it
puts everything there. -/
theorem exits_materialize (h : HubRestore t r artifact hot) (hF : ∀ c, F c → E)
    (hentries : ∀ f ∈ manifest.files, ∃ q, HubEntry codec t r.cache artifact f q)
    (hE : ∀ f ∈ manifest.files, f.symlinkTo ≠ "" → E) :
    Safe (fsWorld Set.univ F (copies hot)) (materialize codec r artifact hot manifest).prog
      (Exits E fun _ t' => h.layout.Conforms t' ∧ (E ∨ (h.layout.footprint.Changes Set.univ t t' ∧
        ∀ f ∈ manifest.files, ∀ q, HubEntry codec t r.cache artifact f q →
          t'.node (materializedPath hot r.cache ++ q) ≠ none))) t := by
  have hpath : ∀ {f q}, HubEntry codec t r.cache artifact f q →
      restorePath r hot f.path = some (materializedPath hot r.cache ++ q) := fun hf => by
    obtain ⟨hp, hsome⟩ := mem_entry hf
    rw [hp, h.restorePath_eq hsome]
  refine exits_mono (Cache.exits_materialize (fun f => (restorePath r hot f.path).getD []) hF
    h.conforms (fun f hf => ?_) (fun f hf hl => ?_) hE fun f hf hl _ => ?_) id ?_
  · obtain ⟨q, hq⟩ := hentries f hf
    rw [hpath hq]
    rfl
  · obtain ⟨q, hq⟩ := hentries f hf
    rw [hpath hq]
    exact h.restorableFile hq hl
  · obtain ⟨q, hq⟩ := hentries f hf
    rw [hpath hq]
    exact h.looseLink hq hl
  · rintro _ t' ⟨hconf, hc, hall⟩
    refine ⟨hconf, or_iff_not_imp_left.mpr fun hn => ⟨hc.resolve_left hn, fun f hf q hq => ?_⟩⟩
    have hpresent := (hall f hf).1.resolve_right fun hl => hn (hE f hf hl.1)
    rwa [hpath hq] at hpresent

end HubRestore

end LlmOperator.Cache
