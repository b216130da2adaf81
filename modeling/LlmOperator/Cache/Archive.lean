import LlmOperator.Cache.Layout

/-!
# Cold artifacts

How the cache manager archives a hot artifact: the inventory of a payload, the manifest, the marker
file, and `archiveHot`, which stages a copy beside its destination and renames it into place.
-/

namespace LlmOperator.Cache

open Api Data FileSystem Interaction Safe

variable {B : Type} {q staging : Path} {spec : CacheSpec}

/-! ## The programs -/

section

variable (codec : Codec B)

/-- One entry on the walk of `artifactInventory`; `below` is the walk of a directory. -/
def inventoryEntry (root q : Path) (below : Flow (Fs B) Err (List ArtifactFile)) :
    Flow (Fs B) Err (List ArtifactFile) := do
  match ← os (attempt "lstat" q (.lstat q)) with
  | .dir => below
  | .link _ =>
    let target ← os (attempt "readlink" q (.readlink q))
    return [⟨text (rel root q), 0, "", target⟩]
  | .file b =>
    let bytes ← os (readFile q)
    return [⟨text (rel root q), codec.size b, codec.sha256 bytes, ""⟩]

/-- The walk of `artifactInventory` over a directory at most `n` levels deep. -/
def inventoryIn (codec : Codec B) (root : Path) : Nat → Path → Flow (Fs B) Err (List ArtifactFile)
  | 0, p => throw (pathErr ⟨"open", p, .eio⟩)
  | n + 1, p => do
      let names ← os (attempt "open" p (.readDir p))
      Flow.collect (fun name => inventoryEntry codec root (p ++ [name])
        (inventoryIn codec root n (p ++ [name]))) names

/-- `artifactInventory`. -/
def artifactInventory (root : Path) : Flow (Fs B) Err (List ArtifactFile) := do
  let n ← os (attempt "lstat" root .depth)
  match ← os (attempt "lstat" root (.lstat root)) with
  | .dir =>
    let files ← inventoryIn codec root n root
    return files.insertionSort fun f g => FMap.KeyLE f.path g.path
  | _ => return []

/-- `writeArtifactManifest`. -/
def writeArtifactManifest (dir : Path) (spec : CacheSpec) : Flow (Fs B) Err Unit := do
  let files ← artifactInventory codec (dir ++ ["payload"])
  os (writeFile (dir ++ ["artifact.json"]) codec.empty
    (codec.encode (encodeManifest ⟨1, spec, files⟩)))

/-- `complete`. -/
def complete (dir : Path) : Prog (Fs B) Bool :=
  .call (.stat (dir ++ [".complete"])) fun
    | .ok _ => .pure true
    | .error _ => .pure false

/-- `writeComplete`. -/
def writeComplete (dir : Path) : Flow (Fs B) PathError Unit :=
  writeFile (dir ++ [".complete"]) codec.empty codec.stamp

/-- `artifactManifestFor`: the manifest of a complete artifact, if it is one for `want`. -/
def artifactManifestFor (dir : Path) (want : CacheSpec) :
    Prog (Fs B) (Option ArtifactManifest) := do
  if !(← complete dir) then return none
  match ← (readFile (dir ++ ["artifact.json"])).prog with
  | .error _ => return none
  | .ok body =>
    match (codec.decode body).map decodeManifest with
    | some (.ok got) => return if validArtifactManifest got want then some got else none
    | _ => return none

/-- `stagingDir`. -/
def stagingDir (destination : Path) : Flow (Fs B) PathError Path := do
  mkdirAll destination.dropLast
  attempt "mkdirtemp" destination.dropLast
    (.mkdirTemp destination.dropLast (destination.getLastD "/" ++ ".staging-"))

/-- The copies of `archiveHot` in its staging directory. -/
def archivePayload (r : CacheRequest) (hot staging : Path) : Flow (Fs B) Err Unit :=
  let source := materializedPath hot r.cache
  if r.cache.kind = "huggingface-hub" then
    os (copyTree codec source (joinBase (staging ++ ["payload", "hub"]) source))
  else
    Flow.forEach (fun file => copyHuggingFaceFile codec (join source (elements file))
      (join (staging ++ ["payload", "files"]) (elements file)) (staging ++ ["blobs"])) r.cache.files

/-- The end of `archiveHot`, once the payload is staged. -/
def archiveStaged (spec : CacheSpec) (staging destination : Path) : Flow (Fs B) Err Unit := do
  writeArtifactManifest codec staging spec
  os (writeComplete codec staging)
  os (removeAll destination)
  os (attempt "rename" staging (.rename staging destination))

/-- `archiveHot`. -/
def archiveHot (r : CacheRequest) (hot destination : Path) : Flow (Fs B) Err Unit := do
  let staging ← os (stagingDir destination)
  Flow.deferring (removeAll staging).prog (do
    archivePayload codec r hot staging
    archiveStaged codec r.cache staging destination)

/-! ## The inventory of a payload -/

/-- The entry of the inventory for what is at a path, relative to the payload. -/
def entryOf (q : Path) : Option (Node B) → Option ArtifactFile
  | some (.file b) => some ⟨text q, codec.size b, codec.sha256 b, ""⟩
  | some (.link target) => some ⟨text q, 0, "", target⟩
  | _ => none

/-- `f` stands for something below `root`. -/
def Listed (t : FileTree B) (root : Path) (f : ArtifactFile) : Prop :=
  ∃ q, q ≠ [] ∧ entryOf codec q (t.node (root ++ q)) = some f

end

section Inventory

variable {X : Set Path} {F : Chances B} {f : Footprint} {t : FileTree B} {E : Prop}
  {codec : Codec B} {root : Path}

theorem rel_below (h : q ≠ []) : rel root (root ++ q) = q := by
  unfold rel
  rw [relElements_append]
  cases q with
  | nil => exact absurd rfl h
  | cons n q => rfl

/-- What is found at one name of a directory: the entry itself, or what is below it. -/
theorem exits_inventoryEntry (below : Flow (Fs B) Err (List ArtifactFile)) (hq : q ≠ [])
    (hX : ∀ r, root ++ q <+: r → r ∈ X) (hF : ∀ c, F c → E) (hpresent : t.node (root ++ q) ≠ none)
    (hbelow : t.node (root ++ q) = some .dir → ∀ t', Same X t t' →
      Safe (fsWorld X F f) below.prog (Exits E fun l t'' => (∀ g, g ∈ l ↔ ∃ r, r ≠ [] ∧
        entryOf codec (q ++ r) (t.node (root ++ q ++ r)) = some g) ∧ Same X t t'') t') :
    Safe (fsWorld X F f) (inventoryEntry codec root (root ++ q) below).prog
      (Exits E fun l t' => (∀ g, g ∈ l ↔ ∃ r,
        entryOf codec (q ++ r) (t.node (root ++ q ++ r)) = some g) ∧ Same X t t') t := by
  have hqX := hX _ List.prefix_rfl
  refine exits_bind (exits_os (exits_lstat hqX (fun h => absurd h hpresent) (hF _))) ?_
  rintro x t₁ ⟨hx, h₁⟩
  -- A file or a link is listed itself and has nothing below it.
  have hleaf : ∀ y g, t.node (root ++ q) = some y → y ≠ .dir → entryOf codec q (some y) = some g →
      ∀ g', g' ∈ [g] ↔ ∃ r, entryOf codec (q ++ r) (t.node (root ++ q ++ r)) = some g' := by
    intro y g hy hne hg g'
    rw [List.mem_singleton]
    constructor
    · rintro rfl
      refine ⟨[], ?_⟩
      rw [List.append_nil, List.append_nil, hy, hg]
    · rintro ⟨r, hr⟩
      by_cases hnil : r = []
      · rw [hnil, List.append_nil, List.append_nil, hy, hg] at hr
        exact (Option.some.inj hr).symm
      · rw [t.below_none (by rw [hy]; exact fun h => hne (Option.some.inj h)) hnil] at hr
        cases hr
  cases x with
  | dir =>
    refine exits_mono (hbelow hx t₁ h₁) id ?_
    rintro l t₂ ⟨hl, h₂⟩
    refine ⟨fun g => (hl g).trans ⟨fun ⟨r, _, hr⟩ => ⟨r, hr⟩, fun ⟨r, hr⟩ => ⟨r, ?_, hr⟩⟩, h₂⟩
    rintro rfl
    rw [List.append_nil, List.append_nil, hx] at hr
    cases hr
  | link target =>
    have hx₁ := (h₁ _ hqX).trans hx
    refine exits_bind (exits_os (exits_readlink hqX (fun h => absurd hx₁ (h target)) (hF _))) ?_
    rintro target' t₂ ⟨htarget, h₂⟩
    rw [hx₁] at htarget
    cases htarget
    refine ⟨hleaf (.link target) _ hx (fun h => nomatch h) ?_, h₁.trans h₂⟩
    rw [rel_below hq]
    rfl
  | file b =>
    have hx₁ := (h₁ _ hqX).trans hx
    refine exits_bind (exits_os (exits_readFile hqX hx₁ hF)) ?_
    rintro bytes t₂ ⟨rfl, h₂⟩
    refine ⟨hleaf (.file bytes) _ hx (fun h => nomatch h) ?_, h₁.trans h₂⟩
    rw [rel_below hq]
    rfl

theorem exits_inventoryIn (codec : Codec B) {n : Nat} {s : Path} (hX : ∀ r, root ++ s <+: r → r ∈ X)
    (hF : ∀ c, F c → E) (hdir : t.node (root ++ s) = some .dir) (hn : 0 < n)
    (hdeep : ∀ q, t.node (root ++ s ++ q) ≠ none → q.length < n) :
    Safe (fsWorld X F f) (inventoryIn codec root n (root ++ s)).prog
      (Exits E fun l t' => (∀ g, g ∈ l ↔ ∃ q, q ≠ [] ∧
        entryOf codec (s ++ q) (t.node (root ++ s ++ q)) = some g) ∧ Same X t t') t := by
  induction n generalizing s t with
  | zero => omega
  | succ n ih =>
    have hpX := hX _ List.prefix_rfl
    refine exits_bind (exits_os (exits_readDir (fun m => hX _ (List.prefix_append _ [m])) hpX hdir
      (hF _))) ?_
    rintro names t₁ ⟨_, hnames, h₁⟩
    refine exits_mono (exits_collect (I := fun done found t' => (∀ g, g ∈ found ↔ ∃ m ∈ done, ∃ q,
      entryOf codec (s ++ [m] ++ q) (t.node (root ++ (s ++ [m]) ++ q)) = some g) ∧ Same X t t')
      (fun done m rest hall found t₂ h₂ => ?_) ⟨fun g => by simp, h₁⟩) id ?_
    · obtain ⟨hfound, h₂⟩ := h₂
      have hm : t.node (root ++ (s ++ [m])) ≠ none := by
        rw [← List.append_assoc]
        exact (hnames m).mp (hall ▸ List.mem_append_right done List.mem_cons_self)
      have hXm : ∀ r, root ++ (s ++ [m]) <+: r → r ∈ X := fun r hr =>
        hX r ((by rw [← List.append_assoc]; exact List.prefix_append _ [m] :
          root ++ s <+: root ++ (s ++ [m])).trans hr)
      have hsame : ∀ r, t₂.node (root ++ (s ++ [m]) ++ r) = t.node (root ++ (s ++ [m]) ++ r) :=
        fun r => h₂ _ (hXm _ (List.prefix_append _ r))
      have hsame' := hsame []
      rw [List.append_nil] at hsame'
      rw [List.append_assoc root s [m]]
      refine exits_mono (exits_inventoryEntry (inventoryIn codec root n (root ++ (s ++ [m])))
        (by simp)
        hXm hF (by rwa [hsame']) ?_) id ?_
      rotate_left
      · rintro more t₃ ⟨hmore, h₃⟩
        refine ⟨fun g => ?_, h₂.trans h₃⟩
        rw [List.mem_append, hfound g, hmore g]
        simp only [hsame, List.mem_append, List.mem_singleton, or_and_right, exists_or,
          exists_eq_left]
      · intro hd t₃ h₃
        have hlt : ∀ q, t₃.node (root ++ (s ++ [m]) ++ q) ≠ none → q.length < n := fun q hq => by
          rw [h₃ _ (hXm _ (List.prefix_append _ q)), hsame q] at hq
          have := hdeep (m :: q) (by simpa using hq)
          simpa using this
        have hd₃ := (h₃ _ (hXm _ List.prefix_rfl)).trans hd
        refine exits_mono (ih hXm hd₃ (Nat.zero_lt_of_lt (hlt [] ?_)) hlt) id ?_
        · rw [List.append_nil, hd₃]
          exact Option.some_ne_none _
        · rintro l t₄ ⟨hl, h₄⟩
          refine ⟨fun g => (hl g).trans ?_, h₃.trans h₄⟩
          simp only [h₃ _ (hXm _ (List.prefix_append _ _))]
    · rintro l t₂ ⟨hl, h₂⟩
      refine ⟨fun g => (hl g).trans ?_, h₂⟩
      constructor
      · rintro ⟨m, _, q, hq⟩
        exact ⟨m :: q, List.cons_ne_nil m q, by simpa using hq⟩
      · rintro ⟨q, hne, hq⟩
        cases q with
        | nil => exact absurd rfl hne
        | cons m q =>
          refine ⟨m, (hnames m).mpr fun hnone => ?_, q, by simpa using hq⟩
          rw [List.append_cons (root ++ s) m q, t.absent_below hnone] at hq
          cases hq

/-- The inventory lists the files and the links below its root. -/
theorem exits_artifactInventory (hX : ∀ r, root <+: r → r ∈ X) (hF : ∀ c, F c → E)
    (hdir : t.node root ≠ some .dir → E) :
    Safe (fsWorld X F f) (artifactInventory codec root).prog
      (Exits E fun l t' => (t.node root = some .dir → ∀ g, g ∈ l ↔ Listed codec t root g) ∧
        (∀ g ∈ l, Listed codec t root g) ∧ Same X t t') t := by
  have hrX := hX root List.prefix_rfl
  refine exits_bind (exits_os (exits_depth (hF _))) ?_
  rintro n t₁ ⟨hn, h₁⟩
  refine exits_bind (exits_os (exits_lstat hrX (fun h => hdir ?_) (hF _))) ?_
  · rw [← h₁ root hrX, h]
    exact fun h => nomatch h
  rintro x t₂ ⟨hx, h₂⟩
  have h₁₂ := h₁.trans h₂
  rw [h₁ root hrX] at hx
  cases x with
  | dir =>
    have hroot : t₂.node (root ++ []) = some .dir := by
      rw [List.append_nil, h₁₂ root hrX, hx]
    have hwalk := exits_inventoryIn codec (f := f) (t := t₂) (n := n) (s := [])
      (by simpa using hX) hF hroot
      (Nat.zero_lt_of_lt (hn [] (by rw [t₁.root]; exact Option.some_ne_none _))) fun q hq => by
        rw [List.append_nil, h₂ _ (hX _ (List.prefix_append root q))] at hq
        have := hn _ hq
        rw [List.length_append] at this
        omega
    rw [List.append_nil] at hwalk
    refine exits_bind hwalk ?_
    rintro l t₃ ⟨hl, h₃⟩
    have hlisted : ∀ g, g ∈ l.insertionSort (fun f g => FMap.KeyLE f.path g.path) ↔
        Listed codec t root g := fun g => by
      rw [List.mem_insertionSort, hl g]
      simp only [List.nil_append, h₁₂ _ (hX _ (List.prefix_append root _))]
      rfl
    exact ⟨fun _ => hlisted, fun g hg => (hlisted g).mp hg, h₁₂.trans h₃⟩
  | file b =>
    refine ⟨fun h => ?_, nofun, h₁₂⟩
    rw [hx] at h
    cases h
  | link target =>
    refine ⟨fun h => ?_, nofun, h₁₂⟩
    rw [hx] at h
    cases h

end Inventory

/-! ## Reading a manifest back -/

section Manifest

variable {X : Set Path} {F : Chances B} {f : Footprint} {t : FileTree B} {E : Prop}
  {codec : Codec B} {dir : Path}

theorem isInt64_size (codec : Codec B) (b : B) : IsInt64 (codec.size b) := by
  have := codec.size_lt b
  constructor <;> omega

theorem entryOf_cases {x : Option (Node B)} {g : ArtifactFile} (h : entryOf codec q x = some g) :
    (∃ b, x = some (.file b) ∧ g = ⟨text q, codec.size b, codec.sha256 b, ""⟩) ∨
      ∃ target, x = some (.link target) ∧ g = ⟨text q, 0, "", target⟩ := by
  rcases x with _ | (_ | b | target)
  · cases h
  · cases h
  · cases h
    exact .inl ⟨b, rfl, rfl⟩
  · cases h
    exact .inr ⟨target, rfl, rfl⟩

theorem entryOf_size {x : Option (Node B)} {g : ArtifactFile} (h : entryOf codec q x = some g) :
    IsInt64 g.size := by
  rcases entryOf_cases h with ⟨b, _, rfl⟩ | ⟨target, _, rfl⟩
  · exact isInt64_size codec b
  · exact (by decide : IsInt64 0)

theorem safe_complete {b : B} (hX : dir ++ [".complete"] ∈ X)
    (h : t.node (dir ++ [".complete"]) = some (.file b)) (hF : ∀ c, F c → E) :
    Safe (fsWorld X F f) (complete dir) (fun x t' => (x = true ∨ E) ∧ Same X t t') t := by
  refine safe_read (c := .stat _) trivial (fun t₁ h₁ => ?_) fun hf t₁ h₁ => ⟨.inr (hF _ hf), h₁⟩
  rw [FileTree.apply_stat ((h₁ _ hX).trans h) fun _ => nofun]
  exact ⟨.inl rfl, h₁⟩

/-- A complete artifact with a manifest for what is wanted is found. -/
theorem safe_artifactManifestFor {b : B} {m : ArtifactManifest} {want : CacheSpec}
    (hcX : dir ++ [".complete"] ∈ X) (hjX : dir ++ ["artifact.json"] ∈ X)
    (hcomplete : t.node (dir ++ [".complete"]) = some (.file b))
    (hjson : t.node (dir ++ ["artifact.json"]) = some (.file (codec.encode (encodeManifest m))))
    (hdecode : decodeManifest (encodeManifest m) = .ok m)
    (hvalid : validArtifactManifest m want = true)
    (hF : ∀ c, F c → E) :
    Safe (fsWorld X F f) (artifactManifestFor codec dir want)
      (fun x t' => E ∨ x = some m ∧ Same X t t') t := by
  refine Safe.bind ((safe_complete hcX hcomplete hF).mono ?_)
  rintro x t₁ ⟨hx, h₁⟩
  cases x with
  | false => exact .inl (hx.resolve_left (by decide))
  | true =>
    refine Safe.bind ((exits_readFile hjX ((h₁ _ hjX).trans hjson) hF).mono ?_)
    rintro (e | body) t₂ h₂
    · exact .inl h₂
    · obtain ⟨rfl, h₂⟩ := h₂
      simp only [codec.decode_encode, Option.map_some, hdecode, hvalid, if_true]
      exact .inr ⟨rfl, h₁.trans h₂⟩

end Manifest

/-! ## Staging and renaming -/

/-- A staging directory for `destination`. -/
def stagingAt (destination : Path) (suffix : String) : Path :=
  destination.dropLast ++ [destination.getLastD "/" ++ ".staging-" ++ suffix]

/-- What an archive changes: its staging directories, its destination and the directories above. -/
def archives (destination : Path) : Footprint :=
  ⟨{q | destination <+: q ∨ ∃ suffix, stagingAt destination suffix <+: q}, ∅,
    {q | q <+: destination.dropLast}⟩

/-- A copy of the staged tree, with the manifest and the marker added. -/
def Archived (codec : Codec B) (spec : CacheSpec) (t : FileTree B) (staging : Path)
    (t' : FileTree B)
    (destination : Path) : Prop :=
  ∃ files, (t.node (staging ++ ["payload"]) = some .dir →
      ∀ g, g ∈ files ↔ Listed codec t (staging ++ ["payload"]) g) ∧
    ∀ q, t'.node (destination ++ q) =
      if q = ["artifact.json"] then some (.file (codec.encode (encodeManifest ⟨1, spec, files⟩)))
      else if q = [".complete"] then some (.file codec.stamp) else t.node (staging ++ q)

section Archiving

variable {X : Set Path} {F : Chances B} {t : FileTree B} {E : Prop} {codec : Codec B}
  {destination : Path}

theorem stagingAt_dropLast (suffix : String) :
    (stagingAt destination suffix).dropLast = destination.dropLast := by
  unfold stagingAt
  rw [List.dropLast_concat]

theorem getLastD_eq (hne : destination ≠ []) :
    destination.getLastD "/" = destination.getLast hne := by
  rw [List.getLastD_eq_getLast?, List.getLast?_eq_some_getLast hne]
  rfl

/-- A staging directory lies beside its destination. -/
theorem stagingAt_apart (hne : destination ≠ []) (suffix : String) :
    Apart (stagingAt destination suffix) destination := by
  have hcons : destination.dropLast ++ [destination.getLast hne] = destination :=
    List.dropLast_concat_getLast hne
  have hlast := getLastD_eq hne
  have hname : destination.getLastD "/" ++ ".staging-" ++ suffix ≠ destination.getLast hne := by
    rw [hlast]
    intro h
    have hlen := congrArg (fun s : String => s.toList.length) h
    simp only [String.toList_append, List.length_append] at hlen
    have : (".staging-".toList).length = 9 := by decide
    omega
  have := apart_entries destination.dropLast hname [] []
  unfold stagingAt
  rwa [hcons] at this

/-- The staging directory is new and empty. -/
theorem exits_stagingDir (hX : ∀ q ∈ (archives destination).own, q ∈ X)
    (hupX : ∀ q, q <+: destination.dropLast → q ∈ X) (hproper : Proper destination)
    (hne : destination ≠ []) (hclear : t.Clear destination.dropLast) (hF : ∀ c, F c → E) :
    Safe (fsWorld X F (archives destination)) (stagingDir destination).prog
      (Exits E fun staging t' => ∃ suffix, staging = stagingAt destination suffix ∧ Proper staging ∧
        t'.node staging = some .dir ∧ (∀ q, q ≠ [] → t'.node (staging ++ q) = none) ∧
        t'.node destination.dropLast = some .dir ∧
        (above destination.dropLast).Changes {q ∈ X | q ≠ staging} t t') t := by
  have hup := List.dropLast_prefix destination
  have hlink : ∀ target, t.node destination.dropLast ≠ some (.link target) := fun target h => by
    rcases hclear _ List.prefix_rfl with h' | h' <;> rw [h] at h' <;> cases h'
  have hle : (above destination.dropLast).Le (archives destination) :=
    ⟨fun _ hq => hq.elim, fun _ hq => hq.elim, fun _ hq => .inl hq⟩
  refine exits_bind (exits_within hle
    (exits_mkdirAll hupX (hproper.below hup) hF (.inl hclear) hlink)) ?_
  rintro _ t₁ ⟨hdir, hc⟩
  have hown : ∀ suffix, stagingAt destination suffix ∈ (archives destination).own := fun suffix =>
    .inr ⟨suffix, List.prefix_rfl⟩
  have hdX := hupX _ (List.prefix_rfl : destination.dropLast <+: _)
  have hname : IsName (destination.getLastD "/" ++ ".staging-") := by
    rw [getLastD_eq hne]
    exact (hproper _ (List.getLast_mem hne)).append (by decide) (by decide)
  refine exits_mono (exits_mkdirTemp (fun suffix => hX _ (hown suffix)) hdX hown (hF _)
    (fun h => absurd hdir h) fun h => absurd hname h) id ?_
  rintro staging t₂ ⟨suffix, _, hst, _, hfree, hproper', h₂⟩
  replace hst : staging = stagingAt destination suffix := hst
  have hX' : ∀ q, staging <+: q → q ∈ X := fun q hq => hX q (.inr ⟨suffix, hst ▸ hq⟩)
  refine ⟨suffix, hst, hproper', h₂.self (hX' _ List.prefix_rfl), fun q hq => ?_, ?_, ?_⟩
  · rw [h₂.other (hX' _ (List.prefix_append staging q)) (by simpa using hq)]
    exact t₁.absent_below hfree
  · refine (h₂.other hdX fun h => ?_).trans hdir
    have hlen := congrArg List.length h
    rw [hst, stagingAt, List.length_append, List.length_singleton] at hlen
    omega
  · rintro q ⟨hq, hqs⟩
    have := hc q hq
    unfold Footprint.Allows at this ⊢
    rwa [h₂.other hq hqs]

/-- A new file in a directory. -/
theorem exits_writeNew {f : Footprint} {dir : Path} {name : String} {empty bytes : B}
    (hX : dir ++ [name] ∈ X) (hdX : dir ∈ X) (hown : dir ++ [name] ∈ f.own) (hname : IsName name)
    (hdir : t.node dir = some .dir) (hnone : t.node (dir ++ [name]) = none) (hF : ∀ c, F c → E) :
    Safe (fsWorld X F f) (writeFile (dir ++ [name]) empty bytes).prog
      (Exits E fun _ t' => Puts X (dir ++ [name]) (some (.file bytes)) t t') t := by
  refine exits_writeFile hX (by rwa [List.dropLast_concat]) (fun target h => ?_) (.inl hown) hF
    fun h => absurd (t.canSet_temp (t.isDirAt_iff.mpr hdir) hname hnone) h
  rw [hnone] at h
  cases h

theorem exits_writeArtifactManifest {f : Footprint} {dir : Path} (hX : ∀ q, dir <+: q → q ∈ X)
    (hown : dir ++ ["artifact.json"] ∈ f.own) (hdir : t.node dir = some .dir)
    (hpay : t.node (dir ++ ["payload"]) ≠ some .dir → E)
    (hnone : t.node (dir ++ ["artifact.json"]) = none) (hF : ∀ c, F c → E) :
    Safe (fsWorld X F f) (writeArtifactManifest codec dir spec).prog
      (Exits E fun _ t' => ∃ files, (t.node (dir ++ ["payload"]) = some .dir →
          ∀ g, g ∈ files ↔ Listed codec t (dir ++ ["payload"]) g) ∧
        Puts X (dir ++ ["artifact.json"])
          (some (.file (codec.encode (encodeManifest ⟨1, spec, files⟩)))) t t') t := by
  have hdX := hX dir List.prefix_rfl
  have hjX := hX _ (List.prefix_append dir ["artifact.json"])
  refine exits_bind (exits_artifactInventory
    (fun q hq => hX q ((List.prefix_append dir ["payload"]).trans hq)) hF hpay) ?_
  rintro files t₁ ⟨hfiles, _, h₁⟩
  refine exits_mono (exits_os (exits_writeNew hjX hdX hown (by decide) ((h₁ dir hdX).trans hdir)
    ((h₁ _ hjX).trans hnone) hF)) id ?_
  intro _ t₂ h₂
  exact ⟨files, hfiles, h₂.same_left h₁⟩

/-- The manifest is written, the marker is written, and the whole is renamed into place. -/
theorem exits_archiveStaged {suffix : String} (hst : staging = stagingAt destination suffix)
    (hX : ∀ q ∈ (archives destination).own, q ∈ X) (hupX : ∀ q, q <+: destination.dropLast → q ∈ X)
    (hproper : Proper destination) (hne : destination ≠ []) (hdir : t.node staging = some .dir)
    (hpay : t.node (staging ++ ["payload"]) ≠ some .dir → E)
    (hjson : t.node (staging ++ ["artifact.json"]) = none)
    (hmark : t.node (staging ++ [".complete"]) = none) (hF : ∀ c, F c → E) :
    Safe (fsWorld X F (archives destination)) (archiveStaged codec spec staging destination).prog
      (Exits E fun _ t' => t'.Gone staging ∧ Archived codec spec t staging t' destination) t := by
  have hsX : ∀ q, staging <+: q → q ∈ X := fun q hq => hX q (.inr ⟨suffix, hst ▸ hq⟩)
  have hdX : ∀ q, destination <+: q → q ∈ X := fun q hq => hX q (.inl hq)
  have hsown : ∀ q, staging <+: q → q ∈ (archives destination).own := fun q hq =>
    .inr ⟨suffix, hst ▸ hq⟩
  have hdown : ∀ q, destination <+: q → q ∈ (archives destination).own := fun q hq => .inl hq
  have hapart : Apart staging destination := hst ▸ stagingAt_apart hne suffix
  have hdrop : staging.dropLast = destination.dropLast := hst ▸ stagingAt_dropLast suffix
  have hsX' := hsX staging List.prefix_rfl
  have hentryX : ∀ name : String, staging ++ [name] ∈ X :=
    fun name => hsX _ (List.prefix_append _ _)
  have hupd := List.dropLast_prefix destination
  refine exits_bind (exits_writeArtifactManifest hsX
    (hsown _ (List.prefix_append _ _)) hdir hpay hjson
    hF) ?_
  rintro _ t₁ ⟨files, hfiles, h₁⟩
  have hself : ∀ name : String, staging ≠ staging ++ [name] := fun name => by simp
  refine exits_bind (exits_os
    (exits_writeNew (hentryX ".complete") hsX' (hsown _ (List.prefix_append _ _))
    (by decide) ((h₁.other hsX' (hself _)).trans hdir)
    ((h₁.other (hentryX ".complete") (by simp)).trans hmark) hF)) ?_
  intro _ t₂ h₂
  have hdir₂ : t₂.node staging = some .dir :=
    (h₂.other hsX' (hself _)).trans ((h₁.other hsX' (hself _)).trans hdir)
  have hparent : t₂.node destination.dropLast = some .dir := by
    rw [← hdrop]
    refine t₂.dir_above (by rw [hdir₂]; exact Option.some_ne_none _) staging.dropLast_prefix
      (dropLast_ne fun h => hapart.1 (h ▸ List.nil_prefix))
  -- The destination goes, the staged tree stays.
  have hle : (under destination).Le (archives destination) :=
    ⟨hdown, fun _ hq => hq.elim, fun _ hq => hq.elim⟩
  have hclear : t₂.node destination ≠ none ∨
      ((∀ q, q <+: destination → q ∈ X) ∧ t₂.Clear destination) ∨ E := by
    by_cases hnone : t₂.node destination = none
    · refine .inr (.inl ⟨fun q hq => ?_, clear_of_parent hnone fun q hq => ?_⟩)
      · by_cases hqd : q = destination
        · exact hqd ▸ hdX _ List.prefix_rfl
        · refine hupX q ?_
          obtain ⟨r, rfl⟩ := hq
          rw [List.dropLast_append_of_ne_nil fun h => hqd (by rw [h, List.append_nil])]
          exact List.prefix_append _ _
      · by_cases hqd : q = destination.dropLast
        · exact .inr (hqd ▸ hparent)
        · exact .inr (t₂.dir_above (by rw [hparent]; exact Option.some_ne_none _) hq hqd)
    · exact .inl hnone
  refine exits_bind (exits_os
    (exits_within hle (exits_removeAll hdX hne (fun h => ?_) (hF _) hclear))) ?_
  · obtain ⟨q, _, h | h⟩ := h
    · exact hF _ h
    · exact hF _ h
  rintro _ t₃ ⟨hgone, hc₃⟩
  have hkeep : ∀ q, staging <+: q → t₃.node q = t₂.node q := fun q hq =>
    hc₃.same (hsX q hq) (hapart.not_under hq) id id
  have hparent₃ : t₃.node destination.dropLast = some .dir :=
    (hc₃.same (hupX _ List.prefix_rfl) (not_below_dropLast hne) id id).trans hparent
  refine exits_mono (exits_os (exits_rename hsX hdX (hupX _ List.prefix_rfl)
    (fun q hq => hq.elim (hsown q) (hdown q)) (hF _) hapart hne hproper (fun h => ?_)
    (fun h => absurd hparent₃ h) fun h => absurd (.inl (hgone _ List.prefix_rfl)) h)) id ?_
  · rw [hkeep _ List.prefix_rfl, hdir₂] at h
    cases h
  rintro _ t₄ ⟨_, h₄⟩
  refine ⟨?_, files, hfiles, fun q => ?_⟩
  · rintro q ⟨r, rfl⟩
    rw [h₄ _ (hsX _ (List.prefix_append staging r)),
      t₃.moved_source (hapart.not_under (List.prefix_append staging r))]
  · have hq := List.prefix_append staging q
    rw [h₄ _ (hdX _ (List.prefix_append destination q)), t₃.moved_below, hkeep _ hq,
      h₂ _ (hsX _ hq),
      h₁ _ (hsX _ hq)]
    simp only [List.append_cancel_left_eq]
    by_cases hm : q = [".complete"]
    · subst hm
      simp
    · simp [hm]

/-- `archiveHot` puts into place what its copies have staged. -/
theorem exits_archiveHot {r : CacheRequest} {hot : Path} {P : Path → FileTree B → Prop}
    (hX : ∀ q ∈ (archives destination).own, q ∈ X)
    (hupX : ∀ q, q <+: destination.dropLast → q ∈ X) (hproper : Proper destination)
    (hne : destination ≠ []) (hclear : t.Clear destination.dropLast) (hF : ∀ c, F c → E)
    (hpayload : ∀ suffix t₁, Proper (stagingAt destination suffix) →
      t₁.node (stagingAt destination suffix) = some .dir →
      (∀ q, q ≠ [] → t₁.node (stagingAt destination suffix ++ q) = none) →
      (above destination.dropLast).Changes {q ∈ X | q ≠ stagingAt destination suffix} t t₁ →
      Safe (fsWorld X F (archives destination))
        (archivePayload codec r hot (stagingAt destination suffix)).prog
        (Exits E fun _ t₂ => P (stagingAt destination suffix) t₂) t₁)
    (hP : ∀ suffix t₂, P (stagingAt destination suffix) t₂ →
      t₂.node (stagingAt destination suffix) = some .dir ∧
      (t₂.node (stagingAt destination suffix ++ ["payload"]) ≠ some .dir → E) ∧
      t₂.node (stagingAt destination suffix ++ ["artifact.json"]) = none ∧
      t₂.node (stagingAt destination suffix ++ [".complete"]) = none) :
    Safe (fsWorld X F (archives destination)) (archiveHot codec r hot destination).prog
      (Exits E fun _ t' => ∃ suffix t₂, P (stagingAt destination suffix) t₂ ∧
        Archived codec r.cache t₂ (stagingAt destination suffix) t' destination) t := by
  refine exits_bind (exits_os (exits_stagingDir hX hupX hproper hne hclear hF)) ?_
  rintro staging t₁ ⟨suffix, rfl, hps, hdir, hempty, _, hc₁⟩
  have hsX : ∀ q, stagingAt destination suffix <+: q → q ∈ X := fun q hq => hX q (.inr ⟨suffix, hq⟩)
  have hle : (under (stagingAt destination suffix)).Le (archives destination) :=
    ⟨fun q hq => .inr ⟨suffix, hq⟩, fun _ hq => hq.elim, fun _ hq => hq.elim⟩
  have hsne : stagingAt destination suffix ≠ [] := fun h =>
    (stagingAt_apart hne suffix).1 (h ▸ List.nil_prefix)
  have hbody : Safe (fsWorld X F (archives destination)) (do
      archivePayload codec r hot (stagingAt destination suffix)
      archiveStaged codec r.cache (stagingAt destination suffix) destination :
      Flow (Fs B) Err Unit).prog
      (Exits E fun _ t' => t'.Gone (stagingAt destination suffix) ∧
        ∃ t₂, P (stagingAt destination suffix) t₂ ∧
          Archived codec r.cache t₂ (stagingAt destination suffix) t' destination) t₁ := by
    refine exits_bind (hpayload suffix t₁ hps hdir hempty hc₁) ?_
    intro _ t₂ h₂
    obtain ⟨hdir₂, hpay, hjson, hmark⟩ := hP suffix t₂ h₂
    refine exits_mono (exits_archiveStaged rfl hX hupX hproper hne hdir₂ hpay hjson hmark hF) id ?_
    rintro _ t' ⟨hgone, harch⟩
    exact ⟨hgone, t₂, h₂, harch⟩
  refine exits_deferring hbody (fun s => ?_) ?_
  · exact (safe_widen hle (exits_removeAll (E := True) hsX hsne (fun _ => trivial)
      (fun _ => trivial)
      (.inr (.inr trivial)))).mono fun _ _ _ => trivial
  · rintro _ t₃ ⟨hgone, t₂, h₂, files, hfiles, harch⟩
    refine (safe_widen hle (safe_changes (exits_removeAll (E := True) hsX hsne (fun _ => trivial)
      (fun _ => trivial) (.inr (.inr trivial))))).mono ?_
    rintro _ t₄ ⟨_, hc₄⟩
    refine ⟨suffix, t₂, h₂, files, hfiles, fun q => ?_⟩
    have hq := List.prefix_append destination q
    rw [hc₄.same (hX _ (.inl hq)) ((stagingAt_apart hne suffix).symm.not_under hq) id id]
    exact harch q

end Archiving

/-! ## Archives of hub artifacts -/

/-- The directory of a repository has a name of its own. -/
theorem isName_hubDirectory (repoID : String) : IsName (hubDirectory repoID) := by
  unfold hubDirectory
  have hlen : 2 < ("models--" : String).toList.length := by decide
  have hslash : ∀ c ∈ (replaceChars slashChar repoID).toList, c ≠ '/' := by
    unfold replaceChars
    rw [String.toList_ofList]
    intro c hc
    obtain ⟨d, _, hd⟩ := List.mem_flatMap.mp hc
    unfold slashChar at hd
    split at hd
    · simp only [List.mem_cons, List.not_mem_nil, or_false, or_self] at hd
      rw [hd]
      decide
    · rename_i hne
      rw [List.mem_singleton.mp hd]
      exact hne
  have hlong : ∀ s : String, s.toList.length ≤ 2 →
      "models--" ++ replaceChars slashChar repoID ≠ s := by
    rintro s hs rfl
    rw [String.toList_append, List.length_append] at hs
    omega
  refine ⟨hlong "" (by decide), hlong "." (by decide), hlong ".." (by decide), fun h => ?_⟩
  rw [String.toList_append, List.mem_append] at h
  rcases h with h | h
  · exact absurd h (by decide)
  · exact hslash _ h rfl

/-- The place of a hub artifact in a payload. -/
def hubPayload (spec : CacheSpec) : Path := ["payload", "hub", hubDirectory spec.repoID]

theorem materializedPath_hub (h : spec.kind = "huggingface-hub") (hot : Path) :
    materializedPath hot spec = hot ++ ["hub", hubDirectory spec.repoID] := if_pos h

theorem archivePayload_hub {codec : Codec B} {r : CacheRequest}
    (h : r.cache.kind = "huggingface-hub")
    (hot staging : Path) : archivePayload codec r hot staging =
      os (copyTree codec (materializedPath hot r.cache) (staging ++ hubPayload r.cache)) := by
  unfold archivePayload
  rw [if_pos h]
  unfold joinBase hubPayload
  rw [materializedPath_hub h]
  simp

/-- A copy of a hub artifact in an empty directory. -/
structure HubStaged (t : FileTree B) (spec : CacheSpec) (hot staging : Path) (t' : FileTree B) :
    Prop where
  present : t.node (materializedPath hot spec) ≠ none
  copy : CopyOf t (materializedPath hot spec) t' (staging ++ hubPayload spec)
  dirs : ∀ q, q <+: hubPayload spec → q ≠ hubPayload spec → t'.node (staging ++ q) = some .dir
  only : ∀ q, ¬ q <+: hubPayload spec → ¬ hubPayload spec <+: q → t'.node (staging ++ q) = none

section Hub

variable {X : Set Path} {F : Chances B} {t : FileTree B} {E : Prop} {codec : Codec B}
  {destination hot : Path} {r : CacheRequest}

theorem exits_archivePayload_hub {g : Footprint} (hkind : r.cache.kind = "huggingface-hub")
    (hsX : ∀ q, staging <+: q → q ∈ X) (hupX : ∀ q, q <+: staging → q ∈ X)
    (hsrcX : ∀ q, materializedPath hot r.cache <+: q → q ∈ X) (hproper : Proper staging)
    (hapart : Apart (materializedPath hot r.cache) staging)
    (hle : (copies (staging ++ hubPayload r.cache)).Le g) (hdir : t.node staging = some .dir)
    (hempty : ∀ q, q ≠ [] → t.node (staging ++ q) = none)
    (hsrc : t.node (materializedPath hot r.cache) = none → E)
    (hlinks : ∀ q, t.node (materializedPath hot r.cache ++ q) = some (.link "") → E)
    (hF : ∀ c, F c → E) :
    Safe (fsWorld X F g) (archivePayload codec r hot staging).prog
      (Exits E fun _ t' => HubStaged t r.cache hot staging t') t := by
  have hne : hubPayload r.cache ≠ [] := List.cons_ne_nil _ _
  have hbelow := List.prefix_append staging (hubPayload r.cache)
  have hnames : Proper (hubPayload r.cache) := by
    intro n hn
    simp only [hubPayload, List.mem_cons, List.not_mem_nil, or_false] at hn
    rcases hn with rfl | rfl | rfl
    · decide
    · decide
    · exact isName_hubDirectory _
  have hup : ∀ q, q <+: staging ++ hubPayload r.cache → q <+: staging ∨ ∃ s, q = staging ++ s := by
    intro q hq
    rcases List.prefix_or_prefix_of_prefix hq hbelow with h | ⟨s, h⟩
    · exact .inl h
    · exact .inr ⟨s, h.symm⟩
  have hclear : t.Clear (staging ++ hubPayload r.cache) := by
    intro q hq
    rcases hup q hq with h | ⟨s, rfl⟩
    · by_cases hqs : q = staging
      · exact .inr (hqs ▸ hdir)
      · exact .inr (t.dir_above (by rw [hdir]; exact Option.some_ne_none _) h hqs)
    · by_cases hs : s = []
      · rw [hs, List.append_nil]
        exact .inr hdir
      · exact .inl (hempty s hs)
  have hgone : t.Gone (staging ++ hubPayload r.cache) := FileTree.gone_of_none (hempty _ hne)
  rw [archivePayload_hub hkind]
  refine exits_mono (exits_os (exits_within hle (exits_copyTree hsrcX
    (fun q hq => hsX q (hbelow.trans hq)) (fun q hq => (hup q hq).elim (hupX q) ?_)
    (hproper.append hnames) (hapart.below List.prefix_rfl hbelow) hsrc hlinks hclear hgone hF)))
      id ?_
  · rintro ⟨s, rfl⟩
    exact hsX _ (List.prefix_append staging s)
  rintro _ t' ⟨⟨hsome, hcopy⟩, hc⟩
  have htop : t'.node (staging ++ hubPayload r.cache) ≠ none := by
    have := hcopy []
    rw [List.append_nil, List.append_nil] at this
    rwa [this]
  refine ⟨hsome, hcopy, fun q hq hqne => ?_, fun q hq hq' => ?_⟩
  · exact t'.dir_above htop ((List.prefix_append_right_inj staging).mpr hq) fun h =>
      hqne (List.append_cancel_left h)
  · have hqne : q ≠ [] := fun h => hq (h ▸ List.nil_prefix)
    rw [hc.same (hsX _ (List.prefix_append staging q))
      (fun h => hq' ((List.prefix_append_right_inj staging).mp h)) id
      (fun h => hq ((List.prefix_append_right_inj staging).mp h))]
    exact hempty q hqne

/-- A complete archive of a hub artifact. -/
structure HubArchived (codec : Codec B) (t : FileTree B) (spec : CacheSpec) (hot : Path)
    (files : List ArtifactFile) (t' : FileTree B) (destination : Path) : Prop where
  present : t.node (materializedPath hot spec) ≠ none
  copy : CopyOf t (materializedPath hot spec) t' (destination ++ hubPayload spec)
  listed : ∀ f, f ∈ files ↔ ∃ q, entryOf codec ("hub" :: hubDirectory spec.repoID :: q)
    (t.node (materializedPath hot spec ++ q)) = some f
  manifest : t'.node (destination ++ ["artifact.json"]) =
    some (.file (codec.encode (encodeManifest ⟨1, spec, files⟩)))
  complete : t'.node (destination ++ [".complete"]) = some (.file codec.stamp)
  dirs : ∀ q, q <+: hubPayload spec → q ≠ hubPayload spec → t'.node (destination ++ q) = some .dir
  only : ∀ q, ¬ q <+: hubPayload spec → ¬ hubPayload spec <+: q → q ≠ ["artifact.json"] →
    q ≠ [".complete"] → t'.node (destination ++ q) = none

theorem HubStaged.listed {t' : FileTree B} (h : HubStaged t spec hot staging t')
    (f : ArtifactFile) :
    Listed codec t' (staging ++ ["payload"]) f ↔
      ∃ q, entryOf codec ("hub" :: hubDirectory spec.repoID :: q)
        (t.node (materializedPath hot spec ++ q)) = some f := by
  have hnode : ∀ q, t'.node (staging ++ ["payload"] ++ ("hub" :: hubDirectory spec.repoID :: q)) =
      t.node (materializedPath hot spec ++ q) := fun q => by
    rw [← h.copy q]
    simp [hubPayload]
  constructor
  · rintro ⟨q, hne, hq⟩
    by_cases hunder : hubPayload spec <+: "payload" :: q
    · obtain ⟨q', hq'⟩ := hunder
      obtain rfl : "hub" :: hubDirectory spec.repoID :: q' = q := by
        simpa [hubPayload] using hq'
      rw [hnode q'] at hq
      exact ⟨q', hq⟩
    · -- Above the copy there are only directories, beside it nothing.
      rw [List.append_assoc, List.singleton_append] at hq
      by_cases hup : "payload" :: q <+: hubPayload spec
      · rw [h.dirs _ hup fun he => hunder (he ▸ List.prefix_rfl)] at hq
        cases hq
      · rw [h.only _ hup hunder] at hq
        cases hq
  · rintro ⟨q, hq⟩
    refine ⟨"hub" :: hubDirectory spec.repoID :: q, List.cons_ne_nil _ _, ?_⟩
    rwa [hnode q]

theorem Archived.hub {t₂ t' : FileTree B} (h : HubStaged t spec hot staging t₂)
    (ha : Archived codec spec t₂ staging t' destination) :
    ∃ files, HubArchived codec t spec hot files t' destination := by
  obtain ⟨files, hfiles, hnode⟩ := ha
  have hpay : t₂.node (staging ++ ["payload"]) = some .dir :=
    h.dirs ["payload"] ⟨_, rfl⟩ (by simp [hubPayload])
  have hdoc : ∀ q, q = ["artifact.json"] ∨ q = [".complete"] → ¬ q <+: hubPayload spec ∧
      ¬ hubPayload spec <+: q := by
    rintro q (rfl | rfl) <;> exact ⟨by simp [hubPayload], by simp [hubPayload]⟩
  have hother : ∀ q, q <+: hubPayload spec ∨ hubPayload spec <+: q →
      t'.node (destination ++ q) = t₂.node (staging ++ q) := fun q hq => by
    rw [hnode q, if_neg, if_neg]
    · exact fun he => hq.elim (hdoc q (.inr he)).1 (hdoc q (.inr he)).2
    · exact fun he => hq.elim (hdoc q (.inl he)).1 (hdoc q (.inl he)).2
  refine ⟨files, h.present, fun q => ?_, fun f => (hfiles hpay f).trans (h.listed f), ?_, ?_,
    fun q hq hne => ?_, fun q hq hq' h₁ h₂ => ?_⟩
  · rw [List.append_assoc, hother _ (.inr (List.prefix_append _ q)), ← List.append_assoc]
    exact h.copy q
  · rw [hnode, if_pos rfl]
  · rw [hnode, if_neg (by decide), if_pos rfl]
  · rw [hother q (.inl hq)]
    exact h.dirs q hq hne
  · rw [hnode, if_neg h₁, if_neg h₂]
    exact h.only q hq hq'

/-- `archiveHot` archives a hub artifact as it is. -/
theorem exits_archiveHot_hub (hkind : r.cache.kind = "huggingface-hub")
    (hX : ∀ q ∈ (archives destination).own, q ∈ X)
    (hupX : ∀ q, q <+: destination.dropLast → q ∈ X)
    (hsrcX : ∀ q, materializedPath hot r.cache <+: q → q ∈ X) (hproper : Proper destination)
    (hne : destination ≠ []) (hclear : t.Clear destination.dropLast)
    (hapart : Apart (materializedPath hot r.cache) destination.dropLast)
    (hsrc : t.node (materializedPath hot r.cache) = none → E)
    (hlinks : ∀ q, t.node (materializedPath hot r.cache ++ q) = some (.link "") → E)
    (hF : ∀ c, F c → E) :
    Safe (fsWorld X F (archives destination)) (archiveHot codec r hot destination).prog
      (Exits E fun _ t' => ∃ files, HubArchived codec t r.cache hot files t' destination) t := by
  refine exits_mono (exits_archiveHot (P := fun staging t₂ => HubStaged t r.cache hot staging t₂)
    hX hupX hproper hne hclear hF (fun suffix t₁ hps hdir hempty hc => ?_) fun suffix t₂ h => ?_)
      id ?_
  · have hbelow : destination.dropLast <+: stagingAt destination suffix := List.prefix_append _ _
    have hap : Apart (materializedPath hot r.cache) (stagingAt destination suffix) :=
      hapart.below List.prefix_rfl hbelow
    have hsame : ∀ q, t₁.node (materializedPath hot r.cache ++ q) =
        t.node (materializedPath hot r.cache ++ q) := fun q => by
      have hq := List.prefix_append (materializedPath hot r.cache) q
      exact hc.same ⟨hsrcX _ hq, fun h => hap.not_under hq (h ▸ List.prefix_rfl)⟩ id id
        (hapart.not_above hq)
    have htop := hsame []
    rw [List.append_nil] at htop
    have hle : (copies (stagingAt destination suffix ++ hubPayload r.cache)).Le
        (archives destination) := by
      have hst := List.prefix_append (stagingAt destination suffix) (hubPayload r.cache)
      refine ⟨fun q hq => .inr ⟨suffix, hst.trans hq⟩, fun _ hq => hq.elim, fun q hq => ?_⟩
      rcases List.prefix_or_prefix_of_prefix hq hst with h | h
      · by_cases hqs : q = stagingAt destination suffix
        · exact .inr (.inr ⟨suffix, hqs ▸ List.prefix_rfl⟩)
        · rcases List.prefix_concat_iff.mp h with h' | h'
          · exact absurd h' hqs
          · exact .inl h'
      · exact .inr (.inr ⟨suffix, h⟩)
    refine exits_mono (exits_archivePayload_hub hkind (fun q hq => hX q (.inr ⟨suffix, hq⟩))
      (fun q hq => ?_) hsrcX hps hap hle hdir hempty (fun h => hsrc (htop ▸ h))
      (fun q hq => hlinks q (hsame q ▸ hq)) hF) id ?_
    · rcases List.prefix_concat_iff.mp hq with h | h
      · exact hX q (.inr ⟨suffix, h ▸ List.prefix_rfl⟩)
      · exact hupX q h
    · intro _ t₂ h
      exact ⟨htop ▸ h.present, fun q => (h.copy q).trans (hsame q), h.dirs, h.only⟩
  · refine ⟨?_, fun hn => absurd (h.dirs ["payload"] ⟨_, rfl⟩ (by simp [hubPayload])) hn,
      h.only _ (by simp [hubPayload]) (by simp [hubPayload]),
      h.only _ (by simp [hubPayload]) (by simp [hubPayload])⟩
    have := h.dirs [] List.nil_prefix (by simp [hubPayload])
    rwa [List.append_nil] at this
  · rintro _ t' ⟨suffix, t₂, h, ha⟩
    exact ha.hub h

end Hub

/-! ## Archives of file artifacts -/

theorem tempNamed_append (p : Path) (hq : q ≠ []) : TempNamed F (p ++ q) ↔ TempNamed F q := by
  unfold TempNamed
  rw [List.dropLast_append_of_ne_nil hq]
  simp only [List.append_assoc, List.append_cancel_left_eq]

section FileArtifacts

variable {X : Set Path} {F : Chances B} {t : FileTree B} {E : Prop} {codec : Codec B}
  {destination hot : Path} {r : CacheRequest}

end FileArtifacts

end LlmOperator.Cache
