import LlmOperator.Cache.Restore
import LlmOperator.Interaction.Sum

/-!
# The cache manager

`ensureArtifact` and `sweep` of `cmd/llm-proxy/cache_manager.go`, with what they are made of: making
room, finding out what a repository holds, downloading it, and repairing links. Besides file
operations the manager asks for the use of the hot volume, for the age of the markers, for the
inventory of a repository and for its download; it writes to its log and starts archives in the
background. Its counters are left out. `sort.Slice` is not stable: it is a stable sort after a call,
`arrange`, that may put the entries in any order.
-/

namespace LlmOperator.Cache

open Api Data Data.GoString FileSystem Interaction

variable {B : Type}

/-! ## Calls -/

/-- What the discovery script prints. -/
structure Inventory where
  size : Int
  files : List String
  deriving DecidableEq

/-- What the cache manager asks of anything but its files. -/
inductive ManagerCall where
  /-- `cacheUsage` of the hot root. -/
  | usage
  /-- Entries that are about to be sorted, in any order. -/
  | arrange (names : List String)
  /-- The modification time of an entry, counted from the zero time, if it can be looked at. -/
  | modTime (p : Path)
  /-- The script of `resolveCacheSpec`. -/
  | inventory (repoID revision : String)
  /-- `hf download` into a cache directory. -/
  | download (repoID revision : String) (cacheDir : Path) (files : List String)
  /-- `os.Chtimes` with the current time. -/
  | touch (p : Path)
  /-- `archiveHot` in a goroutine of its own. -/
  | archive (r : CacheRequest)
  | info (message : String) (attrs : List (String × String))
  deriving DecidableEq

@[reducible] def ManagerCall.Answer : ManagerCall → Type
  | .usage => Except Err (Int × Int)
  | .arrange _ => List String
  | .modTime _ => Option Int
  /- An output that is no inventory is nothing. -/
  | .inventory .. => Except Err (Option Inventory)
  /- The error with the output of the command. -/
  | .download .. => Except String Unit
  | .touch _ | .archive _ | .info .. => Unit

abbrev ManagerSig : Sig := ⟨ManagerCall, ManagerCall.Answer⟩

/-- File operations and the other calls of the manager. -/
abbrev Manager (B : Type) : Sig := (Fs B).sum ManagerSig

/-- A function that only works on files. -/
def onFiles {ρ α : Type} (p : Flow (Fs B) ρ α) : Flow (Manager B) ρ α :=
  ExceptT.mk (p.prog.inl ManagerSig)

/-- A function on files that returns no error. -/
def look {ρ α : Type} (p : Prog (Fs B) α) : Flow (Manager B) ρ α := liftM (p.inl ManagerSig)

section

variable (codec : Codec B) (roots : Roots) (r : CacheRequest) (hot : Path)

def ask (c : ManagerCall) : Flow (Manager B) Err c.Answer :=
  ExceptT.mk (.call (.inr c) fun a => .pure (.ok a))

def info (message : String) (attrs : List (String × String)) : Flow (Manager B) Err Unit :=
  ask (.info message attrs)

/-- The capacity of the hot volume and what is used of it. -/
def cacheUsage : Flow (Manager B) Err (Int × Int) := do
  match ← ask .usage with
  | .ok usage => return usage
  | .error e => throw e

/-! ## Making room -/

/-- `capacity*n/100` in 64 bits. -/
def percent (n capacity : Int) : Int := (Int.bmod (capacity * n) (2 ^ 64)).tdiv 100

/-- `used+incoming` in 64 bits. -/
def withIncoming (incoming used : Int) : Int := Int.bmod (used + incoming) (2 ^ 64)

/-- The specification in the bytes of a `cache.json`; errors are ignored. -/
def specIn (body : B) : CacheSpec :=
  match codec.decode body with
  | some document => specFields.skim zeroSpec document
  | none => zeroSpec

/-- The specification that `evict` reads. -/
def recordedSpec (marker : Path) : Prog (Fs B) CacheSpec := do
  match ← (readFile (marker ++ ["cache.json"])).prog with
  | .error _ => return zeroSpec
  | .ok body => return specIn codec body

/-- Whether `evict` removes files for a specification. -/
def Evictable (spec : CacheSpec) : Prop :=
  (spec.kind = "huggingface-hub" ∧ spec.repoID ≠ "") ∨ spec.kind = "huggingface-files"

instance (spec : CacheSpec) : Decidable (Evictable spec) := by unfold Evictable; infer_instance

/-- The files of an evicted artifact; an error is ignored. -/
def evictFiles (spec : CacheSpec) : Prog (Fs B) Unit :=
  if Evictable spec then do
    let _ ← (removeAll (materializedPath hot spec)).prog
    return ()
  else return ()

/-- `evict`. -/
def evict (marker : Path) : Flow (Fs B) PathError Unit := do
  let spec ← liftM (recordedSpec codec marker)
  liftM (evictFiles hot spec : Prog (Fs B) Unit)
  removeAll marker

/-- The directory of the markers. -/
def markers : Path := hot ++ [".llm-cache"]

def entryModTime (info : Option Int) : Int := info.getD 0

/-- The markers with their times. The source looks at an entry each time it is compared. -/
def modTimes (hot : Path) : List String → Flow (Manager B) Err (List (String × Int))
  | [] => return []
  | name :: names => do
      let info ← ask (.modTime (markers hot ++ [name]))
      return (name, entryModTime info) :: (← modTimes hot names)

def sortSlice {α : Type} (less : α → α → Bool) (entries : List α) : List α :=
  entries.insertionSort fun a b => less b a = false

/-- The names of the markers, the one that was used least recently first. -/
def markersByAge : Flow (Manager B) Err (List String) := do
  let names ← onFiles (ExceptT.mk (.call (.readDir (markers hot)) fun
    | .ok names => .pure (.ok names)
    | .error .enoent => .pure (.ok [])
    | .error e => .pure (.error (pathErr ⟨"open", markers hot, e⟩))))
  let entries ← modTimes hot (← ask (.arrange names))
  return (sortSlice (fun a b => decide (a.2 < b.2)) entries).map Prod.fst

/-- Evictions one after the other until so much is used that it is enough; says whether it is. -/
def evictUntil (codec : Codec B) (hot : Path) (enough : Int → Bool) :
    List String → Flow (Manager B) Err Bool
  | [] => return false
  | name :: names => do
      onFiles (os (evict codec hot (markers hot ++ [name])))
      let (_, used) ← cacheUsage
      if enough used then return true
      evictUntil codec hot enough names

/-- `sweep`. -/
def sweep (preserve : String) : Flow (Manager B) Err Unit := do
  let (capacity, used) ← cacheUsage
  if used ≤ percent 80 capacity then return
  let names ← markersByAge hot
  let _ ← evictUntil codec hot (fun used => decide (used ≤ percent 65 capacity))
    (names.filter (· ≠ preserve))

/-- `makeSpace`. -/
def makeSpace (incoming : Int) : Flow (Manager B) Err Unit := do
  let (capacity, used) ← cacheUsage
  if percent 95 capacity < incoming then
    throw (.other "artifact is larger than 95% of hot cache")
  if withIncoming incoming used ≤ percent 95 capacity then return
  let names ← markersByAge hot
  let fits ← evictUntil codec hot
    (fun used => decide (withIncoming incoming used ≤ percent 95 capacity)) names
  if !fits then throw (.other "insufficient hot-cache capacity")

/-! ## What is hot -/

/-- Whether a file of a file artifact is there and can be seen below `gguf`. -/
def fileExists (p : Path) : Prog (Fs B) Bool :=
  .call (.stat p) fun
    | .error _ => .pure false
    | .ok _ => .call (.evalSymlinks p) fun
        | .error _ => .pure false
        | .ok resolved => .pure !(escapes (rel (hot ++ ["gguf"]) resolved))

def filesExist (hot dir : Path) : List String → Prog (Fs B) Bool
  | [] => .pure true
  | file :: files => do
      if ← fileExists hot (join dir (elements file)) then filesExist hot dir files
      else return false

/-- `hotArtifactExists`. -/
def hotArtifactExists : Prog (Fs B) Bool :=
  if r.cache.kind = "huggingface-hub" then
    .call (.stat (materializedPath hot r.cache)) fun
      | .ok _ => .pure true
      | .error _ => .pure false
  else filesExist hot (materializedPath hot r.cache) r.cache.files

/-! ## Repairing links -/

/-- The blob store of earlier releases is moved below `gguf`, with a link in its old place. -/
def moveLegacyBlobs : Flow (Fs B) Err Unit :=
  ExceptT.mk (.call (.lstat (hotBlobs hot)) fun
    | .ok _ => .pure (.ok ())
    | .error .enoent => (do
        os (mkdirAll (hotBlobs hot).dropLast)
        ExceptT.mk (.call (.rename (hot ++ ["blobs"]) (hotBlobs hot)) fun
          | .ok _ => .pure (.ok ())
          | .error e => .pure (.error (.wrap "move legacy blob store"
              (pathErr ⟨"rename", hot ++ ["blobs"], e⟩))))
        os (attempt "symlink" (hot ++ ["blobs"]) (.symlink "gguf/.blobs" (hot ++ ["blobs"]))) :
          Flow (Fs B) Err Unit).prog
    | .error e => .pure (.error (pathErr ⟨"lstat", hotBlobs hot, e⟩)))

/-- `filepath.Join` of a directory with `filepath.Base` of a text. -/
def joinTextBase (dir : Path) (s : String) : Path :=
  join dir (((elements s).filter (· ≠ "")).getLast?.toList)

/-- One link of a file artifact is made anew, to the blob it names. -/
def relinkFile (dir : Path) (file : String) : Flow (Fs B) Err Unit := do
  let path := join dir (elements file)
  let oldTarget ← (ExceptT.mk (.call (.readlink path) fun
    | .ok target => .pure (.ok target)
    | .error e => .pure (.error (.wrap ("read legacy link " ++ file)
        (pathErr ⟨"readlink", path, e⟩)))) : Flow (Fs B) Err String)
  let blob := joinTextBase (hotBlobs hot) oldTarget
  ExceptT.mk (.call (.stat blob) fun
    | .ok (.file _) => (os (replaceSymlink path (relativeBlobLink path blob))).prog
    | _ => .pure (.error (.other ("resolve retained blob for " ++ file))))

/-- `repairHotMaterialization`. -/
def repairHotMaterialization : Flow (Fs B) Err Unit := do
  if r.cache.kind ≠ "huggingface-files" then
    throw (.other "cannot repair invalid non-file hot materialization")
  moveLegacyBlobs hot
  Flow.forEach (relinkFile hot (materializedPath hot r.cache)) r.cache.files

/-! ## Downloads -/

/-- `resolveCacheSpec`. -/
def resolveCacheSpec (spec : CacheSpec) : Flow (Manager B) Err CacheSpec := do
  if spec.kind ≠ "huggingface-hub" ∨ 0 < spec.size then return spec
  info "discovering HuggingFace repository inventory"
    [("repo", spec.repoID), ("revision", spec.revision)]
  match ← ask (.inventory spec.repoID spec.revision) with
  | .error e => throw (.wrap ("discover " ++ spec.repoID ++ "@" ++ spec.revision) e)
  | .ok none => throw (.other ("discover " ++ spec.repoID ++ ": invalid inventory"))
  | .ok (some discovered) =>
    if discovered.size < 1 ∨ discovered.files = [] then
      throw (.other ("discover " ++ spec.repoID ++ ": invalid inventory"))
    info "discovered HuggingFace inventory" [("repo", spec.repoID),
      ("size_bytes", toString discovered.size),
      ("file_count", toString discovered.files.length)]
    return { spec with
      size := discovered.size
      files := discovered.files.insertionSort FMap.KeyLE }

/-- Where `hf download` puts a repository. -/
def downloaded (staging : Path) (spec : CacheSpec) : Path :=
  staging ++ ["hub", hubDirectory spec.repoID]

/-- The copies of `downloadToHot` from its staging directory. -/
def copyDownloaded (staging : Path) : Flow (Fs B) Err Unit :=
  let source := downloaded staging r.cache
  if r.cache.kind = "huggingface-hub" then
    os (copyTree codec source (materializedPath hot r.cache))
  else
    Flow.forEach (fun file => copyHuggingFaceFile codec
      (join (join (source ++ ["snapshots"]) (elements r.cache.revision)) (elements file))
      (join (materializedPath hot r.cache) (elements file)) (hotBlobs hot)) r.cache.files

/-- `downloadToHot`. -/
def downloadToHot : Flow (Manager B) Err Unit := do
  let staging ← onFiles (os (stagingDir (hot ++ ["staging"])))
  Flow.deferring ((removeAll staging).prog.inl ManagerSig) (do
    match ← ask (.download r.cache.repoID r.cache.revision (staging ++ ["hub"]) r.cache.files) with
    | .error e => throw (.other ("download " ++ r.cache.repoID ++ ": " ++ e))
    | .ok _ => onFiles (copyDownloaded codec r hot staging))

/-! ## Requests -/

/-- An error with a text in front of it. -/
def inContext {S : Sig} {α : Type} (context : String) (p : Flow S Err α) : Flow S Err α :=
  ExceptT.mk (do
    match ← p.prog with
    | .ok a => return .ok a
    | .error e => return .error (.wrap context e))

/-- The first part of `ensureArtifact`, for an artifact with a complete marker. -/
def ensureComplete : Flow (Manager B) Err Unit := do
  let key := cacheKey r.cache
  if !(← look (hotArtifactExists r roots.hot)) then
    inContext "repair hot materialization" (onFiles (repairHotMaterialization r roots.hot))
  info "model artifact already complete in hot cache" [("key", key)]
  match ← look (artifactManifestFor codec (roots.coldArtifact r.cache) r.cache) with
  | some _ => pure ()
  | none =>
    info "refreshing cold artifact manifest from hot cache" [("key", key)]
    ask (.archive r)
  ask (.touch (roots.hotArtifact r.cache))
  sweep codec roots.hot key

/-- The branch for a cold hit. -/
def promote (manifest : ArtifactManifest) : Flow (Manager B) Err Unit := do
  info "cold artifact hit, promoting from cold NAS to hot NVMe"
    [("key", cacheKey r.cache), ("files", toString manifest.files.length)]
  onFiles (os (clearMaterialized r roots.hot))
  inContext "promote from cold"
    (onFiles (materialize codec r (roots.coldArtifact r.cache) roots.hot manifest))

/-- The branch without one. -/
def downloadAfresh : Flow (Manager B) Err Unit := do
  info "downloading model directly from HuggingFace to hot NVMe" [("key", cacheKey r.cache)]
  onFiles (os (clearMaterialized r roots.hot))
  inContext "download to hot" (downloadToHot codec r roots.hot)

/-- The files of an artifact whose specification is resolved: from the cold artifact, or from
upstream. -/
def fetchArtifact : Flow (Manager B) Err Unit := do
  match ← look (artifactManifestFor codec (roots.coldArtifact r.cache) r.cache) with
  | some manifest => promote codec roots r manifest
  | none => downloadAfresh codec roots r

/-- The marker of an artifact whose files are hot. -/
def markComplete (marker : Path) (spec : CacheSpec) : Flow (Fs B) PathError Unit := do
  mkdirAll marker
  writeComplete codec marker
  writeFile (marker ++ ["cache.json"]) codec.empty (codec.encode (encodeSpec spec))

/-- What is left to do once the files are hot. -/
def finish : Flow (Manager B) Err Unit := do
  onFiles (os (markComplete codec (roots.hotArtifact r.cache) r.cache))
  info "successfully ensured hot artifact" [("key", cacheKey r.cache)]
  ask (.archive r)

/-- The capacity step: a sweep, and room for what is to come. -/
def capacityStep (hot : Path) (size : Int) : Flow (Manager B) Err Unit := do
  sweep codec hot ""
  makeSpace codec hot size

/-- The rest of `ensureArtifact`, for an artifact without a complete marker. -/
def ensureAbsent : Flow (Manager B) Err Unit := do
  let spec ← resolveCacheSpec r.cache
  let r := { r with cache := spec }
  capacityStep codec roots.hot r.cache.size
  fetchArtifact codec roots r
  finish codec roots r

/-- `ensureArtifact`. -/
def ensureArtifact : Flow (Manager B) Err Unit := do
  if ← look (complete (roots.hotArtifact r.cache)) then
    ensureComplete codec roots r
  else ensureAbsent codec roots r

end

end LlmOperator.Cache
