import LlmOperator.Cache.Request
import LlmOperator.Data.JsonCode

/-!
# Artifact manifests

The file `artifact.json` of a cold artifact: the specification it was made for and the inventory of
its payload. The bytes of files are abstract: `Codec` says what the cache manager computes from
them, their number and their SHA-256 sum, and how documents are written as bytes and read back.
-/

namespace LlmOperator.Cache

open Api Data Data.GoString FileSystem

/-- The bytes of files, as far as the cache manager looks at them. -/
structure Codec (B : Type) where
  empty : B
  size : B → Nat
  sha256 : B → String
  encode : Json → B
  decode : B → Option Json
  /-- The time that `writeComplete` writes; nothing reads it. -/
  stamp : B
  size_lt : ∀ b, (size b : Int) < 2 ^ 63
  sha256_ne : ∀ b, sha256 b ≠ ""
  decode_encode : ∀ j, decode (encode j) = some j

/-- Files that hold documents, with sums that tell them apart. -/
def Codec.documents : Codec Json where
  empty := .null
  size _ := 0
  sha256 := Json.codeText
  encode j := j
  decode j := some j
  stamp := .null
  size_lt _ := by decide
  sha256_ne := Json.codeText_ne
  decode_encode _ := rfl

structure ArtifactFile where
  path : String
  size : Int
  sha256 : String
  symlinkTo : String
  deriving DecidableEq

structure ArtifactManifest where
  version : Int
  cache : CacheSpec
  files : List ArtifactFile

/-! ## Encoding -/

/-- `json.Marshal` of an entry: empty fields are left out. -/
def encodeFile (f : ArtifactFile) : Json :=
  .obj ([("path", .str f.path)] ++ (if f.size = 0 then [] else [("size", .num f.size)]) ++
    (if f.sha256 = "" then [] else [("sha256", .str f.sha256)]) ++
    (if f.symlinkTo = "" then [] else [("symlink_to", .str f.symlinkTo)]))

/-- `json.Marshal` of a manifest: a list without entries is `null`. -/
def encodeManifest (m : ArtifactManifest) : Json :=
  .obj [("version", .num m.version), ("cache", encodeSpec m.cache),
    ("files", if m.files = [] then .null else .arr (m.files.map encodeFile))]

def fileFields : Json.Fields ArtifactFile :=
  [("path", Json.setString fun s f => { f with path := s }),
    ("size", Json.setInt64 fun n f => { f with size := n }),
    ("sha256", Json.setString fun s f => { f with sha256 := s }),
    ("symlink_to", Json.setString fun s f => { f with symlinkTo := s })]

def decodeFile (body : Json) : Except String ArtifactFile := fileFields.decode ⟨"", 0, "", ""⟩ body

def manifestFields : Json.Fields ArtifactManifest :=
  [("version", Json.setInt64 fun n m => { m with version := n }),
    ("cache", fun m v => do return { m with cache := ← specFields.decode m.cache v }),
    ("files", Json.setArray decodeFile fun fs m => { m with files := fs })]

/-- `json.Unmarshal` into a manifest that has the zero value. -/
def decodeManifest (body : Json) : Except String ArtifactManifest :=
  manifestFields.decode ⟨0, zeroSpec, []⟩ body

theorem decodeFile_encodeFile {f : ArtifactFile} (h : IsInt64 f.size) :
    decodeFile (encodeFile f) = .ok f := by
  obtain ⟨path, size, sha, link⟩ := f
  have hpath : ∀ g s, fileFields.entry g ("path", .str s) = .ok { g with path := s } := fun g s =>
    Json.Fields.entry_eq fileFields "path" 0 rfl (by decide +kernel) g (.str s)
  have hsize : ∀ g, fileFields.entry g ("size", .num size) = .ok { g with size := size } := fun g =>
    (Json.Fields.entry_eq fileFields "size" 1 rfl (by decide +kernel) g (.num size)).trans
      (if_pos h)
  have hsha : ∀ g s, fileFields.entry g ("sha256", .str s) = .ok { g with sha256 := s } :=
    fun g s =>
    Json.Fields.entry_eq fileFields "sha256" 2 rfl (by decide +kernel) g (.str s)
  have hlink : ∀ g s, fileFields.entry g ("symlink_to", .str s) = .ok { g with symlinkTo := s } :=
    fun g s => Json.Fields.entry_eq fileFields "symlink_to" 3 rfl (by decide +kernel) g (.str s)
  show List.foldlM fileFields.entry _ _ = _
  rw [List.foldlM_append, List.foldlM_append, List.foldlM_append]
  by_cases h₁ : size = 0 <;> by_cases h₂ : sha = "" <;> by_cases h₃ : link = "" <;>
    simp [h₁, h₂, h₃, hpath, hsize, hsha, hlink, bind, Except.bind, pure, Except.pure]

theorem mapM_decodeFile {files : List ArtifactFile} (h : ∀ f ∈ files, IsInt64 f.size) :
    (files.map encodeFile).mapM decodeFile = .ok files := by
  induction files with
  | nil => rfl
  | cons f files ih =>
    rw [List.map_cons, List.mapM_cons, decodeFile_encodeFile (h f List.mem_cons_self),
      ih fun g hg => h g (List.mem_cons_of_mem f hg)]
    rfl

/-- What is written as a manifest is read back. -/
theorem decodeManifest_encodeManifest {m : ArtifactManifest} (hversion : IsInt64 m.version)
    (hsize : IsInt64 m.cache.size) (hfiles : ∀ f ∈ m.files, IsInt64 f.size) :
    decodeManifest (encodeManifest m) = .ok m := by
  obtain ⟨version, cache, files⟩ := m
  have hversion' : ∀ g, manifestFields.entry g ("version", .num version) =
      .ok { g with version := version } := fun g =>
    (Json.Fields.entry_eq manifestFields "version" 0 rfl (by decide +kernel) g (.num version)).trans
      (if_pos hversion)
  have hcache : manifestFields.entry ⟨version, zeroSpec, []⟩ ("cache", encodeSpec cache) =
      .ok ⟨version, cache, []⟩ := by
    refine (Json.Fields.entry_eq manifestFields "cache" 1 rfl (by decide +kernel) _ _).trans ?_
    show (do return ArtifactManifest.mk version (← decodeSpec (encodeSpec cache)) [] :
      Except String ArtifactManifest) = _
    rw [decodeSpec_encodeSpec hsize]
    rfl
  have hentries : ∀ v, manifestFields.entry ⟨version, cache, []⟩ ("files", v) =
      Json.setArray decodeFile (fun fs m => { m with files := fs }) ⟨version, cache, []⟩ v :=
        fun v =>
    Json.Fields.entry_eq manifestFields "files" 2 rfl (by decide +kernel) _ v
  show List.foldlM manifestFields.entry ⟨0, zeroSpec, []⟩ _ = _
  simp only [List.foldlM_cons, List.foldlM_nil, hversion', hcache, hentries, bind, Except.bind]
  by_cases hnil : files = []
  · subst hnil
    rfl
  · simp only [hnil, if_false, Json.setArray, mapM_decodeFile hfiles, bind, Except.bind]
    rfl

/-! ## Validation -/

/-- `sameCacheSpec`: a size or a file list that is not asked for may be any. -/
def sameCacheSpec (got want : CacheSpec) : Bool :=
  got.kind == want.kind && got.repoID == want.repoID && got.revision == want.revision &&
    (want.size == 0 || got.size == want.size) &&
    (want.files.length == 0 || got.files == want.files)

/-- `validArtifactManifest`. -/
def validArtifactManifest (got : ArtifactManifest) (want : CacheSpec) : Bool :=
  got.version == 1 && sameCacheSpec got.cache want && decide (0 < got.files.length)

end LlmOperator.Cache
