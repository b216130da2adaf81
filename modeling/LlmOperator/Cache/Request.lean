import LlmOperator.Api.Types
import LlmOperator.Data.Json
import LlmOperator.FileSystem.Path

/-!
# Requests to the cache manager

The body of `/v1/ensure` and `/v1/sweep` as the operator and the proxy encode it
(`internal/cache`, `cmd/llm-proxy/main.go`) and as the cache manager decodes, checks and names
it (`cmd/llm-proxy/cache_manager.go`). The structures on the two sides are written twice in the
source, with the same field names.
-/

namespace LlmOperator.Cache

open Api Data Data.GoString FileSystem

/-! ## The body -/

/-- `json.Marshal` of a cache specification: an empty file list and an empty target are left
out. -/
def encodeSpec (c : CacheSpec) : Json :=
  .obj ([("kind", .str c.kind), ("repo_id", .str c.repoID), ("revision", .str c.revision),
    ("size_bytes", .num c.size)] ++
    (if c.files = [] then [] else [("files", .arr (c.files.map Json.str))]) ++
    (if c.materializationTarget = "" then []
      else [("materialization_target", .str c.materializationTarget)]))

def encodeRequest (r : CacheRequest) : Json :=
  .obj [("model", .str r.model), ("backend", .str r.backend), ("cache", encodeSpec r.cache)]

def zeroSpec : CacheSpec := ⟨"", "", "", 0, [], ""⟩

def specFields : Json.Fields CacheSpec :=
  [("kind", Json.setString fun s c => { c with kind := s }),
    ("repo_id", Json.setString fun s c => { c with repoID := s }),
    ("revision", Json.setString fun s c => { c with revision := s }),
    ("size_bytes", Json.setInt64 fun n c => { c with size := n }),
    ("files", Json.setStrings fun fs c => { c with files := fs }),
    ("materialization_target", Json.setString fun s c => { c with materializationTarget := s })]

/-- `json.Unmarshal` into a cache specification that has the zero value. -/
def decodeSpec (body : Json) : Except String CacheSpec := specFields.decode zeroSpec body

def requestFields : Json.Fields CacheRequest :=
  [("model", Json.setString fun s r => { r with model := s }),
    ("backend", Json.setString fun s r => { r with backend := s }),
    ("cache", fun r v => do return { r with cache := ← specFields.decode r.cache v })]

def decodeRequest (body : Json) : Except String CacheRequest :=
  requestFields.decode ⟨"", "", zeroSpec⟩ body

/-- The sizes a specification of the source can hold. -/
def IsInt64 (n : Int) : Prop := -2 ^ 63 ≤ n ∧ n < 2 ^ 63

instance (n : Int) : Decidable (IsInt64 n) := by unfold IsInt64; infer_instance

variable (c : CacheSpec)

theorem entry_kind (s : String) : specFields.entry c ("kind", .str s) = .ok { c with kind := s } :=
  Json.Fields.entry_eq specFields "kind" 0 rfl (by decide +kernel) c (.str s)

theorem entry_repoID (s : String) :
    specFields.entry c ("repo_id", .str s) = .ok { c with repoID := s } :=
  Json.Fields.entry_eq specFields "repo_id" 1 rfl (by decide +kernel) c (.str s)

theorem entry_revision (s : String) :
    specFields.entry c ("revision", .str s) = .ok { c with revision := s } :=
  Json.Fields.entry_eq specFields "revision" 2 rfl (by decide +kernel) c (.str s)

theorem entry_size {n : Int} (h : IsInt64 n) :
    specFields.entry c ("size_bytes", .num n) = .ok { c with size := n } :=
  (Json.Fields.entry_eq specFields "size_bytes" 3 rfl (by decide +kernel) c (.num n)).trans
    (if_pos h)

theorem entry_files (files : List String) :
    specFields.entry c ("files", .arr (files.map Json.str)) = .ok { c with files := files } := by
  rw [Json.Fields.entry_eq specFields "files" 4 rfl (by decide +kernel)]
  exact Json.setStrings_arr (fun fs c => { c with files := fs }) c files

theorem entry_target (s : String) :
    specFields.entry c ("materialization_target", .str s) =
      .ok { c with materializationTarget := s } :=
  Json.Fields.entry_eq specFields "materialization_target" 5 rfl (by decide +kernel) c (.str s)

/-- What was left out is what the zero value has. -/
theorem decodeSpec_encodeSpec {c : CacheSpec} (h : IsInt64 c.size) :
    decodeSpec (encodeSpec c) = .ok c := by
  obtain ⟨kind, repoID, revision, size, files, target⟩ := c
  show List.foldlM specFields.entry zeroSpec _ = _
  rw [List.foldlM_append, List.foldlM_append]
  simp only [List.foldlM_cons, List.foldlM_nil, entry_kind, entry_repoID, entry_revision,
    entry_size _ h, bind, Except.bind, pure, Except.pure]
  by_cases hfiles : files = [] <;> by_cases htarget : target = "" <;>
    simp [hfiles, htarget, entry_files, entry_target, bind, Except.bind, pure, Except.pure,
      zeroSpec]

theorem decodeRequest_encodeRequest {r : CacheRequest} (h : IsInt64 r.cache.size) :
    decodeRequest (encodeRequest r) = .ok r := by
  show List.foldlM requestFields.entry ⟨"", "", zeroSpec⟩ _ = _
  have hmodel : ∀ q : CacheRequest, requestFields.entry q ("model", .str r.model) =
      .ok { q with model := r.model } := fun q =>
    Json.Fields.entry_eq requestFields "model" 0 rfl (by decide +kernel) q (.str r.model)
  have hbackend : ∀ q : CacheRequest, requestFields.entry q ("backend", .str r.backend) =
      .ok { q with backend := r.backend } := fun q =>
    Json.Fields.entry_eq requestFields "backend" 1 rfl (by decide +kernel) q (.str r.backend)
  have hcache : requestFields.entry ⟨r.model, r.backend, zeroSpec⟩ ("cache", encodeSpec r.cache) =
      .ok r := by
    refine (Json.Fields.entry_eq requestFields "cache" 2 rfl (by decide +kernel) _ _).trans ?_
    show (do return CacheRequest.mk r.model r.backend (← decodeSpec (encodeSpec r.cache)) :
      Except String CacheRequest) = _
    rw [decodeSpec_encodeSpec h]
    rfl
  simp only [List.foldlM_cons, List.foldlM_nil, hmodel, hbackend, bind, Except.bind,
    hcache, pure, Except.pure]

/-! ## Validation -/

/-- `validMaterializationTarget`. -/
def validMaterializationTarget (target : String) : Except Err Unit :=
  if target = "" ∨ hasPrefix target "/" ∨ cleanPath target ≠ target ∨ target = "gguf" ∨
      !hasPrefix target "gguf/" then
    .error (.other "file cache requires a clean materialization_target below gguf/")
  else .ok ()

/-- `validCacheRequest`. -/
def validCacheRequest (r : CacheRequest) : Except Err Unit := do
  if r.model = "" ∨ (r.backend ≠ "vllm" ∧ r.backend ≠ "llama-cpp") then
    throw (.other "model and supported backend are required")
  if (r.cache.kind ≠ "huggingface-hub" ∧ r.cache.kind ≠ "huggingface-files") ∨
      r.cache.repoID = "" ∨ r.cache.revision = "" ∨ r.cache.size < 0 then
    throw (.other "invalid immutable cache specification")
  if r.cache.kind = "huggingface-files" ∧ (r.cache.files = [] ∨ r.cache.size < 1) then
    throw (.other "file cache requires files")
  if r.cache.kind = "huggingface-files" then
    validMaterializationTarget r.cache.materializationTarget
  else if r.cache.materializationTarget ≠ "" then
    throw (.other "hub cache must not set materialization_target")

/-- What an accepted materialization target looks like. -/
structure GoodTarget (target : String) : Prop where
  ne_empty : target ≠ ""
  relative : hasPrefix target "/" = false
  clean : cleanPath target = target
  ne_gguf : target ≠ "gguf"
  below : hasPrefix target "gguf/" = true

theorem validMaterializationTarget_ok {target : String} :
    validMaterializationTarget target = .ok () ↔ GoodTarget target := by
  unfold validMaterializationTarget
  constructor
  · intro h
    split at h
    · cases h
    · rename_i hn
      simp only [not_or, Bool.not_eq_true', Bool.not_eq_true, Bool.not_eq_false, not_not] at hn
      exact ⟨hn.1, hn.2.1, hn.2.2.1, hn.2.2.2.1, hn.2.2.2.2⟩
  · intro h
    refine if_neg ?_
    simp only [not_or, Bool.not_eq_true', Bool.not_eq_true, Bool.not_eq_false, not_not]
    exact ⟨h.ne_empty, h.relative, h.clean, h.ne_gguf, h.below⟩

/-- What an accepted request looks like, field by field. -/
structure Accepted (r : CacheRequest) : Prop where
  model : r.model ≠ ""
  backend : r.backend = "vllm" ∨ r.backend = "llama-cpp"
  kind : r.cache.kind = "huggingface-hub" ∨ r.cache.kind = "huggingface-files"
  repoID : r.cache.repoID ≠ ""
  revision : r.cache.revision ≠ ""
  size : 0 ≤ r.cache.size
  hub : r.cache.kind = "huggingface-hub" → r.cache.materializationTarget = ""
  files : r.cache.kind = "huggingface-files" → r.cache.files ≠ [] ∧ 1 ≤ r.cache.size ∧
    GoodTarget r.cache.materializationTarget

theorem validCacheRequest_ok {r : CacheRequest} : validCacheRequest r = .ok () ↔ Accepted r := by
  unfold validCacheRequest
  by_cases h₁ : r.model = "" ∨ (r.backend ≠ "vllm" ∧ r.backend ≠ "llama-cpp")
  · simp only [h₁, if_true]
    refine ⟨(nomatch ·), fun h => absurd h₁ ?_⟩
    have := h.backend
    simp only [h.model, false_or]
    tauto
  by_cases h₂ : (r.cache.kind ≠ "huggingface-hub" ∧ r.cache.kind ≠ "huggingface-files") ∨
      r.cache.repoID = "" ∨ r.cache.revision = "" ∨ r.cache.size < 0
  · simp only [h₁, h₂, if_true, if_false]
    refine ⟨(nomatch ·), fun h => absurd h₂ ?_⟩
    have := h.kind
    simp only [h.repoID, h.revision, not_lt.mpr h.size, or_false]
    tauto
  simp only [h₁, h₂, if_false]
  simp only [not_or, not_and_or, not_not, not_lt] at h₁ h₂
  obtain ⟨hkind, hrepo, hrev, hsize⟩ := h₂
  rcases hkind with hk | hk
  · have hne : r.cache.kind ≠ "huggingface-files" := by rw [hk]; decide
    by_cases ht : r.cache.materializationTarget = ""
    · refine ⟨fun _ => ⟨h₁.1, h₁.2, .inl hk, hrepo, hrev, hsize, fun _ => ht,
        fun h => absurd h hne⟩,
        fun _ => ?_⟩
      simp [hne, ht]
      rfl
    · refine ⟨fun h => ?_, fun h => absurd (h.hub hk) ht⟩
      simp [hne, ht] at h
  · by_cases hf : r.cache.files = [] ∨ r.cache.size < 1
    · refine ⟨fun h => ?_, fun h => ?_⟩
      · simp only [hk, hf, and_self, if_true] at h
        cases h
      · obtain ⟨hfiles, hpos, _⟩ := h.files hk
        exact absurd hf (not_or.mpr ⟨hfiles, by omega⟩)
    · have hchecked : (validMaterializationTarget r.cache.materializationTarget = .ok () ↔
          Accepted r) := by
        rw [validMaterializationTarget_ok]
        refine ⟨fun h => ⟨h₁.1, h₁.2, .inr hk, hrepo, hrev, hsize, fun h' => ?_, fun _ => ?_⟩,
          fun h => (h.files hk).2.2⟩
        · rw [hk] at h'
          exact absurd h' (by decide)
        · rw [not_or] at hf
          exact ⟨hf.1, by omega, h⟩
      rw [← hchecked]
      simp only [hk, hf, and_false, if_true, if_false]

/-! ## Targets -/

theorem text_map_ofList (es : List (List Char)) :
    text (es.map String.ofList) = String.ofList (List.intercalate ['/'] es) := by
  induction es with
  | nil => rfl
  | cons e es ih =>
    cases es with
    | nil => simp [text]
    | cons f es =>
      rw [List.map_cons, List.map_cons, text, ← List.map_cons, ih, List.intercalate_cons_cons,
        String.ofList_append, String.ofList_append]
      simp

/-- A clean stack: names on top of any number of `..`. -/
def CleanStack (stack : List (List Char)) : Prop :=
  ∃ names ups : List (List Char), stack = names ++ ups ∧ (∀ e ∈ names, IsName (String.ofList e)) ∧
    ∀ e ∈ ups, e = ['.', '.']

theorem cleanStack_step {stack : List (List Char)} (h : CleanStack stack) {e : List Char}
    (he : '/' ∉ e) : CleanStack (cleanStep false stack e) := by
  obtain ⟨names, ups, rfl, hnames, hups⟩ := h
  unfold cleanStep
  split
  · exact ⟨names, ups, rfl, hnames, hups⟩
  · rename_i hne
    rw [not_or] at hne
    split
    · rename_i hup
      cases names with
      | nil =>
        rw [List.nil_append]
        cases ups with
        | nil => exact ⟨[], [e], rfl, nofun, by simpa using hup⟩
        | cons top rest =>
          have htop : top = ['.', '.'] := hups top List.mem_cons_self
          dsimp only
          rw [if_pos htop]
          refine ⟨[], e :: top :: rest, rfl, nofun, fun f hf => ?_⟩
          rcases List.mem_cons.mp hf with rfl | hf
          · exact hup
          · exact hups f hf
      | cons top rest =>
        have htop : top ≠ ['.', '.'] := fun h => by
          have := (hnames top List.mem_cons_self).2.2.1
          rw [h] at this
          exact this rfl
        rw [List.cons_append]
        dsimp only
        rw [if_neg htop]
        exact ⟨rest, ups, rfl, fun f hf => hnames f (List.mem_cons_of_mem top hf), hups⟩
    · rename_i hup
      refine ⟨e :: names, ups, rfl, fun f hf => ?_, hups⟩
      rcases List.mem_cons.mp hf with rfl | hf
      · have hofList : ∀ cs : List Char, String.ofList f = String.ofList cs → f = cs := fun cs h =>
          String.ofList_inj.mp h
        refine ⟨fun h => hne.1 (hofList [] h), fun h => hne.2 (hofList ['.'] h),
          fun h => hup (hofList ['.', '.'] h), ?_⟩
        rwa [String.toList_ofList]
      · exact hnames f hf

theorem cleanStack_foldl {es stack : List (List Char)} (hes : ∀ e ∈ es, '/' ∉ e)
    (h : CleanStack stack) : CleanStack (es.foldl (cleanStep false) stack) := by
  induction es generalizing stack with
  | nil => exact h
  | cons e es ih =>
    exact ih (fun f hf => hes f (List.mem_cons_of_mem e hf))
      (cleanStack_step h (hes e List.mem_cons_self))

/-- An accepted target is a path below `gguf`. -/
theorem GoodTarget.elements_eq {target : String} (h : GoodTarget target) :
    ∃ rest, elements target = "gguf" :: rest ∧ rest ≠ [] ∧ Proper rest := by
  obtain ⟨ds, hds⟩ : ∃ ds, target.toList = "gguf".toList ++ '/' :: ds := by
    obtain ⟨ds, hds⟩ := List.isPrefixOf_iff_prefix.mp h.below
    exact ⟨ds, hds.symm⟩
  have helements : elements target = "gguf" :: (splitSlash ds).map String.ofList := by
    unfold elements
    rw [hds, splitSlash_append (by decide)]
    rfl
  refine ⟨_, helements, fun he => splitSlash_ne_nil ds (List.map_eq_nil_iff.mp he), ?_⟩
  -- The target is the text of the elements that `path.Clean` keeps.
  obtain ⟨names, ups, hstack, hnames, hups⟩ :
      CleanStack ((splitSlash target.toList).foldl (cleanStep false) []) :=
    cleanStack_foldl (slash_notMem_splitSlash target.toList) ⟨[], [], rfl, nofun, nofun⟩
  have hclean := h.clean
  unfold cleanPath at hclean
  simp only [h.relative, hstack, Bool.false_eq_true, if_false] at hclean
  split at hclean
  · rw [← hclean] at hds
    exact absurd (congrArg List.length hds) (by simp)
  · rename_i hbody
    rw [← text_map_ofList] at hclean
    have hslash : ∀ e ∈ ((names ++ ups).reverse.map String.ofList), '/' ∉ e.toList := by
      intro e he
      obtain ⟨cs, hcs, rfl⟩ := List.mem_map.mp he
      rcases List.mem_append.mp (List.mem_reverse.mp hcs) with hcs | hcs
      · exact (hnames cs hcs).2.2.2
      · rw [hups cs hcs]
        decide
    have hne : ((names ++ ups).reverse.map String.ofList) ≠ [] := fun he => hbody (by
      rw [List.map_eq_nil_iff.mp he]
      rfl)
    have hkept := elements_text hne hslash
    rw [hclean, helements, List.reverse_append, List.map_append] at hkept
    have hnil : ups = [] := by
      rcases List.eq_nil_or_concat ups with hnil | ⟨init, last, hlast⟩
      · exact hnil
      · rw [hlast, List.concat_eq_append, List.reverse_append] at hkept
        have hhead := congrArg List.head? hkept
        rw [hups last (by rw [hlast]; simp)] at hhead
        exact absurd hhead (by simp)
    rw [hnil] at hkept
    intro n hn
    have hmem : n ∈ names.reverse.map String.ofList := by
      have := List.mem_cons_of_mem "gguf" hn
      rw [hkept] at this
      simpa using this
    obtain ⟨cs, hcs, rfl⟩ := List.mem_map.mp hmem
    exact hnames cs (List.mem_reverse.mp hcs)

/-! ## Names -/

/-- `strings.NewReplacer` with single characters to replace. -/
def replaceChars (f : Char → List Char) (s : String) : String :=
  String.ofList (s.toList.flatMap f)

theorem replaceChars_append (f : Char → List Char) (s t : String) :
    replaceChars f (s ++ t) = replaceChars f s ++ replaceChars f t := by
  unfold replaceChars
  rw [String.toList_append, List.flatMap_append, String.ofList_append]

def keyChar (c : Char) : List Char :=
  if c = '/' then ['-', '-'] else if c = '@' then ['-'] else [c]

/-- `cacheKey`. -/
def cacheKey (c : CacheSpec) : String :=
  replaceChars keyChar (c.kind ++ "-" ++ c.repoID ++ "-" ++ c.revision)

def slashChar (c : Char) : List Char := if c = '/' then ['-', '-'] else [c]

/-- The directory of a repository below `hub`. -/
def hubDirectory (repoID : String) : String := "models--" ++ replaceChars slashChar repoID

/-- `materializedPath`. -/
def materializedPath (hot : Path) (spec : CacheSpec) : Path :=
  if spec.kind = "huggingface-hub" then hot ++ ["hub", hubDirectory spec.repoID]
  else join hot (elements spec.materializationTarget)

/-- The files of an accepted specification lie below `hub` or below `gguf`. -/
theorem materializedPath_files {spec : CacheSpec} (hkind : spec.kind ≠ "huggingface-hub")
    (htarget : GoodTarget spec.materializationTarget) (hot : Path) :
    ∃ rest, materializedPath hot spec = hot ++ "gguf" :: rest ∧ rest ≠ [] ∧ Proper rest := by
  obtain ⟨rest, hrest, hne, hproper⟩ := htarget.elements_eq
  refine ⟨rest, ?_, hne, hproper⟩
  unfold materializedPath
  rw [if_neg hkind, hrest, join_proper]
  intro n hn
  rcases List.mem_cons.mp hn with rfl | hn
  · decide
  · exact hproper n hn

/-- A key names one entry of a directory. -/
theorem isName_cacheKey : IsName (cacheKey c) := by
  have hdash : '-' ∈ (cacheKey c).toList := by
    unfold cacheKey replaceChars
    rw [String.toList_ofList, List.mem_flatMap]
    refine ⟨'-', ?_, by decide⟩
    simp only [String.toList_append, List.mem_append]
    exact .inl (.inl (.inl (.inr (by decide))))
  have hne : ∀ s : String, '-' ∉ s.toList → cacheKey c ≠ s := fun s hs h => hs (h ▸ hdash)
  refine ⟨hne "" (by decide), hne "." (by decide), hne ".." (by decide), fun h => ?_⟩
  unfold cacheKey replaceChars at h
  rw [String.toList_ofList, List.mem_flatMap] at h
  obtain ⟨d, _, hd⟩ := h
  unfold keyChar at hd
  split at hd
  · exact absurd hd (by decide)
  · split at hd
    · exact absurd hd (by decide)
    · rename_i hslash _
      exact hslash (List.mem_singleton.mp hd).symm

/-- The roots of the two caches. -/
structure Roots where
  hot : Path
  cold : Path
  hotProper : Proper hot
  coldProper : Proper cold
  apart : Apart hot cold

namespace Roots

/-- The cold artifact with the key of a specification. -/
def coldArtifact (roots : Roots) (spec : CacheSpec) : Path :=
  roots.cold ++ ["artifacts", cacheKey spec]

/-- The marker of a hot artifact. -/
def hotArtifact (roots : Roots) (spec : CacheSpec) : Path :=
  roots.hot ++ [".llm-cache", cacheKey spec]

variable (roots : Roots)

theorem coldArtifact_dropLast (spec : CacheSpec) :
    (roots.coldArtifact spec).dropLast = roots.cold ++ ["artifacts"] := by
  simp [coldArtifact]

theorem proper_coldArtifact (spec : CacheSpec) : Proper (roots.coldArtifact spec) := by
  refine roots.coldProper.append fun n hn => ?_
  simp only [List.mem_cons, List.not_mem_nil, or_false] at hn
  rcases hn with rfl | rfl
  · decide
  · exact isName_cacheKey spec

/-- What is below one root is apart from what is below the other. -/
theorem apart_below (p q : Path) : Apart (roots.hot ++ p) (roots.cold ++ q) :=
  roots.apart.below (List.prefix_append _ p) (List.prefix_append _ q)

end Roots

end LlmOperator.Cache
