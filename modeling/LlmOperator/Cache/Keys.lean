import LlmOperator.Cache.Manager
import LlmOperator.Proxy.Backends

/-!
# The keys of one artifact

The operator names the hot marker of a model by the request that its driver makes of the typed
object. The proxy asks for sweeps that spare the active model, and names the marker by the
specification it has parsed from the same object. A sweep leaves alone the marker it is told to
preserve, and no other one.

For llama.cpp both sides take the artifact repository. For vLLM the operator takes the name of the
model, and the proxy the artifact repository or, where there is none, the source. So the two keys
agree exactly when these texts do, after what `cacheKey` replaces in them.
-/

namespace LlmOperator.Cache

open Api Backend Data FileSystem Interaction Proxy

variable {B : Type} (codec : Codec B)

/-! ## What a sweep evicts -/

/-- The first thing that `evict` does with a marker: it opens its `cache.json`. -/
def evictionOf (hot : Path) (name : String) : (Manager B).Op :=
  .inl (.openFile (markers hot ++ [name] ++ ["cache.json"]))

/-- The calls of `os.RemoveAll`. -/
def Removes : FsCall B → Prop
  | .depth | .remove _ | .readNames _ => True
  | _ => False

theorem only_removeEntries {rm : String → Prog (Fs B) (Except PathError Unit)}
    (h : ∀ name, (rm name).Only Removes) (names : List String) :
    (removeEntries rm names).Only Removes := by
  induction names with
  | nil => trivial
  | cons name names ih =>
    refine Prog.only_bind (h name) fun first => ?_
    exact Prog.only_bind ih fun rest => trivial

theorem only_removeAllIn (n : Nat) (p : Path) : (removeAllIn (B := B) n p).Only Removes := by
  induction n generalizing p with
  | zero => trivial
  | succ n ih =>
    refine ⟨trivial, fun r => ?_⟩
    cases r with
    | ok _ => trivial
    | error e =>
      cases e with
      | enotempty =>
        refine ⟨trivial, fun r => ?_⟩
        cases r with
        | error e => cases e <;> trivial
        | ok names =>
          refine Prog.only_bind (only_removeEntries (fun name => ih _) names) fun failed => ?_
          refine ⟨trivial, fun r => ?_⟩
          cases r with
          | ok _ => trivial
          | error e => cases e <;> trivial
      | _ => trivial

theorem only_removeAll (p : Path) : (removeAll (B := B) p).prog.Only Removes := by
  refine ⟨trivial, fun r => ?_⟩
  cases r with
  | ok n => exact only_removeAllIn n p
  | error e => trivial

/-- The files that a call may open. -/
def Opens (S : Set Path) : FsCall B → Prop
  | .openFile p => p ∈ S
  | _ => True

theorem Removes.opens {S : Set Path} {c : FsCall B} (h : Removes c) : Opens S c := by
  cases c <;> trivial

theorem only_evict (hot marker : Path) :
    (evict codec hot marker).prog.Only (Opens {marker ++ ["cache.json"]}) := by
  have hremove : ∀ p, (removeAll (B := B) p).prog.Only (Opens {marker ++ ["cache.json"]}) :=
    fun p =>
    (only_removeAll p).mono (fun _ => Removes.opens) fun _ => id
  have hspec : (recordedSpec codec marker).Only (Opens {marker ++ ["cache.json"]}) := by
    refine Prog.only_bind ⟨rfl, fun r => ?_⟩ fun x => ?_
    · cases r with
      | error e => trivial
      | ok handle =>
        refine ⟨trivial, fun r => ?_⟩
        cases r <;> trivial
    · cases x <;> trivial
  have hfiles : ∀ spec, (evictFiles (B := B) hot spec).Only (Opens {marker ++ ["cache.json"]}) := by
    intro spec
    unfold evictFiles
    split
    · exact Prog.only_bind (hremove _) fun _ => trivial
    · trivial
  refine Flow.only_bind (Flow.only_lift hspec) fun spec => ?_
  exact Flow.only_bind (Flow.only_lift (hfiles spec)) fun _ => hremove marker

/-- The markers that a call of the manager may begin to evict. -/
def Evicts (hot : Path) (names : List String) : (Manager B).Op → Prop
  | .inl c => Opens {p | ∃ name ∈ names, p = markers hot ++ [name] ++ ["cache.json"]} c
  | .inr _ => True

theorem Evicts.mono {hot : Path} {names names' : List String} (h : names ⊆ names')
    {op : (Manager B).Op} (hop : Evicts hot names op) : Evicts hot names' op := by
  match op with
  | .inr _ => trivial
  | .inl c =>
    cases c with
    | openFile p => exact hop.imp fun _ hname => ⟨h hname.1, hname.2⟩
    | _ => trivial

theorem only_cacheUsage (hot : Path) (names : List String) :
    (cacheUsage (B := B)).prog.Only (Evicts hot names) := by
  refine Flow.only_bind ⟨trivial, fun _ => trivial⟩ fun usage => ?_
  cases usage <;> trivial

theorem only_evictUntil (hot : Path) (enough : Int → Bool) (names : List String) :
    (evictUntil codec hot enough names).prog.Only (Evicts hot names) := by
  induction names with
  | nil => trivial
  | cons name names ih =>
    have hevict : (onFiles (ρ := Err) (os (evict codec hot (markers hot ++ [name])))).prog.Only
        (Evicts hot (name :: names)) := by
      refine Prog.yields_inl (Prog.only_bind ((only_evict codec hot _).mono ?_ fun _ => id)
        fun x => ?_)
      · intro c hc
        cases c with
        | openFile p => exact ⟨name, List.mem_cons_self, hc⟩
        | _ => trivial
      · cases x <;> trivial
    refine Flow.only_bind hevict fun _ => Flow.only_bind (only_cacheUsage hot _) fun usage => ?_
    dsimp only
    split
    · trivial
    · exact ih.mono (fun _ => Evicts.mono (List.subset_cons_self name names)) fun _ => id

theorem Evicts.ne_evictionOf {hot : Path} {names : List String} {name : String}
    (hname : name ∉ names) {op : (Manager B).Op} (hop : Evicts hot names op) :
    op ≠ evictionOf hot name := by
  rintro rfl
  obtain ⟨other, hmem, heq⟩ := hop
  have hsame : name = other := by simpa using heq
  exact hname (hsame ▸ hmem)

theorem only_modTimes (hot : Path) (names : List String) :
    (modTimes (B := B) hot names).prog.Only (Evicts hot []) := by
  induction names with
  | nil => trivial
  | cons name names ih =>
    refine Flow.only_bind ⟨trivial, fun _ => trivial⟩ fun info => ?_
    exact Flow.only_bind ih fun _ => trivial

theorem only_markersByAge (hot : Path) :
    (markersByAge (B := B) hot).prog.Only (Evicts hot []) := by
  refine Flow.only_bind (Prog.yields_inl ⟨trivial, fun r => ?_⟩) fun names =>
    Flow.only_bind ⟨trivial, fun _ => trivial⟩ fun order =>
      Flow.only_bind (only_modTimes hot order) fun _ => trivial
  cases r with
  | ok names => trivial
  | error e => cases e <;> trivial

/-- A sweep leaves alone the marker that is to be preserved. -/
theorem only_sweep (hot : Path) (preserve : String) :
    (sweep codec hot preserve).prog.Only fun op => op ≠ evictionOf hot preserve := by
  have hnone : ∀ {op : (Manager B).Op}, Evicts hot [] op → op ≠ evictionOf hot preserve := fun h =>
    h.ne_evictionOf List.not_mem_nil
  refine Flow.only_bind ((only_cacheUsage hot []).mono (fun _ => hnone) fun _ => id) fun usage => ?_
  dsimp only
  split
  · trivial
  refine Flow.only_bind ((only_markersByAge hot).mono (fun _ => hnone) fun _ => id) fun names => ?_
  refine Flow.only_bind ((only_evictUntil codec hot _ _).mono (fun _ h => h.ne_evictionOf ?_)
    fun _ => id) fun _ => trivial
  simp

/-- Any other marker may be evicted: when the volume is full and it is the only one. -/
theorem not_only_sweep (hot : Path) {name preserve : String} (h : name ≠ preserve) :
    ¬ (sweep codec hot preserve).prog.Only fun op => op ≠ evictionOf hot name := by
  intro honly
  have hrest := (((honly.2 (.ok (100, 90))).2 (.ok [name])).2 [name]).2 none
  have hfilter : [name].filter (· ≠ preserve) = [name] := by simp [h]
  have hevict : (evictUntil codec hot (fun used => decide (used ≤ percent 65 100))
      ([name].filter (· ≠ preserve)) >>= fun _ => pure ()).prog.Only
      fun op => op ≠ evictionOf hot name := hrest
  rw [hfilter] at hevict
  exact hevict.1 rfl

/-! ## The two requests -/

/-- Keys of the same kind and revision differ as the repositories do. -/
theorem cacheKey_eq_iff {c c' : CacheSpec} (hkind : c.kind = c'.kind)
    (hrevision : c.revision = c'.revision) :
    cacheKey c = cacheKey c' ↔
      replaceChars keyChar c.repoID = replaceChars keyChar c'.repoID := by
  unfold cacheKey
  simp only [replaceChars_append, hkind, hrevision]
  constructor
  · intro h
    have hlist := congrArg String.toList h
    simp only [String.toList_append] at hlist
    exact String.toList_injective
      (List.append_cancel_left (List.append_cancel_right (List.append_cancel_right hlist)))
  · intro h
    rw [h]

/-- What `sweepCached` sends for a model. -/
def sweepRequestOf (cfg : CatalogModel) : CacheRequest := ⟨cfg.name, cfg.backend, cfg.cache⟩

/-- The repository that the proxy takes for the artifact of a model. -/
def sweptRepository (model : LLMModel) : String :=
  if model.spec.model.artifactRepository = "" then model.spec.model.source
  else model.spec.model.artifactRepository

/-- What the proxy parses for a model with a revision. -/
theorem parseCacheSpec_key {parseQuantity : String → Except Err Int} {object : Json}
    {source backend : String} {cache : CacheSpec}
    (h : parseCacheSpec parseQuantity object source backend = .ok cache)
    (hrevision : optionalString object ["spec", "model", "revision"] ≠ "") :
    cache.kind = (if backend = "llama-cpp" then "huggingface-files" else "huggingface-hub") ∧
      cache.repoID = (if optionalString object ["spec", "model", "artifactRepository"] = ""
        then source else optionalString object ["spec", "model", "artifactRepository"]) ∧
      cache.revision = optionalString object ["spec", "model", "revision"] := by
  unfold parseCacheSpec at h
  dsimp only at h
  rw [if_neg hrevision] at h
  split at h
  · cases h
  obtain ⟨size, _, h⟩ := ok_of_bind h
  by_cases hbackend : backend = "llama-cpp"
  · rw [if_pos hbackend] at h
    obtain ⟨files, _, h⟩ := ok_of_bind h
    cases h
    exact ⟨(if_pos hbackend).symm, rfl, rfl⟩
  · rw [if_neg hbackend] at h
    cases h
    exact ⟨(if_neg hbackend).symm, rfl, rfl⟩

/-- The operator and the proxy name the marker of the artifact alike, and a sweep that is to
preserve the model never evicts it. -/
def OneKey (codec : Codec B) (hot : Path) (ensured swept : CacheRequest) : Prop :=
  cacheKey ensured.cache = cacheKey swept.cache ∧
    (sweep codec hot (cacheKey swept.cache)).prog.Only
      fun op => op ≠ evictionOf hot (cacheKey ensured.cache)

theorem oneKey_iff (hot : Path) {ensured swept : CacheRequest} :
    OneKey codec hot ensured swept ↔ cacheKey ensured.cache = cacheKey swept.cache := by
  constructor
  · exact And.left
  · intro h
    refine ⟨h, ?_⟩
    rw [h]
    exact only_sweep codec hot _

section Models

variable {parseQuantity : String → Except Err Int} {stored : StoredModel} {cfg : CatalogModel}
  {d : RuntimeDriver} {req : CacheRequest}

/-- The proxy knows two runtimes. -/
theorem driver_cases (hd : driverFor stored.model.spec.serving.backend = .ok d)
    (hparse : parseLLMModel parseQuantity stored.object = .ok cfg) :
    (stored.model.spec.serving.backend = .vllm ∧ cfg.backend = "vllm" ∧ d = vllmDriver) ∨
      (stored.model.spec.serving.backend = .llamaCpp ∧ cfg.backend = "llama-cpp" ∧
        d = llamaCPPDriver) := by
  have hdecoded := decoded_of_decodeModelSpec stored.spec
  have hparsed := parsed_of_parseLLMModel hparse
  have hbackend := (sameModel hdecoded hparsed).backend
  have htype := hdecoded.backendType
  rw [← hbackend] at htype
  rcases (parseBackend_ok hparsed.backend).2 with hcfg | hcfg
  · rw [hcfg] at htype
    rw [show stored.model.spec.serving.backend = .vllm from htype] at hd
    cases hd
    exact .inl ⟨htype, hcfg, rfl⟩
  · rw [hcfg] at htype
    rw [show stored.model.spec.serving.backend = .llamaCpp from htype] at hd
    cases hd
    exact .inr ⟨htype, hcfg, rfl⟩

/-- The two keys, by the repositories of the two sides. -/
theorem key_eq_iff (hd : driverFor stored.model.spec.serving.backend = .ok d)
    (hvalid : d.validate stored.model = .ok ())
    (hparse : parseLLMModel parseQuantity stored.object = .ok cfg)
    (hrevision : stored.model.spec.model.revision ≠ "")
    (hreq : d.cacheRequest stored.model = .ok (some req)) :
    cacheKey req.cache = cacheKey (sweepRequestOf cfg).cache ↔
      replaceChars keyChar req.cache.repoID =
        replaceChars keyChar (sweptRepository stored.model) := by
  have hdecoded := decoded_of_decodeModelSpec stored.spec
  have hparsed := parsed_of_parseLLMModel hparse
  have hsame := sameModel hdecoded hparsed
  have hrev := optionalString_eq hdecoded.revision
  obtain ⟨hkind, hrepo, hparsedRev⟩ := parseCacheSpec_key hparsed.cache (hrev.trans_ne hrevision)
  rw [optionalString_eq hdecoded.artifactRepository, hsame.source] at hrepo
  obtain ⟨-, rfl⟩ := RuntimeDriver.cacheRequest_eq_some hvalid hreq
  refine (cacheKey_eq_iff ?_ (hparsedRev.trans hrev).symm).trans ?_
  · show cacheManagerKind d.cacheFormat = cfg.cache.kind
    rw [hkind]
    rcases driver_cases hd hparse with ⟨-, hcfg, rfl⟩ | ⟨-, hcfg, rfl⟩
    · rw [hcfg]
      rfl
    · rw [hcfg]
      rfl
  · exact hrepo ▸ Iff.rfl

/-- A model that both sides accept has one key on both exactly when it is one of llama.cpp, or its
name reads in a key as its artifact repository does, or its source where it declares none. -/
theorem one_key_iff (parseQuantity : String → Except Err Int) (codec : Codec B) (hot : Path)
    (stored : StoredModel) (d : RuntimeDriver) (cfg : CatalogModel) (req : CacheRequest)
    (hd : driverFor stored.model.spec.serving.backend = .ok d)
    (hvalid : d.validate stored.model = .ok ())
    (hparse : parseLLMModel parseQuantity stored.object = .ok cfg)
    (hrevision : stored.model.spec.model.revision ≠ "")
    (hreq : d.cacheRequest stored.model = .ok (some req)) :
    OneKey codec hot req (sweepRequestOf cfg) ↔
      stored.model.spec.serving.backend = .llamaCpp ∨
        replaceChars keyChar stored.model.spec.model.name =
          replaceChars keyChar (sweptRepository stored.model) := by
  rw [oneKey_iff, key_eq_iff hd hvalid hparse hrevision hreq]
  obtain ⟨hcached, rfl⟩ := RuntimeDriver.cacheRequest_eq_some hvalid hreq
  rcases driver_cases hd hparse with ⟨hbackend, -, rfl⟩ | ⟨hbackend, -, rfl⟩
  · rw [hbackend, or_iff_right (by simp)]
    rfl
  · -- A llama.cpp model with an artifact names its repository.
    refine iff_of_true ?_ (.inl hbackend)
    obtain ⟨artifact, hartifact⟩ := Option.ne_none_iff_exists'.mp (hcached.resolve_left nofun)
    have hrepository := (RuntimeDriver.checkedArtifact hvalid hartifact).repository rfl
    show replaceChars keyChar stored.model.spec.model.artifactRepository = _
    rw [sweptRepository, if_neg hrepository]

end Models

/-! ## A model with a name of its own -/

namespace Named

def revision : String := "0123456789abcdef0123456789abcdef01234567"

/-- A vLLM model as it is stored. -/
def object (name source : String) : Json :=
  .obj [("metadata", .obj [("name", .str "qwen")]),
    ("spec", .obj [("model", .obj [("name", .str name), ("source", .str source),
        ("revision", .str revision)]),
      ("serving", .obj [("backend", .str "vllm"), ("displayName", .str "Qwen"),
        ("maxModelLen", .num 4096), ("args", .arr [.str "--verbose"])])])]

def model (name source : String) : LLMModel where
  name := "qwen"
  generation := 1
  resourceVersion := 1
  spec :=
    { model := ⟨name, source, revision, ""⟩
      artifact := none
      serving := ⟨.vllm, "", "", none, ["--verbose"]⟩
      backendRef := none }
  status := ⟨.ready, false, none, none, [], 1⟩

/-- The model has the name of its repository. -/
def plain : StoredModel :=
  ⟨object "Qwen/Qwen3-8B" "Qwen/Qwen3-8B", model "Qwen/Qwen3-8B" "Qwen/Qwen3-8B", by decide +kernel⟩

/-- The model has a name of its own. -/
def renamed : StoredModel :=
  ⟨object "qwen" "Qwen/Qwen3-8B", model "qwen" "Qwen/Qwen3-8B", by decide +kernel⟩

def request (name : String) : CacheRequest :=
  ⟨name, "vllm", ⟨"huggingface-hub", name, revision, 0, [], ""⟩⟩

def parsed (name : String) : CatalogModel where
  name := name
  backend := "vllm"
  backendRef := ""
  modelSource := "Qwen/Qwen3-8B"
  displayName := "Qwen"
  maxModelLen := 4096
  args := ["--verbose"]
  source := "crd/qwen"
  cache := ⟨"huggingface-hub", "Qwen/Qwen3-8B", revision, 0, [], ""⟩

end Named

section Demonstration

open Named

/-- A model with the name of its repository has one key. -/
theorem one_key_iff_plain :
    OneKey Codec.documents ["hot"] (request "Qwen/Qwen3-8B")
      (sweepRequestOf (parsed "Qwen/Qwen3-8B")) := by
  refine (one_key_iff (fun _ => .ok 1) Codec.documents ["hot"] plain vllmDriver _ _ rfl
    ?_ ?_ ?_ ?_).mpr (.inr ?_) <;> decide +kernel

/-- The marker of a model with a name of its own is not the one that the proxy asks to preserve,
and a sweep for the model may evict it. -/
theorem renamed_model_evicted :
    vllmDriver.validate renamed.model = .ok () ∧
      parseLLMModel (fun _ => .ok 1) renamed.object = .ok (parsed "qwen") ∧
      vllmDriver.cacheRequest renamed.model = .ok (some (request "qwen")) ∧
      ¬ OneKey Codec.documents ["hot"] (request "qwen") (sweepRequestOf (parsed "qwen")) ∧
      ¬ (sweep Codec.documents ["hot"] (cacheKey (sweepRequestOf (parsed "qwen")).cache)).prog.Only
        fun op => op ≠ evictionOf ["hot"] (cacheKey (request "qwen").cache) := by
  have hne : cacheKey (request "qwen").cache ≠ cacheKey (sweepRequestOf (parsed "qwen")).cache := by
    decide +kernel
  refine ⟨by decide +kernel, by decide +kernel, by decide +kernel, fun h => hne h.1, ?_⟩
  exact not_only_sweep Codec.documents ["hot"] hne

end Demonstration

/-! ## What a key identifies -/

/-- A character that occurs in a key only for itself. -/
def Plain (c : Char) : Prop := c ≠ '-' ∧ c ≠ '/' ∧ c ≠ '@'

theorem keyChar_plain {c : Char} (h : Plain c) : keyChar c = [c] := by
  unfold keyChar
  rw [if_neg h.2.1, if_neg h.2.2]

theorem flatMap_keyChar {cs : List Char} (h : ∀ c ∈ cs, Plain c) : cs.flatMap keyChar = cs := by
  induction cs with
  | nil => rfl
  | cons c cs ih =>
    rw [List.flatMap_cons, keyChar_plain (h c List.mem_cons_self),
      ih fun d hd => h d (List.mem_cons_of_mem c hd)]
    rfl

/-- Anything else leaves a dash in the key. -/
theorem plain_of_dash_notMem {cs : List Char} (h : '-' ∉ cs.flatMap keyChar) :
    ∀ c ∈ cs, Plain c := by
  intro c hc
  have hdash : '-' ∉ keyChar c := fun hmem => h (List.mem_flatMap.mpr ⟨c, hc, hmem⟩)
  refine ⟨?_, ?_, ?_⟩
  · rintro rfl
    exact hdash (by decide)
  · rintro rfl
    exact hdash (by decide)
  · rintro rfl
    exact hdash (by decide)

/-- A key, by its parts. -/
theorem toList_cacheKey (c : CacheSpec) :
    (cacheKey c).toList = c.kind.toList.flatMap keyChar ++ '-' ::
      (c.repoID.toList.flatMap keyChar ++ '-' :: c.revision.toList.flatMap keyChar) := by
  have hdash : replaceChars keyChar "-" = "-" := by decide +kernel
  unfold cacheKey
  simp only [replaceChars_append, hdash, String.toList_append]
  simp [replaceChars]

/-- The kind can be read off a key. -/
theorem kind_of_cacheKey {c c' : CacheSpec}
    (hc : c.kind = "huggingface-hub" ∨ c.kind = "huggingface-files")
    (hc' : c'.kind = "huggingface-hub" ∨ c'.kind = "huggingface-files")
    (h : cacheKey c = cacheKey c') : c.kind = c'.kind := by
  have hlist := congrArg String.toList h
  rw [toList_cacheKey, toList_cacheKey] at hlist
  have hhub : "huggingface-hub".toList.flatMap keyChar = "huggingface-hub".toList := by
    decide +kernel
  have hfiles : "huggingface-files".toList.flatMap keyChar = "huggingface-files".toList := by
    decide +kernel
  rcases hc with hc | hc <;> rcases hc' with hc' | hc' <;> rw [hc, hc']
  · rw [hc, hc', hhub, hfiles] at hlist
    simp at hlist
  · rw [hc, hc', hhub, hfiles] at hlist
    simp at hlist

/-- What can stand in a text in place of a character without a change of the key. -/
def otherSpelling (c : Char) : List Char :=
  if c = '/' then ['-', '-'] else if c = '@' then ['-'] else ['@']

theorem exists_respelled {cs : List Char} (h : ¬ ∀ c ∈ cs, Plain c) :
    ∃ cs', cs' ≠ [] ∧ cs' ≠ cs ∧ cs'.flatMap keyChar = cs.flatMap keyChar := by
  push Not at h
  obtain ⟨c, hc, hplain⟩ := h
  obtain ⟨before, after, rfl⟩ := List.append_of_mem hc
  have hcases : c = '-' ∨ c = '/' ∨ c = '@' := by
    unfold Plain at hplain
    tauto
  refine ⟨before ++ (otherSpelling c ++ after), ?_, ?_, ?_⟩
  · rcases hcases with rfl | rfl | rfl <;> simp [otherSpelling]
  · intro heq
    have hrest := List.append_cancel_left heq
    rcases hcases with rfl | rfl | rfl
    · simp [otherSpelling] at hrest
    · have hlength := congrArg List.length hrest
      simp [otherSpelling] at hlength
    · simp [otherSpelling] at hrest
  · have hkey : (otherSpelling c).flatMap keyChar = keyChar c := by
      rcases hcases with rfl | rfl | rfl <;> decide
    rw [List.flatMap_append, List.flatMap_append, List.flatMap_append, List.flatMap_cons, hkey]

/-- Among the accepted requests, the key of one tells its kind, repository and revision exactly
when neither text has a dash, a slash or an `@`. -/
theorem key_identifies_iff (r : CacheRequest) (hr : validCacheRequest r = .ok ()) :
    (∀ r', validCacheRequest r' = .ok () → cacheKey r'.cache = cacheKey r.cache →
      r'.cache.kind = r.cache.kind ∧ r'.cache.repoID = r.cache.repoID ∧
        r'.cache.revision = r.cache.revision) ↔
      (∀ c ∈ r.cache.repoID.toList, Plain c) ∧ ∀ c ∈ r.cache.revision.toList, Plain c := by
  have haccepted := validCacheRequest_ok.mp hr
  constructor
  · intro hidentifies
    constructor
    · by_contra hplain
      obtain ⟨cs, hne, hdiff, hsame⟩ := exists_respelled hplain
      have hother : Accepted { r with cache := { r.cache with repoID := String.ofList cs } } :=
        { haccepted with repoID := fun h => hne (by simpa using congrArg String.toList h) }
      have heq := hidentifies _ (validCacheRequest_ok.mpr hother) (String.toList_injective ?_)
      · exact hdiff (by simpa using congrArg String.toList heq.2.1)
      · simp only [toList_cacheKey, String.toList_ofList, hsame]
    · by_contra hplain
      obtain ⟨cs, hne, hdiff, hsame⟩ := exists_respelled hplain
      have hother : Accepted { r with cache := { r.cache with revision := String.ofList cs } } :=
        { haccepted with revision := fun h => hne (by simpa using congrArg String.toList h) }
      have heq := hidentifies _ (validCacheRequest_ok.mpr hother) (String.toList_injective ?_)
      · exact hdiff (by simpa using congrArg String.toList heq.2.2)
      · simp only [toList_cacheKey, String.toList_ofList, hsame]
  · rintro ⟨hrepo, hrevision⟩ r' hr' hkey
    have hkind := kind_of_cacheKey (validCacheRequest_ok.mp hr').kind haccepted.kind hkey
    have hlist := congrArg String.toList hkey
    rw [toList_cacheKey, toList_cacheKey, hkind, flatMap_keyChar hrepo, flatMap_keyChar hrevision]
      at hlist
    have hparts := List.cons.inj (List.append_cancel_left hlist)
    -- One dash is left, so it is the one between the two texts.
    obtain ⟨hrepo', -, hrevision'⟩ := (List.append_cons_inj_of_notMem
      (fun h => (hrepo _ h).1 rfl) fun h => (hrevision _ h).1 rfl).mp hparts.2.symm
    refine ⟨hkind, String.toList_injective ?_, String.toList_injective ?_⟩
    · rw [hrepo', flatMap_keyChar (plain_of_dash_notMem fun h => ?_)]
      exact (hrepo _ (hrepo' ▸ h)).1 rfl
    · rw [hrevision', flatMap_keyChar (plain_of_dash_notMem fun h => ?_)]
      exact (hrevision _ (hrevision' ▸ h)).1 rfl

/-- A hub request. -/
def hubRequestOf (repoID revision : String) : CacheRequest :=
  ⟨"model", "vllm", ⟨"huggingface-hub", repoID, revision, 0, [], ""⟩⟩

theorem key_identifies_gpt2 : validCacheRequest (hubRequestOf "gpt2" "main") = .ok () ∧
    ∀ r', validCacheRequest r' = .ok () →
      cacheKey r'.cache = cacheKey (hubRequestOf "gpt2" "main").cache →
        r'.cache.kind = "huggingface-hub" ∧ r'.cache.repoID = "gpt2" ∧
        r'.cache.revision = "main" := by
  have hvalid : validCacheRequest (hubRequestOf "gpt2" "main") = .ok () := by decide +kernel
  refine ⟨hvalid, (key_identifies_iff (hubRequestOf "gpt2" "main") hvalid).mpr ⟨?_, ?_⟩⟩ <;>
    simp [hubRequestOf, Plain]

/-- A repository of an organisation, and one that is named like its directory. -/
theorem key_of_two_repositories :
    validCacheRequest (hubRequestOf "google/gemma" "main") = .ok () ∧
      validCacheRequest (hubRequestOf "google--gemma" "main") = .ok () ∧
      cacheKey (hubRequestOf "google/gemma" "main").cache =
        cacheKey (hubRequestOf "google--gemma" "main").cache ∧
      (hubRequestOf "google/gemma" "main").cache.repoID ≠
        (hubRequestOf "google--gemma" "main").cache.repoID := by
  decide +kernel

end LlmOperator.Cache
