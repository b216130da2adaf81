import LlmOperator.Cache.Operation

/-!
# Eviction

What `evict` removes is named by the `cache.json` of the marker: a directory below `hub`, or a
target below `gguf`. `sweep` and `makeSpace` evict one marker after the other. The rules below
follow a whole sweep by an invariant `I` of the tree and by what `N` says of the markers that are
still to be evicted.
-/

namespace LlmOperator.Cache

open Api Data FileSystem Interaction Safe

variable {B : Type} {spec : CacheSpec}

/-! ## What a marker records -/

theorem specIn_encode (codec : Codec B) (h : IsInt64 spec.size) :
    specIn codec (codec.encode (encodeSpec spec)) = spec := by
  unfold specIn
  rw [codec.decode_encode]
  exact Json.Fields.skim_of_decode (decodeSpec_encodeSpec h)

/-- A specification whose files lie below `hub` or below `gguf`. -/
def Confined (spec : CacheSpec) : Prop :=
  spec.kind = "huggingface-hub" ∨ GoodTarget spec.materializationTarget

theorem Accepted.confined {r : CacheRequest} (h : Accepted r) : Confined r.cache :=
  h.kind.imp id fun hk => (h.files hk).2.2

theorem Confined.path (h : Confined spec) (hot : Path) :
    ∃ n rest, materializedPath hot spec = hot ++ n :: rest ∧ (n = "hub" ∨ n = "gguf") ∧
      rest ≠ [] ∧ Proper rest := by
  by_cases hk : spec.kind = "huggingface-hub"
  · refine ⟨"hub", [hubDirectory spec.repoID], materializedPath_hub hk hot, .inl rfl,
      List.cons_ne_nil _ _, proper_singleton (isName_hubDirectory _)⟩
  · obtain ⟨rest, hrest, hne, hproper⟩ := materializedPath_files hk (h.resolve_left hk) hot
    exact ⟨"gguf", rest, hrest, .inr rfl, hne, hproper⟩

/-- The files of an artifact lie apart from the markers. -/
theorem Confined.apart_markers (h : Confined spec) (hot p : Path) :
    Apart (materializedPath hot spec) (markers hot ++ p) := by
  obtain ⟨n, rest, hpath, hn, _⟩ := h.path hot
  have hne : n ≠ ".llm-cache" := by rcases hn with rfl | rfl <;> decide
  have := apart_entries hot hne rest p
  rw [hpath]
  unfold markers
  rwa [List.append_assoc]

theorem Confined.ne_nil (h : Confined spec) (hot : Path) : materializedPath hot spec ≠ [] := by
  obtain ⟨n, rest, hpath, _⟩ := h.path hot
  rw [hpath]
  simp

/-- The `cache.json` of a marker, if there is one, is no link, and what it names lies below `hub`
or below `gguf`. -/
structure Recorded (codec : Codec B) (hot : Path) (t : FileTree B) (name : String) : Prop where
  no_link : ∀ target, t.node (markers hot ++ [name] ++ ["cache.json"]) ≠ some (.link target)
  confined : ∀ b, t.node (markers hot ++ [name] ++ ["cache.json"]) = some (.file b) →
    Evictable (specIn codec b) → Confined (specIn codec b)

theorem Recorded.of_node {codec : Codec B} {hot : Path} {t t' : FileTree B} {name : String}
    (h : Recorded codec hot t name) (hnode : t'.node (markers hot ++ [name] ++ ["cache.json"]) =
      t.node (markers hot ++ [name] ++ ["cache.json"])) : Recorded codec hot t' name :=
  ⟨hnode ▸ h.no_link, hnode ▸ h.confined⟩

theorem recorded_of_none {codec : Codec B} {hot : Path} {t : FileTree B} {name : String}
    (h : t.node (markers hot ++ [name] ++ ["cache.json"]) = none) : Recorded codec hot t name := by
  constructor
  · intro target hlink
    rw [h] at hlink
    cases hlink
  · intro b hfile
    rw [h] at hfile
    cases hfile

/-- What an eviction may remove. -/
def evicts (codec : Codec B) (hot : Path) (t : FileTree B) (marker : Path) : Footprint :=
  ⟨{q | marker <+: q ∨ ∃ b, t.node (marker ++ ["cache.json"]) = some (.file b) ∧
    Evictable (specIn codec b) ∧ materializedPath hot (specIn codec b) <+: q}, ∅, ∅⟩

section Evict

variable {X : Set Path} {F : Chances B} {f : Footprint} {t : FileTree B} {E : Prop}
  {codec : Codec B} {hot p : Path} {name : String}

theorem apply_openFile_none (h : t.node p = none) : ∃ e, t.apply (.openFile p) = (.error e, t) := by
  refine ⟨t.missing p, ?_⟩
  have hres : t.resolve p = .error (t.missing p) := by
    rw [FileTree.resolve, FileTree.resolveIn, FileTree.find, h]
  unfold FileTree.apply
  simp only [hres]

theorem apply_openFile_dir (h : t.node p = some .dir) :
    t.apply (.openFile p) = (.ok ⟨p, none⟩, t) := by
  unfold FileTree.apply
  simp only [t.resolve_of_node h fun _ h => nomatch h]

/-- What is read from a path that is no link was there in a file. -/
theorem safe_readFile (hX : p ∈ X) (hlink : ∀ target, t.node p ≠ some (.link target)) :
    Safe (fsWorld X F f) (readFile p).prog
      (fun x t' => Same X t t' ∧ ∀ b, x = .ok b → t.node p = some (.file b)) t := by
  cases hnode : t.node p with
  | none =>
    refine flow_bind (safe_read (c := .openFile _) trivial (fun t₁ h₁ => ?_) fun _ t₁ h₁ =>
      ⟨h₁, nofun⟩)
    obtain ⟨e, he⟩ := apply_openFile_none ((h₁ _ hX).trans hnode)
    rw [he]
    exact ⟨h₁, nofun⟩
  | some x =>
    cases x with
    | link target => exact absurd hnode (hlink target)
    | dir =>
      refine flow_bind (safe_read (c := .openFile _) trivial (fun t₁ h₁ => ?_) fun _ t₁ h₁ =>
        ⟨h₁, nofun⟩)
      rw [apply_openFile_dir ((h₁ _ hX).trans hnode)]
      rintro t₂ h₂ a t₃ (⟨rfl, rfl⟩ | ⟨_, rfl, rfl⟩)
      · exact ⟨.refl _ _ _, h₁.trans h₂, nofun⟩
      · exact ⟨.refl _ _ _, h₁.trans h₂, nofun⟩
    | file b =>
      refine flow_bind (safe_read (c := .openFile _) trivial (fun t₁ h₁ => ?_) fun _ t₁ h₁ =>
        ⟨h₁, nofun⟩)
      rw [FileTree.apply_openFile ((h₁ _ hX).trans hnode)]
      rintro t₂ h₂ a t₃ (⟨rfl, b', rfl, hb⟩ | ⟨_, rfl, rfl⟩)
      · refine ⟨.refl _ _ _, h₁.trans h₂, fun b'' hb'' => ?_⟩
        cases hb''
        rw [hb (((h₁.trans h₂) _ hX).trans hnode)]
      · exact ⟨.refl _ _ _, h₁.trans h₂, nofun⟩

theorem safe_recordedSpec {marker : Path} (hX : marker ++ ["cache.json"] ∈ X)
    (hlink : ∀ target, t.node (marker ++ ["cache.json"]) ≠ some (.link target)) :
    Safe (fsWorld X F f) (recordedSpec codec marker) (fun spec t' => Same X t t' ∧
      (spec = zeroSpec ∨ ∃ b, t.node (marker ++ ["cache.json"]) = some (.file b) ∧
        spec = specIn codec b)) t := by
  refine Safe.bind ((safe_readFile hX hlink).mono ?_)
  rintro (e | b) t₁ ⟨h₁, hb⟩
  · exact ⟨h₁, .inl rfl⟩
  · exact ⟨h₁, .inr ⟨b, hb b rfl, rfl⟩⟩

/-- An eviction removes the marker, and besides it only the files of the artifact it records. -/
theorem exits_evict (hX : ∀ q, hot <+: q → q ∈ X) (hrec : Recorded codec hot t name)
    (hF : ∀ c, F c → E) (hpresent : t.node (markers hot ++ [name]) = none → E) :
    Safe (fsWorld X F (evicts codec hot t (markers hot ++ [name])))
      (evict codec hot (markers hot ++ [name])).prog
      (Exits E fun _ t' => t'.Gone (markers hot ++ [name])) t := by
  have hmX : ∀ q, markers hot <+: q → q ∈ X :=
    fun q hq => hX q ((List.prefix_append hot _).trans hq)
  have hnX : ∀ q, markers hot ++ [name] <+: q → q ∈ X := fun q hq =>
    hmX q ((List.prefix_append _ [name]).trans hq)
  have hle : (under (markers hot ++ [name])).Le (evicts codec hot t (markers hot ++ [name])) :=
    ⟨fun _ hq => .inl hq, fun _ hq => hq.elim, fun _ hq => hq.elim⟩
  refine exits_bind (flow_lift (Q := Exits E fun spec t' => Same X t t' ∧ (spec = zeroSpec ∨
    ∃ b, t.node (markers hot ++ [name] ++ ["cache.json"]) = some (.file b) ∧ spec = specIn codec b))
    (safe_recordedSpec (hnX _ (List.prefix_append _ _)) hrec.no_link)) ?_
  rintro spec t₁ ⟨h₁, hspec⟩
  have hrest : ∀ t₂ : FileTree B, (t₂.node (markers hot ++ [name]) = none → E) →
      Safe (fsWorld X F (evicts codec hot t (markers hot ++ [name])))
        (removeAll (markers hot ++ [name])).prog
        (Exits E fun _ t' => t'.Gone (markers hot ++ [name])) t₂ := fun t₂ h₂ => by
    refine safe_widen hle (exits_removeAll hnX (by simp) (fun ⟨_, _, h⟩ => h.elim (hF _) (hF _))
      (hF _) ?_)
    by_cases hp : t₂.node (markers hot ++ [name]) = none
    · exact .inr (.inr (h₂ hp))
    · exact .inl hp
  have hnode₁ := h₁ _ (hnX _ List.prefix_rfl)
  refine exits_bind (Q := fun _ t₂ => t₂.node (markers hot ++ [name]) =
    t.node (markers hot ++ [name])) (flow_lift ?_) fun _ t₂ h₂ => hrest t₂ fun hn =>
      hpresent (h₂.symm.trans hn)
  unfold evictFiles
  split
  · rename_i hev
    obtain ⟨b, hb, rfl⟩ := hspec.resolve_left fun h => by
      rw [h] at hev
      exact absurd hev (by decide)
    have hconf := hrec.confined b hb
    have hapart := (hconf hev).apart_markers hot [name]
    have hpath : hot <+: materializedPath hot (specIn codec b) := by
      obtain ⟨n, rest, hpath, _⟩ := (hconf hev).path hot
      rw [hpath]
      exact List.prefix_append _ _
    have hunder : (under (materializedPath hot (specIn codec b))).Le
        (evicts codec hot t (markers hot ++ [name])) :=
      ⟨fun _ hq => .inr ⟨b, hb, hev, hq⟩, fun _ hq => hq.elim, fun _ hq => hq.elim⟩
    have hremove := exits_removeAll (F := F) (t := t₁) (E := True)
      (fun q hq => hX q (hpath.trans hq)) ((hconf hev).ne_nil hot) (fun _ => trivial)
      (fun _ => trivial) (.inr (.inr trivial))
    refine Safe.bind ((safe_widen hunder (safe_changes hremove)).mono ?_)
    rintro x t₂ ⟨_, hc⟩
    refine Eq.trans (hc.same (hnX _ List.prefix_rfl) ?_ id id) hnode₁
    exact hapart.1
  · exact hnode₁

/-- The same for an eviction that runs alone. -/
theorem ends_evict {x : Except PathError Unit} {t' : FileTree B} (hrec : Recorded codec hot t name)
    (he : (evict codec hot (markers hot ++ [name])).prog.Ends (fun t => t.Exec F) t x t') :
    (x = .ok () → t'.Gone (markers hot ++ [name])) ∧
      (evicts codec hot t (markers hot ++ [name])).Changes Set.univ t t' := by
  have hsafe := exits_evict (X := Set.univ) (F := F) (E := True) (fun _ _ => trivial) hrec
    (fun _ _ => trivial) fun _ => trivial
  obtain ⟨hexits, hchanges⟩ := (safe_changes hsafe).ends he
  refine ⟨fun hx => ?_, hchanges⟩
  rw [hx] at hexits
  exact hexits

end Evict

/-! ## Sweeps -/

/-- The hot root of `t` was cleared in part: nothing else was touched, and the markers that are
left record what they recorded. -/
structure Swept (codec : Codec B) (hot : Path) (t t' : FileTree B) : Prop where
  outside : ∀ q, ¬ hot <+: q → t'.node q = t.node q
  recorded : ∀ name, Recorded codec hot t' name

/-- The markers cannot be listed. -/
def Unlisted (O : Outside B) (hot : Path) (t : FileTree B) : Prop :=
  (∃ e, t.listing (markers hot) = .error e ∧ e ≠ .enoent) ∨ O.chances (.readDir (markers hot))

section Sweep

variable {codec : Codec B} {hot : Path} {O : Outside B} {s s' : ManagerState B}

theorem Swept.refl {t : FileTree B} (h : ∀ name, Recorded codec hot t name) :
    Swept codec hot t t :=
  ⟨fun _ _ => rfl, h⟩

theorem Swept.trans {t t₁ t₂ : FileTree B} (h : Swept codec hot t t₁)
    (h' : Swept codec hot t₁ t₂) : Swept codec hot t t₂ :=
  ⟨fun q hq => (h'.outside q hq).trans (h.outside q hq), h'.recorded⟩

theorem swept_evict {F : Chances B} {t t' : FileTree B} {name : String}
    (hrec : ∀ name, Recorded codec hot t name)
    (he : (evict codec hot (markers hot ++ [name])).prog.Ends (fun t => t.Exec F) t (.ok ()) t') :
    Swept codec hot t t' := by
  obtain ⟨hgone, hchanges⟩ := ends_evict (hrec name) he
  have hkept : ∀ q, ¬ markers hot ++ [name] <+: q →
      (∀ spec, Confined spec → ¬ materializedPath hot spec <+: q) → t'.node q = t.node q := by
    intro q hmarker hfiles
    refine hchanges.same trivial ?_ id id
    rintro (h | ⟨b, hb, hev, h⟩)
    · exact hmarker h
    · exact hfiles _ ((hrec name).confined b hb hev) h
  refine ⟨fun q hq => hkept q (fun h => hq ?_) fun spec hspec h => hq ?_, fun other => ?_⟩
  · exact ((List.prefix_append hot [".llm-cache"]).trans (List.prefix_append _ [name])).trans h
  · obtain ⟨n, rest, hpath, -⟩ := hspec.path hot
    rw [hpath] at h
    exact (List.prefix_append hot _).trans h
  · by_cases hname : other = name
    · rw [hname]
      exact recorded_of_none (hgone rfl _ (List.prefix_append _ _))
    · refine (hrec other).of_node (hkept _ (fun h => hname ?_) fun spec hspec => ?_)
      · have hentry : [name] <+: [other, "cache.json"] := by
          rw [List.append_assoc] at h
          exact List.prefix_append_right_inj _ |>.mp h
        exact (List.cons_prefix_cons.mp hentry).1.symm
      · have hapart := (hspec.apart_markers hot ([other] ++ ["cache.json"])).1
        rwa [← List.append_assoc] at hapart

theorem swept_evictUntil {enough : Int → Bool} {names : List String} {b : Bool}
    (hrec : ∀ name, Recorded codec hot s.tree name)
    (he : (evictUntil codec hot enough names).prog.Ends (ManagerState.Exec O) s (.ok b) s') :
    Swept codec hot s.tree s'.tree := by
  induction names generalizing s with
  | nil =>
    obtain ⟨-, rfl⟩ := he
    exact .refl hrec
  | cons name names ih =>
    unfold evictUntil at he
    obtain ⟨_, s₁, hevict, he⟩ := Flow.ends_bind_ok.mp he
    obtain ⟨usage, s₂, husage, he⟩ := Flow.ends_bind_ok.mp he
    have hswept : Swept codec hot s.tree s₂.tree := by
      rw [ends_cacheUsage husage]
      exact swept_evict hrec (ends_os (ends_onFiles.mp hevict).1)
    dsimp only at he
    split at he
    · obtain ⟨-, rfl⟩ := he
      exact hswept
    · exact hswept.trans (ih hswept.recorded he)

/-- The markers are listed, or they cannot be. -/
theorem ends_readMarkers {x : Except Err (List String)}
    (h : (onFiles (ExceptT.mk (.call (.readDir (markers hot)) fun
      | .ok names => .pure (.ok names)
      | .error .enoent => .pure (.ok [])
      | .error e => .pure (.error (pathErr ⟨"open", markers hot, e⟩))))).prog.Ends
        (ManagerState.Exec O) s x s') :
    s'.tree = s.tree ∧ match x with
      | .ok names => s.tree.listing (markers hot) = .ok names ∨
          s.tree.listing (markers hot) = .error .enoent ∧ names = []
      | .error _ => Unlisted O hot s.tree := by
  obtain ⟨r, t, hexec, hends⟩ := (ends_onFiles.mp h).1
  rcases hexec with hdoes | ⟨hchance, rfl, rfl⟩
  · obtain ⟨hr, rfl⟩ := Prod.mk.inj hdoes
    cases r with
    | ok names =>
      obtain ⟨rfl, htree⟩ := hends
      exact ⟨htree, .inl hr.symm⟩
    | error e =>
      cases e with
      | enoent =>
        obtain ⟨rfl, htree⟩ := hends
        exact ⟨htree, .inr ⟨hr.symm, rfl⟩⟩
      | _ =>
        obtain ⟨rfl, htree⟩ := hends
        exact ⟨htree, .inl ⟨_, hr.symm, nofun⟩⟩
  · obtain ⟨rfl, htree⟩ := hends
    exact ⟨htree, .inr hchance⟩

/-- Looking at the times leaves the tree as it is. -/
theorem ends_modTimes {names : List String} {x : Except Err (List (String × Int))}
    (he : (modTimes hot names).prog.Ends (ManagerState.Exec O) s x s') : s'.tree = s.tree := by
  induction names generalizing s x with
  | nil => exact congrArg _ he.2
  | cons name names ih =>
    obtain ⟨info, s₁, ⟨htree, -⟩, he⟩ := he
    rcases Flow.ends_bind.mp he with ⟨_, -, h⟩ | ⟨entries, s₂, h, -, rfl⟩
    · exact (ih h).trans htree
    · exact (ih h).trans htree

theorem ends_markersByAge {x : Except Err (List String)}
    (he : (markersByAge hot).prog.Ends (ManagerState.Exec O) s x s') : s'.tree = s.tree := by
  unfold markersByAge at he
  rcases Flow.ends_bind.mp he with ⟨_, -, h⟩ | ⟨names, s₁, h, ⟨order, s₂, ⟨⟨-, htree⟩, -⟩, he⟩⟩
  · exact (ends_readMarkers h).1
  · have hlisted := htree.trans (ends_readMarkers h).1
    rcases Flow.ends_bind.mp he with ⟨_, -, h⟩ | ⟨entries, s₃, h, -, rfl⟩
    · exact (ends_modTimes h).trans hlisted
    · exact (ends_modTimes h).trans hlisted

theorem swept_sweep {preserve : String} (hrec : ∀ name, Recorded codec hot s.tree name)
    (he : (sweep codec hot preserve).prog.Ends (ManagerState.Exec O) s (.ok ()) s') :
    Swept codec hot s.tree s'.tree := by
  unfold sweep at he
  obtain ⟨usage, s₁, husage, he⟩ := Flow.ends_bind_ok.mp he
  rw [← ends_cacheUsage husage] at hrec ⊢
  dsimp only at he
  split at he
  · obtain ⟨-, rfl⟩ := he
    exact .refl hrec
  obtain ⟨names, s₂, hnames, he⟩ := Flow.ends_bind_ok.mp he
  rw [← ends_markersByAge hnames] at hrec ⊢
  obtain ⟨b, s₃, hevict, -, rfl⟩ := Flow.ends_bind_ok.mp he
  exact swept_evictUntil hrec hevict

theorem swept_makeSpace {incoming : Int} (hrec : ∀ name, Recorded codec hot s.tree name)
    (he : (makeSpace codec hot incoming).prog.Ends (ManagerState.Exec O) s (.ok ()) s') :
    Swept codec hot s.tree s'.tree := by
  unfold makeSpace at he
  obtain ⟨usage, s₁, husage, he⟩ := Flow.ends_bind_ok.mp he
  rw [← ends_cacheUsage husage] at hrec ⊢
  dsimp only at he
  split at he
  · cases he.1
  split at he
  · obtain ⟨-, rfl⟩ := he
    exact .refl hrec
  obtain ⟨names, s₂, hnames, he⟩ := Flow.ends_bind_ok.mp he
  rw [← ends_markersByAge hnames] at hrec ⊢
  obtain ⟨b, s₃, hevict, he⟩ := Flow.ends_bind_ok.mp he
  have hs' : s' = s₃ := by
    split at he
    · cases he.1
    · exact he.2
  rw [hs']
  exact swept_evictUntil hrec hevict

end Sweep

end LlmOperator.Cache
