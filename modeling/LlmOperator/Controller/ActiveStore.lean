import LlmOperator.Interaction.System
import LlmOperator.Controller.Footprint

/-!
# The stored LLMActiveModel

The API server's record of one object: the version it holds and the versions it held
before. Every write gives the object a resource version it never had, which is why a
status update made from an old version is refused, and a change of the spec counts the
generation up.

A client may be shown an old version when it reads. A write may be carried out although
the client is told that it failed.
-/

namespace LlmOperator.Controller

open Api Interaction

structure ActiveStore where
  current : LLMActiveModel
  past : List LLMActiveModel
  distinct : (current :: past).Pairwise fun a b => a.resourceVersion ≠ b.resourceVersion

variable {s s' : ActiveStore} {c : Call} {obj : LLMActiveModel}

namespace ActiveStore

/-- All versions of the object, the current one first. -/
def versions (s : ActiveStore) : List LLMActiveModel := s.current :: s.past

/-- The object as it was created. -/
def created (obj : LLMActiveModel) : ActiveStore := ⟨obj, [], List.pairwise_singleton _ _⟩

/-- A resource version the object never had. -/
def Fresh (s : ActiveStore) (version : Nat) : Prop :=
  ∀ old ∈ s.versions, version ≠ old.resourceVersion

def write (s : ActiveStore) (next : LLMActiveModel) (h : s.Fresh next.resourceVersion) :
    ActiveStore :=
  ⟨next, s.versions, List.pairwise_cons.mpr ⟨h, s.distinct⟩⟩

/-- A status update is accepted from the current version only. -/
def Accepts (s : ActiveStore) (obj : LLMActiveModel) : Prop :=
  obj.name = s.current.name ∧ obj.resourceVersion = s.current.resourceVersion

instance (s : ActiveStore) (obj : LLMActiveModel) : Decidable (s.Accepts obj) :=
  inferInstanceAs (Decidable (_ ∧ _))

/-- An accepted status update. Nothing but the status is taken from the client. -/
def putStatus (s : ActiveStore) (status : LLMActiveModelStatus) (version : Nat)
    (h : s.Fresh version) : ActiveStore :=
  s.write { s.current with status := status, resourceVersion := version } h

/-- A change of the requested model, or of metadata when the spec stays the same. -/
def putSpec (s : ActiveStore) (spec : LLMActiveModelSpec) (version : Nat) (h : s.Fresh version) :
    ActiveStore :=
  s.write
    { s.current with
      spec := spec
      generation := if spec = s.current.spec then s.current.generation
        else s.current.generation + 1
      resourceVersion := version } h

/-- What a call may answer and do to the object. -/
def Exec (s : ActiveStore) : (c : Call) → c.Answer → ActiveStore → Prop
  | .getActive name, .ok am, s' => am ∈ s.versions ∧ am.name = name ∧ s' = s
  | .updateActiveStatus obj, .ok version, s' =>
    s.Accepts obj ∧ ∃ h : s.Fresh version, s' = s.putStatus obj.status version h
  | .updateActiveStatus obj, .error _, s' =>
    s' = s ∨ s.Accepts obj ∧ ∃ version, ∃ h : s.Fresh version,
      s' = s.putStatus obj.status version h
  | _, _, s' => s' = s

/-- What other clients do to the object: any change of its spec or its metadata. -/
def Edited (s s' : ActiveStore) : Prop :=
  ∃ spec version, ∃ h : s.Fresh version, s' = s.putSpec spec version h

/-! ## Growing -/

/-- Versions are only ever added. -/
def Grows (s s' : ActiveStore) : Prop := s.versions <:+ s'.versions

theorem grows_refl (s : ActiveStore) : s.Grows s := List.suffix_rfl

theorem Grows.trans {s'' : ActiveStore} (h : s.Grows s') (h' : s'.Grows s'') : s.Grows s'' :=
  List.IsSuffix.trans h h'

theorem grows_fst (x : ActiveStore × List (Event Kube)) : x.1.Grows x.1 := x.1.grows_refl

theorem grows_fst_trans {x y z : ActiveStore × List (Event Kube)} (h : x.1.Grows y.1)
    (h' : y.1.Grows z.1) : x.1.Grows z.1 :=
  h.trans h'

theorem grows_write (s : ActiveStore) (next : LLMActiveModel) (h : s.Fresh next.resourceVersion) :
    s.Grows (s.write next h) :=
  List.suffix_cons _ _

theorem Edited.grows (h : s.Edited s') : s.Grows s' := by
  obtain ⟨spec, version, hfresh, rfl⟩ := h
  exact s.grows_write _ hfresh

/-- What a call does: nothing, or an accepted status update. -/
theorem Exec.cases {a : c.Answer} (h : s.Exec c a s') :
    s' = s ∨ ∃ obj, c = .updateActiveStatus obj ∧ s.Accepts obj ∧
      ∃ version, ∃ hf : s.Fresh version, s' = s.putStatus obj.status version hf := by
  cases c with
  | updateActiveStatus obj =>
    cases a with
    | ok version =>
      obtain ⟨hacc, hf, rfl⟩ := h
      exact Or.inr ⟨obj, rfl, hacc, version, hf, rfl⟩
    | error e =>
      rcases h with rfl | ⟨hacc, version, hf, rfl⟩
      · exact Or.inl rfl
      · exact Or.inr ⟨obj, rfl, hacc, version, hf, rfl⟩
  | getActive name =>
    cases a with
    | ok am => exact Or.inl h.2.2
    | error e => exact Or.inl h
  | _ => exact Or.inl h

theorem Exec.grows {a : c.Answer} (h : s.Exec c a s') : s.Grows s' := by
  rcases h.cases with rfl | ⟨obj, -, -, version, hf, rfl⟩
  · exact s'.grows_refl
  · exact s.grows_write _ hf

/-! ## Copies -/

/-- The copy was made from a stored version: nothing but its status may differ. -/
def Known (s : ActiveStore) (am : LLMActiveModel) : Prop :=
  ∃ old ∈ s.versions, old.resourceVersion = am.resourceVersion ∧ old.spec = am.spec ∧
    old.generation = am.generation

theorem Known.grows {am : LLMActiveModel} (h : s.Known am) (hs : s.Grows s') : s'.Known am := by
  obtain ⟨old, hmem, hold⟩ := h
  exact ⟨old, hs.subset hmem, hold⟩

theorem known_of_mem {am : LLMActiveModel} (h : am ∈ s.versions) : s.Known am :=
  ⟨am, h, rfl, rfl, rfl⟩

theorem eq_current {old : LLMActiveModel} (hmem : old ∈ s.versions)
    (hv : old.resourceVersion = s.current.resourceVersion) : old = s.current := by
  rcases List.mem_cons.mp hmem with h | h
  · exact h
  · exact absurd hv.symm ((List.pairwise_cons.mp s.distinct).1 old h)

/-- An accepted copy is a copy of the current version. -/
theorem Known.current {am : LLMActiveModel} (h : s.Known am)
    (hobj : obj.resourceVersion = am.resourceVersion) (hacc : s.Accepts obj) :
    s.current.spec = am.spec ∧ s.current.generation = am.generation := by
  obtain ⟨old, hmem, hv, hspec, hgen⟩ := h
  have : old = s.current := eq_current hmem (by rw [hv, ← hobj, hacc.2])
  exact ⟨this ▸ hspec, this ▸ hgen⟩

/-- After an accepted update the client's copy is one of the new version. -/
theorem Known.putStatus {am : LLMActiveModel} (h : s.Known am) (hacc : s.Accepts am)
    {status : LLMActiveModelStatus} {version : Nat} (hf : s.Fresh version) :
    (s.putStatus status version hf).Known { am with resourceVersion := version } := by
  obtain ⟨hspec, hgen⟩ := h.current rfl hacc
  exact ⟨_, List.mem_cons_self, rfl, hspec, hgen⟩

end ActiveStore

/-! ## Writes made from a copy -/

/-- `obj` is the copy `am` with another status, of which `K` holds. -/
structure StatusOf (K : LLMActiveModel → Prop) (am obj : LLMActiveModel) : Prop where
  version : obj.resourceVersion = am.resourceVersion
  spec : obj.spec = am.spec
  generation : obj.generation = am.generation
  holds : K obj

/-- Every status write of the object is made from the copy `am`, and `K` holds of it. -/
def Derived (K : LLMActiveModel → Prop) (am : LLMActiveModel) : Call → Prop
  | .updateActiveStatus obj => StatusOf K am obj
  | _ => True

section Derived

variable {K : LLMActiveModel → Prop} {am : LLMActiveModel}

theorem derived_of_isRead (h : c.IsRead) : Derived K am c := by
  cases c <;> first | exact Bool.noConfusion h | trivial

theorem tolerates_derived (hK : ∀ reason message, K (refused am reason message)) :
    Tolerates (Derived K am) am where
  read _ h := derived_of_isRead h
  failed reason message := ⟨rfl, rfl, rfl, hK reason message⟩

theorem derived_of_ne (h : ∀ obj, c ≠ .updateActiveStatus obj) : Derived K am c := by
  cases c with
  | updateActiveStatus obj => exact absurd rfl (h obj)
  | _ => trivial

/-- An accepted write of a derived status: what is stored afterwards satisfies `K` too, if
`K` looks at nothing but the generation, the spec and the status. -/
theorem StatusOf.accepted (h : StatusOf K am obj) (hk : s.Known am) (hacc : s.Accepts obj) :
    s.current.spec = obj.spec ∧ s.current.generation = obj.generation := by
  obtain ⟨hspec, hgen⟩ := hk.current h.version hacc
  exact ⟨hspec.trans h.spec.symm, hgen.trans h.generation.symm⟩

end Derived

/-! ## The transition token -/

/-- The token of the current generation records the model that was published when it was
set, until its own model is published. -/
structure TokenInOrder (am : LLMActiveModel) : Prop where
  le : am.status.transitionGeneration ≤ am.generation
  origin : am.status.transitionGeneration = am.generation →
    am.status.transitionFrom = am.status.modelName ∨ am.status.modelName = am.spec.modelName

instance (am : LLMActiveModel) : Decidable (TokenInOrder am) :=
  decidable_of_iff (_ ∧ _) ⟨fun h => ⟨h.1, h.2⟩, fun h => ⟨h.le, h.origin⟩⟩

namespace TokenInOrder

variable {am : LLMActiveModel}

theorem refused (h : TokenInOrder am) (reason message : String) :
    TokenInOrder (Controller.refused am reason message) :=
  ⟨h.le, h.origin⟩

theorem withToken (am : LLMActiveModel) (started : Time) :
    TokenInOrder (Controller.withToken am started) :=
  ⟨le_rfl, fun _ => Or.inl rfl⟩

theorem published (h : TokenInOrder am) {model : LLMModel}
    (hmodel : model.spec.model.name = am.spec.modelName) (duration : Int) :
    TokenInOrder (Controller.published am model duration) :=
  ⟨h.le, fun _ => Or.inr hmodel⟩

/-- The stored object after an accepted write. -/
theorem putStatus (h : TokenInOrder obj) (hspec : s.current.spec = obj.spec)
    (hgen : s.current.generation = obj.generation) {version : Nat} (hf : s.Fresh version) :
    TokenInOrder (s.putStatus obj.status version hf).current := by
  refine ⟨?_, ?_⟩
  · show obj.status.transitionGeneration ≤ s.current.generation
    rw [hgen]
    exact h.le
  · intro heq
    show _ ∨ obj.status.modelName = s.current.spec.modelName
    rw [hspec]
    exact h.origin (heq.trans hgen)

/-- A new request makes the token one of an older generation. -/
theorem edited (h : TokenInOrder s.current) (hs : s.Edited s') : TokenInOrder s'.current := by
  obtain ⟨spec, version, hf, rfl⟩ := hs
  by_cases hspec : spec = s.current.spec
  · have hgen : (s.putSpec spec version hf).current.generation = s.current.generation := by
      simp [ActiveStore.putSpec, ActiveStore.write, hspec]
    refine ⟨hgen ▸ h.le, ?_⟩
    rw [hgen]
    intro heq
    show _ ∨ _ = spec.modelName
    rw [hspec]
    exact h.origin heq
  · have hgen : (s.putSpec spec version hf).current.generation = s.current.generation + 1 := by
      simp [ActiveStore.putSpec, ActiveStore.write, hspec]
    have hle := h.le
    refine ⟨?_, ?_⟩
    · rw [hgen]
      show s.current.status.transitionGeneration ≤ _
      omega
    · rw [hgen]
      show s.current.status.transitionGeneration = _ → _
      omega

end TokenInOrder

/-- Writing the status of the object from a copy keeps the token in order, whatever is
answered. -/
theorem tokenInOrder_exec {am : LLMActiveModel} {a : Call.Answer (.updateActiveStatus obj)}
    (hobj : StatusOf TokenInOrder am obj) (hk : s.Known am) (htoken : TokenInOrder s.current)
    (h : s.Exec (.updateActiveStatus obj) a s') : TokenInOrder s'.current := by
  rcases h.cases with rfl | ⟨obj', hobj', hacc, version, hf, rfl⟩
  · exact htoken
  · cases hobj'
    obtain ⟨hspec, hgen⟩ := hobj.accepted hk hacc
    exact hobj.holds.putStatus hspec hgen hf

/-- The model a transition records as the one switched from is the one that was published,
unless that is the target. -/
theorem needsToken_origin {am : LLMActiveModel} (h : TokenInOrder am) (hneeds : ¬ needsToken am) :
    am.status.transitionFrom = am.status.modelName ∨ am.status.modelName = am.spec.modelName := by
  apply h.origin
  by_contra hne
  apply hneeds
  simp [needsToken, hne]

end LlmOperator.Controller
