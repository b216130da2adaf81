import LlmOperator.Controller.Cluster

/-!
# The owner of the transitions of a namespace

Only one `LLMActiveModel` of a namespace may drive transitions. `singletonOwner` sorts the objects
by their age and then by name and takes the first. Here the owner is the least object of that
order, which exists, is unique where names are, and does not depend on the order of the list. The
reconciles of all other objects touch nothing but the status of their own object.
-/

namespace LlmOperator.Controller

open Api Data Backend Interaction Interaction.Prog

/-! ## The least element of a list -/

section Least

variable {α : Type} (le : α → α → Prop) [DecidableRel le] [Std.Total le] [IsTrans α le]

/-- The first element of a sorted list is below all others. -/
theorem le_of_insertionSort_eq_cons {l rest : List α} {first : α}
    (h : l.insertionSort le = first :: rest) : first ∈ l ∧ ∀ b ∈ l, le first b := by
  have hmem : ∀ b, b ∈ l ↔ b ∈ first :: rest := fun b => by
    rw [← h]
    exact ((List.perm_insertionSort le l).mem_iff).symm
  refine ⟨(hmem first).mpr List.mem_cons_self, fun b hb => ?_⟩
  rcases List.mem_cons.mp ((hmem b).mp hb) with rfl | hb
  · exact (Std.Total.total b b).elim id id
  · have hsorted := List.pairwise_insertionSort le l
    rw [h] at hsorted
    exact (List.pairwise_cons.mp hsorted).1 b hb

end Least

/-! ## The order of the objects -/

instance : Std.Total ownsBefore where
  total a b := by
    unfold ownsBefore
    rcases Nat.lt_trichotomy a.creationTimestamp b.creationTimestamp with h | h | h
    · exact .inl (.inl h)
    · rcases String.le_total a.name b.name with h' | h'
      · exact .inl (.inr ⟨h, h'⟩)
      · exact .inr (.inr ⟨h.symm, h'⟩)
    · exact .inr (.inl h)

instance : IsTrans LLMActiveModel ownsBefore where
  trans a b c hab hbc := by
    unfold ownsBefore at hab hbc ⊢
    rcases hab with hab | ⟨hab, hab'⟩
    · rcases hbc with hbc | ⟨hbc, -⟩
      · exact .inl (lt_trans hab hbc)
      · exact .inl (hbc ▸ hab)
    · rcases hbc with hbc | ⟨hbc, hbc'⟩
      · exact .inl (hab ▸ hbc)
      · exact .inr ⟨hab.trans hbc, String.le_trans hab' hbc'⟩

theorem name_eq_of_ownsBefore {a b : LLMActiveModel} (h : ownsBefore a b) (h' : ownsBefore b a) :
    a.name = b.name := by
  unfold ownsBefore at h h'
  rcases h with h | ⟨h, hname⟩
  · rcases h' with h' | ⟨h', -⟩
    · exact absurd h (Nat.lt_asymm h')
    · exact absurd h (by rw [h']; exact Nat.lt_irrefl _)
  · rcases h' with h' | ⟨-, hname'⟩
    · exact absurd h' (by rw [h]; exact Nat.lt_irrefl _)
    · exact String.le_antisymm hname hname'

/-! ## The owner -/

/-- The object that owns the transitions among `items`. -/
def Owns (items : List LLMActiveModel) (o : LLMActiveModel) : Prop :=
  o ∈ items ∧ ∀ b ∈ items, ownsBefore o b

variable {items : List LLMActiveModel} {o : LLMActiveModel}

theorem Owns.name_eq {o' : LLMActiveModel} (h : Owns items o) (h' : Owns items o') :
    o.name = o'.name :=
  name_eq_of_ownsBefore (h.2 o' h'.1) (h'.2 o h.1)

theorem exists_owns (h : items ≠ []) : ∃ o, Owns items o ∧ ownerOf items = o.name := by
  unfold ownerOf
  cases hsort : items.insertionSort ownsBefore with
  | nil =>
    have hperm := List.perm_insertionSort ownsBefore items
    rw [hsort] at hperm
    exact absurd hperm.symm.eq_nil h
  | cons first rest => exact ⟨first, le_of_insertionSort_eq_cons ownsBefore hsort, rfl⟩

theorem Owns.ownerOf_eq (h : Owns items o) : ownerOf items = o.name := by
  obtain ⟨o', ho', heq⟩ := exists_owns (List.ne_nil_of_mem h.1)
  rw [heq, ho'.name_eq h]

theorem Owns.of_perm {items' : List LLMActiveModel} (h : Owns items o) (hperm : items.Perm items') :
    Owns items' o :=
  ⟨hperm.mem_iff.mp h.1, fun b hb => h.2 b (hperm.mem_iff.mpr hb)⟩

theorem ownerOf_perm {items' : List LLMActiveModel} (h : items.Perm items') :
    ownerOf items = ownerOf items' := by
  by_cases hnil : items = []
  · subst hnil
    rw [h.nil_eq]
  · obtain ⟨o, ho, heq⟩ := exists_owns hnil
    rw [heq, (ho.of_perm h).ownerOf_eq]

/-- Exactly one of the objects has the name of the owner. -/
theorem existsUnique_owner (hne : items ≠ []) (hnames : (items.map LLMActiveModel.name).Nodup) :
    ∃! o, o ∈ items ∧ o.name = ownerOf items := by
  obtain ⟨o, ho, heq⟩ := exists_owns hne
  refine ⟨o, ⟨ho.1, heq.symm⟩, ?_⟩
  rintro o' ⟨hmem, hname⟩
  exact List.inj_on_of_nodup_map hnames hmem ho.1 (hname.trans heq)

/-- The owner stays the owner when another object is deleted. -/
theorem ownerOf_delete {rest : List LLMActiveModel} {am : LLMActiveModel}
    (hperm : items.Perm (am :: rest)) (hne : am.name ≠ ownerOf items) :
    ownerOf rest = ownerOf items := by
  have hitems : items ≠ [] := by
    rintro rfl
    exact absurd hperm.symm.eq_nil (by simp)
  obtain ⟨o, ho, heq⟩ := exists_owns hitems
  rw [heq] at hne ⊢
  refine Owns.ownerOf_eq ⟨?_, fun b hb => ho.2 b (hperm.mem_iff.mpr (List.mem_cons_of_mem am hb))⟩
  rcases List.mem_cons.mp (hperm.mem_iff.mp ho.1) with rfl | hmem
  · exact absurd rfl hne
  · exact hmem

/-! ## The others -/

/-- The calls that change a Deployment, a model or the cache. -/
def Call.DrivesTransition : Call → Prop
  | .scaleDeployment _ _ => True
  | .patchDeployment _ _ => True
  | .updateModelStatus _ => True
  | .cacheEnsure _ => True
  | _ => False

/-- A body that leaves, as a function. -/
theorem exit_leaveIf (p : Go Outcome) (f : Unit → Body Outcome) :
    (leaveIf true p >>= f).exit = p := by
  refine (Prog.bind_assoc _ _ _).trans ((Prog.bind_assoc _ _ _).trans ?_)
  exact Prog.bind_pure p

/-- The reconcile of an object that does not own the transitions, whoever does. -/
theorem steps_reconcile_of_not_owner {r : LLMActiveModelReconciler} {name : String}
    {t : List (Event Kube)} {q : Go Outcome} (h : (reconcile r name).Steps t q)
    (hread : ∀ stored, ⟨.getActive name, .ok stored⟩ ∈ t → stored.name = name)
    (hlist : ∀ items, ⟨.listActive, .ok items⟩ ∈ t → ownerOf items ≠ name) :
    ∀ e ∈ t, ¬Call.DrivesTransition e.1 := by
  cases h with
  | nil => exact fun e he => absurd he List.not_mem_nil
  | @cons _ _ a t _ h =>
    refine List.forall_mem_cons.mpr ⟨id, ?_⟩
    cases a with
    | error e =>
      cases h
      exact fun e he => absurd he List.not_mem_nil
    | ok stored =>
      have hname : stored.name = name := hread stored List.mem_cons_self
      cases h with
      | nil => exact fun e he => absurd he List.not_mem_nil
      | @cons _ _ b t _ h =>
        refine List.forall_mem_cons.mpr ⟨id, ?_⟩
        cases b with
        | error e =>
          cases h
          exact fun e he => absurd he List.not_mem_nil
        | ok items =>
          have howner : ownerOf items ≠ stored.name := by
            rw [hname]
            exact hlist items (by simp)
          have hleave : (ownerOf items != (observe stored).name) = true :=
            bne_iff_ne.mpr howner
          refine (Yields.steps (P := fun c => ¬Call.DrivesTransition c)
            (Q := fun _ => True) ?_ h).1
          show Only _ ((leaveIf (ownerOf items != (observe stored).name) _ >>= _ :
            Body Outcome).exit)
          rw [hleave, exit_leaveIf]
          exact only_writeActiveThen id

/-- One object owns the transitions of a namespace, in whichever order the objects are listed. The
reconciles of the others change no Deployment, no model and nothing in the cache. Deleting one of
the others does not change the owner, and deleting the owner makes exactly one of those that
remain the next one. -/
theorem one_transition_owner (items : List LLMActiveModel) (hne : items ≠ [])
    (hnames : (items.map LLMActiveModel.name).Nodup) :
    (∃! o, o ∈ items ∧ o.name = ownerOf items) ∧
    (∀ items', List.Perm items' items → ownerOf items' = ownerOf items) ∧
    (∀ r, ∀ am ∈ items, am.name ≠ ownerOf items → ∀ t q, Steps (reconcile r am.name) t q →
      (∀ stored, ⟨.getActive am.name, .ok stored⟩ ∈ t → stored.name = am.name) →
      (∀ items', ⟨.listActive, .ok items'⟩ ∈ t → List.Perm items' items) →
      ∀ e ∈ t, ¬Call.DrivesTransition e.1) ∧
    ∀ am rest, List.Perm items (am :: rest) →
      (am.name ≠ ownerOf items → ownerOf rest = ownerOf items) ∧
      (am.name = ownerOf items → rest ≠ [] → ∃! o, o ∈ rest ∧ o.name = ownerOf rest) := by
  refine ⟨existsUnique_owner hne hnames, fun items' h => ownerOf_perm h, ?_, ?_⟩
  · intro r am _ hother t q h hread hlist
    refine steps_reconcile_of_not_owner h hread fun items' hmem => ?_
    rw [ownerOf_perm (hlist items' hmem)]
    exact hother.symm
  · intro am rest hperm
    refine ⟨ownerOf_delete hperm, fun _ hrest => existsUnique_owner hrest ?_⟩
    exact (List.nodup_cons.mp ((hperm.map _).nodup_iff.mp hnames)).2

/-- Two objects of the same age. -/
theorem one_transition_owner_twins :
    ∃! o, o ∈ [{ Demo.activeModel "a" with name := "y" },
    { Demo.activeModel "b" with name := "x" }] ∧
      o.name = "x" :=
  (one_transition_owner
    [{ Demo.activeModel "a" with name := "y" }, { Demo.activeModel "b" with name := "x" }]
    (by simp) (by decide +kernel)).1

end LlmOperator.Controller
