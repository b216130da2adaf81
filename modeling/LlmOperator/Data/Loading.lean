import LlmOperator.Data.Json
import LlmOperator.Data.MergePatch

/-!
# Reading a list into a map

A list of items is read into a map, item by item. An item is refused, or it gives one entry,
which is put under its key. Some readers also refuse a key that is taken.

`lookup_iff` says what a map that was read holds, and `exists_foldlM_iff` when a reader that
refuses taken keys gets through the list.
-/

namespace LlmOperator.Data.Loading

/-- A reader that refuses an item whatever the map gets through when it refuses none. -/
theorem exists_foldlM_iff_forall {ε σ ξ : Type} {step : σ → ξ → Except ε σ} {good : ξ → Prop}
    (hstep : ∀ m x, (∃ m', step m x = .ok m') ↔ good x) {items : List ξ} {m : σ} :
    (∃ loaded, items.foldlM step m = .ok loaded) ↔ ∀ x ∈ items, good x := by
  induction items generalizing m with
  | nil => exact ⟨fun _ => nofun, fun _ => ⟨m, rfl⟩⟩
  | cons x items ih =>
    rw [List.forall_mem_cons, List.foldlM_cons]
    constructor
    · rintro ⟨loaded, h⟩
      obtain ⟨next, hnext, h⟩ := ok_of_bind h
      exact ⟨(hstep m x).mp ⟨next, hnext⟩, ih.mp ⟨loaded, h⟩⟩
    · rintro ⟨hx, hitems⟩
      obtain ⟨next, hnext⟩ := (hstep m x).mpr hx
      obtain ⟨loaded, hloaded⟩ := ih.mpr hitems
      refine ⟨loaded, ?_⟩
      rw [hnext]
      exact hloaded

variable {ε ξ κ ν : Type} [DecidableEq κ]

/-- The entries of different items have different keys. -/
def Distinct (good : ξ → ν → Prop) (key : ν → κ) (items : List ξ) : Prop :=
  items.Pairwise fun x y => ∀ c d, good x c → good y d → key c ≠ key d

/-- Reading an item puts its entry under the key of the entry. -/
structure Reads (step : FMap κ ν → ξ → Except ε (FMap κ ν)) (key : ν → κ) (good : ξ → ν → Prop) :
    Prop where
  ok : ∀ m x m', step m x = .ok m' → ∃ c, good x c ∧ m' = m.insert (key c) c
  unique : ∀ x c d, good x c → good x d → c = d

variable {step : FMap κ ν → ξ → Except ε (FMap κ ν)} {key : ν → κ} {good : ξ → ν → Prop}

/-- The map holds what it held, and the entries of the items. -/
theorem Reads.lookup_iff (hreads : Reads step key good) {items : List ξ} {m loaded : FMap κ ν}
    (h : items.foldlM step m = .ok loaded) (hdistinct : Distinct good key items)
    (hfresh : ∀ x ∈ items, ∀ c, good x c → m.lookup (key c) = none) (k : κ) (c : ν) :
    loaded.lookup k = some c ↔ m.lookup k = some c ∨ key c = k ∧ ∃ x ∈ items, good x c := by
  induction items generalizing m with
  | nil =>
    cases h
    simp
  | cons x items ih =>
    rw [List.foldlM_cons] at h
    obtain ⟨next, hnext, h⟩ := ok_of_bind h
    obtain ⟨d, hd, rfl⟩ := hreads.ok m x next hnext
    obtain ⟨hhead, htail⟩ := List.pairwise_cons.mp hdistinct
    have hnew : m.lookup (key d) = none := hfresh x List.mem_cons_self d hd
    have hrest : ∀ y ∈ items, ∀ e, good y e → (m.insert (key d) d).lookup (key e) = none := by
      intro y hy e he
      rw [Finmap.lookup_insert_of_ne m (hhead y hy d e hd he).symm]
      exact hfresh y (List.mem_cons_of_mem x hy) e he
    rw [ih h htail hrest]
    by_cases hk : k = key d
    · subst hk
      rw [Finmap.lookup_insert, hnew]
      constructor
      · rintro (hc | ⟨hkey, y, hy, hc⟩)
        · cases hc
          exact Or.inr ⟨rfl, x, List.mem_cons_self, hd⟩
        · exact absurd hkey.symm (hhead y hy d c hd hc)
      · rintro (hc | ⟨hkey, y, hy, hc⟩)
        · cases hc
        · rcases List.mem_cons.mp hy with rfl | hy
          · exact Or.inl (congrArg some (hreads.unique _ _ _ hd hc))
          · exact absurd hkey.symm (hhead y hy d c hd hc)
    · rw [Finmap.lookup_insert_of_ne m hk]
      constructor
      · rintro (hc | ⟨hkey, y, hy, hc⟩)
        · exact Or.inl hc
        · exact Or.inr ⟨hkey, y, List.mem_cons_of_mem x hy, hc⟩
      · rintro (hc | ⟨hkey, y, hy, hc⟩)
        · exact Or.inl hc
        · rcases List.mem_cons.mp hy with rfl | hy
          · rw [hreads.unique _ _ _ hc hd] at hkey
            exact absurd hkey.symm hk
          · exact Or.inr ⟨hkey, y, hy, hc⟩

/-- A key that is taken is refused. -/
structure Checks (step : FMap κ ν → ξ → Except ε (FMap κ ν)) (key : ν → κ) (good : ξ → ν → Prop) :
    Prop where
  ok_iff : ∀ m x m', step m x = .ok m' ↔
    ∃ c, good x c ∧ m.lookup (key c) = none ∧ m' = m.insert (key c) c
  unique : ∀ x c d, good x c → good x d → c = d

theorem Checks.reads (h : Checks step key good) : Reads step key good where
  ok m x m' hstep := by
    obtain ⟨c, hc, -, rfl⟩ := (h.ok_iff m x m').mp hstep
    exact ⟨c, hc, rfl⟩
  unique := h.unique

/-- A list is read when every item is, and no two keys are the same. -/
theorem Checks.exists_foldlM_iff (hchecks : Checks step key good) {items : List ξ}
    {m : FMap κ ν} : (∃ loaded, items.foldlM step m = .ok loaded) ↔
      (∀ x ∈ items, ∃ c, good x c ∧ m.lookup (key c) = none) ∧ Distinct good key items := by
  induction items generalizing m with
  | nil => exact ⟨fun _ => ⟨nofun, List.Pairwise.nil⟩, fun _ => ⟨m, rfl⟩⟩
  | cons x items ih =>
    constructor
    · rintro ⟨loaded, h⟩
      rw [List.foldlM_cons] at h
      obtain ⟨next, hnext, h⟩ := ok_of_bind h
      obtain ⟨c, hc, hnew, rfl⟩ := (hchecks.ok_iff m x next).mp hnext
      obtain ⟨hitems, hdistinct⟩ := ih.mp ⟨loaded, h⟩
      -- the keys that come later are not the one just put in
      have hne : ∀ y ∈ items, ∀ d, good y d → key c ≠ key d := by
        intro y hy d hd hkey
        obtain ⟨d', hd', hnone⟩ := hitems y hy
        rw [hchecks.unique y d' d hd' hd, ← hkey, Finmap.lookup_insert] at hnone
        cases hnone
      refine ⟨?_, List.pairwise_cons.mpr ⟨?_, hdistinct⟩⟩
      · intro y hy
        rcases List.mem_cons.mp hy with rfl | hy
        · exact ⟨c, hc, hnew⟩
        · obtain ⟨d, hd, hnone⟩ := hitems y hy
          rw [Finmap.lookup_insert_of_ne m (hne y hy d hd).symm] at hnone
          exact ⟨d, hd, hnone⟩
      · intro y hy c' d hc' hd
        rw [hchecks.unique x c' c hc' hc]
        exact hne y hy d hd
    · rintro ⟨hitems, hdistinct⟩
      obtain ⟨hhead, htail⟩ := List.pairwise_cons.mp hdistinct
      obtain ⟨c, hc, hnew⟩ := hitems x List.mem_cons_self
      have hstep : step m x = .ok (m.insert (key c) c) :=
        (hchecks.ok_iff m x _).mpr ⟨c, hc, hnew, rfl⟩
      have hrest : ∀ y ∈ items, ∃ d, good y d ∧ (m.insert (key c) c).lookup (key d) = none := by
        intro y hy
        obtain ⟨d, hd, hnone⟩ := hitems y (List.mem_cons_of_mem x hy)
        refine ⟨d, hd, ?_⟩
        rw [Finmap.lookup_insert_of_ne m (hhead y hy c d hc hd).symm]
        exact hnone
      obtain ⟨loaded, hloaded⟩ := ih.mpr ⟨hrest, htail⟩
      refine ⟨loaded, ?_⟩
      rw [List.foldlM_cons, hstep]
      exact hloaded

/-- What a reader that refuses taken keys has read. -/
theorem Checks.lookup_iff (hchecks : Checks step key good) {items : List ξ} {m loaded : FMap κ ν}
    (h : items.foldlM step m = .ok loaded) (k : κ) (c : ν) :
    loaded.lookup k = some c ↔ m.lookup k = some c ∨ key c = k ∧ ∃ x ∈ items, good x c := by
  obtain ⟨hitems, hdistinct⟩ := hchecks.exists_foldlM_iff.mp ⟨loaded, h⟩
  refine hchecks.reads.lookup_iff h hdistinct ?_ k c
  intro x hx d hd
  obtain ⟨d', hd', hnone⟩ := hitems x hx
  rw [hchecks.unique x d d' hd hd']
  exact hnone

end LlmOperator.Data.Loading
