import LlmOperator.Cache.Eviction
import LlmOperator.Cache.Script

/-!
# The eviction policy

Which markers `sweep` and `makeSpace` evict, whatever the markers, their ages and the measurements
are. The measurement after each eviction decides whether there is another one, so what is evicted is
the shortest part of the markers, the oldest first, after which the measurement is low enough.
The marks are those the code computes: `capacity*80/100` and so on, in 64 bits.
-/

namespace LlmOperator.Cache

open Api Data FileSystem Interaction

variable {B : Type}

/-! ## The order -/

section

variable (hot : Path) (modTime : Path → Option Int)

/-- When a marker was last modified; one that cannot be looked at has the zero time. -/
def age (name : String) : Int := (modTime (markers hot ++ [name])).getD 0

/-- No marker stands before an older one. -/
def ByAge (order : List String) : Prop :=
  order.Pairwise fun a b => age hot modTime a ≤ age hot modTime b

/-- The entries have these modification times. -/
def HasTimes : (op : (Manager B).Op) → (Manager B).Ans op → Prop
  | .inr (.modTime p), info => info = modTime p
  | _, _ => True

/-- What a call may answer and do when the entries have these modification times. -/
def TimedExec (O : Outside B) (modTime : Path → Option Int) (s : ManagerState B)
    (op : (Manager B).Op) (a : (Manager B).Ans op) (s' : ManagerState B) : Prop :=
  ManagerState.Exec O s op a s' ∧ HasTimes modTime op a

/-- The markers of a tree, the oldest first. -/
def OldestFirst (t : FileTree B) (order : List String) : Prop :=
  ∃ names, (t.listing (markers hot) = .ok names ∨
    t.listing (markers hot) = .error .enoent ∧ names = []) ∧ order.Perm names ∧
      ByAge hot modTime order

end

theorem pairwise_sortSlice {α : Type} (f : α → Int) (l : List α) :
    (sortSlice (fun a b => decide (f a < f b)) l).Pairwise fun a b => f a ≤ f b := by
  have : Std.Total fun a b : α => decide (f b < f a) = false :=
    ⟨fun a b => by simpa using le_total (f a) (f b)⟩
  have : IsTrans α fun a b => decide (f b < f a) = false :=
    ⟨fun a b c => by simpa using le_trans⟩
  exact (List.pairwise_insertionSort _ l).imp fun h => by simpa using h

/-- Markers sorted by the times that were found. -/
theorem byAge_sortSlice (hot : Path) (modTime : Path → Option Int) (names : List String) :
    ((sortSlice (fun a b => decide (a.2 < b.2))
        (names.map fun name => (name, age hot modTime name))).map Prod.fst).Perm names ∧
      ByAge hot modTime ((sortSlice (fun a b => decide (a.2 < b.2))
        (names.map fun name => (name, age hot modTime name))).map Prod.fst) := by
  have hperm : (sortSlice (fun a b : String × Int => decide (a.2 < b.2))
      (names.map fun name => (name, age hot modTime name))).Perm
        (names.map fun name => (name, age hot modTime name)) := List.perm_insertionSort _ _
  constructor
  · simpa [Function.comp_def] using hperm.map Prod.fst
  · refine List.pairwise_map.mpr ((pairwise_sortSlice Prod.snd _).imp_of_mem ?_)
    intro a b ha hb hle
    obtain ⟨_, -, rfl⟩ := List.mem_map.mp (hperm.mem_iff.mp ha)
    obtain ⟨_, -, rfl⟩ := List.mem_map.mp (hperm.mem_iff.mp hb)
    exact hle

/-! ## Evictions -/

section Evictions

variable (codec : Codec B) (hot : Path) (O : Outside B)

/-- Evictions one after the other, each with the measurement after it. -/
inductive Evictions : FileTree B → List (String × Int) → FileTree B → Prop
  | done (t : FileTree B) : Evictions t [] t
  | next {t t₁ t' : FileTree B} {name : String} {capacity used : Int} {rest : List (String × Int)}
      (hevict : (evict codec hot (markers hot ++ [name])).prog.Ends (fun t => t.Exec O.chances) t
        (.ok ()) t₁)
      (husage : O.usage t₁ (.ok (capacity, used))) (hrest : Evictions t₁ rest t') :
      Evictions t ((name, used) :: rest) t'

/-- An eviction fails, or the measurement after it. -/
def EvictionFails (t : FileTree B) (name : String) (t' : FileTree B) : Prop :=
  (∃ e, (evict codec hot (markers hot ++ [name])).prog.Ends (fun t => t.Exec O.chances) t
    (.error e) t') ∨
  (evict codec hot (markers hot ++ [name])).prog.Ends (fun t => t.Exec O.chances) t (.ok ()) t' ∧
    ∃ e, O.usage t' (.error e)

end Evictions

/-- What is evicted is the shortest part of the candidates with which it is enough, if that is so
(`fits`); otherwise all of them are. -/
structure Shortest (enough : Int → Bool) (candidates : List String) (evicted : List (String × Int))
    (fits : Bool) : Prop where
  first : evicted.map Prod.fst <+: candidates
  sooner : ∀ v ∈ evicted.dropLast, enough v.2 = false
  last : fits = true → ∃ v, evicted.getLast? = some v ∧ enough v.2 = true
  all : fits = false → evicted.map Prod.fst = candidates ∧ ∀ v ∈ evicted, enough v.2 = false

theorem Shortest.cons {enough : Int → Bool} {candidates : List String}
    {evicted : List (String × Int)} {fits : Bool} (h : Shortest enough candidates evicted fits)
    {name : String} {used : Int} (hused : enough used = false) :
    Shortest enough (name :: candidates) ((name, used) :: evicted) fits := by
  refine ⟨List.cons_prefix_cons.mpr ⟨rfl, h.first⟩, fun v hv => ?_, fun hfits => ?_,
    fun hfits => ?_⟩
  · cases evicted with
    | nil => cases hv
    | cons w evicted =>
      rw [List.dropLast_cons_cons] at hv
      rcases List.mem_cons.mp hv with rfl | hv
      · exact hused
      · exact h.sooner v hv
  · obtain ⟨v, hv, henough⟩ := h.last hfits
    cases evicted with
    | nil => cases hv
    | cons w evicted => exact ⟨v, by rwa [List.getLast?_cons_cons], henough⟩
  · obtain ⟨hall, hnone⟩ := h.all hfits
    refine ⟨congrArg (name :: ·) hall, fun v hv => ?_⟩
    rcases List.mem_cons.mp hv with rfl | hv
    · exact hused
    · exact hnone v hv

/-! ## Outcomes -/

section Outcomes

variable (codec : Codec B) (hot : Path) (O : Outside B) (modTime : Path → Option Int)

/-- The ways in which evictions can go: of the markers that may be evicted, the oldest first, until
it is enough. -/
inductive EvictsOldest (enough : Int → Bool) (evictable : String → Bool) (t : FileTree B) :
    Except Err Bool → FileTree B → Prop
  | unlisted {e : Err} (h : Unlisted O hot t) : EvictsOldest enough evictable t (.error e) t
  | evicted {order : List String} {evicted : List (String × Int)} {fits : Bool} {t' : FileTree B}
      (horder : OldestFirst hot modTime t order) (hevicted : Evictions codec hot O t evicted t')
      (hshortest : Shortest enough (order.filter evictable) evicted fits) :
      EvictsOldest enough evictable t (.ok fits) t'
  | stopped {e : Err} {order : List String} {evicted : List (String × Int)} {name : String}
      {rest : List String} {t₁ t' : FileTree B} (horder : OldestFirst hot modTime t order)
      (hevicted : Evictions codec hot O t evicted t₁) (hmore : ∀ v ∈ evicted, enough v.2 = false)
      (hrest : order.filter evictable = evicted.map Prod.fst ++ name :: rest)
      (hfails : EvictionFails codec hot O t₁ name t') :
      EvictsOldest enough evictable t (.error e) t'

/-- The ways in which a sweep can go. -/
inductive Sweeps (preserve : String) (t : FileTree B) : Except Err Unit → FileTree B → Prop
  | unmeasured {e : Err} (husage : O.usage t (.error e)) : Sweeps preserve t (.error e) t
  | below {capacity used : Int} (husage : O.usage t (.ok (capacity, used)))
      (hbelow : used ≤ (Int.bmod (capacity * 80) (2 ^ 64)).tdiv 100) : Sweeps preserve t (.ok ()) t
  | above {capacity used : Int} {x : Except Err Bool} {t' : FileTree B}
      (husage : O.usage t (.ok (capacity, used)))
      (habove : (Int.bmod (capacity * 80) (2 ^ 64)).tdiv 100 < used)
      (hevicts : EvictsOldest codec hot O modTime
        (fun used => decide (used ≤ (Int.bmod (capacity * 65) (2 ^ 64)).tdiv 100))
        (· ≠ preserve) t x t') : Sweeps preserve t (x.map fun _ => ()) t'

/-- What making space returns after its evictions. -/
def spaceResult : Except Err Bool → Except Err Unit
  | .ok true => .ok ()
  | .ok false => .error (.other "insufficient hot-cache capacity")
  | .error e => .error e

/-- The ways in which making space can go. -/
inductive MakesSpace (incoming : Int) (t : FileTree B) : Except Err Unit → FileTree B → Prop
  | unmeasured {e : Err} (husage : O.usage t (.error e)) : MakesSpace incoming t (.error e) t
  | large {capacity used : Int} {e : Err} (husage : O.usage t (.ok (capacity, used)))
      (hlarge : (Int.bmod (capacity * 95) (2 ^ 64)).tdiv 100 < incoming) :
      MakesSpace incoming t (.error e) t
  | fits {capacity used : Int} (husage : O.usage t (.ok (capacity, used)))
      (hlarge : incoming ≤ (Int.bmod (capacity * 95) (2 ^ 64)).tdiv 100)
      (hfits : Int.bmod (used + incoming) (2 ^ 64) ≤
        (Int.bmod (capacity * 95) (2 ^ 64)).tdiv 100) : MakesSpace incoming t (.ok ()) t
  | above {capacity used : Int} {x : Except Err Bool} {t' : FileTree B}
      (husage : O.usage t (.ok (capacity, used)))
      (hlarge : incoming ≤ (Int.bmod (capacity * 95) (2 ^ 64)).tdiv 100)
      (habove : (Int.bmod (capacity * 95) (2 ^ 64)).tdiv 100 < Int.bmod (used + incoming) (2 ^ 64))
      (hevicts : EvictsOldest codec hot O modTime
        (fun used => decide (Int.bmod (used + incoming) (2 ^ 64) ≤
          (Int.bmod (capacity * 95) (2 ^ 64)).tdiv 100)) (fun _ => true) t x t') :
      MakesSpace incoming t (spaceResult x) t'

end Outcomes

section Runs

variable {codec : Codec B} {hot : Path} {O : Outside B} {modTime : Path → Option Int}
  {s s' : ManagerState B}

theorem ends_usage {x : Except Err (Int × Int)}
    (h : cacheUsage.prog.Ends (ManagerState.Exec O) s x s') :
    O.usage s.tree x ∧ s'.tree = s.tree := by
  obtain ⟨a, s₁, ⟨⟨husage, htree⟩, -⟩, h⟩ := h
  cases a with
  | ok usage =>
    obtain ⟨rfl, rfl⟩ := h
    exact ⟨husage, htree⟩
  | error e =>
    obtain ⟨rfl, rfl⟩ := h
    exact ⟨husage, htree⟩

/-- A loop of evictions stops with the first measurement that is low enough. -/
theorem ends_evictUntil {enough : Int → Bool} {names : List String} {x : Except Err Bool}
    (h : (evictUntil codec hot enough names).prog.Ends (ManagerState.Exec O) s x s') :
    ∃ evicted t, Evictions codec hot O s.tree evicted t ∧ match x with
      | .ok fits => s'.tree = t ∧ Shortest enough names evicted fits
      | .error _ => (∀ v ∈ evicted, enough v.2 = false) ∧
          ∃ name rest, names = evicted.map Prod.fst ++ name :: rest ∧
            EvictionFails codec hot O t name s'.tree := by
  induction names generalizing s with
  | nil =>
    obtain ⟨rfl, rfl⟩ := h
    have hnone : ∀ v ∈ ([] : List (String × Int)), enough v.2 = false :=
      fun v hv => absurd hv List.not_mem_nil
    exact ⟨[], _, .done _, rfl, List.nil_prefix, hnone, Bool.noConfusion, fun _ => ⟨rfl, hnone⟩⟩
  | cons name names ih =>
    unfold evictUntil at h
    rcases Flow.ends_bind.mp h with ⟨e, rfl, hevict⟩ | ⟨_, s₁, hevict, h⟩
    · obtain ⟨e', hevict⟩ := ends_os_error (ends_onFiles.mp hevict).1
      exact ⟨[], _, .done _, fun v hv => absurd hv List.not_mem_nil, name, names, rfl,
        .inl ⟨e', hevict⟩⟩
    have hevict := ends_os (ends_onFiles.mp hevict).1
    rcases Flow.ends_bind.mp h with ⟨e, rfl, hmeasure⟩ | ⟨⟨capacity, used⟩, s₂, hmeasure, h⟩
    · obtain ⟨husage, htree⟩ := ends_usage hmeasure
      exact ⟨[], _, .done _, fun v hv => absurd hv List.not_mem_nil, name, names, rfl,
        .inr (htree ▸ ⟨hevict, e, husage⟩)⟩
    obtain ⟨husage, htree⟩ := ends_usage hmeasure
    dsimp only at h
    cases henough : enough used with
    | true =>
      rw [henough, if_pos rfl] at h
      obtain ⟨rfl, rfl⟩ := h
      refine ⟨[(name, used)], s₁.tree, .next hevict husage (.done _), htree, ?_,
        fun v hv => absurd hv List.not_mem_nil, fun _ => ?_, Bool.noConfusion⟩
      · exact List.cons_prefix_cons.mpr ⟨rfl, List.nil_prefix⟩
      · exact ⟨_, rfl, henough⟩
    | false =>
      rw [henough, if_neg Bool.false_ne_true] at h
      obtain ⟨evicted, t, hevictions, hx⟩ := ih h
      rw [htree] at hevictions
      refine ⟨(name, used) :: evicted, t, .next hevict husage hevictions, ?_⟩
      cases x with
      | ok fits => exact ⟨hx.1, hx.2.cons henough⟩
      | error e =>
        obtain ⟨hnone, name', rest, hnames, hfails⟩ := hx
        refine ⟨fun v hv => ?_, name', rest, congrArg (name :: ·) hnames, hfails⟩
        rcases List.mem_cons.mp hv with rfl | hv
        · exact henough
        · exact hnone v hv

theorem TimedExec.ends {α : Type} {p : Prog (Manager B) α} {a : α}
    (h : p.Ends (TimedExec O modTime) s a s') : p.Ends (ManagerState.Exec O) s a s' :=
  h.mono fun _ _ _ _ hexec => hexec.1

theorem timed_modTimes {names : List String} {x : Except Err (List (String × Int))}
    (h : (modTimes hot names).prog.Ends (TimedExec O modTime) s x s') :
    x = .ok (names.map fun name => (name, age hot modTime name)) := by
  induction names generalizing s s' x with
  | nil => exact h.1
  | cons name names ih =>
    obtain ⟨info, s₁, ⟨-, rfl⟩, h⟩ := h
    rcases Flow.ends_bind.mp h with ⟨e, rfl, hrest⟩ | ⟨entries, s₂, hrest, rfl, -⟩
    · cases ih hrest
    · cases ih hrest
      rfl

theorem ends_markers {x : Except Err (List String)}
    (h : (markersByAge hot).prog.Ends (TimedExec O modTime) s x s') :
    s'.tree = s.tree ∧ match x with
      | .ok order => OldestFirst hot modTime s.tree order
      | .error _ => Unlisted O hot s.tree := by
  refine ⟨ends_markersByAge (TimedExec.ends h), ?_⟩
  unfold markersByAge at h
  rcases Flow.ends_bind.mp h with ⟨e, rfl, hread⟩ | ⟨names, s₁, hread, h⟩
  · exact (ends_readMarkers (TimedExec.ends hread)).2
  · have hnames := (ends_readMarkers (TimedExec.ends hread)).2
    obtain ⟨order, s₂, ⟨⟨⟨hperm, -⟩, -⟩, -⟩, h⟩ := h
    rcases Flow.ends_bind.mp h with ⟨e, rfl, htimes⟩ | ⟨entries, s₃, htimes, rfl, -⟩
    · cases timed_modTimes htimes
    · cases timed_modTimes htimes
      obtain ⟨hsorted, hage⟩ := byAge_sortSlice hot modTime order
      exact ⟨names, hnames, hsorted.trans hperm, hage⟩

/-- After the markers are listed and sorted. -/
theorem evictsOldest_of_ends {enough : Int → Bool} {evictable : String → Bool}
    {order : List String} {x : Except Err Bool} {t : FileTree B}
    (horder : OldestFirst hot modTime t order) (htree : s.tree = t)
    (h : (evictUntil codec hot enough (order.filter evictable)).prog.Ends (ManagerState.Exec O)
      s x s') : EvictsOldest codec hot O modTime enough evictable t x s'.tree := by
  obtain ⟨evicted, t₁, hevicted, hx⟩ := ends_evictUntil h
  rw [htree] at hevicted
  cases x with
  | ok fits =>
    obtain ⟨rfl, hshortest⟩ := hx
    exact .evicted horder hevicted hshortest
  | error e =>
    obtain ⟨hmore, name, rest, hrest, hfails⟩ := hx
    exact .stopped horder hevicted hmore hrest hfails

theorem sweeps_of_ends {preserve : String} {x : Except Err Unit}
    (h : (sweep codec hot preserve).prog.Ends (TimedExec O modTime) s x s') :
    Sweeps codec hot O modTime preserve s.tree x s'.tree := by
  unfold sweep at h
  rcases Flow.ends_bind.mp h with ⟨e, rfl, hmeasure⟩ | ⟨⟨capacity, used⟩, s₁, hmeasure, h⟩
  · obtain ⟨husage, htree⟩ := ends_usage (TimedExec.ends hmeasure)
    rw [htree]
    exact .unmeasured husage
  obtain ⟨husage, htree⟩ := ends_usage (TimedExec.ends hmeasure)
  dsimp only at h
  split at h
  · rename_i hbelow
    obtain ⟨rfl, rfl⟩ := h
    rw [htree]
    exact .below husage hbelow
  rename_i habove
  rcases Flow.ends_bind.mp h with ⟨e, rfl, hlist⟩ | ⟨order, s₂, hlist, h⟩
  · obtain ⟨htree', hunlisted⟩ := ends_markers hlist
    rw [htree', htree]
    exact .above husage (not_le.mp habove) (.unlisted (htree ▸ hunlisted))
  obtain ⟨htree', horder⟩ := ends_markers hlist
  have hstart := htree'.trans htree
  rw [htree] at horder
  rcases Flow.ends_bind.mp h with ⟨e, rfl, hevict⟩ | ⟨fits, s₃, hevict, h⟩
  · exact .above husage (not_le.mp habove)
      (evictsOldest_of_ends horder hstart (TimedExec.ends hevict))
  · obtain ⟨rfl, rfl⟩ := h
    exact .above husage (not_le.mp habove)
      (evictsOldest_of_ends horder hstart (TimedExec.ends hevict))

theorem makesSpace_of_ends {incoming : Int} {x : Except Err Unit}
    (h : (makeSpace codec hot incoming).prog.Ends (TimedExec O modTime) s x s') :
    MakesSpace codec hot O modTime incoming s.tree x s'.tree := by
  unfold makeSpace at h
  rcases Flow.ends_bind.mp h with ⟨e, rfl, hmeasure⟩ | ⟨⟨capacity, used⟩, s₁, hmeasure, h⟩
  · obtain ⟨husage, htree⟩ := ends_usage (TimedExec.ends hmeasure)
    rw [htree]
    exact .unmeasured husage
  obtain ⟨husage, htree⟩ := ends_usage (TimedExec.ends hmeasure)
  dsimp only at h
  split at h
  · rename_i hlarge
    obtain ⟨rfl, rfl⟩ := h
    rw [htree]
    exact .large husage hlarge
  rename_i hlarge
  split at h
  · rename_i hfits
    obtain ⟨rfl, rfl⟩ := h
    rw [htree]
    exact .fits husage (not_lt.mp hlarge) hfits
  rename_i habove
  have hmake : ∀ {y : Except Err Bool} {t' : FileTree B},
      EvictsOldest codec hot O modTime
        (fun used => decide (Int.bmod (used + incoming) (2 ^ 64) ≤
          (Int.bmod (capacity * 95) (2 ^ 64)).tdiv 100)) (fun _ => true) s.tree y t' →
      MakesSpace codec hot O modTime incoming s.tree (spaceResult y) t' :=
    fun h => .above husage (not_lt.mp hlarge) (not_le.mp habove) h
  rcases Flow.ends_bind.mp h with ⟨e, rfl, hlist⟩ | ⟨order, s₂, hlist, h⟩
  · obtain ⟨htree', hunlisted⟩ := ends_markers hlist
    rw [htree', htree]
    exact hmake (.unlisted (htree ▸ hunlisted))
  obtain ⟨htree', horder⟩ := ends_markers hlist
  have hstart := htree'.trans htree
  rw [htree] at horder
  rw [← List.filter_true order] at h
  rcases Flow.ends_bind.mp h with ⟨e, rfl, hevict⟩ | ⟨fits, s₃, hevict, h⟩
  · exact hmake (evictsOldest_of_ends horder hstart (TimedExec.ends hevict))
  · have hresult := hmake (evictsOldest_of_ends horder hstart (TimedExec.ends hevict))
    cases fits with
    | true =>
      obtain ⟨rfl, rfl⟩ := h
      exact hresult
    | false =>
      obtain ⟨rfl, rfl⟩ := h
      exact hresult

end Runs

/-- The eviction policy, for every run of `sweep` and of `makeSpace`. -/
theorem eviction_policy (codec : Codec B) (hot : Path) (O : Outside B)
    (modTime : Path → Option Int) :
    (∀ preserve s x s', (sweep codec hot preserve).prog.Ends (TimedExec O modTime) s x s' →
      Sweeps codec hot O modTime preserve s.tree x s'.tree) ∧
    ∀ incoming s x s', (makeSpace codec hot incoming).prog.Ends (TimedExec O modTime) s x s' →
      MakesSpace codec hot O modTime incoming s.tree x s'.tree :=
  ⟨fun _ _ _ _ => sweeps_of_ends, fun _ _ _ _ => makesSpace_of_ends⟩

theorem Script.timed_ends {α : Type} (S : Script B) (p : Prog (Manager B) α) (s : ManagerState B) :
    p.Ends (TimedExec S.outside S.modTime) s (p.eval S.answer s).1 (p.eval S.answer s).2 := by
  refine Prog.ends_eval (fun s op => ⟨S.exec_answer s op, ?_⟩) p s
  rcases op with c | c
  · trivial
  · cases c with
    | modTime p => rfl
    | _ => trivial

/-- The older of two markers takes up so much that it has to go. -/
def twoMarkers : FileTree Json :=
  FileTree.ofEntries [(["hot"], .dir), (["hot", ".llm-cache"], .dir),
    (["hot", ".llm-cache", "new"], .dir), (["hot", ".llm-cache", "old"], .dir)] (by decide +kernel)

def crowded : Script Json where
  usage t := .ok (100, if t.isDirAt ["hot", ".llm-cache", "old"] then 90 else 60)
  modTime p := if p = ["hot", ".llm-cache", "old"] then some 1 else some 2
  inventory _ _ := .error (.other "exit status 1")
  download _ _ _ _ t := (.error "exit status 1", t)

theorem eviction_policy_crowded :
    ∃ s', (sweep Codec.documents ["hot"] "").prog.Ends (TimedExec crowded.outside crowded.modTime)
        ⟨twoMarkers, []⟩ (.ok ()) s' ∧
      Sweeps Codec.documents ["hot"] crowded.outside crowded.modTime "" twoMarkers
        (.ok ()) s'.tree ∧
      s'.tree.isDirAt ["hot", ".llm-cache", "old"] = false ∧
      s'.tree.isDirAt ["hot", ".llm-cache", "new"] = true := by
  have hrun := crowded.timed_ends (sweep Codec.documents ["hot"] "").prog ⟨twoMarkers, []⟩
  rw [show (Prog.eval _ _ _).1 = Except.ok () by decide +kernel] at hrun
  exact ⟨_, hrun, (eviction_policy Codec.documents ["hot"] crowded.outside crowded.modTime).1
    _ _ _ _ hrun, by decide +kernel, by decide +kernel⟩

end LlmOperator.Cache
