import LlmOperator.Numeric.Shortest
import LlmOperator.Proxy.OverlayRequest

/-!
# The numbers of a request for an overlay

A request for an overlay is decoded and encoded again, and on the way every number in it is a
machine number: `encoding/json` reads a literal as the nearest one and prints the shortest literal
that is read back. An integer of the client is forwarded unchanged exactly when it is itself that
literal.
-/

namespace LlmOperator.Proxy

open Api Data Data.Value Numeric

/-- Numbers as `encoding/json` treats them where no type is given. -/
def float64 : Numbers Decimal Float64 where
  read l :=
    match toFloat64 l.value with
    | some f => .ok f
    | none => .error (Json.typeError "float64")
  print := shortest

variable {f : Float64} {p : Path}

theorem read_eq_ok {l : Decimal} (h : nearest l.value = f.value) : float64.read l = .ok f := by
  have hf : toFloat64 l.value = some f := by
    unfold toFloat64
    rw [dif_pos (h ▸ f.finite)]
    exact congrArg some (Float64.ext h)
  unfold float64
  dsimp only
  rw [hf]

theorem value_of_read {l : Decimal} (h : float64.read l = .ok f) : f.value = nearest l.value := by
  unfold float64 at h
  dsimp only at h
  split at h
  · rename_i g hg
    cases h
    exact value_of_toFloat64 hg
  · cases h

/-! ## Where a forwarded number comes from -/

section Source

variable {Lit Num : Type} {c : Numbers Lit Num}

/-- Decoding a document leaves the same paths open. -/
theorem leftOpen_decode {v : Value Lit} {w : Value Num} (h : decode c v = .ok w) :
    LeftOpen w p ↔ LeftOpen v p := by
  induction p generalizing v w with
  | nil => exact Iff.rfl
  | cons step p ih =>
    rw [leftOpen_cons, leftOpen_cons, shape_decode h]
    refine and_congr_right fun _ => and_congr_right fun _ => ?_
    have hchild := child_decode h step
    cases hv : v.child step with
    | none =>
      rw [hv, Option.map_none, eq_comm, Option.map_eq_none_iff] at hchild
      rw [hchild]
      simp
    | some v' =>
      rw [hv, Option.map_some, eq_comm, Option.map_eq_some_iff] at hchild
      obtain ⟨w', hw', hdecode⟩ := hchild
      rw [hw']
      simpa using ih hdecode.symm

/-- The number literal that stands at a path: in the request or, where that leaves the path open, in
the defaults. -/
def Stands (body defaults : Value Lit) (p : Path) (l : Lit) : Prop :=
  body.get? p = some (.num l) ∨ LeftOpen body p ∧ defaults.get? p = some (.num l)

theorem view_fill_num_iff {request defaults : Object Num} {n : Num} :
    (fill request defaults).value.view p = some (.num n) ↔
      request.value.view p = some (.num n) ∨
        LeftOpen request.value p ∧ defaults.value.view p = some (.num n) := by
  by_cases hopen : LeftOpen request.value p
  · have hview : (fill request defaults).value.view p = defaults.value.view p :=
      view_mergeValue_of_leftOpen defaults.distinct hopen
    rw [hview, view_of_leftOpen hopen]
    simp [hopen]
  · have hview : (fill request defaults).value.view p = request.value.view p :=
      view_mergeValue_of_not_leftOpen defaults.distinct hopen
    rw [hview]
    simp [hopen]

theorem view_setModel_of_head {baseModel : String} {request : Object Num}
    (hp : p.head? ≠ some (.key "model")) :
    (setModel baseModel request).value.view p = request.value.view p := by
  cases p with
  | nil => rfl
  | cons step p =>
    cases step with
    | index i => rfl
    | key name => exact view_setModel_of_ne baseModel request (by simpa using hp) p

/-- The numbers of the map that a document is decoded into; a document that is `null` has none. -/
theorem view_num_iff_of_unmarshalMap {v : Value Lit} {o : Option (Object Num)}
    (h : unmarshalMap c v = .ok o) {n : Num} :
    (o.getD .empty).value.view p = some (.num n) ↔
      ∃ l, v.get? p = some (.num l) ∧ c.read l = .ok n := by
  have hdecode := decode_of_unmarshalMap h
  rw [← get?_decode_num_iff hdecode, view_eq_num_iff]
  cases o with
  | some o => exact Iff.rfl
  | none =>
    cases p with
    | nil => exact iff_of_false nofun nofun
    | cons step p => cases step <;> exact iff_of_false nofun nofun

/-- The numbers that are forwarded, the model apart, are those that stand in the request and the
defaults, read and printed. -/
theorem get?_applyOverlay_num_iff {order : RangeOrder Num} {body out : Value Lit}
    {overlay : RequestOverlay Lit} (h : applyOverlay c order body overlay = .ok out)
    (hp : p.head? ≠ some (.key "model")) {l' : Lit} :
    out.get? p = some (.num l') ↔
      ∃ l n, Stands body overlay.requestDefaults p l ∧ c.read l = .ok n ∧ c.print n = l' := by
  obtain ⟨request, defaults, hbody, hdefaults, rfl⟩ := applyOverlay_eq_ok h
  have hrequest : ∀ n, request.value.view p = some (.num n) ↔
      ∃ l, body.get? p = some (.num l) ∧ c.read l = .ok n :=
    fun n => view_num_iff_of_unmarshalMap hbody
  have hfilled := fun n => view_num_iff_of_unmarshalMap hdefaults (p := p) (n := n)
  have hopen : LeftOpen request.value p ↔ LeftOpen body p :=
    leftOpen_decode (decode_of_unmarshalMap hbody)
  rw [get?_encode_num_iff c (setModel overlay.baseModel _).distinct]
  have hnum : ∀ n, (setModel overlay.baseModel
        (fill request (order.visit (defaults.getD .empty)))).value.get? p = some (.num n) ↔
      ∃ l, Stands body overlay.requestDefaults p l ∧ c.read l = .ok n := by
    intro n
    rw [← view_eq_num_iff, view_setModel_of_head hp, view_fill_num_iff, order.same, hfilled,
      hrequest, hopen]
    unfold Stands
    constructor
    · rintro (⟨l, hl, hread⟩ | ⟨hleft, l, hl, hread⟩)
      · exact ⟨l, Or.inl hl, hread⟩
      · exact ⟨l, Or.inr ⟨hleft, hl⟩, hread⟩
    · rintro ⟨l, hl | ⟨hleft, hl⟩, hread⟩
      · exact Or.inl ⟨l, hl, hread⟩
      · exact Or.inr ⟨hleft, l, hl, hread⟩
  constructor
  · rintro ⟨n, hn, hprint⟩
    obtain ⟨l, hstands, hread⟩ := (hnum n).mp hn
    exact ⟨l, n, hstands, hread, hprint⟩
  · rintro ⟨l, n, hstands, hread, hprint⟩
    exact ⟨n, (hnum n).mpr ⟨l, hstands, hread⟩, hprint⟩

/-- Every number that stands in an accepted request or its defaults could be read. -/
theorem read_of_stands {order : RangeOrder Num} {body out : Value Lit}
    {overlay : RequestOverlay Lit} (h : applyOverlay c order body overlay = .ok out) {l : Lit}
    (hl : Stands body overlay.requestDefaults p l) : ∃ n, c.read l = .ok n := by
  obtain ⟨request, defaults, hbody, hdefaults, -⟩ := applyOverlay_eq_ok h
  rcases hl with hl | ⟨-, hl⟩
  · exact read_of_decode (decode_of_unmarshalMap hbody) hl
  · exact read_of_decode (decode_of_unmarshalMap hdefaults) hl

end Source

/-- Every integer literal of the request that is not the model, or part of it, is forwarded as a
number of the same value. -/
def KeepsIntegers (body out : Value Decimal) : Prop :=
  ∀ p z, Occurs body p (.num ⟨z, 0⟩) → p.head? ≠ some (.key "model") →
    ∃ l, out.get? p = some (.num l) ∧ l.value = z

/-- **Which integers are forwarded unchanged.** A request keeps the integers of the client exactly
when, at the path of each of them, the number that is decoded is read as the same machine number as
the integer, and every other decimal that is read as that number has more digits than the integer,
or as many and is farther from that number. -/
theorem keepsIntegers_iff {order : RangeOrder Float64} {body out : Value Decimal}
    {overlay : RequestOverlay Decimal} (h : applyOverlay float64 order body overlay = .ok out) :
    KeepsIntegers body out ↔
      ∀ p z, Occurs body p (.num ⟨z, 0⟩) → p.head? ≠ some (.key "model") →
        ∃ l, Stands body overlay.requestDefaults p l ∧ nearest l.value = nearest z ∧ Kept z := by
  unfold KeepsIntegers
  refine forall_congr' fun p => forall_congr' fun z => forall_congr' fun _ =>
    forall_congr' fun hp => ?_
  constructor
  · rintro ⟨l', hl', hvalue⟩
    obtain ⟨l, f, hstands, hread, rfl⟩ := (get?_applyOverlay_num_iff h hp).mp hl'
    have hprinted : (shortest f).value = z := hvalue
    have hreads : nearest z = f.value := hprinted ▸ (printed_shortest f).reads
    refine ⟨l, hstands, (value_of_read hread).symm.trans hreads.symm, ?_⟩
    exact (value_shortest_eq_iff hreads.symm).mp hprinted
  · rintro ⟨l, hstands, hsame, hkept⟩
    obtain ⟨f, hread⟩ := read_of_stands h hstands
    have hf : f.value = nearest z := (value_of_read hread).trans hsame
    refine ⟨shortest f, (get?_applyOverlay_num_iff h hp).mpr ⟨l, f, hstands, hread, rfl⟩, ?_⟩
    exact (value_shortest_eq_iff hf).mpr hkept

namespace Seeded

/-- A request with a seed. -/
def body (z : ℤ) : Value Decimal := .obj [("model", .str "agent"), ("seed", .num ⟨z, 0⟩)]

/-- An overlay without defaults. -/
def overlay : RequestOverlay Decimal := ⟨"base", .obj []⟩

/-- The seed is read and printed. -/
theorem exists_forwarded {z : ℤ} (hf : nearest (⟨z, 0⟩ : Decimal).value = f.value) :
    ∃ out, applyOverlay float64 (.listed Float64) (body z) overlay = .ok out ∧
      out.get? [.key "seed"] = some (.num (shortest f)) := by
  have hread := read_eq_ok hf
  have hdecode : decode float64 (body z) =
      .ok (.obj [("model", .str "agent"), ("seed", .num f)]) := by
    simp only [body, decode, decodeEntries, hread]
    rfl
  obtain ⟨request, hrequest⟩ := unmarshalMap_of_decode (by show 1 ≤ _; decide) hdecode
  have hempty : decode float64 overlay.requestDefaults = .ok (.obj []) := rfl
  obtain ⟨defaults, hdefaults⟩ := unmarshalMap_of_decode (by show 1 ≤ _; decide) hempty
  obtain ⟨out, hout⟩ : ∃ out,
      applyOverlay float64 (.listed Float64) (body z) overlay = .ok out := by
    unfold applyOverlay
    rw [hrequest, hdefaults]
    exact ⟨_, rfl⟩
  refine ⟨out, hout, (get?_applyOverlay_num_iff hout (by decide)).mpr ?_⟩
  exact ⟨⟨z, 0⟩, f, Or.inl rfl, hread, rfl⟩

theorem occurs_body {z z' : ℤ} (h : Occurs (body z) p (.num ⟨z', 0⟩)) :
    p = [.key "seed"] ∧ z' = z := by
  cases h with
  | entry hmem h =>
    rcases List.mem_cons.mp hmem with heq | hmem
    · cases heq
      cases h
    · cases List.mem_singleton.mp hmem
      cases h
      exact ⟨rfl, rfl⟩

/-- The machine number of an integer that is not too large. -/
def rounded (z : ℤ) (h : |nearest (⟨z, 0⟩ : Decimal).value| < 2 ^ 60) : Float64 where
  value := nearest (⟨z, 0⟩ : Decimal).value
  precise := precise_nearest _
  finite := h.trans (pow_lt_pow_right₀ one_lt_two (by decide))

end Seeded

/-- The seed `2 ^ 53 + 1` is forwarded as `2 ^ 53`. -/
theorem seed_changed :
    ∃ out, applyOverlay float64 (.listed Float64) (Seeded.body 9007199254740993) Seeded.overlay =
        .ok out ∧
      out.get? [.key "seed"] = some (.num ⟨9007199254740992, 0⟩) ∧
      ¬KeepsIntegers (Seeded.body 9007199254740993) out := by
  obtain ⟨out, hout, hseed⟩ := Seeded.exists_forwarded
    (f := Seeded.rounded 9007199254740993 (by decide +kernel)) rfl
  have hprinted : shortest (Seeded.rounded 9007199254740993 (by decide +kernel)) =
      ⟨9007199254740992, 0⟩ := by decide +kernel
  rw [hprinted] at hseed
  refine ⟨out, hout, hseed, fun hkeeps => ?_⟩
  obtain ⟨l, hl, hvalue⟩ := hkeeps [.key "seed"] 9007199254740993 (.entry (by simp) (.here _))
    (by decide)
  cases hseed.symm.trans hl
  exact absurd hvalue (by decide +kernel)

/-- A small seed is forwarded unchanged, because no other decimal is as short. -/
theorem keepsIntegers_iff_small :
    ∃ out, applyOverlay float64 (.listed Float64) (Seeded.body 7) Seeded.overlay = .ok out ∧
      KeepsIntegers (Seeded.body 7) out ∧ Kept 7 := by
  obtain ⟨out, hout, hseed⟩ := Seeded.exists_forwarded
    (f := Seeded.rounded 7 (by decide +kernel)) rfl
  have hkeeps : KeepsIntegers (Seeded.body 7) out := by
    intro p z h _
    obtain ⟨rfl, rfl⟩ := Seeded.occurs_body h
    refine ⟨_, hseed, ?_⟩
    decide +kernel
  obtain ⟨l, -, -, hkept⟩ := (keepsIntegers_iff hout).mp hkeeps [.key "seed"] 7
    (.entry (by simp) (.here _)) (by decide)
  exact ⟨out, hout, hkeeps, by exact_mod_cast hkept⟩

end LlmOperator.Proxy
