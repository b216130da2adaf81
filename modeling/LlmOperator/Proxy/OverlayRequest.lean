import LlmOperator.Api.Types
import LlmOperator.Data.Value

/-!
# Requests for an overlay

`applyOverlay` of `cmd/llm-proxy/main.go`: the body of a request for an overlay is decoded, the
defaults of the overlay are filled in where the client left them open, the model is replaced
by the base model, and the result is encoded again.

`mergeDefaults` ranges over the maps of the defaults, each of them once, in an order that Go
does not fix. A map is given by its entries in the order in which they are visited, so that a
statement about every order is one about every listing of the defaults.
-/

namespace LlmOperator.Proxy

open Api Data Data.Value

variable {ν : Type} {defaults v request : Value ν} {p : Path} {names : List String}

/-! ## Filling in defaults -/

mutual

/-- `mergeDefaults`, with the changed request as its result. -/
def mergeDefaults (request : Entries ν) : Entries ν → Entries ν
  | [] => request
  | (key, defaultValue) :: rest => mergeDefaults (mergeDefault request key defaultValue) rest

/-- One iteration. -/
def mergeDefault (request : Entries ν) (key : String) (defaultValue : Value ν) : Entries ν :=
  match lookup key request with
  | none => assign key defaultValue request
  | some requestValue =>
    match requestValue, defaultValue with
    | .obj requestMap, .obj defaultMap =>
      assign key (.obj (mergeDefaults requestMap defaultMap)) request
    | _, _ => request

end

/-- What becomes of a request value that exists. -/
def mergeValue (requestValue defaultValue : Value ν) : Value ν :=
  match requestValue, defaultValue with
  | .obj requestMap, .obj defaultMap => .obj (mergeDefaults requestMap defaultMap)
  | _, _ => requestValue

/-- What becomes of a name. -/
def mergeAt (requestValue : Option (Value ν)) (defaultValue : Value ν) : Value ν :=
  match requestValue with
  | none => defaultValue
  | some requestValue => mergeValue requestValue defaultValue

theorem lookup_mergeDefault (request : Entries ν) (key key' : String) (v : Value ν) :
    lookup key' (mergeDefault request key v) =
      if key' = key then some (mergeAt (lookup key request) v) else lookup key' request := by
  have hsame : ∀ requestValue, lookup key request = some requestValue →
      lookup key' request = if key' = key then some requestValue else lookup key' request := by
    intro requestValue hrequest
    split
    · rename_i hkey
      rw [hkey, hrequest]
    · rfl
  unfold mergeDefault mergeAt mergeValue
  cases hrequest : lookup key request with
  | none => exact lookup_assign key key' v request
  | some requestValue =>
    dsimp only
    split
    · exact lookup_assign key key' _ request
    · exact hsame _ hrequest

/-- The request after the loop, name by name. -/
theorem lookup_mergeDefaults {defaults : Entries ν} (hnodup : (keys defaults).Nodup)
    (request : Entries ν) (key : String) :
    lookup key (mergeDefaults request defaults) =
      match lookup key defaults with
      | none => lookup key request
      | some defaultValue => some (mergeAt (lookup key request) defaultValue) := by
  induction defaults generalizing request with
  | nil => rfl
  | cons e rest ih =>
    obtain ⟨key', v⟩ := e
    obtain ⟨hkey, hrest⟩ := List.nodup_cons.mp hnodup
    rw [mergeDefaults, ih hrest, lookup, lookup_mergeDefault]
    by_cases hk : key = key'
    · subst hk
      rw [lookup_eq_none_iff.mpr hkey]
      simp
    · cases lookup key rest <;> simp [hk, Ne.symm hk]

theorem nodup_mergeDefaults {request : Entries ν} (h : (keys request).Nodup)
    (defaults : Entries ν) :
    (keys (mergeDefaults request defaults)).Nodup := by
  induction defaults generalizing request with
  | nil => exact h
  | cons e rest ih =>
    obtain ⟨key, v⟩ := e
    rw [mergeDefaults]
    refine ih ?_
    unfold mergeDefault
    split
    · exact nodup_keys_assign h _ _
    · split
      · exact nodup_keys_assign h _ _
      · exact h

/-- Filling in defaults repeats no name. -/
theorem distinct_mergeValue (hrequest : request.Distinct) (hdefaults : defaults.Distinct) :
    (mergeValue request defaults).Distinct := by
  intro p fields
  induction p generalizing request defaults with
  | nil =>
    intro hget
    unfold mergeValue at hget
    split at hget
    · cases hget
      exact nodup_mergeDefaults hrequest.keys _
    · exact hrequest [] fields hget
  | cons step p ih =>
    unfold mergeValue
    split
    · rename_i requestMap defaultMap
      cases step with
      | index i => exact fun h => nomatch h
      | key name =>
        rw [get?_cons]
        show (lookup name (mergeDefaults requestMap defaultMap)).bind _ = _ → _
        rw [lookup_mergeDefaults hdefaults.keys]
        cases hd : lookup name defaultMap with
        | none => exact hrequest (.key name :: p) fields
        | some d =>
          cases hr : lookup name requestMap with
          | none => exact hdefaults.entry hd p fields
          | some r =>
            exact ih (hrequest.entry hr)
              (hdefaults.entry hd)
    · exact hrequest (step :: p) fields

/-! ## What is found at a path -/

/-- The request has nothing at the path, and on the way to it only objects. -/
def LeftOpen (request : Value ν) : Path → Prop
  | [] => False
  | step :: p =>
    match request, step with
    | .obj fields, .key name =>
      match lookup name fields with
      | none => True
      | some v => LeftOpen v p
    | _, _ => False

theorem leftOpen_key (fields : Entries ν) (name : String) (p : Path) :
    LeftOpen (.obj fields) (.key name :: p) ↔
      ∀ v, lookup name fields = some v → LeftOpen v p := by
  rw [LeftOpen]
  cases lookup name fields with
  | none => simp
  | some v => simp

theorem leftOpen_cons (v : Value ν) (step : Step) (p : Path) :
    LeftOpen v (step :: p) ↔
      v.shape = .obj ∧ (∃ name, step = .key name) ∧ ∀ w, v.child step = some w → LeftOpen w p := by
  cases v with
  | obj fields =>
    cases step with
    | key name =>
      rw [leftOpen_key]
      exact ⟨fun h => ⟨rfl, ⟨name, rfl⟩, h⟩, fun h => h.2.2⟩
    | index i => exact iff_of_false id fun h => nomatch h.2.1
  | _ => exact ⟨fun h => (by cases step <;> exact h.elim), fun h => nomatch h.1⟩

theorem LeftOpen.shape_eq (h : LeftOpen request p) : request.shape = .obj := by
  cases p with
  | nil => cases h
  | cons step p =>
    cases request with
    | obj fields => rfl
    | _ => cases step <;> cases h

theorem view_of_leftOpen (h : LeftOpen request p) : request.view p = none := by
  induction p generalizing request with
  | nil => cases h
  | cons step p ih =>
    rw [view_cons]
    cases request with
    | obj fields =>
      cases step with
      | index i => rfl
      | key name =>
        show (lookup name fields).bind _ = none
        cases hv : lookup name fields with
        | none => rfl
        | some v => exact ih ((leftOpen_key fields name p).mp h v hv)
    | _ => cases step <;> cases h

theorem view_key_of_not_obj (h : ∀ fields, v ≠ .obj fields) (name : String) (p : Path) :
    v.view (.key name :: p) = none := by
  rw [view_cons]
  cases v with
  | obj fields => exact absurd rfl (h fields)
  | _ => rfl

/-- Where the request left a path open, the defaults are seen. -/
theorem view_mergeValue_of_leftOpen (hdefaults : defaults.Distinct) (hopen : LeftOpen request p) :
    (mergeValue request defaults).view p = defaults.view p := by
  induction p generalizing request defaults with
  | nil => cases hopen
  | cons step p ih =>
    cases request with
    | obj requestMap =>
      cases step with
      | index i => cases hopen
      | key name =>
        cases defaults with
        | obj defaultMap =>
          rw [leftOpen_key] at hopen
          rw [view_cons, view_cons]
          show (lookup name (mergeDefaults requestMap defaultMap)).bind _ =
            (lookup name defaultMap).bind _
          rw [lookup_mergeDefaults hdefaults.keys]
          cases hd : lookup name defaultMap with
          | none =>
            cases hr : lookup name requestMap with
            | none => rfl
            | some r => exact view_of_leftOpen (hopen r hr)
          | some d =>
            cases hr : lookup name requestMap with
            | none => rfl
            | some r => exact ih (hdefaults.entry hd) (hopen r hr)
        | _ =>
          refine (view_of_leftOpen hopen).trans (view_key_of_not_obj ?_ name p).symm
          intro fields h
          cases h
    | _ => cases step <;> cases hopen

/-- Elsewhere the request is seen. -/
theorem view_mergeValue_of_not_leftOpen (hdefaults : defaults.Distinct)
    (hopen : ¬LeftOpen request p) : (mergeValue request defaults).view p = request.view p := by
  induction p generalizing request defaults with
  | nil =>
    unfold mergeValue
    split <;> rfl
  | cons step p ih =>
    unfold mergeValue
    split
    · rename_i requestMap defaultMap
      cases step with
      | index i => rfl
      | key name =>
        rw [leftOpen_key] at hopen
        rw [view_cons, view_cons]
        show (lookup name (mergeDefaults requestMap defaultMap)).bind _ =
          (lookup name requestMap).bind _
        rw [lookup_mergeDefaults hdefaults.keys]
        cases hd : lookup name defaultMap with
        | none => rfl
        | some d =>
          cases hr : lookup name requestMap with
          | none => exact absurd (fun v h => nomatch hr.symm.trans h) hopen
          | some r =>
            refine ih (hdefaults.entry hd) fun h => hopen ?_
            intro v hv
            cases hr.symm.trans hv
            exact h
    · rfl

/-! ## Every order -/

theorem LeftOpen.same {request' : Value ν} (h : LeftOpen request p)
    (hsame : Same request request') :
    LeftOpen request' p := by
  induction p generalizing request request' with
  | nil => cases h
  | cons step p ih =>
    cases request with
    | obj fields =>
      obtain ⟨fields', rfl⟩ := shape_eq_obj (Option.some.inj (hsame [])).symm
      cases step with
      | index i => cases h
      | key name =>
        rw [leftOpen_key] at h ⊢
        intro v' hv'
        rcases hsame.child (.key name) with ⟨-, hnone⟩ | ⟨v, w, hv, hw, hvw⟩
        · cases hv'.symm.trans hnone
        · cases hv'.symm.trans hw
          exact ih (h v hv) hvw
    | _ => cases step <;> cases h

theorem Same.mergeValue {request' defaults' : Value ν} (hrequest : Same request' request)
    (hdefaults : Same defaults' defaults) (hd : defaults.Distinct) (hd' : defaults'.Distinct) :
    Same (Proxy.mergeValue request' defaults') (Proxy.mergeValue request defaults) := by
  intro p
  by_cases hopen : LeftOpen request p
  · rw [view_mergeValue_of_leftOpen hd hopen,
      view_mergeValue_of_leftOpen hd' (hopen.same hrequest.symm)]
    exact hdefaults p
  · rw [view_mergeValue_of_not_leftOpen hd hopen,
      view_mergeValue_of_not_leftOpen hd' fun h => hopen (h.same hrequest)]
    exact hrequest p

/-- What the result leaves open the request left open too. -/
theorem LeftOpen.of_mergeValue (hdefaults : defaults.Distinct)
    (h : LeftOpen (mergeValue request defaults) p) : LeftOpen request p := by
  induction p generalizing request defaults with
  | nil => cases h
  | cons step p ih =>
    unfold mergeValue at h
    split at h
    · rename_i requestMap defaultMap
      cases step with
      | index i => cases h
      | key name =>
        rw [leftOpen_key, lookup_mergeDefaults hdefaults.keys] at h
        rw [leftOpen_key]
        intro r hr
        rw [hr] at h
        cases hd : lookup name defaultMap with
        | none =>
          rw [hd] at h
          exact h r rfl
        | some d =>
          rw [hd] at h
          exact ih (hdefaults.entry hd) (h _ rfl)
    · exact h

theorem same_mergeValue_mergeValue (request : Value ν) {defaults' : Value ν}
    (hsame : Same defaults' defaults) (hd : defaults.Distinct) (hd' : defaults'.Distinct) :
    Same (mergeValue (mergeValue request defaults) defaults') (mergeValue request defaults) := by
  intro p
  by_cases hopen : LeftOpen (mergeValue request defaults) p
  · rw [view_mergeValue_of_leftOpen hd' hopen, hsame p,
      view_mergeValue_of_leftOpen hd (hopen.of_mergeValue hd)]
  · exact view_mergeValue_of_not_leftOpen hd' hopen

/-! ## Paths of names -/

/-- The two agree at a path of names, on what is there or that nothing is. -/
def AgreeAt (v w : Value ν) (names : List String) : Prop :=
  ∀ q, v.view (names.map Step.key ++ q) = w.view (names.map Step.key ++ q)

/-- Something other than an object stands at the path or on the way to it. -/
def LeafOn (v : Value ν) (names : List String) : Prop :=
  ∃ part w, part <+: names ∧ v.get? (part.map Step.key) = some w ∧ w.shape ≠ .obj

theorem LeafOn.not_leftOpen (h : LeafOn v names) (q : Path) :
    ¬LeftOpen v (names.map Step.key ++ q) := by
  obtain ⟨part, w, hpart, hget, hw⟩ := h
  obtain ⟨rest, rfl⟩ := hpart
  induction part generalizing v with
  | nil =>
    cases hget
    exact fun hopen => hw hopen.shape_eq
  | cons name part ih =>
    rw [List.map_cons, get?_cons] at hget
    obtain ⟨u, hu, hrest⟩ := Option.bind_eq_some_iff.mp hget
    intro hopen
    obtain ⟨fields, rfl⟩ := shape_eq_obj hopen.shape_eq
    exact ih hrest ((leftOpen_key fields name _).mp hopen u hu)

theorem LeafOn.ne_nil {fields : Entries ν} (h : LeafOn (.obj fields) names) : names ≠ [] := by
  rintro rfl
  obtain ⟨part, w, hpart, hget, hw⟩ := h
  cases List.prefix_nil.mp hpart
  cases hget
  exact hw rfl

theorem leftOpen_of_not_leafOn (hleaf : ¬LeafOn v names)
    (hnone : v.get? (names.map Step.key) = none) (q : Path) :
    LeftOpen v (names.map Step.key ++ q) := by
  induction names generalizing v with
  | nil => cases hnone
  | cons name names ih =>
    have hobj : v.shape = .obj := by
      by_contra hv
      exact hleaf ⟨[], v, List.nil_prefix, rfl, hv⟩
    obtain ⟨fields, rfl⟩ := shape_eq_obj hobj
    rw [List.map_cons, List.cons_append, leftOpen_key]
    intro u hu
    rw [List.map_cons, get?_cons] at hnone
    have hchild : (Value.obj fields).child (.key name) = some u := hu
    rw [hchild] at hnone
    refine ih ?_ hnone
    rintro ⟨part, w, hpart, hget, hw⟩
    refine hleaf ⟨name :: part, w, List.cons_prefix_cons.mpr ⟨rfl, hpart⟩, ?_, hw⟩
    rw [List.map_cons, get?_cons, hchild]
    exact hget

/-! ## The request that is forwarded -/

/-- `mergeDefaults` on maps. -/
def fill (request defaults : Object ν) : Object ν where
  fields := mergeDefaults request.fields defaults.fields
  distinct := distinct_mergeValue request.distinct defaults.distinct

/-- An order in which the maps of the defaults are visited: another listing of the same maps. -/
structure RangeOrder (ν : Type) where
  visit : Object ν → Object ν
  same : ∀ o, Same (visit o).value o.value

/-- The order in which the entries are listed. -/
def RangeOrder.listed (ν : Type) : RangeOrder ν := ⟨id, fun o => .refl o.value⟩

/-- `overlayConfig`, with what `applyOverlay` reads. -/
structure RequestOverlay (Lit : Type) where
  baseModel : String
  requestDefaults : Value Lit

section Apply

variable {Lit Num : Type}

/-- `request["model"] = overlay.BaseModel`. -/
def setModel (baseModel : String) (request : Object Num) : Object Num where
  fields := assign "model" (.str baseModel) request.fields
  distinct := request.distinct.assign "model" (distinct_str baseModel)

/-- Ranging over a nil map of defaults is ranging over an empty one. -/
def applyOverlay (c : Numbers Lit Num) (order : RangeOrder Num) (body : Value Lit)
    (overlay : RequestOverlay Lit) : Except Err (Value Lit) :=
  match unmarshalMap c body with
  | .error _ => .error (.other "overlay requests must contain a JSON object")
  | .ok none => .error (.other "overlay requests must contain a JSON object")
  | .ok (some request) =>
    match unmarshalMap c overlay.requestDefaults with
    | .error e => .error (.wrap "decode overlay request defaults" (.other e))
    | .ok defaults =>
      let request := fill request (order.visit (defaults.getD .empty))
      .ok (encode c (setModel overlay.baseModel request).value)

theorem same_fill (request : Object Num) {defaults defaults' : Object Num}
    (h : Same defaults'.value defaults.value) :
    Same (fill request defaults').value (fill request defaults).value :=
  Same.mergeValue (.refl request.value) h defaults.distinct defaults'.distinct

/-- Filling in the same defaults again changes nothing. -/
theorem same_fill_fill (request : Object Num) {defaults defaults' : Object Num}
    (h : Same defaults'.value defaults.value) :
    Same (fill (fill request defaults) defaults').value (fill request defaults).value :=
  same_mergeValue_mergeValue request.value h defaults.distinct defaults'.distinct

/-- The client's values win. -/
theorem agreeAt_fill_of_leafOn {request : Object Num} (h : LeafOn request.value names)
    (defaults : Object Num) : AgreeAt (fill request defaults).value request.value names :=
  fun q => view_mergeValue_of_not_leftOpen defaults.distinct (h.not_leftOpen q)

/-- What the client left open is filled in. -/
theorem agreeAt_fill_of_open {request : Object Num} (hleaf : ¬LeafOn request.value names)
    (hnone : request.value.get? (names.map Step.key) = none) (defaults : Object Num) :
    AgreeAt (fill request defaults).value defaults.value names :=
  fun q => view_mergeValue_of_leftOpen defaults.distinct (leftOpen_of_not_leafOn hleaf hnone q)

theorem view_setModel (baseModel : String) (request : Object Num) :
    (setModel baseModel request).value.view [.key "model"] = some (.str baseModel) := by
  rw [view_cons]
  show (lookup "model" (assign "model" _ _)).bind _ = _
  rw [lookup_assign, if_pos rfl]
  rfl

/-- Setting the model changes nothing else. -/
theorem view_setModel_of_ne (baseModel : String) (request : Object Num) {name : String}
    (hname : name ≠ "model") (p : Path) :
    (setModel baseModel request).value.view (.key name :: p) =
      request.value.view (.key name :: p) := by
  rw [view_cons, view_cons]
  show (lookup name (assign "model" _ _)).bind _ = (lookup name _).bind _
  rw [lookup_assign, if_neg hname]

/-- An accepted request, and what is forwarded for it. -/
theorem applyOverlay_eq_ok {c : Numbers Lit Num} {order : RangeOrder Num} {body out : Value Lit}
    {overlay : RequestOverlay Lit} (h : applyOverlay c order body overlay = .ok out) :
    ∃ request defaults, unmarshalMap c body = .ok (some request) ∧
      unmarshalMap c overlay.requestDefaults = .ok defaults ∧
      out = encode c (setModel overlay.baseModel
        (fill request (order.visit (defaults.getD .empty)))).value := by
  unfold applyOverlay at h
  cases hbody : unmarshalMap c body with
  | error e => rw [hbody] at h; cases h
  | ok request =>
    cases request with
    | none => rw [hbody] at h; cases h
    | some request =>
      cases hdefaults : unmarshalMap c overlay.requestDefaults with
      | error e => rw [hbody, hdefaults] at h; cases h
      | ok defaults =>
        rw [hbody, hdefaults] at h
        cases h
        exact ⟨request, defaults, rfl, rfl, rfl⟩

/-- The forwarded body, at a path that does not begin with the model. -/
theorem AgreeAt.forwarded (c : Numbers Lit Num) (baseModel : String) {request v : Object Num}
    (h : AgreeAt request.value v.value names) (hnames : names ≠ [])
    (hmodel : names.head? ≠ some "model") :
    AgreeAt (encode c (setModel baseModel request).value) (encode c v.value) names := by
  cases names with
  | nil => exact absurd rfl hnames
  | cons name names =>
    have hname : name ≠ "model" := fun heq => hmodel (congrArg some heq)
    intro q
    rw [view_encode c (setModel baseModel request).distinct, view_encode c v.distinct]
    rw [List.map_cons, List.cons_append, view_setModel_of_ne baseModel request hname]
    exact congrArg _ (h q)

/-- **Overlay merging.** The request with the defaults filled in is the same map in whichever order
the defaults are visited. At every path of names it agrees with the request where the request has a
value other than an object, there or on the way, and with the defaults where the request has
nothing; filling in the same defaults again changes nothing. What is forwarded is that map, with the
base model as its model. -/
theorem overlay_merging (c : Numbers Lit Num) (request defaults : Object Num) :
    (∀ order order' : RangeOrder Num,
      Same (fill request (order.visit defaults)).value
        (fill request (order'.visit defaults)).value) ∧
    ∀ order : RangeOrder Num,
      (∀ names, LeafOn request.value names →
        AgreeAt (fill request (order.visit defaults)).value request.value names) ∧
      (∀ names, ¬LeafOn request.value names → request.value.get? (names.map Step.key) = none →
        AgreeAt (fill request (order.visit defaults)).value defaults.value names) ∧
      (∀ order' : RangeOrder Num,
        Same (fill (fill request (order.visit defaults)) (order'.visit defaults)).value
          (fill request (order.visit defaults)).value) ∧
      ∀ body overlay out, unmarshalMap c body = .ok (some request) →
        (unmarshalMap c overlay.requestDefaults).map (fun d => d.getD .empty) = .ok defaults →
        applyOverlay c order body overlay = .ok out →
        out.view [.key "model"] = some (.str overlay.baseModel) ∧
        ∀ names, names.head? ≠ some "model" →
          (LeafOn request.value names → AgreeAt out (encode c request.value) names) ∧
          (¬LeafOn request.value names → request.value.get? (names.map Step.key) = none →
            AgreeAt out (encode c defaults.value) names) := by
  have hsame : ∀ order : RangeOrder Num, Same (order.visit defaults).value defaults.value :=
    fun order => order.same defaults
  have hopen : ∀ (order : RangeOrder Num) names, ¬LeafOn request.value names →
      request.value.get? (names.map Step.key) = none →
      AgreeAt (fill request (order.visit defaults)).value defaults.value names := by
    intro order names hleaf hnone q
    exact (agreeAt_fill_of_open hleaf hnone (order.visit defaults) q).trans (hsame order _)
  refine ⟨?_, fun order => ⟨?_, hopen order, ?_, ?_⟩⟩
  · intro order order'
    exact same_fill request fun p => (hsame order p).trans (hsame order' p).symm
  · intro names hleaf
    exact agreeAt_fill_of_leafOn hleaf (order.visit defaults)
  · intro order'
    exact same_fill_fill request fun p => (hsame order' p).trans (hsame order p).symm
  · intro body overlay out hbody hdefaults happly
    obtain ⟨request', defaults', hbody', hdefaults', rfl⟩ := applyOverlay_eq_ok happly
    cases hbody.symm.trans hbody'
    rw [hdefaults'] at hdefaults
    cases hdefaults
    refine ⟨?_, fun names hmodel => ⟨fun hleaf => ?_, fun hleaf hnone => ?_⟩⟩
    · rw [view_encode c (setModel overlay.baseModel _).distinct, view_setModel]
      rfl
    · exact (agreeAt_fill_of_leafOn hleaf _).forwarded c overlay.baseModel hleaf.ne_nil hmodel
    · have hne : names ≠ [] := by
        rintro rfl
        cases hnone
      exact (hopen order names hleaf hnone).forwarded c overlay.baseModel hne hmodel

/-- Numbers that are kept as they are written. -/
def Numbers.exact (ν : Type) : Numbers ν ν := ⟨.ok, id⟩

namespace Thinking

/-- A client that turns a setting off which the overlay turns on, and leaves another one open. -/
def body : Value ℕ :=
  .obj [("model", .str "thinking"), ("top_k", .num 5),
    ("chat_template_kwargs", .obj [("enable_thinking", .bool false)])]

def overlay : RequestOverlay ℕ where
  baseModel := "base"
  requestDefaults := .obj [("top_k", .num 20), ("chat_template_kwargs",
    .obj [("enable_thinking", .bool true), ("preserve_thinking", .bool true)])]

/-- A document without repeated names, decoded with its numbers as they are. -/
def decoded (fields : Entries ℕ) (h : decode (Numbers.exact ℕ) (.obj fields) = .ok (.obj fields)) :
    Object ℕ :=
  ⟨fields, distinct_decode h⟩

end Thinking

theorem overlay_merging_thinking :
    ∃ out, applyOverlay (Numbers.exact ℕ) (.listed ℕ) Thinking.body Thinking.overlay = .ok out ∧
      out.view [.key "model"] = some (.str "base") ∧ out.view [.key "top_k"] = some (.num 5) ∧
      out.view [.key "chat_template_kwargs", .key "enable_thinking"] = some (.bool false) ∧
      out.view [.key "chat_template_kwargs", .key "preserve_thinking"] = some (.bool true) := by
  refine ⟨_, rfl, ?_⟩
  obtain ⟨-, hall⟩ := overlay_merging (Numbers.exact ℕ)
    (Thinking.decoded [("model", .str "thinking"), ("top_k", .num 5),
      ("chat_template_kwargs", .obj [("enable_thinking", .bool false)])] rfl)
    (Thinking.decoded [("top_k", .num 20), ("chat_template_kwargs",
      .obj [("enable_thinking", .bool true), ("preserve_thinking", .bool true)])] rfl)
  obtain ⟨hmodel, hnames⟩ := (hall (.listed ℕ)).2.2.2 Thinking.body Thinking.overlay _ rfl rfl rfl
  refine ⟨hmodel, ?_, ?_, ?_⟩
  · exact (hnames ["top_k"] (by decide)).1 ⟨["top_k"], _, List.prefix_rfl, rfl, nofun⟩ []
  · exact (hnames ["chat_template_kwargs", "enable_thinking"] (by decide)).1
      ⟨["chat_template_kwargs", "enable_thinking"], _, List.prefix_rfl, rfl, nofun⟩ []
  · exact (hnames ["chat_template_kwargs", "preserve_thinking"] (by decide)).2
      (fun h => h.not_leftOpen [] trivial) rfl []

end Apply

end LlmOperator.Proxy
