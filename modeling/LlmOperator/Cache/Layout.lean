import LlmOperator.Cache.Files

/-!
# Layouts

What a copy of an artifact leaves behind is described by a `Layout`: the places that are to hold a
file or a link, and what fits there. Between two entries every place is empty or holds what fits, so
that a loop over the entries needs to know nothing else about those already done.
-/

namespace LlmOperator.Cache

open Api Data FileSystem Interaction Safe

variable {B : Type}

/-! ## Layouts -/

/-- Places for files and links, none of them inside another. -/
structure Layout (B : Type) where
  fits : Path → Node B → Prop
  ne_nil : ∀ {p x}, fits p x → p ≠ []
  proper : ∀ {p x}, fits p x → Proper p
  leaf : ∀ p, ¬ fits p .dir
  apart : ∀ {p q x y}, fits p x → fits q y → p <+: q → p = q

namespace Layout

def Place (L : Layout B) (p : Path) : Prop := ∃ x, L.fits p x

/-- Every place is empty or holds what fits, and can be reached. -/
structure Conforms (L : Layout B) (t : FileTree B) : Prop where
  fits : ∀ {p x}, L.Place p → t.node p = some x → L.fits p x
  above : ∀ {p q}, L.Place p → q <+: p → q ≠ p → t.node q = none ∨ t.node q = some .dir

variable {L : Layout B} {t t' : FileTree B} {p : Path}

theorem Place.ne_nil (h : L.Place p) : p ≠ [] := h.elim fun _ h => L.ne_nil h

theorem Place.proper (h : L.Place p) : Proper p := h.elim fun _ h => L.proper h

theorem Place.eq {q : Path} (hp : L.Place p) (hq : L.Place q) (h : p <+: q) : p = q :=
  hp.elim fun _ hp => hq.elim fun _ hq => L.apart hp hq h

theorem Conforms.clear (h : L.Conforms t) (hp : L.Place p) : t.Clear p.dropLast := by
  intro q hq
  refine h.above hp (hq.trans p.dropLast_prefix) ?_
  rintro rfl
  exact not_below_dropLast hp.ne_nil hq

theorem Conforms.not_dir (h : L.Conforms t) (hp : L.Place p) : t.node p ≠ some .dir := fun hd =>
  L.leaf p (h.fits hp hd)

theorem Conforms.same (h : L.Conforms t) (ht : Same Set.univ t t') : L.Conforms t' := by
  refine ⟨fun {p x} hp hx => h.fits hp ?_, fun {p q} hp hq hne => ?_⟩
  · rwa [ht p trivial] at hx
  · rw [ht q trivial]
    exact h.above hp hq hne

/-- Only the places themselves are looked at by what is done at one of them. -/
theorem Conforms.other (hp : L.Place p) (hc : (copies p).Changes Set.univ t t') {q : Path}
    (hq : L.Place q) (hne : q ≠ p) : t'.node q = t.node q :=
  hc.same trivial (fun h => hne (hp.eq hq h).symm) id fun h => hne (hq.eq hp h)

theorem Conforms.copied (h : L.Conforms t) (hp : L.Place p) (hc : (copies p).Changes Set.univ t t')
    (hself : ∀ x, t'.node p = some x → L.fits p x) : L.Conforms t' := by
  refine ⟨fun {q x} hq hx => ?_, fun {q r} hq hr hne => ?_⟩
  · by_cases hqp : q = p
    · exact hqp ▸ hself x (hqp ▸ hx)
    · exact h.fits hq (Conforms.other hp hc hq hqp ▸ hx)
  · refine hc.clear trivial (fun hown => ?_) id (h.above hq hr hne)
    have hpq := hp.eq hq (List.IsPrefix.trans hown hr)
    rw [hpq] at hown
    exact hne (hr.eq_of_length_le (List.IsPrefix.length_le hown))

/-- What is done apart from all places. -/
theorem Conforms.beside (h : L.Conforms t) (hp : ∀ q, L.Place q → Apart p q)
    (hc : (copies p).Changes Set.univ t t') : L.Conforms t' := by
  refine ⟨fun {q x} hq hx => h.fits hq ?_, fun {q r} hq hr hne => ?_⟩
  · rwa [hc.same trivial (hp q hq).1 id (hp q hq).2] at hx
  · exact hc.clear trivial (fun hown => (hp q hq).1 (List.IsPrefix.trans hown hr)) id
      (h.above hq hr hne)

/-- The places, and directories above them. -/
def footprint (L : Layout B) : Footprint :=
  ⟨{p | L.Place p}, ∅, {q | ∃ p, L.Place p ∧ q <+: p}⟩

/-- Below a place there is nothing, before and after. -/
theorem Conforms.changes (h : L.Conforms t) (h' : L.Conforms t') (hp : L.Place p)
    (hc : (copies p).Changes Set.univ t t') : L.footprint.Changes Set.univ t t' := by
  intro q hq
  rcases hc q hq with h₁ | h₁ | ⟨h₁, _⟩ | ⟨h₁, hnone, hdir⟩
  · exact .inl h₁
  · obtain ⟨s, rfl⟩ := h₁
    by_cases hs : s = []
    · exact .inr (.inl (by rwa [hs, List.append_nil]))
    · exact .inl (by rw [t'.below_none (h'.not_dir hp) hs, t.below_none (h.not_dir hp) hs])
  · exact h₁.elim
  · exact .inr (.inr (.inr ⟨⟨p, hp, h₁⟩, hnone, hdir⟩))

end Layout

theorem Puts.changes {X : Set Path} {p : Path} {x : Option (Node B)} {t t' : FileTree B}
    (h : Puts X p x t t') : (copies p).Changes X t t' := by
  intro q hq
  by_cases hqp : q = p
  · exact .inr (.inl (hqp ▸ List.prefix_rfl))
  · exact .inl (h.other hq hqp)

/-! ## Filling one place -/

section Placing

variable {F : Chances B} {g : Footprint} {t t' : FileTree B} {E : Prop} {L : Layout B} {dst : Path}

/-- One entry has been put into its place; of the blob of a link nothing is known. A link with the
name of a temporary one may be missing. -/
structure Settled (F : Chances B) (L : Layout B) (dst : Path) (link : Prop) (t t' : FileTree B) :
    Prop where
  conforms : L.Conforms t'
  present : t'.node dst ≠ none ∨ (link ∧ TempNamed F dst)
  others : ∀ p, L.Place p → p ≠ dst → t'.node p = t.node p
  changes : ¬ link → L.footprint.Changes Set.univ t t'

/-- A regular file has been written to its place. -/
theorem settled_file {b : B} {link : Prop} (hconf : L.Conforms t)
    (hc : (copies dst).Changes Set.univ t t') (hb : t'.node dst = some (.file b))
    (hfits : L.fits dst (.file b)) : Settled F L dst link t t' := by
  have hconf' : L.Conforms t' := hconf.copied ⟨_, hfits⟩ hc fun x hx => by
    rw [hb] at hx
    cases hx
    exact hfits
  refine ⟨hconf', .inl ?_, fun p hp hne => Layout.Conforms.other ⟨_, hfits⟩ hc hp hne,
    fun _ => hconf.changes hconf' ⟨_, hfits⟩ hc⟩
  rw [hb]
  exact Option.some_ne_none _

theorem exits_parent (hF : ∀ c, F c → E) (hconf : L.Conforms t) (hplace : L.Place dst)
    (hle : (above dst.dropLast).Le g) :
    Safe (fsWorld Set.univ F g) (mkdirAll dst.dropLast).prog (Exits E fun _ t' =>
      L.Conforms t' ∧ t'.node dst.dropLast = some .dir ∧ ∀ p, L.Place p →
        t'.node p = t.node p) t := by
  have hup := List.dropLast_prefix dst
  have hclear := hconf.clear hplace
  have hlink : ∀ target, t.node dst.dropLast ≠ some (.link target) := fun target h => by
    rcases hclear _ List.prefix_rfl with h' | h' <;> rw [h] at h' <;> cases h'
  refine exits_mono (exits_within hle
    (exits_mkdirAll (fun _ _ => trivial) (hplace.proper.below hup) hF
    (.inl hclear) hlink)) id ?_
  rintro _ t₁ ⟨hdir, hc⟩
  have hself : t₁.node dst = t.node dst := hc.same trivial id id (not_below_dropLast hplace.ne_nil)
  have hc' : (copies dst).Changes Set.univ t t₁ := fun q hq => (hc q hq).mono (above_le_copies hup)
  refine ⟨hconf.copied hplace hc' fun x hx => hconf.fits hplace (hself ▸ hx), hdir, fun p hp => ?_⟩
  by_cases hpd : p = dst
  · rw [hpd, hself]
  · exact Layout.Conforms.other hplace hc' hp hpd

theorem exits_relink {blob : Path} (hF : ∀ c, F c → E) (hconf : L.Conforms t)
    (hfits : L.fits dst (.link (relativeBlobLink dst blob))) (hblob : Proper blob)
    (hle : (relinks dst).Le g) (hdir : t.node dst.dropLast = some .dir) :
    Safe (fsWorld Set.univ F g) (replaceSymlink dst (relativeBlobLink dst blob)).prog
      (Exits E fun _ t' => L.Conforms t' ∧ (t'.node dst ≠ none ∨ TempNamed F dst) ∧
        ∀ p, L.Place p → p ≠ dst → t'.node p = t.node p) t := by
  have hplace : L.Place dst := ⟨_, hfits⟩
  refine exits_mono (safe_widen hle
    (exits_replaceSymlink (fun _ _ => trivial) hplace.proper hplace.ne_nil
    (fun h => absurd hdir h) (fun h => absurd h (hconf.not_dir hplace))
    (fun h => absurd h (text_rel _ hblob).1) hF)) id ?_
  have hother : ∀ {x t₁}, Puts Set.univ dst x t t₁ → ∀ p, L.Place p → p ≠ dst →
      t₁.node p = t.node p :=
    fun h p hp hpd => h.other trivial hpd
  rintro _ t₁ (h | ⟨htemp, h⟩)
  · refine ⟨hconf.copied hplace (Puts.changes h) fun x hx => ?_, .inl ?_, hother h⟩
    · rw [h.self trivial] at hx
      cases hx
      exact hfits
    · rw [h.self trivial]
      exact Option.some_ne_none _
  · refine ⟨hconf.copied hplace (Puts.changes h) fun x hx => ?_, .inr htemp, hother h⟩
    rw [h.self trivial] at hx
    cases hx

end Placing

end LlmOperator.Cache
