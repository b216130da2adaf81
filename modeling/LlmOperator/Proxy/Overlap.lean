import LlmOperator.Proxy.WellFormed

/-!
# Refreshes that overlap

A refresh lists the models, lists the overlays, reads the status ConfigMap and then puts its
registry in force, whatever has happened in between; after that it may write the card of the active
model to the ConfigMap. `persistModelCardMetadata` writes a card to the ConfigMap and then into the
registry in force. Two refreshes that overlap can leave the older
registry in force, and a refresh that overlaps an update can lose the card: `catalog_goes_back`.

Nothing of the kind happens in an interleaving where, whenever a refresh publishes, no other one
has published since it listed the models and no card was put into the registry since it read the
status: `catalog_never_back`. The order of the calls is all that matters for this, so it is told
over the moves of a history, which forget what was listed and read.
-/

namespace LlmOperator.Proxy

open Api Data Interaction Interaction.Prog

/-! ## The registry and the stored cards -/

/-- The registry in force, and the model cards of the status ConfigMap. -/
structure CatalogState where
  registry : Catalog
  cards : FMap String String

/-- The data has these cards, and may have more under other keys. -/
def HasCards (data cards : FMap String String) : Prop :=
  ∀ source, cardAt data (modelCardKey source) = cardAt cards (modelCardKey source)

/-- The cards with what is written to them. -/
def written (cards : FMap String String) (data : List (String × String)) : FMap String String :=
  data.foldl (fun cards entry => cards.insert entry.1 entry.2) cards

/-- A write is carried out. If it is answered by an error it may or may not have been. -/
def WriteCards (cards : FMap String String) (data : List (String × String)) (r : Except Err Unit)
    (cards' : FMap String String) : Prop :=
  cards' = written cards data ∨ (∃ e, r = .error e) ∧ cards' = cards

/-- What a call does to the stored cards, and what it is answered. -/
def cardsExec (cards : FMap String String) :
    (op : CatalogCall) → op.Answer → FMap String String → Prop
  | .getStatus, .ok data, cards' => HasCards data cards ∧ cards' = cards
  | .getStatus, .error e, cards' => (e.isNotFound = true → cards = ∅) ∧ cards' = cards
  | .createStatus data, r, cards' => WriteCards cards data r cards'
  | .patchStatus data, r, cards' => WriteCards cards data r cards'
  | _, _, cards' => cards' = cards

def CatalogState.exec (s : CatalogState) (op : CatalogCall) (r : op.Answer) (s' : CatalogState) :
    Prop :=
  s.registry.exec op r s'.registry ∧ cardsExec s.cards op r s'.cards

/-! ## Moves -/

/-- What a call is for the order of things. -/
inductive CatalogMove where
  | listModels
  | listOverlays
  | readStatus
  | publish
  /-- The texts with these keys are written to the ConfigMap. -/
  | write (keys : List String)
  /-- A card is put into the registry. -/
  | setCard (key : String)
  | other
  deriving DecidableEq

def CatalogCall.move : CatalogCall → CatalogMove
  | .listModels => .listModels
  | .listOverlays => .listOverlays
  | .getStatus => .readStatus
  | .range _ => .other
  | .publish _ => .publish
  | .finish => .other
  | .cardFallback _ => .other
  | .createStatus data => .write (data.map Prod.fst)
  | .patchStatus data => .write (data.map Prod.fst)
  | .setFallback _ source _ => .setCard (modelCardKey source)

variable {ι : Type} {op : CatalogCall} {cfg : CatalogModel} {metadata key : String}

section

variable (h : List (ι × CatalogMove))

/-- The moves of a history. -/
def moves (log : List (ι × Event CatalogApi)) : List (ι × CatalogMove) :=
  log.map fun l => (l.1, l.2.1.move)

/-- The registry in force is the one that `i` has published. -/
def InForce (i : ι) : Prop :=
  ∃ before after, h = before ++ (i, .publish) :: after ∧ ∀ y ∈ after, y.2 ≠ .publish

def catalogReads : List CatalogMove := [.listModels, .listOverlays, .readStatus]

/-- What `j` has read it has read after `i` did. -/
def ReadsAfter (i j : ι) : Prop :=
  ∀ before x after, h = before ++ x :: after → x.1 = j → x.2 ∈ catalogReads → (i, x.2) ∈ before

/-- When both of two refreshes have published, the registry in force is not that of the one that
has read before the other. -/
def NeverBack : Prop :=
  ∀ i j, i ≠ j → (j, CatalogMove.publish) ∈ h → ReadsAfter h i j → ¬ InForce h i

def CatalogMove.Writes (key : String) : CatalogMove → Prop
  | .write keys => key ∈ keys
  | .setCard k => k = key
  | _ => False

/-- After `i` has written the card with this key, nobody else has. -/
def Latest (i : ι) (key : String) : Prop :=
  ∀ before x after, h = before ++ x :: after → x.1 = i → x.2.Writes key →
    ∀ y ∈ after, y.2.Writes key → y.1 = i

/-- A card that was persisted after the read of a refresh is in the registry in force when that
refresh has published, unless it was replaced by a later one. -/
def CardsKept (worker : ι → CatalogWorker) (h : List (ι × CatalogMove)) (registry : Catalog) :
    Prop :=
  ∀ i j cfg metadata, worker j = .persist cfg metadata → (i, CatalogMove.publish) ∈ h →
    (∃ before after, h = before ++ (j, .setCard (modelCardKey cfg.source)) :: after ∧
      (i, CatalogMove.readStatus) ∈ before) →
    Latest h j (modelCardKey cfg.source) →
    ∀ e, registry.models.lookup cfg.name = some e → e.source = cfg.source → e.fallback = metadata

def CatalogMove.setsCard : CatalogMove → Bool
  | .setCard _ => true
  | _ => false

/-- Since `i` has listed the models no other refresh has published, and since it has read the
status no card was put into the registry. -/
def MayPublish (i : ι) : Prop :=
  ∀ before x after, h = before ++ x :: after →
    (x = (i, .listModels) → ∀ y ∈ after, y.2 = .publish → y.1 = i) ∧
      (x = (i, .readStatus) → ∀ y ∈ after, y.2.setsCard = false)

/-- Nobody has published who might not. -/
def Serial : Prop :=
  ∀ before x after, h = before ++ x :: after → x.2 = .publish → MayPublish before x.1

end

section Prefixes

variable {h h' : List (ι × CatalogMove)}

theorem Serial.of_append (hserial : Serial (h ++ h')) : Serial h := by
  rintro before x after rfl
  exact hserial before x (after ++ h') (by simp)

theorem Latest.of_append {i : ι} (hlatest : Latest (h ++ h') i key) : Latest h i key := by
  rintro before x after rfl hx hwrites y hmem
  exact hlatest before x (after ++ h') (by simp) hx hwrites y (List.mem_append_left _ hmem)

/-- The one after whom nobody else has written the card has written it now. -/
theorem Latest.eq_of_mem {i j : ι} {move move' : CatalogMove}
    (hlatest : Latest (h ++ [(j, move')]) i key) (hmem : (i, move) ∈ h) (hwrites : move.Writes key)
    (hwrites' : move'.Writes key) : j = i := by
  obtain ⟨before, after, rfl⟩ := List.append_of_mem hmem
  exact hlatest before (i, move) (after ++ [(j, move')]) (by simp) rfl hwrites (j, move') (by simp)
    hwrites'

end Prefixes

theorem moves_append (log log' : List (ι × Event CatalogApi)) :
    moves (log ++ log') = moves log ++ moves log' :=
  List.map_append

theorem mem_moves {log : List (ι × Event CatalogApi)} {i : ι} {e : Event CatalogApi}
    (h : (i, e) ∈ log) : (i, e.1.move) ∈ moves log :=
  List.mem_map_of_mem h

theorem exists_of_moves_eq {log : List (ι × Event CatalogApi)}
    {before after : List (ι × CatalogMove)}
    {i : ι} {move : CatalogMove} (h : moves log = before ++ (i, move) :: after) :
    ∃ l e l', log = l ++ (i, e) :: l' ∧ moves l = before ∧ e.1.move = move := by
  obtain ⟨l, rest, rfl, hl, hrest⟩ := List.map_eq_append_iff.mp h
  obtain ⟨⟨i', e⟩, l', rfl, he, -⟩ := List.map_eq_cons_iff.mp hrest
  cases he
  exact ⟨l, e, l', rfl, hl, rfl⟩

theorem exists_of_move_eq_publish (h : op.move = .publish) : ∃ next, op = .publish next := by
  cases op with
  | publish next => exact ⟨next, rfl⟩
  | _ => cases h

/-! ## One program -/

/-- What an update has done when it is about to make a call. -/
def PersistAt (cfg : CatalogModel) (metadata : String) (t : List (Event CatalogApi)) :
    CatalogCall → Prop
  | .getStatus => True
  | .createStatus data => data = [(modelCardKey cfg.source, metadata)]
  | .patchStatus data => data = [(modelCardKey cfg.source, metadata)]
  | .setFallback name source value => name = cfg.name ∧ source = cfg.source ∧ value = metadata ∧
      (⟨.createStatus [(modelCardKey cfg.source, metadata)], .ok ()⟩ ∈ t ∨
        ⟨.patchStatus [(modelCardKey cfg.source, metadata)], .ok ()⟩ ∈ t)
  | _ => False

theorem persistAt_of_steps {t : List (Event CatalogApi)}
    {k : op.Answer → Prog CatalogApi (Option Err)}
    (h : (persistModelCardMetadata cfg metadata).Steps t (.call op k)) :
    PersistAt cfg metadata t op := by
  cases h with
  | nil => trivial
  | @cons _ _ a t' _ h =>
    cases a with
    | error e =>
      dsimp only [Prog.bind] at h
      split at h
      · cases h with
        | nil => rfl
        | @cons _ _ b t'' _ h =>
          cases b with
          | error e => cases h
          | ok _ =>
            cases h with
            | nil => exact ⟨rfl, rfl, rfl, Or.inl (by simp)⟩
            | cons h => cases h
      · cases h
    | ok data =>
      cases h with
      | nil => rfl
      | @cons _ _ b t'' _ h =>
        cases b with
        | error e => cases h
        | ok _ =>
          cases h with
          | nil => exact ⟨rfl, rfl, rfl, Or.inr (by simp)⟩
          | cons h => cases h

/-! ## Interleavings -/

section Interleavings

variable [DecidableEq ι] {parseQuantity : String → Except Err Int} {worker : ι → CatalogWorker}
  {s : CatalogState} {log : List (ι × Event CatalogApi)}
  {c : Threads CatalogApi CatalogState ι (Option Err)}

/-- Whoever publishes has listed the models before. -/
theorem mem_moves_of_publish {before after : List (ι × CatalogMove)} {i : ι}
    (h : Interleaving CatalogState.exec (fun i => (worker i).program parseQuantity) s log c)
    (hmoves : moves log = before ++ (i, .publish) :: after) : (i, .listModels) ∈ before := by
  obtain ⟨l, e, l', rfl, rfl, he⟩ := exists_of_moves_eq hmoves
  obtain ⟨op, r⟩ := e
  obtain ⟨next, rfl⟩ := exists_of_move_eq_publish he
  obtain ⟨k, hsteps⟩ := h.steps_before
  obtain ⟨-, hruns⟩ := CatalogWorker.runs_of_steps_publish hsteps
  obtain ⟨models, data, order, hloads⟩ := exists_loads hruns
  obtain ⟨x, hx⟩ := hloads.listed
  exact mem_moves (mem_own_iff.mp hx)

theorem neverBack_of_serial
    (h : Interleaving CatalogState.exec (fun i => (worker i).program parseQuantity) s log c)
    (hserial : Serial (moves log)) : NeverBack (moves log) := by
  rintro i j hne hpublished hreads ⟨before, after, hmoves, hlast⟩
  -- `j` has published before `i`, and listed the models before that
  have hmem : (j, CatalogMove.publish) ∈ before := by
    rw [hmoves, List.mem_append, List.mem_cons] at hpublished
    rcases hpublished with hmem | hsame | hmem
    · exact hmem
    · cases hsame
      exact absurd rfl hne
    · exact absurd rfl (hlast _ hmem)
  obtain ⟨b₁, b₂, rfl⟩ := List.append_of_mem hmem
  have hlisted : (j, CatalogMove.listModels) ∈ b₁ := mem_moves_of_publish h (by
    rw [hmoves, List.append_assoc]
    rfl)
  obtain ⟨b₃, b₄, rfl⟩ := List.append_of_mem hlisted
  -- `i` has listed them still earlier, so that `j` has published in between
  have hearlier : (i, CatalogMove.listModels) ∈ b₃ := hreads b₃ (j, .listModels) _ (by
    rw [hmoves, List.append_assoc, List.append_assoc]
    rfl) rfl (by simp [catalogReads])
  obtain ⟨b₅, b₆, rfl⟩ := List.append_of_mem hearlier
  have hmay := (hserial _ _ after hmoves rfl b₅ (i, .listModels) _
    (by simp only [List.append_assoc]; rfl)).1 rfl (j, .publish) (by simp) rfl
  exact hne hmay.symm

theorem cardAt_written_of_notMem {cards : FMap String String} {data : List (String × String)}
    (h : key ∉ data.map Prod.fst) : cardAt (written cards data) key = cardAt cards key := by
  induction data generalizing cards with
  | nil => rfl
  | cons entry data ih =>
    rw [List.map_cons, List.mem_cons, not_or] at h
    rw [written, List.foldl_cons]
    refine (ih h.2).trans ?_
    rw [cardAt, Finmap.lookup_insert_of_ne _ h.1, cardAt]

theorem cardAt_written_singleton (cards : FMap String String) (key metadata : String) :
    cardAt (written cards [(key, metadata)]) key = metadata := by
  rw [written, List.foldl_cons, List.foldl_nil, cardAt, Finmap.lookup_insert]
  rfl

theorem WriteCards.keeps {cards cards' : FMap String String} {data : List (String × String)}
    {r : Except Err Unit} (h : WriteCards cards data r cards')
    (hcard : cardAt cards key = metadata)
    (hdata : key ∈ data.map Prod.fst → data = [(key, metadata)]) :
    cardAt cards' key = metadata := by
  rcases h with rfl | ⟨-, rfl⟩
  · by_cases hkey : key ∈ data.map Prod.fst
    · rw [hdata hkey, cardAt_written_singleton]
    · rw [cardAt_written_of_notMem hkey, hcard]
  · exact hcard

theorem WriteCards.of_ok {cards cards' : FMap String String}
    (h : WriteCards cards [(key, metadata)] (.ok ()) cards') : cardAt cards' key = metadata := by
  rcases h with rfl | ⟨⟨e, he⟩, -⟩
  · exact cardAt_written_singleton cards key metadata
  · cases he

/-- The card of someone after whom nobody else has written it stays in the ConfigMap. -/
theorem cards_eq_of_latest {i : ι} (hworker : worker i = .persist cfg metadata)
    (h : Interleaving CatalogState.exec (fun i => (worker i).program parseQuantity) s log c)
    (hlatest : Latest (moves log) i (modelCardKey cfg.source))
    (hwritten : (i, ⟨.createStatus [(modelCardKey cfg.source, metadata)], .ok ()⟩) ∈ log ∨
      (i, ⟨.patchStatus [(modelCardKey cfg.source, metadata)], .ok ()⟩) ∈ log) :
    cardAt c.state.cards (modelCardKey cfg.source) = metadata := by
  unfold Interleaving at h
  induction h with
  | nil => simp at hwritten
  | @snoc log l c c' hrun hstep ih =>
    obtain ⟨j, op, r⟩ := l
    obtain ⟨k, hrest, ⟨-, hcards⟩, -⟩ := hstep
    have hsteps := Interleaving.steps hrun j
    rw [hrest] at hsteps
    by_cases hearlier : (i, (⟨.createStatus [(modelCardKey cfg.source, metadata)], .ok ()⟩ :
        Event CatalogApi)) ∈ log ∨
          (i, ⟨.patchStatus [(modelCardKey cfg.source, metadata)], .ok ()⟩) ∈ log
    · -- the card was there, and only its writer may write it once more
      rw [moves_append] at hlatest
      have hcard := ih hlatest.of_append hearlier
      have hmem : (i, CatalogMove.write [modelCardKey cfg.source]) ∈ moves log := by
        rcases hearlier with hmem | hmem <;> exact mem_moves hmem
      have hself : CatalogMove.Writes (modelCardKey cfg.source) op.move → j = i :=
        fun hwrites => hlatest.eq_of_mem hmem (List.mem_singleton_self _) hwrites
      have hpersist : CatalogMove.Writes (modelCardKey cfg.source) op.move →
          PersistAt cfg metadata (own j log) op := by
        intro hwrites
        obtain rfl := hself hwrites
        rw [hworker] at hsteps
        exact persistAt_of_steps hsteps
      cases op with
      | createStatus data => exact hcards.keeps hcard hpersist
      | patchStatus data => exact hcards.keeps hcard hpersist
      | getStatus =>
        have hsame : c'.state.cards = c.state.cards := by
          cases r with
          | ok data => exact hcards.2
          | error e => exact hcards.2
        rw [hsame]
        exact hcard
      | _ =>
        rw [show c'.state.cards = c.state.cards from hcards]
        exact hcard
    · -- it is written now
      simp only [List.mem_append, List.mem_singleton] at hwritten
      rcases hwritten with (hmem | hnow) | (hmem | hnow)
      · exact absurd (Or.inl hmem) hearlier
      · cases hnow
        exact WriteCards.of_ok hcards
      · exact absurd (Or.inr hmem) hearlier
      · cases hnow
        exact WriteCards.of_ok hcards

theorem exists_of_move_eq_setCard (h : op.move = .setCard key) :
    ∃ name source metadata, op = .setFallback name source metadata := by
  cases op with
  | setFallback name source metadata => exact ⟨name, source, metadata, rfl⟩
  | _ => cases h

section

variable {i : ι} (hworker : worker i = .persist cfg metadata)
  (h : Interleaving CatalogState.exec (fun i => (worker i).program parseQuantity) s log c)
include hworker h

/-- Who has put its card into the registry has written it to the ConfigMap. -/
theorem written_of_set (hset : (i, CatalogMove.setCard key) ∈ moves log) :
    (i, ⟨.createStatus [(modelCardKey cfg.source, metadata)], .ok ()⟩) ∈ log ∨
      (i, ⟨.patchStatus [(modelCardKey cfg.source, metadata)], .ok ()⟩) ∈ log := by
  obtain ⟨before, after, hmoves⟩ := List.append_of_mem hset
  obtain ⟨l, ⟨op, r⟩, l', rfl, -, he⟩ := exists_of_moves_eq hmoves
  obtain ⟨name, source, value, rfl⟩ := exists_of_move_eq_setCard he
  obtain ⟨k, hsteps⟩ := h.steps_before
  rw [hworker] at hsteps
  obtain ⟨-, -, -, hmem | hmem⟩ := persistAt_of_steps hsteps
  · exact Or.inl (List.mem_append_left _ (mem_own_iff.mp hmem))
  · exact Or.inr (List.mem_append_left _ (mem_own_iff.mp hmem))

/-- A refresh that may publish has read the status after the card was put into the registry, so it
has found it. -/
theorem fallback_of_publish {j : ι} {next : Catalog} {k : Unit → Prog CatalogApi (Option Err)}
    (hlatest : Latest (moves log) i (modelCardKey cfg.source))
    (hset : (i, CatalogMove.setCard (modelCardKey cfg.source)) ∈ moves log)
    (hcall : c.rest j = .call (.publish next) k) (hmay : MayPublish (moves log) j)
    {e : CatalogEntry} (he : next.models.lookup cfg.name = some e)
    (hsource : e.source = cfg.source) :
    e.fallback = metadata := by
  have hsteps := h.steps j
  rw [hcall] at hsteps
  obtain ⟨-, hruns⟩ := CatalogWorker.runs_of_steps_publish hsteps
  obtain ⟨models, data, order, hloads⟩ := exists_loads hruns
  obtain ⟨y, hy, hread⟩ := hloads.read
  obtain ⟨_, _, ⟨hrange, -⟩, -⟩ := h.exec_of_mem (mem_own_iff.mp hloads.ranged)
  obtain ⟨l, l', rfl⟩ := List.append_of_mem (mem_own_iff.mp hy)
  have hsplit : moves (l ++ (j, ⟨.getStatus, y⟩) :: l') =
      moves l ++ (j, .readStatus) :: moves l' := moves_append _ _
  rw [hsplit] at hset hmay hlatest
  have hbefore : (i, CatalogMove.setCard (modelCardKey cfg.source)) ∈ moves l := by
    rw [List.mem_append, List.mem_cons] at hset
    rcases hset with hmem | hsame | hmem
    · exact hmem
    · cases hsame
    · cases (hmay _ _ _ rfl).2 rfl _ hmem
  obtain ⟨c₁, c₂, -, hl, -, ⟨-, hcards⟩, -⟩ := h.at_call
  have hcard := cards_eq_of_latest hworker hl hlatest.of_append (written_of_set hworker hl hbefore)
  have hdata : cardAt data (modelCardKey cfg.source) = metadata := by
    rcases hread with rfl | ⟨err, rfl, hmissing, rfl⟩
    · rw [← hcard]
      exact hcards.1 cfg.source
    · rw [← hcard, hcards.1 hmissing]
  obtain ⟨cfg', -, hstatus⟩ := (hloads.lookup_iff hrange).mp he
  obtain ⟨-, rfl⟩ := withStatus_ok_iff.mp hstatus
  rw [← hdata, ← hsource]
  rfl

theorem fallback_eq_of_latest (hserial : Serial (moves log))
    (hlatest : Latest (moves log) i (modelCardKey cfg.source))
    (hset : (i, CatalogMove.setCard (modelCardKey cfg.source)) ∈ moves log) :
    ∀ e, c.state.registry.models.lookup cfg.name = some e → e.source = cfg.source →
      e.fallback = metadata := by
  unfold Interleaving at h
  induction h with
  | nil => simp [moves] at hset
  | @snoc log l c c' hrun hstep ih =>
    obtain ⟨j, op, r⟩ := l
    obtain ⟨k, hrest, ⟨hregistry, -⟩, -⟩ := hstep
    have hsteps := Interleaving.steps hrun j
    rw [hrest] at hsteps
    rw [moves_append] at hserial hlatest hset
    by_cases hearlier : (i, CatalogMove.setCard (modelCardKey cfg.source)) ∈ moves log
    · have hkept := ih hserial.of_append hlatest.of_append hearlier
      intro e he hsource
      cases op with
      | publish next =>
        rw [show c'.state.registry = next from hregistry] at he
        exact fallback_of_publish hworker hrun hlatest.of_append hearlier hrest
          (hserial (moves log) _ [] rfl rfl) he hsource
      | setFallback name source value =>
        rw [show c'.state.registry = _ from hregistry] at he
        obtain ⟨e', he', ⟨-, hold, rfl⟩ | ⟨-, rfl⟩⟩ := Catalog.exists_of_setFallback he
        · -- nobody but `i` puts a card under this key into the registry any more
          obtain rfl : source = cfg.source := hold.symm.trans hsource
          obtain rfl : j = i := hlatest.eq_of_mem hearlier rfl rfl
          rw [hworker] at hsteps
          exact (persistAt_of_steps hsteps).2.2.1
        · exact hkept _ he' hsource
      | range models =>
        rw [show c'.state.registry = c.state.registry from hregistry.2] at he
        exact hkept e he hsource
      | _ =>
        rw [show c'.state.registry = c.state.registry from hregistry] at he
        exact hkept e he hsource
    · -- `i` puts the card into the registry now
      have hnow : (i, CatalogMove.setCard (modelCardKey cfg.source)) = (j, op.move) := by
        rcases List.mem_append.mp hset with hmem | hmem
        · exact absurd hmem hearlier
        · exact List.mem_singleton.mp hmem
      obtain ⟨rfl, hmove⟩ := Prod.mk.inj hnow
      obtain ⟨name, source, value, rfl⟩ := exists_of_move_eq_setCard hmove.symm
      rw [hworker] at hsteps
      obtain ⟨rfl, rfl, rfl, -⟩ := persistAt_of_steps hsteps
      intro e he hsource
      rw [show c'.state.registry = _ from hregistry] at he
      obtain ⟨e', he', ⟨-, -, rfl⟩ | ⟨hother, rfl⟩⟩ := Catalog.exists_of_setFallback he
      · rfl
      · exact absurd ⟨rfl, hsource⟩ hother

end

/-- **When the catalog never goes back.** In every interleaving of refreshes and updates of model
cards in which each refresh may publish when it does, the registry in force is never that of the
older one of two refreshes that have published, and a card persisted after the read of a refresh is
in the registry in force when that refresh has published. -/
theorem catalog_never_back (parseQuantity : String → Except Err Int) (worker : ι → CatalogWorker)
    (s : CatalogState) (log : List (ι × Event CatalogApi))
    (c : Threads CatalogApi CatalogState ι (Option Err))
    (h : Interleaving CatalogState.exec (fun i => (worker i).program parseQuantity) s log c)
    (hserial : Serial (moves log)) :
    NeverBack (moves log) ∧ CardsKept worker (moves log) c.state.registry := by
  refine ⟨neverBack_of_serial h hserial, ?_⟩
  rintro i j cfg metadata hworker - ⟨before, after, hmoves, -⟩ hlatest
  refine fallback_eq_of_latest hworker h hserial hlatest ?_
  rw [hmoves]
  exact List.mem_append_right _ List.mem_cons_self

end Interleavings

/-! ## Two refreshes and an update -/

section Deciding

variable [DecidableEq ι]

instance (key : String) : (move : CatalogMove) → Decidable (move.Writes key)
  | .listModels | .listOverlays | .readStatus | .publish | .other => .isFalse id
  | .write keys => inferInstanceAs (Decidable (key ∈ keys))
  | .setCard k => inferInstanceAs (Decidable (k = key))

instance (h : List (ι × CatalogMove)) (i j : ι) : Decidable (ReadsAfter h i j) :=
  decidable_of_iff' _ forall_places_iff

instance (h : List (ι × CatalogMove)) (i : ι) (key : String) : Decidable (Latest h i key) :=
  decidable_of_iff' _ forall_places_iff

instance (h : List (ι × CatalogMove)) (i : ι) : Decidable (MayPublish h i) :=
  decidable_of_iff' _ forall_places_iff

instance (h : List (ι × CatalogMove)) : Decidable (Serial h) :=
  decidable_of_iff' _ forall_places_iff

end Deciding

namespace OverlapDemo

open MixedRegistry

/-- The cards after a call that is carried out. -/
def store (cards : FMap String String) : CatalogCall → FMap String String
  | .createStatus data | .patchStatus data => written cards data
  | _ => cards

/-- What is listed may change with the time; the ConfigMap is as it was written. -/
def answer (objects : List Json) (s : CatalogState) (op : CatalogCall) : op.Answer × CatalogState :=
  let (r, registry) := CatalogRun.answer objects [] (.ok s.cards) s.registry op
  (r, ⟨registry, store s.cards op⟩)

theorem exec_answer (objects : List Json) (s : CatalogState) (op : CatalogCall) :
    s.exec op (answer objects s op).1 (answer objects s op).2 := by
  refine ⟨CatalogRun.exec_answer objects [] (.ok s.cards) s.registry op, ?_⟩
  cases op with
  | getStatus => exact ⟨fun _ => rfl, rfl⟩
  | createStatus data => exact Or.inl rfl
  | patchStatus data => exact Or.inl rfl
  | _ => rfl

/-- An empty object. -/
def card : String := "\x7b\x7d"

/-- Two refreshes, and the update of a card. -/
def worker : Fin 3 → CatalogWorker
  | 0 => .refresh
  | 1 => .refresh
  | 2 => .persist baseConfig card

/-- Nothing is published, and the ConfigMap is empty. -/
def start : CatalogState := ⟨⟨∅, ∅⟩, ∅⟩

/-- The second refresh goes from its start to its end while the first one is about to publish. -/
def overlapping : List (Fin 3 × CatalogMove) :=
  [(0, .listModels), (0, .listOverlays), (0, .readStatus), (0, .other), (1, .listModels),
    (1, .listOverlays), (1, .readStatus), (1, .other), (1, .publish), (1, .other), (0, .publish),
    (0, .other)]

/-- The card is persisted while the first refresh is about to publish. -/
def interrupted : List (Fin 3 × CatalogMove) :=
  [(0, .listModels), (0, .listOverlays), (0, .readStatus), (0, .other), (2, .readStatus),
    (2, .write [modelCardKey "crd/base"]), (2, .setCard (modelCardKey "crd/base")),
    (0, .publish), (0, .other)]

/-- Calls of one of the programs, while these objects are listed. -/
def calls (objects : List Json) (i : Fin 3) (n : Nat) : List (List Json × Fin 3) :=
  List.replicate n (objects, i)

end OverlapDemo

section Demonstration

open MixedRegistry OverlapDemo

/-- A refresh, an update of a card and another refresh, one after the other. -/
theorem catalog_never_back_in_turn :
    ∃ log c, Interleaving CatalogState.exec
      (fun i => (worker i).program fun _ => .ok 1) start log c ∧
      (Serial (moves log) ∧ (c.state.registry.models.lookup "base").map CatalogEntry.fallback =
        some card) ∧ NeverBack (moves log) ∧ CardsKept worker (moves log) c.state.registry := by
  obtain ⟨log, c, hrun, hserial, hfound⟩ := exists_interleaving CatalogState.exec
    (fun i => (worker i).program fun _ => .ok 1) start exec_answer
    (calls [base.object] 0 6 ++ calls [base.object] 2 3 ++ calls [base.object] 1 6)
    (fun log c => Serial (moves log) ∧
      (c.state.registry.models.lookup "base").map CatalogEntry.fallback = some card)
    (by decide +kernel)
  exact ⟨log, c, hrun, ⟨hserial, hfound⟩,
    catalog_never_back (fun _ => .ok 1) worker start log c hrun hserial⟩

/-- A refresh lists a model. The model is deleted, and another refresh lists what is left, reads
the status and publishes. Then the first one publishes the model. In the other run a card is
persisted between the read of a refresh and its publication, and is gone after it. -/
theorem catalog_goes_back :
    (∃ log c, Interleaving CatalogState.exec (fun i => (worker i).program fun _ => .ok 1) start log
        c ∧ ((c.state.registry.models.lookup "base").isSome = true) ∧ ¬ NeverBack (moves log)) ∧
      ∃ log c, Interleaving CatalogState.exec (fun i => (worker i).program fun _ => .ok 1) start log
        c ∧ ¬ CardsKept worker (moves log) c.state.registry := by
  constructor
  · obtain ⟨log, c, hrun, hfound, hmoves⟩ := exists_interleaving CatalogState.exec
      (fun i => (worker i).program fun _ => .ok 1) start exec_answer
      (calls [base.object] 0 4 ++ calls [] 1 6 ++ calls [] 0 2)
      (fun log c => (c.state.registry.models.lookup "base").isSome = true ∧ moves log = overlapping)
      (by decide +kernel)
    refine ⟨log, c, hrun, hfound, ?_⟩
    rw [hmoves]
    intro hnever
    exact hnever 0 1 (by decide) (by decide) (by decide)
      ⟨overlapping.take 10, [(0, .other)], rfl, by decide⟩
  · obtain ⟨log, c, hrun, hfound, hmoves⟩ := exists_interleaving CatalogState.exec
      (fun i => (worker i).program fun _ => .ok 1) start exec_answer
      (calls [base.object] 0 4 ++ calls [base.object] 2 3 ++ calls [base.object] 0 2)
      (fun log c => (c.state.registry.models.lookup "base").map
        (fun e => (e.source, e.fallback)) = some ("crd/base", "") ∧ moves log = interrupted)
      (by decide +kernel)
    refine ⟨log, c, hrun, ?_⟩
    rw [hmoves]
    intro hkept
    obtain ⟨e, he, hentry⟩ := Option.map_eq_some_iff.mp hfound
    obtain ⟨hsource, hfallback⟩ := Prod.mk.inj hentry
    have hcard := hkept 0 2 baseConfig card rfl (by decide)
      ⟨interrupted.take 6, [(0, .publish), (0, .other)], rfl, by decide⟩ (by decide) e he hsource
    rw [hfallback] at hcard
    exact absurd hcard (by decide)

end Demonstration

end LlmOperator.Proxy
