import Mathlib.Data.List.Rotate
import ViewHierarchy.Proofs.Window.Exporting
import ViewHierarchy.Proofs.Window.Searching

/-! Searching again and again. In every state of the window the results are the matches of the last
query in the tree that is shown, or there are none; searches for one query go through its matches in
turn, and from the first one on when the query or the tree has changed. -/
namespace ViewHierarchy

namespace Desktop

/-- The text that an action searches for. -/
def searched? (d : Desktop) : Action → Option String
  | .search => some d.window.field
  | .searchFor text => some text
  | _ => none

/-- The query that an action searches for. -/
def query? (d : Desktop) (a : Action) : Option (List Char) :=
  (d.searched? a).bind queryOf

variable {st : Settings} {d : Desktop} {a : Action} {query : List Char}

/-- The window after an action, and the effects of the action. -/
def outcome (st : Settings) (d : Desktop) (a : Action) : Window × Effects :=
  ((d.act st a).1.window, (d.act st a).2)

theorem outcome_eq {result : Window × Effects} (h : d.act st a = d.ofWindow result) :
    d.outcome st a = result := by
  rw [outcome, h]
  rfl

theorem outcome_of_searched (st : Settings) {text : String} (h : d.searched? a = some text) :
    d.outcome st a = { d.window with field := text }.search := by
  cases a with
  | search =>
    cases h
    exact outcome_eq (by rw [act])
  | searchFor text =>
    cases h
    exact outcome_eq (by rw [act])
  | _ => cases h

/-- An action that searches for nothing fills the tree view anew, or all stays as it was that a
search depends on. -/
theorem isAnew_or_sameSearch (st : Settings) (h : d.query? a = none) :
    Window.IsAnew (d.outcome st a) ∨
      (d.outcome st a).2.refilled = false ∧ d.window.SameSearch (d.outcome st a).1 := by
  cases a with
  | type text => exact .inr ⟨rfl, Window.sameSearch_setSource _ text⟩
  | parse =>
    rw [outcome_eq (by rw [act])]
    exact .inl (Window.isAnew_parse st _)
  | pasteExample =>
    have hact : d.act st .pasteExample =
        d.ofWindow ((d.window.setSource sampleSource).parse st) := by
      rw [act]
    -- The sample is of no importance here, and too long to be looked into.
    generalize sampleSource = text at hact
    rw [outcome_eq hact]
    exact .inl (Window.isAnew_parse st _)
  | expandAll => exact .inr ⟨rfl, .refl _⟩
  | collapseAll => exact .inr ⟨rfl, .refl _⟩
  | search =>
    have hblank : queryOf d.window.field = none := h
    rw [outcome_eq (by rw [act]), Window.search_blank hblank]
    exact .inr ⟨rfl, .refl _⟩
  | searchFor text =>
    have hblank : queryOf text = none := h
    rw [outcome_eq (by rw [act]), Window.search_blank (w := { d.window with field := text }) hblank]
    exact .inr ⟨rfl, Window.sameSearch_field _ text⟩
  | pickRoot name =>
    rw [outcome_eq (by rw [act]), Window.pickRoot_eq]
    by_cases hnone : (d.window.picked name).selected = none
    · rw [Window.buildSelected_none hnone]
      exact .inr ⟨rfl, rfl, rfl, rfl, rfl, rfl⟩
    · exact .inl (Window.isAnew_buildSelected st hnone)
  | select place => exact .inr ⟨rfl, Window.sameSearch_select _ place⟩
  | openFile path =>
    by_cases hpath : path = ""
    · subst hpath
      rw [outcome_eq (by rw [act, openFile_cancelled])]
      exact .inr ⟨rfl, .refl _⟩
    · rw [outcome_eq (by rw [act, openFile_of_ne st hpath])]
      cases d.folder.read path with
      | error e => exact .inr ⟨rfl, .refl _⟩
      | ok bytes => exact .inl ((Window.isAnew_parse st _).after _)
  | exportTree path =>
    obtain ⟨hwindow, hrefilled⟩ := exportTree_window path d
    have hact : d.act st (.exportTree path) = d.exportTree path := by rw [act]
    rw [outcome, hact, hwindow]
    exact .inr ⟨hrefilled, .refl _⟩

/-- A search for a query makes it the last one and goes to the match that is next. -/
theorem outcome_of_query {last : Option (List Char)} (st : Settings) (h : d.window.Follows last)
    (hquery : d.query? a = some query) :
    (d.outcome st a).2.refilled = false ∧ (d.outcome st a).1.Follows (some query) ∧
      ∀ item, (d.window.found query)[d.window.nextMatch last query]? = some item →
        Window.Reveals item (d.outcome st a) ∧ (d.outcome st a).1.items = d.window.items ∧
          (d.outcome st a).1.visited = d.window.nextMatch last query := by
  obtain ⟨text, hsearched, hquery⟩ := Option.bind_eq_some_iff.1 hquery
  have hfield := h.same (Window.sameSearch_field d.window text)
  rw [outcome_of_searched st hsearched]
  by_cases hfound : d.window.found query = []
  · obtain ⟨hmisses, hfollows⟩ := hfield.search_none hquery hfound
    refine ⟨?_, hfollows, fun item hitem => ?_⟩
    · rw [hmisses.effects]
      rfl
    · rw [hfound] at hitem
      cases hitem
  · have hitem := List.getElem?_eq_getElem (Window.nextMatch_lt hfound last)
    obtain ⟨hreveals, hfollows, hnext⟩ := hfield.search_some hquery hitem
    refine ⟨?_, hfollows, fun item hitem' => ?_⟩
    · rw [hreveals.effects]
      rfl
    · cases hitem.symm.trans hitem'
      exact ⟨hreveals, hnext⟩

end Desktop

namespace Session

open Window (Misses Reveals)

/-- The last query that was searched for in the tree that is shown, after one more action. -/
def soughtAfter (query? last : Option (List Char)) (refilled : Bool) : Option (List Char) :=
  if refilled then none else query?.or last

/-- The sessions that actions lead to, with the last query since the tree view was filled. -/
inductive Sought (st : Settings) : Option (List Char) → Session → Prop
  | start (editor : Editor) (folder : Folder) : Sought st none (start editor folder)
  | act {last s} (a : Desktop.Action) : Sought st last s →
      Sought st (soughtAfter (s.desktop.query? a) last (s.desktop.outcome st a).2.refilled)
        (s.act st a)
  | files {last s} (folder : Folder) : Sought st last s →
      Sought st last { s with desktop := { s.desktop with folder } }

/-- Sessions in which one query is searched for again and again, with what each search did: other
actions come between, but no search for another query and none that fills the tree view. -/
inductive Seeks (st : Settings) (query : List Char) :
    Session → List (Window × Effects) → Session → Prop
  | done {s} : Seeks st query s [] s
  | search {s log s'} (a : Desktop.Action) : s.desktop.query? a = some query →
      Seeks st query (s.act st a) log s' →
      Seeks st query s (s.desktop.outcome st a :: log) s'
  | other {s log s'} (a : Desktop.Action) : s.desktop.query? a = none →
      (s.desktop.outcome st a).2.refilled = false → Seeks st query (s.act st a) log s' →
      Seeks st query s log s'
  | files {s log s'} (folder : Folder) :
      Seeks st query { s with desktop := { s.desktop with folder } } log s' →
      Seeks st query s log s'

variable {st : Settings} {s s' : Session} {query : List Char} {last : Option (List Char)}
  {log : List (Window × Effects)}

theorem Reachable.exists_sought (h : s.Reachable st) : ∃ last, Sought st last s := by
  induction h with
  | start editor folder => exact ⟨none, .start editor folder⟩
  | act a _ ih =>
    obtain ⟨last, hlast⟩ := ih
    exact ⟨_, hlast.act a⟩
  | files folder _ ih =>
    obtain ⟨last, hlast⟩ := ih
    exact ⟨last, hlast.files folder⟩

theorem Sought.follows (h : Sought st last s) : s.desktop.window.Follows last := by
  induction h with
  | start editor folder => exact Window.follows_new editor
  | files folder _ ih => exact ih
  | @act last s a _ ih =>
    cases hquery : s.desktop.query? a with
    | some query =>
      obtain ⟨hrefilled, hfollows, -⟩ := Desktop.outcome_of_query st ih hquery
      rw [hrefilled]
      exact hfollows
    | none =>
      rcases Desktop.isAnew_or_sameSearch st hquery with hanew | ⟨hrefilled, hsame⟩
      · rw [hanew.refilled]
        exact hanew.follows
      · rw [hrefilled]
        exact ih.same hsame

/-- A search for a query makes it the last one. -/
theorem Sought.search {a : Desktop.Action} (h : Sought st last s)
    (hquery : s.desktop.query? a = some query) : Sought st (some query) (s.act st a) := by
  have hnext := h.act a
  rw [hquery, (Desktop.outcome_of_query st h.follows hquery).1] at hnext
  exact hnext

theorem Sought.other {a : Desktop.Action} (h : Sought st last s)
    (hquery : s.desktop.query? a = none)
    (hrefilled : (s.desktop.outcome st a).2.refilled = false) : Sought st last (s.act st a) := by
  have hnext := h.act a
  rw [hquery, hrefilled] at hnext
  exact hnext

/-- Each search goes one match further than the one before, and from the last match to the first. -/
theorem Seeks.reveals (h : Seeks st query s log s') (hsought : Sought st last s)
    (hfound : s.desktop.window.found query ≠ []) (k : Nat) (result : Window × Effects)
    (hk : log[k]? = some result) :
    ∃ item, (s.desktop.window.found query)[(s.desktop.window.nextMatch last query + k) %
      (s.desktop.window.found query).length]? = some item ∧ Reveals item result := by
  -- Along the run the tree stays; the first search makes the query the last one.
  induction h generalizing last k with
  | done => cases hk
  | files folder _ ih => exact ih (hsought.files folder) hfound k hk
  | @other s log s' a hquery hrefilled _ ih =>
    have hsame : s.desktop.window.SameSearch (s.act st a).desktop.window := by
      rcases Desktop.isAnew_or_sameSearch st hquery with hanew | ⟨-, hsame⟩
      · cases hrefilled.symm.trans hanew.refilled
      · exact hsame
    rw [← Window.found_congr hsame.items, ← hsame.nextMatch_eq]
    rw [← Window.found_congr hsame.items] at hfound
    exact ih (hsought.other hquery hrefilled) hfound k hk
  | @search s log s' a hquery _ ih =>
    have hlt := Window.nextMatch_lt hfound last
    obtain ⟨-, -, hitem⟩ := Desktop.outcome_of_query st hsought.follows hquery
    obtain ⟨hreveals, hitems, hvisited⟩ := hitem _ (List.getElem?_eq_getElem hlt)
    cases k with
    | zero =>
      cases hk
      rw [Nat.add_zero, Nat.mod_eq_of_lt hlt]
      exact ⟨_, List.getElem?_eq_getElem hlt, hreveals⟩
    | succ k =>
      have hsame : (s.act st a).desktop.window.found query = s.desktop.window.found query :=
        Window.found_congr hitems query
      have hnext : (s.act st a).desktop.window.nextMatch (some query) query = _ :=
        Window.nextMatch_of_visited hvisited
      rw [← hsame] at hfound
      obtain ⟨item, hitem, hreveals⟩ := ih (hsought.search hquery) hfound k hk
      rw [hnext, Nat.mod_add_mod, hsame, Nat.add_assoc, Nat.add_comm 1] at hitem
      exact ⟨item, hitem, hreveals⟩

/-- As many searches in a row as there are matches visit every match once, in cyclic order. -/
theorem forall₂_rotate {α β : Type} {R : α → β → Prop} {found : List α} {log : List β} {start : Nat}
    (h : ∀ k result, log[k]? = some result →
      ∃ item, found[(start + k) % found.length]? = some item ∧ R item result)
    {i : Nat} (hi : i + found.length ≤ log.length) :
    List.Forall₂ R (found.rotate (start + i)) ((log.drop i).take found.length) := by
  rw [List.forall₂_iff_get]
  constructor
  · rw [List.length_rotate, List.length_take, List.length_drop]
    omega
  · intro j hrotated hblock
    rw [List.length_rotate] at hrotated
    have hlog : i + j < log.length := by omega
    obtain ⟨item, hitem, hR⟩ := h (i + j) log[i + j] (List.getElem?_eq_getElem hlog)
    have hrotate : (found.rotate (start + i))[j]? = some item := by
      rw [List.getElem?_rotate hrotated, ← hitem, Nat.add_comm j, Nat.add_assoc]
    simp only [List.get_eq_getElem, List.getElem_take, List.getElem_drop]
    rw [(List.getElem_eq_iff _).2 hrotate]
    exact hR

/-- What searches for a query do from a session on, given its matches and the last query since the
tree was filled. Without matches they say so and leave all as it is; else they visit the matches in
the order of the walk, after the last the first again, and begin with the first one if the query or
the tree has changed. -/
structure Cycles (st : Settings) (last : Option (List Char)) (query : List Char)
    (found : List (List Nat × ViewNode)) (s : Session) : Prop where
  filled : s.desktop.window.IsFilled
  walk : found.map Prod.snd =
    (s.desktop.window.tree.elim [] ViewNode.walk).filter (ViewNode.matchesQuery query)
  distinct : (found.map Prod.fst).Nodup
  misses : found = [] → ∀ a text, s.desktop.searched? a = some text →
    queryOf text = some query → Misses text s.desktop.window (s.desktop.outcome st a)
  visits : found ≠ [] → ∃ start < found.length, (last ≠ some query → start = 0) ∧
    ∀ log s', Seeks st query s log s' →
      (∀ k result, log[k]? = some result →
        ∃ item, found[(start + k) % found.length]? = some item ∧ Reveals item result) ∧
      ∀ i, i + found.length ≤ log.length →
        List.Forall₂ Reveals (found.rotate (start + i)) ((log.drop i).take found.length)

theorem Sought.cycles (h : Sought st last s) (query : List Char) :
    Cycles st last query (s.desktop.window.found query) s where
  filled := h.follows.filled
  walk := h.follows.filled.map_snd_found query
  distinct := h.follows.filled.nodup_found query
  misses hnone a text hsearched hquery := by
    rw [Desktop.outcome_of_searched st hsearched]
    have hfield := h.follows.same (Window.sameSearch_field s.desktop.window text)
    obtain ⟨hmisses, -⟩ := hfield.search_none hquery hnone
    exact ⟨hmisses.effects, hmisses.shown, (Window.keeps_field _ text).trans hmisses.keeps⟩
  visits hfound := by
    refine ⟨_, Window.nextMatch_lt hfound last, fun hne => Window.nextMatch_of_ne hne _, ?_⟩
    intro log s' hseeks
    have hreveals := hseeks.reveals h hfound
    exact ⟨hreveals, fun i hi => forall₂_rotate hreveals hi⟩

/-- In a reachable window the results are the matches of the last query in the tree that is shown,
or there are none, and the index is that of one of them or the one before the first. Whatever is
searched for next, the searches cycle through its matches. -/
theorem Reachable.search_cycles (h : s.Reachable st) :
    (s.desktop.window.results = [] ∨ s.desktop.window.results =
        (s.desktop.window.found s.desktop.window.query).map Prod.fst) ∧
      -1 ≤ s.desktop.window.visited ∧
      s.desktop.window.visited < s.desktop.window.results.length ∧
      (∃ last, Sought st last s) ∧
      ∀ last query, Sought st last s →
        Cycles st last query (s.desktop.window.found query) s := by
  obtain ⟨last, hsought⟩ := h.exists_sought
  have hfollows := hsought.follows
  refine ⟨?_, hfollows.least, hfollows.lt_length, ⟨last, hsought⟩,
    fun last query hsought => hsought.cycles query⟩
  cases last with
  | none => exact .inl hfollows.results
  | some q =>
    right
    rw [hfollows.query q rfl]
    exact hfollows.results

theorem Sought.parse (h : Sought st last s) : Sought st none (s.act st .parse) := by
  have hparse : s.desktop.outcome st .parse = s.desktop.window.parse st :=
    Desktop.outcome_eq (by rw [Desktop.act])
  have hnext := h.act .parse
  rw [hparse, (Window.isAnew_parse st _).refilled] at hnext
  exact hnext

def cardTree : ViewNode :=
  ⟨"Group", .container, [], [],
    [⟨"X", .view, [], [], []⟩, ⟨"Y", .view, [], [], []⟩, ⟨"X", .view, [], [], []⟩]⟩

theorem buildTree_pairText :
    buildTree .default (Source.declarations Source.pairText.toList) "Card" = some cardTree := by
  have hforest : ((Declarations.empty.insert "Row" "X").insert "Card" "X\nY\nX").forest .default
      "Card" = cardTree.children := parseBlock_names .default ["X", "Y", "X"] (by decide)
  have hroot : rootOf cardTree.children = some cardTree := rfl
  rw [Source.declarations_pairText, buildTree, hforest, hroot, Option.map_some,
    resolve_kept (by decide), cardTree]
  simp only [List.map_cons, List.map_nil]
  rw [resolve_kept (by decide), resolve_kept (by decide)]
  rfl

theorem items_pairSession : pairSession.desktop.window.items = cardTree.places [0] := by
  have htree : pairSession.desktop.window.tree = some cardTree := by
    rw [pairSession, window_typed pairText_not_respelled, Window.tree_afterReading_new]
    refine ⟨by decide, "Card", ?_, buildTree_pairText⟩
    rw [candidates_pairText]
    rfl
  exact pairSession_reachable.isSound.consistent.filled.items_eq htree

/-- No search has been made in a text that has just been parsed. -/
theorem sought_typed (text : String) : Sought .default none (typed text) :=
  Sought.parse (Sought.other (a := .type text) (.start .plain ⟨[]⟩) rfl rfl)

/-- Three searches for the name of two views go to the first, to the second and to the first again;
a search for a name that no view has says so. -/
theorem search_cycles_pairSession :
    (∃ first second third : Window × Effects,
      Seeks .default ['x'] pairSession [first, second, third]
        (((pairSession.act .default (.searchFor "X")).act .default (.searchFor " x ")).act .default
          (.searchFor "x")) ∧
      Reveals ([0, 0], ⟨"X", .view, [], [], []⟩) first ∧
      Reveals ([0, 2], ⟨"X", .view, [], [], []⟩) second ∧
      Reveals ([0, 0], ⟨"X", .view, [], [], []⟩) third) ∧
      (pairSession.desktop.outcome .default (.searchFor "Z")).2.dialogs =
        [.information "Search" "No view found matching 'Z'."] := by
  obtain ⟨-, -, -, -, hcycles⟩ := pairSession_reachable.search_cycles
  have hsought : Sought .default none pairSession := sought_typed Source.pairText
  have hx : pairSession.desktop.window.found ['x'] =
      [([0, 0], ⟨"X", .view, [], [], []⟩), ([0, 2], ⟨"X", .view, [], [], []⟩)] := by
    rw [Window.found, items_pairSession]
    rfl
  have hz : pairSession.desktop.window.found ['z'] = [] := by
    rw [Window.found, items_pairSession]
    rfl
  constructor
  · have hseeks : Seeks .default ['x'] pairSession _ _ := .search (.searchFor "X") (by decide)
      (.search (.searchFor " x ") (by decide) (.search (.searchFor "x") (by decide) .done))
    obtain ⟨start, -, hstart, hlog⟩ :=
      (hcycles none ['x'] hsought).visits (by rw [hx]; exact List.cons_ne_nil _ _)
    have hvisit := (hlog _ _ hseeks).1
    rw [hstart (Option.some_ne_none _).symm, hx] at hvisit
    refine ⟨_, _, _, hseeks, ?_, ?_, ?_⟩
    · obtain ⟨item, hitem, hreveals⟩ := hvisit 0 _ rfl
      cases hitem
      exact hreveals
    · obtain ⟨item, hitem, hreveals⟩ := hvisit 1 _ rfl
      cases hitem
      exact hreveals
    · obtain ⟨item, hitem, hreveals⟩ := hvisit 2 _ rfl
      cases hitem
      exact hreveals
  · have hmisses := (hcycles none ['z'] hsought).misses hz (.searchFor "Z") "Z" rfl (by decide)
    rw [hmisses.effects]
    rfl

end Session

end ViewHierarchy
