import Mathlib.Data.List.Infix
import ViewHierarchy.Proofs.Window.Consistent

/-! One search in the window: it takes up the last search if that was for the same query in the same
tree, and goes one match further; else it goes to the first match. -/
namespace ViewHierarchy

/-- What a text in the search field searches for, unless it is blank. -/
def queryOf (text : String) : Option (List Char) :=
  if Text.trim text.toList = [] then none else some (Text.lower (Text.trim text.toList))

/-- Whether the name of a node holds a query, which is in lower case. -/
def ViewNode.matchesQuery (query : List Char) (node : ViewNode) : Bool :=
  decide (query <:+: Text.lower node.name.toList)

namespace Window

variable {st : Settings} {w w' : Window} {result : Window × Effects} {query : List Char}
  {last : Option (List Char)} {item : List Nat × ViewNode}

/-- The items of the tree view, in the order of the rows, whose nodes match. -/
def found (query : List Char) (w : Window) : List (List Nat × ViewNode) :=
  w.items.filter fun item => item.2.matchesQuery query

theorem found_congr (h : w'.items = w.items) (query : List Char) :
    w'.found query = w.found query := by
  rw [found, found, h]

theorem matchingPlaces_eq (query : List Char) (w : Window) :
    matchingPlaces query w.items = (w.found query).map Prod.fst := by
  have hmatches : ∀ node : ViewNode, Text.occursIn query (Text.lower node.name.toList) =
      node.matchesQuery query := by
    intro node
    rw [Bool.eq_iff_iff, Text.occursIn_iff, ViewNode.matchesQuery, decide_eq_true_iff]
  simp only [matchingPlaces, hmatches, found]

/-- The nodes that match are those of the walk, in its order. -/
theorem IsFilled.map_snd_found (h : w.IsFilled) (query : List Char) :
    (w.found query).map Prod.snd =
      (w.tree.elim [] ViewNode.walk).filter (ViewNode.matchesQuery query) := by
  rw [found, h]
  cases w.tree with
  | none => rfl
  | some tree =>
    rw [Option.elim, Option.elim, ← tree.map_snd_places [0], List.filter_map]
    rfl

/-- No place is found twice. -/
theorem IsFilled.nodup_found (h : w.IsFilled) (query : List Char) :
    ((w.found query).map Prod.fst).Nodup :=
  h.nodup.sublist (List.filter_sublist.map Prod.fst)

/-- Nothing changes that a search depends on. -/
structure SameSearch (w w' : Window) : Prop where
  tree : w'.tree = w.tree
  items : w'.items = w.items
  query : w'.query = w.query
  results : w'.results = w.results
  visited : w'.visited = w.visited

theorem SameSearch.refl (w : Window) : SameSearch w w := ⟨rfl, rfl, rfl, rfl, rfl⟩

theorem sameSearch_setSource (w : Window) (text : String) : SameSearch w (w.setSource text) :=
  ⟨rfl, rfl, rfl, rfl, rfl⟩

theorem sameSearch_field (w : Window) (field : String) : SameSearch w { w with field } :=
  ⟨rfl, rfl, rfl, rfl, rfl⟩

theorem sameSearch_select (w : Window) (place : List Nat) : SameSearch w (w.select place) := by
  unfold select
  split
  · exact ⟨rfl, rfl, rfl, rfl, rfl⟩
  · exact .refl w

/-- The tree view is filled anew, and no search has been made in it. -/
structure IsAnew (result : Window × Effects) : Prop where
  refilled : result.2.refilled = true
  filled : result.1.IsFilled
  results : result.1.results = []
  visited : result.1.visited = -1

theorem isAnew_showTree (tree : Option ViewNode) (w : Window) : IsAnew (w.showTree tree) :=
  ⟨rfl, rfl, rfl, rfl⟩

theorem isAnew_refuse (error : String) (w : Window) : IsAnew (w.refuse error) :=
  ⟨rfl, rfl, rfl, rfl⟩

theorem IsAnew.after (h : IsAnew result) (effects : Effects) :
    IsAnew (result.1, effects.andThen result.2) where
  refilled := by
    rw [Effects.andThen, h.refilled]
    exact Bool.or_true _
  filled := h.filled
  results := h.results
  visited := h.visited

theorem isAnew_buildSelected (st : Settings) (h : w.selected ≠ none) :
    IsAnew (w.buildSelected st) := by
  obtain ⟨name, hname⟩ := Option.ne_none_iff_exists'.1 h
  obtain ⟨report, result, hbuild, ⟨tree, -, rfl⟩ | rfl⟩ := buildSelected_some st hname
  · rw [hbuild]
    exact (isAnew_showTree _ _).after report
  · rw [hbuild]
    exact (isAnew_refuse _ _).after report

theorem isAnew_parse (st : Settings) (w : Window) : IsAnew (w.parse st) := by
  cases hblank : isBlankText w.source with
  | true =>
    rw [parse_blank hblank]
    exact isAnew_refuse _ _
  | false =>
    obtain ⟨report, result, hparse, ⟨-, rfl⟩ | ⟨hroots, rfl⟩⟩ := parse_declare st hblank
    · rw [hparse]
      exact (isAnew_refuse _ _).after report
    · rw [hparse]
      refine (isAnew_buildSelected st ?_).after report
      intro hnone
      rcases (offers_declare st w).selection with ⟨hnil, -⟩ | ⟨root, -, -, hroot⟩
      · exact hroots hnil
      · cases hnone.symm.trans hroot

/-- What the last query since the tree was filled has left in the window: its matches are the
results, and one of them is the last that was visited, unless none has been. -/
structure Follows (last : Option (List Char)) (w : Window) : Prop where
  filled : w.IsFilled
  query : ∀ q, last = some q → w.query = q
  results : w.results = last.elim [] fun q => (w.found q).map Prod.fst
  least : -1 ≤ w.visited
  lt_length : w.visited < w.results.length

theorem follows_new (editor : Editor) : Follows none (new editor) where
  filled := rfl
  query _ h := by cases h
  results := rfl
  least := Int.le_refl _
  lt_length := Int.negSucc_lt_zero 0

theorem IsAnew.follows (h : IsAnew result) : Follows none result.1 where
  filled := h.filled
  query _ hq := by cases hq
  results := h.results
  least := Int.le_of_eq h.visited.symm
  lt_length := by
    rw [h.visited, h.results]
    exact Int.negSucc_lt_zero 0

theorem Follows.same (h : w.Follows last) (hs : SameSearch w w') : w'.Follows last where
  filled := by
    rw [IsFilled, hs.items, hs.tree]
    exact h.filled
  query := by
    rw [hs.query]
    exact h.query
  results := by simp only [hs.results, h.results, found_congr hs.items]
  least := by
    rw [hs.visited]
    exact h.least
  lt_length := by
    rw [hs.visited, hs.results]
    exact h.lt_length

/-- The window with the results for a query. -/
def searched (query : List Char) (visited : Int) (w : Window) : Window :=
  { w with query, results := (w.found query).map Prod.fst, visited }

theorem follows_searched {visited : Int} (h : w.IsFilled) (hleast : -1 ≤ visited)
    (hlt : visited < (w.found query).length) : Follows (some query) (w.searched query visited) where
  filled := h
  query _ hq := Option.some.inj hq
  results := rfl
  least := hleast
  lt_length := by
    rw [searched, List.length_map]
    exact hlt

/-- The index from which a search for a query goes on; it is as if no match had been visited unless
the query is the last one. -/
def lastVisited (last : Option (List Char)) (query : List Char) (w : Window) : Int :=
  if last = some query then w.visited else -1

theorem Follows.lastVisited_eq (h : w.Follows last) (hnone : w.found query = []) :
    w.lastVisited last query = -1 := by
  rw [lastVisited]
  split
  · next hlast =>
    have hlt := h.lt_length
    rw [h.results, hlast, Option.elim, hnone] at hlt
    exact Int.le_antisymm (Int.le_of_lt_add_one hlt) h.least
  · rfl

theorem Follows.prepareSearch_eq (h : w.Follows last) (query : List Char) :
    w.prepareSearch query = w.searched query (w.lastVisited last query) := by
  rw [prepareSearch, matchingPlaces_eq]
  by_cases hlast : last = some query
  · have hquery := h.query query hlast
    have hresults : w.results = (w.found query).map Prod.fst := by
      rw [h.results, hlast]
      rfl
    split
    · next hanew =>
      -- The results of the last query are only found again if there are none.
      have hnone : w.found query = [] := by
        rcases hanew with hne | hnil
        · exact absurd hquery.symm hne
        · exact List.map_eq_nil_iff.1 (hresults.symm.trans hnil)
      rw [h.lastVisited_eq hnone, searched]
    · rw [searched, lastVisited, if_pos hlast, ← hresults, ← hquery]
  · have hanew : query ≠ w.query ∨ w.results = [] := by
      cases last with
      | none => exact .inr h.results
      | some q =>
        refine .inl fun hq => hlast ?_
        rw [hq, h.query q rfl]
    rw [if_pos hanew, lastVisited, if_neg hlast, searched]

/-- The match that a search for a query goes to. -/
def nextMatch (last : Option (List Char)) (query : List Char) (w : Window) : Nat :=
  ((w.lastVisited last query + 1) % (w.found query).length).toNat

/-- The index of the next match as the search computes it. -/
theorem coe_nextMatch (h : w.found query ≠ []) (last : Option (List Char)) :
    ((w.nextMatch last query : Nat) : Int) =
      (w.lastVisited last query + 1) % (w.found query).length := by
  have hpos : 0 < (w.found query).length := List.length_pos_iff.2 h
  rw [nextMatch]
  exact Int.toNat_of_nonneg (Int.emod_nonneg _ (by omega))

theorem nextMatch_lt (h : w.found query ≠ []) (last : Option (List Char)) :
    w.nextMatch last query < (w.found query).length := by
  have hpos : 0 < (w.found query).length := List.length_pos_iff.2 h
  rw [← Int.ofNat_lt, coe_nextMatch h]
  exact Int.emod_lt_of_pos _ (by omega)

theorem nextMatch_of_ne (h : last ≠ some query) (w : Window) : w.nextMatch last query = 0 := by
  rw [nextMatch, lastVisited, if_neg h]
  rfl

/-- Behind a match that was visited the next one follows, and behind the last the first. -/
theorem nextMatch_of_visited {n : Nat} (h : w.visited = n) :
    w.nextMatch (some query) query = (n + 1) % (w.found query).length := by
  rw [nextMatch, lastVisited, if_pos rfl, h]
  exact congrArg Int.toNat (Int.natCast_emod (n + 1) (w.found query).length).symm

theorem SameSearch.nextMatch_eq (h : SameSearch w w') (last : Option (List Char))
    (query : List Char) : w'.nextMatch last query = w.nextMatch last query := by
  rw [nextMatch, nextMatch, lastVisited, lastVisited, h.visited, found_congr h.items]

/-- A search goes to a match: the rows above it are opened, it is made current and brought into
view, its details are shown, and the index it is reached by lies in the results. -/
structure Reveals (item : List Nat × ViewNode) (result : Window × Effects) : Prop where
  effects : result.2 =
    .ofCalls ((ancestors item.1).map .expand ++ [.makeCurrent item.1, .scrollTo item.1])
  shown : result.1.shown = some item.2
  nonneg : 0 ≤ result.1.visited
  index : result.1.results[result.1.visited.toNat]? = some item.1

/-- A search finds nothing: it says so, and does no more. -/
structure Misses (text : String) (w : Window) (result : Window × Effects) : Prop where
  effects : result.2 = .ofDialog (.information "Search"
    ("No view found matching '" ++ String.ofList (Text.trim text.toList) ++ "'."))
  shown : result.1.shown = w.shown
  keeps : Keeps w result.1

theorem search_blank (hquery : queryOf w.field = none) : w.search = (w, .none) := by
  rw [queryOf] at hquery
  split at hquery
  · next hnil => exact if_pos (List.isEmpty_iff.2 hnil)
  · cases hquery

theorem search_eq (hquery : queryOf w.field = some query) :
    w.search =
      if (w.prepareSearch query).results.isEmpty then
        (w.prepareSearch query, .ofDialog (.information "Search"
          ("No view found matching '" ++ String.ofList (Text.trim w.field.toList) ++ "'.")))
      else
        let p := w.prepareSearch query
        let visited := (p.visited + 1) % p.results.length
        { p with visited }.reveal ((p.results[visited.toNat]?).getD []) := by
  rw [queryOf] at hquery
  split at hquery
  · cases hquery
  · next hne =>
    cases hquery
    exact if_neg fun hnil => hne (List.isEmpty_iff.1 hnil)

theorem Follows.search_none (h : w.Follows last) (hquery : queryOf w.field = some query)
    (hnone : w.found query = []) :
    Misses w.field w w.search ∧ w.search.1.Follows (some query) := by
  have hempty : (w.searched query (-1)).results.isEmpty = true := by
    rw [searched, hnone]
    rfl
  rw [search_eq hquery, h.prepareSearch_eq, h.lastVisited_eq hnone, if_pos hempty]
  refine ⟨⟨rfl, rfl, rfl, rfl, rfl, rfl, rfl, rfl⟩, follows_searched h.filled (Int.le_refl _) ?_⟩
  rw [hnone]
  exact Int.negSucc_lt_zero 0

theorem Follows.search_eq_reveal (h : w.Follows last) (hquery : queryOf w.field = some query)
    (hitem : (w.found query)[w.nextMatch last query]? = some item) :
    w.search = (w.searched query (w.nextMatch last query)).reveal item.1 := by
  have hsome : w.found query ≠ [] := List.ne_nil_of_mem (List.mem_of_getElem? hitem)
  have hresults : ¬(w.searched query (w.lastVisited last query)).results.isEmpty = true := by
    rw [searched, List.isEmpty_iff, List.map_eq_nil_iff]
    exact hsome
  rw [search_eq hquery, h.prepareSearch_eq, if_neg hresults]
  simp only [searched, List.length_map, ← coe_nextMatch hsome, Int.toNat_natCast,
    List.getElem?_map, hitem, Option.map_some, Option.getD_some]

theorem Follows.search_some (h : w.Follows last) (hquery : queryOf w.field = some query)
    (hitem : (w.found query)[w.nextMatch last query]? = some item) :
    Reveals item w.search ∧ w.search.1.Follows (some query) ∧
      w.search.1.items = w.items ∧ w.search.1.visited = w.nextMatch last query := by
  have hmem : item ∈ w.found query := List.mem_of_getElem? hitem
  have hlt := nextMatch_lt (List.ne_nil_of_mem hmem) last
  rw [h.search_eq_reveal hquery hitem]
  generalize w.nextMatch last query = n at hitem hlt
  have hsame := sameSearch_select (w.searched query n) item.1
  have hfollows : Follows (some query) (w.searched query n) :=
    follows_searched h.filled (by omega) (Int.ofNat_lt.2 hlt)
  have hshown : ((w.searched query n).select item.1).shown = some item.2 :=
    hfollows.filled.shown_select (List.mem_of_mem_filter hmem)
  refine ⟨⟨rfl, hshown, ?_, ?_⟩, hfollows.same hsame, hsame.items, hsame.visited⟩
  · rw [reveal, hsame.visited]
    exact Int.natCast_nonneg n
  · rw [reveal, hsame.visited, hsame.results, searched, List.getElem?_map, Int.toNat_natCast,
      hitem, Option.map_some]

end Window

end ViewHierarchy
