import Mathlib.Data.List.TakeWhile
import ViewHierarchy.Proofs.Source.Naming
import ViewHierarchy.Proofs.Window.Rows

/-! A consistent window, and what the actions on a window keep of it: looking around changes neither
the tree nor the roots, and building a tree anew leaves a tree of the selected root or an error. -/
namespace ViewHierarchy

/-- A text that is empty or white space. -/
def isBlankText (text : String) : Bool := (Text.trimLeft text.toList).isEmpty

theorem isBlankText_iff {text : String} :
    isBlankText text = true ↔ ∀ c ∈ text.toList, Text.isBlank c = true :=
  List.isEmpty_iff.trans List.dropWhile_eq_nil_iff

theorem append_ne_empty (s : String) {t : String} (h : t ≠ "") : s ++ t ≠ "" := by
  intro hempty
  have hlist := congrArg String.toList hempty
  rw [String.toList_append] at hlist
  exact h (String.toList_inj.1 (List.append_eq_nil_iff.1 hlist).2)

theorem mem_rootCandidates {st : Settings} {names : List String} {name : String} :
    name ∈ rootCandidates st names ↔ name ∈ names := List.mem_mergeSort

namespace Window

/-- The roots that a text offers. -/
def candidates (st : Settings) (text : String) : List String :=
  rootCandidates st (Source.declarations text.toList).names

variable {st : Settings} {w w' : Window} {result : Window × Effects}

/-- The root selector offers the declared views, and one of them is selected if there is any. -/
structure Offers (st : Settings) (w : Window) : Prop where
  roots : w.roots = rootCandidates st w.declarations.names
  selection : (w.roots = [] ∧ w.selected = none) ∨
    ∃ root ∈ w.roots, root ≠ "" ∧ w.selected = some root

/-- Besides, the tree view holds the items of the tree, a tree is that of the selected root, and an
error is not empty and stands in place of a tree. -/
structure IsConsistent (st : Settings) (w : Window) : Prop extends Offers st w where
  filled : w.IsFilled
  tree : ∀ tree, w.tree = some tree →
    ∃ root, w.selected = some root ∧ buildTree st w.declarations root = some tree
  error : ∀ e, w.error = some e → e ≠ "" ∧ w.tree = none

theorem isConsistent_new (st : Settings) (editor : Editor) : IsConsistent st (new editor) where
  roots := List.mergeSort_nil.symm
  selection := .inl ⟨rfl, rfl⟩
  filled := rfl
  tree _ h := by cases h
  error _ h := by cases h

/-- What looking around in the window leaves as it was. -/
structure Keeps (w w' : Window) : Prop where
  declarations : w'.declarations = w.declarations
  tree : w'.tree = w.tree
  items : w'.items = w.items
  roots : w'.roots = w.roots
  selected : w'.selected = w.selected
  error : w'.error = w.error

theorem Keeps.trans {w'' : Window} (h : Keeps w w') (h' : Keeps w' w'') : Keeps w w'' where
  declarations := h'.declarations.trans h.declarations
  tree := h'.tree.trans h.tree
  items := h'.items.trans h.items
  roots := h'.roots.trans h.roots
  selected := h'.selected.trans h.selected
  error := h'.error.trans h.error

/-- A text that the editor gives back as it was. -/
theorem setSource_eq {text : String} (h : ∀ c ∈ text.toList, c ∉ Editor.respelled) (w : Window) :
    w.setSource text = { w with source := text } := by
  rw [setSource, w.editor.shown_eq text h]

theorem Keeps.refl (w : Window) : Keeps w w := ⟨rfl, rfl, rfl, rfl, rfl, rfl⟩

theorem keeps_setSource (w : Window) (text : String) : Keeps w (w.setSource text) :=
  ⟨rfl, rfl, rfl, rfl, rfl, rfl⟩

theorem keeps_file (w : Window) (file : Option String) : Keeps w { w with file } :=
  ⟨rfl, rfl, rfl, rfl, rfl, rfl⟩

theorem keeps_field (w : Window) (field : String) : Keeps w { w with field } :=
  ⟨rfl, rfl, rfl, rfl, rfl, rfl⟩

theorem keeps_select (w : Window) (place : List Nat) : Keeps w (w.select place) := by
  unfold select
  split <;> exact ⟨rfl, rfl, rfl, rfl, rfl, rfl⟩

theorem keeps_reveal (w : Window) (place : List Nat) : Keeps w (w.reveal place).1 :=
  keeps_select w place

theorem keeps_prepareSearch (w : Window) (query : List Char) : Keeps w (w.prepareSearch query) := by
  unfold prepareSearch
  split <;> exact ⟨rfl, rfl, rfl, rfl, rfl, rfl⟩

theorem keeps_search (w : Window) : Keeps w w.search.1 := by
  unfold search
  have hprepare := w.keeps_prepareSearch (Text.lower (Text.trim w.field.toList))
  dsimp only
  split
  · exact .refl w
  · split
    · exact hprepare
    · refine hprepare.trans (Keeps.trans ?_ (keeps_reveal _ _))
      exact ⟨rfl, rfl, rfl, rfl, rfl, rfl⟩

theorem IsConsistent.keeps (h : w.IsConsistent st) (hk : Keeps w w') : w'.IsConsistent st where
  roots := by rw [hk.roots, hk.declarations, h.roots]
  selection := by
    rw [hk.roots, hk.selected]
    exact h.selection
  filled := by
    rw [IsFilled, hk.items, hk.tree]
    exact h.filled
  tree := by
    rw [hk.tree, hk.selected, hk.declarations]
    exact h.tree
  error := by
    rw [hk.error, hk.tree]
    exact h.error

theorem Offers.mem_roots (h : w.Offers st) {root : String} (hs : w.selected = some root) :
    root ∈ w.roots := by
  rcases h.selection with ⟨-, hnone⟩ | ⟨name, hname, -, hsome⟩
  · cases hnone.symm.trans hs
  · cases hsome.symm.trans hs
    exact hname

/-- A consistent window without a selected root shows no tree. -/
theorem IsConsistent.tree_eq_none (h : w.IsConsistent st) (hs : w.selected = none) :
    w.tree = none := by
  cases htree : w.tree with
  | none => rfl
  | some tree =>
    obtain ⟨root, hroot, -⟩ := h.tree tree htree
    cases hs.symm.trans hroot

/-- What comes of building a tree: the roots stay, there is a tree of the selected root or an error,
and the tree view holds the items of the tree and is filled anew unless they stay. -/
structure Rebuilds (st : Settings) (w : Window) (result : Window × Effects) : Prop where
  declarations : result.1.declarations = w.declarations
  roots : result.1.roots = w.roots
  selected : result.1.selected = w.selected
  filled : result.1.IsFilled
  tree : ∀ tree, result.1.tree = some tree →
    ∃ root, w.selected = some root ∧ buildTree st w.declarations root = some tree
  error : ∀ e, result.1.error = some e → e ≠ "" ∧ result.1.tree = none
  refilled : result.2.refilled = true ∨ result.1.items = w.items

/-- Whatever error was shown before does not matter. -/
theorem Rebuilds.of_error {error : Option String} (h : Rebuilds st { w with error } result) :
    Rebuilds st w result :=
  ⟨h.declarations, h.roots, h.selected, h.filled, h.tree, h.error, h.refilled⟩

theorem Rebuilds.report (h : Rebuilds st w result) (report : Effects) :
    Rebuilds st w (result.1, report.andThen result.2) where
  declarations := h.declarations
  roots := h.roots
  selected := h.selected
  filled := h.filled
  tree := h.tree
  error := h.error
  refilled := by
    rw [Effects.andThen, Bool.or_eq_true]
    exact h.refilled.imp_left .inr

theorem Rebuilds.isConsistent (h : Rebuilds st w result) (hw : w.Offers st) :
    result.1.IsConsistent st where
  roots := by rw [h.roots, h.declarations, hw.roots]
  selection := by
    rw [h.roots, h.selected]
    exact hw.selection
  filled := h.filled
  tree := by
    rw [h.selected, h.declarations]
    exact h.tree
  error := h.error

theorem rebuilds_refuse (w : Window) {error : String} (he : error ≠ "") :
    Rebuilds st w (w.refuse error) where
  declarations := rfl
  roots := rfl
  selected := rfl
  filled := rfl
  tree _ h := by cases h
  error e h := by
    cases h
    exact ⟨he, rfl⟩
  refilled := .inl rfl

theorem rebuilds_showTree {name : String} {tree : ViewNode} (hs : w.selected = some name)
    (htree : buildTree st w.declarations name = some tree) (herror : w.error = none) :
    Rebuilds st w (w.showTree (some tree)) where
  declarations := rfl
  roots := rfl
  selected := rfl
  filled := rfl
  tree _ h := by
    cases h
    exact ⟨name, hs, htree⟩
  error e h := by cases herror.symm.trans h
  refilled := .inl rfl

theorem buildSelected_none (h : w.selected = none) :
    w.buildSelected st = ({ w with error := none }, .none) := by
  simp only [buildSelected, h]

theorem buildSelected_some (st : Settings) {name : String} (h : w.selected = some name) :
    ∃ report : Effects, ∃ result : Window × Effects,
      w.buildSelected st = (result.1, report.andThen result.2) ∧
        ((∃ tree, buildTree st w.declarations name = some tree ∧
            result = { w with error := none }.showTree (some tree)) ∨
          result = { w with error := none }.refuse (noBody name)) := by
  cases htree : buildTree st w.declarations name with
  | none =>
    refine ⟨⟨[], [], false, buildDiagnostics st w.declarations name⟩, _, ?_, .inr rfl⟩
    simp only [buildSelected, h, htree]
  | some tree =>
    refine ⟨⟨[], [], false, buildDiagnostics st w.declarations name⟩, _, ?_, .inl ⟨tree, rfl, rfl⟩⟩
    simp only [buildSelected, h, htree]

theorem rebuilds_buildSelected (h : w.selected = none → w.tree = none ∧ w.IsFilled) :
    Rebuilds st w (w.buildSelected st) := by
  cases hs : w.selected with
  | none =>
    obtain ⟨hnone, hfilled⟩ := h hs
    rw [buildSelected_none hs]
    refine ⟨rfl, rfl, rfl, hfilled, ?_, ?_, .inr rfl⟩
    · intro tree htree
      cases hnone.symm.trans htree
    · intro e he
      cases he
  | some name =>
    obtain ⟨report, result, hbuild, ⟨tree, htree, rfl⟩ | rfl⟩ := buildSelected_some st hs
    · have hshown := rebuilds_showTree (w := { w with error := none }) hs htree rfl
      rw [hbuild]
      exact (hshown.report report).of_error
    · have hne : noBody name ≠ "" := append_ne_empty _ (by decide)
      rw [hbuild]
      exact ((rebuilds_refuse { w with error := none } hne).report report).of_error

theorem parse_blank (h : isBlankText w.source = true) :
    w.parse st = { w with error := none }.refuse noInput := if_pos h

/-- The window with the views that its source declares. -/
def declare (st : Settings) (w : Window) : Window :=
  let declarations := Source.declarations w.source.toList
  let roots := rootCandidates st declarations.names
  { w with declarations, roots, selected := (w.selected.filter roots.contains).or roots.head? }

theorem parse_declare (st : Settings) (h : isBlankText w.source = false) :
    ∃ report : Effects, ∃ result : Window × Effects,
      w.parse st = (result.1, report.andThen result.2) ∧
        ((w.declare st).roots = [] ∧
            result = { w.declare st with error := none }.refuse noCandidates ∨
          (w.declare st).roots ≠ [] ∧
            result = { w.declare st with error := none }.buildSelected st) := by
  refine ⟨⟨[], [], false, Source.declarationDiagnostics w.source.toList⟩,
    if (w.declare st).roots.isEmpty then { w.declare st with error := none }.refuse noCandidates
    else { w.declare st with error := none }.buildSelected st, ?_, ?_⟩
  · exact if_neg (by rw [isBlankText] at h; rw [h]; exact Bool.false_ne_true)
  · split
    · next hroots => exact .inl ⟨List.isEmpty_iff.1 hroots, rfl⟩
    · next hroots => exact .inr ⟨fun hnil => hroots (List.isEmpty_iff.2 hnil), rfl⟩

theorem ne_empty_of_mem_names {source : List Char} {name : String}
    (h : name ∈ (Source.declarations source).names) : name ≠ "" := by
  rintro rfl
  exact (Source.isWordText_of_mem_names h).ne_nil rfl

theorem selected_declare (st : Settings) (w : Window) : (w.declare st).selected =
    (w.selected.filter (w.declare st).roots.contains).or (w.declare st).roots.head? := rfl

theorem offers_declare (st : Settings) (w : Window) : (w.declare st).Offers st where
  roots := rfl
  selection := by
    have hname : ∀ root ∈ (w.declare st).roots, root ≠ "" := by
      intro root hroot
      exact ne_empty_of_mem_names (mem_rootCandidates.1 hroot)
    rw [selected_declare]
    generalize (w.declare st).roots = roots at hname
    cases hkept : w.selected.filter roots.contains with
    | some root =>
      have hroot := List.contains_iff_mem.1 (Option.filter_eq_some_iff.1 hkept).2
      exact .inr ⟨root, hroot, hname root hroot, rfl⟩
    | none =>
      cases roots with
      | nil => exact .inl ⟨rfl, rfl⟩
      | cons root rest => exact .inr ⟨root, List.mem_cons_self, hname root List.mem_cons_self, rfl⟩

theorem rebuilds_parse (h : isBlankText w.source = false) :
    Rebuilds st (w.declare st) (w.parse st) := by
  obtain ⟨report, result, hparse, ⟨-, rfl⟩ | ⟨hroots, rfl⟩⟩ := parse_declare st h
  · have hne : noCandidates ≠ "" := by decide
    rw [hparse]
    exact ((rebuilds_refuse { w.declare st with error := none } hne).report report).of_error
  · have hselected : (w.declare st).selected = none →
        (w.declare st).tree = none ∧ (w.declare st).IsFilled := by
      intro hnone
      rcases (offers_declare st w).selection with ⟨hnil, -⟩ | ⟨root, -, -, hroot⟩
      · exact absurd hnil hroots
      · cases hnone.symm.trans hroot
    rw [hparse]
    exact ((rebuilds_buildSelected (w := { w.declare st with error := none }) hselected).report
      report).of_error

theorem IsConsistent.parse (h : w.IsConsistent st) : (w.parse st).1.IsConsistent st := by
  cases hblank : isBlankText w.source with
  | true =>
    have hne : noInput ≠ "" := by decide
    rw [parse_blank hblank]
    exact (rebuilds_refuse { w with error := none } hne).of_error.isConsistent h.toOffers
  | false => exact (rebuilds_parse hblank).isConsistent (offers_declare st w)

/-- The window in which a root is picked, before its tree is built. -/
def picked (name : String) (w : Window) : Window :=
  { w with selected := if w.roots.contains name then some name else w.selected }

theorem pickRoot_eq (st : Settings) (name : String) (w : Window) :
    w.pickRoot st name = (w.picked name).buildSelected st := by
  rw [pickRoot, picked]
  split <;> rfl

theorem rebuilds_pickRoot (h : w.IsConsistent st) (name : String) :
    Rebuilds st (w.picked name) (w.pickRoot st name) := by
  rw [pickRoot_eq]
  apply rebuilds_buildSelected
  rw [picked]
  split
  · intro hnone
    cases hnone
  · exact fun hnone => ⟨h.tree_eq_none hnone, h.filled⟩

theorem Offers.picked (h : w.Offers st) (hnames : ∀ root ∈ w.declarations.names, root ≠ "")
    (name : String) : (w.picked name).Offers st := by
  refine ⟨h.roots, ?_⟩
  rw [Window.picked]
  split
  · next hroot =>
    have hmem := List.contains_iff_mem.1 hroot
    refine .inr ⟨name, hmem, hnames name ?_, rfl⟩
    rw [h.roots] at hmem
    exact mem_rootCandidates.1 hmem
  · exact h.selection

/-- The root that was selected before a text is read stays selected if the text declares it, and the
first root is selected otherwise. -/
theorem selected_parse (h : isBlankText w.source = false) :
    (∀ root, w.selected = some root → root ∈ candidates st w.source →
        (w.parse st).1.selected = some root) ∧
      ((∀ root, w.selected = some root → root ∉ candidates st w.source) →
        (w.parse st).1.selected = (candidates st w.source).head?) := by
  have hroots : (w.declare st).roots = candidates st w.source := rfl
  rw [(rebuilds_parse h).selected, selected_declare, hroots]
  generalize candidates st w.source = candidates
  constructor
  · intro root hroot hmem
    rw [hroot, Option.filter_some, List.contains_iff_mem.2 hmem]
    rfl
  · intro hnone
    cases hs : w.selected with
    | none => rfl
    | some root =>
      have hout : candidates.contains root = false := by
        rw [← Bool.not_eq_true, List.contains_iff_mem]
        exact hnone root hs
      rw [Option.filter_some, hout]
      rfl

end Window

end ViewHierarchy
