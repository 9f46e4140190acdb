import ViewHierarchy.Export.Json
import ViewHierarchy.Export.Outline
import ViewHierarchy.Folder
import ViewHierarchy.Sample
import ViewHierarchy.Source.Declaration
import ViewHierarchy.View.Root
import ViewHierarchy.Window.Badge
import ViewHierarchy.Window.Editor

/-! The viewer window: what it holds, what it shows, and what the user can do. -/
namespace ViewHierarchy

structure Window where
  editor : Editor
  /-- The text that the editor gives back. -/
  source : String
  declarations : Declarations
  tree : Option ViewNode
  /-- The items of the tree view by their places, each with its node. -/
  items : List (List Nat × ViewNode)
  roots : List String
  selected : Option String
  error : Option String
  /-- The node whose details are shown. -/
  shown : Option ViewNode
  field : String
  /-- The last search: its query in lower case, the places it found, and the one visited last. -/
  query : List Char
  results : List (List Nat)
  visited : Int
  file : Option String

/-- A request to the tree view; a place in it is given by row numbers from the top. -/
inductive TreeCall where
  | expandAll
  | collapseAll
  | expandToDepth (depth : Nat)
  | expand (place : List Nat)
  | makeCurrent (place : List Nat)
  | scrollTo (place : List Nat)
deriving DecidableEq

inductive Dialog where
  | critical (title text : String)
  | information (title text : String)
  | openFile (title filters : String)
  | saveFile (title proposal filters : String)
deriving DecidableEq

/-- What an action does beside changing the window. -/
structure Effects where
  calls : List TreeCall
  dialogs : List Dialog
  /-- Whether the tree was emptied or filled anew. -/
  refilled : Bool
  diagnostics : List Diagnostic

def Effects.none : Effects := ⟨[], [], false, []⟩

def Effects.andThen (a b : Effects) : Effects :=
  ⟨a.calls ++ b.calls, a.dialogs ++ b.dialogs, a.refilled || b.refilled,
    a.diagnostics ++ b.diagnostics⟩

def Effects.ofCalls (calls : List TreeCall) : Effects := ⟨calls, [], false, []⟩

def Effects.ofDialog (d : Dialog) : Effects := ⟨[], [d], false, []⟩

namespace ViewNode

mutual

/-- The nodes of a tree that stands at a place, each with its own place, in the order of the walk.
-/
def places (place : List Nat) : ViewNode → List (List Nat × ViewNode)
  | ⟨name, kind, props, modifiers, children⟩ =>
    (place, ⟨name, kind, props, modifiers, children⟩) :: placesForest place 0 children

def placesForest (place : List Nat) (row : Nat) : List ViewNode → List (List Nat × ViewNode)
  | [] => []
  | node :: rest => places (place ++ [row]) node ++ placesForest place (row + 1) rest

end

end ViewNode

structure TreeRow where
  depth : Nat
  label : String
  kind : NodeKind
  badge : Badge
  /-- Whether the row is in the color of warnings. -/
  flagged : Bool

def ViewNode.rowLabel (node : ViewNode) : String :=
  match node.children.length with
  | 0 => node.name
  | 1 => node.name ++ "  · 1 child"
  | n => node.name ++ "  · " ++ toString n ++ " children"

def ViewNode.row (st : Settings) (depth : Nat) (node : ViewNode) : TreeRow :=
  ⟨depth, node.rowLabel, node.kind, Badge.ofNode node,
    decide (st.recursionMarker ∈ node.modifiers)⟩

/-- The text of a tree for a file: JSON if its path ends so, and an outline otherwise. -/
def ViewNode.exportText (path : String) (tree : ViewNode) : String :=
  if ".json".toList.isSuffixOf path.toList then tree.json (.spaces 2) else tree.outline

namespace Window

def new (editor : Editor) : Window :=
  ⟨editor, "", .empty, none, [], [], none, none, none, "", [], [], -1, none⟩

def empty : Window := new .exact

def noInput : String := "Paste SwiftUI source first."

def noCandidates : String := "No `struct ... : View` with a `body` was found."

def noBody (name : String) : String := "Could not build a tree from the body of " ++ name ++ "."

def rows (st : Settings) (w : Window) : List TreeRow :=
  w.items.map fun (place, node) => node.row st (place.length - 1)

def title (w : Window) : String :=
  match w.shown with
  | none => "View: -"
  | some node => "View: " ++ node.name ++ " (" ++ node.kind.label ++ ")"

def details (w : Window) : List (String × String) :=
  match w.shown with
  | none => []
  | some node => node.props.map ("prop", ·) ++ node.modifiers.map ("modifier", ·)

/-- Fills the tree view; a search starts anew on the new tree. -/
def showTree (tree : Option ViewNode) (w : Window) : Window × Effects :=
  let items := tree.elim [] (ViewNode.places [0])
  ({ w with tree, items, shown := tree, results := [], visited := -1 },
    ⟨if tree.isSome then [.expandToDepth 1, .makeCurrent [0]] else [], [], true, []⟩)

def refuse (error : String) (w : Window) : Window × Effects :=
  let (w, effects) := w.showTree none
  ({ w with error := some error }, effects)

def buildSelected (st : Settings) (w : Window) : Window × Effects :=
  let w := { w with error := none }
  match w.selected with
  | none => (w, .none)
  | some name =>
    let report : Effects := ⟨[], [], false, buildDiagnostics st w.declarations name⟩
    let (w, effects) := match buildTree st w.declarations name with
      | some tree => w.showTree (some tree)
      | none => w.refuse (noBody name)
    (w, report.andThen effects)

/-- Reads the source. The selected root stays selected if the new source declares it. -/
def parse (st : Settings) (w : Window) : Window × Effects :=
  let w := { w with error := none }
  let source := w.source.toList
  if (Text.trimLeft source).isEmpty then w.refuse noInput
  else
    let declarations := Source.declarations source
    let roots := rootCandidates st declarations.names
    let selected := (w.selected.filter roots.contains).or roots.head?
    let report : Effects := ⟨[], [], false, Source.declarationDiagnostics source⟩
    let w := { w with declarations, roots, selected }
    let (w, effects) := if roots.isEmpty then w.refuse noCandidates else w.buildSelected st
    (w, report.andThen effects)

def setSource (text : String) (w : Window) : Window := { w with source := w.editor.shown text }

/-- Picks a root. A name that is no entry leaves the selection, and the tree is built again. -/
def pickRoot (st : Settings) (name : String) (w : Window) : Window × Effects :=
  (if w.roots.contains name then { w with selected := some name } else w).buildSelected st

/-- Shows the details of the node of the item at a place, if there is one. -/
def select (place : List Nat) (w : Window) : Window :=
  match w.items.lookup place with
  | some node => { w with shown := some node }
  | none => w

/-- The places of the items whose node has a name that holds the query, case aside. -/
def matchingPlaces (query : List Char) (items : List (List Nat × ViewNode)) : List (List Nat) :=
  (items.filter fun (_, node) => Text.occursIn query (Text.lower node.name.toList)).map Prod.fst

/-- The places above a place, the nearest first. -/
def ancestors (place : List Nat) : List (List Nat) :=
  (List.range (place.length - 1)).reverse.map fun n => place.take (n + 1)

/-- Opens the way to a place and shows the node there. -/
def reveal (place : List Nat) (w : Window) : Window × Effects :=
  (w.select place,
    .ofCalls ((ancestors place).map .expand ++ [.makeCurrent place, .scrollTo place]))

/-- Finds the places for a query, unless those of the last search hold for it. -/
def prepareSearch (query : List Char) (w : Window) : Window :=
  if query ≠ w.query ∨ w.results = [] then
    { w with query, results := matchingPlaces query w.items, visited := -1 }
  else w

/-- Goes to the next place that matches the text in the search field, and after the last one to the
first again. -/
def search (w : Window) : Window × Effects :=
  let text := Text.trim w.field.toList
  if text.isEmpty then (w, .none)
  else
    let w := w.prepareSearch (Text.lower text)
    if w.results.isEmpty then
      (w, .ofDialog (.information "Search"
        ("No view found matching '" ++ String.ofList text ++ "'.")))
    else
      let visited := (w.visited + 1) % w.results.length
      { w with visited }.reveal ((w.results[visited.toNat]?).getD [])

def load (st : Settings) (path : String) (contents : Except FileError (List UInt8)) (w : Window) :
    Window × Effects :=
  match contents with
  | .error e => (w, .ofDialog (.critical "Open error" e.message))
  | .ok bytes =>
    ({ w with file := some path }.setSource (String.ofList (sourceText bytes))).parse st

def exportName (w : Window) : String := w.selected.getD "tree" ++ ".txt"

end Window

structure Desktop where
  window : Window
  folder : Folder

namespace Desktop

inductive Action where
  | type (text : String)
  | parse
  | pasteExample
  | expandAll
  | collapseAll
  | search
  | searchFor (text : String)
  | pickRoot (name : String)
  | select (place : List Nat)
  /-- Opens a file; an empty path stands for a cancelled dialog. -/
  | openFile (path : String)
  | exportTree (path : String)

def ofWindow (d : Desktop) (result : Window × Effects) : Desktop × Effects :=
  ({ d with window := result.1 }, result.2)

def openFile (st : Settings) (path : String) (d : Desktop) : Desktop × Effects :=
  let asked := Effects.ofDialog (.openFile "Open Swift file" "Swift (*.swift)")
  if path = "" then (d, asked)
  else
    let (d, effects) := d.ofWindow (d.window.load st path (d.folder.read path))
    (d, asked.andThen effects)

def exportTree (path : String) (d : Desktop) : Desktop × Effects :=
  match d.window.tree with
  | none => (d, .none)
  | some tree =>
    let asked := Effects.ofDialog
      (.saveFile "Export tree" d.window.exportName "Outline (*.txt);;JSON (*.json)")
    if path = "" then (d, asked)
    else
      match d.folder.write path (tree.exportText path).toUTF8.toList with
      | .ok folder => ({ d with folder }, asked)
      | .error e => (d, asked.andThen (.ofDialog (.critical "Export error" e.message)))

def act (st : Settings) (d : Desktop) : Action → Desktop × Effects
  | .type text => d.ofWindow (d.window.setSource text, .none)
  | .parse => d.ofWindow (d.window.parse st)
  | .pasteExample => d.ofWindow ((d.window.setSource sampleSource).parse st)
  | .expandAll => (d, .ofCalls [.expandAll])
  | .collapseAll => (d, .ofCalls [.collapseAll])
  | .search => d.ofWindow d.window.search
  | .searchFor text => d.ofWindow { d.window with field := text }.search
  | .pickRoot name => d.ofWindow (d.window.pickRoot st name)
  | .select place => d.ofWindow (d.window.select place, .none)
  | .openFile path => d.openFile st path
  | .exportTree path => d.exportTree path

end Desktop

end ViewHierarchy
