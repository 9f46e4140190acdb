/-! The parts of the viewer window as it opens. -/
namespace ViewHierarchy

inductive WidgetKind where
  | window
  | splitter
  | panel
  | column
  | row
  | sourceEditor
  | field
  | button
  | label
  | choice
  | tree
  | table
  | menu
  | action
deriving DecidableEq

inductive WidgetProperty where
  | text (s : String)
  | title (s : String)
  | size (width height : Nat)
  | sizes (widths : List Nat)
  | placeholder (s : String)
  | monospaceFont (family : String)
  | minimumWidth (n : Nat)
  | hidden
  | style (s : String)
  | columnTitles (titles : List String)
  | readOnly
  | shortcut (s : String)
deriving DecidableEq

inductive Widget where
  | part (kind : WidgetKind) (properties : List WidgetProperty) (children : List Widget)
  /-- Space that takes up what the other parts leave. -/
  | stretch (factor : Nat)

namespace Layout

def button (text : String) : Widget := .part .button [.text text] []

def editorPanel : Widget :=
  .part .panel []
    [ .part .column []
        [ .part .sourceEditor
            [.placeholder "Paste SwiftUI code here...", .monospaceFont "Menlo"] [],
          .part .row [] [button "Parse", button "Paste Example", .stretch 1] ] ]

def treePanel : Widget :=
  .part .panel []
    [ .part .column []
        [ .part .row []
            [ .part .label [.text "Root View:"] [], .part .choice [.minimumWidth 180] [],
              button "Expand All", button "Collapse All", .stretch 1 ],
          .part .row []
            [.part .field [.placeholder "Search views by name..."] [], button "Search"],
          .part .label [.style "color: #dc2626;", .hidden] [],
          .part .tree [] [] ] ]

def detailsPanel : Widget :=
  .part .panel []
    [ .part .column []
        [ .part .label [.text "View: -"] [],
          .part .table [.columnTitles ["Entry", "Value"], .readOnly] [] ] ]

/-- The contents of the window: source, tree and details side by side. -/
def center : Widget :=
  .part .splitter [.sizes [450, 450, 300]] [editorPanel, treePanel, detailsPanel]

def windowProperties : List WidgetProperty :=
  [.title "SwiftUI Tree Visualizer", .size 1200 800]

def menu : List Widget :=
  [ .part .menu [.text "File"]
      [ .part .action [.text "Open Swift File...", .shortcut "Ctrl+O"] [],
        .part .action [.text "Export Tree..."] [] ] ]

def treeTitles : List String := ["View tree", "Kind"]

end Layout

end ViewHierarchy
