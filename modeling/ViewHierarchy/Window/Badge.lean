import ViewHierarchy.Text.LowerCase
import ViewHierarchy.View.Node

/-! Badges: the label, color and shape that stand for a node in the tree. -/
namespace ViewHierarchy

/-- A color by its hexadecimal text. -/
abbrev Color := String

/-- Outlines by name; any other name is drawn round. -/
structure Badge where
  label : String
  color : Color
  shape : String
deriving DecidableEq

namespace Badge

def shapeOf : NodeKind → String
  | .container => "box"
  | .forEach => "stack"
  | .conditional => "diamond"
  | .branch => "diamond"
  | .customView => "framed"
  | .view => "round"

/-- Labels of plain views by how their names start. -/
def leafLabels : List (List String × String × Color) :=
  [ (["text", "label"], "TXT", "#e74c3c"), (["image", "asyncimage"], "IMG", "#7b61ff"),
    (["button", "navigationlink", "toggle"], "BTN", "#27ae60"),
    (["color", "rectangle", "circle"], "SHP", "#3b82f6") ]

def leafLabel (name : String) : String × Color :=
  let lowered := Text.lower name.toList
  match leafLabels.find? fun (starts, _) => starts.any (·.toList.isPrefixOf lowered) with
  | some (_, label) => label
  | none => ("VIEW", "#6b7280")

def labelOf (kind : NodeKind) (name : String) : String × Color :=
  match kind with
  | .container => ("BOX", "#2d6cdf")
  | .forEach => ("EACH", "#f39c12")
  | .conditional => ("IF", "#8e44ad")
  | .branch => ("BR", "#a78bfa")
  | .customView => ("CUST", "#16a085")
  | .view => leafLabel name

def ofNode (node : ViewNode) : Badge :=
  let (label, color) := labelOf node.kind node.name
  ⟨label, color, shapeOf node.kind⟩

end Badge

end ViewHierarchy
