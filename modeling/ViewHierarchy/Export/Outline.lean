import ViewHierarchy.View.Node

/-! Outlines: one line for each node, indented by depth. -/
namespace ViewHierarchy

/-- A modifier in an outline has a dot before it; a comment has none. -/
def modifierEntry (modifier : String) : String :=
  if ['/', '*'].isPrefixOf modifier.toList then modifier else "." ++ modifier

namespace ViewNode

/-- Kind and name, the properties in brackets if there are any, and the modifiers. -/
def outlineEntry (node : ViewNode) : String :=
  let props := if node.props.isEmpty then [] else ["[" ++ ", ".intercalate node.props ++ "]"]
  " ".intercalate (node.kind.label :: node.name :: props ++ node.modifiers.map modifierEntry)

def indentation (level : Nat) : String := String.ofList (List.replicate (2 * level) ' ')

mutual

def outlineLines (level : Nat) : ViewNode → List String
  | ⟨name, kind, props, modifiers, children⟩ =>
    (indentation level ++ outlineEntry ⟨name, kind, props, modifiers, children⟩) ::
      outlineForest (level + 1) children

def outlineForest (level : Nat) : List ViewNode → List String
  | [] => []
  | node :: rest => outlineLines level node ++ outlineForest level rest

end

def outline (node : ViewNode) : String := String.join ((outlineLines 0 node).map (· ++ "\n"))

end ViewNode

end ViewHierarchy
