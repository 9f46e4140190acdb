import ViewHierarchy.View.Node

/-! JSON texts of view trees. -/
namespace ViewHierarchy

/-- The JSON values that a tree is made of; fields keep their order. -/
inductive Json where
  | string (s : String)
  | array (items : List Json)
  | object (fields : List (String × Json))

namespace Json

/-- A character as it stands in a JSON string; only quotes, backslashes and controls are escaped. -/
def escape (c : Char) : List Char :=
  match c with
  | '"' => ['\\', '"']
  | '\\' => ['\\', '\\']
  | '\n' => ['\\', 'n']
  | '\r' => ['\\', 'r']
  | '\t' => ['\\', 't']
  | '\x08' => ['\\', 'b']
  | '\x0c' => ['\\', 'f']
  | c =>
    if c.toNat < 32 then ['\\', 'u', '0', '0', Nat.digitChar (c.toNat / 16), Nat.digitChar (c.toNat % 16)]
    else [c]

def quote (s : String) : List Char := '"' :: s.toList.flatMap escape ++ ['"']

/-- How a JSON text is laid out: on one line, or with a unit of indentation for each level. -/
inductive Layout where
  | line
  | block (unit : List Char)

/-- Indentation by a number of spaces; none for a negative number. -/
def Layout.spaces (n : Int) : Layout := .block (List.replicate n.toNat ' ')

namespace Layout

def breakAt (level : Nat) : Layout → List Char
  | line => []
  | block unit => '\n' :: (List.replicate level unit).flatten

def separator (level : Nat) : Layout → List Char
  | line => [',', ' ']
  | block unit => ',' :: breakAt level (block unit)

end Layout

mutual

/-- The text of a value that stands at the given level. -/
def render (layout : Layout) (level : Nat) : Json → List Char
  | string s => quote s
  | array [] => ['[', ']']
  | array (item :: items) =>
    '[' :: layout.breakAt (level + 1) ++ render layout (level + 1) item ++
      renderItems layout (level + 1) items ++ layout.breakAt level ++ [']']
  | object [] => ['{', '}']
  | object ((key, value) :: fields) =>
    '{' :: layout.breakAt (level + 1) ++ quote key ++ ':' :: ' ' ::
      render layout (level + 1) value ++
      renderFields layout (level + 1) fields ++ layout.breakAt level ++ ['}']

def renderItems (layout : Layout) (level : Nat) : List Json → List Char
  | [] => []
  | item :: items =>
    layout.separator level ++ render layout level item ++ renderItems layout level items

def renderFields (layout : Layout) (level : Nat) : List (String × Json) → List Char
  | [] => []
  | (key, value) :: fields =>
    layout.separator level ++ quote key ++ ':' :: ' ' :: render layout level value ++
      renderFields layout level fields

end

end Json

namespace ViewNode

mutual

def toJson : ViewNode → Json
  | ⟨name, kind, props, modifiers, children⟩ =>
    .object
      [ ("kind", .string kind.label), ("name", .string name),
        ("props", .array (props.map .string)), ("modifiers", .array (modifiers.map .string)),
        ("children", .array (toJsonForest children)) ]

def toJsonForest : List ViewNode → List Json
  | [] => []
  | node :: rest => toJson node :: toJsonForest rest

end

/-- The JSON text of a tree, ended by a line break. -/
def json (layout : Json.Layout) (node : ViewNode) : String :=
  String.ofList (node.toJson.render layout 0 ++ ['\n'])

end ViewNode

end ViewHierarchy
