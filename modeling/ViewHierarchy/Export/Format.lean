import ViewHierarchy.Export.Json
import ViewHierarchy.Export.Outline

/-! Formats of a dump, and the text of a tree in each of them. -/
namespace ViewHierarchy

inductive Format where
  | outline
  | json
deriving DecidableEq

namespace Format

def name : Format → String
  | outline => "outline"
  | json => "json"

def all : List Format := [outline, json]

def named? (s : String) : Option Format := all.find? (·.name == s)

end Format

def ViewNode.text : Format → ViewNode → String
  | .outline, node => node.outline
  | .json, node => node.json (.spaces 2)

end ViewHierarchy
