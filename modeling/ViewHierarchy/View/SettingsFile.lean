import ViewHierarchy.View.Settings
import ViewHierarchy.Diagnostics
import ViewHierarchy.Yaml.Value

/-! Settings read from a YAML document. A key counts on its own: a value of the wrong shape under it
leaves the default. -/
namespace ViewHierarchy.Settings
open Yaml (Value)

/-- The nonempty texts of a sequence; a text alone counts as a sequence of one. -/
def textList : Option Value → List String
  | some (.text s) => [s]
  | some (.sequence items) => items.filterMap fun
    | .text s => if s = "" then none else some s
    | _ => none
  | _ => []

/-- A limit must leave room for the ellipsis. -/
def leastLimit : Int := 4

def limitOf : Option Value → Int
  | some (.int n) => if leastLimit ≤ n then n else default.maxPropLength
  | _ => default.maxPropLength

/-- The names of a list with those of another added, each once. -/
def addNames (names more : List String) : List String := (names ++ more).eraseDups

/-- The settings that a mapping describes. -/
def ofValue (v : Value) : Settings :=
  let patterns := textList (v.lookup? "root_name_patterns")
  { containerTypes :=
      addNames default.containerTypes (textList (v.lookup? "extra_container_types"))
    reservedNames := addNames default.reservedNames (textList (v.lookup? "reserved_names"))
    rootPatterns :=
      if patterns.isEmpty then default.rootPatterns
      else patterns.map fun p => String.ofList (Text.lower p.toList)
    maxPropLength := limitOf (v.lookup? "max_prop_length")
    recursionMarker := default.recursionMarker }

/-- Settings lie at most this deep: a name in a list under a key. -/
def depth : Nat := 3

def read (bytes : List UInt8) : Except Yaml.Fault Settings := (Yaml.read depth bytes).map ofValue

/-- A document that is no mapping is reported under its path. -/
def readDiagnostics (path : String) (bytes : List UInt8) : List Diagnostic :=
  match Yaml.read depth bytes with
  | .ok (.mapping _) => []
  | .ok _ => [.settingsNotMapping path]
  | .error _ => []

end ViewHierarchy.Settings
