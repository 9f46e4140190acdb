/-! What is reported beside a result: the finding, its weight, and its wording. -/
namespace ViewHierarchy

inductive Severity where
  | debug
  | info
  | warning
deriving DecidableEq

def Severity.label : Severity → String
  | .debug => "DEBUG"
  | .info => "INFO"
  | .warning => "WARNING"

inductive Diagnostic where
  | argumentsUnclosed (element : String)
  | closureUnclosed (element : String)
  | elseUnclosed (condition : String)
  | declarationUnclosed (name : String)
  | bodyMissing (name : String)
  | bodyUnclosed (name : String)
  | redeclared (name : String)
  | declarationsFound (number : Nat)
  | recursiveUse (name : String)
  | bodyBlank (name : String)
  | bodyWithoutViews (name : String)
  | treeBuilt (name : String) (nodes : Nat)
  | settingsNotMapping (path : String)
deriving DecidableEq

namespace Diagnostic

def severity : Diagnostic → Severity
  | redeclared _ => .warning
  | settingsNotMapping _ => .warning
  | bodyBlank _ => .info
  | bodyWithoutViews _ => .info
  | _ => .debug

/-- The channel on which a finding is reported. -/
def channel : Diagnostic → String
  | recursiveUse _ => "swiftui_tree.builder"
  | bodyBlank _ => "swiftui_tree.builder"
  | bodyWithoutViews _ => "swiftui_tree.builder"
  | treeBuilt _ _ => "swiftui_tree.builder"
  | settingsNotMapping _ => "swiftui_tree.settings"
  | _ => "swiftui_tree.parser"

def message : Diagnostic → String
  | argumentsUnclosed element => element ++ ": argument list never closes, props dropped"
  | closureUnclosed element => element ++ ": trailing closure never closes"
  | elseUnclosed condition => "else block of `if " ++ condition ++ "` never closes"
  | declarationUnclosed name => "struct " ++ name ++ ": declaration never closes, skipped"
  | bodyMissing name => "struct " ++ name ++ " has no `var body: some View` block, skipped"
  | bodyUnclosed name => "struct " ++ name ++ ": body block never closes, skipped"
  | redeclared name => "View " ++ name ++ " is declared more than once; keeping the last one"
  | declarationsFound number => "Found " ++ toString number ++ " view declarations"
  | recursiveUse name => "Recursive use of " ++ name ++ " left un-inlined"
  | bodyBlank name => "No parsable body for " ++ name
  | bodyWithoutViews name => "Body of " ++ name ++ " contains no view expressions"
  | treeBuilt name nodes => "Built tree for " ++ name ++ " with " ++ toString nodes ++ " nodes"
  | settingsNotMapping path => "Settings file " ++ path ++ " is not a mapping; using defaults"

/-- A finding on one line: its severity, its channel and its wording. -/
def line (d : Diagnostic) : String := d.severity.label ++ " " ++ d.channel ++ ": " ++ d.message

end Diagnostic

end ViewHierarchy
