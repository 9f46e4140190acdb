import ViewHierarchy.Export.Json
import ViewHierarchy.Export.Outline
import ViewHierarchy.Source.Declaration
import ViewHierarchy.View.Progress
import ViewHierarchy.View.Root

/-! A workspace: declared views, a node to look at, and the actions on both. -/
namespace ViewHierarchy

structure Workspace where
  declarations : Declarations
  current : Option ViewNode

namespace Workspace

inductive Action where
  | load (source : String)
  | declare (name body : String)
  | candidates
  | build (root : String)
  | parse (text : String)
  | resolve (progress : List String)
  | focus (name : String)
  | count
  | outline
  | json

/-- What an action shows. -/
inductive View where
  | bodies (entries : List (String × String))
  | names (names : List String)
  | node (node : Option ViewNode)
  | resolution (result : Option (ViewNode × List String))
  | focused (found : Bool)
  | number (n : Option Nat)
  | text (s : Option String)

def empty : Workspace := ⟨.empty, none⟩

/-- Each name once, in code point order. -/
def sortedNames (names : List String) : List String :=
  names.eraseDups.mergeSort fun a b => decide (a ≤ b)

/-- A resolved tree with the names left in progress. -/
def resolution (st : Settings) (ds : Declarations) (progress : List String) (node : ViewNode) :
    ViewNode × List String :=
  let (tree, after) := visit st ds progress node
  (tree, sortedNames after.val)

def act (st : Settings) (w : Workspace) : Action → Workspace × View
  | .load source =>
    let ds := Source.declarations source.toList
    ({ w with declarations := ds }, .bodies ds.entries)
  | .declare name body =>
    let ds := w.declarations.insert name body
    ({ w with declarations := ds }, .names ds.names)
  | .candidates => (w, .names (rootCandidates st w.declarations.names))
  | .build root =>
    let tree := buildTree st w.declarations root
    ({ w with current := tree }, .node tree)
  | .parse text =>
    let node := parseExpression st text.toList
    ({ w with current := some node }, .node (some node))
  | .resolve progress =>
    let result := w.current.map (resolution st w.declarations progress)
    ({ w with current := result.map Prod.fst }, .resolution result)
  | .focus name =>
    match w.current.bind (·.find? name) with
    | some node => ({ w with current := some node }, .focused true)
    | none => (w, .focused false)
  | .count => (w, .number (w.current.map ViewNode.count))
  | .outline => (w, .text (w.current.map ViewNode.outline))
  | .json => (w, .text (w.current.map (ViewNode.json (.spaces 2))))

/-- What an action reports beside its view. -/
def diagnostics (st : Settings) (w : Workspace) : Action → List Diagnostic
  | .load source => Source.declarationDiagnostics source.toList
  | .build root => buildDiagnostics st w.declarations root
  | .parse text => (Element.read text.toList).diagnostics blockDiagnostics
  | .resolve progress =>
    match w.current with
    | some node => resolveDiagnostics st w.declarations progress node
    | none => []
  | _ => []

end Workspace

end ViewHierarchy
