import ViewHierarchy.Export.Format
import ViewHierarchy.Source.Declaration
import ViewHierarchy.View.Root

/-! Dumps: the tree of a source text as text. -/
namespace ViewHierarchy

inductive Refusal where
  | noInput
  | noCandidates
  | noBody (name : String)
deriving DecidableEq

def Refusal.message : Refusal → String
  | noInput => "No input: the source is empty."
  | noCandidates => "No root candidates: no `struct ... : View` with a `body` was found."
  | noBody name => "Selected root has no body: " ++ name

/-- The root of a dump: the one asked for, or the best candidate. An empty name asks for none. -/
def dumpRoot (candidates : List String) (root : Option String) : Option String :=
  candidates.head?.map ((root.filter (· ≠ "")).getD ·)

def dumpSource (st : Settings) (format : Format) (root : Option String) (source : List Char) :
    Except Refusal String :=
  if (Text.trimLeft source).isEmpty then .error .noInput
  else
    let declarations := Source.declarations source
    match dumpRoot (rootCandidates st declarations.names) root with
    | none => .error .noCandidates
    | some name =>
      match buildTree st declarations name with
      | none => .error (.noBody name)
      | some tree => .ok (tree.text format)

def dumpDiagnostics (st : Settings) (root : Option String) (source : List Char) :
    List Diagnostic :=
  if (Text.trimLeft source).isEmpty then []
  else
    let declarations := Source.declarations source
    Source.declarationDiagnostics source ++
      match dumpRoot (rootCandidates st declarations.names) root with
      | none => []
      | some name => buildDiagnostics st declarations name

end ViewHierarchy
