import ViewHierarchy.View.Resolve
import ViewHierarchy.Text.LowerCase
import ViewHierarchy.Text.Search

/-! Roots: the declarations ranked as starting points, and the tree that starts at one of them. -/
namespace ViewHierarchy

/-- Whether a name holds one of the root patterns, its case aside. -/
def Settings.isLikelyRoot (st : Settings) (name : String) : Bool :=
  let lowered := Text.lower name.toList
  st.rootPatterns.any fun pattern => Text.occursIn pattern.toList lowered

/-- Likely roots come first; otherwise names are in code point order. -/
def Settings.rootLe (st : Settings) (a b : String) : Bool :=
  match st.isLikelyRoot a, st.isLikelyRoot b with
  | true, false => true
  | false, true => false
  | _, _ => decide (a ≤ b)

/-- The given names, the best starting point first. -/
def rootCandidates (st : Settings) (names : List String) : List String :=
  names.mergeSort st.rootLe

/-- A single view is its own root; several are wrapped in a group. -/
def rootOf : List ViewNode → Option ViewNode
  | [] => none
  | [node] => some node
  | nodes => some ⟨"Group", .container, [], [], nodes⟩

/-- The tree of a declaration with all uses of others expanded. The root counts as in progress. -/
def buildTree (st : Settings) (ds : Declarations) (name : String) : Option ViewNode :=
  (rootOf (ds.forest st name)).map (resolve st ds [name])

def buildDiagnostics (st : Settings) (ds : Declarations) (name : String) : List Diagnostic :=
  let body := ((ds.body? name).getD "").toList
  if (Text.trimLeft body).isEmpty then [.bodyBlank name]
  else blockDiagnostics body ++
    match rootOf (ds.forest st name) with
    | none => [.bodyWithoutViews name]
    | some node =>
      resolveDiagnostics st ds [name] node ++
        [.treeBuilt name (resolve st ds [name] node).count]

end ViewHierarchy
