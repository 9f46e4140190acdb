import ViewHierarchy.View.Block
import ViewHierarchy.Declarations

/-! Resolution: a childless view whose name is declared takes the views of that body as children.
The names in progress are those expanded between the root and the node; a view of such a name is
marked instead, so no expansion holds itself. -/
namespace ViewHierarchy

/-- Whether a node stands for the declaration of its name. -/
def ViewNode.isUse (st : Settings) (ds : Declarations) (node : ViewNode) : Bool :=
  node.kind == .view && node.isLeaf && decide (node.name ∈ ds.names) && !st.isReserved node.name

def ViewNode.addModifier (modifier : String) (node : ViewNode) : ViewNode :=
  { node with modifiers := node.modifiers ++ [modifier] }

/-- The views in the body of a declaration. -/
def Declarations.forest (ds : Declarations) (st : Settings) (name : String) : List ViewNode :=
  parseBlock st ((ds.body? name).getD "").toList

/-- The number of declared names that are not in progress. -/
def Declarations.idle (ds : Declarations) (progress : List String) : Nat :=
  (ds.names.filter fun name => decide (name ∉ progress)).length

theorem Declarations.idle_cons_lt {ds : Declarations} {progress : List String} {name : String}
    (h : name ∈ ds.names) (h' : name ∉ progress) : ds.idle (name :: progress) < ds.idle progress := by
  have hsub : ∀ l : List String, name ∈ l →
      (l.filter fun n => decide (n ∉ name :: progress)).length <
        (l.filter fun n => decide (n ∉ progress)).length := by
    intro l hl
    have hle : ∀ m : List String, (m.filter fun n => decide (n ∉ name :: progress)).length ≤
        (m.filter fun n => decide (n ∉ progress)).length := by
      intro m
      rw [← List.countP_eq_length_filter, ← List.countP_eq_length_filter]
      refine List.countP_mono_left fun n _ hn => ?_
      simp only [List.mem_cons, not_or, decide_eq_true_eq] at hn ⊢
      exact hn.2
    induction l with
    | nil => cases hl
    | cons a l ih =>
      by_cases ha : a = name
      · subst ha
        simp only [List.filter_cons, List.mem_cons, true_or, not_true_eq_false, decide_false,
          Bool.false_eq_true, if_false, h', not_false_eq_true, decide_true, if_true,
          List.length_cons]
        exact Nat.lt_succ_of_le (by simpa only [List.mem_cons] using hle l)
      · have hmem : name ∈ l := (List.mem_cons.1 hl).resolve_left fun e => ha e.symm
        by_cases hp : a ∈ progress
        · simpa [List.filter_cons, ha, hp] using ih hmem
        · simpa [List.filter_cons, ha, hp] using ih hmem
  exact hsub ds.names h

theorem Declarations.idle_le (ds : Declarations) {p q : List String} (h : ∀ n ∈ p, n ∈ q) :
    ds.idle q ≤ ds.idle p := by
  rw [idle, idle, ← List.countP_eq_length_filter, ← List.countP_eq_length_filter]
  refine List.countP_mono_left fun n _ hn => ?_
  simp only [decide_eq_true_eq] at hn ⊢
  exact fun hp => hn (h n hp)

theorem ViewNode.mem_names_of_isUse {st : Settings} {ds : Declarations} {node : ViewNode}
    (h : node.isUse st ds = true) : node.name ∈ ds.names := by
  simp only [isUse, Bool.and_eq_true, decide_eq_true_eq] at h
  exact h.1.2

theorem ViewNode.sizeOf_children_lt (node : ViewNode) : sizeOf node.children < sizeOf node := by
  cases node
  simp only [mk.sizeOf_spec]
  omega

mutual

/-- The tree with every use of a declaration expanded, or marked where its name is in progress. -/
def resolve (st : Settings) (ds : Declarations) (progress : List String) (node : ViewNode) :
    ViewNode :=
  if hu : node.isUse st ds then
    if hp : node.name ∈ progress then node.addModifier st.recursionMarker
    else
      have := Declarations.idle_cons_lt (ViewNode.mem_names_of_isUse hu) hp
      { node with
        kind := .customView
        children := resolveForest st ds (node.name :: progress) (ds.forest st node.name) }
  else
    have := node.sizeOf_children_lt
    { node with children := resolveForest st ds progress node.children }
termination_by (ds.idle progress, sizeOf node)

def resolveForest (st : Settings) (ds : Declarations) (progress : List String)
    (nodes : List ViewNode) : List ViewNode :=
  match nodes with
  | [] => []
  | node :: rest => resolve st ds progress node :: resolveForest st ds progress rest
termination_by (ds.idle progress, sizeOf nodes)

end

/-- Trees of a forest are resolved one by one, with the same names in progress. -/
theorem resolveForest_eq_map (st : Settings) (ds : Declarations) (progress : List String)
    (nodes : List ViewNode) :
    resolveForest st ds progress nodes = nodes.map (resolve st ds progress) := by
  induction nodes with
  | nil => rw [resolveForest, List.map_nil]
  | cons node rest ih => rw [resolveForest, List.map_cons, ih]

mutual

def resolveDiagnostics (st : Settings) (ds : Declarations) (progress : List String)
    (node : ViewNode) : List Diagnostic :=
  if hu : node.isUse st ds then
    if hp : node.name ∈ progress then [.recursiveUse node.name]
    else
      have := Declarations.idle_cons_lt (ViewNode.mem_names_of_isUse hu) hp
      blockDiagnostics ((ds.body? node.name).getD "").toList ++
        resolveForestDiagnostics st ds (node.name :: progress) (ds.forest st node.name)
  else
    have := node.sizeOf_children_lt
    resolveForestDiagnostics st ds progress node.children
termination_by (ds.idle progress, sizeOf node)

def resolveForestDiagnostics (st : Settings) (ds : Declarations) (progress : List String)
    (nodes : List ViewNode) : List Diagnostic :=
  match nodes with
  | [] => []
  | node :: rest =>
    resolveDiagnostics st ds progress node ++ resolveForestDiagnostics st ds progress rest
termination_by (ds.idle progress, sizeOf nodes)

end

end ViewHierarchy
