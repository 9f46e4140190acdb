import ViewHierarchy.View.Resolve

/-! Resolution that carries the names in progress along as a set: a name enters it before the views
of its body are visited and leaves it after them. -/
namespace ViewHierarchy

/-- Names in progress after a visit, none of the given ones lost. -/
abbrev ProgressAfter (progress : List String) := { after : List String // ∀ n ∈ progress, n ∈ after }

def ProgressAfter.leave {name : String} {progress : List String} (h : name ∉ progress)
    (after : ProgressAfter (name :: progress)) : ProgressAfter progress :=
  ⟨after.val.filter fun n => decide (n ≠ name), fun n hn => by
    refine List.mem_filter.2 ⟨after.property n (List.mem_cons_of_mem name hn), ?_⟩
    refine decide_eq_true fun e => h (e ▸ hn)⟩

mutual

/-- The resolved tree and the names in progress after the visit. -/
def visit (st : Settings) (ds : Declarations) (progress : List String) (node : ViewNode) :
    ViewNode × ProgressAfter progress :=
  if hu : node.isUse st ds then
    if hp : node.name ∈ progress then
      (node.addModifier st.recursionMarker, ⟨progress, fun _ h => h⟩)
    else
      have := Declarations.idle_cons_lt (ViewNode.mem_names_of_isUse hu) hp
      let (children, after) := visitForest st ds (node.name :: progress) (ds.forest st node.name)
      ({ node with kind := .customView, children }, after.leave hp)
  else
    have := node.sizeOf_children_lt
    let (children, after) := visitForest st ds progress node.children
    ({ node with children }, after)
termination_by (ds.idle progress, sizeOf node)

def visitForest (st : Settings) (ds : Declarations) (progress : List String)
    (nodes : List ViewNode) : List ViewNode × ProgressAfter progress :=
  match nodes with
  | [] => ([], ⟨progress, fun _ h => h⟩)
  | node :: rest =>
    let (first, between) := visit st ds progress node
    have _le := ds.idle_le between.property
    let (others, after) := visitForest st ds between.val rest
    (first :: others, ⟨after.val, fun n hn => after.property n (between.property n hn)⟩)
termination_by (ds.idle progress, sizeOf nodes)
decreasing_by
  · exact Prod.Lex.right _ (by simp only [List.cons.sizeOf_spec]; omega)
  · rcases Nat.lt_or_eq_of_le _le with h | h
    · exact Prod.Lex.left _ _ h
    · rw [h]
      exact Prod.Lex.right _ (by simp only [List.cons.sizeOf_spec]; omega)

end

end ViewHierarchy
