import ViewHierarchy.Proofs.Declarations
import ViewHierarchy.Proofs.Source.Naming
import ViewHierarchy.Proofs.View.Resolution

/-! One more declaration. It changes the tree of another root just if the tree holds a view that the
new declaration stands for. -/
namespace ViewHierarchy
open Source

variable {st : Settings} {ds : Declarations} {progress : List String} {node : ViewNode}
  {view body root : String}

/-- A childless view of the given name, which a declaration of that name would expand. -/
def ViewNode.CallsFor (view : String) (node : ViewNode) : Prop :=
  node.kind = .view ∧ node.children = [] ∧ node.name = view

theorem isUse_insert : node.isUse st (ds.insert view body) = true ↔
    node.isUse st ds = true ∨ node.CallsFor view ∧ st.isReserved view = false := by
  rw [ViewNode.isUse_iff, ViewNode.isUse_iff, mem_names_insert]
  constructor
  · rintro ⟨hkind, hleaf, hd | rfl, hr⟩
    · exact .inl ⟨hkind, hleaf, hd, hr⟩
    · exact .inr ⟨⟨hkind, hleaf, rfl⟩, hr⟩
  · rintro (⟨hkind, hleaf, hd, hr⟩ | ⟨⟨hkind, hleaf, rfl⟩, hr⟩)
    · exact ⟨hkind, hleaf, .inl hd, hr⟩
    · exact ⟨hkind, hleaf, .inr rfl, hr⟩

theorem isUse_insert_of_not_callsFor (h : ¬node.CallsFor view) (hu : node.isUse st ds = false) :
    node.isUse st (ds.insert view body) = false := by
  rw [← Bool.not_eq_true] at hu ⊢
  rw [isUse_insert, not_or]
  exact ⟨hu, fun hc => h hc.1⟩

theorem forest_insert {name : String} (hne : name ≠ view) :
    (ds.insert view body).forest st name = ds.forest st name := by
  rw [Declarations.forest, Declarations.body?_insert, if_neg hne, Declarations.forest]

/-- The names that are declared already are not the new one. -/
theorem name_ne_of_isUse (hnew : view ∉ ds.names) (hu : node.isUse st ds = true) :
    node.name ≠ view := by
  rintro rfl
  exact hnew (ViewNode.mem_names_of_isUse hu)

theorem callsFor_resolve_iff (hnew : view ∉ ds.names) :
    (resolve st ds progress node).CallsFor view ↔ node.CallsFor view := by
  cases hu : node.isUse st ds with
  | false => simp only [resolve_kept hu, ViewNode.CallsFor, List.map_eq_nil_iff]
  | true =>
    have hne := name_ne_of_isUse hnew hu
    simp only [ViewNode.CallsFor, resolve_name, hne, and_false]

/-- A tree is resolved in the same way just if nothing in it calls for the new declaration. -/
theorem resolve_insert_iff (hnew : view ∉ ds.names) (hr : st.isReserved view = false)
    (hp : view ∉ progress) :
    resolve st (ds.insert view body) progress node = resolve st ds progress node ↔
      (resolve st ds progress node).Everywhere fun n => ¬n.CallsFor view := by
  induction progress, node using resolve_induction st ds with
  | kept progress node hu ih =>
    rw [ViewNode.everywhere_iff, callsFor_resolve_iff hnew]
    by_cases hc : node.CallsFor view
    · -- The node is a use of the new declaration, and expanded now.
      have hu' : node.isUse st (ds.insert view body) = true := isUse_insert.2 (.inr ⟨hc, hr⟩)
      have hp' : node.name ∉ progress := by rwa [hc.2.2]
      rw [resolve_expanded hu' hp', resolve_kept hu]
      simp [hc, hc.1]
    · rw [resolve_kept (isUse_insert_of_not_callsFor hc hu), resolve_kept hu]
      simp only [hc, not_false_eq_true, true_and, ViewNode.mk.injEq, List.map_inj_left,
        List.forall_mem_map]
      exact forall₂_congr fun child hmem => ih child hmem hp
  | marked progress node hu hp' =>
    have hne := name_ne_of_isUse hnew hu
    have hleaf : (node.addModifier st.recursionMarker).children = [] :=
      (ViewNode.isUse_iff.1 hu).2.1
    rw [ViewNode.everywhere_iff, callsFor_resolve_iff hnew, resolve_marked hu hp',
      resolve_marked (isUse_insert.2 (.inl hu)) hp', hleaf]
    simp [ViewNode.CallsFor, hne]
  | expanded progress node hu hp' ih =>
    have hne := name_ne_of_isUse hnew hu
    rw [ViewNode.everywhere_iff, callsFor_resolve_iff hnew, resolve_expanded hu hp',
      resolve_expanded (isUse_insert.2 (.inl hu)) hp', forest_insert hne]
    simp only [ViewNode.CallsFor, hne, and_false, not_false_eq_true, true_and, ViewNode.mk.injEq,
      List.map_inj_left, List.forall_mem_map]
    have hcons : view ∉ node.name :: progress := by
      rw [List.mem_cons, not_or]
      exact ⟨hne.symm, hp⟩
    exact forall₂_congr fun child hmem => ih child hmem hcons

/-- A reserved name is never expanded, so its declaration is not looked at. -/
theorem resolve_insert_reserved (hnew : view ∉ ds.names) (hr : st.isReserved view = true) :
    resolve st (ds.insert view body) progress node = resolve st ds progress node := by
  have huse : ∀ node : ViewNode, node.isUse st (ds.insert view body) = node.isUse st ds := by
    intro node
    rw [Bool.eq_iff_iff, isUse_insert, hr]
    simp
  induction progress, node using resolve_induction st ds with
  | kept progress node hu ih =>
    rw [resolve_kept ((huse node).trans hu), resolve_kept hu, List.map_congr_left ih]
  | marked progress node hu hp =>
    rw [resolve_marked ((huse node).trans hu) hp, resolve_marked hu hp]
  | expanded progress node hu hp ih =>
    rw [resolve_expanded ((huse node).trans hu) hp, resolve_expanded hu hp,
      forest_insert (name_ne_of_isUse hnew hu), List.map_congr_left ih]

/-- A new declaration leaves the tree of another root as it was just if there is no such tree, if
the name is reserved, or if no childless view of that name is left in the tree. -/
theorem buildTree_insert_iff (st : Settings) (ds : Declarations) (root view body : String)
    (hnew : view ∉ ds.names) (hne : view ≠ root) :
    buildTree st (ds.insert view body) root = buildTree st ds root ↔
      buildTree st ds root = none ∨ st.isReserved view = true ∨
        ∃ tree, buildTree st ds root = some tree ∧ tree.Everywhere fun n =>
          ¬(n.kind = .view ∧ n.children = [] ∧ n.name = view) := by
  have hp : view ∉ [root] := by rwa [List.mem_singleton]
  rw [buildTree, buildTree, forest_insert hne.symm]
  cases hroot : rootOf (ds.forest st root) with
  | none => simp
  | some node =>
    rw [Option.map_some, Option.map_some, Option.some_inj]
    cases hr : st.isReserved view with
    | true => simp [resolve_insert_reserved hnew hr]
    | false =>
      rw [resolve_insert_iff hnew hr hp]
      simp [ViewNode.CallsFor]

/-- A new declaration beside two that do not show it. -/
theorem buildTree_mutualViews_insert :
    ("C" ∉ mutualViews.names ∧ "C" ≠ "A") ∧
      buildTree .default (mutualViews.insert "C" "Text(x)") "A" =
        buildTree .default mutualViews "A" := by
  have hnew : "C" ∉ mutualViews.names := by decide
  have hne : "C" ≠ "A" := by decide
  have hleaf : mutualLeaf.Everywhere fun n =>
      ¬(n.kind = .view ∧ n.children = [] ∧ n.name = "C") :=
    ViewNode.everywhere_of_children (by decide) (List.forall_mem_nil _)
  have htree : mutualTree.Everywhere fun n =>
      ¬(n.kind = .view ∧ n.children = [] ∧ n.name = "C") :=
    ViewNode.everywhere_of_children (fun h => NodeKind.noConfusion h.1)
      (List.forall_mem_singleton.2 hleaf)
  exact ⟨⟨hnew, hne⟩, (buildTree_insert_iff .default mutualViews "A" "C" "Text(x)" hnew hne).2
    (.inr (.inr ⟨mutualTree, buildTree_mutualViews, htree⟩))⟩

end ViewHierarchy
