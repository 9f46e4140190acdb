import ViewHierarchy.Proofs.View.Modifier
import ViewHierarchy.Proofs.View.Path
import ViewHierarchy.Proofs.View.RoundTrip
import ViewHierarchy.View.Progress
import ViewHierarchy.View.Root

/-! Resolution along the paths of a tree. Every node of a resolved tree is the resolution of a node
that was read, with the names of the expanded nodes above it in progress. -/
namespace ViewHierarchy

mutual

/-- A run of the resolution with the names in progress kept in one set: the set before it, the node,
its tree, and the set after it. A name enters the set before the views of its body are visited and
is taken out after them. -/
inductive Visits (st : Settings) (ds : Declarations) :
    List String → ViewNode → ViewNode → List String → Prop
  | kept {progress after node children} : node.isUse st ds = false →
      VisitsAll st ds progress node.children children after →
      Visits st ds progress node { node with children } after
  | marked {progress node} : node.isUse st ds = true → node.name ∈ progress →
      Visits st ds progress node (node.addModifier st.recursionMarker) progress
  | expanded {progress after node children} : node.isUse st ds = true → node.name ∉ progress →
      VisitsAll st ds (node.name :: progress) (ds.forest st node.name) children after →
      Visits st ds progress node { node with kind := .customView, children }
        (after.filter fun name => name ≠ node.name)

inductive VisitsAll (st : Settings) (ds : Declarations) :
    List String → List ViewNode → List ViewNode → List String → Prop
  | nil {progress} : VisitsAll st ds progress [] [] progress
  | cons {progress between after node tree nodes trees} : Visits st ds progress node tree between →
      VisitsAll st ds between nodes trees after →
      VisitsAll st ds progress (node :: nodes) (tree :: trees) after

end

variable {st : Settings} {ds : Declarations} {progress : List String} {node : ViewNode}

theorem resolve_marked (hu : node.isUse st ds = true) (hp : node.name ∈ progress) :
    resolve st ds progress node = node.addModifier st.recursionMarker := by
  rw [resolve, dif_pos hu, dif_pos hp]

theorem resolve_expanded (hu : node.isUse st ds = true) (hp : node.name ∉ progress) :
    resolve st ds progress node =
      { node with
        kind := .customView
        children := (ds.forest st node.name).map (resolve st ds (node.name :: progress)) } := by
  rw [resolve, dif_pos hu, dif_neg hp, resolveForest_eq_map]

theorem resolve_kept (hu : node.isUse st ds = false) :
    resolve st ds progress node =
      { node with children := node.children.map (resolve st ds progress) } := by
  rw [resolve, dif_neg (by rw [hu]; exact Bool.false_ne_true), resolveForest_eq_map]

/-- Resolution goes down to the children of a node that is kept, and to the views of the declaration
that an expanded node stands for. -/
theorem resolve_induction (st : Settings) (ds : Declarations)
    {motive : List String → ViewNode → Prop}
    (kept : ∀ progress node, node.isUse st ds = false →
      (∀ child ∈ node.children, motive progress child) → motive progress node)
    (marked : ∀ progress node, node.isUse st ds = true → node.name ∈ progress →
      motive progress node)
    (expanded : ∀ progress node, node.isUse st ds = true → node.name ∉ progress →
      (∀ child ∈ ds.forest st node.name, motive (node.name :: progress) child) →
      motive progress node)
    (progress : List String) (node : ViewNode) : motive progress node := by
  cases hu : node.isUse st ds with
  | false =>
    apply kept progress node hu
    intro child hc
    have := Nat.lt_trans (List.sizeOf_lt_of_mem hc) node.sizeOf_children_lt
    exact resolve_induction st ds kept marked expanded progress child
  | true =>
    by_cases hp : node.name ∈ progress
    · exact marked progress node hu hp
    · apply expanded progress node hu hp
      intro child _
      have hlt := Declarations.idle_cons_lt (ViewNode.mem_names_of_isUse hu) hp
      exact resolve_induction st ds kept marked expanded (node.name :: progress) child
termination_by (ds.idle progress, sizeOf node)

/-- The names of the expanded uses among the nodes of a path. -/
def expandedNames (path : List ViewNode) : List String :=
  (path.filter fun node => node.kind == .customView).map ViewNode.name

theorem ViewNode.isUse_iff {node : ViewNode} : node.isUse st ds = true ↔
    node.kind = .view ∧ node.children = [] ∧ node.name ∈ ds.names ∧
      st.isReserved node.name = false := by
  simp only [isUse, isLeaf, Bool.and_eq_true, beq_iff_eq, List.isEmpty_iff, decide_eq_true_eq,
    Bool.not_eq_true', and_assoc]

/-- What resolution makes of the nodes that were read holds everywhere in the tree that it gives. -/
theorem everywhere_resolve {P Q : ViewNode → Prop}
    (hread : ∀ name, ∀ node ∈ ds.forest st name, node.Everywhere P)
    (hstep : ∀ progress node, P node → Q (resolve st ds progress node)) (progress : List String)
    (node : ViewNode) (h : node.Everywhere P) : (resolve st ds progress node).Everywhere Q := by
  induction progress, node using resolve_induction st ds with
  | kept progress node hu ih =>
    apply ViewNode.everywhere_of_children (hstep progress node h.root)
    intro child hc
    rw [resolve_kept hu] at hc
    obtain ⟨origin, ho, rfl⟩ := List.mem_map.1 hc
    exact ih origin ho (h.child ho)
  | marked progress node hu hp =>
    apply ViewNode.everywhere_of_children (hstep progress node h.root)
    intro child hc
    rw [resolve_marked hu hp, ViewNode.addModifier, (ViewNode.isUse_iff.1 hu).2.1] at hc
    cases hc
  | expanded progress node hu hp ih =>
    apply ViewNode.everywhere_of_children (hstep progress node h.root)
    intro child hc
    rw [resolve_expanded hu hp] at hc
    obtain ⟨origin, ho, rfl⟩ := List.mem_map.1 hc
    exact ih origin ho (hread _ origin ho)

/-- What reading gives: no node is expanded or marked yet. -/
def ViewNode.IsRead (node : ViewNode) : Prop :=
  node.kind ≠ .customView ∧
    ∀ m ∈ node.modifiers, ∃ c ∈ m.toList.head?, Text.isWord c = true

theorem classify_ne_customView (st : Settings) (name : String) :
    st.classify name ≠ .customView := by
  unfold Settings.classify
  split
  · exact NodeKind.noConfusion
  · split <;> exact NodeKind.noConfusion

theorem holdsOfParts_isRead (st : Settings) : HoldsOfParts st ViewNode.IsRead := by
  refine ⟨?_, ?_, ?_⟩
  · intro name children
    exact ⟨NodeKind.noConfusion, List.forall_mem_nil _⟩
  · intro condition branches
    exact ⟨NodeKind.noConfusion, List.forall_mem_nil _⟩
  · intro e forest
    refine ⟨classify_ne_customView st _, ?_⟩
    intro m hm
    obtain ⟨modifier, hmem, rfl⟩ := List.mem_map.1 hm
    rw [String.toList_ofList]
    exact head_of_mem_modifiersFrom hmem

theorem Declarations.forest_isRead (ds : Declarations) (st : Settings) (name : String) :
    ∀ node ∈ ds.forest st name, node.Everywhere ViewNode.IsRead :=
  (holdsOfParts_isRead st).everywhere_parseBlock _

theorem expandedNames_cons_expanded {node : ViewNode} (h : node.kind = .customView)
    (path : List ViewNode) : expandedNames (node :: path) = node.name :: expandedNames path := by
  rw [expandedNames, List.filter_cons_of_pos (by rw [h]; rfl), List.map_cons, expandedNames]

theorem expandedNames_cons_other {node : ViewNode} (h : node.kind ≠ .customView)
    (path : List ViewNode) : expandedNames (node :: path) = expandedNames path := by
  rw [expandedNames, List.filter_cons_of_neg (by simpa using h), expandedNames]

/-- Names that stand for declarations, none twice and none in progress. -/
structure IsFresh (st : Settings) (ds : Declarations) (progress names : List String) : Prop where
  nodup : progress.Nodup → (names.reverse ++ progress).Nodup
  declared : ∀ name ∈ names, name ∈ ds.names ∧ st.isReserved name = false

theorem IsFresh.cons {name : String} {names : List String}
    (h : IsFresh st ds (name :: progress) names) (hp : name ∉ progress) (hd : name ∈ ds.names)
    (hr : st.isReserved name = false) : IsFresh st ds progress (name :: names) := by
  constructor
  · intro hn
    rw [List.reverse_cons, List.append_assoc]
    exact h.nodup (List.nodup_cons.2 ⟨hp, hn⟩)
  · exact List.forall_mem_cons.2 ⟨⟨hd, hr⟩, h.declared⟩

/-- A node of a resolved tree is the resolution of a node that was read, with the names of the
expanded nodes above it in progress as well. -/
theorem resolve_reaches {above : List ViewNode} {found : ViewNode}
    (hn : node.Everywhere ViewNode.IsRead)
    (h : (resolve st ds progress node).Reaches above found) :
    ∃ origin : ViewNode, origin.IsRead ∧
      found = resolve st ds ((expandedNames above).reverse ++ progress) origin ∧
      IsFresh st ds progress (expandedNames above) := by
  generalize ht : resolve st ds progress node = tree at h
  induction h generalizing node progress with
  | here tree =>
    exact ⟨node, hn.root, ht.symm, fun hp => hp, List.forall_mem_nil _⟩
  | @under tree child found above hc _ ih =>
    cases hu : node.isUse st ds with
    | false =>
      rw [resolve_kept hu] at ht
      have hkind : tree.kind ≠ .customView := ht ▸ hn.root.1
      rw [← ht] at hc
      obtain ⟨origin, ho, rfl⟩ := List.mem_map.1 hc
      rw [expandedNames_cons_other hkind]
      exact ih (hn.child ho) rfl
    | true =>
      by_cases hp : node.name ∈ progress
      · rw [resolve_marked hu hp] at ht
        rw [← ht, ViewNode.addModifier, (ViewNode.isUse_iff.1 hu).2.1] at hc
        exact absurd hc List.not_mem_nil
      · rw [resolve_expanded hu hp] at ht
        have hkind : tree.kind = .customView := ht ▸ rfl
        have hname : tree.name = node.name := ht ▸ rfl
        rw [← ht] at hc
        obtain ⟨origin, ho, rfl⟩ := List.mem_map.1 hc
        obtain ⟨source, hs, rfl, hf⟩ := ih (ds.forest_isRead st node.name origin ho) rfl
        obtain ⟨-, -, hd, hr⟩ := ViewNode.isUse_iff.1 hu
        rw [expandedNames_cons_expanded hkind, hname]
        refine ⟨source, hs, ?_, hf.cons hp hd hr⟩
        rw [List.reverse_cons, List.append_assoc]
        rfl

theorem ViewNode.Everywhere.rootOf {P : ViewNode → Prop} {nodes : List ViewNode} {node : ViewNode}
    (hP : P ⟨"Group", .container, [], [], nodes⟩) (h : ∀ n ∈ nodes, n.Everywhere P)
    (hr : rootOf nodes = some node) : node.Everywhere P := by
  unfold ViewHierarchy.rootOf at hr
  split at hr
  · cases hr
  · cases hr
    exact h _ (List.mem_singleton_self _)
  · cases hr
    exact ViewNode.everywhere_of_children hP h

theorem Declarations.forest_eq_nil {name : String} (h : name ∉ ds.names) :
    ds.forest st name = [] := by
  have hb : ds.body? name = none := by
    rw [body?, List.lookup_eq_none_iff]
    intro e he
    refine bne_iff_ne.2 fun hne => h ?_
    rw [hne]
    exact List.mem_map_of_mem he
  rw [forest, hb]
  exact parseBlock_nil rfl

/-- A tree is the resolution of a tree that was read, with its root in progress. -/
theorem buildTree_eq_some {root : String} {tree : ViewNode}
    (h : buildTree st ds root = some tree) :
    root ∈ ds.names ∧ ∃ node : ViewNode, rootOf (ds.forest st root) = some node ∧
      node.Everywhere ViewNode.IsRead ∧ tree = resolve st ds [root] node := by
  obtain ⟨node, hnode, rfl⟩ := Option.map_eq_some_iff.1 h
  refine ⟨?_, node, hnode, ?_, rfl⟩
  · by_cases hr : root ∈ ds.names
    · exact hr
    · rw [Declarations.forest_eq_nil hr] at hnode
      cases hnode
  · exact ViewNode.Everywhere.rootOf ⟨NodeKind.noConfusion, List.forall_mem_nil _⟩
      (ds.forest_isRead st root) hnode

theorem filter_leave {name : String} (h : name ∉ progress) :
    ((name :: progress).filter fun n => decide (n ≠ name)) = progress := by
  rw [List.filter_cons_of_neg (by simp), List.filter_eq_self]
  intro n hn
  exact decide_eq_true fun he => h (he ▸ hn)

theorem ProgressAfter.leave_same {name : String} (hp : name ∉ progress) :
    leave hp ⟨name :: progress, fun _ h => h⟩ = ⟨progress, fun _ h => h⟩ :=
  Subtype.ext (filter_leave hp)

/-- Trees that leave the set as it was are visited one by one with the same set. -/
theorem visitForest_eq_map {nodes : List ViewNode} {f : ViewNode → ViewNode}
    (h : ∀ node ∈ nodes, visit st ds progress node = (f node, ⟨progress, fun _ h => h⟩)) :
    visitForest st ds progress nodes = (nodes.map f, ⟨progress, fun _ h => h⟩) := by
  induction nodes with
  | nil => rw [visitForest, List.map_nil]
  | cons node rest ih =>
    obtain ⟨hn, hrest⟩ := List.forall_mem_cons.1 h
    rw [visitForest, hn]
    simp only [ih hrest, List.map_cons]

/-- A visit gives the resolved tree and the set that it was given. -/
theorem visit_eq (progress : List String) (node : ViewNode) :
    visit st ds progress node = (resolve st ds progress node, ⟨progress, fun _ h => h⟩) := by
  induction progress, node using resolve_induction st ds with
  | kept progress node hu ih =>
    have hno : ¬node.isUse st ds = true := by rw [hu]; exact Bool.false_ne_true
    rw [visit, dif_neg hno, visitForest_eq_map ih, resolve_kept hu]
  | marked progress node hu hp => rw [visit, dif_pos hu, dif_pos hp, resolve_marked hu hp]
  | expanded progress node hu hp ih =>
    rw [visit, dif_pos hu, dif_neg hp, visitForest_eq_map ih, resolve_expanded hu hp]
    simp only [ProgressAfter.leave_same]

/-- A visit is a run. -/
theorem visits_visit (progress : List String) (node : ViewNode) :
    Visits st ds progress node (visit st ds progress node).1
      (visit st ds progress node).2.val := by
  refine visit.induct st ds
    (fun progress node => Visits st ds progress node (visit st ds progress node).1
      (visit st ds progress node).2.val)
    (fun progress nodes => VisitsAll st ds progress nodes (visitForest st ds progress nodes).1
      (visitForest st ds progress nodes).2.val)
    ?marked ?expanded ?kept ?nil ?cons progress node
  case marked =>
    intro progress node hu hp
    rw [visit, dif_pos hu, dif_pos hp]
    exact .marked hu hp
  case expanded =>
    intro progress node hu hp _ children after hrun ih
    rw [hrun] at ih
    rw [visit, dif_pos hu, dif_neg hp, hrun]
    exact .expanded hu hp ih
  case kept =>
    intro progress node hu _ children after hrun ih
    rw [hrun] at ih
    rw [visit, dif_neg hu, hrun]
    exact .kept (Bool.not_eq_true _ ▸ hu) ih
  case nil =>
    intro progress
    rw [visitForest]
    exact .nil
  case cons =>
    intro progress node rest first between hfirst _ others after hrest ih ihs
    rw [hfirst] at ih
    rw [hrest] at ihs
    rw [visitForest, hfirst]
    simp only [hrest]
    exact .cons ih ihs

/-- No other run is possible. -/
theorem Visits.eq_visit {after : List String} {tree : ViewNode}
    (h : Visits st ds progress node tree after) :
    tree = (visit st ds progress node).1 ∧ after = (visit st ds progress node).2.val := by
  induction h using Visits.rec
    (motive_2 := fun progress nodes trees after _ =>
      trees = (visitForest st ds progress nodes).1 ∧
        after = (visitForest st ds progress nodes).2.val) with
  | kept hu _ ih =>
    obtain ⟨rfl, rfl⟩ := ih
    rw [visit, dif_neg (by rw [hu]; exact Bool.false_ne_true)]
    exact ⟨rfl, rfl⟩
  | marked hu hp =>
    rw [visit, dif_pos hu, dif_pos hp]
    exact ⟨rfl, rfl⟩
  | expanded hu hp _ ih =>
    obtain ⟨rfl, rfl⟩ := ih
    rw [visit, dif_pos hu, dif_neg hp]
    exact ⟨rfl, rfl⟩
  | nil =>
    rw [visitForest]
    exact ⟨rfl, rfl⟩
  | cons _ _ ih ihs =>
    obtain ⟨rfl, rfl⟩ := ih
    obtain ⟨rfl, rfl⟩ := ihs
    rw [visitForest]
    exact ⟨rfl, rfl⟩

/-- A run gives the resolved tree and leaves the set as it was, and there is one. -/
theorem visits_iff {after : List String} {tree : ViewNode} :
    Visits st ds progress node tree after ↔
      tree = resolve st ds progress node ∧ after = progress := by
  have hvisit := @visit_eq st ds progress node
  constructor
  · intro h
    rw [h.eq_visit.1, h.eq_visit.2, hvisit]
    exact ⟨rfl, rfl⟩
  · rintro ⟨rfl, rfl⟩
    have hrun := @visits_visit st ds after node
    rw [hvisit] at hrun
    exact hrun

theorem expandedNames_append (path path' : List ViewNode) :
    expandedNames (path ++ path') = expandedNames path ++ expandedNames path' := by
  rw [expandedNames, List.filter_append, List.map_append, expandedNames, expandedNames]

theorem resolve_kind_eq_customView (hn : node.IsRead)
    (h : (resolve st ds progress node).kind = .customView) :
    node.isUse st ds = true ∧ node.name ∉ progress := by
  cases hu : node.isUse st ds with
  | false =>
    rw [resolve_kept hu] at h
    exact absurd h hn.1
  | true =>
    refine ⟨rfl, fun hp => ?_⟩
    rw [resolve_marked hu hp] at h
    exact hn.1 h

theorem resolve_name (progress : List String) (node : ViewNode) :
    (resolve st ds progress node).name = node.name := by
  cases hu : node.isUse st ds with
  | false => rw [resolve_kept hu]
  | true =>
    by_cases hp : node.name ∈ progress
    · rw [resolve_marked hu hp]
      rfl
    · rw [resolve_expanded hu hp]

/-- The names expanded on the way to a node, the node included, are fresh. -/
theorem isFresh_expandedNames {above : List ViewNode} {found : ViewNode}
    (hn : node.Everywhere ViewNode.IsRead)
    (h : (resolve st ds progress node).Reaches above found) :
    IsFresh st ds progress (expandedNames (above ++ [found])) := by
  obtain ⟨origin, ho, hf, hfresh⟩ := resolve_reaches hn h
  by_cases hk : found.kind = .customView
  · rw [expandedNames_append, expandedNames_cons_expanded hk]
    obtain ⟨hu, hp⟩ := resolve_kind_eq_customView ho (hf ▸ hk)
    obtain ⟨-, -, hd, hr⟩ := ViewNode.isUse_iff.1 hu
    have hname : found.name = origin.name := hf ▸ resolve_name _ origin
    rw [hname]
    constructor
    · intro hnodup
      rw [List.reverse_append]
      exact List.nodup_cons.2 ⟨hp, hfresh.nodup hnodup⟩
    · intro name hm
      rcases List.mem_append.1 hm with hm | hm
      · exact hfresh.declared name hm
      · rw [List.mem_singleton.1 hm]
        exact ⟨hd, hr⟩
  · rw [expandedNames_append, expandedNames_cons_other hk]
    simpa only [expandedNames, List.filter_nil, List.map_nil, List.append_nil] using hfresh

theorem buildTree_iff_visits {root : String} {tree : ViewNode} :
    buildTree st ds root = some tree ↔
      ∃ node, rootOf (ds.forest st root) = some node ∧ Visits st ds [root] node tree [root] := by
  constructor
  · intro h
    obtain ⟨node, hnode, rfl⟩ := Option.map_eq_some_iff.1 h
    exact ⟨node, hnode, visits_iff.2 ⟨rfl, rfl⟩⟩
  · rintro ⟨node, hnode, hv⟩
    rw [buildTree, hnode, (visits_iff.1 hv).1]
    rfl

/-- The names expanded on a path of a built tree and that of its root are declarations, no two of
them the same. -/
theorem nodup_expandedNames {root : String} {tree node : ViewNode} {above : List ViewNode}
    (h : buildTree st ds root = some tree) (hr : tree.Reaches above node) :
    ((expandedNames (above ++ [node])).reverse ++ [root]).Nodup ∧ root ∈ ds.names ∧
      ∀ name ∈ expandedNames (above ++ [node]),
        name ∈ ds.names ∧ st.isReserved name = false := by
  obtain ⟨hroot, origin, -, horigin, rfl⟩ := buildTree_eq_some h
  have hf := isFresh_expandedNames horigin hr
  exact ⟨hf.nodup (List.nodup_cons.2 ⟨List.not_mem_nil, List.nodup_nil⟩), hroot, hf.declared⟩

/-- Two views, each showing the other. -/
def mutualViews : Declarations := ⟨[("A", "B"), ("B", "A")], by decide⟩

theorem forest_mutualViews :
    mutualViews.forest .default "A" = [⟨"B", .view, [], [], []⟩] ∧
      mutualViews.forest .default "B" = [⟨"A", .view, [], [], []⟩] := by
  constructor
  · exact parseBlock_name .default "B" (by decide)
  · exact parseBlock_name .default "A" (by decide)

def mutualLeaf : ViewNode := ⟨"A", .view, [], ["/* recursion */"], []⟩

def mutualTree : ViewNode := ⟨"B", .customView, [], [], [mutualLeaf]⟩

theorem buildTree_mutualViews : buildTree .default mutualViews "A" = some mutualTree := by
  rw [buildTree, forest_mutualViews.1, rootOf, Option.map_some,
    resolve_expanded (by decide) (by decide), forest_mutualViews.2, List.map_singleton,
    resolve_marked (by decide) (by decide)]
  rfl

theorem mutualTree_reaches : mutualTree.Reaches [mutualTree] mutualLeaf :=
  .under (List.mem_singleton_self _) (.here _)

/-- Building a tree comes to an end whatever the declarations, and on the way from the root to any
node no name is expanded twice, the root is not expanded, and only declarations are that are not
reserved; so there are fewer expansions than declarations. -/
theorem buildTree_expands_once (st : Settings) (ds : Declarations) (root : String) :
    (∀ node, ∃ tree, Visits st ds [root] node tree [root]) ∧
      ∀ tree, (buildTree st ds root = some tree ↔
          ∃ node, rootOf (ds.forest st root) = some node ∧
            Visits st ds [root] node tree [root]) ∧
        ∀ above node, buildTree st ds root = some tree → tree.Reaches above node →
          (expandedNames (above ++ [node])).Nodup ∧
          root ∉ expandedNames (above ++ [node]) ∧
          (∀ name ∈ expandedNames (above ++ [node]),
            name ∈ ds.names ∧ st.isReserved name = false) ∧
          (expandedNames (above ++ [node])).length < ds.names.length := by
  refine ⟨fun node => ⟨_, visits_iff.2 ⟨rfl, rfl⟩⟩, fun tree => ⟨buildTree_iff_visits, ?_⟩⟩
  intro above node h hr
  obtain ⟨hnodup, hroot, hdeclared⟩ := nodup_expandedNames h hr
  obtain ⟨hn, -, hdisj⟩ := List.nodup_append.1 hnodup
  refine ⟨(List.reverse_perm _).nodup_iff.1 hn, ?_, hdeclared, ?_⟩
  · intro hm
    exact hdisj root (List.mem_reverse.2 hm) root (List.mem_singleton_self root) rfl
  · -- With the root they are different declarations, so no more than there are.
    have hsub : (expandedNames (above ++ [node])).reverse ++ [root] ⊆ ds.names := by
      intro name hm
      rcases List.mem_append.1 hm with hm | hm
      · exact (hdeclared name (List.mem_reverse.1 hm)).1
      · rw [List.mem_singleton.1 hm]
        exact hroot
    have hle := hnodup.length_le_of_subset hsub
    rw [List.length_append, List.length_reverse, List.length_singleton] at hle
    exact hle

theorem mutualTree_expands_once :
    (buildTree .default mutualViews "A" = some mutualTree ∧
        mutualTree.Reaches [mutualTree] mutualLeaf) ∧
      (expandedNames ([mutualTree] ++ [mutualLeaf])).Nodup ∧
      "A" ∉ expandedNames ([mutualTree] ++ [mutualLeaf]) ∧
      (∀ name ∈ expandedNames ([mutualTree] ++ [mutualLeaf]),
        name ∈ mutualViews.names ∧ Settings.default.isReserved name = false) ∧
      (expandedNames ([mutualTree] ++ [mutualLeaf])).length < mutualViews.names.length :=
  ⟨⟨buildTree_mutualViews, mutualTree_reaches⟩,
    ((buildTree_expands_once .default mutualViews "A").2 mutualTree).2 _ _ buildTree_mutualViews
      mutualTree_reaches⟩

theorem mem_expandedNames {name : String} {path : List ViewNode} :
    name ∈ expandedNames path ↔ ∃ node ∈ path, node.kind = .customView ∧ node.name = name := by
  simp only [expandedNames, List.mem_map, List.mem_filter, beq_iff_eq, and_assoc]

/-- A text that starts with no word character is no modifier that was read. -/
theorem ViewNode.IsRead.not_mem_modifiers (h : node.IsRead) {marker : String}
    (hm : ∀ c ∈ marker.toList.head?, Text.isWord c = false) : marker ∉ node.modifiers := by
  intro hmem
  obtain ⟨c, hc, hw⟩ := h.2 marker hmem
  rw [hm c hc] at hw
  exact Bool.false_ne_true hw

theorem ViewNode.isUse_resolve_kept (hu : node.isUse st ds = false) :
    (resolve st ds progress node).isUse st ds = false := by
  rw [resolve_kept hu]
  have hleaf : (node.children.map (resolve st ds progress)).isEmpty = node.children.isEmpty := by
    cases node.children <;> rfl
  rw [isUse, isLeaf] at hu ⊢
  rw [hleaf]
  exact hu

/-- Exactly the uses that are left carry the marker, and their names are in progress. -/
theorem resolve_marker_iff (hn : node.IsRead)
    (hm : ∀ c ∈ st.recursionMarker.toList.head?, Text.isWord c = false) :
    (st.recursionMarker ∈ (resolve st ds progress node).modifiers ↔
        (resolve st ds progress node).isUse st ds = true) ∧
      (st.recursionMarker ∈ (resolve st ds progress node).modifiers →
        node.name ∈ progress ∧ ∃ modifiers,
          (resolve st ds progress node).modifiers = modifiers ++ [st.recursionMarker] ∧
            st.recursionMarker ∉ modifiers) := by
  have hnot := hn.not_mem_modifiers hm
  cases hu : node.isUse st ds with
  | false =>
    rw [ViewNode.isUse_resolve_kept hu, resolve_kept hu]
    exact ⟨⟨fun h => absurd h hnot, fun h => absurd h Bool.false_ne_true⟩, fun h => absurd h hnot⟩
  | true =>
    by_cases hp : node.name ∈ progress
    · rw [resolve_marked hu hp]
      have hmem : st.recursionMarker ∈ (node.addModifier st.recursionMarker).modifiers :=
        List.mem_append.2 (.inr (List.mem_singleton_self _))
      exact ⟨⟨fun _ => hu, fun _ => hmem⟩, fun _ => ⟨hp, node.modifiers, rfl, hnot⟩⟩
    · rw [resolve_expanded hu hp]
      refine ⟨⟨fun h => absurd h hnot, fun h => ?_⟩, fun h => absurd h hnot⟩
      cases (ViewNode.isUse_iff.1 h).1

/-- In a built tree the marker stands exactly at the childless views of a declared name that is the
root's or that of an expanded node above, once and last; no other use is left. -/
theorem buildTree_marker_iff {root : String} {tree node : ViewNode} {above : List ViewNode}
    (hm : ∀ c ∈ st.recursionMarker.toList.head?, Text.isWord c = false)
    (h : buildTree st ds root = some tree) (hr : tree.Reaches above node) :
    (st.recursionMarker ∈ node.modifiers ↔
        node.kind = .view ∧ node.children = [] ∧ node.name ∈ ds.names ∧
          st.isReserved node.name = false ∧
          (node.name = root ∨ ∃ n ∈ above, n.kind = .customView ∧ n.name = node.name)) ∧
      (st.recursionMarker ∈ node.modifiers → ∃ modifiers,
        node.modifiers = modifiers ++ [st.recursionMarker] ∧ st.recursionMarker ∉ modifiers) ∧
      (node.kind = .view → node.children = [] → node.name ∈ ds.names →
        st.isReserved node.name = false → st.recursionMarker ∈ node.modifiers) := by
  obtain ⟨-, source, -, hsource, rfl⟩ := buildTree_eq_some h
  obtain ⟨origin, ho, rfl, -⟩ := resolve_reaches hsource hr
  obtain ⟨hiff, hlast⟩ :=
    @resolve_marker_iff st ds ((expandedNames above).reverse ++ [root]) origin ho hm
  rw [ViewNode.isUse_iff] at hiff
  refine ⟨⟨fun hmem => ?_, fun ⟨hk, hc, hd, hres, _⟩ => hiff.2 ⟨hk, hc, hd, hres⟩⟩,
    fun hmem => (hlast hmem).2, fun hk hc hd hres => hiff.2 ⟨hk, hc, hd, hres⟩⟩
  obtain ⟨hk, hc, hd, hres⟩ := hiff.1 hmem
  refine ⟨hk, hc, hd, hres, ?_⟩
  rw [resolve_name]
  rcases List.mem_append.1 (hlast hmem).1 with hp | hp
  · exact .inr (mem_expandedNames.1 (List.mem_reverse.1 hp))
  · exact .inl (List.mem_singleton.1 hp)

theorem mutualTree_marker_iff :
    ((∀ c ∈ Settings.default.recursionMarker.toList.head?, Text.isWord c = false) ∧
        buildTree .default mutualViews "A" = some mutualTree ∧
        mutualTree.Reaches [mutualTree] mutualLeaf) ∧
      ("/* recursion */" ∈ mutualLeaf.modifiers ↔
        mutualLeaf.kind = .view ∧ mutualLeaf.children = [] ∧
          mutualLeaf.name ∈ mutualViews.names ∧
          Settings.default.isReserved mutualLeaf.name = false ∧
          (mutualLeaf.name = "A" ∨
            ∃ n ∈ [mutualTree], n.kind = .customView ∧ n.name = mutualLeaf.name)) :=
  have hm : ∀ c ∈ Settings.default.recursionMarker.toList.head?, Text.isWord c = false := by
    intro c hc
    cases hc
    decide
  ⟨⟨hm, buildTree_mutualViews, mutualTree_reaches⟩,
    (buildTree_marker_iff hm buildTree_mutualViews mutualTree_reaches).1⟩

end ViewHierarchy
