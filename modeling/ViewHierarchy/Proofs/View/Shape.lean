import ViewHierarchy.Proofs.View.Resolution

/-! The shape of trees: which kind a node of a name has, and where the branches of conditionals
stand. Reading gives every tree this shape and resolution keeps it. -/
namespace ViewHierarchy
open Text Source

variable {st : Settings} {ds : Declarations} {custom : String → Prop} {node : ViewNode}
  {forest : List Char → List ViewNode}

/-- The children of a conditional: a branch named Then, and one named Else behind it or none. -/
inductive AreBranches : List ViewNode → Prop
  | plain {block} : block.kind = .branch → block.name = "Then" → AreBranches [block]
  | alternative {block otherwise} : block.kind = .branch → block.name = "Then" →
      otherwise.kind = .branch → otherwise.name = "Else" → AreBranches [block, otherwise]

/-- The shape of a node, where only names of which `custom` holds may be expanded. -/
structure IsShaped (st : Settings) (custom : String → Prop) (node : ViewNode) : Prop where
  named : node.name ≠ ""
  conditional : node.kind = .conditional → "if ".toList <+: node.name.toList ∧
    node.props = [] ∧ node.modifiers = [] ∧ AreBranches node.children
  branch : node.kind = .branch → node.props = [] ∧ node.modifiers = []
  branches : node.kind ≠ .conditional → ∀ child ∈ node.children, child.kind ≠ .branch
  forEach : node.kind ≠ .conditional → node.kind ≠ .branch →
    (node.kind = .forEach ↔ node.name = "ForEach")
  container : node.kind ≠ .conditional → node.kind ≠ .branch → node.kind ≠ .forEach →
    (node.kind = .container ↔ node.name ∈ st.containerTypes)
  expanded : node.kind = .customView → custom node.name

/-- A tree of shaped nodes whose root is no branch of a conditional. -/
structure IsViewTree (st : Settings) (custom : String → Prop) (tree : ViewNode) : Prop where
  root : tree.kind ≠ .branch
  shaped : tree.Everywhere (IsShaped st custom)

theorem everywhere_branch {name : String} {children : List ViewNode} (hname : name ≠ "")
    (h : ∀ child ∈ children, IsViewTree st custom child) :
    (ViewNode.branch name children).Everywhere (IsShaped st custom) := by
  apply ViewNode.everywhere_of_children
  · constructor
    · exact hname
    · exact fun hkind => NodeKind.noConfusion hkind
    · exact fun _ => ⟨rfl, rfl⟩
    · exact fun _ child hc => (h child hc).root
    · exact fun _ hkind => absurd rfl hkind
    · exact fun _ hkind => absurd rfl hkind
    · exact fun hkind => NodeKind.noConfusion hkind
  · exact fun child hc => (h child hc).shaped

theorem isViewTree_nodeOf (condition : List Char) {branches : List ViewNode}
    (hbranches : AreBranches branches)
    (h : ∀ child ∈ branches, child.Everywhere (IsShaped st custom)) :
    IsViewTree st custom (Conditional.nodeOf condition branches) := by
  refine ⟨NodeKind.noConfusion, ViewNode.everywhere_of_children ?_ h⟩
  have hname : (Conditional.nodeOf condition branches).name.toList = "if ".toList ++ condition := by
    simp [Conditional.nodeOf]
  constructor
  · intro hempty
    rw [hempty] at hname
    cases hname
  · exact fun _ => ⟨hname ▸ List.prefix_append _ _, rfl, rfl, hbranches⟩
  · exact fun hkind => NodeKind.noConfusion hkind
  · exact fun hkind => absurd rfl hkind
  · exact fun hkind => absurd rfl hkind
  · exact fun hkind => absurd rfl hkind
  · exact fun hkind => NodeKind.noConfusion hkind

theorem isViewTree_conditional {c : Conditional}
    (h : ∀ block ∈ c.blocks, ∀ node ∈ forest block, IsViewTree st custom node) :
    IsViewTree st custom (c.node forest) := by
  induction c with
  | plain condition block | unfinished condition block =>
    apply isViewTree_nodeOf condition (.plain rfl rfl)
    intro child hc
    rw [List.mem_singleton.1 hc]
    exact everywhere_branch (by decide) (h block List.mem_cons_self)
  | alternative condition block otherwise =>
    simp only [Conditional.blocks, List.forall_mem_cons] at h
    apply isViewTree_nodeOf condition (.alternative rfl rfl rfl rfl)
    simp only [List.forall_mem_cons]
    exact ⟨everywhere_branch (by decide) h.1, everywhere_branch (by decide) h.2.1,
      List.forall_mem_nil _⟩
  | chain condition block next ih =>
    simp only [Conditional.blocks, List.forall_mem_cons] at h
    apply isViewTree_nodeOf condition (.alternative rfl rfl rfl rfl)
    simp only [List.forall_mem_cons]
    refine ⟨everywhere_branch (by decide) h.1, everywhere_branch (by decide) ?_,
      List.forall_mem_nil _⟩
    intro child hc
    rw [List.mem_singleton.1 hc]
    exact ih h.2

theorem Element.name_withTrailing (name arguments : List Char) (content : List (List Char))
    (s : List Char) : (withTrailing name arguments content s).name = name := by
  unfold withTrailing
  split
  · split <;> rfl
  · rfl

theorem Element.name_readAfterName (name s : List Char) : (readAfterName name s).name = name := by
  unfold readAfterName
  split
  · split
    · rfl
    · exact name_withTrailing _ _ _ _
  · exact name_withTrailing _ _ _ _

theorem Element.name_read_ne_nil (text : List Char) : (read text).name ≠ [] := by
  rw [read, name_readAfterName, nameOf]
  split
  · decide
  · exact List.cons_ne_nil _ _

theorem isNameCharacter_of_mem_nameOf {s : List Char} {c : Char} (h : c ∈ Element.nameOf s) :
    Element.isNameCharacter c = true := by
  rw [Element.nameOf] at h
  split at h
  · have hview : "View".toList.all Element.isNameCharacter = true := by decide
    exact List.all_eq_true.1 hview c h
  · next d rest htake =>
    rw [← htake] at h
    exact List.all_eq_true.1 List.all_takeWhile c h

theorem classify_ne_branching (st : Settings) (name : String) :
    st.classify name ≠ .conditional ∧ st.classify name ≠ .branch := by
  unfold Settings.classify
  split
  · simp
  · split <;> simp

theorem classify_forEach_iff {name : String} :
    st.classify name = .forEach ↔ name = "ForEach" := by
  unfold Settings.classify
  split
  · next heach => simp [heach]
  · next heach => split <;> simp [heach]

theorem classify_container_iff {name : String} (h : st.classify name ≠ .forEach) :
    st.classify name = .container ↔ name ∈ st.containerTypes := by
  rw [Settings.classify, if_neg (mt classify_forEach_iff.2 h)]
  simp

theorem isViewTree_element (text : List Char)
    (h : ∀ block ∈ (Element.read text).blocks, ∀ node ∈ forest block, IsViewTree st custom node) :
    IsViewTree st custom ((Element.read text).node st forest) := by
  have hchildren : ∀ child ∈ (Element.read text).blocks.flatMap forest,
      IsViewTree st custom child := by
    intro child hc
    obtain ⟨block, hb, hc⟩ := List.mem_flatMap.1 hc
    exact h block hb child hc
  obtain ⟨hconditional, hbranch⟩ :=
    classify_ne_branching st (String.ofList (Element.read text).name)
  refine ⟨hbranch, ViewNode.everywhere_of_children ?_ fun child hc => (hchildren child hc).shaped⟩
  constructor
  · intro hempty
    have hlist := congrArg String.toList hempty
    rw [Element.node, String.toList_ofList] at hlist
    exact Element.name_read_ne_nil text hlist
  · exact fun h => absurd h hconditional
  · exact fun h => absurd h hbranch
  · exact fun _ child hc => (hchildren child hc).root
  · exact fun _ _ => classify_forEach_iff
  · exact fun _ _ => classify_container_iff
  · exact fun h => absurd h (classify_ne_customView st _)

theorem isViewTree_parseBlock (st : Settings) (custom : String → Prop) (body : List Char) :
    ∀ node ∈ parseBlock st body, IsViewTree st custom node := by
  apply forall_mem_parseBlock
  intro _ s _ h
  cases s with
  | expression text => exact isViewTree_element text h
  | conditional c => exact isViewTree_conditional h

/-- The names that may be expanded: those declared and not reserved. -/
def Declarations.Expandable (ds : Declarations) (st : Settings) (name : String) : Prop :=
  name ∈ ds.names ∧ st.isReserved name = false

/-- Only views are replaced, so the kinds that have to do with conditionals stay. -/
theorem resolve_kind {kind : NodeKind} (hview : kind ≠ .view) (hcustom : kind ≠ .customView)
    (progress : List String) (node : ViewNode) :
    (resolve st ds progress node).kind = kind ↔ node.kind = kind := by
  cases hu : node.isUse st ds with
  | false => rw [resolve_kept hu]
  | true =>
    have hkind := (ViewNode.isUse_iff.1 hu).1
    by_cases hp : node.name ∈ progress
    · rw [resolve_marked hu hp]
      rfl
    · rw [resolve_expanded hu hp, hkind]
      simp [hview.symm, hcustom.symm]

theorem AreBranches.resolve {nodes : List ViewNode} (h : AreBranches nodes)
    (progress : List String) : AreBranches (nodes.map (resolve st ds progress)) := by
  have hkind : ∀ node : ViewNode, node.kind = .branch →
      (ViewHierarchy.resolve st ds progress node).kind = .branch := by
    intro node hnode
    exact (resolve_kind NodeKind.noConfusion NodeKind.noConfusion progress node).2 hnode
  cases h with
  | plain hk hn => exact .plain (hkind _ hk) ((resolve_name _ _).trans hn)
  | alternative hk hn hk' hn' =>
    exact .alternative (hkind _ hk) ((resolve_name _ _).trans hn) (hkind _ hk')
      ((resolve_name _ _).trans hn')

theorem resolve_ne_branch {nodes : List ViewNode} (h : ∀ node ∈ nodes, node.kind ≠ .branch)
    (progress : List String) :
    ∀ node ∈ nodes.map (resolve st ds progress), node.kind ≠ .branch := by
  intro node hn
  obtain ⟨origin, ho, rfl⟩ := List.mem_map.1 hn
  intro hkind
  exact h origin ho ((resolve_kind NodeKind.noConfusion NodeKind.noConfusion _ _).1 hkind)

/-- A node that was read keeps its shape, whether it is kept, marked or expanded. -/
theorem IsShaped.resolve (h : IsShaped st (fun _ => False) node) (progress : List String) :
    IsShaped st (ds.Expandable st) (resolve st ds progress node) := by
  cases hu : node.isUse st ds with
  | false =>
    rw [resolve_kept hu]
    constructor
    · exact h.named
    · intro hkind
      obtain ⟨hname, hprops, hmodifiers, hbranches⟩ := h.conditional hkind
      exact ⟨hname, hprops, hmodifiers, hbranches.resolve progress⟩
    · exact h.branch
    · exact fun hkind => resolve_ne_branch (h.branches hkind) progress
    · exact h.forEach
    · exact h.container
    · exact fun hkind => (h.expanded hkind).elim
  | true =>
    obtain ⟨hkind, hleaf, hdeclared, hreserved⟩ := ViewNode.isUse_iff.1 hu
    have heach := h.forEach (by simp [hkind]) (by simp [hkind])
    have hcontainer := h.container (by simp [hkind]) (by simp [hkind]) (by simp [hkind])
    rw [hkind] at heach hcontainer
    by_cases hp : node.name ∈ progress
    · rw [resolve_marked hu hp]
      constructor
      · exact h.named
      · exact fun hk => NodeKind.noConfusion (hkind.symm.trans hk)
      · exact fun hk => NodeKind.noConfusion (hkind.symm.trans hk)
      · intro _ child hc
        rw [ViewNode.addModifier, hleaf] at hc
        cases hc
      · exact h.forEach
      · exact h.container
      · exact fun hk => NodeKind.noConfusion (hkind.symm.trans hk)
    · rw [resolve_expanded hu hp]
      constructor
      · exact h.named
      · exact fun hk => NodeKind.noConfusion hk
      · exact fun hk => NodeKind.noConfusion hk
      · intro _
        apply resolve_ne_branch
        exact fun child hc => (isViewTree_parseBlock st (fun _ => False) _ child hc).root
      · exact fun _ _ => ⟨fun hk => NodeKind.noConfusion hk,
          fun hn => NodeKind.noConfusion (heach.2 hn)⟩
      · exact fun _ _ _ => ⟨fun hk => NodeKind.noConfusion hk,
          fun hn => NodeKind.noConfusion (hcontainer.2 hn)⟩
      · exact fun _ => ⟨hdeclared, hreserved⟩

theorem IsViewTree.resolve (h : IsViewTree st (fun _ => False) node) (progress : List String) :
    IsViewTree st (ds.Expandable st) (resolve st ds progress node) := by
  constructor
  · intro hkind
    exact h.root ((resolve_kind NodeKind.noConfusion NodeKind.noConfusion _ _).1 hkind)
  · apply everywhere_resolve _ (fun progress _ hn => hn.resolve progress) progress node h.shaped
    intro name child hc
    exact (isViewTree_parseBlock st _ _ child hc).shaped

/-- Reading gives trees of views with nothing expanded, and so does building, but for expanded
declarations and for the group around a body of several views, whose name need not be that of a
container. -/
theorem isViewTree_read_built (st : Settings) :
    (∀ body, ∀ node ∈ parseBlock st body, IsViewTree st (fun _ => False) node) ∧
      ∀ ds root tree, buildTree st ds root = some tree →
        ((ds.forest st root).length = 1 ∧ IsViewTree st (ds.Expandable st) tree) ∨
          (1 < (ds.forest st root).length ∧ ∃ children,
            tree = ⟨"Group", .container, [], [], children⟩ ∧
              ∀ child ∈ children, IsViewTree st (ds.Expandable st) child) := by
  refine ⟨isViewTree_parseBlock st _, ?_⟩
  intro ds root tree h
  obtain ⟨node, hnode, rfl⟩ := Option.map_eq_some_iff.1 h
  have hforest : ∀ node ∈ ds.forest st root, IsViewTree st (fun _ => False) node :=
    isViewTree_parseBlock st _ _
  cases hf : ds.forest st root with
  | nil => rw [hf] at hnode; cases hnode
  | cons first rest =>
    rw [hf] at hnode hforest
    cases rest with
    | nil =>
      cases hnode
      exact .inl ⟨rfl, (hforest _ List.mem_cons_self).resolve _⟩
    | cons second rest =>
      cases hnode
      refine .inr ⟨by simp, _, resolve_kept rfl, ?_⟩
      intro child hc
      obtain ⟨origin, ho, rfl⟩ := List.mem_map.1 hc
      exact (hforest origin ho).resolve _

theorem isViewTree_mutualTree :
    IsViewTree .default (mutualViews.Expandable .default) mutualTree := by
  have hbuilt := (isViewTree_read_built .default).2 mutualViews "A" mutualTree buildTree_mutualViews
  rcases hbuilt with h | h
  · exact h.2
  · rw [forest_mutualViews.1] at h
    exact absurd h.1 (by decide)

end ViewHierarchy
