import ViewHierarchy.View.Block

/-! Paths from the root of a tree to its nodes, and what holds everywhere in a tree. -/
namespace ViewHierarchy

namespace ViewNode

/-- The node stands in the tree below the nodes `above`, which are given from the root down. -/
inductive Reaches : ViewNode → List ViewNode → ViewNode → Prop
  | here (tree : ViewNode) : Reaches tree [] tree
  | under {tree child node above} : child ∈ tree.children → Reaches child above node →
      Reaches tree (tree :: above) node

def Everywhere (P : ViewNode → Prop) (tree : ViewNode) : Prop :=
  ∀ above node, tree.Reaches above node → P node

theorem Everywhere.root {P : ViewNode → Prop} {tree : ViewNode} (h : tree.Everywhere P) : P tree :=
  h [] tree (.here tree)

theorem Everywhere.child {P : ViewNode → Prop} {tree child : ViewNode} (h : tree.Everywhere P)
    (hc : child ∈ tree.children) : child.Everywhere P :=
  fun above node hn => h (tree :: above) node (.under hc hn)

theorem everywhere_of_children {P : ViewNode → Prop} {tree : ViewNode} (h : P tree)
    (hc : ∀ child ∈ tree.children, child.Everywhere P) : tree.Everywhere P := by
  intro above node hn
  cases hn with
  | here => exact h
  | under hm hn => exact hc _ hm _ node hn

theorem everywhere_iff {P : ViewNode → Prop} {tree : ViewNode} :
    tree.Everywhere P ↔ P tree ∧ ∀ child ∈ tree.children, child.Everywhere P :=
  ⟨fun h => ⟨h.root, fun _ hc => h.child hc⟩, fun h => everywhere_of_children h.1 h.2⟩

mutual

theorem Everywhere.walk {P : ViewNode → Prop} :
    ∀ {tree : ViewNode}, tree.Everywhere P → ∀ node ∈ tree.walk, P node
  | ⟨name, kind, props, modifiers, children⟩, h, node, hn => by
    rw [ViewNode.walk] at hn
    rcases List.mem_cons.1 hn with rfl | hn
    · exact h.root
    · exact forall_mem_walkForest (fun child hc => h.child hc) node hn

theorem forall_mem_walkForest {P : ViewNode → Prop} : ∀ {nodes : List ViewNode},
    (∀ child ∈ nodes, child.Everywhere P) → ∀ node ∈ walkForest nodes, P node
  | [], _, node, hn => by cases hn
  | child :: rest, h, node, hn => by
    obtain ⟨hchild, hrest⟩ := List.forall_mem_cons.1 h
    rw [walkForest] at hn
    rcases List.mem_append.1 hn with hn | hn
    · exact hchild.walk node hn
    · exact forall_mem_walkForest hrest node hn

end

end ViewNode

/-- What holds of every node that reading can make, whatever its children. -/
structure HoldsOfParts (st : Settings) (P : ViewNode → Prop) : Prop where
  branch : ∀ name children, P (.branch name children)
  conditional : ∀ condition branches, P (Conditional.nodeOf condition branches)
  element : ∀ (e : Element) (forest : List Char → List ViewNode), P (e.node st forest)

variable {st : Settings} {P : ViewNode → Prop}

theorem HoldsOfParts.everywhere_branch (hP : HoldsOfParts st P) (name : String)
    {children : List ViewNode} (h : ∀ node ∈ children, node.Everywhere P) :
    (ViewNode.branch name children).Everywhere P :=
  ViewNode.everywhere_of_children (hP.branch name children) h

theorem HoldsOfParts.everywhere_nodeOf (hP : HoldsOfParts st P) (condition : List Char)
    {branches : List ViewNode} (h : ∀ node ∈ branches, node.Everywhere P) :
    (Conditional.nodeOf condition branches).Everywhere P :=
  ViewNode.everywhere_of_children (hP.conditional condition branches) h

theorem HoldsOfParts.everywhere_conditional (hP : HoldsOfParts st P)
    {forest : List Char → List ViewNode} {c : Conditional}
    (h : ∀ block ∈ c.blocks, ∀ node ∈ forest block, node.Everywhere P) :
    (c.node forest).Everywhere P := by
  induction c with
  | plain condition block =>
    apply hP.everywhere_nodeOf
    intro node hn
    rw [List.mem_singleton.1 hn]
    exact hP.everywhere_branch _ (h block (List.mem_singleton_self block))
  | unfinished condition block =>
    apply hP.everywhere_nodeOf
    intro node hn
    rw [List.mem_singleton.1 hn]
    exact hP.everywhere_branch _ (h block (List.mem_singleton_self block))
  | alternative condition block otherwise =>
    simp only [Conditional.blocks, List.forall_mem_cons] at h
    apply hP.everywhere_nodeOf
    simp only [List.forall_mem_cons]
    exact ⟨hP.everywhere_branch _ h.1, hP.everywhere_branch _ h.2.1,
      List.forall_mem_nil _⟩
  | chain condition block next ih =>
    simp only [Conditional.blocks, List.forall_mem_cons] at h
    apply hP.everywhere_nodeOf
    simp only [List.forall_mem_cons]
    refine ⟨hP.everywhere_branch _ h.1, hP.everywhere_branch _ ?_,
      List.forall_mem_nil _⟩
    intro node hn
    rw [List.mem_singleton.1 hn]
    exact ih h.2

theorem HoldsOfParts.everywhere_sibling (hP : HoldsOfParts st P)
    {forest : List Char → List ViewNode} {s : Sibling}
    (h : ∀ block ∈ s.blocks, ∀ node ∈ forest block, node.Everywhere P) :
    (s.node st forest).Everywhere P := by
  cases s with
  | expression text =>
    apply ViewNode.everywhere_of_children (hP.element (Element.read text) forest)
    intro node hn
    obtain ⟨block, hb, hn⟩ := List.mem_flatMap.1 hn
    exact h block hb node hn
  | conditional c => exact hP.everywhere_conditional h

/-- What every sibling takes over from the views of its blocks holds of all views. -/
theorem forall_mem_parseBlock {Q : ViewNode → Prop}
    (h : ∀ body, ∀ s ∈ siblings body,
      (∀ block ∈ s.blocks, ∀ node ∈ parseBlock st block, Q node) → Q (s.node st (parseBlock st)))
    (body : List Char) : ∀ node ∈ parseBlock st body, Q node := by
  intro node hn
  rw [parseBlock_eq] at hn
  obtain ⟨s, hs, rfl⟩ := List.mem_map.1 hn
  apply h body s hs
  intro block hb
  have hlt := Sibling.length_of_mem_blocks hs hb
  exact forall_mem_parseBlock h block
termination_by body.length

/-- What holds of all parts holds everywhere in the views of a block. -/
theorem HoldsOfParts.everywhere_parseBlock (hP : HoldsOfParts st P) (body : List Char) :
    ∀ node ∈ parseBlock st body, node.Everywhere P :=
  forall_mem_parseBlock (fun _ _ _ h => hP.everywhere_sibling h) body

end ViewHierarchy
