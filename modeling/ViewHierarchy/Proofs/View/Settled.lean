import ViewHierarchy.Proofs.View.Resolution

/-! Resolving a tree again. A tree in which no use is left stays as it is, and a resolution leaves
uses behind just where it marks them. -/
namespace ViewHierarchy

/-- Resolution comes to a use whose name is in progress, and marks it. -/
inductive Marks (st : Settings) (ds : Declarations) : List String → ViewNode → Prop
  | here {progress node} : node.isUse st ds = true → node.name ∈ progress →
      Marks st ds progress node
  | under {progress node child} : node.isUse st ds = false → child ∈ node.children →
      Marks st ds progress child → Marks st ds progress node
  | inside {progress node child} : node.isUse st ds = true → node.name ∉ progress →
      child ∈ ds.forest st node.name → Marks st ds (node.name :: progress) child →
      Marks st ds progress node

variable {st : Settings} {ds : Declarations} {progress : List String} {node tree : ViewNode}

theorem marks_kept (hu : node.isUse st ds = false) :
    Marks st ds progress node ↔ ∃ child ∈ node.children, Marks st ds progress child := by
  constructor
  · intro h
    cases h with
    | here hu' _ => cases hu.symm.trans hu'
    | under _ hc hm => exact ⟨_, hc, hm⟩
    | inside hu' _ _ _ => cases hu.symm.trans hu'
  · rintro ⟨child, hc, hm⟩
    exact .under hu hc hm

theorem marks_expanded (hu : node.isUse st ds = true) (hp : node.name ∉ progress) :
    Marks st ds progress node ↔
      ∃ child ∈ ds.forest st node.name, Marks st ds (node.name :: progress) child := by
  constructor
  · intro h
    cases h with
    | here _ hp' => exact absurd hp' hp
    | under hu' _ _ => cases hu.symm.trans hu'
    | inside _ _ hc hm => exact ⟨_, hc, hm⟩
  · rintro ⟨child, hc, hm⟩
    exact .inside hu hp hc hm

section Reports

variable {name : String} {inner : List Char → List Diagnostic}

theorem recursiveUse_notMem_conditional (h : ∀ block, .recursiveUse name ∉ inner block)
    (c : Conditional) : .recursiveUse name ∉ c.diagnostics inner := by
  induction c with
  | plain condition block => exact h block
  | unfinished condition block => simp [Conditional.diagnostics, h]
  | alternative condition block otherwise => simp [Conditional.diagnostics, h]
  | chain condition block next ih => simp [Conditional.diagnostics, h, ih]

theorem recursiveUse_notMem_element (h : ∀ block, .recursiveUse name ∉ inner block)
    (e : Element) : .recursiveUse name ∉ e.diagnostics inner := by
  simp only [Element.diagnostics, List.mem_append, List.mem_flatMap, h, and_false, exists_false,
    or_false, not_or]
  constructor <;> split <;> simp

/-- Reading a block reports no recursion. -/
theorem recursiveUse_notMem_block (name : String) (body : List Char) :
    .recursiveUse name ∉ blockDiagnostics body := by
  rw [blockDiagnostics]
  have hinner : ∀ block, .recursiveUse name ∉
      (if block.length < body.length then blockDiagnostics block else []) := by
    intro block
    split
    · exact recursiveUse_notMem_block name block
    · exact List.not_mem_nil
  simp only [siblingDiagnostics, expressionDiagnostics, List.mem_append, List.mem_flatMap, not_or,
    not_exists, not_and]
  constructor
  · intro s _
    cases s with
    | conditional c => exact recursiveUse_notMem_conditional hinner c
    | expression text => exact List.not_mem_nil
  · intro s _
    cases s with
    | conditional c => exact List.not_mem_nil
    | expression text => exact recursiveUse_notMem_element hinner _
termination_by body.length

theorem resolveForestDiagnostics_eq (st : Settings) (ds : Declarations) (progress : List String)
    (nodes : List ViewNode) :
    resolveForestDiagnostics st ds progress nodes =
      nodes.flatMap (resolveDiagnostics st ds progress) := by
  induction nodes with
  | nil => rw [resolveForestDiagnostics, List.flatMap_nil]
  | cons node rest ih => rw [resolveForestDiagnostics, List.flatMap_cons, ih]

/-- What is marked is reported. -/
theorem marks_iff_reported : Marks st ds progress node ↔
    ∃ name, .recursiveUse name ∈ resolveDiagnostics st ds progress node := by
  induction progress, node using resolve_induction st ds with
  | kept progress node hu ih =>
    have hno : ¬node.isUse st ds = true := by rw [hu]; exact Bool.false_ne_true
    rw [marks_kept hu, resolveDiagnostics, dif_neg hno, resolveForestDiagnostics_eq]
    simp only [List.mem_flatMap]
    rw [exists_comm]
    refine exists_congr fun child => ?_
    rw [exists_and_left]
    exact and_congr_right fun hc => ih child hc
  | marked progress node hu hp =>
    rw [resolveDiagnostics, dif_pos hu, dif_pos hp]
    exact ⟨fun _ => ⟨node.name, List.mem_singleton_self _⟩, fun _ => .here hu hp⟩
  | expanded progress node hu hp ih =>
    rw [marks_expanded hu hp, resolveDiagnostics, dif_pos hu, dif_neg hp,
      resolveForestDiagnostics_eq]
    simp only [List.mem_append, recursiveUse_notMem_block, false_or, List.mem_flatMap]
    rw [exists_comm]
    refine exists_congr fun child => ?_
    rw [exists_and_left]
    exact and_congr_right fun hc => ih child hc

end Reports

/-- No node of the tree stands for a declaration. -/
def ViewNode.IsSettled (st : Settings) (ds : Declarations) (tree : ViewNode) : Prop :=
  tree.Everywhere fun n => n.isUse st ds = false

/-- A resolved tree is settled just if nothing in it was marked. -/
theorem isSettled_resolve_iff :
    (resolve st ds progress node).IsSettled st ds ↔ ¬Marks st ds progress node := by
  induction progress, node using resolve_induction st ds with
  | kept progress node hu ih =>
    rw [ViewNode.IsSettled, ViewNode.everywhere_iff, ViewNode.isUse_resolve_kept hu, marks_kept hu,
      resolve_kept hu]
    simp only [true_and, List.forall_mem_map, not_exists, not_and]
    exact forall₂_congr ih
  | marked progress node hu hp =>
    refine ⟨fun h => ?_, fun h => absurd (.here hu hp) h⟩
    have hroot := h.root
    rw [resolve_marked hu hp] at hroot
    cases hu.symm.trans hroot
  | expanded progress node hu hp ih =>
    rw [ViewNode.IsSettled, ViewNode.everywhere_iff, marks_expanded hu hp, resolve_expanded hu hp]
    simp only [List.forall_mem_map, not_exists, not_and]
    exact (and_iff_right rfl).trans (forall₂_congr ih)

/-- Resolution leaves a tree as it is just if the tree is settled. -/
theorem resolve_eq_self_iff : resolve st ds progress tree = tree ↔ tree.IsSettled st ds := by
  induction progress, tree using resolve_induction st ds with
  | kept progress node hu ih =>
    have hchildren : { node with children := node.children.map (resolve st ds progress) } = node ↔
        node.children.map (resolve st ds progress) = node.children.map id := by
      cases node
      simp only [ViewNode.mk.injEq, true_and, List.map_id]
    rw [ViewNode.IsSettled, ViewNode.everywhere_iff, and_iff_right hu, resolve_kept hu, hchildren,
      List.map_inj_left]
    exact forall₂_congr ih
  | marked progress node hu hp =>
    refine ⟨fun h => ?_, fun h => ?_⟩
    · rw [resolve_marked hu hp] at h
      have hlength := congrArg (fun n => n.modifiers.length) h
      simp [ViewNode.addModifier] at hlength
    · cases hu.symm.trans h.root
  | expanded progress node hu hp ih =>
    refine ⟨fun h => ?_, fun h => ?_⟩
    · rw [resolve_expanded hu hp] at h
      cases (congrArg ViewNode.kind h).trans (ViewNode.isUse_iff.1 hu).1
    · cases hu.symm.trans h.root

/-- A resolution that marks no node is final: resolving its tree again, whatever names are in
progress then, changes nothing. One that marks a node is not final for any names. A node is marked
just if its recursion is reported. -/
theorem resolve_resolve_iff (st : Settings) (ds : Declarations) (progress again : List String)
    (node : ViewNode) :
    (resolve st ds again (resolve st ds progress node) = resolve st ds progress node ↔
        ¬Marks st ds progress node) ∧
      (Marks st ds progress node ↔
        ∃ name, .recursiveUse name ∈ resolveDiagnostics st ds progress node) :=
  ⟨resolve_eq_self_iff.trans isSettled_resolve_iff, marks_iff_reported⟩

end ViewHierarchy
