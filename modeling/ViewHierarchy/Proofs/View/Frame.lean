import ViewHierarchy.Proofs.View.Place
import ViewHierarchy.Proofs.View.Resolution

/-! What resolution leaves as it was. The nodes of a tree keep their places, and only uses of
declared views change; all that is new stands below a use that was expanded. -/
namespace ViewHierarchy

variable {st : Settings} {ds : Declarations} {progress : List String} {node before after : ViewNode}
  {place : List Nat}

/-- What becomes of a node, the nodes below it apart. -/
structure IsChange (st : Settings) (ds : Declarations) (progress : List String)
    (before after : ViewNode) : Prop where
  name : after.name = before.name
  props : after.props = before.props
  kept : before.isUse st ds = false → after.kind = before.kind ∧
    after.modifiers = before.modifiers ∧ after.children.length = before.children.length
  marked : before.isUse st ds = true → before.name ∈ progress → after.kind = before.kind ∧
    after.modifiers = before.modifiers ++ [st.recursionMarker] ∧ after.children = []
  expanded : before.isUse st ds = true → before.name ∉ progress → after.kind = .customView ∧
    after.modifiers = before.modifiers ∧
    after.children =
      (ds.forest st before.name).map (resolve st ds (before.name :: progress))

theorem isChange_resolve (progress : List String) (node : ViewNode) :
    IsChange st ds progress node (resolve st ds progress node) := by
  refine ⟨resolve_name progress node, ?_, fun hu => ?_, fun hu hp => ?_, fun hu hp => ?_⟩
  · cases hu : node.isUse st ds with
    | false => rw [resolve_kept hu]
    | true =>
      by_cases hp : node.name ∈ progress
      · rw [resolve_marked hu hp, ViewNode.addModifier]
      · rw [resolve_expanded hu hp]
  · rw [resolve_kept hu]
    exact ⟨rfl, rfl, List.length_map _⟩
  · rw [resolve_marked hu hp]
    exact ⟨rfl, rfl, (ViewNode.isUse_iff.1 hu).2.1⟩
  · rw [resolve_expanded hu hp]
    exact ⟨rfl, rfl, rfl⟩

theorem descendant?_cons {i : Nat} :
    node.descendant? (i :: place) = some after ↔
      ∃ child, node.children[i]? = some child ∧ child.descendant? place = some after :=
  Option.bind_eq_some_iff

theorem isUse_eq_false_of_child {child : ViewNode} {i : Nat} (h : node.children[i]? = some child) :
    node.isUse st ds = false := by
  rw [← Bool.not_eq_true]
  intro hu
  rw [(ViewNode.isUse_iff.1 hu).2.1] at h
  cases h

/-- The nodes above a node are no uses, so it is resolved with the names that were in progress. -/
theorem descendant?_resolve (h : node.descendant? place = some before) :
    (resolve st ds progress node).descendant? place = some (resolve st ds progress before) := by
  induction place generalizing node with
  | nil =>
    cases h
    rfl
  | cons i place ih =>
    obtain ⟨child, hc, hplace⟩ := descendant?_cons.1 h
    rw [resolve_kept (isUse_eq_false_of_child hc)]
    refine descendant?_cons.2 ⟨resolve st ds progress child, ?_, ih hplace⟩
    rw [List.getElem?_map, hc, Option.map_some]

/-- A node of the resolved tree stands where a node stood before, or below an expanded use. -/
theorem descendant?_of_resolve (h : (resolve st ds progress node).descendant? place = some after) :
    (∃ before, node.descendant? place = some before) ∨
      ∃ above i rest use, place = above ++ i :: rest ∧ node.descendant? above = some use ∧
        use.isUse st ds = true ∧ use.name ∉ progress := by
  induction place generalizing node with
  | nil => exact .inl ⟨node, rfl⟩
  | cons i place ih =>
    obtain ⟨child, hc, hplace⟩ := descendant?_cons.1 h
    cases hu : node.isUse st ds with
    | false =>
      rw [resolve_kept hu, List.getElem?_map] at hc
      obtain ⟨origin, ho, rfl⟩ := Option.map_eq_some_iff.1 hc
      rcases ih hplace with ⟨before, hb⟩ | ⟨above, j, rest, use, rfl, huse⟩
      · exact .inl ⟨before, descendant?_cons.2 ⟨origin, ho, hb⟩⟩
      · obtain ⟨ha, huse⟩ := huse
        exact .inr ⟨i :: above, j, rest, use, rfl, descendant?_cons.2 ⟨origin, ho, ha⟩, huse⟩
    | true =>
      by_cases hp : node.name ∈ progress
      · rw [resolve_marked hu hp, ViewNode.addModifier, (ViewNode.isUse_iff.1 hu).2.1] at hc
        cases hc
      · exact .inr ⟨[], i, place, node, rfl, rfl, hu, hp⟩

/-- Resolution only adds: every node stays at its place among its siblings with its name, its
properties and its modifiers; a use is expanded, or marked if its name is in progress, and nothing
else changes. What stands at a new place stands below an expanded use. -/
theorem resolve_only_adds (st : Settings) (ds : Declarations) (progress : List String)
    (node : ViewNode) :
    (∀ place before, node.descendant? place = some before →
        ∃ after, (resolve st ds progress node).descendant? place = some after ∧
          IsChange st ds progress before after) ∧
      ∀ place after, (resolve st ds progress node).descendant? place = some after →
        (∃ before, node.descendant? place = some before ∧ IsChange st ds progress before after) ∨
          ∃ above i rest use, place = above ++ i :: rest ∧ node.descendant? above = some use ∧
            use.isUse st ds = true ∧ use.name ∉ progress := by
  constructor
  · intro place before h
    exact ⟨_, descendant?_resolve h, isChange_resolve progress before⟩
  · intro place after h
    rcases descendant?_of_resolve h with ⟨before, hb⟩ | hnew
    · have hafter := (descendant?_resolve hb).symm.trans h
      cases hafter
      exact .inl ⟨before, hb, isChange_resolve progress before⟩
    · exact .inr hnew

/-- Uses of two views side by side. -/
def stackOfUses : ViewNode :=
  ⟨"VStack", .container, [], ["padding()"],
    [⟨"A", .view, ["x"], [], []⟩, ⟨"B", .view, [], ["bold()"], []⟩]⟩

/-- With one of the names in progress, its use is marked and the other one expanded. -/
theorem resolve_stackOfUses : resolve .default mutualViews ["B"] stackOfUses =
    ⟨"VStack", .container, [], ["padding()"],
      [⟨"A", .customView, ["x"], [], [⟨"B", .view, [], ["/* recursion */"], []⟩]⟩,
        ⟨"B", .view, [], ["bold()", "/* recursion */"], []⟩]⟩ := by
  have hkept : stackOfUses.isUse .default mutualViews = false := by decide
  rw [resolve_kept hkept, stackOfUses, List.map_cons, List.map_singleton,
    resolve_expanded (by decide) (by decide), forest_mutualViews.1, List.map_singleton,
    resolve_marked (by decide) (by decide), resolve_marked (by decide) (by decide)]
  rfl

theorem resolve_only_adds_stackOfUses :
    (stackOfUses.descendant? [1] = some ⟨"B", .view, [], ["bold()"], []⟩ ∧
      ∃ after, (resolve .default mutualViews ["B"] stackOfUses).descendant? [1] = some after ∧
        IsChange .default mutualViews ["B"] ⟨"B", .view, [], ["bold()"], []⟩ after) ∧
      (resolve .default mutualViews ["B"] stackOfUses).descendant? [0, 0] =
          some ⟨"B", .view, [], ["/* recursion */"], []⟩ ∧
        ∃ above i rest use, [0, 0] = above ++ i :: rest ∧
          stackOfUses.descendant? above = some use ∧
          use.isUse .default mutualViews = true ∧ use.name ∉ ["B"] := by
  obtain ⟨hold, hnew⟩ := resolve_only_adds .default mutualViews ["B"] stackOfUses
  have hmarked : (resolve .default mutualViews ["B"] stackOfUses).descendant? [0, 0] =
      some ⟨"B", .view, [], ["/* recursion */"], []⟩ := by
    rw [resolve_stackOfUses]
    rfl
  refine ⟨⟨rfl, hold [1] _ rfl⟩, hmarked, ?_⟩
  rcases hnew [0, 0] _ hmarked with ⟨before, hbefore, -⟩ | hbelow
  · cases hbefore
  · exact hbelow

end ViewHierarchy
