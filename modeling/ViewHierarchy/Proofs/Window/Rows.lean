import ViewHierarchy.Proofs.View.Place

/-! The rows of the tree view mirror the tree, and every row stands at a place of its own that leads
back to its node. -/
namespace ViewHierarchy

/-- What a row tells behind the name about the number of children. -/
def childSuffix (n : Nat) : String :=
  if n = 0 then "" else "  · " ++ toString n ++ if n = 1 then " child" else " children"

theorem rowLabel_eq (node : ViewNode) :
    node.rowLabel = node.name ++ childSuffix node.children.length := by
  rw [ViewNode.rowLabel]
  split
  · next h => rw [h, childSuffix, if_pos rfl, String.append_empty]
  · next h =>
    rw [h]
    rfl
  · next n hzero hone =>
    rw [childSuffix, if_neg hzero, if_neg hone, String.append_assoc, String.append_assoc,
      String.append_assoc]

/-- A row that shows a node at a depth. -/
structure IsRowOf (st : Settings) (depth : Nat) (node : ViewNode) (row : TreeRow) : Prop where
  depth : row.depth = depth
  label : row.label = node.name ++ childSuffix node.children.length
  kind : row.kind = node.kind
  badge : row.badge = Badge.ofNode node
  flagged : row.flagged = true ↔ st.recursionMarker ∈ node.modifiers

theorem isRowOf_row (st : Settings) (depth : Nat) (node : ViewNode) :
    IsRowOf st depth node (node.row st depth) where
  depth := rfl
  label := rowLabel_eq node
  kind := rfl
  badge := rfl
  flagged := decide_eq_true_iff

mutual

/-- The rows of a tree at a depth: a row for its root, and behind it the rows of its children. -/
inductive Mirrors (st : Settings) : Nat → ViewNode → List TreeRow → Prop
  | node {depth node row rows} : IsRowOf st depth node row →
      MirrorsAll st (depth + 1) node.children rows → Mirrors st depth node (row :: rows)

inductive MirrorsAll (st : Settings) : Nat → List ViewNode → List TreeRow → Prop
  | nil {depth} : MirrorsAll st depth [] []
  | cons {depth node nodes rows more} : Mirrors st depth node rows →
      MirrorsAll st depth nodes more → MirrorsAll st depth (node :: nodes) (rows ++ more)

end

/-- The row at a place. -/
def rowAt (st : Settings) (item : List Nat × ViewNode) : TreeRow :=
  item.2.row st (item.1.length - 1)

namespace ViewNode

mutual

theorem mirrors_places (st : Settings) {place : List Nat} {depth : Nat}
    (h : place.length = depth + 1) :
    ∀ node : ViewNode, Mirrors st depth node ((node.places place).map (rowAt st))
  | ⟨name, kind, props, modifiers, children⟩ => by
    rw [places, List.map_cons]
    apply Mirrors.node
    · rw [rowAt, h, Nat.add_sub_cancel]
      exact isRowOf_row st depth _
    · exact mirrorsAll_placesForest st h 0 children

theorem mirrorsAll_placesForest (st : Settings) {place : List Nat} {depth : Nat}
    (h : place.length = depth + 1) (row : Nat) : ∀ nodes : List ViewNode,
    MirrorsAll st (depth + 1) nodes ((placesForest place row nodes).map (rowAt st))
  | [] => .nil
  | node :: rest => by
    have hplace : (place ++ [row]).length = depth + 1 + 1 := by
      rw [List.length_append, h, List.length_singleton]
    rw [placesForest, List.map_append]
    exact .cons (mirrors_places st hplace node) (mirrorsAll_placesForest st h (row + 1) rest)

end

end ViewNode

namespace Window

variable {st : Settings} {w : Window} {tree : ViewNode}

/-- The items of the tree view are those of the tree of the window. -/
def IsFilled (w : Window) : Prop := w.items = w.tree.elim [] (ViewNode.places [0])

theorem isFilled_of_tree_eq_none (h : w.tree = none) : w.IsFilled ↔ w.items = [] := by
  rw [IsFilled, h]
  rfl

theorem IsFilled.items_eq (h : w.IsFilled) (htree : w.tree = some tree) :
    w.items = tree.places [0] := by
  rw [h, htree]
  rfl

/-- No two items stand at the same place. -/
theorem IsFilled.nodup (h : w.IsFilled) : (w.items.map Prod.fst).Nodup := by
  rw [h]
  cases w.tree with
  | none => exact List.nodup_nil
  | some tree => exact tree.nodup_places [0]

/-- Every item leads to its own node. -/
theorem IsFilled.lookup (h : w.IsFilled) {item : List Nat × ViewNode} (hmem : item ∈ w.items) :
    w.items.lookup item.1 = some item.2 := by
  obtain ⟨before, after, hitems⟩ := List.append_of_mem hmem
  have hnodup := h.nodup
  rw [hitems, List.map_append, List.nodup_append] at hnodup
  refine List.lookup_eq_some_iff.2 ⟨before, after, hitems, fun other hother => ?_⟩
  exact bne_iff_ne.2 (hnodup.2.2 _ (List.mem_map_of_mem hother) _ List.mem_cons_self).symm

theorem IsFilled.shown_select (h : w.IsFilled) {item : List Nat × ViewNode}
    (hmem : item ∈ w.items) : (w.select item.1).shown = some item.2 := by
  rw [select, h.lookup hmem]

/-- The tree view shows the tree of the window: its rows mirror the tree, its items stand at
different places, and every row has an item that leads to the node of the row, and a click on it
shows the details of that node. -/
structure Displays (st : Settings) (w : Window) (rows : List TreeRow) : Prop where
  empty : w.tree = none → rows = [] ∧ w.items = []
  mirrors : ∀ tree, w.tree = some tree → Mirrors st 0 tree rows
  distinct : (w.items.map Prod.fst).Nodup
  items : ∀ tree, w.tree = some tree → w.items = tree.places [0] ∧
    ∀ (k : Nat) (row : TreeRow), rows[k]? = some row →
      ∃ place node, w.items[k]? = some (place, node) ∧ tree.walk[k]? = some node ∧
        IsRowOf st (place.length - 1) node row ∧ w.items.lookup place = some node ∧
        (w.select place).shown = some node

theorem rows_eq (st : Settings) (w : Window) : w.rows st = w.items.map (rowAt st) := rfl

theorem IsFilled.displays (h : w.IsFilled) (st : Settings) : Displays st w (w.rows st) where
  empty hnone := by
    have hitems := (isFilled_of_tree_eq_none hnone).1 h
    rw [rows_eq, hitems]
    exact ⟨rfl, rfl⟩
  mirrors tree htree := by
    rw [rows_eq, h.items_eq htree]
    exact tree.mirrors_places st rfl
  distinct := h.nodup
  items tree htree := by
    refine ⟨h.items_eq htree, fun k row hk => ?_⟩
    rw [rows_eq, List.getElem?_map] at hk
    obtain ⟨⟨place, node⟩, hitem, rfl⟩ := Option.map_eq_some_iff.1 hk
    have hmem := List.mem_of_getElem? hitem
    refine ⟨place, node, hitem, ?_, isRowOf_row st _ node, h.lookup hmem, h.shown_select hmem⟩
    rw [h.items_eq htree] at hitem
    rw [← tree.map_snd_places [0], List.getElem?_map, hitem, Option.map_some]

end Window

end ViewHierarchy
