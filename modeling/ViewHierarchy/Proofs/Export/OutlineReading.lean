import ViewHierarchy.Export.Outline
import ViewHierarchy.Proofs.View.Legible
import ViewHierarchy.Proofs.View.Place

/-! The outline of a tree read back: one line for each node in the order of the walk, from which the
depth, the kind and the name of the node can be told, and with them the shape of the tree. -/
namespace ViewHierarchy
open Text

namespace ViewNode

/-- The line of a node at a place. -/
def lineAt (item : List Nat × ViewNode) : String :=
  indentation item.1.length ++ item.2.outlineEntry

mutual

theorem outlineLines_places (place : List Nat) :
    ∀ node : ViewNode, outlineLines place.length node = (node.places place).map lineAt
  | ⟨name, kind, props, modifiers, children⟩ => by
    rw [outlineLines, places, List.map_cons, outlineForest_places place 0 children]
    rfl

theorem outlineForest_places (place : List Nat) (row : Nat) : ∀ nodes : List ViewNode,
    outlineForest (place.length + 1) nodes = (placesForest place row nodes).map lineAt
  | [] => rfl
  | node :: rest => by
    have hlines := outlineLines_places (place ++ [row]) node
    rw [List.length_append, List.length_singleton] at hlines
    rw [outlineForest, placesForest, List.map_append, hlines, outlineForest_places place (row + 1)]

end

/-- The texts that are joined stand one behind the other, with a space before each but the first. -/
theorem exists_intercalate (first : String) (texts : List String) :
    ∃ more, (" ".intercalate (first :: texts)).toList = first.toList ++ more ∧
      (∀ c ∈ more.head?, c = ' ') ∧ (texts = [] → more = []) := by
  rw [String.toList_intercalate]
  cases texts with
  | nil =>
    refine ⟨[], by simp [List.intercalate], ?_, fun _ => rfl⟩
    intro c hc
    cases hc
  | cons text texts =>
    refine ⟨' ' :: [' '].intercalate (text.toList :: texts.map String.toList), ?_, ?_, ?_⟩
    · rw [List.map_cons, List.map_cons, List.intercalate_cons_cons, List.append_assoc]
      rfl
    · rintro c ⟨⟩
      rfl
    · intro h
      cases h

theorem isLine_intercalate {sep : String} {texts : List String} (hsep : IsLine sep.toList)
    (h : ∀ text ∈ texts, IsLine text.toList) : IsLine (sep.intercalate texts).toList := by
  rw [String.toList_intercalate]
  induction texts with
  | nil => exact isLine_nil
  | cons text rest ih =>
    obtain ⟨htext, hrest⟩ := List.forall_mem_cons.1 h
    cases rest with
    | nil => simpa [List.intercalate] using htext
    | cons next rest =>
      rw [List.map_cons, List.map_cons, List.intercalate_cons_cons]
      exact (htext.append hsep).append (ih hrest)

theorem isLine_label (kind : NodeKind) : IsLine kind.label.toList := by
  cases kind <;> decide

theorem isLine_modifierEntry {modifier : String} (h : IsLine modifier.toList) :
    IsLine (modifierEntry modifier).toList := by
  unfold modifierEntry
  split
  · exact h
  · rw [String.toList_append]
    exact IsLine.append (by decide) h

variable {node : ViewNode}

theorem isLine_outlineEntry (h : IsLegible node) : IsLine node.outlineEntry.toList := by
  apply isLine_intercalate (by decide)
  simp only [List.forall_mem_append, List.forall_mem_cons, List.forall_mem_map]
  refine ⟨⟨isLine_label node.kind, h.name, ?_⟩, fun m hm => isLine_modifierEntry (h.modifiers m hm)⟩
  split
  · exact List.forall_mem_nil _
  · intro text htext
    rw [List.mem_singleton.1 htext]
    simp only [String.toList_append]
    exact (IsLine.append (by decide) (isLine_intercalate (by decide) h.props)).append (by decide)

theorem isLine_indentation (level : Nat) : IsLine (indentation level).toList := by
  rw [indentation, String.toList_ofList]
  intro c hc
  rw [List.eq_of_mem_replicate hc]
  decide

/-- Kind and name start a line; nothing stands behind the name of a conditional. -/
theorem exists_lineAt (place : List Nat) (h : IsLegible node) : ∃ more,
    (lineAt (place, node)).toList = List.replicate (2 * place.length) ' ' ++
        (node.kind.label.toList ++ ' ' :: (node.name.toList ++ more)) ∧
      (∀ c ∈ more.head?, c = ' ') ∧ (node.kind = .conditional → more = []) := by
  obtain ⟨more, hmore, hhead, hnil⟩ := exists_intercalate node.name
    ((if node.props.isEmpty then [] else ["[" ++ ", ".intercalate node.props ++ "]"]) ++
      node.modifiers.map modifierEntry)
  refine ⟨more, ?_, hhead, ?_⟩
  · have hentry : node.outlineEntry.toList =
        node.kind.label.toList ++ ' ' :: (node.name.toList ++ more) := by
      rw [outlineEntry, List.cons_append, List.cons_append, String.toList_intercalate,
        List.map_cons, List.map_cons, List.intercalate_cons_cons, ← List.map_cons,
        ← String.toList_intercalate, hmore, List.append_assoc]
      rfl
    rw [lineAt, indentation, String.toList_append, String.toList_ofList, hentry]
  · intro hkind
    obtain ⟨hprops, hmodifiers⟩ := h.conditional hkind
    apply hnil
    rw [hprops, hmodifiers]
    rfl

/-- What a line tells of its node: depth, kind and name. -/
def summary (item : List Nat × ViewNode) : Nat × NodeKind × String :=
  (item.1.length, item.2.kind, item.2.name)

/-- Reads a line. A name ends at a space unless it is that of a conditional. -/
def readLine? (line : List Char) : Option (Nat × NodeKind × String) :=
  let entry := line.dropWhile (· == ' ')
  let rest := (entry.dropWhile (· != ' ')).drop 1
  (NodeKind.ofLabel? (String.ofList (entry.takeWhile (· != ' ')))).map fun kind =>
    ((line.takeWhile (· == ' ')).length / 2, kind,
      String.ofList (if kind = .conditional then rest else rest.takeWhile (· != ' ')))

theorem label_characters (kind : NodeKind) :
    Stops (· == ' ') kind.label.toList ∧ ∀ c ∈ kind.label.toList, (c != ' ') = true := by
  have hlabel : kind.label.toList.all (· != ' ') = true := by
    cases kind <;> decide
  refine ⟨?_, List.all_eq_true.1 hlabel⟩
  cases kind <;> exact stops_cons rfl _

theorem readLine?_lineAt (place : List Nat) (h : IsLegible node) :
    readLine? (lineAt (place, node)).toList = some (summary (place, node)) := by
  obtain ⟨more, hline, hhead, hnil⟩ := exists_lineAt place h
  obtain ⟨hstart, hlabel⟩ := label_characters node.kind
  have hspaces : ∀ c ∈ List.replicate (2 * place.length) ' ', (c == ' ') = true := by
    intro c hc
    rw [List.eq_of_mem_replicate hc]
    rfl
  have hstops : Stops (· == ' ') (node.kind.label.toList ++ ' ' :: (node.name.toList ++ more)) :=
    hstart.extend (by cases node.kind <;> decide) _
  have hspace : Stops (· != ' ') (' ' :: (node.name.toList ++ more)) := stops_cons rfl _
  have hname : String.ofList (if node.kind = .conditional then node.name.toList ++ more
      else (node.name.toList ++ more).takeWhile (· != ' ')) = node.name := by
    split
    · next hkind => rw [hnil hkind, List.append_nil, String.ofList_toList]
    · next hkind =>
      have hmore : Stops (· != ' ') more := by
        intro c hc
        rw [hhead c hc]
        rfl
      rw [hmore.takeWhile_append, String.ofList_toList]
      intro c hc
      rw [bne_iff_ne]
      rintro rfl
      exact h.word hkind hc
  rw [readLine?, hline]
  simp only [hstops.dropWhile_append hspaces, hstops.takeWhile_append hspaces,
    hspace.takeWhile_append hlabel, hspace.dropWhile_append hlabel, String.ofList_toList,
    NodeKind.ofLabel?_label, Option.map_some, List.drop_succ_cons, List.drop_zero, hname,
    List.length_replicate, summary]
  congr 2
  omega

mutual

/-- The tree with nothing but kinds and names. -/
def bare : ViewNode → ViewNode
  | ⟨name, kind, _, _, children⟩ => ⟨name, kind, [], [], bareForest children⟩

def bareForest : List ViewNode → List ViewNode
  | [] => []
  | node :: rest => bare node :: bareForest rest

end

theorem exists_summary_places {place : List Nat} {depth : Nat} (hplace : place.length = depth)
    (node : ViewNode) : ∃ below,
      (node.places place).map summary = (depth, node.kind, node.name) :: below := by
  obtain ⟨name, kind, props, modifiers, children⟩ := node
  rw [places, ← hplace]
  exact ⟨_, rfl⟩

theorem length_child {place : List Nat} {depth : Nat} (hplace : place.length = depth) (row : Nat) :
    (place ++ [row]).length = depth + 1 := by
  rw [List.length_append, List.length_singleton, hplace]

variable {depth : Nat} {place place' : List Nat} {more more' : List (Nat × NodeKind × String)}

/-- Behind the tree of a child come its siblings and what follows them all. -/
theorem head?_summary_placesForest (hplace : place.length = depth)
    (hmore : ∀ e ∈ more.head?, e.1 ≤ depth) (row : Nat) (nodes : List ViewNode) :
    ∀ e ∈ ((placesForest place row nodes).map summary ++ more).head?, e.1 ≤ depth + 1 := by
  cases nodes with
  | nil => exact fun e he => Nat.le_succ_of_le (hmore e he)
  | cons node rest =>
    obtain ⟨below, hbelow⟩ := exists_summary_places (length_child hplace row) node
    rw [placesForest, List.map_append, hbelow]
    rintro e ⟨⟩
    exact Nat.le_refl _

/-- A child is told at a greater depth than what follows all children. -/
theorem summary_placesForest_ne (hplace : place.length = depth)
    (hmore' : ∀ e ∈ more'.head?, e.1 ≤ depth) (row : Nat) (node : ViewNode)
    (rest : List ViewNode) :
    (placesForest place row (node :: rest)).map summary ++ more ≠ more' := by
  obtain ⟨below, hbelow⟩ := exists_summary_places (length_child hplace row) node
  rw [placesForest, List.map_append, hbelow]
  rintro rfl
  exact absurd (hmore' _ rfl) (Nat.not_succ_le_self depth)

mutual

/-- Trees of which the same is told in the same order are the same but for properties and modifiers.
What follows a tree is told at no greater depth. -/
theorem bare_of_summary {depth : Nat} {place place' : List Nat}
    {more more' : List (Nat × NodeKind × String)} (hplace : place.length = depth)
    (hplace' : place'.length = depth) (hmore : ∀ e ∈ more.head?, e.1 ≤ depth)
    (hmore' : ∀ e ∈ more'.head?, e.1 ≤ depth) :
    ∀ node node' : ViewNode,
      (node.places place).map summary ++ more = (node'.places place').map summary ++ more' →
        node.bare = node'.bare ∧ more = more'
  | ⟨name, kind, props, modifiers, children⟩, ⟨name', kind', props', modifiers', children'⟩, h => by
    simp only [places, List.map_cons, List.cons_append, List.cons.injEq, summary,
      Prod.mk.injEq] at h
    obtain ⟨⟨-, hkind, hname⟩, hrest⟩ := h
    obtain ⟨hchildren, heq⟩ :=
      bareForest_of_summary hplace hplace' hmore hmore' 0 0 children children' hrest
    rw [bare, bare, hkind, hname, hchildren]
    exact ⟨rfl, heq⟩

theorem bareForest_of_summary {depth : Nat} {place place' : List Nat}
    {more more' : List (Nat × NodeKind × String)} (hplace : place.length = depth)
    (hplace' : place'.length = depth) (hmore : ∀ e ∈ more.head?, e.1 ≤ depth)
    (hmore' : ∀ e ∈ more'.head?, e.1 ≤ depth) (row row' : Nat) : ∀ nodes nodes' : List ViewNode,
      (placesForest place row nodes).map summary ++ more =
          (placesForest place' row' nodes').map summary ++ more' →
        bareForest nodes = bareForest nodes' ∧ more = more'
  | [], [], h => ⟨rfl, h⟩
  | [], node :: rest, h => absurd h.symm (summary_placesForest_ne hplace' hmore row' node rest)
  | node :: rest, [], h => absurd h (summary_placesForest_ne hplace hmore' row node rest)
  | node :: rest, node' :: rest', h => by
    simp only [placesForest, List.map_append, List.append_assoc] at h
    obtain ⟨hnode, hsiblings⟩ := bare_of_summary (length_child hplace row)
      (length_child hplace' row') (head?_summary_placesForest hplace hmore (row + 1) rest)
      (head?_summary_placesForest hplace' hmore' (row' + 1) rest') node node' h
    obtain ⟨hrest, heq⟩ :=
      bareForest_of_summary hplace hplace' hmore hmore' (row + 1) (row' + 1) rest rest' hsiblings
    rw [bareForest, bareForest, hnode, hrest]
    exact ⟨rfl, heq⟩

end

variable {tree tree' : ViewNode}

theorem isLine_lineAt (place : List Nat) (h : IsLegible node) :
    IsLine (lineAt (place, node)).toList := by
  rw [lineAt, String.toList_append]
  exact (isLine_indentation _).append (isLine_outlineEntry h)

theorem legible_places (h : tree.Everywhere IsLegible) :
    ∀ item ∈ tree.places [], IsLegible item.2 := by
  intro item hitem
  apply h.walk
  rw [← map_snd_places []]
  exact List.mem_map_of_mem hitem

theorem lines_outline (h : tree.Everywhere IsLegible) :
    lines tree.outline.toList = (tree.places []).map fun item => (lineAt item).toList := by
  have hlines : ∀ line ∈ (tree.places []).map fun item => (lineAt item).toList, IsLine line := by
    intro line hline
    obtain ⟨item, hitem, rfl⟩ := List.mem_map.1 hline
    exact isLine_lineAt item.1 (legible_places h item hitem)
  have houtline : tree.outline.toList =
      ((tree.places []).map fun item => (lineAt item).toList).flatMap (· ++ ['\n']) := by
    have hplaces : outlineLines 0 tree = (tree.places []).map lineAt := outlineLines_places [] tree
    rw [outline, hplaces, String.toList_join, List.map_map, List.flatMap_map, List.flatMap_map]
    simp only [Function.comp_apply, String.toList_append]
    rfl
  rw [houtline, lines_flatMap hlines]

/-- The lines of an outline tell what the tree is but for properties and modifiers. -/
theorem bare_of_outline (h : tree.Everywhere IsLegible) (h' : tree'.Everywhere IsLegible)
    (ho : tree.outline = tree'.outline) : tree.bare = tree'.bare := by
  have hread : ∀ {tree : ViewNode}, tree.Everywhere IsLegible →
      (lines tree.outline.toList).map readLine? = ((tree.places []).map summary).map some := by
    intro tree h
    rw [lines_outline h, List.map_map, List.map_map]
    refine List.map_congr_left ?_
    rintro ⟨place, node⟩ hitem
    rw [Function.comp_apply, Function.comp_apply, readLine?_lineAt place (legible_places h _ hitem)]
  have hsummary : ((tree.places []).map summary).map some =
      ((tree'.places []).map summary).map some := by
    calc ((tree.places []).map summary).map some
        = (lines tree.outline.toList).map readLine? := (hread h).symm
      _ = (lines tree'.outline.toList).map readLine? := by rw [ho]
      _ = ((tree'.places []).map summary).map some := hread h'
  have hnil : ∀ e ∈ ([] : List (Nat × NodeKind × String)).head?, e.1 ≤ 0 := by
    intro e he
    cases he
  have heq := (List.map_inj_right fun _ _ => Option.some.inj).1 hsummary
  exact (bare_of_summary List.length_nil List.length_nil hnil hnil tree tree' (by rw [heq])).1

/-- The outline of a tree: no text in the tree breaks a line, and there is one line for each node in
the order of the walk, with the depth of the node, its kind and its name. -/
structure IsOutlined (tree : ViewNode) : Prop where
  texts : ∀ node ∈ tree.walk, IsLine node.name.toList ∧ (∀ p ∈ node.props, IsLine p.toList) ∧
    ∀ m ∈ node.modifiers, IsLine m.toList
  count : (lines tree.outline.toList).length = tree.count
  line : ∀ k < tree.count, ∃ place node more, (tree.places [])[k]? = some (place, node) ∧
    tree.descendant? place = some node ∧ tree.walk[k]? = some node ∧
    (lines tree.outline.toList)[k]? = some (List.replicate (2 * place.length) ' ' ++
      (node.kind.label.toList ++ ' ' :: (node.name.toList ++ more))) ∧ ∀ c ∈ more.head?, c = ' '

theorem isOutlined (h : tree.Everywhere IsLegible) : tree.IsOutlined := by
  have hcount : (tree.places []).length = tree.count := by
    rw [← length_walk, ← map_snd_places [], List.length_map]
  constructor
  · exact fun node hn => ⟨(h.walk node hn).name, (h.walk node hn).props, (h.walk node hn).modifiers⟩
  · rw [lines_outline h, List.length_map, hcount]
  · intro k hk
    have hitem := List.getElem?_eq_getElem (hcount ▸ hk : k < (tree.places []).length)
    generalize (tree.places [])[k] = item at hitem
    obtain ⟨place, node⟩ := item
    have hmem := List.mem_of_getElem? hitem
    obtain ⟨more, hmore, hhead, -⟩ := exists_lineAt place (legible_places h _ hmem)
    refine ⟨place, node, more, hitem, ?_, ?_, ?_, hhead⟩
    · obtain ⟨rest, rfl, hrest⟩ := (mem_places_iff tree).1 hmem
      exact hrest
    · rw [← map_snd_places [], List.getElem?_map, hitem, Option.map_some]
    · rw [lines_outline h, List.getElem?_map, hitem, Option.map_some, hmore]

end ViewNode

/-- Trees that are built with a marker on one line have an outline of one line for each node, and
trees with the same outline are the same but for properties and modifiers. -/
theorem outline_faithful :
    (∀ (st : Settings) ds root tree, IsLine st.recursionMarker.toList →
        buildTree st ds root = some tree → tree.IsOutlined) ∧
      ∀ (st st' : Settings) ds ds' root root' tree tree', IsLine st.recursionMarker.toList →
        IsLine st'.recursionMarker.toList → buildTree st ds root = some tree →
        buildTree st' ds' root' = some tree' → tree.outline = tree'.outline →
        tree.bare = tree'.bare := by
  constructor
  · intro st ds root tree hmarker hbuild
    exact ViewNode.isOutlined (legible_buildTree hmarker hbuild)
  · intro st st' ds ds' root root' tree tree' hmarker hmarker' hbuild hbuild' houtline
    exact ViewNode.bare_of_outline (legible_buildTree hmarker hbuild)
      (legible_buildTree hmarker' hbuild') houtline

theorem outline_faithful_mutualTree :
    IsLine Settings.default.recursionMarker.toList ∧ mutualTree.IsOutlined ∧
      mutualTree.bare = mutualTree.bare := by
  have hmarker : IsLine Settings.default.recursionMarker.toList := by decide
  obtain ⟨houtlined, hbare⟩ := outline_faithful
  exact ⟨hmarker, houtlined .default mutualViews "A" mutualTree hmarker buildTree_mutualViews,
    hbare .default .default mutualViews mutualViews "A" "A" mutualTree mutualTree hmarker hmarker
      buildTree_mutualViews buildTree_mutualViews rfl⟩

end ViewHierarchy
