import ViewHierarchy.Window.State

/-! Places in a tree: each leads to one node, no two nodes stand at the same one, and in the order
of the walk they lead to the nodes of the walk. -/
namespace ViewHierarchy.ViewNode

/-- The node that row numbers lead to from a node. -/
def descendant? : List Nat → ViewNode → Option ViewNode
  | [], node => some node
  | i :: rest, node => node.children[i]?.bind (descendant? rest)

mutual

theorem map_snd_places (place : List Nat) :
    ∀ node : ViewNode, (node.places place).map Prod.snd = node.walk
  | ⟨name, kind, props, modifiers, children⟩ => by
    rw [places, walk, List.map_cons, map_snd_placesForest place 0 children]

theorem map_snd_placesForest (place : List Nat) (row : Nat) : ∀ nodes : List ViewNode,
    (placesForest place row nodes).map Prod.snd = walkForest nodes
  | [] => rfl
  | node :: rest => by
    rw [placesForest, walkForest, List.map_append, map_snd_places, map_snd_placesForest]

end

mutual

/-- The places are those that lead to a node, each with the node that it leads to. -/
theorem mem_places_iff {place p : List Nat} {n : ViewNode} : ∀ node : ViewNode,
    (p, n) ∈ node.places place ↔ ∃ rest, p = place ++ rest ∧ node.descendant? rest = some n
  | ⟨name, kind, props, modifiers, children⟩ => by
    rw [places, List.mem_cons, mem_placesForest_iff children]
    constructor
    · rintro (h | ⟨i, rest, rfl, h⟩)
      · cases h
        exact ⟨[], (List.append_nil place).symm, rfl⟩
      · rw [Nat.zero_add]
        exact ⟨i :: rest, rfl, h⟩
    · rintro ⟨rest, rfl, h⟩
      cases rest with
      | nil =>
        cases h
        rw [List.append_nil]
        exact .inl rfl
      | cons i rest => exact .inr ⟨i, rest, by rw [Nat.zero_add], h⟩

theorem mem_placesForest_iff {place p : List Nat} {row : Nat} {n : ViewNode} :
    ∀ nodes : List ViewNode, (p, n) ∈ placesForest place row nodes ↔
      ∃ i rest, p = place ++ (row + i) :: rest ∧ nodes[i]?.bind (descendant? rest) = some n
  | [] => by simp [placesForest]
  | node :: nodes => by
    rw [placesForest, List.mem_append, mem_places_iff node, mem_placesForest_iff nodes]
    constructor
    · rintro (⟨rest, rfl, h⟩ | ⟨i, rest, rfl, h⟩)
      · exact ⟨0, rest, by simp, h⟩
      · exact ⟨i + 1, rest, by rw [Nat.add_assoc, Nat.add_comm 1], h⟩
    · rintro ⟨i, rest, rfl, h⟩
      cases i with
      | zero => exact .inl ⟨rest, by simp, h⟩
      | succ i => exact .inr ⟨i, rest, by rw [Nat.add_assoc, Nat.add_comm 1], h⟩

end

mutual

theorem nodup_places (place : List Nat) :
    ∀ node : ViewNode, ((node.places place).map Prod.fst).Nodup
  | ⟨name, kind, props, modifiers, children⟩ => by
    rw [places, List.map_cons, List.nodup_cons]
    refine ⟨?_, nodup_placesForest place 0 children⟩
    intro h
    obtain ⟨⟨p, n⟩, hmem, rfl⟩ := List.mem_map.1 h
    obtain ⟨i, rest, hp, -⟩ := (mem_placesForest_iff children).1 hmem
    exact absurd (List.self_eq_append_right.1 hp) (List.cons_ne_nil _ _)

theorem nodup_placesForest (place : List Nat) (row : Nat) : ∀ nodes : List ViewNode,
    ((placesForest place row nodes).map Prod.fst).Nodup
  | [] => List.nodup_nil
  | node :: rest => by
    rw [placesForest, List.map_append, List.nodup_append]
    refine ⟨nodup_places _ node, nodup_placesForest place (row + 1) rest, ?_⟩
    intro p hp q hq he
    subst he
    obtain ⟨⟨p, n⟩, hmem, rfl⟩ := List.mem_map.1 hp
    obtain ⟨⟨q, m⟩, hmem', he⟩ := List.mem_map.1 hq
    obtain ⟨below, hbelow, -⟩ := (mem_places_iff node).1 hmem
    obtain ⟨i, below', hbelow', -⟩ := (mem_placesForest_iff rest).1 hmem'
    -- The rows below one node differ from those below another in the number of the node.
    rw [show q = p from he, hbelow, List.append_assoc] at hbelow'
    have hrow := (List.cons.inj (List.append_cancel_left hbelow')).1
    omega

end

end ViewHierarchy.ViewNode
