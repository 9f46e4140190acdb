import ViewHierarchy.Proofs.View.Resolution

/-! Resolution with a single set of names in progress. A visit takes out the names that it added, so
every node is resolved as if the names above it were a set of its own. -/
namespace ViewHierarchy

variable {st : Settings} {ds : Declarations} {progress : List String}

/-- Only which names are in progress matters. -/
theorem resolve_congr {p q : List String} (h : ∀ name, name ∈ p ↔ name ∈ q) (node : ViewNode) :
    resolve st ds p node = resolve st ds q node := by
  induction p, node using resolve_induction st ds generalizing q with
  | kept p node hu ih =>
    rw [resolve_kept hu, resolve_kept hu, List.map_congr_left fun child hc => ih child hc h]
  | marked p node hu hp => rw [resolve_marked hu hp, resolve_marked hu ((h _).1 hp)]
  | expanded p node hu hp ih =>
    have hq : node.name ∉ q := fun hq => hp ((h _).2 hq)
    have hcons : ∀ name, name ∈ node.name :: p ↔ name ∈ node.name :: q := by
      intro name
      rw [List.mem_cons, List.mem_cons, h]
    rw [resolve_expanded hu hp, resolve_expanded hu hq,
      List.map_congr_left fun child hc => ih child hc hcons]

/-- What is shown below a use does not depend on the use, but on its name. -/
theorem resolve_use {use use' : ViewNode} (hu : use.isUse st ds = true)
    (hu' : use'.isUse st ds = true) (hname : use.name = use'.name) :
    (resolve st ds progress use).kind = (resolve st ds progress use').kind ∧
      (resolve st ds progress use).children = (resolve st ds progress use').children := by
  obtain ⟨hkind, hleaf, -⟩ := ViewNode.isUse_iff.1 hu
  obtain ⟨hkind', hleaf', -⟩ := ViewNode.isUse_iff.1 hu'
  by_cases hp : use.name ∈ progress
  · rw [resolve_marked hu hp, resolve_marked hu' (hname ▸ hp)]
    exact ⟨hkind.trans hkind'.symm, hleaf.trans hleaf'.symm⟩
  · rw [resolve_expanded hu hp, resolve_expanded hu' (hname ▸ hp), hname]
    exact ⟨rfl, rfl⟩

/-- A visit with one set for the whole walk gives the tree that is resolved with a set of its own at
every node, and leaves the set as it was. So trees side by side are visited one by one with the same
set, and uses of one view with the same names in progress show the same. -/
theorem visit_eq_resolve (st : Settings) (ds : Declarations) (progress : List String) :
    (∀ node, (visit st ds progress node).1 = resolve st ds progress node ∧
        (visit st ds progress node).2.val = progress) ∧
      (∀ nodes, (visitForest st ds progress nodes).1 =
          nodes.map (fun node => (visit st ds progress node).1) ∧
        (visitForest st ds progress nodes).2.val = progress) ∧
      ∀ progress' use use', (∀ name, name ∈ progress ↔ name ∈ progress') →
        use.isUse st ds = true → use'.isUse st ds = true → use.name = use'.name →
          (visit st ds progress use).1.kind = (visit st ds progress' use').1.kind ∧
            (visit st ds progress use).1.children = (visit st ds progress' use').1.children := by
  refine ⟨fun node => ?_, fun nodes => ?_, ?_⟩
  · rw [visit_eq]
    exact ⟨rfl, rfl⟩
  · rw [visitForest_eq_map fun node _ => visit_eq progress node]
    simp only [visit_eq, and_self]
  · intro progress' use use' hprogress hu hu' hname
    rw [visit_eq, visit_eq, ← resolve_congr hprogress]
    exact resolve_use hu hu' hname

/-- Two uses of a view with what was written at each of them. -/
def plainUse : ViewNode := ⟨"A", .view, [], [], []⟩

def boldUse : ViewNode := ⟨"A", .view, ["x"], ["bold()"], []⟩

theorem visit_plainUse_boldUse :
    ((∀ name, name ∈ ["C", "D"] ↔ name ∈ ["D", "C"]) ∧
        plainUse.isUse .default mutualViews = true ∧ boldUse.isUse .default mutualViews = true ∧
        plainUse.name = boldUse.name) ∧
      (visit .default mutualViews ["C", "D"] plainUse).1.kind =
        (visit .default mutualViews ["D", "C"] boldUse).1.kind ∧
      (visit .default mutualViews ["C", "D"] plainUse).1.children =
        (visit .default mutualViews ["D", "C"] boldUse).1.children := by
  have hprogress : ∀ name : String, name ∈ ["C", "D"] ↔ name ∈ ["D", "C"] := by
    simp [or_comm]
  exact ⟨⟨hprogress, by decide, by decide, rfl⟩,
    (visit_eq_resolve .default mutualViews ["C", "D"]).2.2 ["D", "C"] plainUse boldUse hprogress
      (by decide) (by decide) rfl⟩

end ViewHierarchy
