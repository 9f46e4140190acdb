/-! The tree of views that a body shows. -/
namespace ViewHierarchy

inductive NodeKind where
  | view
  | container
  | forEach
  | conditional
  | branch
  | customView
deriving DecidableEq

def NodeKind.label : NodeKind → String
  | .view => "View"
  | .container => "Container"
  | .forEach => "ForEach"
  | .conditional => "If"
  | .branch => "Branch"
  | .customView => "CustomView"

def NodeKind.all : List NodeKind := [.view, .container, .forEach, .conditional, .branch, .customView]

def NodeKind.ofLabel? (s : String) : Option NodeKind := NodeKind.all.find? (·.label == s)

theorem NodeKind.ofLabel?_label (k : NodeKind) : ofLabel? k.label = some k := by
  cases k <;> rfl

structure ViewNode where
  name : String
  kind : NodeKind
  props : List String
  modifiers : List String
  children : List ViewNode

namespace ViewNode

/-- A nameless node is called View. -/
def create (name : String) (kind : NodeKind) (props modifiers : List String)
    (children : List ViewNode) : ViewNode :=
  ⟨if name = "" then "View" else name, kind, props, modifiers, children⟩

def isLeaf (node : ViewNode) : Bool := node.children.isEmpty

mutual

/-- The nodes of a tree, each before its children. -/
def walk : ViewNode → List ViewNode
  | ⟨name, kind, props, modifiers, children⟩ =>
    ⟨name, kind, props, modifiers, children⟩ :: walkForest children

def walkForest : List ViewNode → List ViewNode
  | [] => []
  | node :: rest => walk node ++ walkForest rest

end

mutual

/-- The first node of that name, a node standing before its children. -/
def find? (wanted : String) : ViewNode → Option ViewNode
  | ⟨name, kind, props, modifiers, children⟩ =>
    if name = wanted then some ⟨name, kind, props, modifiers, children⟩
    else findForest? wanted children

def findForest? (wanted : String) : List ViewNode → Option ViewNode
  | [] => none
  | node :: rest => (find? wanted node).or (findForest? wanted rest)

end

mutual

def count : ViewNode → Nat
  | ⟨_, _, _, _, children⟩ => countForest children + 1

def countForest : List ViewNode → Nat
  | [] => 0
  | node :: rest => count node + countForest rest

end

mutual

theorem length_walk : ∀ node : ViewNode, node.walk.length = node.count
  | ⟨_, _, _, _, children⟩ => by
    rw [walk, count, List.length_cons, length_walkForest children]

theorem length_walkForest : ∀ nodes : List ViewNode, (walkForest nodes).length = countForest nodes
  | [] => rfl
  | node :: rest => by
    rw [walkForest, countForest, List.length_append, length_walk node, length_walkForest rest]

end

mutual

/-- Searching by name is searching the walk. -/
theorem find?_eq_walk (wanted : String) :
    ∀ node : ViewNode, find? wanted node = node.walk.find? (fun n => decide (n.name = wanted))
  | ⟨name, kind, props, modifiers, children⟩ => by
    rw [find?, walk, List.find?_cons]
    by_cases h : name = wanted
    · simp only [h, if_true, decide_true]
    · simp only [h, if_false, decide_false, findForest?_eq_walkForest wanted children]

theorem findForest?_eq_walkForest (wanted : String) : ∀ nodes : List ViewNode,
    findForest? wanted nodes = (walkForest nodes).find? (fun n => decide (n.name = wanted))
  | [] => rfl
  | node :: rest => by
    rw [findForest?, walkForest, List.find?_append, find?_eq_walk wanted node,
      findForest?_eq_walkForest wanted rest]

end

end ViewNode

end ViewHierarchy
