import ViewHierarchy.Yaml.Event
import ViewHierarchy.Yaml.Tag

/-! The nodes of a YAML document as a graph. Aliases make it one: a node may be reached on several
ways, or from within itself. -/
namespace ViewHierarchy.Yaml

inductive Shape where
  | scalar (text : String)
  | sequence (items : List Nat)
  | mapping (entries : List (Nat × Nat))

structure GraphNode where
  tag : Tag
  shape : Shape

/-- Nodes are known by their numbers. -/
abbrev Graph := Array GraphNode

namespace Graph

def tag (g : Graph) (id : Nat) : Tag := (g[id]?.map GraphNode.tag).getD .other

def shape? (g : Graph) (id : Nat) : Option Shape := g[id]?.map GraphNode.shape

def setShape (g : Graph) (id : Nat) (shape : Shape) : Graph :=
  g.modify id fun n => { n with shape }

def setTag (g : Graph) (id : Nat) (tag : Tag) : Graph := g.modify id fun n => { n with tag }

def entries? (g : Graph) (id : Nat) : Option (List (Nat × Nat)) :=
  match g.shape? id with
  | some (.mapping entries) => some entries
  | _ => none

end Graph

/-- A collection whose end has not been met, its members last first. -/
structure OpenNode where
  id : Nat
  isMapping : Bool
  members : List Nat

structure Composition where
  graph : Graph
  anchors : List (String × Nat)
  ancestors : List OpenNode
  root : Option Nat

namespace Composition

def empty : Composition := ⟨#[], [], [], none⟩

/-- Adds a finished node to the collection it stands in. -/
def attach (id : Nat) (c : Composition) : Composition :=
  match c.ancestors with
  | [] => { c with root := some id }
  | top :: rest => { c with ancestors := { top with members := id :: top.members } :: rest }

def create (anchor : Option String) (tag : Tag) (shape : Shape) (c : Composition) :
    Except Fault (Nat × Composition) :=
  let id := c.graph.size
  let graph := c.graph.push ⟨tag, shape⟩
  match anchor with
  | none => .ok (id, { c with graph })
  | some a =>
    if (c.anchors.lookup a).isSome then .error .reference
    else .ok (id, { c with graph, anchors := (a, id) :: c.anchors })

def pairUp : List Nat → List (Nat × Nat)
  | key :: value :: rest => (key, value) :: pairUp rest
  | _ => []

/-- Ends the innermost collection. -/
def close (c : Composition) : Composition :=
  match c.ancestors with
  | [] => c
  | top :: rest =>
    let members := top.members.reverse
    let shape := if top.isMapping then Shape.mapping (pairUp members) else .sequence members
    { c with graph := c.graph.setShape top.id shape, ancestors := rest }.attach top.id

def openNode (anchor : Option String) (tag : Tag) (shape : Shape) (isMapping : Bool)
    (c : Composition) : Except Fault Composition := do
  let (id, c) ← c.create anchor tag shape
  return { c with ancestors := ⟨id, isMapping, []⟩ :: c.ancestors }

def step (c : Composition) : Event → Except Fault Composition
  | .documentStart => if c.root.isSome then .error .reference else .ok c
  | .documentEnd => .ok c
  | .streamEnd => .ok c
  | .alias name =>
    match c.anchors.lookup name with
    | some id => .ok (c.attach id)
    | none => .error .reference
  | .scalar anchor tag plain text => do
    let tag := match tag with
      | some name => Tag.ofName name
      | none => if plain then Plain.tag text else .str
    let (id, c) ← c.create anchor tag (.scalar text)
    return c.attach id
  | .sequenceStart anchor tag =>
    c.openNode anchor ((tag.map Tag.ofName).getD .seq) (.sequence []) false
  | .mappingStart anchor tag =>
    c.openNode anchor ((tag.map Tag.ofName).getD .map) (.mapping []) true
  | .sequenceEnd => .ok c.close
  | .mappingEnd => .ok c.close

end Composition

/-- The graph of a single document and its root; a stream without a document has none. -/
def compose (events : Reading Event) : Except Fault (Graph × Option Nat) := do
  let c ← events.items.foldlM Composition.step .empty
  match events.fault with
  | some f => .error f
  | none => return (c.graph, c.root)

end ViewHierarchy.Yaml
