import ViewHierarchy.Yaml.Base64
import ViewHierarchy.Yaml.Graph
import ViewHierarchy.Yaml.Lexing
import ViewHierarchy.Yaml.Number

/-! The values of YAML documents. A document counts only if every node in it has a value, so all of
them are checked, those first that the root holds directly. -/
namespace ViewHierarchy.Yaml

inductive Value where
  | null
  | bool (b : Bool)
  | int (n : Int)
  | text (s : String)
  | sequence (items : List Value)
  | mapping (entries : List (Value × Value))
  /-- A value of another kind, or one too deep inside the document to matter. -/
  | other

namespace Value

def isText (s : String) : Value → Bool
  | text t => t == s
  | _ => false

/-- The value of a text key; the last entry of equal keys counts. -/
def lookup? (key : String) : Value → Option Value
  | mapping entries => (entries.reverse.find? fun e => e.1.isText key).map Prod.snd
  | _ => none

end Value

def truthWords : List (String × Bool) :=
  [("yes", true), ("no", false), ("true", true), ("false", false), ("on", true), ("off", false)]

def scalarValue (tag : Tag) (s : String) : Except Fault Value :=
  match tag with
  | .null => .ok .null
  | .bool =>
    match truthWords.lookup (String.ofList (Text.lower s.toList)) with
    | some b => .ok (.bool b)
    | none => .error .word
  | .int => (Number.readInteger s.toList).map .int
  | .float => (Number.checkFloat s.toList).map fun _ => .other
  | .binary => (Base64.check s.toList).map fun _ => .other
  | .timestamp => (Timestamp.check s.toList).map fun _ => .other
  | .str => .ok (.text s)
  | _ => .error .construction

namespace Graph

/-- The text of a scalar node. A mapping stands for the value that it holds under an equals sign. -/
def scalarText? (g : Graph) : Nat → Nat → Option String
  | 0, _ => none
  | fuel + 1, id =>
    match g.shape? id with
    | some (.scalar text) => some text
    | some (.mapping entries) =>
      (entries.find? fun (key, _) => g.tag key == .value).bind fun (_, value) =>
        g.scalarText? fuel value
    | _ => none

def scalar (g : Graph) (id : Nat) : Except Fault Value :=
  match g.scalarText? (g.size + 1) id with
  | none => .error .construction
  | some text =>
    match g.tag id, g.shape? id with
    | .timestamp, some (.mapping _) => .error .dateKind
    | tag, _ => scalarValue tag text

/-- The number of nodes and entries, which bounds the work of merging. -/
def weight (g : Graph) : Nat :=
  g.foldl (fun n node =>
    match node.shape with
    | .mapping entries => n + entries.length + 1
    | _ => n + 1) 0

mutual

/-- Replaces the merge entries of a mapping by the entries they refer to, which go first. -/
def flatten (fuel : Nat) (g : Graph) (id : Nat) : Except Fault Graph :=
  match fuel with
  | 0 => .ok g
  | fuel + 1 => flattenFrom fuel g id 0 []

/-- Goes on with the entry of the given number; `merged` holds what comes first in the end. -/
def flattenFrom (fuel : Nat) (g : Graph) (id index : Nat) (merged : List (Nat × Nat)) :
    Except Fault Graph :=
  match fuel with
  | 0 => .ok g
  | fuel + 1 =>
    let entries := (g.entries? id).getD []
    match entries[index]? with
    | none =>
      .ok (if merged.isEmpty then g else g.setShape id (.mapping (merged ++ entries)))
    | some (key, value) =>
      if g.tag key == .merge then
        let g := g.setShape id (.mapping (entries.eraseIdx index))
        match g.shape? value with
        | some (.mapping _) => do
          let g ← flatten fuel g value
          flattenFrom fuel g id index (merged ++ (g.entries? value).getD [])
        | some (.sequence items) => do
          let (g, more) ← flattenAll fuel g items
          flattenFrom fuel g id index (merged ++ more)
        | _ => .error .construction
      else if g.tag key == .value then
        flattenFrom fuel (g.setTag key .str) id (index + 1) merged
      else flattenFrom fuel g id (index + 1) merged

def flattenAll (fuel : Nat) (g : Graph) (ids : List Nat) :
    Except Fault (Graph × List (Nat × Nat)) :=
  match fuel with
  | 0 => .ok (g, [])
  | fuel + 1 =>
    match ids with
    | [] => .ok (g, [])
    | id :: rest =>
      match g.shape? id with
      | some (.mapping _) => do
        let g ← flatten fuel g id
        let own := (g.entries? id).getD []
        let (g, more) ← flattenAll fuel g rest
        return (g, more ++ own)
      | _ => .error .construction

end

end Graph

/-- A check in progress: the graph as merging leaves it, the nodes met, and the collections whose
members are still to be checked. -/
structure Checking where
  graph : Graph
  met : List Nat
  queue : List Nat

namespace Checking

/-- Checks a node when it is first met; the members of a collection wait for their turn. -/
def meet (c : Checking) (id : Nat) : Except Fault Checking :=
  if c.met.contains id then .ok c
  else if (c.graph.tag id).isCollection then
    .ok { c with met := id :: c.met, queue := c.queue ++ [id] }
  else do
    let _ ← c.graph.scalar id
    return { c with met := id :: c.met }

/-- Checks an entry; a collection is no key. -/
def meetEntry (c : Checking) (entry : Nat × Nat) : Except Fault Checking := do
  let c ← c.meet entry.1
  if (c.graph.tag entry.1).isCollection then .error .construction else c.meet entry.2

/-- Checks the single entry of a member of an ordered mapping. -/
def meetSingle (c : Checking) (id : Nat) : Except Fault Checking :=
  match c.graph.entries? id with
  | some [(key, value)] => do (← c.meet key).meet value
  | _ => .error .construction

def members (c : Checking) (id : Nat) : Except Fault Checking :=
  match c.graph.tag id, c.graph.shape? id with
  | .seq, some (.sequence items) => items.foldlM meet c
  | .map, some (.mapping _) | .set, some (.mapping _) => do
    let graph ← c.graph.flatten (2 * c.graph.weight + 2) id
    ((graph.entries? id).getD []).foldlM meetEntry { c with graph }
  | .omap, some (.sequence items) | .pairs, some (.sequence items) => items.foldlM meetSingle c
  | _, _ => .error .construction

/-- Checks the waiting collections in order. -/
def run : Nat → Checking → Except Fault Graph
  | 0, c => .ok c.graph
  | fuel + 1, c =>
    match c.queue with
    | [] => .ok c.graph
    | id :: queue => do run fuel (← { c with queue }.members id)

end Checking

/-- The value of a node, its members down to the given depth. -/
def Graph.value (g : Graph) (depth : Nat) (id : Nat) : Value :=
  match depth with
  | 0 => if (g.tag id).isCollection then .other else (g.scalar id).toOption.getD .other
  | depth + 1 =>
    match g.tag id, g.shape? id with
    | .seq, some (.sequence items) => .sequence (items.map (g.value depth))
    | .map, some (.mapping entries) =>
      .mapping (entries.map fun (key, value) => (g.value depth key, g.value depth value))
    | tag, _ => if tag.isCollection then .other else (g.scalar id).toOption.getD .other

def construct (g : Graph) (depth : Nat) (root : Option Nat) : Except Fault Value :=
  match root with
  | none => .ok .null
  | some id => do
    let checking ← (Checking.mk g [] []).meet id
    let g ← checking.run (g.size + 1)
    return g.value depth id

def isAllowed (c : Char) : Bool :=
  let n := c.toNat
  n == 9 || n == 10 || n == 13 || decide (32 ≤ n ∧ n ≤ 126) || n == 0x85 ||
    decide (0xA0 ≤ n ∧ n ≤ 0xD7FF) || decide (0xE000 ≤ n ∧ n ≤ 0xFFFD) || decide (0x10000 ≤ n)

/-- The value of a document, its collections down to the given depth. -/
def read (depth : Nat) (bytes : List UInt8) : Except Fault Value :=
  match Text.Utf8.decode? bytes with
  | none => .error .encoding
  | some text =>
    let text := Text.normalizeNewlines text
    if text.all isAllowed then do
      let (graph, root) ← compose (events (tokens text))
      construct graph depth root
    else .error .character

end ViewHierarchy.Yaml
