import ViewHierarchy.View.Modifier
import ViewHierarchy.View.Property
import ViewHierarchy.View.Sibling
import ViewHierarchy.Diagnostics

/-! Blocks as forests of views. Each sibling becomes one node; the blocks inside it are read in
the same way. -/
namespace ViewHierarchy

def ViewNode.branch (name : String) (children : List ViewNode) : ViewNode :=
  ⟨name, .branch, [], [], children⟩

def Conditional.nodeOf (condition : List Char) (branches : List ViewNode) : ViewNode :=
  ⟨"if " ++ String.ofList condition, .conditional, [], [], branches⟩

/-- The node of a conditional, its blocks read by `forest`; a chain nests to the right. -/
def Conditional.node (forest : List Char → List ViewNode) : Conditional → ViewNode
  | .plain condition block => nodeOf condition [.branch "Then" (forest block)]
  | .unfinished condition block => nodeOf condition [.branch "Then" (forest block)]
  | .alternative condition block otherwise =>
    nodeOf condition [.branch "Then" (forest block), .branch "Else" (forest otherwise)]
  | .chain condition block next =>
    nodeOf condition [.branch "Then" (forest block), .branch "Else" [next.node forest]]

/-- The node of an element, its closures read by `forest`. -/
def Element.node (st : Settings) (forest : List Char → List ViewNode) (e : Element) : ViewNode :=
  ⟨String.ofList e.name, st.classify (String.ofList e.name),
    (properties st.maxPropLength e.arguments).map String.ofList,
    (modifiers e.chain).map String.ofList, e.blocks.flatMap forest⟩

def Sibling.node (st : Settings) (forest : List Char → List ViewNode) : Sibling → ViewNode
  | .expression text => (Element.read text).node st forest
  | .conditional c => c.node forest

theorem Conditional.node_congr {f g : List Char → List ViewNode} {c : Conditional}
    (h : ∀ block ∈ c.blocks, f block = g block) : c.node f = c.node g := by
  induction c with
  | plain condition block => simp only [node, h block (List.mem_singleton_self block)]
  | unfinished condition block => simp only [node, h block (List.mem_singleton_self block)]
  | alternative condition block otherwise =>
    simp only [blocks, List.forall_mem_cons] at h
    simp only [node, h.1, h.2.1]
  | chain condition block next ih =>
    simp only [blocks, List.forall_mem_cons] at h
    simp only [node, h.1, ih h.2]

theorem Sibling.node_congr {st : Settings} {f g : List Char → List ViewNode} {s : Sibling}
    (h : ∀ block ∈ s.blocks, f block = g block) : s.node st f = s.node st g := by
  cases s with
  | expression text =>
    have h' : (Element.read text).blocks.map f = (Element.read text).blocks.map g :=
      List.map_congr_left h
    simp only [node, Element.node, List.flatMap_def, h']
  | conditional c => exact Conditional.node_congr h

/-- The views of a block in order. -/
def parseBlock (st : Settings) (body : List Char) : List ViewNode :=
  (siblings body).map fun s =>
    s.node st fun block => if block.length < body.length then parseBlock st block else []
termination_by body.length

/-- Every block inside a sibling is read in the same way as the whole. -/
theorem parseBlock_eq (st : Settings) (body : List Char) :
    parseBlock st body = (siblings body).map (·.node st (parseBlock st)) := by
  rw [parseBlock]
  refine List.map_congr_left fun s hs => Sibling.node_congr fun block hb => ?_
  rw [if_pos (Sibling.length_of_mem_blocks hs hb)]

/-- The view that a single expression shows. -/
def parseExpression (st : Settings) (text : List Char) : ViewNode :=
  (Element.read text).node st (parseBlock st)

/-- Findings on a conditional, those on its blocks given by `inner`. -/
def Conditional.diagnostics (inner : List Char → List Diagnostic) : Conditional → List Diagnostic
  | .plain _ block => inner block
  | .unfinished condition block => inner block ++ [.elseUnclosed (String.ofList condition)]
  | .alternative _ block otherwise => inner block ++ inner otherwise
  | .chain _ block next => inner block ++ next.diagnostics inner

/-- Findings on an element, those on its closures given by `inner`. -/
def Element.diagnostics (inner : List Char → List Diagnostic) (e : Element) : List Diagnostic :=
  let name := String.ofList e.name
  (if e.argumentsUnclosed then [.argumentsUnclosed name] else []) ++
    (if e.closureUnclosed then [.closureUnclosed name] else []) ++ e.blocks.flatMap inner

def siblingDiagnostics (inner : List Char → List Diagnostic) (ss : List Sibling) :
    List Diagnostic :=
  ss.flatMap fun
    | .conditional c => c.diagnostics inner
    | .expression _ => []

/-- Findings made while the expressions of a block are read, after its conditionals. -/
def expressionDiagnostics (inner : List Char → List Diagnostic) (ss : List Sibling) :
    List Diagnostic :=
  ss.flatMap fun
    | .conditional _ => []
    | .expression text => (Element.read text).diagnostics inner

def blockDiagnostics (body : List Char) : List Diagnostic :=
  let inner := fun block => if block.length < body.length then blockDiagnostics block else []
  siblingDiagnostics inner (siblings body) ++ expressionDiagnostics inner (siblings body)
termination_by body.length

end ViewHierarchy
