import ViewHierarchy.Proofs.Source.Nesting
import ViewHierarchy.View.Block

/-! Views written as source text, and the views that can be written without loss. -/
namespace ViewHierarchy
open Text Source

/-- What stands between the braces of a block, each view on lines of its own. -/
def blockText (views : List (List Char)) : List Char := '\n' :: (joinWith ['\n'] views ++ ['\n'])

def writeBlock (views : List (List Char)) : List Char := '{' :: (blockText views ++ ['}'])

def writeArguments : List (List Char) → List Char
  | [] => []
  | prop :: rest => '(' :: (joinWith [',', ' '] (prop :: rest) ++ [')'])

def writeTrailing : List (List Char) → List Char
  | [] => []
  | view :: rest => ' ' :: writeBlock (view :: rest)

def writeChain : List (List Char) → List Char
  | [] => []
  | modifier :: rest => '\n' :: '.' :: (modifier ++ writeChain rest)

mutual

/-- The text of a view. A conditional is followed by its blocks, an element by what it has of
arguments, children and modifiers. -/
def ViewNode.write : ViewNode → List Char
  | ⟨name, .conditional, _, _, branches⟩ =>
    name.toList ++ ' ' :: joinWith [' ', 'e', 'l', 's', 'e', ' '] (writeAll branches)
  | ⟨_, .branch, _, _, children⟩ => writeBlock (writeAll children)
  | ⟨name, _, props, modifiers, children⟩ =>
    name.toList ++ (writeArguments (props.map String.toList) ++
      (writeTrailing (writeAll children) ++ writeChain (modifiers.map String.toList)))

def writeAll : List ViewNode → List (List Char)
  | [] => []
  | node :: rest => node.write :: writeAll rest

end

/-- The text of a forest, its views separated by line breaks. -/
def writeForest (nodes : List ViewNode) : List Char := joinWith ['\n'] (writeAll nodes)

inductive IsArgument (limit : Int) : List Char → Prop
  | value {v} : isName v = true → (v.length : Int) ≤ limit → IsArgument limit v
  | labelled {label v} : isName label = true → isName v = true → (v.length : Int) ≤ limit →
      IsArgument limit (label ++ ':' :: ' ' :: v)

inductive IsCall : List Char → Prop
  | plain {m} : isName m = true → IsCall m
  | applied {m v} : isName m = true → isName v = true → IsCall (m ++ '(' :: (v ++ [')']))

/-- Views made of names only, nested to any depth. -/
inductive IsWritable (st : Settings) : ViewNode → Prop
  | element {name : String} {props modifiers children} : isName name.toList = true →
      (∀ prop ∈ props, IsArgument st.maxPropLength prop.toList) →
      (∀ modifier ∈ modifiers, IsCall modifier.toList) →
      (∀ child ∈ children, IsWritable st child) →
      IsWritable st ⟨name, st.classify name, props, modifiers, children⟩
  | plain {condition children} : isName condition = true →
      (∀ child ∈ children, IsWritable st child) →
      IsWritable st (Conditional.nodeOf condition [.branch "Then" children])
  | alternative {condition children others} : isName condition = true →
      (∀ child ∈ children, IsWritable st child) → (∀ child ∈ others, IsWritable st child) →
      IsWritable st
        (Conditional.nodeOf condition [.branch "Then" children, .branch "Else" others])

/-- What stands behind a written view: the end of the text or of its block, or the next view. -/
inductive Ends : List Char → Prop
  | text : Ends []
  | block : Ends ['\n']
  | next {w t} : isIdentifier w = true → w ≠ ['e', 'l', 's', 'e'] → w ≠ ['i', 'n'] →
      Stops isWord t → Ends ('\n' :: (w ++ t))

theorem writeAll_eq_map (nodes : List ViewNode) : writeAll nodes = nodes.map ViewNode.write := by
  induction nodes with
  | nil => rfl
  | cons node rest ih => rw [writeAll, ih, List.map_cons]

theorem write_element (st : Settings) (name : String) (props modifiers : List String)
    (children : List ViewNode) :
    (ViewNode.mk name (st.classify name) props modifiers children).write =
      name.toList ++ (writeArguments (props.map String.toList) ++
        (writeTrailing (writeAll children) ++ writeChain (modifiers.map String.toList))) := by
  unfold Settings.classify
  split
  · rfl
  · split <;> rfl

theorem write_plain (condition : List Char) (children : List ViewNode) :
    (Conditional.nodeOf condition [.branch "Then" children]).write =
      'i' :: 'f' :: ' ' :: (condition ++ ' ' :: writeBlock (writeAll children)) := by
  simp [Conditional.nodeOf, ViewNode.branch, ViewNode.write, writeAll, joinWith]

theorem write_alternative (condition : List Char) (children others : List ViewNode) :
    (Conditional.nodeOf condition [.branch "Then" children, .branch "Else" others]).write =
      'i' :: 'f' :: ' ' :: (condition ++ ' ' :: (writeBlock (writeAll children) ++
        ' ' :: 'e' :: 'l' :: 's' :: 'e' :: ' ' :: writeBlock (writeAll others))) := by
  simp [Conditional.nodeOf, ViewNode.branch, ViewNode.write, writeAll, joinWith]

theorem tidy_of_isName {s : List Char} (h : isName s = true) : Tidy s :=
  tidy_of_ordinary (isOrdinary_of_isIdentifier (isIdentifier_of_isName h))

theorem tidy_joinWith {sep : List Char} {ss : List (List Char)} (hsep : Tidy sep)
    (h : ∀ s ∈ ss, Tidy s) : Tidy (joinWith sep ss) := by
  fun_induction joinWith sep ss with
  | case1 => exact .nil
  | case2 w => exact h w (List.mem_singleton_self w)
  | case3 w w' rest ih =>
    obtain ⟨hw, hrest⟩ := List.forall_mem_cons.1 h
    exact (hw.append hsep).append (ih hrest)

theorem tidy_arguments {props : List (List Char)} (h : ∀ prop ∈ props, Tidy prop) :
    Tidy (joinWith [',', ' '] props) :=
  tidy_joinWith (.cons rfl (.cons rfl .nil)) h

theorem tidy_blockText {views : List (List Char)} (h : ∀ view ∈ views, Tidy view) :
    Tidy (blockText views) := by
  apply Tidy.cons rfl
  apply Tidy.append
  · exact tidy_joinWith (.cons rfl .nil) h
  · exact .cons rfl .nil

theorem tidy_writeBlock {views : List (List Char)} (h : ∀ view ∈ views, Tidy view) :
    Tidy (writeBlock views) :=
  .pair rfl (tidy_blockText h)

theorem IsArgument.tidy {limit : Int} {a : List Char} (h : IsArgument limit a) : Tidy a := by
  cases h with
  | value hv _ => exact tidy_of_isName hv
  | labelled hl hv _ => exact (tidy_of_isName hl).append (.cons rfl (.cons rfl (tidy_of_isName hv)))

theorem IsCall.tidy {m : List Char} (h : IsCall m) : Tidy m := by
  cases h with
  | plain hm => exact tidy_of_isName hm
  | applied hm hv => exact (tidy_of_isName hm).append (.pair rfl (tidy_of_isName hv))

theorem tidy_writeArguments {props : List (List Char)} (h : ∀ prop ∈ props, Tidy prop) :
    Tidy (writeArguments props) := by
  cases props with
  | nil => exact .nil
  | cons prop rest => exact .pair rfl (tidy_arguments h)

theorem tidy_writeTrailing {views : List (List Char)} (h : ∀ view ∈ views, Tidy view) :
    Tidy (writeTrailing views) := by
  cases views with
  | nil => exact .nil
  | cons view rest => exact .cons rfl (tidy_writeBlock h)

theorem tidy_writeChain {ms : List (List Char)} (h : ∀ m ∈ ms, Tidy m) :
    Tidy (writeChain ms) := by
  induction ms with
  | nil => exact .nil
  | cons m ms ih =>
    obtain ⟨hm, hms⟩ := List.forall_mem_cons.1 h
    exact .cons rfl (.cons rfl (hm.append (ih hms)))

theorem tidy_writeAll {nodes : List ViewNode} (h : ∀ node ∈ nodes, Tidy node.write) :
    ∀ view ∈ writeAll nodes, Tidy view := by
  rw [writeAll_eq_map, List.forall_mem_map]
  exact h

theorem IsWritable.tidy {st : Settings} {node : ViewNode} (h : IsWritable st node) :
    Tidy node.write := by
  induction h with
  | element hname hprops hmodifiers _ ih =>
    rw [write_element]
    apply (tidy_of_isName hname).append
    apply Tidy.append
    · apply tidy_writeArguments
      rw [List.forall_mem_map]
      intro prop hp
      exact (hprops prop hp).tidy
    · apply (tidy_writeTrailing (tidy_writeAll ih)).append
      apply tidy_writeChain
      rw [List.forall_mem_map]
      intro modifier hm
      exact (hmodifiers modifier hm).tidy
  | plain hc _ ih =>
    rw [write_plain]
    have hblock := tidy_writeBlock (tidy_writeAll ih)
    exact .cons rfl (.cons rfl (.cons rfl ((tidy_of_isName hc).append (.cons rfl hblock))))
  | alternative hc _ _ ih ih' =>
    rw [write_alternative]
    have helse : Tidy [' ', 'e', 'l', 's', 'e', ' '] := tidy_of_ordinary (List.all_eq_true.1 rfl)
    have hblocks := (tidy_writeBlock (tidy_writeAll ih)).append
      (helse.append (tidy_writeBlock (tidy_writeAll ih')))
    exact .cons rfl (.cons rfl (.cons rfl ((tidy_of_isName hc).append (.cons rfl hblocks))))

end ViewHierarchy
