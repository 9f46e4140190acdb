import ViewHierarchy.Proofs.View.Covering
import ViewHierarchy.View.Block

/-! The number of views in a block. No character of a text is read twice: the blocks inside a
sibling are parts of it that stand apart from each other, and each node that a sibling makes itself
has characters of its own outside of them. So a text has at least as many characters as views. -/
namespace ViewHierarchy
open Text Source

variable {s rest : List Char}

theorem ViewNode.countForest_append (xs ys : List ViewNode) :
    countForest (xs ++ ys) = countForest xs + countForest ys := by
  induction xs with
  | nil => rw [List.nil_append, countForest, Nat.zero_add]
  | cons x xs ih => rw [List.cons_append, countForest, countForest, ih, Nat.add_assoc]

/-- The blocks taken together, without the parameters at their heads. -/
theorem length_flatten_map_le {f : List Char → List Char} (hf : ∀ s, (f s).length ≤ s.length)
    (blocks : List (List Char)) : (blocks.map f).flatten.length ≤ blocks.flatten.length := by
  induction blocks with
  | nil => exact Nat.le_refl _
  | cons block blocks ih =>
    simp only [List.map_cons, List.flatten_cons, List.length_append]
    exact Nat.add_le_add (hf block) ih

theorem length_labelledClosures_le (s : List Char) :
    (labelledClosures s).1.flatten.length + (labelledClosures s).2.length ≤ s.length := by
  fun_induction labelledClosures s with
  | case1 s hb => simp
  | case2 s block hb he => simp
  | case3 s block hb inner rest he hlt more ih =>
    have h₁ := enclosed?_length he
    have h₂ := labelledBlock?_length_le hb
    have h₃ : more.1.flatten.length + more.2.length ≤ rest.length := ih
    simp only [List.flatten_cons, List.length_append]
    omega

namespace Element

theorem length_forEachContent_le (arguments after : List Char) :
    (forEachContent arguments after).1.flatten.length + (forEachContent arguments after).2.length ≤
      arguments.length + after.length := by
  rw [forEachContent]
  split
  · next block h =>
    have h₁ := contentArgument?_length h
    simp only [List.flatten_singleton]
    omega
  · split
    · next block rest h =>
      have h₁ := contentClosure?_length h
      have h₂ := trimLeft_length_le after
      simp only [List.flatten_singleton]
      omega
    · simp

theorem length_leadingContent_le (name arguments after : List Char) :
    (leadingContent name arguments after).1.flatten.length +
      (leadingContent name arguments after).2.length ≤ arguments.length + after.length := by
  rw [leadingContent]
  split
  · exact length_forEachContent_le arguments after
  · simp

/-- Trailing closures are shorter than the text they are read from, if there are any. -/
theorem withTrailing_closures (name arguments : List Char) (content : List (List Char))
    (s : List Char) :
    (withTrailing name arguments content s).closures = content ∨
      (withTrailing name arguments content s).closures.flatten.length <
        content.flatten.length + s.length := by
  rw [withTrailing]
  split
  · next rest ht =>
    split
    · exact .inl rfl
    · next inner after he =>
      right
      have h₁ := trimLeft_length_le s
      have h₂ := enclosed?_length he
      have h₃ := length_labelledClosures_le after
      rw [ht] at h₁
      simp only [List.flatten_append, List.flatten_cons, List.length_append]
      omega
  · exact .inl rfl

theorem readAfterName_closures (name s : List Char) :
    (readAfterName name s).closures = [] ∨
      (readAfterName name s).closures.flatten.length < s.length := by
  have hs := trimLeft_length_le s
  rw [readAfterName]
  split
  · next rest hr =>
    rw [hr] at hs
    split
    · exact .inl rfl
    · next arguments after he =>
      right
      have h₁ := enclosed?_length he
      have h₂ := length_leadingContent_le name arguments after
      generalize leadingContent name arguments after = content at h₂ ⊢
      rcases withTrailing_closures name arguments content.1 content.2 with h | h
      · simp only [h]
        omega
      · simp only
        omega
  · simpa using withTrailing_closures name [] [] s

/-- The closures of an element, taken together, leave a character to the element itself. -/
theorem length_blocks_lt {text : List Char} (h : text ≠ []) :
    (read text).blocks.flatten.length < text.length := by
  have hpos := List.length_pos_iff.2 h
  have h₁ := length_flatten_map_le stripParameters_length_le (read text).closures
  have h₂ := dropWhile_length_le isNameCharacter (trim text)
  have h₃ := trim_length_le text
  rw [blocks]
  rcases readAfterName_closures (nameOf (trim text)) ((trim text).dropWhile isNameCharacter) with
    h | h
  · rw [read, h] at *
    simpa using hpos
  · rw [read] at *
    omega

end Element

/-- The nodes of a conditional without those of its blocks: the conditional and its branches. -/
def Conditional.ownNodes : Conditional → Nat
  | .plain _ _ => 2
  | .unfinished _ _ => 2
  | .alternative _ _ _ => 3
  | .chain _ _ next => next.ownNodes + 3

/-- The nodes of a sibling without those of its blocks. -/
def Sibling.ownNodes : Sibling → Nat
  | expression _ => 1
  | conditional c => c.ownNodes

theorem Conditional.ownNodes_le {c : Conditional} (h : read? s = some (c, rest)) :
    c.ownNodes + c.blocks.flatten.length + rest.length ≤ s.length := by
  fun_induction Conditional.read? s generalizing c rest with
  | case1 => cases h
  | case2 s condition block after hc he =>
    cases h
    have h₁ := clause?_length hc
    simp only [List.length_drop] at h₁
    simp only [ownNodes, blocks, List.flatten_singleton]
    omega
  | case3 s condition block rest' hc after he hlt hif hnone ih =>
    cases h
    have h₁ := clause?_length hc
    have h₂ := afterElse?_length_le he
    simp only [List.length_drop] at h₁
    simp only [ownNodes, blocks, List.flatten_singleton]
    omega
  | case4 s condition block rest' hc after he hlt hif next rest'' hnext ih =>
    cases h
    have h₁ := clause?_length hc
    have h₂ := afterElse?_length_le he
    have h₃ := ih hnext
    simp only [List.length_drop] at h₁
    simp only [ownNodes, blocks, List.flatten_cons, List.length_append]
    omega
  | case5 s condition block rest' hc after he hlt hif hbrace hnone =>
    cases h
    have h₁ := clause?_length hc
    simp only [List.length_drop] at h₁
    simp only [ownNodes, blocks, List.flatten_singleton, List.length_nil]
    omega
  | case6 s condition block rest' hc after he hlt hif hbrace otherwise rest'' hblock =>
    cases h
    have h₁ := clause?_length hc
    have h₂ := afterElse?_length_le he
    have h₃ := enclosed?_length hblock
    simp only [List.length_drop] at h₁
    simp only [ownNodes, blocks, List.flatten_cons, List.flatten_nil, List.length_append,
      List.length_nil]
    omega
  | case7 s condition block rest' hc after he hlt hif hbrace =>
    cases h
    have h₁ := clause?_length hc
    have h₂ := afterElse?_length_le he
    simp only [List.length_drop] at h₁
    simp only [ownNodes, blocks, List.flatten_singleton]
    omega

/-- What a sibling takes up in its text: its own nodes and the blocks inside it. -/
def Sibling.size (s : Sibling) : Nat := s.ownNodes + s.blocks.flatten.length

def Sibling.sizes : List Sibling → Nat
  | [] => 0
  | s :: ss => s.size + sizes ss

/-- The siblings of a block fit into its text. -/
theorem sizes_siblings_le (body : List Char) : Sibling.sizes (siblings body) ≤ body.length := by
  fun_induction siblings body with
  | case1 => exact Nat.zero_le _
  | case2 body c s hd hle conditional rest hc hlt ih =>
    rw [headConditional?, Option.ite_none_right_eq_some] at hc
    have h₁ := Conditional.ownNodes_le hc.2
    simp only [Sibling.sizes, Sibling.size, Sibling.ownNodes, Sibling.blocks]
    omega
  | case3 body c s hd hle hc hlt ih =>
    obtain ⟨p, hs, htext, -, -⟩ := headExpression_split (hd ▸ head_mark_dropSeparators body)
    have h₁ := Element.length_blocks_lt (htext ▸ List.cons_ne_nil c (trimRight p))
    have h₂ := congrArg List.length hs
    have h₃ : (headExpression (c :: s)).1.length ≤ (c :: p).length := by
      rw [htext]
      exact Nat.succ_le_succ (trimRight_length_le p)
    rw [List.length_append] at h₂
    simp only [Sibling.sizes, Sibling.size, Sibling.ownNodes, Sibling.blocks]
    omega

variable {st : Settings} {f : List Char → List ViewNode}

/-- Blocks that have no more nodes than characters do so together. -/
theorem countForest_flatMap_le {blocks : List (List Char)}
    (h : ∀ block ∈ blocks, ViewNode.countForest (f block) ≤ block.length) :
    ViewNode.countForest (blocks.flatMap f) ≤ blocks.flatten.length := by
  induction blocks with
  | nil => exact Nat.le_refl _
  | cons block blocks ih =>
    obtain ⟨hblock, hblocks⟩ := List.forall_mem_cons.1 h
    rw [List.flatMap_cons, ViewNode.countForest_append, List.flatten_cons, List.length_append]
    exact Nat.add_le_add hblock (ih hblocks)

theorem Conditional.count_node_le {c : Conditional}
    (h : ∀ block ∈ c.blocks, ViewNode.countForest (f block) ≤ block.length) :
    (c.node f).count ≤ c.ownNodes + c.blocks.flatten.length := by
  induction c with
  | plain condition block =>
    have h₁ := h block List.mem_cons_self
    simp only [node, nodeOf, ViewNode.branch, ViewNode.count, ViewNode.countForest, ownNodes,
      blocks, List.flatten_singleton]
    omega
  | unfinished condition block =>
    have h₁ := h block List.mem_cons_self
    simp only [node, nodeOf, ViewNode.branch, ViewNode.count, ViewNode.countForest, ownNodes,
      blocks, List.flatten_singleton]
    omega
  | alternative condition block otherwise =>
    have h₁ := h block List.mem_cons_self
    have h₂ := h otherwise (List.mem_cons_of_mem _ List.mem_cons_self)
    simp only [node, nodeOf, ViewNode.branch, ViewNode.count, ViewNode.countForest, ownNodes,
      blocks, List.flatten_cons, List.flatten_nil, List.length_append, List.length_nil]
    omega
  | chain condition block next ih =>
    obtain ⟨h₁, hnext⟩ := List.forall_mem_cons.1 h
    have h₂ := ih hnext
    simp only [node, nodeOf, ViewNode.branch, ViewNode.count, ViewNode.countForest, ownNodes,
      blocks, List.flatten_cons, List.length_append]
    omega

theorem Sibling.count_node_le {s : Sibling}
    (h : ∀ block ∈ s.blocks, ViewNode.countForest (f block) ≤ block.length) :
    (s.node st f).count ≤ s.size := by
  cases s with
  | expression text =>
    have h₁ := countForest_flatMap_le h
    simp only [node, Element.node, ViewNode.count, size, ownNodes, blocks] at h₁ ⊢
    omega
  | conditional c => exact Conditional.count_node_le h

theorem countForest_map_le {ss : List Sibling}
    (h : ∀ s ∈ ss, (s.node st f).count ≤ s.size) :
    ViewNode.countForest (ss.map (·.node st f)) ≤ Sibling.sizes ss := by
  induction ss with
  | nil => exact Nat.le_refl _
  | cons s ss ih =>
    obtain ⟨hs, hss⟩ := List.forall_mem_cons.1 h
    rw [List.map_cons, ViewNode.countForest, Sibling.sizes]
    exact Nat.add_le_add hs (ih hss)

theorem countForest_parseBlock_le (st : Settings) (body : List Char) :
    ViewNode.countForest (parseBlock st body) ≤ body.length := by
  rw [parseBlock_eq]
  refine Nat.le_trans (countForest_map_le fun s hs => Sibling.count_node_le fun block hb => ?_)
    (sizes_siblings_le body)
  have := Sibling.length_of_mem_blocks hs hb
  exact countForest_parseBlock_le st block
termination_by body.length

/-- The first text is read for the views inside a sibling of the second one. -/
def IsBlockIn (block body : List Char) : Prop := ∃ s ∈ siblings body, block ∈ s.blocks

/-- Reading goes from blocks to shorter blocks and so comes to an end, its result is what reading
the blocks inside the siblings gives, and it makes no more nodes than the text has characters. -/
theorem parseBlock_ends (st : Settings) (body : List Char) :
    WellFounded IsBlockIn ∧
      parseBlock st body = (siblings body).map (·.node st (parseBlock st)) ∧
      ViewNode.countForest (parseBlock st body) ≤ body.length := by
  refine ⟨?_, parseBlock_eq st body, countForest_parseBlock_le st body⟩
  apply Subrelation.wf _ (measure List.length).wf
  rintro block body ⟨s, hs, hb⟩
  exact Sibling.length_of_mem_blocks hs hb

end ViewHierarchy
