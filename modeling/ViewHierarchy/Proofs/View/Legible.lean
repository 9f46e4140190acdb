import ViewHierarchy.Proofs.Text.Line
import ViewHierarchy.Proofs.View.Shape

/-! Trees that stand on lines: no text in them holds a line break, and only the names of
conditionals hold spaces. -/
namespace ViewHierarchy
open Text Source

/-- What lets a node stand on a line of its own and be told from its line. -/
structure IsLegible (node : ViewNode) : Prop where
  name : IsLine node.name.toList
  props : ∀ p ∈ node.props, IsLine p.toList
  modifiers : ∀ m ∈ node.modifiers, IsLine m.toList
  word : node.kind ≠ .conditional → ' ' ∉ node.name.toList
  conditional : node.kind = .conditional → node.props = [] ∧ node.modifiers = []

variable {st : Settings} {ds : Declarations} {node : ViewNode} {s rest : List Char}
  {forest : List Char → List ViewNode}

/-- The conditions of a chain of conditionals. -/
def Conditional.conditions : Conditional → List (List Char)
  | plain condition _ => [condition]
  | unfinished condition _ => [condition]
  | alternative condition _ _ => [condition]
  | chain condition _ next => condition :: next.conditions

theorem isLine_clause? {clause : Clause} (h : clause? s = some (clause, rest)) :
    IsLine clause.condition := by
  obtain ⟨n, -, h⟩ := Option.bind_eq_some_iff.1 h
  obtain ⟨⟨block, after⟩, -, h⟩ := Option.bind_eq_some_iff.1 h
  cases h
  exact isLine_collapse _

theorem Conditional.isLine_read? {c : Conditional} (h : read? s = some (c, rest)) :
    ∀ condition ∈ c.conditions, IsLine condition := by
  fun_induction Conditional.read? s generalizing c rest with
  | case1 => cases h
  | case2 s condition block after hc he =>
    cases h
    exact List.forall_mem_singleton.2 (isLine_clause? hc)
  | case3 s condition block rest' hc after he hlt hif hnone ih =>
    cases h
    exact List.forall_mem_singleton.2 (isLine_clause? hc)
  | case4 s condition block rest' hc after he hlt hif next rest'' hnext ih =>
    cases h
    exact List.forall_mem_cons.2 ⟨isLine_clause? hc, ih hnext⟩
  | case5 s condition block rest' hc after he hlt hif hbrace hnone =>
    cases h
    exact List.forall_mem_singleton.2 (isLine_clause? hc)
  | case6 s condition block rest' hc after he hlt hif hbrace otherwise rest'' hblock =>
    cases h
    exact List.forall_mem_singleton.2 (isLine_clause? hc)
  | case7 s condition block rest' hc after he hlt hif hbrace =>
    cases h
    exact List.forall_mem_singleton.2 (isLine_clause? hc)

theorem isLine_of_mem_siblings {body : List Char} {c : Conditional}
    (h : .conditional c ∈ siblings body) : ∀ condition ∈ c.conditions, IsLine condition := by
  fun_induction siblings body with
  | case1 => cases h
  | case2 body d s hd hle found rest hc hlt ih =>
    rcases List.mem_cons.1 h with he | h
    · cases he
      rw [headConditional?, Option.ite_none_right_eq_some] at hc
      exact Conditional.isLine_read? hc.2
    · exact ih h
  | case3 body d s hd hle hc hlt ih =>
    rcases List.mem_cons.1 h with he | h
    · cases he
    · exact ih h

theorem isLegible_branch {name : String} (h : IsLine name.toList) (hword : ' ' ∉ name.toList)
    (children : List ViewNode) : IsLegible (.branch name children) where
  name := h
  props := List.forall_mem_nil _
  modifiers := List.forall_mem_nil _
  word _ := hword
  conditional hkind := by cases hkind

theorem isLegible_nodeOf {condition : List Char} (h : IsLine condition)
    (branches : List ViewNode) : IsLegible (Conditional.nodeOf condition branches) where
  name := by
    have hif : IsLine "if ".toList := by decide
    have hname : (Conditional.nodeOf condition branches).name.toList =
        "if ".toList ++ condition := by
      simp [Conditional.nodeOf]
    rw [hname]
    exact hif.append h
  props := List.forall_mem_nil _
  modifiers := List.forall_mem_nil _
  word hkind := absurd rfl hkind
  conditional _ := ⟨rfl, rfl⟩

theorem legible_conditional {c : Conditional} (hc : ∀ condition ∈ c.conditions, IsLine condition)
    (h : ∀ block ∈ c.blocks, ∀ node ∈ forest block, node.Everywhere IsLegible) :
    (c.node forest).Everywhere IsLegible := by
  have hthen : ∀ {children}, (∀ child ∈ children, child.Everywhere IsLegible) →
      (ViewNode.branch "Then" children).Everywhere IsLegible :=
    ViewNode.everywhere_of_children (isLegible_branch (by decide) (by decide) _)
  have helse : ∀ {children}, (∀ child ∈ children, child.Everywhere IsLegible) →
      (ViewNode.branch "Else" children).Everywhere IsLegible :=
    ViewNode.everywhere_of_children (isLegible_branch (by decide) (by decide) _)
  induction c with
  | plain condition block | unfinished condition block =>
    apply ViewNode.everywhere_of_children (isLegible_nodeOf (hc condition List.mem_cons_self) _)
    exact List.forall_mem_singleton.2 (hthen (h block List.mem_cons_self))
  | alternative condition block otherwise =>
    simp only [Conditional.blocks, List.forall_mem_cons] at h
    apply ViewNode.everywhere_of_children (isLegible_nodeOf (hc condition List.mem_cons_self) _)
    simp only [Conditional.nodeOf, List.forall_mem_cons]
    exact ⟨hthen h.1, helse h.2.1, List.forall_mem_nil _⟩
  | chain condition block next ih =>
    simp only [Conditional.blocks, List.forall_mem_cons] at h
    obtain ⟨hcondition, hnext⟩ := List.forall_mem_cons.1 hc
    apply ViewNode.everywhere_of_children (isLegible_nodeOf hcondition _)
    simp only [Conditional.nodeOf, List.forall_mem_cons]
    exact ⟨hthen h.1, helse (List.forall_mem_singleton.2 (ih hnext h.2)), List.forall_mem_nil _⟩

theorem isBlank_of_isNameCharacter {c : Char} (h : Element.isNameCharacter c = true) :
    isBlank c = false := by
  rw [Element.isNameCharacter, Bool.or_eq_true] at h
  rcases h with h | h
  · exact isBlank_of_isAsciiRest h
  · rw [eq_of_beq h]
    decide

theorem isBlank_of_mem_name (text : List Char) :
    ∀ c ∈ (Element.read text).name, isBlank c = false := by
  intro c hc
  rw [Element.read, Element.name_readAfterName] at hc
  exact isBlank_of_isNameCharacter (isNameCharacter_of_mem_nameOf hc)

theorem isLine_normalizeValue (limit : Int) (value : List Char) :
    IsLine (normalizeValue limit value) := by
  have hline := isLine_collapse value
  unfold normalizeValue
  dsimp only
  split
  · apply IsLine.append
    · exact fun c hc => hline c (List.mem_of_mem_take hc)
    · decide
  · exact hline

theorem isLine_property (limit : Int) (argument : List Char) :
    IsLine (property limit argument) := by
  unfold property
  split
  · next label value h =>
    have hlabel : IsLine label := by
      have hword : IsLine (argument.takeWhile isWord) :=
        isLine_of_isWord (List.all_eq_true.1 List.all_takeWhile)
      unfold labelled? at h
      dsimp only at h
      split at h
      · obtain ⟨-, h⟩ := Option.ite_none_left_eq_some.1 h
        cases h
        exact hword
      · cases h
    exact hlabel.append (.cons (by decide) (.cons (by decide) (isLine_normalizeValue limit value)))
  · exact isLine_normalizeValue limit argument

theorem isLine_modifierArguments (s : List Char) : IsLine (modifierArguments s).1 := by
  unfold modifierArguments
  split
  · split
    · exact isLine_collapse _
    · exact isLine_nil
  · exact isLine_nil

theorem isLine_modifier? {call : List Char} (h : modifier? s = some (call, rest)) :
    IsLine call := by
  have hname : IsLine (s.takeWhile isWord) :=
    isLine_of_isWord (List.all_eq_true.1 List.all_takeWhile)
  have hargs := isLine_modifierArguments (s.dropWhile isWord)
  unfold modifier? at h
  split at h
  · cases h
  · next c name htake =>
    rw [htake] at hname
    dsimp only at h
    split at h
    · cases h
      exact hname
    · cases h
      exact (hname.append (.cons (by decide) hargs)).append (.cons (by decide) isLine_nil)

theorem isLegible_element (st : Settings) (forest : List Char → List ViewNode) (text : List Char) :
    IsLegible ((Element.read text).node st forest) := by
  have hname := isBlank_of_mem_name text
  have hkind := (classify_ne_branching st (String.ofList (Element.read text).name)).1
  constructor
  · rw [Element.node, String.toList_ofList]
    exact fun c hc => isLineBreak_of_not_blank (hname c hc)
  · intro p hp
    obtain ⟨property, hproperty, rfl⟩ := List.mem_map.1 hp
    obtain ⟨argument, -, rfl⟩ := List.mem_map.1 hproperty
    rw [String.toList_ofList]
    exact isLine_property _ _
  · intro m hm
    obtain ⟨modifier, hmodifier, rfl⟩ := List.mem_map.1 hm
    obtain ⟨t, rest, ht⟩ := exists_modifier? hmodifier
    rw [String.toList_ofList]
    exact isLine_modifier? ht
  · intro _ hspace
    rw [Element.node, String.toList_ofList] at hspace
    exact absurd (hname ' ' hspace) (by decide)
  · exact fun h => absurd h hkind

theorem legible_parseBlock (st : Settings) (body : List Char) :
    ∀ node ∈ parseBlock st body, node.Everywhere IsLegible := by
  apply forall_mem_parseBlock
  intro body s hs h
  cases s with
  | expression text =>
    apply ViewNode.everywhere_of_children (isLegible_element st _ text)
    intro child hc
    obtain ⟨block, hb, hc⟩ := List.mem_flatMap.1 hc
    exact h block hb child hc
  | conditional c => exact legible_conditional (isLine_of_mem_siblings hs) h

/-- Only the marker is added to a node. -/
theorem IsLegible.resolve (hmarker : IsLine st.recursionMarker.toList) (progress : List String)
    (node : ViewNode) (h : IsLegible node) : IsLegible (resolve st ds progress node) := by
  cases hu : node.isUse st ds with
  | false =>
    rw [resolve_kept hu]
    exact ⟨h.name, h.props, h.modifiers, h.word, h.conditional⟩
  | true =>
    have hkind := (ViewNode.isUse_iff.1 hu).1
    have hne : node.kind ≠ .conditional := by
      rw [hkind]
      exact NodeKind.noConfusion
    by_cases hp : node.name ∈ progress
    · rw [resolve_marked hu hp]
      refine ⟨h.name, h.props, ?_, h.word, fun hc => absurd hc hne⟩
      exact List.forall_mem_append.2 ⟨h.modifiers, List.forall_mem_singleton.2 hmarker⟩
    · rw [resolve_expanded hu hp]
      exact ⟨h.name, h.props, h.modifiers, fun _ => h.word hne, fun hc => by cases hc⟩

/-- A tree that is built is legible if the marker is. -/
theorem legible_buildTree {root : String} {tree : ViewNode}
    (hmarker : IsLine st.recursionMarker.toList) (h : buildTree st ds root = some tree) :
    tree.Everywhere IsLegible := by
  have hforest : ∀ name, ∀ node ∈ ds.forest st name, node.Everywhere IsLegible :=
    fun name => legible_parseBlock st _
  have hgroup : IsLegible ⟨"Group", .container, [], [], ds.forest st root⟩ := by
    constructor
    · exact (by decide : IsLine "Group".toList)
    · exact List.forall_mem_nil _
    · exact List.forall_mem_nil _
    · exact fun _ => (by decide : ' ' ∉ "Group".toList)
    · exact fun _ => ⟨rfl, rfl⟩
  obtain ⟨node, hnode, rfl⟩ := Option.map_eq_some_iff.1 h
  exact everywhere_resolve hforest (IsLegible.resolve hmarker) [root] node
    (.rootOf hgroup (hforest root) hnode)

end ViewHierarchy
