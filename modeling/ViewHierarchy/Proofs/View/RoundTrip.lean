import ViewHierarchy.Proofs.View.Calls
import ViewHierarchy.Proofs.View.Conditional
import ViewHierarchy.Proofs.View.Element
import ViewHierarchy.Proofs.View.Sibling

/-! Reading gives back the forests that were written. -/
namespace ViewHierarchy
open Text Source

variable {st : Settings} {node : ViewNode} {nodes : List ViewNode} {rest t : List Char}

/-- What follows the first word of a closure without making it a parameter. -/
def Follows (t : List Char) : Prop :=
  (∀ c ∈ (trimLeft t).head?, c ≠ ',' ∧ c ≠ '-') ∧ startsWithWord ['i', 'n'] (trimLeft t) = false

theorem follows_of_head (h : ∀ c ∈ (trimLeft t).head?, c = '(' ∨ c = '{' ∨ c = '.') :
    Follows t := by
  constructor
  · intro c hc
    rcases h c hc with rfl | rfl | rfl <;> decide
  · cases hs : trimLeft t with
    | nil => rfl
    | cons c s =>
      rcases h c (hs ▸ rfl) with rfl | rfl | rfl <;> rfl

theorem follows_of_word {w s : List Char} (ht : trimLeft t = w ++ s) (hw : isIdentifier w = true)
    (hin : w ≠ ['i', 'n']) (hs : Stops isWord s) : Follows t := by
  obtain ⟨⟨c, w, rfl, hc⟩, -⟩ := isIdentifier_iff.1 hw
  rw [Follows, ht]
  constructor
  · intro d hd
    cases hd
    have hrest := isAsciiRest_of_start hc
    exact ⟨ne_of_class hrest (by decide), ne_of_class hrest (by decide)⟩
  · exact startsWithWord_eq_false (isWord_of_isIdentifier (by decide)) (isWord_of_isIdentifier hw)
      hs hin.symm

theorem follows_of_ends (h : Ends rest) : Follows rest := by
  cases h with
  | text => exact follows_of_head fun c hc => by cases hc
  | block => exact follows_of_head fun c hc => by cases hc
  | @next w t hw _ hin ht =>
    apply follows_of_word _ hw hin ht
    rw [trimLeft_cons (by decide), trimLeft_identifier hw]

theorem Follows.append (ht : ∀ c ∈ (trimLeft t).head?, c = '(' ∨ c = '{' ∨ c = '.')
    (hrest : Follows rest) : Follows (t ++ rest) := by
  have htrim : trimLeft (t ++ rest) =
      if (trimLeft t).isEmpty then trimLeft rest else trimLeft t ++ rest :=
    List.dropWhile_append
  cases hs : trimLeft t with
  | nil =>
    rw [hs] at htrim
    rw [Follows, htrim]
    exact hrest
  | cons c s =>
    apply follows_of_head
    rw [htrim, hs]
    intro d hd
    exact ht d (hs ▸ hd)

theorem stops_of_ends {p : Char → Bool} (hp : p '\n' = false) (h : Ends rest) : Stops p rest := by
  cases h with
  | text => exact stops_nil
  | block => exact stops_cons hp _
  | next => exact stops_cons hp _

theorem stops_isWord (h : Stops isIdentifierRest t) : Stops isWord t :=
  fun c hc => (Bool.or_eq_false_iff.1 (h c hc)).1

/-- A view starts with a word that neither belongs to what stands before it nor is a parameter. -/
structure Leads (w t : List Char) : Prop where
  identifier : isIdentifier w = true
  not_else : w ≠ ['e', 'l', 's', 'e']
  not_in : w ≠ ['i', 'n']
  stops : Stops isIdentifierRest t
  follows : ∀ rest, Ends rest → Follows (t ++ rest)

theorem Leads.ends {w : List Char} (h : Leads w t) (hrest : Ends rest) :
    Ends ('\n' :: (w ++ (t ++ rest))) :=
  .next h.identifier h.not_else h.not_in
    (stops_isWord (h.stops.append (stops_of_ends (by decide) hrest)))

theorem leads_condition {condition : List Char} (hc : isName condition = true) (s : List Char) :
    Leads ['i', 'f'] (' ' :: (condition ++ ' ' :: s)) := by
  refine ⟨by decide, by decide, by decide, stops_cons (by decide) _, ?_⟩
  intro rest _
  have hin : condition ≠ ['i', 'n'] := ne_of_class hc (by decide)
  have htrim : trimLeft (' ' :: (condition ++ ' ' :: s) ++ rest) =
      condition ++ ' ' :: (s ++ rest) := by
    rw [List.cons_append, trimLeft_cons (by decide), List.append_assoc, List.cons_append]
    exact trimLeft_identifier (isIdentifier_of_isName hc) _
  exact follows_of_word htrim (isIdentifier_of_isName hc) hin (stops_cons (by decide) _)

theorem IsWritable.leads (h : IsWritable st node) : ∃ w t, node.write = w ++ t ∧ Leads w t := by
  cases h with
  | @element name props modifiers children hname _ _ _ =>
    refine ⟨_, _, write_element st name props modifiers children, isIdentifier_of_isName hname,
      ne_of_class hname (by decide), ne_of_class hname (by decide),
      stops_afterName (by decide) (by decide) (by decide) _ _ _, ?_⟩
    intro rest hrest
    exact (follows_of_ends hrest).append (head_trimLeft_afterName _ _ _)
  | plain hc _ => exact ⟨_, _, write_plain _ _, leads_condition hc _⟩
  | alternative hc _ _ => exact ⟨_, _, write_alternative _ _ _, leads_condition hc _⟩

/-- The node is the first sibling of every text that starts with it. -/
def Stands (st : Settings) (node : ViewNode) : Prop :=
  ∀ rest, Ends rest → ∃ s, siblings (node.write ++ rest) = s :: siblings rest ∧
    s.node st (parseBlock st) = node

/-- What stands behind the first view of a forest. -/
def following (nodes : List ViewNode) (rest : List Char) : List Char :=
  match nodes with
  | [] => rest
  | node :: nodes => '\n' :: (joinWith ['\n'] (writeAll (node :: nodes)) ++ rest)

theorem joinWith_writeAll_cons (node : ViewNode) (nodes : List ViewNode) (rest : List Char) :
    joinWith ['\n'] (writeAll (node :: nodes)) ++ rest = node.write ++ following nodes rest := by
  cases nodes with
  | nil => rfl
  | cons next nodes =>
    rw [writeAll, writeAll, joinWith, following, writeAll, List.append_assoc, List.append_assoc]
    rfl

theorem siblings_following (nodes : List ViewNode) (rest : List Char) :
    siblings (following nodes rest) = siblings (joinWith ['\n'] (writeAll nodes) ++ rest) := by
  cases nodes with
  | nil => rfl
  | cons node nodes => exact siblings_cons (by decide) _

theorem ends_following (h : ∀ n ∈ nodes, IsWritable st n) (hrest : Ends rest) :
    Ends (following nodes rest) := by
  induction nodes with
  | nil => exact hrest
  | cons node nodes ih =>
    obtain ⟨hn, hnodes⟩ := List.forall_mem_cons.1 h
    obtain ⟨w, t, hwrite, hleads⟩ := hn.leads
    rw [following, joinWith_writeAll_cons, hwrite, List.append_assoc]
    exact hleads.ends (ih hnodes)

/-- The first view of a block is not taken for parameters. -/
theorem stripParameters_blockText (h : ∀ n ∈ node :: nodes, IsWritable st n) :
    stripParameters (blockText (writeAll (node :: nodes))) =
      blockText (writeAll (node :: nodes)) := by
  obtain ⟨hn, hnodes⟩ := List.forall_mem_cons.1 h
  obtain ⟨w, t, hwrite, hleads⟩ := hn.leads
  have hends := ends_following hnodes .block
  have hnone : afterClosureHead? (blockText (writeAll (node :: nodes))) = none := by
    have hline : ∀ s, afterClosureHead? ('\n' :: s) = afterClosureHead? s := by
      intro s
      rw [afterClosureHead?, trimLeft_cons (by decide), afterClosureHead?]
    obtain ⟨hnext, hin⟩ := hleads.follows _ hends
    rw [blockText, hline, joinWith_writeAll_cons, hwrite, List.append_assoc]
    exact afterClosureHead?_identifier hleads.identifier
      (hleads.stops.append (stops_of_ends (by decide) hends)) hnext hin
  rw [stripParameters, hnone]
  rfl

theorem parseBlock_writeAll (hw : ∀ n ∈ nodes, IsWritable st n) (hs : ∀ n ∈ nodes, Stands st n)
    (hrest : rest = [] ∨ rest = ['\n']) :
    parseBlock st (joinWith ['\n'] (writeAll nodes) ++ rest) = nodes := by
  induction nodes with
  | nil =>
    apply parseBlock_nil
    rcases hrest with rfl | rfl <;> rfl
  | cons node nodes ih =>
    obtain ⟨hn, hnodes⟩ := List.forall_mem_cons.1 hw
    obtain ⟨hsn, hsnodes⟩ := List.forall_mem_cons.1 hs
    have hends : Ends rest := by
      rcases hrest with rfl | rfl
      · exact .text
      · exact .block
    -- The first view ends where the next one starts, so the rest is read on its own.
    obtain ⟨s, hsib, hnode⟩ := hsn _ (ends_following hnodes hends)
    have ih := ih hnodes hsnodes
    rw [parseBlock_eq] at ih
    rw [parseBlock_eq, joinWith_writeAll_cons, hsib, siblings_following, List.map_cons, hnode, ih]

theorem parseBlock_blockText (hw : ∀ n ∈ nodes, IsWritable st n) (hs : ∀ n ∈ nodes, Stands st n) :
    parseBlock st (blockText (writeAll nodes)) = nodes := by
  rw [blockText, parseBlock_eq, siblings_cons (by decide), ← parseBlock_eq,
    parseBlock_writeAll hw hs (.inr rfl)]

theorem map_ofList_toList (ss : List String) : (ss.map String.toList).map String.ofList = ss := by
  simp

theorem stands_element {name : String} {props modifiers : List String} {children : List ViewNode}
    (hname : isName name.toList = true)
    (hprops : ∀ prop ∈ props, IsArgument st.maxPropLength prop.toList)
    (hmodifiers : ∀ modifier ∈ modifiers, IsCall modifier.toList)
    (hw : ∀ child ∈ children, IsWritable st child) (hs : ∀ child ∈ children, Stands st child) :
    Stands st ⟨name, st.classify name, props, modifiers, children⟩ := by
  intro rest hrest
  -- The text is read part by part, and the children in the block that holds them.
  have hargs : ∀ a ∈ props.map String.toList, IsArgument st.maxPropLength a :=
    List.forall_mem_map.2 hprops
  have hcalls : ∀ m ∈ modifiers.map String.toList, IsCall m := List.forall_mem_map.2 hmodifiers
  have hviews : ∀ view ∈ writeAll children, Tidy view :=
    tidy_writeAll fun child hc => (hw child hc).tidy
  have hblocks : ((trailingClosures (writeAll children)).map stripParameters).flatMap
      (parseBlock st) = children := by
    -- A closure is written only if there are children to stand in it.
    cases children with
    | nil => rfl
    | cons child children =>
      have hchildren := parseBlock_blockText hw hs
      simp only [writeAll, trailingClosures, List.map_cons, List.map_nil, List.flatMap_cons,
        List.flatMap_nil, List.append_nil]
      rw [← writeAll, stripParameters_blockText hw, hchildren]
  have hread := read_write hname hargs hviews hcalls
  refine ⟨.expression (ViewNode.mk name (st.classify name) props modifiers children).write, ?_, ?_⟩
  · rw [write_element]
    apply siblings_runs hname _ _ (trim_write hname hcalls _ _) hrest
    · apply Stops.append
      · exact stops_afterName (by decide) (by decide) (by decide) _ _ _
      · exact stops_of_ends (by decide) hrest
    · exact runs_write hname (fun a ha => (hargs a ha).tidy) hviews hcalls
  · rw [write_element, Sibling.node, hread, Element.node, Element.blocks, hblocks]
    simp only [properties_arguments hargs, modifiers_writeChain hcalls, String.ofList_toList,
      map_ofList_toList]

theorem IsWritable.stands (h : IsWritable st node) : Stands st node := by
  induction h with
  | element hname hprops hmodifiers hchildren ih =>
    exact stands_element hname hprops hmodifiers hchildren ih
  | @plain condition children hc hchildren ih =>
    intro rest hrest
    have hviews := tidy_writeAll fun child hm => (hchildren child hm).tidy
    refine ⟨.conditional (.plain condition (blockText (writeAll children))), ?_, ?_⟩
    · have hhead := headConditional?_plain hc hviews hrest
      rw [write_plain]
      simp only [List.cons_append, List.append_assoc]
      exact siblings_conditional (dropSeparators_of_isAsciiRest (by decide) _) hhead
    · rw [Sibling.node, Conditional.node, parseBlock_blockText hchildren ih]
  | @alternative condition children others hc hchildren hothers ih ih' =>
    intro rest _
    have hviews := tidy_writeAll fun child hm => (hchildren child hm).tidy
    have hviews' := tidy_writeAll fun child hm => (hothers child hm).tidy
    refine ⟨.conditional (.alternative condition (blockText (writeAll children))
      (blockText (writeAll others))), ?_, ?_⟩
    · have hhead := headConditional?_alternative hc hviews hviews' rest
      rw [write_alternative]
      simp only [List.cons_append, List.append_assoc]
      exact siblings_conditional (dropSeparators_of_isAsciiRest (by decide) _) hhead
    · rw [Sibling.node, Conditional.node, parseBlock_blockText hchildren ih,
        parseBlock_blockText hothers ih']

/-- Names on lines of their own are views of those names. -/
theorem parseBlock_names (st : Settings) (names : List String)
    (h : ∀ name ∈ names, isName name.toList = true) :
    parseBlock st (joinWith ['\n'] (names.map String.toList)) =
      names.map fun name => ⟨name, st.classify name, [], [], []⟩ := by
  have hview : ∀ node ∈ names.map fun name => (⟨name, st.classify name, [], [], []⟩ : ViewNode),
      IsWritable st node := by
    rw [List.forall_mem_map]
    intro name hname
    apply IsWritable.element (h name hname)
    · exact List.forall_mem_nil _
    · exact List.forall_mem_nil _
    · exact List.forall_mem_nil _
  have hread := parseBlock_writeAll hview (fun node hn => (hview node hn).stands) (.inl rfl)
  have hwrite : ∀ name : String,
      (ViewNode.mk name (st.classify name) [] [] []).write = name.toList := by
    intro name
    rw [write_element]
    exact List.append_nil _
  simpa [writeAll_eq_map, hwrite, Function.comp_def] using hread

/-- A name alone is a view of that name. -/
theorem parseBlock_name (st : Settings) (name : String) (h : isName name.toList = true) :
    parseBlock st name.toList = [⟨name, st.classify name, [], [], []⟩] :=
  parseBlock_names st [name] (List.forall_mem_singleton.2 h)

/-- A stack that holds a conditional with two branches. -/
def stackView : ViewNode :=
  ⟨"VStack", .container, ["spacing: x", "y"], ["bg(v)"],
    [Conditional.nodeOf ['c'] [.branch "Then" [⟨"Text", .view, [], ["bold"], []⟩],
      .branch "Else" []]]⟩

theorem isWritable_stackView : IsWritable .default stackView := by
  have hx : IsArgument 60 ("spacing".toList ++ ':' :: ' ' :: ['x']) :=
    .labelled (by decide) (by decide) (by decide)
  have hbg : IsCall (['b', 'g'] ++ '(' :: (['v'] ++ [')'])) := .applied (by decide) (by decide)
  have htext : IsWritable .default ⟨"Text", .view, [], ["bold"], []⟩ := by
    apply @IsWritable.element .default "Text" [] ["bold"] [] (by decide)
    · exact List.forall_mem_nil _
    · exact List.forall_mem_singleton.2 (.plain (by decide))
    · exact List.forall_mem_nil _
  have hif := @IsWritable.alternative .default ['c'] _ [] (by decide)
    (List.forall_mem_singleton.2 htext) (List.forall_mem_nil _)
  apply @IsWritable.element .default "VStack" ["spacing: x", "y"] ["bg(v)"] _ (by decide)
  · exact List.forall_mem_cons.2 ⟨hx, List.forall_mem_singleton.2 (.value (by decide) (by decide))⟩
  · exact List.forall_mem_singleton.2 hbg
  · intro child hc
    rw [List.mem_singleton.1 hc]
    exact hif

/-- Reading a forest that was written gives the forest. -/
theorem parseBlock_writeForest (st : Settings) (nodes : List ViewNode)
    (h : ∀ node ∈ nodes, IsWritable st node) : parseBlock st (writeForest nodes) = nodes := by
  have := parseBlock_writeAll h (fun node hn => (h node hn).stands) (.inl rfl)
  rwa [List.append_nil] at this

theorem parseBlock_stackView :
    (∀ node ∈ [stackView], IsWritable .default node) ∧
      writeForest [stackView] =
        "VStack(spacing: x, y) \x7b\nif c \x7b\nText\n.bold\n".toList ++
          "\x7d else \x7b\n\n\x7d\n\x7d\n.bg(v)".toList ∧
      parseBlock .default (writeForest [stackView]) = [stackView] :=
  have h := List.forall_mem_singleton.2 isWritable_stackView
  ⟨h, by decide, parseBlock_writeForest .default [stackView] h⟩

end ViewHierarchy
