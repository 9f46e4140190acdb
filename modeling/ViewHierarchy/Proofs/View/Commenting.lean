import ViewHierarchy.Proofs.Source.Skipping
import ViewHierarchy.Proofs.View.Assembling
import ViewHierarchy.Proofs.View.Extent
import ViewHierarchy.Proofs.View.RoundTrip

/-! Comments inside an expression. Between siblings a comment is trivia, so one behind the brace of
a block changes nothing. In front of an argument list or of a block only white space is passed over:
an element ends before a comment there. -/
namespace ViewHierarchy
open Text Source

variable {name arguments body gap s t : List Char}

/-- A comment that ends at the first star and slash behind its opening. -/
def IsBlockComment (s : List Char) : Prop :=
  ∃ text, ¬['*', '/'] <:+: text ∧ s = '/' :: '*' :: (text ++ ['*', '/'])

/-- What may be put between two tokens: a comment with a space on each side, or a comment that takes
the rest of its line, with the line break. -/
inductive IsCommentGap : List Char → Prop
  | block {comment} : IsBlockComment comment → IsCommentGap (' ' :: (comment ++ [' ']))
  | line {text} : '\n' ∉ text → IsCommentGap ('/' :: '/' :: (text ++ ['\n']))

theorem blockCommentTail_append {text : List Char} (h : ¬['*', '/'] <:+: text) (t : List Char) :
    blockCommentTail (text ++ '*' :: '/' :: t) = text.length + 2 := by
  induction text with
  | nil => rfl
  | cons c text ih =>
    have hno : ¬['*', '/'] <+: c :: (text ++ '*' :: '/' :: t) := by
      intro hp
      obtain ⟨rfl, hslash⟩ := List.cons_prefix_cons.1 hp
      cases text with
      | nil => exact absurd (List.cons_prefix_cons.1 hslash).1 (by decide)
      | cons d text =>
        obtain ⟨rfl, -⟩ := List.cons_prefix_cons.1 hslash
        exact h (List.prefix_append ['*', '/'] text).isInfix
    rw [List.cons_append, blockCommentTail_cons hno,
      ih fun hp => h (hp.trans (List.suffix_cons c text).isInfix), List.length_cons]

theorem IsBlockComment.literal? (h : IsBlockComment s) (t : List Char) :
    literal? (s ++ t) = some (.comment, s.length) := by
  obtain ⟨text, hend, rfl⟩ := h
  rw [List.cons_append, List.cons_append, List.append_assoc, List.cons_append,
    List.singleton_append, Source.literal?, blockCommentTail_append hend, List.length_cons,
    List.length_cons, List.length_append]
  rfl

theorem literal?_lineComment {text : List Char} (h : '\n' ∉ text) (t : List Char) :
    literal? ('/' :: '/' :: (text ++ '\n' :: t)) = some (.comment, text.length + 2) := by
  have htext : ∀ c ∈ text, (c != '\n') = true := by
    intro c hc
    exact bne_iff_ne.2 (ne_of_mem_of_not_mem hc h)
  have htail : lineCommentTail (text ++ '\n' :: t) = text.length := by
    have hstop : Stops (· != '\n') ('\n' :: t) := stops_cons (by decide) t
    rw [lineCommentTail, hstop.takeWhile_append htext]
  rw [Source.literal?, htail]

/-- A comment is marked as a whole, whatever follows it. -/
theorem IsCommentGap.seam (h : IsCommentGap gap) (t : List Char) : Seam t gap := by
  have hblank : ∀ {c : Char}, isBlank c = true → Seam t [c] :=
    fun hc => .code (literal?_of_isBlank hc _) .nil
  cases h with
  | @block comment hcomment =>
    have hl : literal? (comment ++ [' '] ++ t) = some (.comment, comment.length) := by
      rw [List.append_assoc]
      exact hcomment.literal? _
    apply Seam.code (literal?_of_isBlank (by decide) _)
    apply Seam.literal hl (by simp)
    rw [List.drop_left]
    exact hblank (by decide)
  | @line text htext =>
    have hl : literal? ('/' :: '/' :: (text ++ ['\n']) ++ t) =
        some (.comment, text.length + 2) := by
      rw [List.cons_append, List.cons_append, List.append_assoc]
      exact literal?_lineComment htext t
    apply Seam.literal hl (by simp)
    rw [List.drop_succ_cons, List.drop_succ_cons, List.drop_left]
    exact hblank (by decide)

theorem IsCommentGap.isGap (h : IsCommentGap gap) : IsGap gap := by
  have hcomment : ∀ u : List Char, ∀ m ∈ u.map (·, Role.comment),
      Marked.isTrivia m = true := by
    intro u m hm
    obtain ⟨c, -, rfl⟩ := List.mem_map.1 hm
    rfl
  have hblank : ∀ c, isBlank c = true → ∀ m ∈ mark [c], m.isTrivia = true := by
    intro c hc
    rw [mark_cons (literal?_of_isBlank hc []), mark_nil]
    exact List.forall_mem_singleton.2 hc
  rw [IsGap]
  cases h with
  | @block comment hc =>
    have hl := hc.literal? [' ']
    rw [mark_cons (literal?_of_isBlank (by decide) _), mark_literal hl, List.take_left,
      List.drop_left]
    exact List.forall_mem_cons.2
      ⟨rfl, List.forall_mem_append.2 ⟨hcomment comment, hblank ' ' rfl⟩⟩
  | @line text htext =>
    have hl := literal?_lineComment htext []
    rw [mark_literal hl, List.take_succ_cons, List.take_succ_cons, List.take_left,
      List.drop_succ_cons, List.drop_succ_cons, List.drop_left]
    exact List.forall_mem_append.2 ⟨hcomment ('/' :: '/' :: text), hblank '\n' rfl⟩

theorem IsCommentGap.exists_slash (h : IsCommentGap gap) :
    ∃ w s, gap = w ++ '/' :: s ∧ ∀ c ∈ w, isBlank c = true := by
  cases h with
  | block hc =>
    obtain ⟨text, -, rfl⟩ := hc
    exact ⟨[' '], _, rfl, List.forall_mem_singleton.2 rfl⟩
  | line => exact ⟨[], _, rfl, List.forall_mem_nil _⟩

/-- A comment holds no bracket, so the text behind it fills the same brackets with it. -/
theorem IsCommentGap.fills (h : IsCommentGap gap) (hbody : Fills '{' '}' body) :
    Fills '{' '}' (gap ++ body) := by
  have hnested : Nested (mark gap) := nested_of_forall fun m hm =>
    isBracket_of_isSeparator (isSeparator_of_isTrivia (h.isGap m hm))
  rw [fills_iff rfl] at hbody ⊢
  rw [List.append_assoc, (h.seam _).mark_append, hnested.closeOffset?_append rfl, hbody,
    Option.map_some, length_mark, List.length_append, Nat.add_comm]

/-- Comments in front of the views of a block are passed over. -/
theorem IsCommentGap.parseBlock (h : IsCommentGap gap) (st : Settings) (body : List Char) :
    parseBlock st (gap ++ body) = parseBlock st body := by
  have hseparators : ∀ m ∈ mark gap, m.isSeparator = true :=
    fun m hm => isSeparator_of_isTrivia (h.isGap m hm)
  have hskip : skip Marked.isSeparator gap = [] := by
    rw [skip, List.takeWhile_eq_self_iff.2 hseparators, length_mark, List.drop_length]
  have hdrop : dropSeparators (gap ++ body) = dropSeparators body := by
    rw [dropSeparators_eq_skip, skip_append (h.seam body), if_pos hskip, dropSeparators_eq_skip]
  rw [parseBlock_eq, siblings_congr hdrop, ← parseBlock_eq]

/-- A comment is no parameter, and neither is what stands behind it. -/
theorem IsCommentGap.stripParameters (h : IsCommentGap gap) (body : List Char) :
    stripParameters (gap ++ body) = gap ++ body := by
  obtain ⟨w, s, rfl, hw⟩ := h.exists_slash
  have htrim : trimLeft (w ++ '/' :: (s ++ body)) = '/' :: (s ++ body) := by
    rw [trimLeft_blank_append hw, trimLeft_kept (by decide)]
  have hidentifiers : afterIdentifiers? ('/' :: (s ++ body)) = none := by
    rw [afterIdentifiers?, if_neg (by decide)]
  have hnone : afterClosureHead? (w ++ '/' :: (s ++ body)) = none := by
    rw [afterClosureHead?, htrim, afterCaptures_of_head (by rintro c ⟨⟩; decide)]
    simp only [Option.bind_eq_bind, Option.bind_some]
    rw [afterParameters?_of_head (by rintro c ⟨⟩; decide), hidentifiers]
    rfl
  rw [List.append_assoc, List.cons_append, ViewHierarchy.stripParameters, hnone]
  rfl

theorem withTrailing_none (name arguments : List Char) (content : List (List Char))
    (h : ∀ c ∈ (trimLeft t).head?, c ≠ '{') :
    Element.withTrailing name arguments content t =
      ⟨name, arguments, content, t, false, false⟩ := by
  rw [Element.withTrailing]
  split
  · next ht => exact absurd rfl (h '{' (ht ▸ rfl))
  · rfl

section

variable (st : Settings) (hname : name ≠ [])
  (hchars : ∀ c ∈ name, Element.isNameCharacter c = true)

include hname hchars

/-- The children come from the content argument, the block and the closures with labels. -/
theorem children_expressionText (harguments : Fills '(' ')' arguments) (hbody : Fills '{' '}' body)
    (tail : List Char) :
    (parseExpression st (expressionText name arguments body [] tail)).children =
      (Element.argumentContent name arguments ++
        body :: (labelledClosures (trimRight tail)).1).flatMap
          fun b => parseBlock st (stripParameters b) := by
  rw [parseExpression, read_block hname hchars harguments hbody, Element.node, Element.blocks,
    List.flatMap_map, labelledText, List.nil_append]

/-- An element ends before a comment behind its arguments. -/
theorem children_comment_block (harguments : Fills '(' ')' arguments) (hgap : IsCommentGap gap)
    (t : List Char) :
    (parseExpression st (name ++ '(' :: (arguments ++ ')' :: (gap ++ t)))).children =
      (Element.argumentContent name arguments).flatMap
        fun b => parseBlock st (stripParameters b) := by
  obtain ⟨w, s, rfl, hw⟩ := hgap.exists_slash
  have htrim : trimLeft (trimRight ((w ++ '/' :: s) ++ t)) = '/' :: trimRight (s ++ t) := by
    rw [List.append_assoc, List.cons_append, trimRight_append_cons (by decide),
      trimLeft_blank_append hw, trimLeft_kept (by decide)]
  rw [parseExpression, read_arguments hname hchars harguments (by rw [htrim]; rintro c ⟨⟩; decide),
    withTrailing_none _ _ _ (by rw [htrim]; rintro c ⟨⟩; decide), Element.node, Element.blocks,
    List.flatMap_map]

/-- An element ends before a comment behind its name. -/
theorem children_comment_arguments (hgap : IsCommentGap gap) (t : List Char) :
    (parseExpression st (name ++ (gap ++ t))).children = [] := by
  obtain ⟨w, s, rfl, hw⟩ := hgap.exists_slash
  obtain ⟨c, rest, rfl⟩ := List.exists_cons_of_ne_nil hname
  have hc := isBlank_of_isNameCharacter (hchars c List.mem_cons_self)
  have htext : c :: rest ++ ((w ++ '/' :: s) ++ t) = c :: ((rest ++ w) ++ '/' :: (s ++ t)) := by
    simp only [List.cons_append, List.append_assoc]
  have hstop : Stops Element.isNameCharacter (w ++ '/' :: trimRight (s ++ t)) := by
    refine Stops.append (stops_of_forall fun d hd => ?_) (stops_cons (by decide) _)
    rw [← Bool.not_eq_true]
    intro hchar
    exact Bool.false_ne_true ((isBlank_of_isNameCharacter hchar).symm.trans (hw d hd))
  have htrim : trimLeft (w ++ '/' :: trimRight (s ++ t)) = '/' :: trimRight (s ++ t) := by
    rw [trimLeft_blank_append hw, trimLeft_kept (by decide)]
  have hread : Element.readAfterName (c :: rest) (w ++ '/' :: trimRight (s ++ t)) =
      ⟨c :: rest, [], [], w ++ '/' :: trimRight (s ++ t), false, false⟩ := by
    rw [Element.readAfterName, htrim]
    exact withTrailing_none _ _ _ (by rw [htrim]; rintro c ⟨⟩; decide)
  rw [htext, parseExpression, Element.read, trim_cons hc, trimRight_append_cons (by decide),
    List.append_assoc, ← List.cons_append, Element.nameOf_append hname hchars hstop,
    hstop.dropWhile_append hchars, hread]
  rfl

end

/-- A comment behind the brace of a block without parameters changes no children. One in front of
the block leaves those of the content argument, and one in front of the arguments leaves none. -/
theorem children_comment (st : Settings) (name arguments body gap tail : List Char)
    (hname : name ≠ []) (hchars : ∀ c ∈ name, Element.isNameCharacter c = true)
    (harguments : Fills '(' ')' arguments) (hbody : Fills '{' '}' body)
    (hgap : IsCommentGap gap) :
    (afterClosureHead? body = none →
      (parseExpression st (expressionText name arguments (gap ++ body) [] tail)).children =
        (parseExpression st (expressionText name arguments body [] tail)).children) ∧
    (∀ t, (parseExpression st (name ++ '(' :: (arguments ++ ')' :: (gap ++ t)))).children =
      (Element.argumentContent name arguments).flatMap
        fun b => parseBlock st (stripParameters b)) ∧
    ∀ t, (parseExpression st (name ++ (gap ++ t))).children = [] := by
  refine ⟨fun hhead => ?_, children_comment_block st hname hchars harguments hgap,
    children_comment_arguments st hname hchars hgap⟩
  have hstrip : stripParameters body = body := by
    rw [stripParameters, hhead]
    rfl
  rw [children_expressionText st hname hchars harguments (hgap.fills hbody),
    children_expressionText st hname hchars harguments hbody, List.flatMap_append,
    List.flatMap_append, List.flatMap_cons, List.flatMap_cons, hgap.stripParameters,
    hgap.parseBlock, hstrip]

/-- A comment with the brace that would close a block. -/
def braceComment : List Char := [' ', '/', '*', '}', '*', '/', ' ']

theorem isCommentGap_braceComment : IsCommentGap braceComment :=
  .block ⟨['}'], by decide, rfl⟩

theorem afterClosureHead?_cell : afterClosureHead? "Cell".toList = none := by
  have h := afterClosureHead?_identifier (w := "Cell".toList) (t := []) (by decide) stops_nil
    (by rintro c ⟨⟩) (by decide)
  rwa [List.append_nil] at h

/-- A comment with a brace at the three places of a stack with one view. -/
theorem children_comment_stack :
    (parseExpression .default (expressionText "VStack".toList ['x']
        (braceComment ++ "Cell".toList) [] [])).children =
      (parseExpression .default
        (expressionText "VStack".toList ['x'] "Cell".toList [] [])).children ∧
    (parseExpression .default ("VStack".toList ++ '(' :: (['x'] ++ ')' ::
        (braceComment ++ "\x7bCell\x7d".toList)))).children = [] ∧
    (parseExpression .default ("VStack".toList ++
        (braceComment ++ "(x) \x7bCell\x7d".toList))).children = [] := by
  obtain ⟨hinside, hblock, harguments⟩ := children_comment .default "VStack".toList ['x']
    "Cell".toList braceComment [] (by decide) (List.all_eq_true.1 (by decide))
    (by decide) (by decide) isCommentGap_braceComment
  exact ⟨hinside afterClosureHead?_cell, hblock "\x7bCell\x7d".toList,
    harguments "(x) \x7bCell\x7d".toList⟩

/-- With its parameters read, the body of a loop is the view of its item. -/
theorem stripParameters_item : stripParameters "item in Cell".toList = "Cell".toList := by
  have hidentifiers : afterIdentifiers? ("item".toList ++ " in Cell".toList) =
      some " in Cell".toList :=
    afterIdentifiers?_identifier (by decide) (stops_cons (by decide) _) (by rintro _ ⟨⟩; decide)
  have hparameters : afterParameters? "item in Cell".toList = some "in Cell".toList := by
    rw [afterParameters?_of_head (by rintro _ ⟨⟩; decide)]
    exact congrArg (·.bind afterBlanks?) hidentifiers
  have hhead : afterClosureHead? "item in Cell".toList = some " Cell".toList :=
    congrArg (·.bind fun s => afterIn? (afterResultType s)) hparameters
  rw [stripParameters, hhead]
  rfl

/-- With its parameters taken for a view, it is that view. -/
theorem parseBlock_item :
    (parseBlock .default "item in Cell".toList).map ViewNode.name = ["item"] := by
  have hdrop : dropSeparators "item in Cell".toList = 'i' :: "tem in Cell".toList := by decide
  have hhead : headExpression ('i' :: "tem in Cell".toList) = ("item in Cell".toList, []) := by
    decide
  rw [parseBlock_eq, siblings_expression hdrop (by decide), hhead, siblings_nil (by decide)]
  rfl

/-- A stack with one view loses it to a comment in front of its block or of its arguments. Behind
the brace of its block a comment hides the parameters, and their name is taken for a view. -/
theorem children_comment_lost :
    (parseExpression .default (expressionText "VStack".toList ['x'] "Cell".toList [] [])).children =
        [⟨"Cell", .view, [], [], []⟩] ∧
      (parseExpression .default "VStack(x) /* c */ \x7bCell\x7d".toList).children = [] ∧
      (parseExpression .default "VStack /* c */ (x) \x7bCell\x7d".toList).children = [] ∧
      (parseExpression .default
          (expressionText "ForEach".toList ['x'] "item in Cell".toList [] [])).children =
        [⟨"Cell", .view, [], [], []⟩] ∧
      (parseExpression .default (expressionText "ForEach".toList ['x']
          (braceComment ++ "item in Cell".toList) [] [])).children.map ViewNode.name =
        ["item"] := by
  have hcell : stripParameters "Cell".toList = "Cell".toList := by
    rw [stripParameters, afterClosureHead?_cell]
    rfl
  have hclosures : labelledClosures (trimRight []) = ([], []) :=
    labelledClosures_none stops_nil stops_nil
  have hchildren : ∀ name body : List Char, name ≠ [] →
      (∀ c ∈ name, Element.isNameCharacter c = true) → Fills '{' '}' body →
      Element.argumentContent name ['x'] = [] →
      (parseExpression .default (expressionText name ['x'] body [] [])).children =
        parseBlock .default (stripParameters body) := by
    intro name body hname hchars hbody hcontent
    rw [children_expressionText .default hname hchars (by decide) hbody, hclosures, hcontent,
      List.nil_append, List.flatMap_singleton]
  have hblock : (Element.read "VStack(x) /* c */ \x7bCell\x7d".toList).closures = [] := by decide
  have harguments : (Element.read "VStack /* c */ (x) \x7bCell\x7d".toList).closures = [] := by
    decide
  have hitem : Fills '{' '}' "item in Cell".toList := by decide
  refine ⟨?_, ?_, ?_, ?_, ?_⟩
  · rw [hchildren "VStack".toList _ (by decide) (List.all_eq_true.1 (by decide)) (by decide)
      (by decide), hcell]
    exact parseBlock_name .default "Cell" (by decide)
  · rw [parseExpression, Element.node, Element.blocks, hblock]
    rfl
  · rw [parseExpression, Element.node, Element.blocks, harguments]
    rfl
  · rw [hchildren "ForEach".toList _ (by decide) (List.all_eq_true.1 (by decide)) hitem
      (by decide), stripParameters_item]
    exact parseBlock_name .default "Cell" (by decide)
  · rw [hchildren "ForEach".toList _ (by decide) (List.all_eq_true.1 (by decide))
      (isCommentGap_braceComment.fills hitem) (by decide), isCommentGap_braceComment.stripParameters,
      isCommentGap_braceComment.parseBlock]
    exact parseBlock_item

end ViewHierarchy
