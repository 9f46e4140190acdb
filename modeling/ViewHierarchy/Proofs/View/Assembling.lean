import ViewHierarchy.Proofs.View.Calls
import ViewHierarchy.Proofs.View.Element
import ViewHierarchy.Proofs.View.Legible
import ViewHierarchy.Proofs.View.Trailing

/-! Expressions put together from a name, arguments, closures and a tail. A part may hold any text
that fills its brackets; reading finds each of them where it was put. -/
namespace ViewHierarchy
open Text Source

variable {name arguments body tail label : List Char} {labelled : List (List Char × List Char)}

/-- The closures behind the first one, each behind its label. -/
def labelledText : List (List Char × List Char) → List Char
  | [] => []
  | (label, body) :: rest =>
    ' ' :: (label ++ ':' :: ' ' :: '{' :: (body ++ '}' :: labelledText rest))

def expressionText (name arguments body : List Char) (labelled : List (List Char × List Char))
    (tail : List Char) : List Char :=
  name ++ '(' :: (arguments ++
    ')' :: ' ' :: '{' :: (body ++ '}' :: (labelledText labelled ++ tail)))

theorem labelledBlock?_label (h : IsWordText label) (block : List Char) :
    labelledBlock? (' ' :: (label ++ ':' :: ' ' :: '{' :: block)) = some ('{' :: block) := by
  obtain ⟨c, s, rfl⟩ := List.exists_cons_of_ne_nil h.ne_nil
  have hc := h.word c List.mem_cons_self
  have hspace : Stops (fun c => c == ' ' || c == '\t') ((c :: s) ++ ':' :: ' ' :: '{' :: block) :=
    stops_cons (by simp [ne_of_class hc (d := ' ') (by decide),
      ne_of_class hc (d := '\t') (by decide)]) _
  have hcolon : Stops isWord (':' :: ' ' :: '{' :: block) := stops_cons (by decide) _
  have hdrop := hspace.dropWhile_append (s := [' ']) (List.forall_mem_singleton.2 rfl)
  rw [List.singleton_append] at hdrop
  have hblock : trimLeft (' ' :: '{' :: block) = '{' :: block := by
    rw [trimLeft_cons (by decide), trimLeft_kept (by decide)]
  simp only [labelledBlock?, hdrop, hcolon.takeWhile_append h.word, hcolon.dropWhile_append h.word,
    trimLeft_kept (c := ':') (by decide), hblock]

/-- Closures with labels are taken one after the other, until the text goes on with no label. -/
theorem labelledClosures_labelledText {t : List Char}
    (hlabelled : ∀ p ∈ labelled, IsWordText p.1 ∧ Fills '{' '}' p.2)
    (hspace : Stops (fun c => c == ' ' || c == '\t') t) (hword : Stops isWord t) :
    labelledClosures (labelledText labelled ++ t) = (labelled.map Prod.snd, t) := by
  induction labelled with
  | nil => exact labelledClosures_none hspace hword
  | cons p rest ih =>
    obtain ⟨label, body⟩ := p
    obtain ⟨⟨hlabel, hbody⟩, hrest⟩ := List.forall_mem_cons.1 hlabelled
    have htext : labelledText ((label, body) :: rest) ++ t =
        ' ' :: (label ++ ':' :: ' ' :: '{' :: (body ++ '}' :: (labelledText rest ++ t))) := by
      simp only [labelledText, List.cons_append, List.append_assoc]
    rw [htext, labelledClosures_cons (labelledBlock?_label hlabel _) (hbody.enclosed? rfl _),
      ih hrest]
    rfl

theorem trimRight_labelledText (labelled : List (List Char × List Char)) (t : List Char) :
    trimRight (labelledText labelled ++ t) = labelledText labelled ++ trimRight t := by
  induction labelled with
  | nil => rfl
  | cons p rest ih =>
    obtain ⟨label, body⟩ := p
    have htext : ∀ u, labelledText ((label, body) :: rest) ++ u =
        (' ' :: (label ++ ':' :: ' ' :: '{' :: body)) ++ '}' :: (labelledText rest ++ u) := by
      intro u
      simp only [labelledText, List.cons_append, List.append_assoc]
    rw [htext, htext, trimRight_append_cons (by decide), ih]

/-- The content closure that a ForEach has among its arguments. -/
def Element.argumentContent (name arguments : List Char) : List (List Char) :=
  if Element.isForEach name then (Element.contentArgument? arguments).toList else []

theorem leadingContent_argumentContent (name arguments : List Char)
    (h : ∀ c ∈ (trimLeft t).head?, c ≠ 'c') :
    Element.leadingContent name arguments t = (Element.argumentContent name arguments, t) := by
  rw [Element.leadingContent, Element.argumentContent]
  split
  · rw [Element.forEachContent]
    cases Element.contentArgument? arguments with
    | some block => rfl
    | none =>
      simp only [contentClosure?_of_head h]
      rfl
  · rfl

/-- An element with arguments, up to what is read behind them. -/
theorem read_arguments (hname : name ≠ []) (hchars : ∀ c ∈ name, Element.isNameCharacter c = true)
    (harguments : Fills '(' ')' arguments) (h : ∀ c ∈ (trimLeft (trimRight t)).head?, c ≠ 'c') :
    Element.read (name ++ '(' :: (arguments ++ ')' :: t)) =
      Element.withTrailing name arguments (Element.argumentContent name arguments)
        (trimRight t) := by
  obtain ⟨c, s, rfl⟩ := List.exists_cons_of_ne_nil hname
  have hc := isBlank_of_isNameCharacter (hchars c List.mem_cons_self)
  have htrim : trim (c :: s ++ '(' :: (arguments ++ ')' :: t)) =
      c :: s ++ '(' :: (arguments ++ ')' :: trimRight t) := by
    have htext : ∀ u, c :: s ++ '(' :: (arguments ++ ')' :: u) =
        c :: ((s ++ '(' :: arguments) ++ ')' :: u) := by
      intro u
      simp only [List.cons_append, List.append_assoc]
    rw [htext, htext, trim_cons hc, trimRight_append_cons (by decide)]
  have hround : ∀ u, Stops Element.isNameCharacter ('(' :: u) := stops_cons (by decide)
  rw [Element.read, htrim, Element.nameOf_append hname hchars (hround _),
    (hround _).dropWhile_append hchars, Element.readAfterName, trimLeft_kept (by decide)]
  simp only [harguments.enclosed? rfl, leadingContent_argumentContent (c :: s) arguments h]

/-- A block behind the arguments is taken with the closures that follow it. -/
theorem withTrailing_block (name arguments : List Char) (content : List (List Char))
    (hbody : Fills '{' '}' body) (t : List Char) :
    Element.withTrailing name arguments content (' ' :: '{' :: (body ++ '}' :: t)) =
      ⟨name, arguments, content ++ body :: (labelledClosures t).1, (labelledClosures t).2, false,
        false⟩ := by
  rw [Element.withTrailing, trimLeft_cons (by decide), trimLeft_kept (by decide)]
  simp only [hbody.enclosed? rfl]

theorem read_block (hname : name ≠ []) (hchars : ∀ c ∈ name, Element.isNameCharacter c = true)
    (harguments : Fills '(' ')' arguments) (hbody : Fills '{' '}' body)
    (labelled : List (List Char × List Char)) (tail : List Char) :
    Element.read (expressionText name arguments body labelled tail) =
      ⟨name, arguments,
        Element.argumentContent name arguments ++
          body :: (labelledClosures (labelledText labelled ++ trimRight tail)).1,
        (labelledClosures (labelledText labelled ++ trimRight tail)).2, false, false⟩ := by
  have htrim : trimRight (' ' :: '{' :: (body ++ '}' :: (labelledText labelled ++ tail))) =
      ' ' :: '{' :: (body ++ '}' :: (labelledText labelled ++ trimRight tail)) := by
    rw [← trimRight_labelledText]
    exact trimRight_append_cons (by decide) (' ' :: '{' :: body) _
  have hhead : ∀ c ∈ (trimLeft (trimRight
      (' ' :: '{' :: (body ++ '}' :: (labelledText labelled ++ tail))))).head?, c ≠ 'c' := by
    rw [htrim, trimLeft_cons (by decide), trimLeft_kept (by decide)]
    rintro c ⟨⟩
    decide
  rw [expressionText, read_arguments hname hchars harguments hhead, htrim, withTrailing_block]
  exact hbody

/-- Reading finds the parts of an expression, and the tail without the white space at its end. -/
theorem read_expressionText (hname : name ≠ [])
    (hchars : ∀ c ∈ name, Element.isNameCharacter c = true) (hforEach : name ≠ "ForEach".toList)
    (harguments : Fills '(' ')' arguments) (hbody : Fills '{' '}' body)
    (hlabelled : ∀ p ∈ labelled, IsWordText p.1 ∧ Fills '{' '}' p.2)
    (htail : ∀ c ∈ tail.head?, c = '.' ∨ c = '\n') :
    Element.read (expressionText name arguments body labelled tail) =
      ⟨name, arguments, body :: labelled.map Prod.snd, trimRight tail, false, false⟩ := by
  have hstops : ∀ {p : Char → Bool}, p '.' = false → p '\n' = false →
      Stops p (trimRight tail) := by
    intro p hdot hline
    apply Stops.of_prefix _ (trimRight_isPrefix tail)
    intro c hc
    rcases htail c hc with rfl | rfl
    · exact hdot
    · exact hline
  have hcontent : Element.argumentContent name arguments = [] :=
    if_neg (by simpa [Element.isForEach] using hforEach)
  have hclosures := labelledClosures_labelledText hlabelled
    (hstops (p := fun c => c == ' ' || c == '\t') (by decide) (by decide))
    (hstops (by decide) (by decide))
  rw [read_block hname hchars harguments hbody, hcontent, hclosures, List.nil_append]

/-- An expression is taken apart at the ends of its parts: the properties come from the arguments,
the children from the closures in order and the modifiers from the tail. -/
theorem parseExpression_expressionText (st : Settings) (name arguments body : List Char)
    (labelled : List (List Char × List Char)) (tail : List Char) (hname : name ≠ [])
    (hchars : ∀ c ∈ name, Element.isNameCharacter c = true) (hforEach : name ≠ "ForEach".toList)
    (harguments : Fills '(' ')' arguments) (hbody : Fills '{' '}' body)
    (hlabelled : ∀ p ∈ labelled, IsWordText p.1 ∧ Fills '{' '}' p.2)
    (htail : ∀ c ∈ tail.head?, c = '.' ∨ c = '\n') :
    parseExpression st (expressionText name arguments body labelled tail) =
      ⟨String.ofList name, st.classify (String.ofList name),
        (properties st.maxPropLength arguments).map String.ofList,
        (modifiers tail).map String.ofList,
        (body :: labelled.map Prod.snd).flatMap fun b => parseBlock st (stripParameters b)⟩ := by
  rw [parseExpression,
    read_expressionText hname hchars hforEach harguments hbody hlabelled htail, Element.node,
    Element.blocks, List.flatMap_map, modifiers_trimRight]

/-- A section whose arguments and footer hold brackets in strings. -/
theorem parseExpression_section :
    parseExpression .default (expressionText "Section".toList "header: Text(\")\"), id: x".toList
        "(row) in Row(row)".toList [("footer".toList, "Text(\"\x7d\")".toList)]
        "\n.padding(y)".toList) =
      ⟨"Section", .container, ["header: Text(\")\")", "id: x"], ["padding(y)"],
        parseBlock .default "Row(row)".toList ++
          parseBlock .default "Text(\"\x7d\")".toList⟩ := by
  have hname : ∀ c ∈ "Section".toList, Element.isNameCharacter c = true :=
    List.all_eq_true.1 (by decide)
  have hlabel : IsWordText "footer".toList := ⟨by decide, List.all_eq_true.1 (by decide)⟩
  have htail : ∀ c ∈ "\n.padding(y)".toList.head?, c = '.' ∨ c = '\n' := by
    rintro c ⟨⟩
    exact .inr rfl
  have hread := parseExpression_expressionText .default "Section".toList
    "header: Text(\")\"), id: x".toList "(row) in Row(row)".toList
    [("footer".toList, "Text(\"\x7d\")".toList)] "\n.padding(y)".toList (by decide) hname
    (by decide) (by decide) (by decide)
    (List.forall_mem_singleton.2 ⟨hlabel, by decide⟩) htail
  have hproperties : (properties Settings.default.maxPropLength
      "header: Text(\")\"), id: x".toList).map String.ofList =
        ["header: Text(\")\")", "id: x"] := by
    decide
  have hmodifiers : modifiers "\n.padding(y)".toList = ["padding(y)".toList] :=
    modifiers_writeChain (List.forall_mem_singleton.2
      (IsCall.applied (m := "padding".toList) (v := ['y']) (by decide) (by decide)))
  have hrow : stripParameters "(row) in Row(row)".toList = "Row(row)".toList := by decide
  have hfooter : stripParameters "Text(\"\x7d\")".toList = "Text(\"\x7d\")".toList := by
    have hnone := afterClosureHead?_identifier (w := "Text".toList) (t := "(\"\x7d\")".toList)
      (by decide) (stops_cons (by decide) _)
      (by rintro c ⟨⟩; exact ⟨by decide, by decide⟩) (by decide)
    have htext : "Text(\"\x7d\")".toList = "Text".toList ++ "(\"\x7d\")".toList := by decide
    rw [stripParameters, htext, hnone]
    rfl
  have hchildren : (["(row) in Row(row)".toList, "Text(\"\x7d\")".toList].flatMap fun b =>
      parseBlock .default (stripParameters b)) =
        parseBlock .default "Row(row)".toList ++ parseBlock .default "Text(\"\x7d\")".toList := by
    rw [List.flatMap_cons, List.flatMap_singleton, hrow, hfooter]
  have hkind : Settings.default.classify "Section" = .container := by decide
  rw [hread, hproperties, hmodifiers, String.ofList_toList, hkind]
  exact congrArg (ViewNode.mk "Section" .container _ _) hchildren

end ViewHierarchy
