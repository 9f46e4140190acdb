import ViewHierarchy.Proofs.Declarations
import ViewHierarchy.Proofs.Source.Naming
import ViewHierarchy.Proofs.View.Covering
import ViewHierarchy.Proofs.View.Element
import ViewHierarchy.Proofs.View.Resolution
import ViewHierarchy.Proofs.View.Shape

/-! The use of a declared view. The name of a declaration is any word, but the name of an element
ends where it leaves ASCII; a use is found just if the two readers agree on the name. -/
namespace ViewHierarchy
open Text Source

variable {name : List Char}

/-- A use of a view without arguments. -/
def useText (name : List Char) : List Char := name ++ ['(', ')']

theorem isOrdinary_of_isWord {c : Char} (h : isWord c = true) : isOrdinary c = true :=
  isOrdinary_of_class (by decide) h

theorem Source.IsWordText.runs (h : IsWordText name) : Runs (useText name) := by
  refine Runs.append ?_ (runs_pair rfl Tidy.nil)
  have hword := h.word
  clear h
  induction name with
  | nil => exact runs_nil
  | cons c s ih =>
    obtain ⟨hc, hs⟩ := List.forall_mem_cons.1 hword
    exact .cons (isOrdinary_of_isWord hc) (ne_of_class hc (by decide))
      (ne_of_class hc (by decide)) (ih hs)

theorem Source.IsWordText.trim (h : IsWordText name) : trim (useText name) = useText name := by
  apply trim_of_stops
  · apply Stops.extend _ h.ne_nil
    apply stops_of_forall
    intro c hc
    exact isBlank_of_isWord (h.word c hc)
  · rw [useText, List.reverse_append]
    exact stops_cons (by decide) _

/-- Even `if` with arguments alone is no conditional. -/
theorem Source.IsWordText.headConditional? (h : IsWordText name) :
    headConditional? (useText name) = none := by
  rw [ViewHierarchy.headConditional?, startsWithIf]
  split
  · next hif =>
    have hname : ['i', 'f'] = name := (startsWithWord_iff (isWord_of_isIdentifier (by decide))
      h.word (stops_cons (by decide) [')'])).1 hif
    subst hname
    exact Conditional.read?_eq_none_iff.2 (by decide)
  · rfl

theorem Source.IsWordText.siblings_use (h : IsWordText name) :
    siblings (useText name) = [.expression (useText name)] := by
  have hlength : expressionLength 0 (mark (useText name)) = (useText name).length :=
    (List.append_nil (useText name) ▸ h.runs []).trans (Nat.zero_add _)
  have htrim := h.trim
  have hnone := h.headConditional?
  obtain ⟨c, s, rfl⟩ := List.exists_cons_of_ne_nil h.ne_nil
  have hc := h.word c List.mem_cons_self
  refine siblings_whole ?_ hnone hlength htrim
  obtain ⟨-, -, hquote, hslash⟩ := isOrdinary_iff.1 (isOrdinary_of_isWord hc)
  rw [mark_cons (literal?_eq_none _ hquote hslash)]
  rintro m ⟨⟩
  simp [Marked.isSeparator, Marked.isTrivia, isBlank_of_isWord hc,
    ne_of_class hc (d := ',') (by decide), ne_of_class hc (d := ';') (by decide)]

theorem Source.IsWordText.parseBlock_use (h : IsWordText name) (st : Settings) :
    parseBlock st (useText name) = [parseExpression st (useText name)] := by
  rw [parseBlock_eq, h.siblings_use]
  rfl

theorem isAsciiRest_of_isNameCharacter {c : Char} (h : Element.isNameCharacter c = true)
    (hc : isWord c = true) : isAsciiRest c = true := by
  rw [Element.isNameCharacter, Bool.or_eq_true] at h
  rcases h with h | h
  · exact h
  · exact absurd (eq_of_beq h) (ne_of_class hc (by decide))

theorem nameOf_use (hne : name ≠ []) (h : ∀ c ∈ name, isAsciiRest c = true) :
    Element.nameOf (useText name) = name := by
  have hstops : Stops Element.isNameCharacter ['(', ')'] := stops_cons (by decide) _
  exact Element.nameOf_append hne (fun c hc => isNameCharacter_of_isAsciiRest (h c hc)) hstops

/-- The readers of declarations and of elements agree on a name just if it is ASCII. -/
theorem Source.IsWordText.name_read_use (h : IsWordText name) :
    (Element.read (useText name)).name = name ↔ ∀ c ∈ name, isAsciiRest c = true := by
  rw [Element.read, Element.name_readAfterName, h.trim]
  constructor
  · intro hname c hc
    apply isAsciiRest_of_isNameCharacter _ (h.word c hc)
    rw [← hname] at hc
    exact isNameCharacter_of_mem_nameOf hc
  · exact nameOf_use h.ne_nil

theorem Source.IsWordText.read_use (h : IsWordText name) (hascii : ∀ c ∈ name, isAsciiRest c = true)
    (hforEach : Element.isForEach name = false) :
    Element.read (useText name) = ⟨name, [], [], [], false, false⟩ := by
  have hstops : Stops Element.isNameCharacter ['(', ')'] := stops_cons (by decide) _
  have hdrop : (useText name).dropWhile Element.isNameCharacter = ['(', ')'] :=
    hstops.dropWhile_append fun c hc => isNameCharacter_of_isAsciiRest (hascii c hc)
  have hafter : Element.readAfterName name ['(', ')'] = Element.withTrailing name []
      (Element.leadingContent name [] []).1 (Element.leadingContent name [] []).2 := rfl
  rw [Element.read, h.trim, nameOf_use h.ne_nil hascii, hdrop, hafter,
    Element.leadingContent_of_not_forEach hforEach]
  rfl

section
variable {view : String}

theorem toList_use (view : String) : (view ++ "()").toList = useText view.toList := by
  rw [String.toList_append]
  rfl

theorem name_parseExpression_use (h : IsWordText view.toList) :
    (parseExpression .default (view ++ "()").toList).name = view ↔
      ∀ c ∈ view.toList, isAsciiRest c = true := by
  have hread : (parseExpression .default (useText view.toList)).name =
      String.ofList (Element.read (useText view.toList)).name := rfl
  rw [toList_use, hread, ← h.name_read_use]
  constructor
  · intro hname
    have hlist := congrArg String.toList hname
    rwa [String.toList_ofList] at hlist
  · intro hname
    rw [hname, String.ofList_toList]

theorem not_mem_of_isReserved (h : Settings.default.isReserved view = false) :
    view ∉ Settings.default.containerTypes ∧ view ≠ "ForEach" := by
  rw [Settings.isReserved, Bool.or_eq_false_iff, decide_eq_false_iff_not,
    decide_eq_false_iff_not] at h
  refine ⟨h.1, ?_⟩
  rintro rfl
  exact h.2 (by decide)

/-- A use of an ASCII name that is not reserved is a view without children. -/
theorem parseExpression_use (h : IsWordText view.toList)
    (hreserved : Settings.default.isReserved view = false)
    (hascii : ∀ c ∈ view.toList, isAsciiRest c = true) :
    parseExpression .default (view ++ "()").toList = ⟨view, .view, [], [], []⟩ := by
  obtain ⟨hcontainer, hforEach⟩ := not_mem_of_isReserved hreserved
  have hname : Element.isForEach view.toList = false := by
    rw [Element.isForEach, beq_eq_false_iff_ne]
    exact fun he => hforEach (String.toList_inj.1 he)
  rw [toList_use, parseExpression, h.read_use hascii hname, Element.node, String.ofList_toList,
    Settings.classify, if_neg hforEach, if_neg hcontainer, modifiers, modifiersFrom]
  rfl

variable {ds : Declarations} {root : String}

/-- The tree of a root that is declared as a use of a view. -/
theorem buildTree_use (h : IsWordText view.toList) :
    buildTree .default (ds.insert root (view ++ "()")) root =
      some (resolve .default (ds.insert root (view ++ "()")) [root]
        (parseExpression .default (view ++ "()").toList)) := by
  have hforest : (ds.insert root (view ++ "()")).forest .default root =
      [parseExpression .default (view ++ "()").toList] := by
    rw [Declarations.forest, Declarations.body?_insert, if_pos rfl, Option.getD_some, toList_use,
      h.parseBlock_use]
  rw [buildTree, hforest]
  rfl

/-- The use of a declared view is expanded just if its name is ASCII. -/
theorem buildTree_use_iff (h : IsWordText view.toList) (hdeclared : view ∈ ds.names)
    (hreserved : Settings.default.isReserved view = false) (hne : root ≠ view) :
    (∃ tree, buildTree .default (ds.insert root (view ++ "()")) root = some tree ∧
      tree.kind = .customView ∧ tree.name = view) ↔ ∀ c ∈ view.toList, isAsciiRest c = true := by
  rw [buildTree_use h]
  constructor
  · rintro ⟨tree, htree, -, hname⟩
    cases htree
    rw [resolve_name] at hname
    exact (name_parseExpression_use h).1 hname
  · intro hascii
    rw [parseExpression_use h hreserved hascii]
    have huse : ViewNode.isUse .default (ds.insert root (view ++ "()")) ⟨view, .view, [], [], []⟩ =
        true :=
      ViewNode.isUse_iff.2 ⟨rfl, rfl, mem_names_insert.2 (.inl hdeclared), hreserved⟩
    have hidle : view ∉ [root] := by
      rw [List.mem_singleton]
      exact hne.symm
    exact ⟨_, rfl, by rw [resolve_expanded huse hidle], by rw [resolve_expanded huse hidle]⟩

end

/-- A declared view that is not reserved can be used just if its name is ASCII: a root declared as
its use shows it expanded, and its use alone is a childless view of that name. -/
theorem declared_use_iff (source : List Char) (view root : String)
    (hdeclared : view ∈ (declarations source).names)
    (hreserved : Settings.default.isReserved view = false) (hne : root ≠ view) :
    ((∃ tree, buildTree .default ((declarations source).insert root (view ++ "()")) root =
          some tree ∧ tree.kind = .customView ∧ tree.name = view) ↔
        ∀ c ∈ view.toList, isAsciiRest c = true) ∧
      ((∃ node, parseExpression .default (view ++ "()").toList = node ∧ node.kind = .view ∧
          node.children = [] ∧ node.name = view) ↔ ∀ c ∈ view.toList, isAsciiRest c = true) := by
  have hword := isWordText_of_mem_names hdeclared
  refine ⟨buildTree_use_iff hword hdeclared hreserved hne, ?_⟩
  constructor
  · rintro ⟨node, rfl, -, -, hname⟩
    exact (name_parseExpression_use hword).1 hname
  · intro hascii
    exact ⟨_, parseExpression_use hword hreserved hascii, rfl, rfl, rfl⟩

theorem declared_use_rowText :
    (∃ tree, buildTree .default ((declarations rowText.toList).insert "Root" ("Row" ++ "()"))
        "Root" = some tree ∧ tree.kind = .customView ∧ tree.name = "Row") ∧
      ∃ node, parseExpression .default ("Row" ++ "()").toList = node ∧ node.kind = .view ∧
        node.children = [] ∧ node.name = "Row" := by
  have hascii : ∀ c ∈ "Row".toList, isAsciiRest c = true := List.all_eq_true.1 (by decide)
  obtain ⟨hbuilt, hread⟩ := declared_use_iff rowText.toList "Row" "Root" mem_names_rowText
    (by decide) (by decide)
  exact ⟨hbuilt.2 hascii, hread.2 hascii⟩

/-- A source that declares a view whose name is a word but not ASCII. -/
def umlautSource : List Char := "struct Größe:View{var body:some View{X}}".toList

theorem mem_names_umlautSource : "Größe" ∈ (declarations umlautSource).names := by
  have hhead : header? ' ' (mask umlautSource) =
      some ⟨"Größe".toList, "View".toList, "var body:some View\x7bX\x7d\x7d".toList⟩ := by rfl
  exact mem_names_of_header (headers_found hhead ▸ List.mem_cons_self) (by decide)
    (show _ = Finding.body "Größe" 37 1 by rfl)

/-- The view is declared and not reserved, and its use is not expanded. -/
theorem umlaut_use_not_expanded :
    "Größe" ∈ (declarations umlautSource).names ∧ Settings.default.isReserved "Größe" = false ∧
      ¬∃ tree, buildTree .default ((declarations umlautSource).insert "Root" ("Größe" ++ "()"))
        "Root" = some tree ∧ tree.kind = .customView ∧ tree.name = "Größe" := by
  have hdeclared := mem_names_umlautSource
  have hreserved : Settings.default.isReserved "Größe" = false := by decide
  refine ⟨hdeclared, hreserved, ?_⟩
  rw [buildTree_use_iff (isWordText_of_mem_names hdeclared) hdeclared hreserved (by decide)]
  intro hascii
  exact absurd (hascii 'ö' (by decide)) (by decide)

end ViewHierarchy
