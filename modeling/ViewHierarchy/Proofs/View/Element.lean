import ViewHierarchy.Proofs.View.Closure
import ViewHierarchy.Proofs.View.Modifier
import ViewHierarchy.Proofs.View.Property

/-! An element that was written is read with the parts it was written with. -/
namespace ViewHierarchy
open Text Source

variable {limit : Int} {name : List Char} {arguments views ms : List (List Char)}

def trailingClosures : List (List Char) → List (List Char)
  | [] => []
  | view :: rest => [blockText (view :: rest)]

theorem stops_afterArguments {p : Char → Bool} (hspace : p ' ' = false) (hline : p '\n' = false)
    (views ms : List (List Char)) : Stops p (writeTrailing views ++ writeChain ms) := by
  apply Stops.append
  · cases views with
    | nil => exact stops_nil
    | cons view views => exact stops_cons hspace _
  · exact stops_writeChain hline ms

theorem stops_afterName {p : Char → Bool} (hround : p '(' = false) (hspace : p ' ' = false)
    (hline : p '\n' = false) (arguments views ms : List (List Char)) :
    Stops p (writeArguments arguments ++ (writeTrailing views ++ writeChain ms)) := by
  apply Stops.append
  · cases arguments with
    | nil => exact stops_nil
    | cons a arguments => exact stops_cons hround _
  · exact stops_afterArguments hspace hline views ms

theorem head_trimLeft_afterArguments (views ms : List (List Char)) :
    ∀ c ∈ (trimLeft (writeTrailing views ++ writeChain ms)).head?, c = '{' ∨ c = '.' := by
  cases views with
  | nil =>
    intro c hc
    exact .inr (head_trimLeft_writeChain ms c hc)
  | cons view views =>
    rw [writeTrailing, List.cons_append, trimLeft_cons (by decide), writeBlock, List.cons_append,
      trimLeft_kept (by decide)]
    intro c hc
    cases hc
    exact .inl rfl

theorem head_trimLeft_afterName (arguments views ms : List (List Char)) :
    ∀ c ∈ (trimLeft (writeArguments arguments ++
      (writeTrailing views ++ writeChain ms))).head?, c = '(' ∨ c = '{' ∨ c = '.' := by
  cases arguments with
  | nil =>
    intro c hc
    exact .inr (head_trimLeft_afterArguments views ms c hc)
  | cons a rest =>
    rw [writeArguments, List.cons_append, trimLeft_kept (by decide)]
    intro c hc
    cases hc
    exact .inl rfl

theorem withTrailing_write (hviews : ∀ view ∈ views, Tidy view) (arguments : List Char)
    (ms : List (List Char)) :
    Element.withTrailing name arguments [] (writeTrailing views ++ writeChain ms) =
      ⟨name, arguments, trailingClosures views, writeChain ms, false, false⟩ := by
  have hchain : labelledClosures (writeChain ms) = ([], writeChain ms) :=
    labelledClosures_none (stops_writeChain (by decide) ms) (stops_writeChain (by decide) ms)
  rw [Element.withTrailing]
  cases views with
  | nil =>
    split
    · next hs =>
      cases head_trimLeft_writeChain ms '{' (congrArg List.head? hs)
    · rfl
  | cons view rest =>
    have htrim : trimLeft (writeTrailing (view :: rest) ++ writeChain ms) =
        '{' :: (blockText (view :: rest) ++ '}' :: writeChain ms) := by
      rw [writeTrailing, List.cons_append, trimLeft_cons (by decide), writeBlock,
        List.cons_append, trimLeft_kept (by decide), List.append_assoc,
        List.singleton_append]
    simp only [htrim, (tidy_blockText hviews).enclosed?_curly, hchain]
    rfl

theorem contentArgument?_arguments (h : ∀ a ∈ arguments, IsArgument limit a) :
    Element.contentArgument? (joinWith [',', ' '] arguments) = none := by
  rw [Element.contentArgument?, splitTopLevel_arguments h, List.findSome?_eq_none_iff]
  intro a ha
  rw [contentClosure?_of_no_brace, Option.map_none]
  intro hm
  exact absurd ((h a ha).characters '{' hm) (by decide)

theorem leadingContent_write (h : ∀ a ∈ arguments, IsArgument limit a)
    (views ms : List (List Char)) :
    Element.leadingContent name (joinWith [',', ' '] arguments)
        (writeTrailing views ++ writeChain ms) = ([], writeTrailing views ++ writeChain ms) := by
  have hcontent : contentClosure? (trimLeft (writeTrailing views ++ writeChain ms)) = none := by
    apply contentClosure?_of_head
    intro c hc
    rcases head_trimLeft_afterArguments views ms c hc with rfl | rfl <;> decide
  rw [Element.leadingContent, Element.forEachContent, contentArgument?_arguments h]
  simp only [hcontent, ite_self]

theorem readAfterName_write (hargs : ∀ a ∈ arguments, IsArgument limit a)
    (hviews : ∀ view ∈ views, Tidy view) (ms : List (List Char)) :
    Element.readAfterName name
        (writeArguments arguments ++ (writeTrailing views ++ writeChain ms)) =
      ⟨name, joinWith [',', ' '] arguments, trailingClosures views, writeChain ms, false,
        false⟩ := by
  rw [Element.readAfterName]
  cases arguments with
  | nil =>
    split
    · next hs =>
      rcases head_trimLeft_afterArguments views ms '(' (congrArg List.head? hs) with h | h <;>
        cases h
    · exact withTrailing_write hviews _ ms
  | cons a rest =>
    have htidy := tidy_arguments fun a ha => (hargs a ha).tidy
    have htrim : trimLeft (writeArguments (a :: rest) ++ (writeTrailing views ++ writeChain ms)) =
        '(' :: (joinWith [',', ' '] (a :: rest) ++
          ')' :: (writeTrailing views ++ writeChain ms)) := by
      rw [writeArguments, List.cons_append, trimLeft_kept (by decide),
        List.append_assoc, List.singleton_append]
    simp only [htrim, htidy.enclosed?_round, leadingContent_write hargs,
      withTrailing_write hviews]

theorem isNameCharacter_of_isAsciiRest {c : Char} (h : isAsciiRest c = true) :
    Element.isNameCharacter c = true := by
  rw [isAsciiRest] at h
  rw [Element.isNameCharacter, h, Bool.true_or]

theorem IsCall.stops {m : List Char} (h : IsCall m) : m ≠ [] ∧ Stops isBlank m.reverse := by
  cases h with
  | plain hm => exact ⟨ne_nil_of_isName hm, (stops_of_isName hm).2⟩
  | applied hm _ =>
    refine ⟨by simp, ?_⟩
    simp only [List.reverse_append, List.reverse_cons]
    exact stops_cons (by decide) _

theorem stops_reverse_writeChain (h : ∀ m ∈ ms, IsCall m) :
    Stops isBlank (writeChain ms).reverse := by
  induction ms with
  | nil => exact stops_nil
  | cons m ms ih =>
    obtain ⟨hm, hms⟩ := List.forall_mem_cons.1 h
    rw [writeChain, List.reverse_cons, List.reverse_cons, List.reverse_append, List.append_assoc,
      List.append_assoc]
    apply (ih hms).append
    apply hm.stops.2.extend
    simpa using hm.stops.1

theorem trim_write (hname : isName name = true) (hms : ∀ m ∈ ms, IsCall m)
    (arguments views : List (List Char)) :
    trim (name ++ (writeArguments arguments ++ (writeTrailing views ++ writeChain ms))) =
      name ++ (writeArguments arguments ++ (writeTrailing views ++ writeChain ms)) := by
  apply trim_of_stops
  · exact (stops_of_isName hname).1.extend (ne_nil_of_isName hname) _
  · simp only [List.reverse_append]
    refine Stops.append (Stops.append (Stops.append (stops_reverse_writeChain hms) ?_) ?_) ?_
    · cases views with
      | nil => exact stops_nil
      | cons view rest =>
        simp only [writeTrailing, writeBlock, List.reverse_cons, List.reverse_append]
        exact stops_cons (by decide) _
    · cases arguments with
      | nil => exact stops_nil
      | cons a rest =>
        simp only [writeArguments, List.reverse_cons, List.reverse_append]
        exact stops_cons (by decide) _
    · exact (stops_of_isName hname).2

theorem Element.nameOf_append {s t : List Char} (hne : s ≠ [])
    (hs : ∀ c ∈ s, isNameCharacter c = true) (ht : Stops isNameCharacter t) :
    nameOf (s ++ t) = s := by
  rw [nameOf, ht.takeWhile_append hs]
  obtain ⟨c, rest, rfl⟩ := List.exists_cons_of_ne_nil hne
  rfl

theorem Element.leadingContent_of_not_forEach (h : isForEach name = false)
    (arguments after : List Char) : leadingContent name arguments after = ([], after) := by
  rw [leadingContent, h]
  rfl

/-- Reading finds the parts of an element where they were written. -/
theorem read_write (hname : isName name = true) (hargs : ∀ a ∈ arguments, IsArgument limit a)
    (hviews : ∀ view ∈ views, Tidy view) (hms : ∀ m ∈ ms, IsCall m) :
    Element.read (name ++ (writeArguments arguments ++ (writeTrailing views ++ writeChain ms))) =
      ⟨name, joinWith [',', ' '] arguments, trailingClosures views, writeChain ms, false,
        false⟩ := by
  have hchars : ∀ c ∈ name, Element.isNameCharacter c = true := fun c hc =>
    isNameCharacter_of_isAsciiRest (isAsciiRest_of_isName hname c hc)
  have hstop : Stops Element.isNameCharacter
      (writeArguments arguments ++ (writeTrailing views ++ writeChain ms)) :=
    stops_afterName (by decide) (by decide) (by decide) arguments views ms
  rw [Element.read, trim_write hname hms,
    Element.nameOf_append (ne_nil_of_isName hname) hchars hstop, hstop.dropWhile_append hchars,
    readAfterName_write hargs hviews]

end ViewHierarchy
