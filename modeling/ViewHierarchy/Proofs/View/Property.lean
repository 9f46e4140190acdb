import ViewHierarchy.Proofs.Source.Splitting
import ViewHierarchy.Proofs.View.Writing

/-! Arguments that were written are read as the same properties. -/
namespace ViewHierarchy
open Text Source

variable {limit : Int} {argument : List Char}

theorem IsArgument.characters (h : IsArgument limit argument) :
    ∀ c ∈ argument, isAsciiRest c = true ∨ c = ':' ∨ c = ' ' := by
  cases h with
  | value hv _ =>
    intro c hc
    exact .inl (isAsciiRest_of_isName hv c hc)
  | labelled hl hv _ =>
    intro c hc
    simp only [List.mem_append, List.mem_cons] at hc
    rcases hc with hc | rfl | rfl | hc
    · exact .inl (isAsciiRest_of_isName hl c hc)
    · exact .inr (.inl rfl)
    · exact .inr (.inr rfl)
    · exact .inl (isAsciiRest_of_isName hv c hc)

theorem IsArgument.ne_nil (h : IsArgument limit argument) : argument ≠ [] := by
  cases h with
  | value hv _ => exact ne_nil_of_isName hv
  | labelled => simp

theorem IsArgument.stops (h : IsArgument limit argument) :
    Stops isBlank argument ∧ Stops isBlank argument.reverse := by
  cases h with
  | value hv _ => exact stops_of_isName hv
  | labelled hl hv _ =>
    constructor
    · exact (stops_of_isName hl).1.extend (ne_nil_of_isName hl) _
    · simp only [List.reverse_append, List.reverse_cons, List.append_assoc]
      apply (stops_of_isName hv).2.extend
      simpa using ne_nil_of_isName hv

theorem IsArgument.trim (h : IsArgument limit argument) : trim argument = argument :=
  trim_of_stops h.stops.1 h.stops.2

theorem normalizeValue_name {v : List Char} (hv : isName v = true)
    (hlen : (v.length : Int) ≤ limit) : normalizeValue limit v = v := by
  simp only [normalizeValue, collapse_name hv]
  rw [if_neg (Int.not_lt.2 hlen)]

theorem labelled?_name {v : List Char} (hv : isName v = true) : labelled? v = none := by
  have hd : v.dropWhile isWord = [] := by
    simpa using stops_nil.dropWhile_append (isWord_of_isName hv)
  simp [labelled?, hd, trimLeft]

theorem labelled?_label {label v : List Char} (hl : isName label = true) (hv : isName v = true) :
    labelled? (label ++ ':' :: ' ' :: v) = some (label, v) := by
  have hstop : Stops isWord (':' :: ' ' :: v) := stops_cons (by decide) _
  have hcolon : trimLeft (':' :: ' ' :: v) = ':' :: ' ' :: v :=
    trimLeft_kept (by decide) _
  have hvalue : trimLeft (' ' :: v) = v := by
    rw [trimLeft_cons (by decide), trimLeft_of_stops (stops_of_isName hv).1]
  have hempty : v.isEmpty = false := by simpa using ne_nil_of_isName hv
  rw [labelled?]
  simp only [hstop.takeWhile_append (isWord_of_isName hl),
    hstop.dropWhile_append (isWord_of_isName hl), hcolon]
  cases label with
  | nil => cases hl
  | cons c label => simp [hvalue, hempty]

theorem IsArgument.property (h : IsArgument limit argument) :
    property limit argument = argument := by
  cases h with
  | value hv hlen =>
    rw [ViewHierarchy.property, labelled?_name hv]
    exact normalizeValue_name hv hlen
  | labelled hl hv hlen =>
    rw [ViewHierarchy.property, labelled?_label hl hv]
    simp only [normalizeValue_name hv hlen]

theorem IsArgument.isPart (h : IsArgument limit argument) : IsPart argument := by
  apply isPart_of_ordinary h.ne_nil h.trim
  intro c hc
  rcases h.characters c hc with h | rfl | rfl
  · exact ⟨isOrdinary_of_isAsciiRest h, ne_of_class h (by decide)⟩
  · decide
  · decide

theorem splitTopLevel_arguments {arguments : List (List Char)}
    (h : ∀ a ∈ arguments, IsArgument limit a) :
    splitTopLevel [','] (joinWith [',', ' '] arguments) = arguments :=
  splitTopLevel_joinWith fun a ha => (h a ha).isPart

/-- Arguments separated by commas are the properties that were written. -/
theorem properties_arguments {arguments : List (List Char)}
    (h : ∀ a ∈ arguments, IsArgument limit a) :
    properties limit (joinWith [',', ' '] arguments) = arguments := by
  rw [properties, splitTopLevel_arguments h, List.map_congr_left fun a ha => (h a ha).property]
  exact List.map_id' arguments

end ViewHierarchy
