import ViewHierarchy.Proofs.Source.Trivia
import ViewHierarchy.View.Closure

/-! Texts that hold no closure, no label of one, or no parameters at the head of one. -/
namespace ViewHierarchy
open Text Source

variable {s t w : List Char}

theorem contentClosure?_of_no_brace (h : '{' ∉ s) : contentClosure? s = none := by
  rw [contentClosure?]
  split
  · split
    · next rest hr =>
      split
      · next block hb =>
        have hrest : '{' ∈ rest := by
          apply (List.dropWhile_sublist isBlank).subset
          rw [← trimLeft, hb]
          exact List.mem_cons_self
        have hs : '{' ∈ trimLeft (s.drop 7) := hr ▸ List.mem_cons_of_mem _ hrest
        exact absurd (List.mem_of_mem_drop ((List.dropWhile_sublist isBlank).subset hs)) h
      · rfl
    · rfl
  · rfl

theorem contentClosure?_of_head (h : ∀ c ∈ s.head?, c ≠ 'c') : contentClosure? s = none := by
  rw [contentClosure?, if_neg]
  intro hp
  obtain ⟨rest, rfl⟩ := List.isPrefixOf_iff_prefix.1 hp
  exact h 'c' rfl rfl

theorem labelledClosures_unlabelled (h : labelledBlock? s = none) :
    labelledClosures s = ([], s) := by
  rw [labelledClosures]
  split
  · rfl
  · next hs => cases h.symm.trans hs

theorem labelledClosures_unclosed {block : List Char} (h : labelledBlock? s = some block)
    (he : enclosed? block = none) : labelledClosures s = ([], []) := by
  rw [labelledClosures]
  split
  · next hs => cases h.symm.trans hs
  · next hs =>
    cases h.symm.trans hs
    split
    · rfl
    · next he' => cases he.symm.trans he'

theorem labelledClosures_cons {block inner rest : List Char} (h : labelledBlock? s = some block)
    (he : enclosed? block = some (inner, rest)) :
    labelledClosures s = (inner :: (labelledClosures rest).1, (labelledClosures rest).2) := by
  rw [labelledClosures]
  split
  · next hs => cases h.symm.trans hs
  · next hs =>
    cases h.symm.trans hs
    split
    · next he' => cases he.symm.trans he'
    · next he' =>
      cases he.symm.trans he'
      rfl

/-- A label stands on the line where the closure before it ends. -/
theorem labelledClosures_of_drop (h : Stops isWord (s.dropWhile fun c => c == ' ' || c == '\t')) :
    labelledClosures s = ([], s) := by
  have htake : (s.dropWhile fun c => c == ' ' || c == '\t').takeWhile isWord = [] := by
    simpa using h.takeWhile_append (s := []) (by simp)
  have hb : labelledBlock? s = none := by
    simp only [labelledBlock?, htake]
  exact labelledClosures_unlabelled hb

theorem labelledClosures_none (hspace : Stops (fun c => c == ' ' || c == '\t') s)
    (hw : Stops isWord s) : labelledClosures s = ([], s) := by
  have hdrop : (s.dropWhile fun c => c == ' ' || c == '\t') = s := by
    simpa using hspace.dropWhile_append (s := []) (by simp)
  exact labelledClosures_of_drop (by rwa [hdrop])

theorem isIdentifierRest_of_isAsciiRest {c : Char} (h : isAsciiRest c = true) :
    isIdentifierRest c = true := by
  rw [isIdentifierRest, isWord_of_isAsciiRest h, Bool.true_or]

/-- What follows a name is left, unless a comma and more names come next. -/
theorem afterIdentifiers?_name {c : Char} (hc : isIdentifierStart c = true)
    (hw : ∀ d ∈ w, isIdentifierRest d = true) (ht : Stops isIdentifierRest t) :
    afterIdentifiers? (c :: (w ++ t)) =
      match trimLeft t with
      | ',' :: more => some ((afterIdentifiers? (trimLeft more)).getD t)
      | _ => some t := by
  have hdrop : (w ++ t).dropWhile isIdentifierRest = t := ht.dropWhile_append hw
  rw [afterIdentifiers?, if_pos hc]
  split
  · next more hm =>
    rw [hdrop] at hm
    simp only [hm, hdrop]
  · next hm =>
    rw [hdrop] at hm ⊢
    split
    · next more hm' => exact absurd hm' (hm more)
    · rfl

theorem afterIdentifiers?_identifier (hw : isIdentifier w = true) (ht : Stops isIdentifierRest t)
    (hcomma : ∀ c ∈ (trimLeft t).head?, c ≠ ',') : afterIdentifiers? (w ++ t) = some t := by
  obtain ⟨⟨c, rest, rfl, hc⟩, hall⟩ := isIdentifier_iff.1 hw
  have hstart : isIdentifierStart c = true := by
    rw [isAsciiStart] at hc
    rw [isIdentifierStart, hc, Bool.true_or]
  have hrest : ∀ d ∈ rest, isIdentifierRest d = true := fun d hd =>
    isIdentifierRest_of_isAsciiRest (hall d (List.mem_cons_of_mem _ hd))
  rw [List.cons_append, afterIdentifiers?_name hstart hrest ht]
  split
  · next more hm => exact absurd rfl (hcomma ',' (hm ▸ rfl))
  · rfl

theorem afterCaptures_of_head (h : ∀ c ∈ s.head?, c ≠ '[') : afterCaptures s = some s := by
  rw [afterCaptures.eq_def]
  split
  · exact absurd rfl (h '[' rfl)
  · rfl

theorem afterParameters?_of_head (h : ∀ c ∈ s.head?, c ≠ '(') :
    afterParameters? s = (afterIdentifiers? s).bind afterBlanks? := by
  rw [afterParameters?.eq_def]
  split
  · exact absurd rfl (h '(' rfl)
  · rfl

theorem afterResultType_of_head (h : ∀ c ∈ s.head?, c ≠ '-') : afterResultType s = s := by
  rw [afterResultType.eq_def]
  split
  · exact absurd rfl (h '-' rfl)
  · rfl

theorem eq_trimLeft_of_afterBlanks? (h : afterBlanks? s = some t) : t = trimLeft s := by
  cases s with
  | nil => cases h
  | cons c s =>
    rw [afterBlanks?, Option.ite_none_right_eq_some] at h
    obtain ⟨hc, h⟩ := h
    cases h
    exact (trimLeft_cons hc s).symm

theorem afterIn?_eq_none (h : startsWithWord ['i', 'n'] s = false) : afterIn? s = none := by
  unfold afterIn?
  split
  · next rest =>
    split
    · rfl
    · next hr => simp [startsWithWord, hr] at h
  · rfl

/-- An identifier opens a parameter list only if a comma, an arrow or `in` comes next. -/
theorem afterClosureHead?_identifier (hw : isIdentifier w = true) (ht : Stops isIdentifierRest t)
    (hnext : ∀ c ∈ (trimLeft t).head?, c ≠ ',' ∧ c ≠ '-')
    (hin : startsWithWord ['i', 'n'] (trimLeft t) = false) : afterClosureHead? (w ++ t) = none := by
  have hhead : ∀ c ∈ (w ++ t).head?, isAsciiRest c = true := by
    obtain ⟨⟨d, rest, rfl, hd⟩, -⟩ := isIdentifier_iff.1 hw
    intro c hc
    cases hc
    exact isAsciiRest_of_start hd
  have htrim := trimLeft_identifier hw t
  have hcaptures : afterCaptures (w ++ t) = some (w ++ t) :=
    afterCaptures_of_head fun c hc => ne_of_class (hhead c hc) (by decide)
  have hparameters : afterParameters? (w ++ t) = afterBlanks? t := by
    rw [afterParameters?_of_head fun c hc => ne_of_class (hhead c hc) (by decide),
      afterIdentifiers?_identifier hw ht fun c hc => (hnext c hc).1, Option.bind_some]
  simp only [afterClosureHead?, htrim, hcaptures, hparameters, Option.bind_eq_bind,
    Option.bind_some]
  cases hb : afterBlanks? t with
  | none => rfl
  | some u =>
    rw [eq_trimLeft_of_afterBlanks? hb, Option.bind_some,
      afterResultType_of_head fun c hc => (hnext c hc).2, afterIn?_eq_none hin]

end ViewHierarchy
