import ViewHierarchy.Proofs.Source.Marking
import ViewHierarchy.Proofs.Text.Identifier
import ViewHierarchy.Source.Trivia

/-! White space in front of the next token, and the word that the token is. -/
namespace ViewHierarchy.Source
open Text (isBlank isWord isAsciiRest Stops)

variable {c : Char} {s t w word : List Char}

theorem literal?_of_isBlank (h : isBlank c = true) (s : List Char) : literal? (c :: s) = none := by
  apply literal?_eq_none
  · rintro rfl
    revert h
    decide
  · rintro rfl
    revert h
    decide

/-- White space does not make a comment of a slash in front of it. -/
theorem head_of_blank (h : ∀ c ∈ s, isBlank c = true) : ∀ c ∈ s.head?, c ≠ '/' ∧ c ≠ '*' := by
  intro c hc
  have hblank := h c (List.mem_of_mem_head? hc)
  constructor
  · rintro rfl
    cases hblank
  · rintro rfl
    cases hblank

theorem literal?_of_isAsciiRest (h : isAsciiRest c = true) (s : List Char) :
    literal? (c :: s) = none := by
  apply literal?_eq_none
  · exact Text.ne_of_class h (by decide)
  · exact Text.ne_of_class h (by decide)

theorem dropTrivia_cons (h : isBlank c = true) (s : List Char) :
    dropTrivia (c :: s) = dropTrivia s := by
  rw [dropTrivia, triviaLength, mark_cons (literal?_of_isBlank h s),
    List.takeWhile_cons_of_pos (by exact h)]
  rfl

theorem dropTrivia_of_code (hl : literal? (c :: s) = none) (h : isBlank c = false) :
    dropTrivia (c :: s) = c :: s := by
  rw [dropTrivia, triviaLength, mark_cons hl,
    List.takeWhile_cons_of_neg (by simp [Marked.isTrivia, h])]
  rfl

theorem dropSeparators_cons (h : isBlank c = true) (s : List Char) :
    dropSeparators (c :: s) = dropSeparators s := by
  rw [dropSeparators, separatorLength, mark_cons (literal?_of_isBlank h s),
    List.takeWhile_cons_of_pos (by simp [Marked.isSeparator, Marked.isTrivia, h])]
  rfl

theorem dropSeparators_of_isAsciiRest (h : isAsciiRest c = true) (s : List Char) :
    dropSeparators (c :: s) = c :: s := by
  have hno : Marked.isSeparator (c, .code) = false := by
    simp [Marked.isSeparator, Marked.isTrivia, Text.isBlank_of_isAsciiRest h,
      Text.ne_of_class h (d := ',') (by decide),
      Text.ne_of_class h (d := ';') (by decide)]
  rw [dropSeparators, separatorLength, mark_cons (literal?_of_isAsciiRest h s),
    List.takeWhile_cons_of_neg (by simp [hno])]
  rfl

theorem startsWithWord_eq_true :
    startsWithWord word s = true ↔ ∃ t, s = word ++ t ∧ Stops isWord t := by
  rw [startsWithWord, Bool.and_eq_true, List.isPrefixOf_iff_prefix]
  constructor
  · rintro ⟨⟨t, rfl⟩, ht⟩
    rw [List.drop_left] at ht
    refine ⟨t, rfl, ?_⟩
    intro c hc
    simpa [Option.mem_def.1 hc] using ht
  · rintro ⟨t, rfl, ht⟩
    refine ⟨List.prefix_append _ _, ?_⟩
    rw [List.drop_left]
    cases t with
    | nil => rfl
    | cons c t => simp [ht c rfl]

/-- A text that goes on after a word starts with no other word. -/
theorem startsWithWord_iff (hword : ∀ c ∈ word, isWord c = true) (hw : ∀ c ∈ w, isWord c = true)
    (ht : Stops isWord t) : startsWithWord word (w ++ t) = true ↔ word = w := by
  induction word generalizing w with
  | nil =>
    cases w with
    | nil =>
      cases t with
      | nil => simp [startsWithWord]
      | cons d t => simp [startsWithWord, ht d rfl]
    | cons c w => simp [startsWithWord, hw c List.mem_cons_self]
  | cons d word ih =>
    obtain ⟨hd, hword⟩ := List.forall_mem_cons.1 hword
    cases w with
    | nil =>
      cases t with
      | nil => simp [startsWithWord]
      | cons e t =>
        have hne : d ≠ e := by
          rintro rfl
          exact Bool.false_ne_true ((ht d rfl).symm.trans hd)
        simp [startsWithWord, hne]
    | cons c w =>
      obtain ⟨hc, hw⟩ := List.forall_mem_cons.1 hw
      have hcons : startsWithWord (d :: word) (c :: w ++ t) =
          (d == c && startsWithWord word (w ++ t)) :=
        Bool.and_assoc _ _ _
      rw [hcons, Bool.and_eq_true, ih hword hw, beq_iff_eq, List.cons.injEq]

theorem startsWithWord_self (hw : ∀ c ∈ w, isWord c = true) (ht : Stops isWord t) :
    startsWithWord w (w ++ t) = true :=
  (startsWithWord_iff hw hw ht).2 rfl

theorem startsWithWord_eq_false (hword : ∀ c ∈ word, isWord c = true)
    (hw : ∀ c ∈ w, isWord c = true) (ht : Stops isWord t) (hne : word ≠ w) :
    startsWithWord word (w ++ t) = false := by
  rw [← Bool.not_eq_true, startsWithWord_iff hword hw ht]
  exact hne

/-- A word does not reach over a character that it does not hold. -/
theorem prefix_of_notMem (hc : c ∉ word) (h : word <+: w ++ c :: t) : word <+: w := by
  rcases List.prefix_or_prefix_of_prefix h (List.prefix_append w (c :: t)) with hw | ⟨v, rfl⟩
  · exact hw
  · rcases List.prefix_cons_iff.1 ((List.prefix_append_right_inj w).1 h) with rfl | ⟨u, rfl, -⟩
    · simp
    · exact absurd (by simp) hc

theorem isPrefixOf_append_cons (hc : c ∉ word) (w t : List Char) :
    word.isPrefixOf (w ++ c :: t) = word.isPrefixOf w := by
  rw [Bool.eq_iff_iff, List.isPrefixOf_iff_prefix, List.isPrefixOf_iff_prefix]
  exact ⟨prefix_of_notMem hc, fun h => h.trans (List.prefix_append _ _)⟩

/-- Whether a word starts a text is settled before a character that belongs to no word. -/
theorem startsWithWord_append_cons (hword : ∀ d ∈ word, isWord d = true) (hc : isWord c = false)
    (w t : List Char) : startsWithWord word (w ++ c :: t) = startsWithWord word w := by
  have hmem : c ∉ word := fun h => Bool.false_ne_true (hc.symm.trans (hword c h))
  rw [startsWithWord, startsWithWord, isPrefixOf_append_cons hmem]
  cases hp : word.isPrefixOf w with
  | false => rfl
  | true =>
    obtain ⟨v, rfl⟩ := List.isPrefixOf_iff_prefix.1 hp
    rw [List.append_assoc, List.drop_left, List.drop_left]
    cases v with
    | nil => simp [hc]
    | cons d v => rfl

theorem startsWithWord_append (hword : ∀ d ∈ word, isWord d = true) (ht : Stops isWord t)
    (w : List Char) : startsWithWord word (w ++ t) = startsWithWord word w := by
  cases t with
  | nil => rw [List.append_nil]
  | cons c t => exact startsWithWord_append_cons hword (ht c rfl) w t

theorem getLastD_append (p q : List Char) (b : Char) :
    (p ++ q).getLastD b = q.getLastD (p.getLastD b) := by
  induction p generalizing b with
  | nil => rfl
  | cons c p ih => rw [List.cons_append, List.getLastD_cons, List.getLastD_cons, ih]

theorem isWordAt_append (p t word : List Char) : isWordAt (p ++ t) p.length word =
    (startsWithWord word t && !isWord (p.getLastD ' ')) := by
  rw [isWordAt, List.drop_left, List.length_append]
  rcases List.eq_nil_or_concat p with rfl | ⟨q, c, rfl⟩
  · simp [show isWord ' ' = false by decide]
  · simp

end ViewHierarchy.Source
