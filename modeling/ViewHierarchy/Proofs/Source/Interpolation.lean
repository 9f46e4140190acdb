import Mathlib.Data.List.TakeWhile
import ViewHierarchy.Proofs.Source.Scanning

/-! Strings with interpolations. The scan knows no interpolation. It goes over a string to the quote
that closes it as long as no interpolation holds a quote or a line break, and then nothing in the
string is counted, split at or left unmasked. -/
namespace ViewHierarchy.Source

mutual

/-- What stands between the quotes of a string: plain characters, escapes, and interpolations whose
texts belong to the class `p`. -/
inductive StringContent (p : List Char → Prop) : List Char → Prop
  | nil : StringContent p []
  | plain {c s} : c ≠ '"' → c ≠ '\\' → c ≠ '\n' → StringContent p s → StringContent p (c :: s)
  | escape {c s} : c ≠ '(' → c ≠ '\n' → StringContent p s → StringContent p ('\\' :: c :: s)
  | interpolation {t s} : InterpolatedText p t → p t → StringContent p s →
      StringContent p ('\\' :: '(' :: (t ++ ')' :: s))

/-- A text with balanced round brackets, the quotes of which belong to strings. -/
inductive InterpolatedText (p : List Char → Prop) : List Char → Prop
  | empty : InterpolatedText p []
  | other {c t} : c ≠ '"' → c ≠ '(' → c ≠ ')' → InterpolatedText p t → InterpolatedText p (c :: t)
  | round {t u} : InterpolatedText p t → InterpolatedText p u →
      InterpolatedText p ('(' :: (t ++ ')' :: u))
  | string {s t} : StringContent p s → InterpolatedText p t →
      InterpolatedText p ('"' :: (s ++ '"' :: t))

end

/-- A string with its quotes. -/
def IsStringLiteral (p : List Char → Prop) (l : List Char) : Prop :=
  ∃ s, StringContent p s ∧ l = '"' :: (s ++ ['"'])

/-- No quote occurs in the text, and no line break behind a backslash. -/
def IsUnquoted (s : List Char) : Prop := '"' ∉ s ∧ ¬['\\', '\n'] <:+: s

/-- The text up to its first line break. -/
def firstLine (s : List Char) : List Char := s.takeWhile (· != '\n')

variable {p : List Char → Prop} {c : Char} {l s t : List Char}

theorem firstLine_cons (h : c ≠ '\n') (s : List Char) : firstLine (c :: s) = c :: firstLine s := by
  rw [firstLine, List.takeWhile_cons_of_pos (by simpa using h), firstLine]

theorem length_firstLine_cons (h : c ≠ '\n') (s : List Char) :
    (firstLine (c :: s)).length = (firstLine s).length + 1 := by
  rw [firstLine_cons h, List.length_cons]

theorem firstLine_eq_self (h : '\n' ∉ s) : firstLine s = s :=
  List.takeWhile_eq_self_iff.2 fun _ hc => bne_iff_ne.2 (ne_of_mem_of_not_mem hc h)

theorem IsUnquoted.of_cons (h : IsUnquoted (c :: s)) : IsUnquoted s :=
  ⟨fun hm => h.1 (List.mem_cons_of_mem c hm),
    fun hm => h.2 (hm.trans (List.suffix_cons c s).isInfix)⟩

/-- If the string goes on to the end of `u` or its first line break behind an interpolation, it does
so from the text of the interpolation on. -/
theorem IsUnquoted.lineStringTail_append (h : IsUnquoted t) {u : List Char}
    (hs : lineStringTail s = (firstLine u).length) :
    lineStringTail (t ++ ')' :: s) = (firstLine (t ++ ')' :: u)).length := by
  fun_induction lineStringTail t with
  | case1 =>
    rw [List.nil_append, lineStringTail_cons s (by decide) (by decide) (by decide), hs,
      List.nil_append, length_firstLine_cons (by decide)]
  | case2 c rest ih =>
    have hc : c ≠ '\n' := by
      rintro rfl
      exact h.2 (List.prefix_append ['\\', '\n'] rest).isInfix
    rw [List.cons_append, List.cons_append, lineStringTail, ih h.of_cons.of_cons, List.cons_append,
      List.cons_append, length_firstLine_cons (by decide), length_firstLine_cons hc]
  | case3 rest => exact absurd List.mem_cons_self h.1
  | case4 rest => rfl
  | case5 c rest hesc hquote hline ih =>
    by_cases hc : c = '\\'
    · -- A backslash at the end of the text guards the bracket behind it.
      subst hc
      cases rest with
      | nil =>
        rw [List.singleton_append, lineStringTail, hs, List.singleton_append,
          length_firstLine_cons (by decide), length_firstLine_cons (by decide)]
      | cons d rest => exact absurd rfl (hesc d rest rfl)
    · rw [List.cons_append, lineStringTail_cons _ hc hquote hline, ih h.of_cons, List.cons_append,
        length_firstLine_cons hline]

/-- A string without quotes in its interpolations ends at its own closing quote or before its first
line break. -/
theorem StringContent.lineStringTail (h : StringContent IsUnquoted s) (t : List Char) :
    Source.lineStringTail (s ++ '"' :: t) = (firstLine (s ++ ['"'])).length := by
  induction h using StringContent.rec (motive_2 := fun _ _ => True) with
  | nil => rfl
  | plain hquote hesc hline _ ih =>
    rw [List.cons_append, lineStringTail_cons _ hesc hquote hline, ih, List.cons_append,
      length_firstLine_cons hline]
  | escape _ hline _ ih =>
    rw [List.cons_append, List.cons_append, Source.lineStringTail, ih, List.cons_append,
      List.cons_append, length_firstLine_cons (by decide), length_firstLine_cons hline]
  | interpolation _ hu _ _ ih =>
    simp only [List.cons_append, List.append_assoc]
    rw [Source.lineStringTail, hu.lineStringTail_append ih, length_firstLine_cons (by decide),
      length_firstLine_cons (by decide)]
  | empty | other | round | string => trivial

/-- Two quotes do not stand next to each other where a string begins and the text goes on. -/
theorem StringContent.not_prefix (h : StringContent p s) (ht : t.head? ≠ some '"') :
    ¬['"', '"'] <+: s ++ '"' :: t := by
  rintro ⟨u, hu⟩
  cases h with
  | nil =>
    obtain ⟨-, rfl⟩ := List.cons.inj hu
    exact ht rfl
  | plain hquote _ _ _ => exact hquote (List.cons.inj hu).1.symm
  | escape | interpolation => cases (List.cons.inj hu).1

theorem IsStringLiteral.literal? (h : IsStringLiteral IsUnquoted l) (ht : t.head? ≠ some '"') :
    literal? (l ++ t) = some (.string, (firstLine l).length) := by
  obtain ⟨s, hs, rfl⟩ := h
  rw [List.cons_append, List.append_assoc, List.singleton_append,
    literal?_quote (hs.not_prefix ht), hs.lineStringTail, length_firstLine_cons (by decide)]

theorem IsStringLiteral.mark (h : IsStringLiteral IsUnquoted l) (hline : '\n' ∉ l)
    (ht : t.head? ≠ some '"') : Source.mark (l ++ t) = l.map (·, .string) ++ Source.mark t := by
  rw [mark_literal (h.literal? ht), firstLine_eq_self hline, List.take_left, List.drop_left]

theorem nested_literal (l : List Char) : Nested (l.map (·, Role.string)) := by
  apply nested_of_forall
  intro m hm
  obtain ⟨c, -, rfl⟩ := List.mem_map.1 hm
  rfl

theorem piecesFrom_literal (sep : List Char) (depth : Int) (piece l : List Char)
    (ms : List Marked) :
    piecesFrom sep depth piece (l.map (·, .string) ++ ms) =
      piecesFrom sep depth (l.reverse ++ piece) ms := by
  induction l generalizing piece with
  | nil => rfl
  | cons c l ih =>
    rw [List.map_cons, List.cons_append, piecesFrom, ih, List.reverse_cons, List.append_assoc]
    · rfl
    · exact fun h => Role.noConfusion h

/-- A string on one line is masked as a whole. -/
theorem masked_literal (hline : '\n' ∉ l) :
    (l.map (·, Role.string)).map Marked.masked = List.replicate l.length ' ' := by
  rw [List.map_map]
  exact List.map_eq_replicate_iff.2 fun c hc => if_neg (ne_of_mem_of_not_mem hc hline)

/-- A string without quotes in its interpolations, if no third quote follows it, is gone over to its
closing quote or up to its first line break. If there is no line break, brackets and commas in it
are not counted, whatever is open or was read before it, and all of it is masked. -/
theorem skipLiteral_stringLiteral (hl : IsStringLiteral IsUnquoted l) (ht : t.head? ≠ some '"') :
    skipLiteral (l ++ t) 0 = (firstLine l).length ∧
      ('\n' ∉ l →
        skipLiteral (l ++ t) 0 = l.length ∧
          (∀ o c d, closing? o = some c → closeOffset? o c (d + 1) (mark (l ++ t)) =
            (closeOffset? o c (d + 1) (mark t)).map (· + l.length)) ∧
          (∀ sep depth piece, piecesFrom sep depth piece (mark (l ++ t)) =
            piecesFrom sep depth (l.reverse ++ piece) (mark t)) ∧
          mask (l ++ t) = List.replicate l.length ' ' ++ mask t) := by
  have hskip : skipLiteral (l ++ t) 0 = (firstLine l).length := by
    rw [skipLiteral_literal (i := 0) (hl.literal? ht), Nat.zero_add]
  refine ⟨hskip, fun hline => ⟨?_, fun o c d hc => ?_, fun sep depth piece => ?_, ?_⟩⟩
  · rw [hskip, firstLine_eq_self hline]
  · rw [hl.mark hline ht, (nested_literal l).closeOffset?_append hc, List.length_map]
  · rw [hl.mark hline ht, piecesFrom_literal]
  · rw [mask, hl.mark hline ht, List.map_append, masked_literal hline, mask]

/-- A string that calls a function, with an escaped quote and brackets of its own. -/
def callString : List Char :=
  ['"', '\\', '(', 'f', '(', 'x', ')', ')', '\\', '"', '}', ',', '"']

theorem skipLiteral_callString :
    IsStringLiteral IsUnquoted callString ∧ [' ', '}'].head? ≠ some '"' ∧ '\n' ∉ callString ∧
      skipLiteral (callString ++ [' ', '}']) 0 = 13 ∧
      mask (callString ++ [' ', '}']) = List.replicate 13 ' ' ++ mask [' ', '}'] := by
  have htext : InterpolatedText IsUnquoted (['f'] ++ '(' :: (['x'] ++ ')' :: [])) :=
    .other (by decide) (by decide) (by decide)
      (.round (.other (by decide) (by decide) (by decide) .empty) .empty)
  have hclass : IsUnquoted (['f'] ++ '(' :: (['x'] ++ ')' :: [])) := ⟨by decide, by decide⟩
  have hrest : StringContent IsUnquoted ['\\', '"', '}', ','] :=
    .escape (by decide) (by decide)
      (.plain (by decide) (by decide) (by decide)
        (.plain (by decide) (by decide) (by decide) .nil))
  have hl : IsStringLiteral IsUnquoted callString := ⟨_, .interpolation htext hclass hrest, rfl⟩
  have ht : [' ', '}'].head? ≠ some '"' := by decide
  have hline : '\n' ∉ callString := by decide
  obtain ⟨-, honeLine⟩ := skipLiteral_stringLiteral hl ht
  obtain ⟨hskip, -, -, hmask⟩ := honeLine hline
  exact ⟨hl, ht, hline, hskip, hmask⟩

/-- A string with another one in its interpolation. -/
def nestedString : List Char := ['"', '\\', '(', '"', 'a', '"', ')', '"']

/-- A string with a line break in its interpolation. -/
def brokenString : List Char := ['"', '\\', '(', 'a', '\n', 'b', ')', '"']

/-- A string with any interpolations need not be gone over as a whole: the inner quote of one ends
it, and so does the line break of the other. -/
theorem skipLiteral_cut_short :
    (IsStringLiteral (fun _ => True) nestedString ∧
        skipLiteral (nestedString ++ []) 0 ≠ nestedString.length) ∧
      IsStringLiteral (fun _ => True) brokenString ∧
        skipLiteral (brokenString ++ []) 0 ≠ brokenString.length := by
  have hnested : InterpolatedText (fun _ => True) ('"' :: (['a'] ++ '"' :: [])) :=
    .string (.plain (by decide) (by decide) (by decide) .nil) .empty
  have hbroken : InterpolatedText (fun _ => True) ['a', '\n', 'b'] :=
    .other (by decide) (by decide) (by decide) (.other (by decide) (by decide) (by decide)
      (.other (by decide) (by decide) (by decide) .empty))
  refine ⟨⟨⟨_, .interpolation hnested trivial .nil, rfl⟩, by decide⟩,
    ⟨_, .interpolation hbroken trivial .nil, rfl⟩, by decide⟩

end ViewHierarchy.Source
