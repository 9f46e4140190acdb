import ViewHierarchy.Proofs.Source.Interpolation

/-! One-line strings and the ends of their lines. The scan goes over a backslash together with the
character behind it, so a line break is part of a string just if no quote has closed the string by
then and the line ends in an odd number of backslashes. -/
namespace ViewHierarchy.Source

variable {c : Char} {s t : List Char}

def trailingBackslashes (s : List Char) : Nat := (s.reverse.takeWhile (· == '\\')).length

/-- The last backslash of the text is not guarded itself, so it guards the next character. -/
def Guards (s : List Char) : Prop := trailingBackslashes s % 2 = 1

instance (s : List Char) : Decidable (Guards s) := inferInstanceAs (Decidable (_ = _))

/-- No quote of the text closes a string, for each has a backslash that guards it. -/
def QuotesGuarded (s : List Char) : Prop := ∀ p, p ++ ['"'] <+: s → Guards p

theorem trailingBackslashes_append (s t : List Char) :
    trailingBackslashes (s ++ t) =
      if trailingBackslashes t = t.length then trailingBackslashes s + t.length
      else trailingBackslashes t := by
  simp only [trailingBackslashes, List.reverse_append, List.takeWhile_append, List.length_reverse,
    apply_ite List.length, List.length_append, Nat.add_comm t.length]
  rfl

theorem guards_cons (h : c ≠ '\\') (s : List Char) : Guards (c :: s) ↔ Guards s := by
  have hone : trailingBackslashes [c] = 0 := by simp [trailingBackslashes, h]
  rw [Guards, ← List.singleton_append, trailingBackslashes_append, hone, Guards]
  split
  · next hall => rw [hall, Nat.zero_add]
  · rfl

/-- A backslash and the character that it guards do not count. -/
theorem guards_escape (c : Char) (s : List Char) : Guards ('\\' :: c :: s) ↔ Guards s := by
  have htwo : trailingBackslashes ['\\', c] % 2 = 0 := by
    by_cases hc : c = '\\' <;> simp [trailingBackslashes, hc]
  have happend : '\\' :: c :: s = ['\\', c] ++ s := rfl
  rw [Guards, happend, trailingBackslashes_append, Guards]
  split
  · next hall => omega
  · rfl

theorem quotesGuarded_of_notMem (h : '"' ∉ s) : QuotesGuarded s := by
  intro p hp
  exact absurd (hp.subset (List.mem_append_right p (List.mem_singleton_self _))) h

theorem quotesGuarded_cons (h : c ≠ '\\') :
    QuotesGuarded (c :: s) ↔ c ≠ '"' ∧ QuotesGuarded s := by
  constructor
  · intro hq
    constructor
    · rintro rfl
      exact absurd (hq [] (List.prefix_append ['"'] s)) (by decide)
    · intro p hp
      rw [← guards_cons h p]
      exact hq (c :: p) ((List.prefix_cons_inj c).2 hp)
  · rintro ⟨hquote, hq⟩ p hp
    cases p with
    | nil => exact absurd (List.prefix_cons_iff.1 hp) (by simp [hquote.symm])
    | cons d p =>
      rw [List.cons_append, List.cons_prefix_cons] at hp
      obtain ⟨rfl, hp⟩ := hp
      exact (guards_cons h p).2 (hq p hp)

theorem quotesGuarded_escape : QuotesGuarded ('\\' :: c :: s) ↔ QuotesGuarded s := by
  constructor
  · intro hq p hp
    rw [← guards_escape c p]
    exact hq ('\\' :: c :: p) ((List.prefix_cons_inj _).2 ((List.prefix_cons_inj _).2 hp))
  · intro hq p hp
    rcases p with _ | ⟨d, _ | ⟨e, p⟩⟩
    · exact absurd (List.prefix_cons_iff.1 hp) (by simp)
    · rw [List.cons_append, List.cons_prefix_cons] at hp
      rw [hp.1]
      decide
    · simp only [List.cons_append, List.cons_prefix_cons] at hp
      obtain ⟨rfl, rfl, hp⟩ := hp
      exact (guards_escape e p).2 (hq p hp)

/-- A string goes beyond its line just if no quote closes it there and the line break is guarded. -/
theorem lineStringTail_beyond_iff (s : List Char) :
    (firstLine s).length < lineStringTail s ↔
      QuotesGuarded (firstLine s) ∧ Guards (firstLine s) ∧ '\n' ∈ s := by
  fun_induction lineStringTail s with
  | case1 => simp [firstLine]
  | case2 c rest ih =>
    by_cases hc : c = '\n'
    · subst hc
      have hline : firstLine ('\\' :: '\n' :: rest) = ['\\'] := rfl
      rw [hline]
      refine iff_of_true (Nat.le_add_left 2 _) ⟨?_, by decide, by simp⟩
      exact quotesGuarded_of_notMem (by decide)
    · rw [firstLine_cons (by decide), firstLine_cons hc, quotesGuarded_escape, guards_escape]
      simp only [List.length_cons, Nat.add_lt_add_iff_right, ih, List.mem_cons, Ne.symm hc,
        false_or]
      simp
  | case3 rest =>
    rw [firstLine_cons (by decide), quotesGuarded_cons (by decide)]
    simp
  | case4 rest => simp [firstLine, Guards, trailingBackslashes]
  | case5 c rest hesc hquote hline ih =>
    by_cases hc : c = '\\'
    · -- A backslash is read alone only at the end of the text, so no line break follows it.
      subst hc
      cases rest with
      | nil => exact iff_of_false (Nat.lt_irrefl 1) fun h => absurd h.2.2 (by decide)
      | cons d rest => exact absurd rfl (hesc d rest rfl)
    · rw [firstLine_cons hline, quotesGuarded_cons hc, guards_cons hc, and_iff_right hquote]
      simp [ih, Ne.symm hline]

/-- A string that no quote closes on its line goes to the end of the line at least. -/
theorem QuotesGuarded.le_lineStringTail (h : QuotesGuarded (firstLine s)) :
    (firstLine s).length ≤ lineStringTail s := by
  fun_induction lineStringTail s with
  | case1 => exact Nat.le_refl 0
  | case2 c rest ih =>
    by_cases hc : c = '\n'
    · subst hc
      exact Nat.le_add_left 1 _
    · rw [firstLine_cons (by decide), firstLine_cons hc] at h ⊢
      exact Nat.add_le_add_right (ih (quotesGuarded_escape.1 h)) 2
  | case3 rest =>
    rw [firstLine_cons (by decide)] at h
    exact absurd rfl ((quotesGuarded_cons (by decide)).1 h).1
  | case4 rest => exact Nat.le_refl 0
  | case5 c rest hesc hquote hline ih =>
    by_cases hc : c = '\\'
    · subst hc
      cases rest with
      | nil => exact Nat.le_refl 1
      | cons d rest => exact absurd rfl (hesc d rest rfl)
    · rw [firstLine_cons hline] at h ⊢
      exact Nat.succ_le_succ (ih ((quotesGuarded_cons hc).1 h).2)

theorem lineBreak_mem_take_iff {n : Nat} (hn : n ≤ s.length) :
    '\n' ∈ s.take n ↔ (firstLine s).length < n := by
  induction s generalizing n with
  | nil =>
    cases Nat.le_zero.1 hn
    exact iff_of_false List.not_mem_nil (Nat.lt_irrefl 0)
  | cons c s ih =>
    cases n with
    | zero => exact iff_of_false List.not_mem_nil (Nat.not_lt_zero _)
    | succ n =>
      by_cases hc : c = '\n'
      · subst hc
        exact iff_of_true List.mem_cons_self (Nat.succ_pos n)
      · rw [firstLine_cons hc, List.take_succ_cons, List.mem_cons, or_iff_right (Ne.symm hc),
          ih (Nat.le_of_succ_le_succ hn), List.length_cons, Nat.add_lt_add_iff_right]

/-- What the scan goes over from a quote on that starts no multi-line string. -/
theorem extract_lineString {pos : Nat} (hquote : s[pos]? = some '"')
    (hline : ¬['"', '"', '"'] <+: s.drop pos) :
    skipLiteral s pos = pos + 1 + lineStringTail (s.drop (pos + 1)) ∧
      s.extract pos (skipLiteral s pos) =
        '"' :: (s.drop (pos + 1)).take (lineStringTail (s.drop (pos + 1))) := by
  obtain ⟨p, t, rfl, rfl⟩ := split_at_getElem? hquote
  have hdrop : (p ++ '"' :: t).drop (p.length + 1) = t := by
    rw [List.drop_length_add_append, List.drop_succ_cons, List.drop_zero]
  rw [List.drop_left] at hline
  have hno : ¬['"', '"'] <+: t := fun h => hline ((List.prefix_cons_inj '"').2 h)
  have hskip : skipLiteral (p ++ '"' :: t) p.length = p.length + (lineStringTail t + 1) :=
    skipLiteral_literal (by rw [List.drop_left, literal?_quote hno])
  rw [hdrop, hskip, List.extract_eq_take_drop, List.drop_left, Nat.add_sub_cancel_left,
    List.take_succ_cons]
  exact ⟨by omega, rfl⟩

/-- A string from a quote on holds a line break just if every quote on its line is guarded and the
line break behind them is guarded too. If a string holds none and no quote on its line closes it,
then it ends where its line does. -/
theorem lineBreak_notMem_string_iff (s : List Char) (pos : Nat) (hquote : s[pos]? = some '"')
    (hline : ¬['"', '"', '"'] <+: s.drop pos) :
    ('\n' ∉ s.extract pos (skipLiteral s pos) ↔
        ¬(QuotesGuarded (firstLine (s.drop (pos + 1))) ∧ Guards (firstLine (s.drop (pos + 1))) ∧
          '\n' ∈ s.drop (pos + 1))) ∧
      ('\n' ∉ s.extract pos (skipLiteral s pos) → QuotesGuarded (firstLine (s.drop (pos + 1))) →
        skipLiteral s pos = pos + 1 + (firstLine (s.drop (pos + 1))).length) := by
  obtain ⟨hskip, hspan⟩ := extract_lineString hquote hline
  have hmem : '\n' ∈ s.extract pos (skipLiteral s pos) ↔
      (firstLine (s.drop (pos + 1))).length < lineStringTail (s.drop (pos + 1)) := by
    rw [hspan, List.mem_cons, or_iff_right (by decide),
      lineBreak_mem_take_iff (lineStringTail_le _)]
  refine ⟨by rw [hmem, lineStringTail_beyond_iff], fun hnot hguarded => ?_⟩
  rw [hmem, Nat.not_lt] at hnot
  rw [hskip, Nat.le_antisymm hnot hguarded.le_lineStringTail]

/-- A string without an end, with a guarded quote, before a line with a brace. -/
def unfinishedString : List Char := ['"', 'a', '\\', '"', '\n', '}']

theorem lineBreak_notMem_unfinishedString :
    unfinishedString[0]? = some '"' ∧ ¬['"', '"', '"'] <+: unfinishedString.drop 0 ∧
      '\n' ∉ unfinishedString.extract 0 (skipLiteral unfinishedString 0) ∧
      QuotesGuarded ['a', '\\', '"'] ∧ skipLiteral unfinishedString 0 = 4 := by
  have hquote : unfinishedString[0]? = some '"' := rfl
  have hline : ¬['"', '"', '"'] <+: unfinishedString.drop 0 := by decide
  have hguarded : QuotesGuarded ['a', '\\', '"'] :=
    (quotesGuarded_cons (by decide)).2
      ⟨by decide, quotesGuarded_escape.2 (quotesGuarded_of_notMem (by decide))⟩
  obtain ⟨hiff, hend⟩ := lineBreak_notMem_string_iff unfinishedString 0 hquote hline
  have hnot := hiff.2 fun h => absurd h.2.1 (by decide)
  exact ⟨hquote, hline, hnot, hguarded, hend hnot hguarded⟩

/-- A backslash before the line break takes the string on to the next line. -/
theorem lineBreak_mem_guardedString :
    ['"', '\\', '\n', '}'][0]? = some '"' ∧ ¬['"', '"', '"'] <+: ['"', '\\', '\n', '}'].drop 0 ∧
      '\n' ∈ ['"', '\\', '\n', '}'].extract 0 (skipLiteral ['"', '\\', '\n', '}'] 0) := by
  decide

end ViewHierarchy.Source
