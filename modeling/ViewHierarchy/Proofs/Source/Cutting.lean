import ViewHierarchy.Proofs.Source.Marking

/-! Texts are cut at seams: what stands on one side of a seam does not matter for the other side. -/
namespace ViewHierarchy.Source

variable {s t u : List Char} {c : Char}

/-- A literal that ends before a character does not depend on what comes behind it. -/
theorem literal?_replace {role : Role} {n : Nat} (h : literal? (s ++ c :: t) = some (role, n))
    (hn : n ≤ s.length) (u : List Char) : literal? (s ++ c :: u) = some (role, n) := by
  rw [List.append_cons] at h ⊢
  have hlt : n < (s ++ [c]).length := by
    simp only [List.length_append, List.length_singleton]
    omega
  obtain ⟨m, hm, hmn⟩ := literal?_extend (literal?_of_append h (Nat.le_of_lt hlt)) u
  rcases hmn with rfl | ⟨he, -⟩
  · exact hm
  · omega

theorem head?_append_cons (s t u : List Char) (c : Char) :
    (s ++ c :: t).head? = (s ++ c :: u).head? := by
  cases s <;> rfl

/-- Of the text behind a seam only the first character matters. -/
theorem Seam.replace (h : Seam (c :: t) s) (u : List Char) : Seam (c :: u) s := by
  induction h with
  | nil => exact .nil
  | @code d s hl _ ih =>
    apply Seam.code _ ih
    rw [literal?_eq_none_iff, head?_append_cons s t u c] at hl
    exact literal?_eq_none_iff.2 hl
  | literal hl hn _ ih => exact .literal (literal?_replace hl hn u) hn ih

theorem Seam.tail (h : Seam t (c :: s)) (hl : literal? (c :: s) = none) :
    literal? (c :: (s ++ t)) = none ∧ Seam t s := by
  cases h with
  | code hl' hs => exact ⟨hl', hs⟩
  | literal hl' hn => cases hl.symm.trans (literal?_of_append hl' hn)

theorem Seam.drop {role : Role} {n : Nat} (h : Seam t s) (hl : literal? s = some (role, n)) :
    literal? (s ++ t) = some (role, n) ∧ n ≤ s.length ∧ Seam t (s.drop n) := by
  cases h with
  | nil => cases hl
  | @code c s hl' _ => cases hl.symm.trans (literal?_none_of_append (s := c :: s) hl')
  | literal hl' hn hs =>
    cases hl.symm.trans (literal?_of_append hl' hn)
    exact ⟨hl', hn, hs⟩

/-- A text with a seam behind it may be cut at any seam inside it. -/
theorem Seam.split (hs : Seam t s) (h : Seam u (s ++ t)) : Seam (t ++ u) s ∧ Seam u t := by
  induction hs with
  | nil => exact ⟨.nil, h⟩
  | code hl _ ih =>
    rw [List.cons_append] at h
    obtain ⟨hl', h'⟩ := h.tail hl
    obtain ⟨hs, ht⟩ := ih h'
    rw [List.append_assoc] at hl'
    exact ⟨.code hl' hs, ht⟩
  | literal hl hn _ ih =>
    obtain ⟨hl', -, h'⟩ := h.drop hl
    rw [List.drop_append_of_le_length hn] at h'
    obtain ⟨hs, ht⟩ := ih h'
    rw [List.append_assoc] at hl'
    exact ⟨.literal hl' hn hs, ht⟩

/-- Two texts with a seam behind each make one text with a seam behind it. -/
theorem Seam.append (hs : Seam (t ++ u) s) (ht : Seam u t) : Seam u (s ++ t) := by
  induction hs with
  | nil => exact ht
  | code hl _ ih =>
    apply Seam.code _ ih
    rwa [List.append_assoc]
  | @literal s role n hl hn _ ih =>
    refine .literal (by rwa [List.append_assoc]) ?_ ?_
    · rw [List.length_append]
      exact Nat.le_add_right_of_le hn
    · rwa [List.drop_append_of_le_length hn]

/-- Where a literal ends before the text does: a line break comes next, or a quote or a slash was
read last. -/
def EndsAt (s : List Char) (n : Nat) : Prop :=
  s[n]? = some '\n' ∨ ∃ k c, n = k + 1 ∧ s[k]? = some c ∧ (c = '"' ∨ c = '/')

theorem EndsAt.cons {n : Nat} (h : EndsAt s n) (c : Char) : EndsAt (c :: s) (n + 1) := by
  rcases h with h | ⟨k, d, rfl, hd, hend⟩
  · exact .inl h
  · exact .inr ⟨k + 1, d, rfl, hd, hend⟩

theorem lineStringTail_end (h : lineStringTail s < s.length) : EndsAt s (lineStringTail s) := by
  fun_induction lineStringTail s with
  | case1 => cases h
  | case2 c rest ih =>
    simp only [List.length_cons] at h
    exact ((ih (by omega)).cons c).cons '\\'
  | case3 rest => exact .inr ⟨0, '"', rfl, rfl, .inl rfl⟩
  | case4 rest => exact .inl rfl
  | case5 c rest _ _ _ ih =>
    rw [List.length_cons] at h
    exact (ih (by omega)).cons c

theorem textStringTail_end (h : textStringTail s < s.length) : EndsAt s (textStringTail s) := by
  fun_induction textStringTail s with
  | case1 => cases h
  | case2 c rest ih =>
    simp only [List.length_cons] at h
    exact ((ih (by omega)).cons c).cons '\\'
  | case3 rest => exact .inr ⟨2, '"', rfl, rfl, .inl rfl⟩
  | case4 c rest _ _ ih =>
    rw [List.length_cons] at h
    exact (ih (by omega)).cons c

theorem blockCommentTail_end (h : blockCommentTail s < s.length) :
    EndsAt s (blockCommentTail s) := by
  fun_induction blockCommentTail s with
  | case1 => cases h
  | case2 rest => exact .inr ⟨1, '/', rfl, rfl, .inr rfl⟩
  | case3 c rest _ ih =>
    rw [List.length_cons] at h
    exact (ih (by omega)).cons c

theorem lineCommentTail_end (h : lineCommentTail s < s.length) :
    EndsAt s (lineCommentTail s) := by
  induction s with
  | nil => cases h
  | cons c rest ih =>
    by_cases hc : c = '\n'
    · subst hc
      exact .inl rfl
    · have htail : lineCommentTail (c :: rest) = lineCommentTail rest + 1 := by
        simp [lineCommentTail, hc]
      rw [htail, List.length_cons] at h
      rw [htail]
      exact (ih (by omega)).cons c

theorem literal?_end {role : Role} {n : Nat} (h : literal? s = some (role, n))
    (hn : n < s.length) : EndsAt s n := by
  fun_cases literal? s with
  | case1 rest =>
    cases h
    simp only [List.length_cons] at hn
    exact (((textStringTail_end (by omega)).cons _).cons _).cons _
  | case2 rest hquote =>
    have hq : ¬['"', '"'] <+: rest := by
      rintro ⟨u, hu⟩
      exact hquote u hu.symm
    rw [literal?_quote hq] at h
    cases h
    rw [List.length_cons] at hn
    exact (lineStringTail_end (by omega)).cons _
  | case3 rest =>
    cases h
    simp only [List.length_cons] at hn
    exact ((lineCommentTail_end (by omega)).cons _).cons _
  | case4 rest =>
    cases h
    simp only [List.length_cons] at hn
    exact ((blockCommentTail_end (by omega)).cons _).cons _
  | case5 => simp_all only [literal?, reduceCtorEq]

/-- No string or comment is open where the text ends: a letter written there is code. -/
def Closes (s : List Char) : Prop := (mark (s ++ ['x']))[s.length]? = some ('x', .code)

instance (s : List Char) : Decidable (Closes s) := inferInstanceAs (Decidable (_ = _))

/-- A literal does not end right behind a line break. -/
theorem Seam.before_line (h : Seam ['x'] (s ++ ['\n'])) (t : List Char) : Seam ('\n' :: t) s := by
  generalize hu : s ++ ['\n'] = u at h
  induction h generalizing s with
  | nil => simp at hu
  | @code c u hl _ ih =>
    cases s with
    | nil => exact .nil
    | cons d s =>
      rw [List.cons_append] at hu
      obtain ⟨rfl, rfl⟩ := List.cons.inj hu
      apply Seam.code _ (ih rfl)
      rw [literal?_eq_none_iff, List.append_assoc, List.singleton_append,
        head?_append_cons s ['x'] t '\n'] at hl
      exact literal?_eq_none_iff.2 hl
  | @literal u role n hl hn _ ih =>
    subst hu
    rw [List.append_assoc, List.singleton_append] at hl
    by_cases hle : n ≤ s.length
    · exact .literal (literal?_replace hl hle t) hle (ih (List.drop_append_of_le_length hle).symm)
    · have hlen : n = s.length + 1 := by
        rw [List.length_append, List.length_singleton] at hn
        omega
      subst hlen
      rcases literal?_end hl (by simp) with hline | ⟨k, c, hk, hc, hend⟩
      · simp at hline
      · cases hk
        have hline : c = '\n' := by simpa using hc.symm
        subst hline
        exact absurd hend (by decide)

theorem Closes.seam (h : Closes (s ++ ['\n'])) (t : List Char) : Seam ('\n' :: t) s :=
  (seam_of_code h).1.before_line t

theorem Seam.mark_line (h : Seam ('\n' :: t) s) :
    mark (s ++ '\n' :: t) = mark s ++ ('\n', .code) :: mark t := by
  rw [h.mark_append, mark_cons (literal?_eq_none t (by decide) (by decide))]

theorem lineStringTail_le (s : List Char) : lineStringTail s ≤ s.length := by
  fun_induction lineStringTail s with
  | case1 => exact Nat.le_refl 0
  | case2 c rest ih => exact Nat.succ_le_succ (Nat.succ_le_succ ih)
  | case3 rest => exact Nat.le_add_left 1 _
  | case4 rest => exact Nat.zero_le _
  | case5 c rest _ _ _ ih => exact Nat.succ_le_succ ih

theorem textStringTail_le (s : List Char) : textStringTail s ≤ s.length := by
  fun_induction textStringTail s with
  | case1 => exact Nat.le_refl 0
  | case2 c rest ih => exact Nat.succ_le_succ (Nat.succ_le_succ ih)
  | case3 rest => exact Nat.le_add_left 3 _
  | case4 c rest _ _ ih => exact Nat.succ_le_succ ih

theorem blockCommentTail_le (s : List Char) : blockCommentTail s ≤ s.length := by
  fun_induction blockCommentTail s with
  | case1 => exact Nat.le_refl 0
  | case2 rest => exact Nat.le_add_left 2 _
  | case3 c rest _ ih => exact Nat.succ_le_succ ih

theorem literal?_le {role : Role} {n : Nat} (h : literal? s = some (role, n)) : n ≤ s.length := by
  unfold literal? at h
  split at h
  · cases h
    exact Nat.add_le_add_right (textStringTail_le _) 3
  · cases h
    exact Nat.add_le_add_right (lineStringTail_le _) 1
  · cases h
    exact Nat.add_le_add_right (List.takeWhile_prefix _).length_le 2
  · cases h
    exact Nat.add_le_add_right (blockCommentTail_le _) 2
  · cases h

theorem literal?_append_eq_none (hl : literal? (c :: s) = none)
    (ht : ∀ d ∈ t.head?, d ≠ '/' ∧ d ≠ '*') : literal? (c :: (s ++ t)) = none := by
  obtain ⟨hquote, hslash⟩ := literal?_eq_none_iff.1 hl
  refine literal?_eq_none_iff.2 ⟨hquote, fun hc => ?_⟩
  cases s with
  | nil => exact ⟨fun h => (ht _ h).1 rfl, fun h => (ht _ h).2 rfl⟩
  | cons d s => exact hslash hc

/-- More text changes no mark, unless its first character makes a comment of the slash before. -/
theorem mark_isPrefix (ht : ∀ c ∈ t.head?, c ≠ '/' ∧ c ≠ '*') (s : List Char) :
    mark s <+: mark (s ++ t) := by
  induction s using lexeme_induction with
  | nil => exact List.nil_prefix
  | code c s hl ih =>
    rw [List.cons_append, mark_cons hl, mark_cons (literal?_append_eq_none hl ht)]
    exact (List.prefix_cons_inj _).2 ih
  | literal s role n hl ih =>
    obtain ⟨m, hl', hm⟩ := literal?_extend hl t
    rw [mark_literal hl, mark_literal hl']
    rcases hm with rfl | ⟨rfl, hm⟩
    · rw [List.take_append_of_le_length (literal?_le hl),
        List.drop_append_of_le_length (literal?_le hl)]
      exact (List.prefix_append_right_inj _).2 ih
    · -- The literal reaches the end of the text, so all of the text is one literal in both.
      rw [List.drop_length, mark_nil, List.append_nil, List.take_length, List.take_append,
        List.take_of_length_le hm, List.map_append, List.append_assoc]
      exact List.prefix_append _ _

theorem Plain.seam (h : Plain s) (t : List Char) : Seam t s := by
  induction s with
  | nil => exact .nil
  | cons c s ih =>
    obtain ⟨hc, hs⟩ := List.forall_mem_cons.1 h
    exact .code (literal?_eq_none _ hc.1 hc.2) (ih hs)

theorem seam_nil (s : List Char) : Seam [] s := by
  induction s using lexeme_induction with
  | nil => exact .nil
  | code c s hl ih => exact .code (by rwa [List.append_nil]) ih
  | literal s role n hl ih => exact .literal (by rwa [List.append_nil]) (literal?_le hl) ih

theorem Seam.snoc (h : Seam (c :: t) s) (hl : literal? (c :: t) = none) : Seam t (s ++ [c]) := by
  induction h with
  | nil => exact .code hl .nil
  | code hc _ ih =>
    apply Seam.code _ ih
    rwa [List.append_assoc]
  | @literal s role n hs hn _ ih =>
    refine .literal (by rwa [List.append_assoc]) ?_ ?_
    · rw [List.length_append]
      exact Nat.le_add_right_of_le hn
    · rwa [List.drop_append_of_le_length hn]

/-- There is a seam at the end of a text and before every character of code. -/
theorem seam_of_boundary {k : Nat} (h : ∀ m, (mark s)[k]? = some m → m.2 = .code) :
    Seam (s.drop k) (s.take k) := by
  cases hm : (mark s)[k]? with
  | none =>
    have hle : s.length ≤ k := by simpa using hm
    rw [List.drop_of_length_le hle, List.take_of_length_le hle]
    exact seam_nil s
  | some m =>
    obtain ⟨c, role⟩ := m
    cases h _ hm
    obtain ⟨p, t, rfl, rfl⟩ := split_at_mark hm
    rw [List.drop_left, List.take_left]
    exact (seam_of_code hm).1

/-- What follows a seam is marked in the same way as in the whole text. -/
theorem mark_drop {k : Nat} (h : Seam (s.drop k) (s.take k)) :
    mark (s.drop k) = (mark s).drop k := by
  have hmark := h.mark_append
  rw [List.take_append_drop] at hmark
  rw [hmark]
  by_cases hk : k ≤ s.length
  · rw [List.drop_left' (by rw [length_mark, List.length_take_of_le hk])]
  · have hnil : s.drop k = [] := List.drop_of_length_le (by omega)
    rw [hnil, mark_nil, List.append_nil, List.drop_of_length_le]
    rw [length_mark, List.length_take]
    omega

end ViewHierarchy.Source
