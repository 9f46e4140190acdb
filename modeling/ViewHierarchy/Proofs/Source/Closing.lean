import ViewHierarchy.Proofs.Source.Cutting
import ViewHierarchy.Proofs.Source.Trivia

/-! What may stand behind a text that leaves no literal open. A letter there is code; so is every
other character that does not go on with the signs in which literals begin and end. -/
namespace ViewHierarchy.Source

variable {c d : Char} {s t : List Char}

/-- The character opens no literal, guards nothing in one and ends none. -/
def isInert (c : Char) : Bool := !(['"', '/', '*', '\\', '\n'].contains c)

theorem isInert_iff : isInert c = true ↔ c ≠ '"' ∧ c ≠ '/' ∧ c ≠ '*' ∧ c ≠ '\\' ∧ c ≠ '\n' := by
  simp [isInert]

/-- The character takes no part in the signs in which literals begin and end. -/
def isApart (c : Char) : Bool := !(['"', '/', '*'].contains c)

theorem isApart_iff : isApart c = true ↔ c ≠ '"' ∧ c ≠ '/' ∧ c ≠ '*' := by
  simp [isApart]

theorem isApart_of_isInert (h : isInert c = true) : isApart c = true := by
  obtain ⟨hquote, hslash, hstar, -⟩ := isInert_iff.1 h
  exact isApart_iff.2 ⟨hquote, hslash, hstar⟩

/-- Signs of a literal are not completed by a character that stands apart. -/
theorem not_prefix_of_isApart {word w : List Char} (hword : word.all (!isApart ·) = true)
    (hc : isApart c = true) (h : ¬word <+: w) (t : List Char) : ¬word <+: w ++ c :: t := by
  intro hp
  apply h
  apply prefix_of_notMem _ hp
  intro hm
  have hno := List.all_eq_true.1 hword c hm
  rw [hc] at hno
  cases hno

/-- A length that an inert character shows to be final: what was read ended by a sign of its own. -/
def Seals (read : List Char → Nat) : Prop :=
  ∀ c d, isInert c = true → isApart d = true → ∀ s t u, read (s ++ c :: t) = s.length →
    read (s ++ d :: u) = s.length

theorem seals_lineStringTail : Seals lineStringTail := by
  intro c d hc hd s t u h
  obtain ⟨hquote, -, -, hesc, hline⟩ := isInert_iff.1 hc
  fun_induction lineStringTail s with
  | case1 =>
    rw [List.nil_append, lineStringTail_cons t hesc hquote hline] at h
    cases h
  | case2 e rest ih =>
    simp only [List.cons_append, lineStringTail, List.length_cons] at h ⊢
    rw [ih (by omega)]
  | case3 rest =>
    cases rest with
    | nil => rfl
    | cons e rest => cases h
  | case4 rest => cases h
  | case5 e rest hesc' hquote' hline' ih =>
    by_cases he : e = '\\'
    · subst he
      cases rest with
      | nil => cases h
      | cons f rest => exact absurd rfl (hesc' f rest rfl)
    · rw [List.cons_append, lineStringTail_cons _ he hquote' hline', List.length_cons] at h
      rw [List.cons_append, lineStringTail_cons _ he hquote' hline', ih (Nat.succ.inj h),
        List.length_cons]

theorem seals_textStringTail : Seals textStringTail := by
  intro c d hc hd s t u h
  fun_induction textStringTail s with
  | case1 =>
    rw [List.nil_append, textStringTail_cons (isInert_iff.1 hc).2.2.2.1
      (not_prefix_of_isApart (w := []) (by decide) (isApart_of_isInert hc) (by decide) t)] at h
    cases h
  | case2 e rest ih =>
    simp only [List.cons_append, textStringTail, List.length_cons] at h ⊢
    rw [ih (by omega)]
  | case3 rest =>
    cases rest with
    | nil => rfl
    | cons e rest => cases h
  | case4 e rest hesc hquote ih =>
    by_cases he : e = '\\'
    · subst he
      cases rest with
      | nil => cases h
      | cons f rest => exact absurd rfl (hesc f rest rfl)
    · have hno : ¬['"', '"', '"'] <+: e :: rest := by
        rintro ⟨v, hv⟩
        obtain ⟨hfirst, hothers⟩ := List.cons.inj hv
        exact hquote v hfirst.symm hothers.symm
      have hstep : ∀ f v, isApart f = true →
          textStringTail (e :: (rest ++ f :: v)) = textStringTail (rest ++ f :: v) + 1 :=
        fun f v hf => textStringTail_cons he (not_prefix_of_isApart (by decide) hf hno v)
      rw [List.cons_append, hstep c t (isApart_of_isInert hc), List.length_cons] at h
      rw [List.cons_append, hstep d u hd, ih (Nat.succ.inj h), List.length_cons]

theorem seals_blockCommentTail : Seals blockCommentTail := by
  intro c d hc hd s t u h
  fun_induction blockCommentTail s with
  | case1 =>
    rw [List.nil_append, blockCommentTail_cons
      (not_prefix_of_isApart (w := []) (by decide) (isApart_of_isInert hc) (by decide) t)] at h
    cases h
  | case2 rest =>
    cases rest with
    | nil => rfl
    | cons e rest => cases h
  | case3 e rest hend ih =>
    have hno : ¬['*', '/'] <+: e :: rest := by
      rintro ⟨v, hv⟩
      obtain ⟨hfirst, hothers⟩ := List.cons.inj hv
      exact hend v hfirst.symm hothers.symm
    have hstep : ∀ f v, isApart f = true →
        blockCommentTail (e :: (rest ++ f :: v)) = blockCommentTail (rest ++ f :: v) + 1 :=
      fun f v hf => blockCommentTail_cons (not_prefix_of_isApart (by decide) hf hno v)
    rw [List.cons_append, hstep c t (isApart_of_isInert hc), List.length_cons] at h
    rw [List.cons_append, hstep d u hd, ih (Nat.succ.inj h), List.length_cons]

/-- A line comment goes on over every inert character. -/
theorem seals_lineCommentTail : Seals lineCommentTail := by
  intro c d hc hd s t u h
  have hline : c ≠ '\n' := (isInert_iff.1 hc).2.2.2.2
  induction s with
  | nil => simp [lineCommentTail, hline] at h
  | cons e s ih =>
    by_cases he : e = '\n'
    · subst he
      cases h
    · simp only [lineCommentTail, List.cons_append, List.takeWhile_cons, bne_iff_ne, ne_eq, he,
        not_false_eq_true, if_true, List.length_cons] at h ih ⊢
      rw [ih (Nat.succ.inj h)]

/-- A literal that ends before an inert character was closed there, whatever comes behind it. -/
theorem literal?_sealed {role : Role} {n : Nat} (hc : isInert c = true) (hd : isApart d = true)
    (h : literal? (s ++ c :: t) = some (role, n)) (hn : n ≤ s.length) (u : List Char) :
    literal? (s ++ d :: u) = some (role, n) := by
  rcases Nat.lt_or_eq_of_le hn with hlt | rfl
  · obtain ⟨m, hm, rfl | ⟨rfl, -⟩⟩ := literal?_extend (literal?_of_append h hn) (d :: u)
    · exact hm
    · exact absurd hlt (Nat.lt_irrefl _)
  · fun_cases literal? s with
    | case1 rest =>
      obtain ⟨rfl, hread⟩ := Prod.mk.inj (Option.some.inj h)
      exact congrArg (fun n => some (Role.string, n + 3))
        (seals_textStringTail c d hc hd rest t u (Nat.add_right_cancel hread))
    | case2 rest hquote =>
      have hno : ¬['"', '"'] <+: rest := by
        rintro ⟨v, hv⟩
        exact hquote v hv.symm
      have hquote' : ∀ e v, isApart e = true → ¬['"', '"'] <+: rest ++ e :: v :=
        fun e v he => not_prefix_of_isApart (by decide) he hno v
      rw [List.cons_append, literal?_quote (hquote' c t (isApart_of_isInert hc))] at h
      obtain ⟨rfl, hread⟩ := Prod.mk.inj (Option.some.inj h)
      rw [List.cons_append, literal?_quote (hquote' d u hd)]
      exact congrArg (fun n => some (Role.string, n + 1))
        (seals_lineStringTail c d hc hd rest t u (Nat.add_right_cancel hread))
    | case3 rest =>
      obtain ⟨rfl, hread⟩ := Prod.mk.inj (Option.some.inj h)
      exact congrArg (fun n => some (Role.comment, n + 2))
        (seals_lineCommentTail c d hc hd rest t u (Nat.add_right_cancel hread))
    | case4 rest =>
      obtain ⟨rfl, hread⟩ := Prod.mk.inj (Option.some.inj h)
      exact congrArg (fun n => some (Role.comment, n + 2))
        (seals_blockCommentTail c d hc hd rest t u (Nat.add_right_cancel hread))
    | case5 =>
      have hnone : literal? s = none := by simp_all only [literal?]
      cases hnone.symm.trans (literal?_of_append h (Nat.le_refl _))

/-- Behind a seam an inert character may be replaced by any that stands apart, and the rest of the
text by any other. -/
theorem Seam.replace_inert (h : Seam (c :: t) s) (hc : isInert c = true) (hd : isApart d = true)
    (u : List Char) : Seam (d :: u) s := by
  induction h with
  | nil => exact .nil
  | @code e s hl _ ih =>
    obtain ⟨-, hslash, hstar⟩ := isApart_iff.1 hd
    refine .code (literal?_append_eq_none (literal?_none_of_append (s := e :: s) hl) ?_) ih
    rintro _ ⟨⟩
    exact ⟨hslash, hstar⟩
  | literal hl hn _ ih => exact .literal (literal?_sealed hc hd hl hn u) hn ih

/-- A text that leaves no literal open has a seam behind it. -/
theorem Closes.seam_apart (h : Closes s) (hd : isApart d = true) (u : List Char) :
    Seam (d :: u) s :=
  (seam_of_code h).1.replace_inert (by decide) hd u

end ViewHierarchy.Source
