import ViewHierarchy.Proofs.Source.Level

/-! Masked text and the scan that skips literals. The scan stops at every character of code and goes
over a literal in one step; the mask differs from the text only where the scan goes over, so a plain
scan of the mask matches the same brackets. -/
namespace ViewHierarchy.Source

/-- The offsets at which a scan from the start of the text stops: it goes on behind a literal, and
otherwise behind the character. -/
inductive ScanStop (s : List Char) : Nat → Prop
  | start : ScanStop s 0
  | character {i} : ScanStop s i → i < s.length → skipLiteral s i = i → ScanStop s (i + 1)
  | literal {i} : ScanStop s i → i < skipLiteral s i → ScanStop s (skipLiteral s i)

/-- The scan goes over the character at the offset, with the literal that starts at a stop. -/
def InLiteral (s : List Char) (i : Nat) : Prop := ∃ k, ScanStop s k ∧ k ≤ i ∧ i < skipLiteral s k

variable {s : List Char} {i k n : Nat} {c o : Char} {role : Role}

theorem skipLiteral_literal (h : literal? (s.drop i) = some (role, n)) :
    skipLiteral s i = i + n := by
  rw [skipLiteral, h]

theorem skipLiteral_eq_self_iff : skipLiteral s i = i ↔ literal? (s.drop i) = none := by
  cases h : literal? (s.drop i) with
  | none => simp only [skipLiteral, h]
  | some p =>
    obtain ⟨role, n⟩ := p
    have hpos := (literal?_pos h).1
    rw [skipLiteral_literal h]
    simp only [reduceCtorEq, iff_false]
    omega

theorem exists_literal_of_lt (h : i < skipLiteral s i) :
    ∃ role n, literal? (s.drop i) = some (role, n) ∧ skipLiteral s i = i + n := by
  cases hl : literal? (s.drop i) with
  | none => exact absurd (skipLiteral_eq_self_iff.2 hl) (Nat.ne_of_gt h)
  | some p => exact ⟨p.1, p.2, rfl, skipLiteral_literal hl⟩

theorem le_skipLiteral (s : List Char) (i : Nat) : i ≤ skipLiteral s i := by
  cases hl : literal? (s.drop i) with
  | none => exact Nat.le_of_eq (skipLiteral_eq_self_iff.2 hl).symm
  | some p =>
    rw [skipLiteral_literal hl]
    exact Nat.le_add_right i p.2

theorem mark_drop_code (hi : i < s.length) (hl : skipLiteral s i = i) :
    mark (s.drop i) = (s[i], .code) :: mark (s.drop (i + 1)) := by
  have hnone := skipLiteral_eq_self_iff.1 hl
  rw [List.drop_eq_getElem_cons hi] at hnone ⊢
  exact mark_cons hnone

/-- From a stop on a text is marked as if it began there. -/
theorem ScanStop.mark_drop (h : ScanStop s i) : mark (s.drop i) = (mark s).drop i := by
  induction h with
  | start => rfl
  | @character i _ hi hl ih =>
    have hdrop : (mark s).drop (i + 1) = ((mark s).drop i).drop 1 := List.drop_drop.symm
    rw [hdrop, ← ih, mark_drop_code hi hl, List.drop_succ_cons, List.drop_zero]
  | @literal i _ hl ih =>
    obtain ⟨role, n, hlit, hskip⟩ := exists_literal_of_lt hl
    rw [hskip, ← List.drop_drop, ← List.drop_drop, ← ih, mark_literal hlit, List.drop_left']
    rw [List.length_map, List.length_take_of_le (literal?_le hlit)]

/-- A character at which the scan stops without a literal is code. -/
theorem ScanStop.mark_code (h : ScanStop s i) (hi : i < s.length) (hl : skipLiteral s i = i) :
    (mark s)[i]? = some (s[i], .code) := by
  rw [← List.head?_drop, ← h.mark_drop, mark_drop_code hi hl, List.head?_cons]

/-- What the scan goes over is part of a string or a comment. -/
theorem InLiteral.mark_role (h : InLiteral s i) :
    ∃ c role, (mark s)[i]? = some (c, role) ∧ role ≠ .code := by
  obtain ⟨k, hk, hle, hlt⟩ := h
  obtain ⟨role, n, hlit, hskip⟩ := exists_literal_of_lt (Nat.lt_of_le_of_lt hle hlt)
  obtain ⟨j, rfl⟩ := Nat.exists_eq_add_of_le hle
  have hj : j < ((s.drop k).take n).length := by
    rw [List.length_take_of_le (literal?_le hlit)]
    omega
  refine ⟨((s.drop k).take n)[j], role, ?_, (literal?_pos hlit).2⟩
  rw [← List.getElem?_drop, ← hk.mark_drop, mark_literal hlit, List.getElem?_append_left,
    List.getElem?_map, List.getElem?_eq_getElem hj, Option.map_some]
  rwa [List.length_map]

/-- The scan stops at every offset that it does not go over. -/
theorem stop_or_inLiteral (hi : i ≤ s.length) : ScanStop s i ∨ InLiteral s i := by
  induction i with
  | zero => exact .inl .start
  | succ i ih =>
    -- The stop before the offset: either its literal reaches further, or the scan stops behind it.
    have hover : InLiteral s i → ScanStop s (i + 1) ∨ InLiteral s (i + 1) := by
      rintro ⟨k, hk, hle, hlt⟩
      rcases Nat.lt_or_eq_of_le (Nat.succ_le_of_lt hlt) with hlt' | heq
      · exact .inr ⟨k, hk, Nat.le_succ_of_le hle, hlt'⟩
      · rw [Nat.succ_eq_add_one] at heq
        rw [heq]
        exact .inl (hk.literal (Nat.lt_of_le_of_lt hle hlt))
    rcases ih (Nat.le_of_succ_le hi) with hstop | hlit
    · rcases Nat.lt_or_eq_of_le (le_skipLiteral s i) with hlt | heq
      · exact hover ⟨i, hstop, Nat.le_refl i, hlt⟩
      · exact .inl (hstop.character hi heq.symm)
    · exact hover hlit

/-- The roles of a text are those that the scan finds. -/
theorem inLiteral_iff :
    InLiteral s i ↔ ∃ c role, (mark s)[i]? = some (c, role) ∧ role ≠ .code := by
  refine ⟨InLiteral.mark_role, ?_⟩
  rintro ⟨c, role, hmark, hrole⟩
  have hi : i < s.length := by
    rw [← length_mark]
    exact (List.getElem?_eq_some_iff.1 hmark).1
  rcases stop_or_inLiteral (Nat.le_of_lt hi) with hstop | hlit
  · rcases Nat.lt_or_eq_of_le (le_skipLiteral s i) with hlt | heq
    · exact ⟨i, hstop, Nat.le_refl i, hlt⟩
    · cases hmark.symm.trans (hstop.mark_code hi heq.symm)
      exact absurd rfl hrole
  · exact hlit

theorem getElem?_mark_fst (s : List Char) (i : Nat) : ((mark s)[i]?).map Prod.fst = s[i]? := by
  rw [← List.getElem?_map, map_fst_mark]

theorem getElem?_mask (s : List Char) (i : Nat) :
    (mask s)[i]? = ((mark s)[i]?).map Marked.masked := List.getElem?_map

/-- Inside a literal all but the line breaks are blanked. -/
theorem InLiteral.mask (h : InLiteral s i) :
    (mask s)[i]? = s[i]?.map fun c => if c = '\n' then '\n' else ' ' := by
  obtain ⟨c, role, hmark, hrole⟩ := h.mark_role
  rw [getElem?_mask, ← getElem?_mark_fst, hmark]
  cases role with
  | code => exact absurd rfl hrole
  | string | comment => rfl

theorem mask_of_not_inLiteral (h : ¬InLiteral s i) : (mask s)[i]? = s[i]? := by
  rw [getElem?_mask, ← getElem?_mark_fst]
  cases hmark : (mark s)[i]? with
  | none => rfl
  | some m =>
    obtain ⟨c, role⟩ := m
    cases role with
    | code => rfl
    | string | comment => exact absurd (inLiteral_iff.2 ⟨c, _, hmark, Role.noConfusion⟩) h

theorem getElem?_mask_line_iff (s : List Char) (i : Nat) :
    (mask s)[i]? = some '\n' ↔ s[i]? = some '\n' := by
  by_cases h : InLiteral s i
  · rw [h.mask, Option.map_eq_some_iff]
    constructor
    · rintro ⟨c, hc, hline⟩
      split at hline
      · next hc' => rw [hc, hc']
      · cases hline
    · exact fun hc => ⟨'\n', hc, rfl⟩
  · rw [mask_of_not_inLiteral h]

theorem IsCode.literal? (h : IsCode s) : literal? s = none := by
  cases s with
  | nil => rfl
  | cons c s =>
    rw [← Option.not_isSome_iff_eq_none, Option.isSome_iff_exists]
    rintro ⟨⟨role, n⟩, hl⟩
    obtain ⟨hpos, hrole⟩ := literal?_pos hl
    obtain ⟨k, rfl⟩ := Nat.exists_eq_add_of_le' hpos
    rw [IsCode, mark_literal hl] at h
    cases (List.cons.inj h).1
    exact hrole rfl

theorem skipLiteral_mask (s : List Char) (i : Nat) : skipLiteral (mask s) i = i :=
  skipLiteral_eq_self_iff.2 ((isCode_mask s).of_suffix (List.drop_suffix i _)).literal?

theorem ne_blank_of_isBracket (h : (isOpening c || isClosing c) = true) : c ≠ ' ' ∧ c ≠ '\n' := by
  constructor <;> rintro rfl <;> cases h

theorem masked_eq_iff (h : (isOpening c || isClosing c) = true) (m : Marked) :
    (m.masked, Role.code) = (c, .code) ↔ m = (c, .code) := by
  obtain ⟨hspace, hline⟩ := ne_blank_of_isBracket h
  constructor
  · intro hm
    have hc : m.masked = c := (Prod.mk.inj hm).1
    rw [← hc] at hspace hline ⊢
    exact code_of_masked hspace hline
  · rintro rfl
    rfl

/-- Blanking the literals takes away no bracket that is counted, and adds none. -/
theorem closeOffset?_masked (hc : closing? o = some c) (d : Nat) (ms : List Marked) :
    closeOffset? o c d (ms.map fun m => (m.masked, .code)) = closeOffset? o c d ms := by
  obtain ⟨hopen, hclose, -⟩ := brackets_of_closing? hc
  induction ms generalizing d with
  | nil => rfl
  | cons m ms ih =>
    simp only [List.map_cons, closeOffset?, masked_eq_iff (c := o) (by rw [hopen, Bool.true_or]),
      masked_eq_iff (c := c) (by rw [hclose, Bool.or_true]), ih]

theorem partner?_mask (hc : closing? o = some c) (s : List Char) :
    partner? (o :: mask s) = partner? (o :: s) := by
  rw [partner?_cons hc, partner?_cons hc, mark_mask, mask, List.map_map]
  exact congrArg _ (closeOffset?_masked hc 1 (mark s))

theorem exists_closing? (h : isOpening c = true) : ∃ d, closing? c = some d := by
  simp only [isOpening, Bool.or_eq_true, beq_iff_eq, or_assoc] at h
  rcases h with rfl | rfl | rfl <;> exact ⟨_, rfl⟩

theorem partnerAt?_mask (h : (mask s)[i]? = some c) (ho : isOpening c = true) :
    partnerAt? (mask s) i = partnerAt? s i := by
  obtain ⟨p, t, hmask, rfl⟩ := split_at_getElem? h
  obtain ⟨hspace, hline⟩ := ne_blank_of_isBracket (c := c) (by rw [ho, Bool.true_or])
  obtain ⟨q, u, rfl, -, rfl, rfl⟩ := mask_split hmask hspace hline
  obtain ⟨d, hd⟩ := exists_closing? ho
  rw [partnerAt?, partnerAt?, hmask, Int.toNat_natCast, List.drop_left, length_mask, List.drop_left,
    partner?_mask hd]

/-- The mask has the length and the line breaks of the text, and blanks just what the scan goes over
as a literal. No literal starts in it, so masking again changes nothing, and every bracket that is
left has its partner where the text has it. -/
theorem mask_faithful (s : List Char) :
    (mask s).length = s.length ∧
      (∀ i : Nat, (mask s)[i]? = some '\n' ↔ s[i]? = some '\n') ∧
      (∀ i : Nat, InLiteral s i →
        (mask s)[i]? = s[i]?.map fun c => if c = '\n' then '\n' else ' ') ∧
      (∀ i : Nat, ¬InLiteral s i → (mask s)[i]? = s[i]?) ∧
      (∀ i : Nat, skipLiteral (mask s) i = i) ∧
      mask (mask s) = mask s ∧
      ∀ (i : Nat) (c : Char), (mask s)[i]? = some c → isOpening c = true →
        partnerAt? (mask s) i = partnerAt? s i :=
  ⟨length_mask s, getElem?_mask_line_iff s, fun _ h => h.mask, fun _ h => mask_of_not_inLiteral h,
    skipLiteral_mask s, mask_mask s, fun _ _ h ho => partnerAt?_mask h ho⟩

/-- Braces around a closing brace in quotes. -/
def quotedBrace : List Char := ['{', '"', '}', '"', '}']

theorem mask_faithful_quotedBrace :
    (InLiteral quotedBrace 2 ∧ ¬InLiteral quotedBrace 0 ∧ (mask quotedBrace)[0]? = some '{' ∧
        isOpening '{' = true) ∧
      (mask quotedBrace)[2]? = some ' ' ∧ (mask quotedBrace)[0]? = quotedBrace[0]? ∧
      partnerAt? (mask quotedBrace) (0 : Nat) = partnerAt? quotedBrace (0 : Nat) := by
  have hin : InLiteral quotedBrace 2 :=
    ⟨1, .character .start (by decide) (by decide), by decide, by decide⟩
  have hout : ¬InLiteral quotedBrace 0 := by
    rintro ⟨k, -, hk, hlt⟩
    cases Nat.le_zero.1 hk
    exact absurd hlt (by decide)
  have hopen : (mask quotedBrace)[0]? = some '{' := by decide
  obtain ⟨-, -, hblank, hsame, -, -, hpartner⟩ := mask_faithful quotedBrace
  exact ⟨⟨hin, hout, hopen, rfl⟩, hblank 2 hin, hsame 0 hout, hpartner 0 '{' hopen rfl⟩

end ViewHierarchy.Source
