import ViewHierarchy.Proofs.Source.Scanning
import ViewHierarchy.Proofs.View.Conditional
import ViewHierarchy.Proofs.View.Covering

/-! The loop that reads the siblings of a block goes forward by itself. Behind the separators stands
either the end of the text or a token, and both readers of a token take at least one character and
none beyond the text. So the loop needs neither a least step nor a test for empty expressions. -/
namespace ViewHierarchy.Source
open Text (isBlank)

variable {c : Char} {s : List Char} {i : Nat} {role : Role} {n : Nat}

/-- A line comment or a block comment starts the text. -/
def OpensComment (s : List Char) : Prop := ['/', '/'] <+: s ∨ ['/', '*'] <+: s

/-- A string or a comment starts the text. -/
def OpensLiteral (s : List Char) : Prop := ['"'] <+: s ∨ OpensComment s

/-- White space, a comma, a semicolon or a comment starts the text. -/
def OpensSeparator (s : List Char) : Prop :=
  (∃ c ∈ s.head?, isBlank c = true ∨ c = ',' ∨ c = ';') ∨ OpensComment s

theorem opensComment_cons_iff :
    OpensComment (c :: s) ↔ c = '/' ∧ (s.head? = some '/' ∨ s.head? = some '*') := by
  simp only [OpensComment, List.cons_prefix_cons, List.singleton_prefix_iff_head?_eq_some,
    ← and_or_left]
  rw [eq_comm]

theorem literal?_eq_none_iff_opens : literal? s = none ↔ ¬OpensLiteral s := by
  cases s with
  | nil => simp [literal?, OpensLiteral, OpensComment]
  | cons c s =>
    rw [literal?_eq_none_iff, OpensLiteral, List.singleton_prefix_iff_head?_eq_some,
      opensComment_cons_iff, List.head?_cons, Option.some.injEq, not_or, not_and, not_or]

theorem lt_skipLiteral_iff : i < skipLiteral s i ↔ OpensLiteral (s.drop i) := by
  rw [← not_iff_not, ← literal?_eq_none_iff_opens, ← skipLiteral_eq_self_iff, Nat.not_lt]
  exact (le_skipLiteral s i).ge_iff_eq'

/-- A literal that is never closed ends with the text, also where its last character is guarded. -/
theorem skipLiteral_le_length (h : i ≤ s.length) : skipLiteral s i ≤ s.length := by
  cases hl : literal? (s.drop i) with
  | none => rwa [skipLiteral_eq_self_iff.2 hl]
  | some p =>
    have hle := literal?_le hl
    rw [List.length_drop] at hle
    rw [skipLiteral_literal hl]
    omega

example : skipLiteral ['"', '\\'] 0 = 2 := by decide

/-- The role of a literal shows at the characters that open it. -/
theorem literal?_opens (h : literal? (c :: s) = some (role, n)) :
    (role = .string ∧ c = '"') ∨ (role = .comment ∧ OpensComment (c :: s)) := by
  rw [opensComment_cons_iff]
  generalize ht : c :: s = t at h
  unfold literal? at h
  split at h <;> cases h <;> cases ht <;> simp

theorem opensSeparator_iff :
    OpensSeparator s ↔ ∃ m ∈ (mark s).head?, m.isSeparator = true := by
  cases s with
  | nil => simp [OpensSeparator, OpensComment, mark, markFrom]
  | cons c s =>
    cases hl : literal? (c :: s) with
    | none =>
      have hcomment : ¬OpensComment (c :: s) := fun h => literal?_eq_none_iff_opens.1 hl (.inr h)
      simp [OpensSeparator, hcomment, mark_cons hl, Marked.isSeparator, Marked.isTrivia, or_assoc]
    | some p =>
      obtain ⟨role, n⟩ := p
      obtain ⟨k, rfl⟩ := Nat.exists_eq_add_of_le' (literal?_pos hl).1
      rw [mark_literal hl]
      rcases literal?_opens hl with ⟨rfl, rfl⟩ | ⟨rfl, hcomment⟩
      · have hblank : isBlank '"' = false := by decide
        simp [OpensSeparator, opensComment_cons_iff, Marked.isSeparator, Marked.isTrivia, hblank]
      · simp [OpensSeparator, hcomment, Marked.isSeparator, Marked.isTrivia]

/-- The offset behind the separators that stand at the given offset. -/
def skipSeparators (s : List Char) (i : Nat) : Nat := i + separatorLength (s.drop i)

theorem drop_skipSeparators (s : List Char) (i : Nat) :
    s.drop (skipSeparators s i) = dropSeparators (s.drop i) := by
  rw [skipSeparators, ← List.drop_drop, dropSeparators]

theorem skipSeparators_le_length (h : i ≤ s.length) : skipSeparators s i ≤ s.length := by
  have hle : separatorLength (s.drop i) ≤ (mark (s.drop i)).length :=
    (List.takeWhile_prefix Marked.isSeparator).length_le
  rw [length_mark, List.length_drop] at hle
  rw [skipSeparators]
  omega

theorem not_opensSeparator_skipSeparators (s : List Char) (i : Nat) :
    ¬OpensSeparator (s.drop (skipSeparators s i)) := by
  rw [drop_skipSeparators, opensSeparator_iff]
  rintro ⟨m, hm, hsep⟩
  exact Bool.false_ne_true ((head_mark_dropSeparators (s.drop i) m hm).symm.trans hsep)

end ViewHierarchy.Source

namespace ViewHierarchy
open Text Source

/-- The offset behind the expression that starts at the given offset. -/
def expressionEnd (s : List Char) (i : Nat) : Nat := i + expressionLength 0 (mark (s.drop i))

/-- The expression that starts at the given offset. -/
def expressionAt (s : List Char) (i : Nat) : List Char := trim (s.extract i (expressionEnd s i))

/-- The loop that reads siblings from an offset on, with its guards as parameters. It goes on at
least `least` characters behind the start of an expression, and with `dropsEmpty` it leaves out an
expression of which nothing is left without the white space around it. -/
inductive Splits (least : Nat) (dropsEmpty : Bool) (s : List Char) : Nat → List Sibling → Prop
  | stop {i} : s.length ≤ skipSeparators s i → Splits least dropsEmpty s i []
  | conditional {i k j c ss} : k = skipSeparators s i →
      headConditional? (s.drop k) = some (c, s.drop j) → j ≤ s.length →
      Splits least dropsEmpty s j ss → Splits least dropsEmpty s i (.conditional c :: ss)
  | expression {i k ss} : k = skipSeparators s i → k < s.length →
      headConditional? (s.drop k) = none → (dropsEmpty = true → expressionAt s k ≠ []) →
      Splits least dropsEmpty s (max (expressionEnd s k) (k + least)) ss →
      Splits least dropsEmpty s i (.expression (expressionAt s k) :: ss)
  | empty {i k ss} : k = skipSeparators s i → k < s.length →
      headConditional? (s.drop k) = none → dropsEmpty = true → expressionAt s k = [] →
      Splits least dropsEmpty s (max (expressionEnd s k) (k + least)) ss →
      Splits least dropsEmpty s i ss

variable {s : List Char} {i k least : Nat} {dropsEmpty : Bool} {ss : List Sibling}

theorem head_mark_of_not_opens (h : ¬OpensSeparator s) :
    ∀ m ∈ (mark s).head?, m.isSeparator = false := by
  intro m hm
  rw [← Bool.not_eq_true]
  exact fun hsep => h (opensSeparator_iff.2 ⟨m, hm, hsep⟩)

theorem lt_expressionEnd (hk : k < s.length) (h : ¬OpensSeparator (s.drop k)) :
    k < expressionEnd s k := by
  have hne : s.drop k ≠ [] := fun hnil => Nat.not_le_of_lt hk (List.drop_eq_nil_iff.1 hnil)
  exact Nat.lt_add_of_pos_right (expressionLength_mark_pos hne (head_mark_of_not_opens h))

theorem expressionEnd_le_length (hk : k ≤ s.length) : expressionEnd s k ≤ s.length := by
  have hle := expressionLength_mark_le (s.drop k)
  rw [List.length_drop] at hle
  rw [expressionEnd]
  omega

/-- At a token an expression is cut off where it ends, without a least length. -/
theorem headExpression_drop (hk : k < s.length) (h : ¬OpensSeparator (s.drop k)) :
    headExpression (s.drop k) = (expressionAt s k, s.drop (expressionEnd s k)) := by
  have hlt := lt_expressionEnd hk h
  rw [expressionEnd] at hlt
  rw [headExpression, Nat.max_eq_left (by omega), List.drop_drop, expressionAt,
    List.extract_eq_take_drop, expressionEnd, Nat.add_sub_cancel_left]

theorem expressionAt_ne_nil (hk : k < s.length) (h : ¬OpensSeparator (s.drop k)) :
    expressionAt s k ≠ [] := by
  have hhead := head_mark_of_not_opens h
  have hexpr := headExpression_drop hk h
  rw [List.drop_eq_getElem_cons hk] at hhead hexpr
  obtain ⟨p, -, htext, -⟩ := headExpression_split hhead
  rw [show expressionAt s k = _ from (congrArg Prod.fst hexpr).symm.trans htext]
  exact List.cons_ne_nil _ _

/-- A conditional ends behind its start, and within the text. -/
theorem headConditional?_drop {c : Conditional} {rest : List Char}
    (h : headConditional? (s.drop i) = some (c, rest)) :
    ∃ j, i < j ∧ j ≤ s.length ∧ rest = s.drop j := by
  have hlt := (headConditional?_length h).1
  rw [headConditional?, Option.ite_none_right_eq_some] at h
  obtain ⟨p, hp, -⟩ := Conditional.read?_extends h.1 h.2
  have hlen := congrArg List.length hp
  rw [List.length_append, List.length_drop] at hlen
  rw [List.length_drop] at hlt
  refine ⟨i + p.length, by omega, by omega, ?_⟩
  rw [← List.drop_drop, hp, List.drop_left]

theorem headConditional?_of_isWordAt (h : isWordAt s i ['i', 'f'] = true) :
    headConditional? (s.drop i) = Conditional.read? (s.drop i) := by
  simp only [isWordAt, Bool.and_eq_true] at h
  exact if_pos h.1.2

theorem siblings_drop_nil (h : s.length ≤ skipSeparators s i) : siblings (s.drop i) = [] := by
  apply siblings_nil
  rw [← drop_skipSeparators]
  exact List.drop_eq_nil_of_le h

theorem siblings_drop_conditional {c : Conditional} {rest : List Char} (hk : k = skipSeparators s i)
    (hc : headConditional? (s.drop k) = some (c, rest)) :
    siblings (s.drop i) = .conditional c :: siblings rest := by
  have hdrop := drop_skipSeparators s i
  rw [← hk] at hdrop
  cases hs : s.drop k with
  | nil =>
    rw [hs] at hc
    cases hc
  | cons d t =>
    rw [hs] at hc hdrop
    exact siblings_conditional hdrop.symm hc

theorem siblings_drop_expression (hk : k = skipSeparators s i) (hlt : k < s.length)
    (hc : headConditional? (s.drop k) = none) :
    siblings (s.drop i) =
      .expression (expressionAt s k) :: siblings (s.drop (expressionEnd s k)) := by
  have hdrop := drop_skipSeparators s i
  have hhead := headExpression_drop hlt (hk ▸ not_opensSeparator_skipSeparators s i)
  rw [← hk] at hdrop
  rw [List.drop_eq_getElem_cons hlt] at hc hdrop hhead
  rw [siblings_expression hdrop.symm hc, hhead]

/-- The loop comes to an end by itself, with the siblings of the block. -/
theorem splits_siblings (hleast : least ≤ 1) (dropsEmpty : Bool) (s : List Char) (i : Nat) :
    Splits least dropsEmpty s i (siblings (s.drop i)) := by
  have hclear := not_opensSeparator_skipSeparators s i
  have hle : i ≤ skipSeparators s i := Nat.le_add_right i _
  generalize hk : skipSeparators s i = k at *
  rcases Nat.lt_or_ge k s.length with hlt | hge
  · cases hc : headConditional? (s.drop k) with
    | some found =>
      obtain ⟨c, rest⟩ := found
      obtain ⟨j, hj, hjle, rfl⟩ := headConditional?_drop hc
      rw [siblings_drop_conditional hk.symm hc]
      exact .conditional hk.symm hc hjle (splits_siblings hleast dropsEmpty s j)
    | none =>
      have hend := lt_expressionEnd hlt hclear
      have hmax : max (expressionEnd s k) (k + least) = expressionEnd s k := by omega
      rw [siblings_drop_expression hk.symm hlt hc]
      refine .expression hk.symm hlt hc (fun _ => expressionAt_ne_nil hlt hclear) ?_
      rw [hmax]
      exact splits_siblings hleast dropsEmpty s (expressionEnd s k)
  · rw [← hk] at hge
    rw [siblings_drop_nil hge]
    exact .stop hge
termination_by s.length - i
decreasing_by all_goals omega

/-- Whatever its guards, the loop gives the siblings of the block. -/
theorem splits_iff (hleast : least ≤ 1) :
    Splits least dropsEmpty s i ss ↔ ss = siblings (s.drop i) := by
  constructor
  · intro h
    induction h with
    | stop hge => exact (siblings_drop_nil hge).symm
    | conditional hk hc _ _ ih => rw [siblings_drop_conditional hk hc, ih]
    | @expression i k ss hk hlt hc _ _ ih =>
      have hend := lt_expressionEnd hlt (hk ▸ not_opensSeparator_skipSeparators s i)
      rw [Nat.max_eq_left (by omega)] at ih
      rw [siblings_drop_expression hk hlt hc, ih]
    | @empty i k ss hk hlt _ _ hempty _ _ =>
      have hclear := hk ▸ not_opensSeparator_skipSeparators s i
      exact absurd hempty (expressionAt_ne_nil hlt hclear)
  · rintro rfl
    exact splits_siblings hleast dropsEmpty s i

/-- Reading goes forward by itself, and not beyond the text. A literal is passed over just where one
opens, behind separators there is a token or the end of the text, and an expression or a conditional
takes at least a character. So the loop ends with the siblings of the block, guarded or not. -/
theorem splitting_advances (s : List Char) (i : Nat) (hi : i ≤ s.length) :
    (i ≤ skipLiteral s i ∧ skipLiteral s i ≤ s.length ∧
        (i < skipLiteral s i ↔ OpensLiteral (s.drop i))) ∧
      (skipSeparators s i ≤ s.length ∧ ¬OpensSeparator (s.drop (skipSeparators s i))) ∧
      (i < s.length → ¬OpensSeparator (s.drop i) →
        i < expressionEnd s i ∧ expressionEnd s i ≤ s.length ∧ expressionAt s i ≠ []) ∧
      (∀ least dropsEmpty ss, least ≤ 1 →
        (Splits least dropsEmpty s i ss ↔ ss = siblings (s.drop i))) ∧
      ∀ c rest, isWordAt s i ['i', 'f'] = true → Conditional.read? (s.drop i) = some (c, rest) →
        ∃ j, i < j ∧ j ≤ s.length ∧ rest = s.drop j := by
  refine ⟨⟨le_skipLiteral s i, skipLiteral_le_length hi, lt_skipLiteral_iff⟩,
    ⟨skipSeparators_le_length hi, not_opensSeparator_skipSeparators s i⟩, ?_, ?_, ?_⟩
  · intro hlt hclear
    exact ⟨lt_expressionEnd hlt hclear, expressionEnd_le_length hi, expressionAt_ne_nil hlt hclear⟩
  · intro least dropsEmpty ss hleast
    exact splits_iff hleast
  · intro c rest hif hc
    rw [← headConditional?_of_isWordAt hif] at hc
    exact headConditional?_drop hc

/-- A conditional behind a semicolon, with an `else if` to which no block belongs. -/
def danglingText : List Char := "; if a {b} else if".toList

theorem read?_danglingText : Conditional.read? (danglingText.drop 2) =
    some (.plain ['a'] ['b'], ['i', 'f']) := by
  have hclause : clause? ((danglingText.drop 2).drop 2) =
      some (⟨['a'], ['b']⟩, " else if".toList) := by rfl
  have helse : afterElse? " else if".toList = some ['i', 'f'] := by rfl
  have hnone : Conditional.read? ['i', 'f'] = none := Conditional.read?_eq_none_iff.2 rfl
  rw [read?_else hclause helse, hnone]
  rfl

theorem siblings_danglingText : siblings danglingText =
    [.conditional (.plain ['a'] ['b']), .expression ['i', 'f']] := by
  have hc : headConditional? "if a {b} else if".toList = some (.plain ['a'] ['b'], ['i', 'f']) :=
    (headConditional?_of_isWordAt (s := danglingText) (i := 2) (by decide)).trans read?_danglingText
  have hnone : headConditional? ['i', 'f'] = none := Conditional.read?_eq_none_iff.2 rfl
  have hrest : siblings ['i', 'f'] = [.expression ['i', 'f']] :=
    (siblings_expression (by rfl) hnone).trans (congrArg _ (siblings_nil rfl))
  exact (siblings_conditional (by rfl) hc).trans (congrArg _ hrest)

theorem splitting_advances_danglingText :
    (2 < danglingText.length ∧ ¬OpensSeparator (danglingText.drop 2) ∧
        isWordAt danglingText 2 ['i', 'f'] = true ∧
        Conditional.read? (danglingText.drop 2) = some (.plain ['a'] ['b'], ['i', 'f'])) ∧
      2 < expressionEnd danglingText 2 ∧
      (∃ j, 2 < j ∧ j ≤ danglingText.length ∧ ['i', 'f'] = danglingText.drop j) ∧
      Splits 0 false danglingText 0
        [.conditional (.plain ['a'] ['b']), .expression ['i', 'f']] := by
  have hclear : ¬OpensSeparator (danglingText.drop 2) := by
    rw [opensSeparator_iff]
    rintro ⟨m, hm, hsep⟩
    cases hm
    cases hsep
  have hif : isWordAt danglingText 2 ['i', 'f'] = true := by decide
  obtain ⟨-, -, hexpression, -, hconditional⟩ := splitting_advances danglingText 2 (by decide)
  obtain ⟨-, -, -, hloop, -⟩ := splitting_advances danglingText 0 (by decide)
  refine ⟨⟨by decide, hclear, hif, read?_danglingText⟩, (hexpression (by decide) hclear).1,
    hconditional _ _ hif read?_danglingText, (hloop 0 false _ (by decide)).2 ?_⟩
  exact siblings_danglingText.symm

end ViewHierarchy
